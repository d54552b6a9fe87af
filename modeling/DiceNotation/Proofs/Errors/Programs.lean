import DiceNotation.Proofs.Errors.Faults

set_option autoImplicit false

/-!
# When a program is not parsed

What the parser blames when it fails, over a fixed stream. It settles on an operation from four tokens
before it has looked at them all as parts of a terminal. This blames no token too late: behind a
terminal that has been read stands what was found by looking ahead, so that a token leads nowhere
there unless the parser goes on with it.

## Main results

* `Parser.operatorWithin_faults` — looking for an operator fails at a failure of the stream.
* `Parser.expression_faults`, `Parser.expression_stage` — expressions, and what may follow them.
* `Parser.furtherExpressions_faults`, `Parser.furtherExpressions_stage` — the same behind separators.
* `Parser.program_faults` — what the failure of a program is due to.
-/

namespace DiceNotation

namespace Parser

variable {p q : Parser FixedStream} {s : Stage} {e : ParseError}

/-! ## Expressions -/

/-- Looking for an operator fails at a failure of the stream. -/
theorem operatorWithin_faults {n count : Nat} (h : operatorWithin n count p = some (.error e, q)) :
    p.Faults s e := by
  induction count generalizing n with
  | zero => exact absurd h Parse.pure_ne_error
  | succ count ih =>
    rcases Parse.bind_eq_error.1 h with hpeek | ⟨t, r, hpeek, hrest⟩
    · exact peekNth_faults hpeek
    · obtain ⟨-, rfl⟩ := peekNth_eq_ok.1 hpeek
      cases hk : t.kind <;> rw [hk] at hrest
      case operator | separator | eof => exact absurd hrest Parse.pure_ne_error
      all_goals exact ih hrest

/-- What was found by looking ahead is whether an operator stands behind the terminal. -/
theorem isOperator_of_operatorAhead {n : Node} {b : Bool} {t : Token}
    (hahead : operatorAhead p = some (.ok b, p)) (h : terminal p = some (.ok n, q))
    (ht : q.tokens.ahead 0 = .ok t) (hends : t.EndsTerminal) : b = decide (t.kind = .operator) := by
  obtain ⟨hterminal, hread⟩ := terminal_sound h
  have hfound := hahead.symm.trans (operatorAhead_complete hterminal hread ht hends)
  simpa using hfound

/-- Reading an expression fails where the tokens stop being those of an expression.

**Proof sketch.** Induction on the limit. If an operator is ahead but not the token behind the left
operand, then this token cannot stand behind a terminal at all, since looking ahead would have stopped
there. -/
theorem expression_faults {limit : Nat} (h : expression limit p = some (.error e, q)) :
    p.Faults .operand e := by
  induction limit generalizing p with
  | zero => simp [expression, giveUp] at h
  | succ limit ih =>
    rcases Parse.bind_eq_error.1 h with hahead | ⟨b, r, hahead, hrest⟩
    · exact operatorWithin_faults hahead
    obtain rfl := operatorWithin_sound hahead
    cases b with
    | false => exact terminal_faults hrest
    | true =>
      rcases Parse.bind_eq_error.1 hrest with hleft | ⟨left, p₁, hleft, hrest'⟩
      · exact terminal_faults hleft
      obtain ⟨-, hread⟩ := terminal_sound hleft
      obtain ⟨s, hrun, hawaits⟩ := terminal_stage hleft
      refine Faults.of_reads ?_ hread hrun
      rcases Parse.bind_eq_error.1 hrest' with hoperator | ⟨operator, p₂, hoperator, hright⟩
      · refine expect_faults hoperator hawaits.complete.ne_done
          (fun t ht hk => hawaits.step_eq_none ht fun hends => ?_) (by simp) (by simp)
        have hfound := isOperator_of_operatorAhead hahead hleft ht hends
        simp [hk] at hfound
      · obtain ⟨hk, hread'⟩ := expect_eq_ok.1 hoperator
        rcases Parse.bind_eq_error.1 hright with hright | ⟨_, _, -, hpure⟩
        · refine Faults.of_reads (ih hright) hread' ?_
          simp [Stage.run_cons, Stage.step_eq_leave hawaits.complete (Or.inl hk), Stage.leave, hk]
        · exact absurd hpure Parse.pure_ne_error

/-- Behind an expression that has been read, nothing but what can stand behind an expression leads
on. -/
theorem expression_stage {limit : Nat} {n : Node} (h : expression limit p = some (.ok n, q)) :
    ∃ s, Stage.operand.run n.tokens = some s ∧ q.Awaits s Token.EndsExpression := by
  induction limit generalizing p n with
  | zero => simp [expression, giveUp] at h
  | succ limit ih =>
    obtain ⟨b, r, hahead, hrest⟩ := Parse.bind_eq_ok.1 h
    obtain rfl := operatorWithin_sound hahead
    cases b with
    | false =>
      obtain ⟨s, hrun, hawaits⟩ := terminal_stage hrest
      refine ⟨s, hrun, hawaits.complete, fun ht hends => hawaits.step_eq_none ht ?_⟩
      rintro (hk | hends')
      · have hfound := isOperator_of_operatorAhead hahead hrest ht (Or.inl hk)
        simp [hk] at hfound
      · exact hends hends'
    | true =>
      simp only [↓reduceIte, Parse.bind_eq_ok, Parse.pure_eq_ok] at hrest
      obtain ⟨left, p₁, hleft, operator, p₂, hoperator, right, p₃, hright, rfl, rfl⟩ := hrest
      obtain ⟨hk, -⟩ := expect_eq_ok.1 hoperator
      obtain ⟨s₁, hrun₁, hawaits₁⟩ := terminal_stage hleft
      obtain ⟨s₂, hrun₂, hawaits₂⟩ := ih hright
      refine ⟨s₂, ?_, hawaits₂⟩
      rw [Node.tokens, Stage.run_append_of_eq hrun₁, Stage.run_cons,
        Stage.step_eq_leave hawaits₁.complete (Or.inl hk)]
      simpa [Stage.leave, hk] using hrun₂

/-! ## Lists of expressions -/

/-- Reading expressions behind separators fails where the tokens stop being those of expressions with
separators between them, if nothing else can follow the expression in front of them. -/
theorem furtherExpressions_faults {limit n : Nat}
    (h : furtherExpressions limit n p = some (.error e, q)) (hs : p.Awaits s Token.EndsExpression) :
    p.Faults s e := by
  induction n generalizing p s with
  | zero => simp [furtherExpressions, giveUp] at h
  | succ n ih =>
    rcases Parse.bind_eq_error.1 h with hnext | ⟨b, r, hnext, hrest⟩
    · exact isAt_faults hnext
    obtain ⟨t, ht, rfl, rfl⟩ := isAt_eq_ok.1 hnext
    by_cases hk : t.kind = .separator
    · simp only [hk, decide_true, ↓reduceIte] at hrest
      rcases Parse.bind_eq_error.1 hrest with hseparator | ⟨t', p₁, hseparator, hrest₁⟩
      · exact advance_faults hseparator
      have hread := advance_eq_ok.1 hseparator
      obtain rfl : t = t' := Except.ok.inj (ht.symm.trans (hread.ahead_of_getElem? rfl))
      have hrun : s.run [t] = some .operand := by
        simp [Stage.run_cons, Stage.step_eq_leave hs.complete (Or.inr (Or.inl hk)), Stage.leave, hk]
      refine Faults.of_reads ?_ hread hrun
      rcases Parse.bind_eq_error.1 hrest₁ with hitem | ⟨item, p₂, hitem, hrest₂⟩
      · exact expression_faults hitem
      obtain ⟨-, hread'⟩ := expression_sound hitem
      obtain ⟨s', hrun', hawaits'⟩ := expression_stage hitem
      refine Faults.of_reads ?_ hread' hrun'
      rcases Parse.bind_eq_error.1 hrest₂ with hpeek | ⟨u, r, hpeek, hrest₃⟩
      · exact peekNth_faults hpeek
      obtain ⟨hu, rfl⟩ := peekNth_eq_ok.1 hpeek
      split_ifs at hrest₃ with hends
      · refine misfit_faults hrest₃ hu hawaits'.complete.ne_done (hawaits'.step_eq_none hu ?_)
          (by simp) (by simp)
        rintro (hk' | hk')
        · exact hends.1 hk'
        · exact hends.2 hk'
      · rcases Parse.bind_eq_error.1 hrest₃ with hitems | ⟨_, _, -, hpure⟩
        · exact ih hitems hawaits'
        · exact absurd hpure Parse.pure_ne_error
    · simp only [hk, decide_false, Bool.false_eq_true, ↓reduceIte] at hrest
      exact absurd hrest Parse.pure_ne_error

/-- Behind expressions that have been read, nothing but the end leads on. -/
theorem furtherExpressions_stage {limit n : Nat} {items : List Node}
    (h : furtherExpressions limit n p = some (.ok items, q))
    (hs : p.Awaits s Token.EndsExpression) :
    ∃ ts s', p.Reads ts q ∧ s.run ts = some s' ∧ q.Awaits s' (·.kind = .eof) := by
  induction n generalizing p s items with
  | zero => simp [furtherExpressions, giveUp] at h
  | succ n ih =>
    obtain ⟨b, r, hnext, hrest⟩ := Parse.bind_eq_ok.1 h
    obtain ⟨t, ht, rfl, rfl⟩ := isAt_eq_ok.1 hnext
    by_cases hk : t.kind = .separator
    · simp only [hk, decide_true, ↓reduceIte, Parse.bind_eq_ok, advance_eq_ok] at hrest
      obtain ⟨t', p₁, hread₁, item, p₂, hitem, u, p₃, hpeek, hrest⟩ := hrest
      obtain ⟨-, rfl⟩ := peekNth_eq_ok.1 hpeek
      obtain rfl : t = t' := Except.ok.inj (ht.symm.trans (hread₁.ahead_of_getElem? rfl))
      split_ifs at hrest
      · exact absurd hrest misfit_ne_ok
      · obtain ⟨items', p₄, hitems, hpure⟩ := Parse.bind_eq_ok.1 hrest
        obtain ⟨rfl, rfl⟩ := Parse.pure_eq_ok.1 hpure
        obtain ⟨-, hread₂⟩ := expression_sound hitem
        obtain ⟨s₂, hrun₂, hawaits₂⟩ := expression_stage hitem
        obtain ⟨ts, s₃, hread₃, hrun₃, hawaits₃⟩ := ih hitems hawaits₂
        refine ⟨_, s₃, (hread₁.append hread₂).append hread₃, ?_, hawaits₃⟩
        rw [List.append_assoc, List.singleton_append, Stage.run_cons,
          Stage.step_eq_leave hs.complete (Or.inr (Or.inl hk)), ← hrun₃, ← Stage.run_append_of_eq hrun₂]
        simp [Stage.leave, hk]
    · simp only [hk, decide_false, Bool.false_eq_true, ↓reduceIte, Parse.pure_eq_ok] at hrest
      obtain ⟨rfl, rfl⟩ := hrest
      refine ⟨[], s, Reads.refl _, rfl, hs.complete, fun {u} hu hend => hs.step_eq_none hu ?_⟩
      obtain rfl : t = u := Except.ok.inj (ht.symm.trans hu)
      rintro (hk' | hk')
      · exact hk hk'
      · exact hend hk'

/-- Reading expressions with separators between them, or nothing, fails where the tokens stop being
these. -/
theorem expressions_faults {limit : Nat} (h : expressions limit p = some (.error e, q)) :
    p.Faults .first e := by
  rcases Parse.bind_eq_error.1 h with hnext | ⟨b, r, hnext, hrest⟩
  · exact isAt_faults hnext
  obtain ⟨t, ht, rfl, rfl⟩ := isAt_eq_ok.1 hnext
  by_cases hk : t.kind = .eof
  · simp only [hk, decide_true, ↓reduceIte] at hrest
    exact absurd hrest Parse.pure_ne_error
  · simp only [hk, decide_false, Bool.false_eq_true, ↓reduceIte] at hrest
    refine Faults.first ?_ ht hk
    rcases Parse.bind_eq_error.1 hrest with hitem | ⟨item, p₁, hitem, hrest'⟩
    · exact expression_faults hitem
    obtain ⟨-, hread⟩ := expression_sound hitem
    obtain ⟨s, hrun, hawaits⟩ := expression_stage hitem
    refine Faults.of_reads ?_ hread hrun
    rcases Parse.bind_eq_error.1 hrest' with hitems | ⟨_, _, -, hpure⟩
    · exact furtherExpressions_faults hitems hawaits
    · exact absurd hpure Parse.pure_ne_error

/-- Behind expressions that have been read, or where there are none, nothing but the end leads on. -/
theorem expressions_stage {limit : Nat} {items : List Node}
    (h : expressions limit p = some (.ok items, q)) :
    ∃ ts s, p.Reads ts q ∧ Stage.first.run ts = some s ∧ s ≠ .done ∧
      ∀ t, q.tokens.ahead 0 = .ok t → t.kind ≠ .eof → s.step t = none := by
  obtain ⟨b, r, hnext, hrest⟩ := Parse.bind_eq_ok.1 h
  obtain ⟨t, ht, rfl, rfl⟩ := isAt_eq_ok.1 hnext
  by_cases hk : t.kind = .eof
  · simp only [hk, decide_true, ↓reduceIte, Parse.pure_eq_ok] at hrest
    obtain ⟨rfl, rfl⟩ := hrest
    refine ⟨[], .first, Reads.refl _, rfl, by simp, fun u hu hend => absurd hk ?_⟩
    obtain rfl : t = u := Except.ok.inj (ht.symm.trans hu)
    exact hend
  · simp only [hk, decide_false, Bool.false_eq_true, ↓reduceIte, Parse.bind_eq_ok,
      Parse.pure_eq_ok] at hrest
    obtain ⟨item, p₁, hitem, items', p₂, hitems, rfl, rfl⟩ := hrest
    obtain ⟨hexpression, hread₁⟩ := expression_sound hitem
    obtain ⟨s₁, hrun₁, hawaits₁⟩ := expression_stage hitem
    obtain ⟨ts, s₂, hread₂, hrun₂, hawaits₂⟩ := furtherExpressions_stage hitems hawaits₁
    refine ⟨_, s₂, hread₁.append hread₂, ?_, hawaits₂.complete.ne_done,
      fun t ht hk => hawaits₂.step_eq_none ht hk⟩
    obtain ⟨u, us, hus, -⟩ := hexpression.exists_cons
    obtain rfl : u = t :=
      Except.ok.inj ((hread₁.ahead_of_getElem? (by rw [hus]; rfl)).symm.trans ht)
    rw [hus, List.cons_append, Stage.run_first hk, ← List.cons_append, ← hus,
      Stage.run_append_of_eq hrun₁, hrun₂]

/-! ## Programs -/

/-- Reading a program fails where the tokens stop being those of a sentence. -/
theorem program_faults {limit : Nat} (h : program limit p = some (.error e, q)) :
    p.Faults .start e := by
  rcases Parse.bind_eq_error.1 h with hstart | ⟨start, p₁, hstart, hrest₁⟩
  · exact expect_faults hstart (by simp) (fun t _ hk => if_neg hk) (by simp) (by simp)
  obtain ⟨hk, hread₁⟩ := expect_eq_ok.1 hstart
  have hrun₁ : Stage.start.run [start] = some .first := by simp [Stage.run_cons, Stage.step, hk]
  refine Faults.of_reads ?_ hread₁ hrun₁
  rcases Parse.bind_eq_error.1 hrest₁ with hitems | ⟨items, p₂, hitems, hrest₂⟩
  · exact expressions_faults hitems
  obtain ⟨ts, s, hread₂, hrun, hlive, hrefuses⟩ := expressions_stage hitems
  refine Faults.of_reads ?_ hread₂ hrun
  rcases Parse.bind_eq_error.1 hrest₂ with hstop | ⟨_, _, -, hpure⟩
  · exact expect_faults hstop hlive hrefuses (by simp) (by simp)
  · exact absurd hpure Parse.pure_ne_error

end Parser

end DiceNotation
