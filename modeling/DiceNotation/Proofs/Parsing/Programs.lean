import DiceNotation.Proofs.Parsing.Steps

set_option autoImplicit false

/-!
# What the parser accepts

Over a fixed stream, the parser accepts exactly the programs of the grammar that lie ahead, as far as
its limit allows. Whether an operation or a terminal comes is decided by looking at four tokens; that
is enough because a terminal has no more than four tokens, none of which is an operator, a separator
or the end.

## Main results

* `Parser.operatorAhead_complete` — looking ahead finds what stands behind a terminal.
* `Parser.expression_sound`, `Parser.expression_complete` — expressions.
* `Parser.program_sound` — what is accepted is a program, and its tokens have been read.
* `Parser.program_complete` — a program that lies ahead is accepted.
-/

namespace DiceNotation

namespace Parser

variable {p q : Parser FixedStream}

/-! ## Operators ahead -/

/-- Looking for an operator reads nothing. -/
theorem operatorWithin_sound {n count : Nat} {b : Bool}
    (h : operatorWithin n count p = some (.ok b, q)) : q = p := by
  induction count generalizing n with
  | zero => exact (Parse.pure_eq_ok.1 h).2.symm
  | succ count ih =>
    rw [operatorWithin, Parse.bind_eq_ok] at h
    obtain ⟨t, r, hpeek, h⟩ := h
    obtain ⟨-, rfl⟩ := peekNth_eq_ok.1 hpeek
    cases hk : t.kind <;> rw [hk] at h
    case operator | separator | eof => exact (Parse.pure_eq_ok.1 h).2.symm
    all_goals exact ih h

/-- Looking for an operator stops at the first token that can stand behind a terminal.

**Proof sketch.** Induction on the number of places that are looked at. The token at the first place
either is the one looked for, or it cannot stand behind a terminal and is passed over. -/
theorem operatorWithin_complete {n count j : Nat} {next : Token} (hj : n ≤ j) (hj' : j < n + count)
    (hnext : p.tokens.ahead j = .ok next) (hends : next.EndsTerminal)
    (hinner : ∀ i, n ≤ i → i < j → ∃ t, p.tokens.ahead i = .ok t ∧ ¬ t.EndsTerminal) :
    operatorWithin n count p = some (.ok (decide (next.kind = .operator)), p) := by
  induction count generalizing n with
  | zero => omega
  | succ count ih =>
    refine Parse.bind_eq_ok.2 ?_
    rcases Nat.eq_or_lt_of_le hj with rfl | hlt
    · refine ⟨next, p, peekNth_eq_ok.2 ⟨hnext, rfl⟩, ?_⟩
      rcases hends with h | h | h <;> simp [h, Parse.pure_apply]
    · obtain ⟨t, ht, hne⟩ := hinner n (Nat.le_refl n) hlt
      refine ⟨t, p, peekNth_eq_ok.2 ⟨ht, rfl⟩, ?_⟩
      have hrest := ih hlt (by omega) fun i hi => hinner i (by omega)
      unfold Token.EndsTerminal Token.EndsExpression at hne
      cases hk : t.kind <;> simp_all

/-- Looking ahead from a terminal finds out whether an operator stands behind it. -/
theorem operatorAhead_complete {n : Node} {next : Token} (hn : n.IsTerminal)
    (hread : p.Reads n.tokens q) (hnext : q.tokens.ahead 0 = .ok next) (hends : next.EndsTerminal) :
    operatorAhead p = some (.ok (decide (next.kind = .operator)), p) := by
  obtain ⟨hpos, hle⟩ := hn.length_tokens
  refine operatorWithin_complete hpos (by omega) ((hread.ahead_add 0).trans hnext) hends ?_
  intro i _ hi
  refine ⟨n.tokens[i], hread.ahead_of_getElem? (List.getElem?_eq_getElem hi), ?_⟩
  have hkind := hn.kind_of_mem (List.getElem_mem hi)
  unfold Token.EndsTerminal Token.EndsExpression
  rcases hkind with h | h | h <;> simp [h]

/-! ## Expressions -/

/-- An expression that has been read is an expression. -/
theorem expression_sound {limit : Nat} {n : Node} (h : expression limit p = some (.ok n, q)) :
    n.IsExpression ∧ p.Reads n.tokens q := by
  induction limit generalizing p n with
  | zero => simp [expression, giveUp] at h
  | succ limit ih =>
    rw [expression, Parse.bind_eq_ok] at h
    obtain ⟨b, r, hahead, h⟩ := h
    obtain rfl := operatorWithin_sound hahead
    split at h
    · simp only [Parse.bind_eq_ok, Parse.pure_eq_ok] at h
      obtain ⟨left, p₁, hleft, operator, p₂, hoperator, right, p₃, hright, rfl, rfl⟩ := h
      obtain ⟨hterminal, hread₁⟩ := terminal_sound hleft
      obtain ⟨hkind, hread₂⟩ := expect_eq_ok.1 hoperator
      obtain ⟨hexpression, hread₃⟩ := ih hright
      exact ⟨.operation hterminal hkind hexpression, hread₁.append (hread₂.append hread₃)⟩
    · obtain ⟨hterminal, hread⟩ := terminal_sound h
      exact ⟨.terminal hterminal, hread⟩

/-- An expression is read where it is ahead, if a separator or the end follows it.

**Proof sketch.** Induction on the expression. Looking ahead from a terminal at the end of the
expression finds what follows the expression, which is no operator; looking ahead from the left
operand of an operation finds its operator. -/
theorem expression_complete {limit : Nat} {n : Node} (hn : n.IsExpression)
    (hread : p.Reads n.tokens q) (hq : ∃ t, q.tokens.ahead 0 = .ok t ∧ t.EndsExpression)
    (hlimit : n.tokens.length ≤ limit) : expression limit p = some (.ok n, q) := by
  induction hn generalizing p limit with
  | @terminal n hn =>
    obtain ⟨next, hnext, hends⟩ := hq
    obtain ⟨k, rfl⟩ : ∃ k, limit = k + 1 := ⟨limit - 1, by have := hn.length_tokens; omega⟩
    have hno : next.kind ≠ .operator := by rcases hends with h | h <;> simp [h]
    refine Parse.bind_eq_ok.2 ⟨_, p, operatorAhead_complete hn hread hnext (Or.inr hends), ?_⟩
    simp only [hno, decide_false, Bool.false_eq_true, ↓reduceIte]
    exact terminal_complete hn hread ⟨next, hnext, Or.inr hends⟩
  | @operation left right operator hleft hoperator hright ih =>
    obtain ⟨p₁, hread₁, hread₂⟩ := reads_append.1 hread
    obtain ⟨p₂, hread₂, hread₃⟩ := reads_cons.1 hread₂
    have hnext : p₁.tokens.ahead 0 = .ok operator := hread₂.ahead_of_getElem? rfl
    have hends : operator.EndsTerminal := Or.inl hoperator
    simp only [Node.tokens, List.length_append, List.length_cons] at hlimit
    obtain ⟨k, rfl⟩ : ∃ k, limit = k + 1 := ⟨limit - 1, by omega⟩
    refine Parse.bind_eq_ok.2 ⟨_, p, operatorAhead_complete hleft hread₁ hnext hends, ?_⟩
    simp only [hoperator, decide_true, ↓reduceIte]
    refine Parse.bind_eq_ok.2 ⟨left, p₁, terminal_complete hleft hread₁ ⟨operator, hnext, hends⟩, ?_⟩
    refine Parse.bind_eq_ok.2 ⟨operator, p₂, expect_eq_ok.2 ⟨hoperator, hread₂⟩, ?_⟩
    exact Parse.bind_eq_ok.2 ⟨right, q, ih hread₃ (by omega), rfl⟩

/-! ## Lists of expressions -/

/-- Further expressions that have been read are expressions, each behind a separator. -/
theorem furtherExpressions_sound {limit n : Nat} {items : List Node}
    (h : furtherExpressions limit n p = some (.ok items, q)) :
    ∃ ts, Program.Further items ts ∧ p.Reads ts q := by
  induction n generalizing p items with
  | zero => simp [furtherExpressions, giveUp] at h
  | succ n ih =>
    rw [furtherExpressions, Parse.bind_eq_ok] at h
    obtain ⟨b, r, hat, h⟩ := h
    obtain ⟨t, ht, rfl, rfl⟩ := isAt_eq_ok.1 hat
    by_cases hk : t.kind = .separator
    · simp only [hk, decide_true, ↓reduceIte, Parse.bind_eq_ok, advance_eq_ok] at h
      obtain ⟨separator, p₁, hread₁, item, p₂, hitem, next, p₃, hpeek, h⟩ := h
      obtain ⟨-, rfl⟩ := peekNth_eq_ok.1 hpeek
      split at h
      · exact absurd h misfit_ne_ok
      · simp only [Parse.bind_eq_ok, Parse.pure_eq_ok] at h
        obtain ⟨items', p₄, hitems, rfl, rfl⟩ := h
        obtain ⟨hexpression, hread₂⟩ := expression_sound hitem
        obtain ⟨ts, hfurther, hread₃⟩ := ih hitems
        obtain rfl : t = separator := Except.ok.inj (ht.symm.trans (hread₁.ahead_of_getElem? rfl))
        exact ⟨_, .cons hk hexpression hfurther, (hread₁.append hread₂).append hread₃⟩
    · simp only [hk, decide_false, Bool.false_eq_true, ↓reduceIte, Parse.pure_eq_ok] at h
      obtain ⟨rfl, rfl⟩ := h
      exact ⟨[], .nil, Reads.refl _⟩

/-- In front of further expressions and the end stands a token that ends an expression. -/
theorem exists_endsExpression {items : List Node} {ts : List Token}
    (hitems : Program.Further items ts) (hread : p.Reads ts q)
    (hq : ∃ t, q.tokens.ahead 0 = .ok t ∧ t.kind = .eof) :
    ∃ t, p.tokens.ahead 0 = .ok t ∧ t.EndsExpression := by
  cases hitems with
  | nil =>
    obtain ⟨next, hnext, hend⟩ := hq
    obtain rfl : q = p := hread.2
    exact ⟨next, hnext, Or.inr hend⟩
  | cons hseparator => exact ⟨_, hread.ahead_of_getElem? rfl, Or.inl hseparator⟩

/-- Further expressions are read where they are ahead, up to the end. -/
theorem furtherExpressions_complete {limit n : Nat} {items : List Node} {ts : List Token}
    (hitems : Program.Further items ts) (hread : p.Reads ts q)
    (hq : ∃ t, q.tokens.ahead 0 = .ok t ∧ t.kind = .eof) (hlimit : ts.length ≤ limit)
    (hn : ts.length < n) : furtherExpressions limit n p = some (.ok items, q) := by
  induction hitems generalizing p n with
  | nil =>
    obtain ⟨k, rfl⟩ : ∃ k, n = k + 1 := ⟨n - 1, by omega⟩
    obtain ⟨next, hnext, hend⟩ := hq
    obtain rfl : q = p := hread.2
    refine Parse.bind_eq_ok.2 ⟨false, q, isAt_eq_ok.2 ⟨next, hnext, by simp [hend], rfl⟩, ?_⟩
    rfl
  | @cons separator item items ts hseparator hitem hitems ih =>
    obtain ⟨p₂, hread, hread₃⟩ := reads_append.1 hread
    obtain ⟨p₁, hread₁, hread₂⟩ := reads_cons.1 hread
    simp only [List.length_append, List.length_cons] at hlimit hn
    obtain ⟨k, rfl⟩ : ∃ k, n = k + 1 := ⟨n - 1, by omega⟩
    -- what follows the expression is the separator of the next one, or the end
    obtain ⟨next, hnext, hends⟩ := exists_endsExpression hitems hread₃ hq
    have hfits : ¬ (next.kind ≠ .separator ∧ next.kind ≠ .eof) := by
      rcases hends with h | h <;> simp [h]
    refine Parse.bind_eq_ok.2 ⟨true, p, isAt_eq_ok.2
      ⟨separator, hread₁.ahead_of_getElem? rfl, by simp [hseparator], rfl⟩, ?_⟩
    simp only [↓reduceIte, Parse.bind_eq_ok, advance_eq_ok]
    refine ⟨separator, p₁, hread₁, item, p₂,
      expression_complete hitem hread₂ ⟨next, hnext, hends⟩ (by omega), next, p₂,
      peekNth_eq_ok.2 ⟨hnext, rfl⟩, ?_⟩
    rw [if_neg hfits, Parse.bind_eq_ok]
    exact ⟨items, q, ih hread₃ (by omega) (by omega), rfl⟩

/-- Expressions that have been read are expressions with separators between them. -/
theorem expressions_sound {limit : Nat} {items : List Node}
    (h : expressions limit p = some (.ok items, q)) :
    ∃ ts, Program.Listing items ts ∧ p.Reads ts q := by
  rw [expressions, Parse.bind_eq_ok] at h
  obtain ⟨b, r, hat, h⟩ := h
  obtain ⟨t, ht, rfl, rfl⟩ := isAt_eq_ok.1 hat
  by_cases hk : t.kind = .eof
  · simp only [hk, decide_true, ↓reduceIte, Parse.pure_eq_ok] at h
    obtain ⟨rfl, rfl⟩ := h
    exact ⟨[], .nil, Reads.refl _⟩
  · simp only [hk, decide_false, Bool.false_eq_true, ↓reduceIte, Parse.bind_eq_ok,
      Parse.pure_eq_ok] at h
    obtain ⟨item, p₁, hitem, items', p₂, hitems, rfl, rfl⟩ := h
    obtain ⟨hexpression, hread₁⟩ := expression_sound hitem
    obtain ⟨ts, hfurther, hread₂⟩ := furtherExpressions_sound hitems
    exact ⟨_, .cons hexpression hfurther, hread₁.append hread₂⟩

/-- Expressions are read where they are ahead, up to the end. -/
theorem expressions_complete {limit : Nat} {items : List Node} {ts : List Token}
    (hitems : Program.Listing items ts) (hread : p.Reads ts q)
    (hq : ∃ t, q.tokens.ahead 0 = .ok t ∧ t.kind = .eof) (hlimit : ts.length < limit) :
    expressions limit p = some (.ok items, q) := by
  rw [expressions, Parse.bind_eq_ok]
  cases hitems with
  | nil =>
    obtain ⟨next, hnext, hend⟩ := hq
    obtain rfl : q = p := hread.2
    exact ⟨true, q, isAt_eq_ok.2 ⟨next, hnext, by simp [hend], rfl⟩, rfl⟩
  | @cons item items ts hitem hitems =>
    obtain ⟨p₁, hread₁, hread₂⟩ := reads_append.1 hread
    rw [List.length_append] at hlimit
    obtain ⟨t, us, hus, hk⟩ := hitem.exists_cons
    have ht : p.tokens.ahead 0 = .ok t := hread₁.ahead_of_getElem? (by rw [hus]; rfl)
    have hne : t.kind ≠ .eof := by rcases hk with h | h <;> simp [h]
    refine ⟨false, p, isAt_eq_ok.2 ⟨t, ht, by simp [hne], rfl⟩, ?_⟩
    simp only [Bool.false_eq_true, ↓reduceIte, Parse.bind_eq_ok, Parse.pure_eq_ok]
    refine ⟨item, p₁, ?_, items, q, ?_, rfl, rfl⟩
    · exact expression_complete hitem hread₁ (exists_endsExpression hitems hread₂ hq) (by omega)
    · refine furtherExpressions_complete hitems hread₂ hq (by omega) ?_
      have := congrArg List.length hus
      rw [List.length_cons] at this
      omega

/-! ## Programs -/

/-- What is accepted is a program, and its tokens have been read. -/
theorem program_sound {limit : Nat} {prog : Program} (h : program limit p = some (.ok prog, q)) :
    ∃ ts, prog.Spelling ts ∧ p.Reads ts q := by
  simp only [program, Parse.bind_eq_ok, expect_eq_ok, Parse.pure_eq_ok] at h
  obtain ⟨start, p₁, ⟨hstart, hread₁⟩, items, p₂, hitems, stop, p₃, ⟨hstop, hread₃⟩, rfl, rfl⟩ := h
  obtain ⟨ts, hlisting, hread₂⟩ := expressions_sound hitems
  exact ⟨_, .program hstart hlisting hstop, (hread₁.append hread₂).append hread₃⟩

/-- A program that lies ahead is accepted, and its tokens are read. -/
theorem program_complete {limit : Nat} {prog : Program} {ts : List Token} (hprog : prog.Spelling ts)
    (hread : p.Reads ts q) (hlimit : ts.length ≤ limit) :
    program limit p = some (.ok prog, q) := by
  cases hprog with
  | @program start stop items ts hstart hitems hstop =>
    obtain ⟨p₂, hread, hread₃⟩ := reads_append.1 hread
    obtain ⟨p₁, hread₁, hread₂⟩ := reads_cons.1 hread
    simp only [List.length_append, List.length_cons, List.length_nil] at hlimit
    simp only [program, Parse.bind_eq_ok, expect_eq_ok, Parse.pure_eq_ok]
    refine ⟨start, p₁, ⟨hstart, hread₁⟩, items, p₂, ?_, stop, q, ⟨hstop, hread₃⟩, rfl, rfl⟩
    exact expressions_complete hitems hread₂ ⟨stop, hread₃.ahead_of_getElem? rfl, hstop⟩ (by omega)

end Parser

end DiceNotation
