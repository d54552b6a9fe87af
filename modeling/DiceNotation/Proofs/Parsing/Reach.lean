import DiceNotation.Proofs.Errors.Programs

set_option autoImplicit false

/-!
# How far the parser reads

A stream repeats its last item for ever, so nothing in the stream itself makes a parser stop. What does
is that no token leads on right behind itself: of the tokens that lead through stages of a sentence, at
most one is taken from the repetition. A failed step has read one token more than these at most. So parsing
ends, and it ends at most two tokens behind the place where the repetition begins.

## Main definitions

* `Parser.Stops` — a step has stopped behind tokens of which all but the last lead on.

## Main results

* `Stage.step_eq_none_of_step` — no token leads on right behind itself.
* `FixedStream.Starts.length_le` — how many tokens ahead can lead on.
* `Parser.terminal_stops`, `Parser.expression_stops`, `Parser.program_stops` — where steps stop.
* `Parser.Stops.cursor_le` — how far a parser has read that has stopped.
* `Parser.parse_ends` — parsing ends, and how far it has read then.
-/

namespace DiceNotation

/-! ## No token twice in a row -/

namespace Stage

variable {s s' : Stage} {t : Token}

/-- The first token of a terminal leads nowhere right behind itself. -/
theorem step_eq_none_of_enter (h : enter t = some s) : s.step t = none := by
  rcases enter_eq_some h with ⟨hk, rfl⟩ | ⟨value, hvalue, rfl⟩
  · simp [step, Token.value?, hk]
  · simp [step, leave, hvalue.kind]

/-- A token behind a terminal leads nowhere right behind itself. -/
theorem step_eq_none_of_leave (h : leave t = some s) : s.step t = none := by
  unfold leave at h
  split at h
  next hk =>
    obtain rfl := Option.some.inj h
    simp [step, enter, Token.value?, hk]
  next hk =>
    obtain rfl := Option.some.inj h
    simp [step, enter, Token.value?, hk]
  next =>
    obtain rfl := Option.some.inj h
    rfl
  next => simp at h

/-- A token that has led on leads nowhere right behind itself. -/
theorem step_eq_none_of_step (h : s.step t = some s') : s'.step t = none := by
  cases s with
  | start =>
    rw [step] at h
    split_ifs at h with hk
    obtain rfl := Option.some.inj h
    simp [step, enter, Token.value?, hk]
  | first =>
    rw [step] at h
    split_ifs at h with hk
    · obtain rfl := Option.some.inj h
      rfl
    · exact step_eq_none_of_enter h
  | operand => exact step_eq_none_of_enter h
  | number value =>
    rw [step] at h
    split_ifs at h with hcount
    · obtain rfl := Option.some.inj h
      simp [step, Token.value?, hcount.1]
    · exact step_eq_none_of_leave h
  | letter =>
    obtain ⟨value, hvalue, rfl⟩ := Option.map_eq_some_iff.1 h
    simp [step, leave, Token.isModifier_iff, (Token.isNumber_iff.2 hvalue).kind]
  | faces value =>
    rw [step] at h
    split_ifs at h with hmodifier
    · obtain rfl := Option.some.inj h
      simp [step, leave, hmodifier.kind]
    · exact step_eq_none_of_leave h
  | modified => exact step_eq_none_of_leave h
  | done => simp [step] at h

/-- Tokens that lead on do not end with the same token twice. -/
theorem ne_of_run_append_pair {ts : List Token} {u : Token} (h : (s.run (ts ++ [t, u])).isSome) :
    t ≠ u := by
  rintro rfl
  obtain ⟨s₃, h⟩ := Option.isSome_iff_exists.1 h
  rw [run_append] at h
  obtain ⟨s₁, -, h⟩ := Option.bind_eq_some_iff.1 h
  rw [run_cons] at h
  obtain ⟨s₂, hstep, h⟩ := Option.bind_eq_some_iff.1 h
  rw [run_cons, step_eq_none_of_step hstep] at h
  simp at h

end Stage

namespace FixedStream

variable {f : FixedStream} {s : Stage} {ts : List Token}

/-- From the last item on, all items are the same. -/
theorem ahead_succ_eq {n : Nat} (h : f.items.length ≤ f.cursor + n + 1) :
    f.ahead (n + 1) = f.ahead n := by
  have hsize : TokenStream.size (f.behind n) ≤ 1 := by
    show f.items.length - (f.cursor + n) ≤ 1
    omega
  have hall := Parser.ahead_eq_ahead_zero hsize 1
  rwa [ahead_behind, ahead_behind] at hall

/-- Tokens ahead that lead on end with the last item, or right behind where they begin.

**Proof sketch.** Otherwise the last two of them are both taken from the repetition, so they are the
same token. -/
theorem Starts.length_le (h : f.Starts ts) (hrun : (s.run ts).isSome) :
    f.cursor + ts.length ≤ max (f.cursor + 1) f.items.length := by
  by_contra hlong
  have hshort : 2 ≤ ts.length := by omega
  obtain ⟨vs, t, u, rfl⟩ : ∃ vs t u, ts = vs ++ [t, u] := by
    obtain ⟨us, u, rfl⟩ := (List.eq_nil_or_concat ts).resolve_left (by rintro rfl; simp at hshort)
    obtain ⟨vs, t, rfl⟩ := (List.eq_nil_or_concat us).resolve_left (by rintro rfl; simp at hshort)
    exact ⟨vs, t, u, by simp⟩
  simp only [List.length_append, List.length_cons, List.length_nil] at hlong
  have ht : f.ahead vs.length = .ok t := h _ t (by simp)
  have hu : f.ahead (vs.length + 1) = .ok u := h _ u (by simp)
  rw [ahead_succ_eq (by omega), ht] at hu
  exact Stage.ne_of_run_append_pair hrun (Except.ok.inj hu)

end FixedStream

/-! ## Where failed steps stop -/

namespace Parser

variable {p q r : Parser FixedStream} {s s' : Stage} {e : ParseError}

/-- From stage `s`, the parser has gone from `p` to `q` behind tokens of which all but the last lead
on. -/
def Stops (p : Parser FixedStream) (s : Stage) (q : Parser FixedStream) : Prop :=
  ∃ ts, p.tokens.Starts ts ∧ q.tokens = p.tokens.behind ts.length ∧ (s.run ts.dropLast).isSome

/-- Where tokens lead on, the parser stops behind them. -/
theorem Reads.stops {ts : List Token} (h : p.Reads ts q) (hrun : s.run ts = some s') :
    p.Stops s q := by
  refine ⟨ts, h.1, by rw [h.2, behind_tokens], ?_⟩
  exact Stage.run_isSome_of_isPrefix (List.dropLast_prefix ts) hrun

/-- One token may be read anywhere. -/
theorem Reads.stops_singleton {t : Token} (h : p.Reads [t] q) : p.Stops s q :=
  ⟨[t], h.1, by rw [h.2, behind_tokens], rfl⟩

/-- A parser that has read nothing stops where it stands. -/
theorem stops_of_tokens_eq (h : q.tokens = p.tokens) : p.Stops s q :=
  ⟨[], p.tokens.starts_nil, h, rfl⟩

/-- Where a parser stops behind tokens that lead on, it stops in front of them. -/
theorem Stops.of_reads {us : List Token} (h : q.Stops s' r) (hread : p.Reads us q)
    (hrun : s.run us = some s') : p.Stops s r := by
  obtain ⟨ts, hstarts, htokens, hlead⟩ := h
  have hall : p.Reads (us ++ ts) (q.behind ts) := hread.append ⟨hstarts, rfl⟩
  refine ⟨us ++ ts, hall.1, ?_, ?_⟩
  · rw [htokens, hread.2, behind_tokens, FixedStream.behind_behind, List.length_append]
  · rcases ts.eq_nil_or_concat with rfl | ⟨ts', t, rfl⟩
    · rw [List.append_nil]
      exact Stage.run_isSome_of_isPrefix (List.dropLast_prefix us) hrun
    · rw [List.concat_eq_append, List.dropLast_concat] at hlead
      rwa [List.concat_eq_append, ← List.append_assoc, List.dropLast_concat,
        Stage.run_append_of_eq hrun]

/-- Where an expression may come and is not missing, the parser stops where it does if one has to
come. -/
theorem Stops.first {t : Token} (h : p.Stops .operand q) (ht : p.tokens.ahead 0 = .ok t)
    (hk : t.kind ≠ .eof) : p.Stops .first q := by
  obtain ⟨ts, hstarts, htokens, hlead⟩ := h
  refine ⟨ts, hstarts, htokens, ?_⟩
  match ts with
  | [] => rfl
  | [_] => rfl
  | u :: v :: us =>
    obtain rfl : u = t := Except.ok.inj ((hstarts 0 u rfl).symm.trans ht)
    rwa [List.dropLast_cons_cons, Stage.run_first hk]

/-- Looking ahead reads nothing. -/
theorem eq_of_peekNth {n : Nat} (h : peekNth n p = some (.error e, q)) : q = p := by
  have hpeek : peekNth n p = some ((p.tokens.ahead n).mapError .unknownToken, p) := rfl
  exact (congrArg Prod.snd (Option.some.inj (hpeek.symm.trans h))).symm

/-- Looking for a kind of token reads nothing. -/
theorem eq_of_isAt {n : Nat} {kind : TokenKind} (h : isAt n kind p = some (.error e, q)) :
    q = p := by
  rcases Parse.bind_eq_error.1 h with h | ⟨_, _, -, h⟩
  · exact eq_of_peekNth h
  · exact absurd h Parse.pure_ne_error

/-- Reading fails without having read anything. -/
theorem tokens_eq_of_advance (h : advance p = some (.error e, q)) : q.tokens = p.tokens := by
  unfold advance at h
  cases hahead : p.tokens.ahead 0 with
  | ok t =>
    rw [FixedStream.next_of_ok hahead] at h
    simp at h
  | error u =>
    rw [FixedStream.next_of_error hahead] at h
    simp only [Option.some.injEq, Prod.mk.injEq] at h
    rw [← h.2]

/-- A step that reads a token and fails behind it has read no other. -/
theorem advance_bind_stops {α : Type} {f : Token → Parse FixedStream α}
    (h : (advance >>= f) p = some (.error e, q))
    (hf : ∀ t r, f t r = some (.error e, q) → q = r) : p.Stops s q := by
  rcases Parse.bind_eq_error.1 h with h | ⟨t, r, hread, h⟩
  · exact stops_of_tokens_eq (tokens_eq_of_advance h)
  · obtain rfl := hf t r h
    exact (advance_eq_ok.1 hread).stops_singleton

/-- A failure leaves the parser where it stands. -/
theorem eq_of_fail {α : Type} {e' : ParseError}
    (h : (fail e' : Parse FixedStream α) p = some (.error e, q)) : q = p :=
  (congrArg Prod.snd (Option.some.inj h)).symm

/-- Reading a token of a kind has read one token at most. -/
theorem expect_stops {kind : TokenKind} {cause : Misfit}
    (h : expect kind cause p = some (.error e, q)) : p.Stops s q := by
  refine advance_bind_stops h fun t r h => ?_
  split_ifs at h
  · exact absurd h Parse.pure_ne_error
  · exact eq_of_fail h

/-- Reading a number has read one token at most. -/
theorem number_stops (h : number p = some (.error e, q)) : p.Stops s q := by
  rcases Parse.bind_eq_error.1 h with h | ⟨position, r, hlast, h⟩
  · simp [lastPos] at h
  obtain rfl : p = r := congrArg Prod.snd (Option.some.inj hlast)
  refine advance_bind_stops h fun t r h => ?_
  cases hv : if t.kind = .number then Numeral.int32? t.lexeme else none with
  | some value =>
    rw [hv] at h
    exact absurd h Parse.pure_ne_error
  | none =>
    rw [hv] at h
    exact eq_of_fail h

/-- Reading a number of dice has read one token at most. -/
theorem times_stops (h : times p = some (.error e, q)) : p.Stops s q := by
  rcases Parse.bind_eq_error.1 h with h | ⟨⟨t, value⟩, r, hnumber, h⟩
  · exact number_stops h
  · obtain ⟨-, hread⟩ := number_eq_ok.1 hnumber
    simp only at h
    split_ifs at h
    · exact absurd h Parse.pure_ne_error
    · obtain rfl := eq_of_fail h
      exact hread.stops_singleton

/-- Reading a modifier has read one token at most. -/
theorem modifier_stops {faces : Int32} (h : modifier faces p = some (.error e, q)) :
    p.Stops s q := by
  refine advance_bind_stops h fun t r h => ?_
  cases hm : t.lexeme.toList.head?.bind Modifier.ofChar? with
  | none =>
    rw [hm] at h
    exact eq_of_fail h
  | some m =>
    rw [hm] at h
    cases m with
    | explode =>
      simp only at h
      split_ifs at h
      · exact eq_of_fail h
      · exact absurd h Parse.pure_ne_error
    | _ => exact absurd h Parse.pure_ne_error

/-- What comes behind the letter stops behind the faces or the modifier. -/
theorem faces_stops {count : Option Token} {dSymbol : Token}
    (h : (do
      let (faces, value) ← number
      let mode ← if ← nextIs .modifier then some <$> modifier value else pure none
      return .dice count dSymbol faces mode : Parse FixedStream Node) p = some (.error e, q)) :
    p.Stops .letter q := by
  rcases Parse.bind_eq_error.1 h with hnumber | ⟨⟨faces, value⟩, r, hnumber, hrest⟩
  · exact number_stops hnumber
  obtain ⟨hfaces, hread⟩ := number_eq_ok.1 hnumber
  have hrun : Stage.letter.run [faces] = some (.faces value) := by
    simp [Stage.run_cons, Stage.step, Token.isNumber_iff.1 hfaces]
  refine Stops.of_reads ?_ hread hrun
  rcases optional_eq_error hrest with hnext | ⟨t, -, ⟨-, hmode | ⟨_, _, -, hpure⟩⟩ | ⟨-, hpure⟩⟩
  · exact stops_of_tokens_eq (by rw [eq_of_isAt hnext])
  · exact modifier_stops hmode
  · exact absurd hpure Parse.pure_ne_error
  · exact absurd hpure Parse.pure_ne_error

/-- Reading dice stops behind tokens that lead on, and one more. -/
theorem dice_stops (h : dice p = some (.error e, q)) : p.Stops .operand q := by
  unfold dice at h
  rcases optional_eq_error h with hnext | ⟨t, -, ⟨-, hcount | ⟨c, r, hcount, hrest⟩⟩ | ⟨-, hrest⟩⟩
  · exact stops_of_tokens_eq (by rw [eq_of_isAt hnext])
  · exact times_stops hcount
  · obtain ⟨⟨value, hvalue, hrange⟩, hread⟩ := times_eq_ok.1 hcount
    refine Stops.of_reads ?_ hread (Stage.run_number hvalue)
    rcases Parse.bind_eq_error.1 hrest with hletter | ⟨d, r', hletter, hrest⟩
    · exact expect_stops hletter
    · obtain ⟨hd, hread'⟩ := expect_eq_ok.1 hletter
      refine (faces_stops hrest).of_reads hread' ?_
      simp [Stage.run_cons, Stage.step, hd, hrange]
  · rcases Parse.bind_eq_error.1 hrest with hletter | ⟨d, r', hletter, hrest⟩
    · exact expect_stops hletter
    · obtain ⟨hd, hread'⟩ := expect_eq_ok.1 hletter
      refine (faces_stops hrest).of_reads hread' ?_
      simp [Stage.run_cons, Stage.step, Stage.enter, hd]

/-- Reading a terminal stops behind tokens that lead on, and one more. -/
theorem terminal_stops (h : terminal p = some (.error e, q)) : p.Stops .operand q := by
  rcases Parse.bind_eq_error.1 h with hat | ⟨is, r, hat, hrest⟩
  · exact stops_of_tokens_eq (by rw [eq_of_isAt hat])
  obtain ⟨t, -, rfl, rfl⟩ := isAt_eq_ok.1 hat
  by_cases hk : t.kind = .dSymbol
  · simp only [hk, decide_true, ↓reduceIte, pure_bind] at hrest
    exact dice_stops hrest
  simp only [hk, decide_false, Bool.false_eq_true, ↓reduceIte] at hrest
  rcases Parse.bind_eq_error.1 hrest with hat' | ⟨is, r', hat', hrest'⟩
  · exact stops_of_tokens_eq (by rw [eq_of_isAt hat'])
  obtain ⟨d, -, rfl, rfl⟩ := isAt_eq_ok.1 hat'
  by_cases hk' : d.kind = .dSymbol
  · simp only [hk', decide_true, ↓reduceIte] at hrest'
    exact dice_stops hrest'
  simp only [hk', decide_false, Bool.false_eq_true, ↓reduceIte] at hrest'
  rcases Parse.bind_eq_error.1 hrest' with hnumber | ⟨_, _, -, hpure⟩
  · exact number_stops hnumber
  · exact absurd hpure Parse.pure_ne_error

/-! ## Expressions and programs -/

/-- Looking for an operator reads nothing. -/
theorem eq_of_operatorWithin {n count : Nat} (h : operatorWithin n count p = some (.error e, q)) :
    q = p := by
  induction count generalizing n with
  | zero => exact absurd h Parse.pure_ne_error
  | succ count ih =>
    rcases Parse.bind_eq_error.1 h with hpeek | ⟨t, r, hpeek, hrest⟩
    · exact eq_of_peekNth hpeek
    · obtain ⟨-, rfl⟩ := peekNth_eq_ok.1 hpeek
      cases hk : t.kind <;> rw [hk] at hrest
      case operator | separator | eof => exact absurd hrest Parse.pure_ne_error
      all_goals exact ih hrest

/-- Reading an expression stops behind tokens that lead on, and one more. -/
theorem expression_stops {limit : Nat} (h : expression limit p = some (.error e, q)) :
    p.Stops .operand q := by
  induction limit generalizing p with
  | zero => simp [expression, giveUp] at h
  | succ limit ih =>
    rcases Parse.bind_eq_error.1 h with hahead | ⟨b, r, hahead, hrest⟩
    · exact stops_of_tokens_eq (by rw [eq_of_operatorWithin hahead])
    obtain rfl := operatorWithin_sound hahead
    cases b with
    | false => exact terminal_stops hrest
    | true =>
      rcases Parse.bind_eq_error.1 hrest with hleft | ⟨left, p₁, hleft, hrest'⟩
      · exact terminal_stops hleft
      obtain ⟨-, hread⟩ := terminal_sound hleft
      obtain ⟨s, hrun, hawaits⟩ := terminal_stage hleft
      refine Stops.of_reads ?_ hread hrun
      rcases Parse.bind_eq_error.1 hrest' with hoperator | ⟨operator, p₂, hoperator, hright⟩
      · exact expect_stops hoperator
      obtain ⟨hk, hread'⟩ := expect_eq_ok.1 hoperator
      have hrun' : s.run [operator] = some .operand := by
        simp [Stage.run_cons, Stage.step_eq_leave hawaits.complete (Or.inl hk), Stage.leave, hk]
      rcases Parse.bind_eq_error.1 hright with hright | ⟨_, _, -, hpure⟩
      · exact (ih hright).of_reads hread' hrun'
      · exact absurd hpure Parse.pure_ne_error

/-- Reading expressions behind separators stops behind tokens that lead on, and one more, if a terminal
has been read to its end in front of them. -/
theorem furtherExpressions_stops {limit n : Nat}
    (h : furtherExpressions limit n p = some (.error e, q)) (hs : s.Complete) : p.Stops s q := by
  induction n generalizing p s with
  | zero => simp [furtherExpressions, giveUp] at h
  | succ n ih =>
    rcases Parse.bind_eq_error.1 h with hnext | ⟨b, r, hnext, hrest⟩
    · exact stops_of_tokens_eq (by rw [eq_of_isAt hnext])
    obtain ⟨t, ht, rfl, rfl⟩ := isAt_eq_ok.1 hnext
    by_cases hk : t.kind = .separator
    · simp only [hk, decide_true, ↓reduceIte] at hrest
      rcases Parse.bind_eq_error.1 hrest with hseparator | ⟨t', p₁, hseparator, hrest₁⟩
      · exact stops_of_tokens_eq (tokens_eq_of_advance hseparator)
      have hread := advance_eq_ok.1 hseparator
      obtain rfl : t = t' := Except.ok.inj (ht.symm.trans (hread.ahead_of_getElem? rfl))
      have hrun : s.run [t] = some .operand := by
        simp [Stage.run_cons, Stage.step_eq_leave hs (Or.inr (Or.inl hk)), Stage.leave, hk]
      refine Stops.of_reads ?_ hread hrun
      rcases Parse.bind_eq_error.1 hrest₁ with hitem | ⟨item, p₂, hitem, hrest₂⟩
      · exact expression_stops hitem
      obtain ⟨-, hread'⟩ := expression_sound hitem
      obtain ⟨s', hrun', hawaits'⟩ := expression_stage hitem
      refine Stops.of_reads ?_ hread' hrun'
      rcases Parse.bind_eq_error.1 hrest₂ with hpeek | ⟨u, r, hpeek, hrest₃⟩
      · exact stops_of_tokens_eq (by rw [eq_of_peekNth hpeek])
      obtain ⟨-, rfl⟩ := peekNth_eq_ok.1 hpeek
      split_ifs at hrest₃
      · exact stops_of_tokens_eq (by rw [eq_of_fail hrest₃])
      · rcases Parse.bind_eq_error.1 hrest₃ with hitems | ⟨_, _, -, hpure⟩
        · exact ih hitems hawaits'.complete
        · exact absurd hpure Parse.pure_ne_error
    · simp only [hk, decide_false, Bool.false_eq_true, ↓reduceIte] at hrest
      exact absurd hrest Parse.pure_ne_error

/-- Reading expressions with separators between them, or nothing, stops behind tokens that lead on, and
one more. -/
theorem expressions_stops {limit : Nat} (h : expressions limit p = some (.error e, q)) :
    p.Stops .first q := by
  rcases Parse.bind_eq_error.1 h with hnext | ⟨b, r, hnext, hrest⟩
  · exact stops_of_tokens_eq (by rw [eq_of_isAt hnext])
  obtain ⟨t, ht, rfl, rfl⟩ := isAt_eq_ok.1 hnext
  by_cases hk : t.kind = .eof
  · simp only [hk, decide_true, ↓reduceIte] at hrest
    exact absurd hrest Parse.pure_ne_error
  · simp only [hk, decide_false, Bool.false_eq_true, ↓reduceIte] at hrest
    refine Stops.first ?_ ht hk
    rcases Parse.bind_eq_error.1 hrest with hitem | ⟨item, p₁, hitem, hrest'⟩
    · exact expression_stops hitem
    obtain ⟨-, hread⟩ := expression_sound hitem
    obtain ⟨s, hrun, hawaits⟩ := expression_stage hitem
    refine Stops.of_reads ?_ hread hrun
    rcases Parse.bind_eq_error.1 hrest' with hitems | ⟨_, _, -, hpure⟩
    · exact furtherExpressions_stops hitems hawaits.complete
    · exact absurd hpure Parse.pure_ne_error

/-- Behind its start, a program that is read or fails stops behind tokens that lead on, and one more. -/
theorem program_stops_of_sof {limit : Nat} {start : Token} {result : Except ParseError Program}
    (h : program limit p = some (result, q)) (ht : p.tokens.ahead 0 = .ok start)
    (hk : start.kind = .sof) : (p.behind [start]).Stops .first q := by
  have hread : p.Reads [start] (p.behind [start]) := ⟨FixedStream.starts_singleton.2 ht, rfl⟩
  have hstart : expect .sof .notSof p = some (.ok start, p.behind [start]) :=
    expect_eq_ok.2 ⟨hk, hread⟩
  unfold program at h
  rw [Parse.bind_apply, hstart] at h
  cases result with
  | ok prog =>
    obtain ⟨items, p₁, hitems, h⟩ := Parse.bind_eq_ok.1 h
    obtain ⟨stop, p₂, hstop, h⟩ := Parse.bind_eq_ok.1 h
    obtain ⟨-, rfl⟩ := Parse.pure_eq_ok.1 h
    obtain ⟨ts, s, hread₁, hrun, -, -⟩ := expressions_stage hitems
    exact (expect_eq_ok.1 hstop).2.stops_singleton.of_reads hread₁ hrun
  | error e =>
    rcases Parse.bind_eq_error.1 h with hitems | ⟨items, p₁, hitems, h⟩
    · exact expressions_stops hitems
    obtain ⟨ts, s, hread₁, hrun, -, -⟩ := expressions_stage hitems
    refine Stops.of_reads ?_ hread₁ hrun
    rcases Parse.bind_eq_error.1 h with hstop | ⟨_, _, -, hpure⟩
    · exact expect_stops hstop
    · exact absurd hpure Parse.pure_ne_error

/-- A program that is read or fails stops behind tokens that lead on, and one more. -/
theorem program_stops {limit : Nat} {result : Except ParseError Program}
    (h : program limit p = some (result, q)) : p.Stops .start q := by
  cases result with
  | ok prog =>
    obtain ⟨ts, hspelling, hread⟩ := program_sound h
    have hsentence : IsSentence ts := isSentence_iff_exists_spelling.2 ⟨prog, hspelling⟩
    exact hread.stops (Stage.run_of_isSentence hsentence)
  | error e =>
    rcases Parse.bind_eq_error.1 h with hstart | ⟨start, r, hstart, -⟩
    · exact expect_stops hstart
    · obtain ⟨hk, hread⟩ := expect_eq_ok.1 hstart
      obtain rfl := hread.2
      have hrun : Stage.start.run [start] = some .first := by simp [Stage.run_cons, Stage.step, hk]
      exact (program_stops_of_sof h (hread.ahead_of_getElem? rfl) hk).of_reads hread hrun

/-! ## Parsing ends -/

/-- Going on behind tokens of which all but the last lead on, the parser comes one token further than
these tokens can. -/
theorem Stops.cursor_le (h : p.Stops s q) :
    q.tokens.cursor ≤ max (p.tokens.cursor + 1) p.tokens.items.length + 1 := by
  obtain ⟨ts, hstarts, htokens, hlead⟩ := h
  have hcursor : q.tokens.cursor = p.tokens.cursor + ts.length := by rw [htokens]; rfl
  rcases ts.eq_nil_or_concat with rfl | ⟨us, t, rfl⟩
  · rw [hcursor, List.length_nil]
    omega
  · rw [List.concat_eq_append] at hstarts hlead hcursor
    rw [List.dropLast_concat] at hlead
    have hle := (FixedStream.starts_append.1 hstarts).1.length_le hlead
    rw [List.length_append, List.length_singleton] at hcursor
    omega

/-- Where a parser has stopped, it has the same items. -/
theorem Stops.items_eq (h : p.Stops s q) : q.tokens.items = p.tokens.items := by
  obtain ⟨ts, -, htokens, -⟩ := h
  rw [htokens]
  rfl

/-- **Parsing ends.** Over a fixed stream, at whatever place the parser stands, parsing comes to the same
outcome with every limit from the one on that is used, and it never gives up. Behind it the parser stands at
most two tokens behind the end of the items, or behind the place where it stood if this was further; a
parser that stood in front of all items stands one token behind their end at most.

**Proof sketch.** The limit leaves room for all items. The tokens that are read lead through stages of a
sentence, the last one perhaps apart. No token leads on right behind itself, so at most one of the others is
taken from the repetition of the last item. -/
theorem parse_ends (p : Parser FixedStream) :
    (∀ limit, p.limit ≤ limit → program limit p = some p.parse) ∧
      p.parse.2.tokens.items = p.tokens.items ∧
      p.parse.2.tokens.cursor ≤ max p.tokens.cursor p.tokens.items.length + 2 ∧
      (p.tokens.cursor = 0 → p.parse.2.tokens.cursor ≤ p.tokens.items.length + 1) := by
  have hsome : program p.limit p = some p.parse := by
    have hne : program p.limit p ≠ none := program_ne_none (Nat.succ_pos _) (Nat.le_succ _)
    obtain ⟨r, hr⟩ := Option.ne_none_iff_exists'.1 hne
    rw [parse, hr, Option.getD_some]
  have hstops : p.Stops .start p.parse.2 := program_stops hsome
  have hle := hstops.cursor_le
  have hpos : 0 < p.tokens.items.length := List.length_pos_iff.2 p.tokens.items_ne_nil
  refine ⟨fun limit hlimit => program_refines hlimit p _ hsome, hstops.items_eq, ?_, fun hzero => ?_⟩
  · omega
  · omega

/-- A parser in front of a start, a number and a separator that is repeated for ever. -/
def sampleRepetition : Parser FixedStream :=
  ofStream (.ofItems [.ok Token.sof, .ok Stage.one, .ok ⟨.separator, ";", 1, 1⟩] (by simp))

/-- Over these items the separator is taken twice, which is as far as a parser can come that stood in front
of all items. -/
theorem parse_ends_sample :
    (∀ limit, 4 ≤ limit → program limit sampleRepetition = some sampleRepetition.parse) ∧
      sampleRepetition.tokens.cursor = 0 ∧ sampleRepetition.parse.2.tokens.cursor = 4 ∧
      sampleRepetition.parse.2.tokens.cursor ≤ sampleRepetition.tokens.items.length + 1 := by
  obtain ⟨hends, -, -, hfresh⟩ := parse_ends sampleRepetition
  exact ⟨hends, rfl, by decide +kernel, hfresh rfl⟩

end Parser

end DiceNotation
