import DiceNotation.Proofs.Parsing.Stages

set_option autoImplicit false

/-!
# When a step of parsing fails

For each step of the parser up to terminals one lemma that says, over a fixed stream, what a failure
is due to. Either the stream shows a failure itself, or the error blames a token ahead: the tokens in
front of it lead to a stage of a sentence from which the blamed token leads nowhere. A number of dice
out of range is blamed before the letter behind it has been read, and then it is this letter that
leads nowhere.

## Main definitions

* `Stage.Refuses` — a stage in which the token that an error blames leads nowhere.
* `Parser.Blames` — an error blames a token ahead of a parser.
* `Parser.Faults` — what a failure of a parser is due to.
* `Parser.Awaits` — behind a terminal, the next token has a property or leads nowhere.

## Main results

* `Parse.bind_eq_error` — two steps fail if the first one fails, or the second one behind it.
* `Parser.Faults.of_reads` — what a failure behind some tokens is due to in front of them.
* `Parser.number_faults`, `Parser.times_faults`, `Parser.modifier_faults` — the tokens of terminals.
* `Parser.dice_faults`, `Parser.terminal_faults` — terminals.
* `Parser.terminal_stage` — what may come behind a terminal.
-/

namespace DiceNotation

/-! ## Failures of steps one after the other -/

namespace Parse

variable {σ α β : Type} {p q : Parser σ} {e : ParseError}

/-- Two steps fail if the first one fails, or the second one fails behind it. -/
theorem bind_eq_error {x : Parse σ α} {f : α → Parse σ β} :
    (x >>= f) p = some (.error e, q) ↔
      x p = some (.error e, q) ∨ ∃ a r, x p = some (.ok a, r) ∧ f a r = some (.error e, q) := by
  rw [bind_apply]
  rcases x p with _ | ⟨_ | _, _⟩ <;> simp

/-- A step that only yields a value does not fail. -/
@[simp] theorem pure_ne_error {a : α} : ¬ (pure a : Parse σ α) p = some (.error e, q) := by
  simp [pure_apply]

/-- A step whose value is changed fails as the step does. -/
theorem map_eq_error {x : Parse σ α} {f : α → β} :
    (f <$> x) p = some (.error e, q) ↔ x p = some (.error e, q) := by
  rw [← bind_pure_comp, bind_eq_error]
  simp

end Parse

/-! ## What failures are due to -/

/-- In stage `s` the token that the error blames leads nowhere. If it is blamed as a number of dice, it
leads on, but the letter `next` behind it leads nowhere. -/
inductive Stage.Refuses (s : Stage) (e : SyntaxError) : (next : Item) → Prop
  | here {next : Item} (hcause : ∀ count, e.misfit ≠ .countOutOfRange count)
    (h : s.step e.token = none) : Refuses s e next
  | count {d : Token} {s' : Stage} {count : Int32} (hcause : e.misfit = .countOutOfRange count)
    (hd : d.kind = .dSymbol) (hstep : s.step e.token = some s') (hlive : s' ≠ .done)
    (h : s'.step d = none) : Refuses s e (.ok d)

namespace Stage.Refuses

variable {s s' : Stage} {e : SyntaxError} {next : Item}

/-- A token that is not blamed as a number of dice leads nowhere. -/
theorem step_eq_none (h : s.Refuses e next) (hcause : ∀ count, e.misfit ≠ .countOutOfRange count) :
    s.step e.token = none := by
  cases h with
  | here _ hnone => exact hnone
  | count hcount => exact absurd hcount (hcause _)

/-- Behind a token that is blamed as a number of dice, the letter leads nowhere. -/
theorem exists_dSymbol {count : Int32} (h : s.Refuses e next)
    (hcause : e.misfit = .countOutOfRange count) :
    ∃ d s', next = .ok d ∧ d.kind = .dSymbol ∧ s.step e.token = some s' ∧ s' ≠ .done ∧
      s'.step d = none := by
  cases h with
  | here hother => exact absurd hcause (hother count)
  | @count d s' _ _ hd hstep hlive hnone => exact ⟨d, s', rfl, hd, hstep, hlive, hnone⟩

/-- Where the token leads to the same stage, it leads nowhere for the same reason. -/
theorem of_step_eq (h : s.Refuses e next) (hstep : s'.step e.token = s.step e.token) :
    s'.Refuses e next := by
  cases h with
  | here hcause hnone => exact .here hcause (hstep.trans hnone)
  | count hcause hd hsome hlive hnone => exact .count hcause hd (hstep.trans hsome) hlive hnone

end Stage.Refuses

namespace Parser

/-- The place of the last character read, or the place before the text. -/
def lastPosition {σ : Type} (p : Parser σ) : Int :=
  p.last.elim (-1) Token.endPos

/-- Behind some tokens this is where the last one of them ends. -/
@[simp] theorem lastPosition_behind_concat (p : Parser FixedStream) (ts : List Token) (t : Token) :
    (p.behind (ts ++ [t])).lastPosition = t.endPos := by
  simp [lastPosition, behind]

variable {p q : Parser FixedStream} {s s' : Stage} {e : ParseError} {t : Token}

/-- The error blames the token behind `ts`, where these tokens lead from stage `s` to stage `s'`. The
error points at the token, and at the token in front of it if a number was expected. -/
structure Blames (p : Parser FixedStream) (s : Stage) (e : SyntaxError) (ts : List Token)
    (s' : Stage) : Prop where
  /-- These tokens and the blamed one lie ahead. -/
  starts : p.tokens.Starts (ts ++ [e.token])
  /-- They may come one after the other. -/
  run : s.run ts = some s'
  /-- The end is not among them. -/
  live : s' ≠ .done
  /-- Where the error points at. -/
  position : e.position =
    if e.misfit = .notNumber then (p.behind ts).lastPosition else e.token.startPos
  /-- The blamed token leads nowhere. -/
  refuses : s'.Refuses e (p.tokens.ahead (ts.length + 1))

/-- What a failure of a parser in stage `s` is due to. -/
inductive Faults (p : Parser FixedStream) (s : Stage) : ParseError → Prop
  /-- The stream shows a failure. -/
  | unknown {u : UnknownToken} {n : Nat} (h : p.tokens.ahead n = .error u) :
    Faults p s (.unknownToken u)
  /-- A token does not fit. -/
  | misplaced {e : SyntaxError} (ts : List Token) {s' : Stage} (h : p.Blames s e ts s') :
    Faults p s (.misplaced e)

/-- In stage `s` a terminal has been read to its end, and the next token leads nowhere unless it has the
property `P`. -/
structure Awaits (p : Parser FixedStream) (s : Stage) (P : Token → Prop) : Prop where
  /-- A terminal has been read to its end. -/
  complete : s.Complete
  /-- Other tokens lead nowhere. -/
  step_eq_none {t : Token} (ht : p.tokens.ahead 0 = .ok t) (hP : ¬ P t) : s.step t = none

/-- What a failure is due to behind some tokens, it is due to in front of them. -/
theorem Faults.of_reads {us : List Token} (h : q.Faults s' e) (hread : p.Reads us q)
    (hrun : s.run us = some s') : p.Faults s e := by
  cases h with
  | unknown h => exact .unknown ((hread.ahead_add _).trans h)
  | @misplaced e ts s'' h =>
    refine .misplaced (us ++ ts) ⟨?_, ?_, h.live, ?_, ?_⟩
    · rw [List.append_assoc]
      exact (hread.append ⟨h.starts, rfl⟩).1
    · rw [Stage.run_append_of_eq hrun, h.run]
    · rw [← behind_behind, ← hread.2]
      exact h.position
    · rw [List.length_append, Nat.add_assoc, hread.ahead_add]
      exact h.refuses

/-- Where an expression may come and is not missing, a failure is due to what it is due to where one
has to come. -/
theorem Faults.first (h : p.Faults .operand e) (ht : p.tokens.ahead 0 = .ok t)
    (hk : t.kind ≠ .eof) : p.Faults .first e := by
  have hstep : Stage.first.step t = Stage.operand.step t := if_neg hk
  cases h with
  | unknown h => exact .unknown h
  | @misplaced e ts s' h =>
    cases ts with
    | nil =>
      obtain rfl : s' = .operand := (Option.some.inj h.run).symm
      obtain rfl : e.token = t := Except.ok.inj ((h.starts 0 _ rfl).symm.trans ht)
      exact .misplaced [] ⟨h.starts, rfl, by simp, h.position, h.refuses.of_step_eq hstep⟩
    | cons u ts =>
      obtain rfl : u = t := Except.ok.inj ((h.starts 0 _ rfl).symm.trans ht)
      exact .misplaced (u :: ts) ⟨h.starts, (Stage.run_first hk ts).trans h.run, h.live, h.position, h.refuses⟩

/-! ## Failures of single tokens -/

/-- Looking ahead fails at a failure of the stream. -/
theorem peekNth_faults {n : Nat} (h : peekNth n p = some (.error e, q)) : p.Faults s e := by
  have hpeek : peekNth n p = some ((p.tokens.ahead n).mapError .unknownToken, p) := rfl
  rw [hpeek] at h
  cases hahead : p.tokens.ahead n with
  | ok t => simp [hahead, Except.mapError] at h
  | error u =>
    obtain ⟨rfl, -⟩ : .unknownToken u = e ∧ p = q := by simpa [hahead, Except.mapError] using h
    exact .unknown hahead

/-- Looking for a kind of token fails at a failure of the stream. -/
theorem isAt_faults {n : Nat} {kind : TokenKind} (h : isAt n kind p = some (.error e, q)) :
    p.Faults s e := by
  rcases Parse.bind_eq_error.1 h with h | ⟨_, _, -, h⟩
  · exact peekNth_faults h
  · exact absurd h Parse.pure_ne_error

/-- Reading fails at a failure of the stream. -/
theorem advance_faults (h : advance p = some (.error e, q)) : p.Faults s e := by
  unfold advance at h
  cases hahead : p.tokens.ahead 0 with
  | ok t =>
    rw [FixedStream.next_of_ok hahead] at h
    simp at h
  | error u =>
    rw [FixedStream.next_of_error hahead] at h
    obtain ⟨rfl, -⟩ : .unknownToken u = e ∧ _ = q := by simpa using h
    exact .unknown hahead

/-- A token does not fit if it leads nowhere. -/
theorem misfit_faults {α : Type} {cause : Misfit} {r : Parser FixedStream}
    (h : (misfit t cause : Parse FixedStream α) q = some (.error e, r))
    (ht : p.tokens.ahead 0 = .ok t) (hs : s ≠ .done) (hstep : s.step t = none)
    (hnumber : cause ≠ .notNumber) (hcount : ∀ count, cause ≠ .countOutOfRange count) :
    p.Faults s e := by
  obtain ⟨rfl, -⟩ : .misplaced (.atToken t cause) = e ∧ q = r := by simpa [misfit, fail] using h
  exact .misplaced [] ⟨FixedStream.starts_singleton.2 ht, rfl, hs, (if_neg hnumber).symm,
    .here hcount hstep⟩

/-- Reading a token of a kind fails at a token of another kind, which has to lead nowhere. -/
theorem expect_faults {kind : TokenKind} {cause : Misfit}
    (h : expect kind cause p = some (.error e, q)) (hs : s ≠ .done)
    (hstep : ∀ t, p.tokens.ahead 0 = .ok t → t.kind ≠ kind → s.step t = none)
    (hnumber : cause ≠ .notNumber) (hcount : ∀ count, cause ≠ .countOutOfRange count) :
    p.Faults s e := by
  rcases Parse.bind_eq_error.1 h with h | ⟨t, r, hread, h⟩
  · exact advance_faults h
  · have ht : p.tokens.ahead 0 = .ok t := (advance_eq_ok.1 hread).ahead_of_getElem? rfl
    split_ifs at h with hk
    · exact absurd h Parse.pure_ne_error
    · exact misfit_faults h ht hs (hstep t ht hk) hnumber hcount

/-- Reading a number fails at a token without a value, which has to lead nowhere. -/
theorem number_faults (h : number p = some (.error e, q)) (hs : s ≠ .done)
    (hstep : ∀ t, p.tokens.ahead 0 = .ok t → t.value? = none → s.step t = none) :
    p.Faults s e := by
  rcases Parse.bind_eq_error.1 h with h | ⟨position, r, hlast, h⟩
  · simp [lastPos] at h
  obtain ⟨rfl, rfl⟩ : p.lastPosition = position ∧ p = r := by
    simpa [lastPos, lastPosition] using hlast
  rcases Parse.bind_eq_error.1 h with h | ⟨t, r, hread, h⟩
  · exact advance_faults h
  have ht : p.tokens.ahead 0 = .ok t := (advance_eq_ok.1 hread).ahead_of_getElem? rfl
  have hvalue : (if t.kind = .number then Numeral.int32? t.lexeme else none) = t.value? := rfl
  rw [hvalue] at h
  cases hv : t.value? with
  | some value =>
    rw [hv] at h
    exact absurd h Parse.pure_ne_error
  | none =>
    rw [hv] at h
    obtain ⟨rfl, -⟩ : .misplaced ⟨t, .notNumber, p.lastPosition⟩ = e ∧ r = q := by
      simpa [fail] using h
    exact .misplaced [] ⟨FixedStream.starts_singleton.2 ht, rfl, hs, rfl,
      .here (by simp) (hstep t ht hv)⟩

/-! ## Failures of terminals -/

/-- Reading a number of dice, where the letter is behind it, fails if it has no value, or if the letter
leads nowhere behind this value. -/
theorem times_faults {d : Token} (h : times p = some (.error e, q)) (ht : p.tokens.ahead 0 = .ok t)
    (hk : t.kind = .number) (hahead : p.tokens.ahead 1 = .ok d) (hd : d.kind = .dSymbol) :
    p.Faults .operand e := by
  have hk' : t.kind ≠ .dSymbol := by simp [hk]
  rcases Parse.bind_eq_error.1 h with h | ⟨⟨u, value⟩, r, hnumber, h⟩
  · refine number_faults h (by simp) fun u hu hvalue => ?_
    obtain rfl : t = u := Except.ok.inj (ht.symm.trans hu)
    simp [Stage.step, Stage.enter, hk', hvalue]
  · obtain ⟨hu, hread⟩ := number_eq_ok.1 hnumber
    obtain rfl : t = u := Except.ok.inj (ht.symm.trans (hread.ahead_of_getElem? rfl))
    simp only at h
    split_ifs at h with hrange
    · exact absurd h Parse.pure_ne_error
    · obtain ⟨rfl, -⟩ : .misplaced (.atToken t (.countOutOfRange value)) = e ∧ r = q := by
        simpa [misfit, fail] using h
      refine .misplaced [] ⟨hread.1, rfl, by simp, rfl, ?_⟩
      rw [List.length_nil, Nat.zero_add, hahead]
      refine @Stage.Refuses.count _ _ d (.number value) value rfl hd ?_ (by simp) ?_
      · simp [SyntaxError.atToken, Stage.step, Stage.enter, hk', Token.isNumber_iff.1 hu]
      · rw [Stage.step, if_neg fun hcount => hrange hcount.2, Stage.leave, hd]

/-- Reading a modifier fails at one that does not suit the faces. -/
theorem modifier_faults {faces : Int32} (h : modifier faces p = some (.error e, q))
    (ht : p.tokens.ahead 0 = .ok t) (hk : t.kind = .modifier) : p.Faults (.faces faces) e := by
  have hread : p.Reads [t] (p.behind [t]) := ⟨FixedStream.starts_singleton.2 ht, rfl⟩
  have hstep : (Stage.faces faces).step t = none := by
    have hsuits : ¬ t.IsModifier faces := fun hsuits => by
      have hok := (modifier_eq_ok ht hk).2 ⟨hsuits, hread⟩
      rw [h] at hok
      simp at hok
    rw [Stage.step, if_neg hsuits, Stage.leave, hk]
  rcases Parse.bind_eq_error.1 h with h | ⟨u, r, hread, h⟩
  · exact advance_faults h
  · obtain rfl : t = u :=
      Except.ok.inj (ht.symm.trans ((advance_eq_ok.1 hread).ahead_of_getElem? rfl))
    cases hm : t.lexeme.toList.head?.bind Modifier.ofChar? with
    | none =>
      rw [hm] at h
      exact misfit_faults h ht (by simp) hstep (by simp) (by simp)
    | some m =>
      rw [hm] at h
      cases m with
      | explode =>
        simp only at h
        split_ifs at h
        · exact misfit_faults h ht (by simp) hstep (by simp) (by simp)
        · exact absurd h Parse.pure_ne_error
      | _ => exact absurd h Parse.pure_ne_error

/-- A step with a token that may be missing fails if looking for this token fails, reading it fails,
or what is read behind it fails. -/
theorem optional_eq_error {β : Type} {kind : TokenKind} {x : Parse FixedStream Token}
    {k : Option Token → Parse FixedStream β}
    (h : (nextIs kind >>= fun is => if is = true then some <$> x >>= k else pure none >>= k) p =
      some (.error e, q)) :
    nextIs kind p = some (.error e, q) ∨
      ∃ t, p.tokens.ahead 0 = .ok t ∧
        ((t.kind = kind ∧ (x p = some (.error e, q) ∨
          ∃ u r, x p = some (.ok u, r) ∧ k (some u) r = some (.error e, q))) ∨
        (t.kind ≠ kind ∧ k none p = some (.error e, q))) := by
  rcases Parse.bind_eq_error.1 h with hnext | ⟨is, r, hnext, hrest⟩
  · exact Or.inl hnext
  obtain ⟨t, ht, rfl, rfl⟩ := isAt_eq_ok.1 hnext
  refine Or.inr ⟨t, ht, ?_⟩
  by_cases hk : t.kind = kind
  · simp only [hk, decide_true, ↓reduceIte] at hrest
    refine Or.inl ⟨hk, ?_⟩
    rcases Parse.bind_eq_error.1 hrest with hmap | ⟨o, r', hmap, hrest⟩
    · exact Or.inl (Parse.map_eq_error.1 hmap)
    · obtain ⟨u, hx, rfl⟩ := Parse.map_eq_ok.1 hmap
      exact Or.inr ⟨u, r', hx, hrest⟩
  · simp only [hk, decide_false, Bool.false_eq_true, ↓reduceIte, pure_bind] at hrest
    exact Or.inr ⟨hk, hrest⟩

/-- What comes behind the letter fails at the faces or at the modifier. -/
theorem faces_faults {count : Option Token} {dSymbol : Token}
    (h : (do
      let (faces, value) ← number
      let mode ← if ← nextIs .modifier then some <$> modifier value else pure none
      return .dice count dSymbol faces mode : Parse FixedStream Node) p = some (.error e, q)) :
    p.Faults .letter e := by
  rcases Parse.bind_eq_error.1 h with hnumber | ⟨⟨faces, value⟩, r, hnumber, hrest⟩
  · refine number_faults hnumber (by simp) fun t _ hvalue => ?_
    simp [Stage.step, hvalue]
  obtain ⟨hfaces, hread⟩ := number_eq_ok.1 hnumber
  have hrun : Stage.letter.run [faces] = some (.faces value) := by
    simp [Stage.run_cons, Stage.step, Token.isNumber_iff.1 hfaces]
  refine Faults.of_reads ?_ hread hrun
  rcases optional_eq_error hrest with hnext | ⟨t, ht, ⟨hk, hmode | ⟨_, _, -, hpure⟩⟩ | ⟨-, hpure⟩⟩
  · exact isAt_faults hnext
  · exact modifier_faults hmode ht hk
  · exact absurd hpure Parse.pure_ne_error
  · exact absurd hpure Parse.pure_ne_error

/-- Reading dice, where one of the next two tokens is the letter, fails where the tokens stop being
those of a terminal. -/
theorem dice_faults (h : dice p = some (.error e, q)) (ht : p.tokens.ahead 0 = .ok t)
    (hd : t.kind = .dSymbol ∨ ∃ d, p.tokens.ahead 1 = .ok d ∧ d.kind = .dSymbol) :
    p.Faults .operand e := by
  unfold dice at h
  rcases optional_eq_error h with hnext | ⟨u, hu, ⟨hk, hcount | ⟨c, r, hcount, hrest⟩⟩ | ⟨hk, hrest⟩⟩
  · exact isAt_faults hnext
  all_goals obtain rfl : t = u := Except.ok.inj (ht.symm.trans hu)
  · obtain ⟨d, hahead, hd⟩ := hd.resolve_left (by simp [hk])
    exact times_faults hcount ht hk hahead hd
  · -- the letter is the token behind the count
    obtain ⟨d, hahead, hd⟩ := hd.resolve_left (by simp [hk])
    obtain ⟨⟨value, hvalue, hrange⟩, hread⟩ := times_eq_ok.1 hcount
    refine Faults.of_reads ?_ hread (Stage.run_number hvalue)
    rcases Parse.bind_eq_error.1 hrest with hletter | ⟨d', r', hletter, hrest⟩
    · refine expect_faults hletter (by simp) (fun d' hd' hne => absurd hd ?_) (by simp) (by simp)
      rw [Except.ok.inj (hahead.symm.trans ((hread.ahead_add 0).trans hd'))]
      exact hne
    · obtain ⟨hd', hread'⟩ := expect_eq_ok.1 hletter
      refine Faults.of_reads (faces_faults hrest) hread' ?_
      simp [Stage.run_cons, Stage.step, hd', hrange]
  · rcases Parse.bind_eq_error.1 hrest with hletter | ⟨d', r', hletter, hrest⟩
    · refine expect_faults hletter (by simp) (fun d' hd' hne => ?_) (by simp) (by simp)
      obtain rfl : t = d' := Except.ok.inj (ht.symm.trans hd')
      simp [Stage.step, Stage.enter, hne, Token.value?, hk]
    · obtain ⟨hd', hread'⟩ := expect_eq_ok.1 hletter
      refine Faults.of_reads (faces_faults hrest) hread' ?_
      simp [Stage.run_cons, Stage.step, Stage.enter, hd']

/-- Reading a terminal fails where the tokens stop being those of a terminal. -/
theorem terminal_faults (h : terminal p = some (.error e, q)) : p.Faults .operand e := by
  rcases Parse.bind_eq_error.1 h with hat | ⟨is, r, hat, hrest⟩
  · exact isAt_faults hat
  obtain ⟨t, ht, rfl, rfl⟩ := isAt_eq_ok.1 hat
  by_cases hk : t.kind = .dSymbol
  · simp only [hk, decide_true, ↓reduceIte, pure_bind] at hrest
    exact dice_faults hrest ht (Or.inl hk)
  simp only [hk, decide_false, Bool.false_eq_true, ↓reduceIte] at hrest
  rcases Parse.bind_eq_error.1 hrest with hat' | ⟨is, r', hat', hrest'⟩
  · exact isAt_faults hat'
  obtain ⟨d, hd, rfl, rfl⟩ := isAt_eq_ok.1 hat'
  by_cases hk' : d.kind = .dSymbol
  · simp only [hk', decide_true, ↓reduceIte] at hrest'
    exact dice_faults hrest' ht (Or.inr ⟨d, hd, hk'⟩)
  simp only [hk', decide_false, Bool.false_eq_true, ↓reduceIte] at hrest'
  rcases Parse.bind_eq_error.1 hrest' with hnumber | ⟨_, _, -, hpure⟩
  · refine number_faults hnumber (by simp) fun u hu hvalue => ?_
    obtain rfl : t = u := Except.ok.inj (ht.symm.trans hu)
    simp [Stage.step, Stage.enter, hk, hvalue]
  · exact absurd hpure Parse.pure_ne_error

/-- Behind a terminal that has been read, nothing but what can stand behind a terminal leads on. -/
theorem terminal_stage {n : Node} (h : terminal p = some (.ok n, q)) :
    ∃ s, Stage.operand.run n.tokens = some s ∧ q.Awaits s Token.EndsTerminal := by
  have hdice (h : dice p = some (.ok n, q)) :
      ∃ s, Stage.operand.run n.tokens = some s ∧ q.Awaits s Token.EndsTerminal := by
    obtain ⟨count, d, faces, mode, value, rfl, hcount, hd, hfaces, hmode, -, hnone⟩ := dice_eq_ok.1 h
    refine ⟨_, Stage.run_dice hcount hd hfaces hmode, ?_⟩
    cases mode with
    | some m => exact ⟨trivial, fun _ hends => Stage.leave_eq_none hends⟩
    | none =>
      obtain ⟨u, hu, hk⟩ := hnone rfl
      refine ⟨trivial, fun {t} ht hends => ?_⟩
      obtain rfl : u = t := Except.ok.inj (hu.symm.trans ht)
      exact (if_neg fun hm => hk hm.kind).trans (Stage.leave_eq_none hends)
  obtain ⟨t, ht, ⟨-, h⟩ | ⟨-, u, hu, ⟨-, h⟩ | ⟨hk, value, rfl, hvalue, hread⟩⟩⟩ := terminal_eq_ok.1 h
  · exact hdice h
  · exact hdice h
  · refine ⟨_, Stage.run_number hvalue, trivial, fun {t'} ht' hends => ?_⟩
    obtain rfl : u = t' := Except.ok.inj (hu.symm.trans ((hread.ahead_add 0).trans ht'))
    exact (if_neg fun hcount => hk hcount.1).trans (Stage.leave_eq_none hends)

end Parser

end DiceNotation
