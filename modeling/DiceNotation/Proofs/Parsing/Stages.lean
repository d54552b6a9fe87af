import DiceNotation.Proofs.Parsing.Sentences

set_option autoImplicit false

/-!
# The stages of a sentence

Reading a sentence token by token goes through stages, each of which says which tokens may come next.
The sentences are the sequences that lead from the first stage to the last one, and from every stage
there is a way to the last one. So a sequence of tokens begins a sentence exactly if it leads anywhere.

## Main definitions

* `Stage` — how far a sentence has been read.
* `Stage.step`, `Stage.run` — where one token leads, and where some tokens lead.
* `Stage.Complete` — a stage in which a terminal has been read to its end.

## Main results

* `Stage.isSentence_iff_run` — the sentences lead from the first stage to the last one.
* `Stage.exists_run_eq_done` — there is a way from every stage to the last one.
* `Stage.exists_isSentence_append` — what leads anywhere begins a sentence.
* `Stage.not_isPrefix_of_run_eq_none` — what leads nowhere begins no sentence.
-/

namespace DiceNotation

/-! ## Tokens in their places -/

namespace Token

/-- The value of a number. -/
def value? (t : Token) : Option Int32 :=
  if t.kind = .number then Numeral.int32? t.lexeme else none

/-- A number has a value. -/
theorem isNumber_iff {t : Token} {value : Int32} : t.IsNumber value ↔ t.value? = some value := by
  unfold value?
  constructor
  · intro h
    rw [if_pos h.kind, h.lexeme]
  · intro h
    split_ifs at h with hk
    exact ⟨hk, h⟩

/-- Whether a modifier suits the faces is decided by its first character. -/
theorem isModifier_iff {t : Token} {faces : Int32} :
    t.IsModifier faces ↔ t.kind = .modifier ∧
      (t.lexeme.toList.head?.bind Modifier.ofChar?).any
        fun m => m = .explode → ¬ (-1 ≤ faces ∧ faces ≤ 1) := by
  rw [Option.any_eq_true]
  constructor
  · rintro ⟨hk, m, hm, hsuits⟩
    exact ⟨hk, m, hm, decide_eq_true hsuits⟩
  · rintro ⟨hk, m, hm, hsuits⟩
    exact ⟨hk, m, hm, of_decide_eq_true hsuits⟩

instance (t : Token) (faces : Int32) : Decidable (t.IsModifier faces) :=
  decidable_of_iff _ isModifier_iff.symm

end Token

/-! ## Stages -/

/-- How far a sentence has been read. -/
inductive Stage where
  /-- Nothing has been read. -/
  | start
  /-- The start has been read: an expression comes, or the end. -/
  | first
  /-- A terminal has to come. -/
  | operand
  /-- A number has been read, which may be a number of dice. -/
  | number (value : Int32)
  /-- The letter of some dice has been read: the faces have to come. -/
  | letter
  /-- Dice with `value` faces have been read up to their faces. -/
  | faces (value : Int32)
  /-- Dice have been read with their modifier. -/
  | modified
  /-- The end has been read. -/
  | done
  deriving DecidableEq, Repr

namespace Stage

/-- Where the first token of a terminal leads. -/
def enter (t : Token) : Option Stage :=
  if t.kind = .dSymbol then some letter else t.value?.map number

/-- Where a token behind a terminal leads. -/
def leave (t : Token) : Option Stage :=
  match t.kind with
  | .operator | .separator => some operand
  | .eof => some done
  | _ => none

/-- Where a token leads, if it may come. -/
def step : Stage → Token → Option Stage
  | start, t => if t.kind = .sof then some first else none
  | first, t => if t.kind = .eof then some done else enter t
  | operand, t => enter t
  | number value, t =>
    if t.kind = .dSymbol ∧ 1 ≤ value ∧ value ≤ 255 then some letter else leave t
  | letter, t => t.value?.map faces
  | faces value, t => if t.IsModifier value then some modified else leave t
  | modified, t => leave t
  | done, _ => none

/-- Where some tokens lead, if they may come one after the other. -/
def run (s : Stage) (ts : List Token) : Option Stage :=
  ts.foldlM step s

@[simp] theorem run_nil (s : Stage) : s.run [] = some s :=
  rfl

theorem run_cons (s : Stage) (t : Token) (ts : List Token) :
    s.run (t :: ts) = (s.step t).bind fun s' => s'.run ts :=
  rfl

theorem run_append (s : Stage) (ts us : List Token) :
    s.run (ts ++ us) = (s.run ts).bind fun s' => s'.run us :=
  List.foldlM_append

/-- Tokens lead on from where others have led. -/
theorem run_append_of_eq {s s' : Stage} {ts : List Token} (h : s.run ts = some s')
    (us : List Token) : s.run (ts ++ us) = s'.run us := by
  rw [run_append, h, Option.bind_some]

/-- What leads somewhere does so from its beginning on. -/
theorem run_isSome_of_isPrefix {s s' : Stage} {ts us : List Token} (hts : ts <+: us)
    (h : s.run us = some s') : (s.run ts).isSome := by
  obtain ⟨vs, rfl⟩ := hts
  rw [run_append] at h
  cases hrun : s.run ts with
  | none => simp [hrun] at h
  | some => rfl

/-- Nothing comes behind the end. -/
theorem eq_nil_of_run_done {s : Stage} {ts : List Token} (h : done.run ts = some s) :
    ts = [] ∧ s = done := by
  cases ts with
  | nil => exact ⟨rfl, (Option.some.inj h).symm⟩
  | cons t ts => simp [run_cons, step] at h

/-- In front of the last stage no end has been read. -/
theorem kind_ne_eof_of_run {s s' : Stage} {ts : List Token} (h : s.run ts = some s')
    (hs' : s' ≠ done) {t : Token} (ht : t ∈ ts) : t.kind ≠ .eof := by
  intro hk
  obtain ⟨us, vs, rfl⟩ := List.append_of_mem ht
  rw [run_append] at h
  obtain ⟨s₁, -, h⟩ := Option.bind_eq_some_iff.1 h
  rw [run_cons] at h
  obtain ⟨s₂, hstep, h⟩ := Option.bind_eq_some_iff.1 h
  have hend : s₂ = done := by
    cases s₁ <;> simp [step, enter, leave, Token.value?, Token.isModifier_iff, hk] at hstep <;>
      exact hstep.symm
  rw [hend] at h
  exact hs' (eq_nil_of_run_done h).2

/-- A terminal has been read to its end. -/
def Complete : Stage → Prop
  | number _ | faces _ | modified => True
  | _ => False

/-- Behind the end no terminal has just been read. -/
theorem Complete.ne_done {s : Stage} (hs : s.Complete) : s ≠ done := by
  rintro rfl
  exact hs

/-- In such a stage a token leads on that can stand behind a terminal. -/
theorem step_eq_leave {s : Stage} (hs : s.Complete) {t : Token} (ht : t.EndsTerminal) :
    s.step t = leave t := by
  have hd : t.kind ≠ .dSymbol := by rcases ht with h | h | h <;> simp [h]
  have hm : t.kind ≠ .modifier := by rcases ht with h | h | h <;> simp [h]
  cases s with
  | number value => simp [step, hd]
  | faces value => simp [step, Token.isModifier_iff, hm]
  | modified => rfl
  | start | first | operand | letter | done => exact hs.elim

/-- A token that cannot stand behind a terminal leads nowhere there. -/
theorem leave_eq_none {t : Token} (h : ¬ t.EndsTerminal) : leave t = none := by
  unfold Token.EndsTerminal Token.EndsExpression at h
  unfold leave
  cases hk : t.kind <;> simp_all

/-- Behind the start comes what may come where a terminal has to come, or the end. -/
theorem run_first {t : Token} (ht : t.kind ≠ .eof) (ts : List Token) :
    first.run (t :: ts) = operand.run (t :: ts) := by
  rw [run_cons, run_cons, step, if_neg ht, step]

/-! ## Sentences lead to the last stage -/

/-- A number leads behind the number. -/
theorem run_number {t : Token} {value : Int32} (h : t.IsNumber value) :
    operand.run [t] = some (number value) := by
  have hk : t.kind ≠ .dSymbol := by simp [h.kind]
  simp [run_cons, step, enter, hk, Token.isNumber_iff.1 h]

/-- Dice lead behind their faces, or behind their modifier if they have one. -/
theorem run_dice {count modifier : Option Token} {dSymbol faces : Token} {value : Int32}
    (hcount : ∀ t ∈ count, t.IsCount) (hd : dSymbol.kind = .dSymbol) (hfaces : faces.IsNumber value)
    (hmodifier : ∀ t ∈ modifier, t.IsModifier value) :
    operand.run (count.toList ++ [dSymbol, faces] ++ modifier.toList) =
      some (if modifier.isSome then modified else .faces value) := by
  have hletter : operand.run (count.toList ++ [dSymbol]) = some letter := by
    cases count with
    | none => simp [run_cons, step, enter, hd]
    | some t =>
      obtain ⟨n, hn, hrange⟩ := hcount t rfl
      rw [Option.toList_some, run_append_of_eq (run_number hn)]
      simp [run_cons, step, hd, hrange]
  have hfaces' : operand.run (count.toList ++ [dSymbol] ++ [faces]) = some (.faces value) := by
    rw [run_append_of_eq hletter]
    simp [run_cons, step, Token.isNumber_iff.1 hfaces]
  have hsplit : count.toList ++ [dSymbol, faces] = count.toList ++ [dSymbol] ++ [faces] := by
    rw [List.append_assoc, List.singleton_append]
  rw [hsplit, run_append_of_eq hfaces']
  cases modifier with
  | none => rfl
  | some m => simp [run_cons, step, hmodifier m rfl]

/-- A terminal leads to a stage in which it has been read to its end. -/
theorem run_of_isTerminal {ts : List Token} (h : Sentence.IsTerminal ts) :
    ∃ s, operand.run ts = some s ∧ s.Complete := by
  cases h with
  | number h => exact ⟨_, run_number h, trivial⟩
  | @dice count modifier dSymbol faces value hcount hd hfaces hmodifier =>
    refine ⟨_, run_dice hcount hd hfaces hmodifier, ?_⟩
    cases modifier <;> trivial

/-- An expression leads to a stage in which its last terminal has been read to its end. -/
theorem run_of_isExpression {ts : List Token} (h : Sentence.IsExpression ts) :
    ∃ s, operand.run ts = some s ∧ s.Complete := by
  induction h with
  | terminal h => exact run_of_isTerminal h
  | operation hts hoperator _ ih =>
    obtain ⟨s, hs, hcomplete⟩ := run_of_isTerminal hts
    obtain ⟨s', hs', hcomplete'⟩ := ih
    refine ⟨s', ?_, hcomplete'⟩
    rw [run_append_of_eq hs, run_cons, step_eq_leave hcomplete (Or.inl hoperator)]
    simpa [leave, hoperator] using hs'

/-- Expressions behind separators lead from the end of a terminal to the end of a terminal. -/
theorem run_of_isFurther {ts : List Token} (h : Sentence.IsFurther ts) {s : Stage}
    (hs : s.Complete) : ∃ s', s.run ts = some s' ∧ s'.Complete := by
  induction h generalizing s with
  | nil => exact ⟨s, rfl, hs⟩
  | cons hseparator hts _ ih =>
    obtain ⟨s₁, hs₁, hcomplete₁⟩ := run_of_isExpression hts
    obtain ⟨s₂, hs₂, hcomplete₂⟩ := ih hcomplete₁
    refine ⟨s₂, ?_, hcomplete₂⟩
    rw [List.cons_append, run_cons, step_eq_leave hs (Or.inr (Or.inl hseparator))]
    simp only [leave, hseparator, Option.bind_some]
    rw [run_append_of_eq hs₁, hs₂]

/-- A sentence leads from the first stage to the last one. -/
theorem run_of_isSentence {ts : List Token} (h : IsSentence ts) : start.run ts = some done := by
  cases h with
  | @sentence t stop ts hstart hts hstop =>
    rw [List.cons_append, run_cons, step, if_pos hstart, Option.bind_some]
    cases hts with
    | nil => simp [run_cons, step, hstop]
    | @cons us vs hus hvs =>
      obtain ⟨s, hs, hcomplete⟩ := run_of_isExpression hus
      obtain ⟨s', hs', hcomplete'⟩ := run_of_isFurther hvs hcomplete
      obtain ⟨n, hn, rfl⟩ := Sentence.isExpression_iff.1 hus
      obtain ⟨u, us', hus', hk⟩ := hn.exists_cons
      have hfirst : first.run n.tokens = some s := by
        rw [hus', run_first (by rcases hk with h | h <;> simp [h]), ← hus', hs]
      rw [List.append_assoc, run_append_of_eq hfirst, run_append_of_eq hs', run_cons,
        step_eq_leave hcomplete' (Or.inr (Or.inr hstop))]
      simp [leave, hstop]

/-! ## What leads to the last stage is a sentence -/

/-- What leads from the letter of some dice to the last stage are the faces and a modifier or none, and
then a token behind the terminal. -/
theorem exists_of_run_letter {ts : List Token} (h : letter.run ts = some done) :
    ∃ (faces : Token) (value : Int32) (modifier : Option Token) (t : Token) (us : List Token),
      ts = faces :: modifier.toList ++ t :: us ∧ faces.IsNumber value ∧
        (∀ m ∈ modifier, m.IsModifier value) ∧ (leave t).bind (·.run us) = some done := by
  match ts with
  | [] => simp at h
  | [f] =>
    rw [run_cons] at h
    obtain ⟨s, hstep, hnil⟩ := Option.bind_eq_some_iff.1 h
    obtain ⟨value, -, rfl⟩ := Option.map_eq_some_iff.1 hstep
    simp at hnil
  | f :: t :: us =>
    rw [run_cons] at h
    obtain ⟨s, hstep, h⟩ := Option.bind_eq_some_iff.1 h
    obtain ⟨value, hvalue, rfl⟩ := Option.map_eq_some_iff.1 hstep
    rw [run_cons, step] at h
    split_ifs at h with hmodifier
    · cases us with
      | nil => simp at h
      | cons u us =>
        exact ⟨f, value, some t, u, us, rfl, Token.isNumber_iff.2 hvalue, by simpa using hmodifier, h⟩
    · exact ⟨f, value, none, t, us, rfl, Token.isNumber_iff.2 hvalue, by simp, h⟩

/-- Where the first token of a terminal leads: behind the letter, or behind a number. -/
theorem enter_eq_some {t : Token} {s : Stage} (h : enter t = some s) :
    t.kind = .dSymbol ∧ s = letter ∨ ∃ value, t.IsNumber value ∧ s = number value := by
  unfold enter at h
  split_ifs at h with hk
  · exact Or.inl ⟨hk, (Option.some.inj h).symm⟩
  · obtain ⟨value, hvalue, rfl⟩ := Option.map_eq_some_iff.1 h
    exact Or.inr ⟨value, Token.isNumber_iff.2 hvalue, rfl⟩

/-- What leads from a place for a terminal to the last stage is a terminal and then a token behind
it. -/
theorem exists_terminal_of_run {ts : List Token} (h : operand.run ts = some done) :
    ∃ us t vs, ts = us ++ t :: vs ∧ Sentence.IsTerminal us ∧
      (leave t).bind (·.run vs) = some done := by
  cases ts with
  | nil => simp at h
  | cons t ts =>
    rw [run_cons] at h
    obtain ⟨s, hstep, h⟩ := Option.bind_eq_some_iff.1 h
    rcases enter_eq_some hstep with ⟨hk, rfl⟩ | ⟨value, hvalue, rfl⟩
    · obtain ⟨faces, n, modifier, u, us, rfl, hfaces, hmodifier, hleave⟩ := exists_of_run_letter h
      exact ⟨_, u, us, rfl, @Sentence.IsTerminal.dice none _ _ _ _ (by simp) hk hfaces hmodifier,
        hleave⟩
    · cases ts with
      | nil => simp at h
      | cons u us =>
        rw [run_cons, step] at h
        split_ifs at h with hd
        · obtain ⟨faces, n, modifier, u', us', rfl, hfaces, hmodifier, hleave⟩ :=
            exists_of_run_letter h
          have hcount : ∀ c ∈ some t, c.IsCount := by
            rintro c ⟨⟩
            exact ⟨value, hvalue, hd.2⟩
          exact ⟨_, u', us', rfl, .dice hcount hd.1 hfaces hmodifier, hleave⟩
        · exact ⟨[t], u, us, rfl, .number hvalue, h⟩

/-- What leads from a place for a terminal to the last stage are expressions with separators between
them, and the end.

**Proof sketch.** Induction on the number of tokens. The token behind the first terminal decides
whether the expression goes on, another expression comes, or this is the end. -/
theorem exists_expressions_of_run {ts : List Token} (h : operand.run ts = some done) :
    ∃ us vs stop, ts = us ++ vs ++ [stop] ∧ Sentence.IsExpression us ∧ Sentence.IsFurther vs ∧
      stop.kind = .eof := by
  induction hn : ts.length using Nat.strongRecOn generalizing ts with
  | ind n ih =>
    obtain ⟨us, t, rest, rfl, hterminal, hleave⟩ := exists_terminal_of_run h
    have hlt : rest.length < n := by
      rw [← hn, List.length_append, List.length_cons]
      omega
    unfold leave at hleave
    split at hleave
    next hk =>
      obtain ⟨us', vs, stop, rfl, hexpression, hfurther, hstop⟩ := ih _ hlt hleave rfl
      exact ⟨us ++ t :: us', vs, stop, by simp, .operation hterminal hk hexpression, hfurther, hstop⟩
    next hk =>
      obtain ⟨us', vs, stop, rfl, hexpression, hfurther, hstop⟩ := ih _ hlt hleave rfl
      exact ⟨us, t :: us' ++ vs, stop, by simp, .terminal hterminal, .cons hk hexpression hfurther,
        hstop⟩
    next hk =>
      obtain ⟨rfl, -⟩ := eq_nil_of_run_done hleave
      exact ⟨us, [], t, by simp, .terminal hterminal, .nil, hk⟩
    next => simp at hleave

/-- The sentences are the sequences that lead from the first stage to the last one. -/
theorem isSentence_iff_run {ts : List Token} : IsSentence ts ↔ start.run ts = some done := by
  refine ⟨run_of_isSentence, fun h => ?_⟩
  match ts with
  | [] => simp at h
  | t :: ts =>
    rw [run_cons, step] at h
    split_ifs at h with hsof
    · rw [Option.bind_some] at h
      match ts with
      | [] => simp at h
      | u :: us =>
        by_cases heof : u.kind = .eof
        · rw [run_cons, step, if_pos heof, Option.bind_some] at h
          obtain ⟨rfl, -⟩ := eq_nil_of_run_done h
          exact .sentence hsof .nil heof
        · rw [run_first heof] at h
          obtain ⟨ts, vs, stop, hts, hexpression, hfurther, hstop⟩ := exists_expressions_of_run h
          rw [hts]
          exact .sentence hsof (.cons hexpression hfurther) hstop
    · simp at h

/-! ## Beginnings of sentences -/

/-- The number one. -/
def one : Token :=
  ⟨.number, "1", 0, 0⟩

/-- The number one has the value one. -/
theorem value?_one : one.value? = some 1 := by
  decide +kernel

/-- There is a way from every stage to the last one: the start where nothing has been read, a number
where one has to come, and the end. -/
theorem exists_run_eq_done (s : Stage) : ∃ us, s.run us = some done := by
  have hend (s : Stage) (hs : s.Complete) : s.run [Token.eof 0] = some done := by
    rw [run_cons, step_eq_leave hs (Or.inr (Or.inr rfl))]
    rfl
  cases s with
  | start => exact ⟨[Token.sof, Token.eof 0], rfl⟩
  | first => exact ⟨[Token.eof 0], rfl⟩
  | operand =>
    refine ⟨[one, Token.eof 0], ?_⟩
    rw [run_cons, step, enter, if_neg (by decide), value?_one]
    exact hend (number 1) trivial
  | letter =>
    refine ⟨[one, Token.eof 0], ?_⟩
    rw [run_cons, step, value?_one]
    exact hend (faces 1) trivial
  | number value => exact ⟨[Token.eof 0], hend _ trivial⟩
  | faces value => exact ⟨[Token.eof 0], hend _ trivial⟩
  | modified => exact ⟨[Token.eof 0], hend _ trivial⟩
  | done => exact ⟨[], rfl⟩

/-- What leads anywhere begins a sentence. -/
theorem exists_isSentence_append {ts : List Token} {s : Stage} (h : start.run ts = some s) :
    ∃ us, IsSentence (ts ++ us) := by
  obtain ⟨us, hus⟩ := s.exists_run_eq_done
  exact ⟨us, isSentence_iff_run.2 (by rw [run_append_of_eq h, hus])⟩

/-- What leads nowhere begins no sentence. -/
theorem not_isPrefix_of_run_eq_none {ts us : List Token} (h : start.run ts = none)
    (hus : IsSentence us) : ¬ ts <+: us := by
  intro hts
  have hsome := run_isSome_of_isPrefix hts (isSentence_iff_run.1 hus)
  simp [h] at hsome

end Stage

end DiceNotation
