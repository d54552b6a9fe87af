import DiceNotation.Program
import DiceNotation.Proofs.Streams.Simulation
import DiceNotation.Symbol
import DiceNotation.Text.Numeral

set_option autoImplicit false

/-!
# The grammar of token sequences

Which sequences of tokens are programs, and the syntax trees they are programs of. A tree keeps the
tokens of its expression, so the grammar is a property of trees, and the sequence of an expression
can be read off its tree.

## Main definitions

* `Node.tokens` — the tokens of a tree, in order.
* `Node.IsTerminal`, `Node.IsExpression` — the trees of terminals and of expressions.
* `Program.Further`, `Program.Spelling` — the token sequences of expressions behind separators, and
  of programs.
* `FixedStream.Starts` — what lies ahead in a stream starts with a sequence of tokens.

## Main results

* `FixedStream.starts_append` — a stream starts with two sequences if it starts with the first one
  and goes on with the second one.
-/

namespace DiceNotation

/-! ## Tokens in their places -/

namespace Token

/-- A number whose lexeme denotes `value`. -/
structure IsNumber (t : Token) (value : Int32) : Prop where
  /-- It is a number. -/
  kind : t.kind = .number
  /-- It denotes the value. -/
  lexeme : Numeral.int32? t.lexeme = some value

/-- A number of dice: between 1 and 255. -/
def IsCount (t : Token) : Prop :=
  ∃ value, t.IsNumber value ∧ 1 ≤ value ∧ value ≤ 255

/-- A modifier that dice with `faces` faces can have. Its first character tells which one it is, and
a die that always shows the same face does not explode. -/
structure IsModifier (t : Token) (faces : Int32) : Prop where
  /-- It is a modifier. -/
  kind : t.kind = .modifier
  /-- It is one that is known, and it suits the faces. -/
  suits : ∃ m, t.lexeme.toList.head?.bind Modifier.ofChar? = some m ∧
    (m = .explode → ¬ (-1 ≤ faces ∧ faces ≤ 1))

/-- A token that can stand behind an expression: a separator or the end. -/
def EndsExpression (t : Token) : Prop :=
  t.kind = .separator ∨ t.kind = .eof

/-- A token that can stand behind a terminal: an operator, or what can stand behind an expression. -/
def EndsTerminal (t : Token) : Prop :=
  t.kind = .operator ∨ t.EndsExpression

/-- A number has one value. -/
theorem IsNumber.unique {t : Token} {v w : Int32} (hv : t.IsNumber v) (hw : t.IsNumber w) : v = w :=
  Option.some.inj (hv.lexeme.symm.trans hw.lexeme)

end Token

/-! ## Expressions -/

namespace Node

/-- The tokens of a tree, in order. -/
def tokens : Node → List Token
  | number t _ => [t]
  | dice times dSymbol faces modifier =>
    times.toList ++ [dSymbol, faces] ++ modifier.toList
  | operation left operator right => left.tokens ++ operator :: right.tokens

/-- A terminal: a number, or dice. -/
inductive IsTerminal : Node → Prop
  | number {t : Token} {value : Int32} (h : t.IsNumber value) : IsTerminal (.number t value)
  | dice {times modifier : Option Token} {dSymbol faces : Token} {value : Int32}
    (htimes : ∀ t ∈ times, t.IsCount) (hd : dSymbol.kind = .dSymbol)
    (hfaces : faces.IsNumber value) (hmodifier : ∀ t ∈ modifier, t.IsModifier value) :
    IsTerminal (.dice times dSymbol faces modifier)

/-- An expression: a terminal, or a terminal, an operator and an expression. -/
inductive IsExpression : Node → Prop
  | terminal {n : Node} (h : n.IsTerminal) : IsExpression n
  | operation {left right : Node} {operator : Token} (hleft : left.IsTerminal)
    (hoperator : operator.kind = .operator) (hright : right.IsExpression) :
    IsExpression (.operation left operator right)

/-- A terminal has between one and four tokens. -/
theorem IsTerminal.length_tokens {n : Node} (h : n.IsTerminal) :
    1 ≤ n.tokens.length ∧ n.tokens.length ≤ 4 := by
  cases h with
  | number => simp [tokens]
  | @dice times modifier =>
    have ht : times.toList.length ≤ 1 := by cases times <;> simp
    have hm : modifier.toList.length ≤ 1 := by cases modifier <;> simp
    simp only [tokens, List.length_append, List.length_cons, List.length_nil]
    omega

/-- The tokens of a terminal are numbers, the letter and modifiers. -/
theorem IsTerminal.kind_of_mem {n : Node} (h : n.IsTerminal) {t : Token} (ht : t ∈ n.tokens) :
    t.kind = .number ∨ t.kind = .dSymbol ∨ t.kind = .modifier := by
  cases h with
  | number hn =>
    obtain rfl : t = _ := by simpa [tokens] using ht
    exact Or.inl hn.kind
  | dice htimes hd hfaces hmodifier =>
    simp only [tokens, List.mem_append, Option.mem_toList, List.mem_cons, List.not_mem_nil,
      or_false] at ht
    rcases ht with (htimes' | rfl | rfl) | hmodifier'
    · obtain ⟨value, hv, -⟩ := htimes t htimes'
      exact Or.inl hv.kind
    · exact Or.inr (Or.inl hd)
    · exact Or.inl hfaces.kind
    · exact Or.inr (Or.inr (hmodifier t hmodifier').kind)

/-- A terminal begins with a number or with the letter. -/
theorem IsTerminal.exists_cons {n : Node} (h : n.IsTerminal) :
    ∃ t ts, n.tokens = t :: ts ∧ (t.kind = .number ∨ t.kind = .dSymbol) := by
  cases h with
  | @number t _ hvalue => exact ⟨t, [], rfl, Or.inl hvalue.kind⟩
  | @dice times modifier dSymbol faces _ htimes hd =>
    cases times with
    | none => exact ⟨dSymbol, _, rfl, Or.inr hd⟩
    | some t =>
      obtain ⟨value, hvalue, -⟩ := htimes t rfl
      exact ⟨t, _, rfl, Or.inl hvalue.kind⟩

/-- An expression begins with a number or with the letter. -/
theorem IsExpression.exists_cons {n : Node} (h : n.IsExpression) :
    ∃ t ts, n.tokens = t :: ts ∧ (t.kind = .number ∨ t.kind = .dSymbol) := by
  cases h with
  | terminal h => exact h.exists_cons
  | operation hleft =>
    obtain ⟨t, ts, hts, hk⟩ := hleft.exists_cons
    exact ⟨t, _, by rw [tokens, hts, List.cons_append], hk⟩

/-- No token of an expression is an end. -/
theorem IsExpression.kind_ne_eof {n : Node} (h : n.IsExpression) {t : Token} (ht : t ∈ n.tokens) :
    t.kind ≠ .eof := by
  have hterminal {n : Node} (h : n.IsTerminal) (ht : t ∈ n.tokens) : t.kind ≠ .eof := by
    rcases h.kind_of_mem ht with hk | hk | hk <;> simp [hk]
  induction h with
  | terminal h => exact hterminal h ht
  | operation hleft hoperator _ ih =>
    rcases List.mem_append.1 ht with hmem | hmem
    · exact hterminal hleft hmem
    rcases List.mem_cons.1 hmem with rfl | hmem
    · simp [hoperator]
    · exact ih hmem

end Node

/-! ## Programs -/

namespace Program

/-- The expressions of trees, each behind a separator. -/
inductive Further : List Node → List Token → Prop
  | nil : Further [] []
  | cons {separator : Token} {n : Node} {ns : List Node} {ts : List Token}
    (hseparator : separator.kind = .separator) (hn : n.IsExpression) (hns : Further ns ts) :
    Further (n :: ns) (separator :: n.tokens ++ ts)

/-- The expressions of trees with separators between them, or nothing. -/
inductive Listing : List Node → List Token → Prop
  | nil : Listing [] []
  | cons {n : Node} {ns : List Node} {ts : List Token} (hn : n.IsExpression)
    (hns : Further ns ts) : Listing (n :: ns) (n.tokens ++ ts)

/-- A program: the start, its expressions with separators between them, and the end. -/
inductive Spelling : Program → List Token → Prop
  | program {start stop : Token} {items : List Node} {ts : List Token} (hstart : start.kind = .sof)
    (hitems : Listing items ts) (hstop : stop.kind = .eof) :
    Spelling ⟨items⟩ (start :: ts ++ [stop])

/-- Further trees are trees of expressions, whose tokens come among those of all. -/
theorem Further.of_mem {ns : List Node} {ts : List Token} (h : Further ns ts) {n : Node}
    (hn : n ∈ ns) : n.IsExpression ∧ ∀ t ∈ n.tokens, t ∈ ts := by
  induction h with
  | nil => simp at hn
  | cons _ hexpression _ ih =>
    rcases List.mem_cons.1 hn with rfl | hmem
    · refine ⟨hexpression, fun t ht => ?_⟩
      simp [ht]
    · obtain ⟨hexpression, htokens⟩ := ih hmem
      refine ⟨hexpression, fun t ht => ?_⟩
      simp [htokens t ht]

/-- Listed trees are trees of expressions, whose tokens come among those of all. -/
theorem Listing.of_mem {ns : List Node} {ts : List Token} (h : Listing ns ts) {n : Node}
    (hn : n ∈ ns) : n.IsExpression ∧ ∀ t ∈ n.tokens, t ∈ ts := by
  cases h with
  | nil => simp at hn
  | cons hexpression hns =>
    rcases List.mem_cons.1 hn with rfl | hmem
    · refine ⟨hexpression, fun t ht => ?_⟩
      simp [ht]
    · obtain ⟨hexpression, htokens⟩ := hns.of_mem hmem
      refine ⟨hexpression, fun t ht => ?_⟩
      simp [htokens t ht]

/-- No token of expressions behind separators is an end. -/
theorem Further.kind_ne_eof {ns : List Node} {ts : List Token} (h : Further ns ts) {t : Token}
    (ht : t ∈ ts) : t.kind ≠ .eof := by
  induction h with
  | nil => simp at ht
  | cons hseparator hn _ ih =>
    rcases List.mem_append.1 ht with hmem | hmem
    · rcases List.mem_cons.1 hmem with rfl | hmem
      · simp [hseparator]
      · exact hn.kind_ne_eof hmem
    · exact ih hmem

/-- No token of expressions with separators between them is an end. -/
theorem Listing.kind_ne_eof {ns : List Node} {ts : List Token} (h : Listing ns ts) {t : Token}
    (ht : t ∈ ts) : t.kind ≠ .eof := by
  cases h with
  | nil => simp at ht
  | cons hn hns =>
    rcases List.mem_append.1 ht with hmem | hmem
    · exact hn.kind_ne_eof hmem
    · exact hns.kind_ne_eof hmem

/-- A program ends with its only end. -/
theorem Spelling.exists_append {prog : Program} {ts : List Token} (h : prog.Spelling ts) :
    ∃ us stop, ts = us ++ [stop] ∧ (∀ t ∈ us, t.kind ≠ .eof) ∧ stop.kind = .eof := by
  cases h with
  | @program start stop items ts hstart hitems hstop =>
    refine ⟨start :: ts, stop, rfl, ?_, hstop⟩
    intro t ht
    rcases List.mem_cons.1 ht with rfl | hmem
    · simp [hstart]
    · exact hitems.kind_ne_eof hmem

end Program

/-! ## Sequences at the front of a stream -/

namespace FixedStream

/-- What lies ahead starts with the tokens `ts`. -/
def Starts (s : FixedStream) (ts : List Token) : Prop :=
  ∀ (i : Nat) (t : Token), ts[i]? = some t → s.ahead i = .ok t

/-- Every stream starts with no tokens. -/
@[simp] theorem starts_nil (s : FixedStream) : s.Starts [] := by
  simp [Starts]

/-- A stream starts with one token if that is the next item. -/
@[simp] theorem starts_singleton {s : FixedStream} {t : Token} :
    s.Starts [t] ↔ s.ahead 0 = .ok t := by
  constructor
  · intro h
    exact h 0 t rfl
  · intro h i u hu
    obtain ⟨rfl, rfl⟩ : i = 0 ∧ t = u := by
      simpa [List.getElem?_singleton] using hu
    exact h

/-- A stream starts with the tokens that its list begins with. -/
theorem starts_of_prefix {s : FixedStream} {ts : List Token} (hcursor : s.cursor = 0)
    (h : ts.map .ok <+: s.items) : s.Starts ts := by
  intro i t ht
  obtain ⟨hi, ht⟩ := List.getElem?_eq_some_iff.1 ht
  obtain ⟨rest, hrest⟩ := h
  have hahead := s.some_ahead i
  rw [hcursor, Nat.zero_add, ← hrest, nthOrLast_append_of_lt _ (by simpa using hi), nthOrLast_map,
    nthOrLast_of_lt hi, ht] at hahead
  exact Option.some.inj hahead

/-- The tokens that a stream starts with are items of the stream. -/
theorem Starts.mem_items {s : FixedStream} {ts : List Token} (h : s.Starts ts) {t : Token}
    (ht : t ∈ ts) : .ok t ∈ s.items := by
  obtain ⟨i, hi⟩ := List.mem_iff_getElem?.1 ht
  rw [← h i t hi]
  exact List.get_mem _ _

/-- A stream starts with two sequences if it starts with the first one and goes on with the second
one. -/
theorem starts_append {s : FixedStream} {ts us : List Token} :
    s.Starts (ts ++ us) ↔ s.Starts ts ∧ (s.behind ts.length).Starts us := by
  constructor
  · intro h
    refine ⟨fun i t ht => h i t ?_, fun i t ht => ?_⟩
    · rw [List.getElem?_append_left (List.getElem?_eq_some_iff.1 ht).1, ht]
    · rw [ahead_behind]
      exact h _ t (by rw [List.getElem?_append_right (by omega)]; simpa using ht)
  · rintro ⟨hts, hus⟩ i t ht
    rcases Nat.lt_or_ge i ts.length with hi | hi
    · rw [List.getElem?_append_left hi] at ht
      exact hts i t ht
    · rw [List.getElem?_append_right hi] at ht
      have h := hus _ t ht
      rwa [ahead_behind, Nat.add_sub_cancel' hi] at h

end FixedStream

end DiceNotation
