import DiceNotation.Proofs.Parsing.Programs

set_option autoImplicit false

/-!
# The limit is never reached

Parsing recurses up to a limit. A higher limit changes no outcome, and the limit that is used leaves
room for every fixed stream: between two recursive calls the parser reads at least two tokens that
differ, and a stream that only repeats its last item has no such tokens. So what parsing yields does
not depend on the limit.

## Main definitions

* `Parse.Refines` — a step has every outcome that another step has.
* `Parse.Finishes` — a step never gives up.

## Main results

* `Parser.program_refines` — a higher limit changes no outcome.
* `Parser.program_ne_none` — with room for all items ahead, parsing does not give up.
* `Parser.parse_eq_iff` — what parsing yields is what it yields with any limit that is not reached.
* `Parser.parse_eq_ok_iff` — over a fixed stream, a program is accepted exactly if it lies ahead.
-/

namespace DiceNotation

/-! ## Outcomes of higher limits -/

namespace Parse

variable {σ α β : Type}

/-- Wherever `x` does not give up, `y` has the same outcome. -/
def Refines (x y : Parse σ α) : Prop :=
  ∀ p r, x p = some r → y p = some r

/-- Every step has its own outcomes. -/
theorem Refines.refl (x : Parse σ α) : Refines x x :=
  fun _ _ h => h

/-- Steps with the same outcomes have the same outcomes one after the other. -/
theorem Refines.bind {x y : Parse σ α} {f g : α → Parse σ β} (hxy : Refines x y)
    (hfg : ∀ a, Refines (f a) (g a)) : Refines (x >>= f) (y >>= g) := by
  intro p r h
  rw [bind_apply] at h ⊢
  cases hx : x p with
  | none => simp [hx] at h
  | some o =>
    rw [hxy p o hx]
    rw [hx] at h
    obtain ⟨a | a, q⟩ := o
    · exact h
    · exact hfg a q r h

/-- The step never gives up. -/
def Finishes (x : Parse σ α) : Prop :=
  ∀ p, x p ≠ none

/-- Two steps do not give up if the first one does not, and the second one does not behind it. -/
theorem bind_ne_none {x : Parse σ α} {f : α → Parse σ β} {p : Parser σ} (hx : x p ≠ none)
    (hf : ∀ a q, x p = some (.ok a, q) → f a q ≠ none) : (x >>= f) p ≠ none := by
  rw [bind_apply]
  cases h : x p with
  | none => exact absurd h hx
  | some o =>
    obtain ⟨a | a, q⟩ := o
    · simp
    · exact hf a q h

/-- Two steps that never give up do not give up one after the other. -/
theorem Finishes.bind {x : Parse σ α} {f : α → Parse σ β} (hx : Finishes x)
    (hf : ∀ a, Finishes (f a)) : Finishes (x >>= f) :=
  fun p => bind_ne_none (hx p) fun a q _ => hf a q

/-- A step that only yields a value does not give up. -/
theorem Finishes.pure (a : α) : Finishes (pure a : Parse σ α) := by
  intro p
  simp [pure_apply]

/-- Changing the value of a step does not make it give up. -/
theorem Finishes.map {x : Parse σ α} (f : α → β) (hx : Finishes x) : Finishes (f <$> x) := by
  rw [← bind_pure_comp]
  exact hx.bind fun a => .pure (f a)

end Parse

namespace Parser

/-- Failing is not giving up. -/
theorem finishes_fail {σ α : Type} (e : ParseError) : Parse.Finishes (fail e : Parse σ α) := by
  intro p
  simp [fail]

section Steps

variable {σ : Type} [TokenStream σ]

/-- A higher limit changes no outcome of reading an expression. -/
theorem expression_refines {limit limit' : Nat} (h : limit ≤ limit') :
    Parse.Refines (expression limit : Parse σ Node) (expression limit') := by
  induction limit generalizing limit' with
  | zero =>
    intro p r hr
    simp [expression, giveUp] at hr
  | succ limit ih =>
    obtain ⟨k, rfl⟩ : ∃ k, limit' = k + 1 := ⟨limit' - 1, by omega⟩
    unfold expression
    apply (Parse.Refines.refl _).bind
    intro b
    split
    · refine (Parse.Refines.refl _).bind fun left => (Parse.Refines.refl _).bind fun operator => ?_
      exact (ih (by omega)).bind fun right => Parse.Refines.refl _
    · exact Parse.Refines.refl _

/-- Higher limits change no outcome of reading further expressions. -/
theorem furtherExpressions_refines {limit limit' n n' : Nat} (h : limit ≤ limit') (hn : n ≤ n') :
    Parse.Refines (furtherExpressions limit n : Parse σ (List Node))
      (furtherExpressions limit' n') := by
  induction n generalizing n' with
  | zero =>
    intro p r hr
    simp [furtherExpressions, giveUp] at hr
  | succ n ih =>
    obtain ⟨k, rfl⟩ : ∃ k, n' = k + 1 := ⟨n' - 1, by omega⟩
    unfold furtherExpressions
    apply (Parse.Refines.refl _).bind
    intro b
    split
    · refine (Parse.Refines.refl _).bind fun _ => (expression_refines h).bind fun item => ?_
      apply (Parse.Refines.refl _).bind
      intro token
      split
      · exact Parse.Refines.refl _
      · exact (ih (by omega)).bind fun items => Parse.Refines.refl _
    · exact Parse.Refines.refl _

/-- A higher limit changes no outcome of reading a program. -/
theorem program_refines {limit limit' : Nat} (h : limit ≤ limit') :
    Parse.Refines (program limit : Parse σ Program) (program limit') := by
  have hexpressions : Parse.Refines (expressions limit : Parse σ (List Node))
      (expressions limit') := by
    apply (Parse.Refines.refl _).bind
    intro b
    split
    · exact Parse.Refines.refl _
    · apply (expression_refines h).bind
      intro item
      exact (furtherExpressions_refines h h).bind fun items => Parse.Refines.refl _
  exact (Parse.Refines.refl _).bind fun _ => hexpressions.bind fun items => Parse.Refines.refl _

/-! ## Steps that never give up -/

/-- Looking ahead does not give up. -/
theorem finishes_peekNth (n : Nat) : Parse.Finishes (peekNth n : Parse σ Token) := by
  intro p
  simp [peekNth]

/-- Looking for a kind of token does not give up. -/
theorem finishes_isAt (n : Nat) (kind : TokenKind) :
    Parse.Finishes (isAt n kind : Parse σ Bool) :=
  (finishes_peekNth n).bind fun _ => .pure _

/-- Reading a token does not give up. -/
theorem finishes_advance : Parse.Finishes (advance : Parse σ Token) := by
  intro p
  unfold advance
  split <;> simp

/-- Reading a token of a kind does not give up. -/
theorem finishes_expect (kind : TokenKind) (cause : Misfit) :
    Parse.Finishes (expect kind cause : Parse σ Token) := by
  apply finishes_advance.bind
  intro token
  split
  · exact .pure _
  · exact finishes_fail _

/-- Reading a number does not give up. -/
theorem finishes_number : Parse.Finishes (number : Parse σ (Token × Int32)) := by
  have hpos : Parse.Finishes (lastPos : Parse σ Int) := by
    intro p
    simp [lastPos]
  refine hpos.bind fun position => finishes_advance.bind fun token => ?_
  split
  · exact .pure _
  · exact finishes_fail _

/-- Reading a number of dice does not give up. -/
theorem finishes_times : Parse.Finishes (times : Parse σ Token) := by
  apply finishes_number.bind
  intro r
  obtain ⟨token, value⟩ := r
  simp only
  split
  · exact .pure _
  · exact finishes_fail _

/-- Reading a modifier does not give up. -/
theorem finishes_modifier (faces : Int32) : Parse.Finishes (modifier faces : Parse σ Token) := by
  apply finishes_advance.bind
  intro token
  split
  · exact finishes_fail _
  · split
    · exact finishes_fail _
    · exact .pure _
  · exact .pure _

/-- A token that may be missing is read without giving up if the step that reads it does not. -/
theorem finishes_optional {β : Type} (kind : TokenKind) {x : Parse σ Token}
    {k : Option Token → Parse σ β} (hx : Parse.Finishes x) (hk : ∀ o, Parse.Finishes (k o)) :
    Parse.Finishes
      (nextIs kind >>= fun is => if is = true then some <$> x >>= k else pure none >>= k) := by
  apply (finishes_isAt 0 kind).bind
  intro is
  split
  · exact (hx.map some).bind hk
  · exact (Parse.Finishes.pure none).bind hk

/-- Reading dice does not give up. -/
theorem finishes_dice : Parse.Finishes (dice : Parse σ Node) := by
  apply finishes_optional .number finishes_times
  intro times
  refine (finishes_expect _ _).bind fun dSymbol => finishes_number.bind fun r => ?_
  exact finishes_optional .modifier (finishes_modifier r.2) fun mode => .pure _

/-- Reading a terminal does not give up. -/
theorem finishes_terminal : Parse.Finishes (terminal : Parse σ Node) := by
  have hread (diceAhead : Bool) : Parse.Finishes
      (if diceAhead = true then dice
        else number >>= fun r => pure (Node.number r.1 r.2) : Parse σ Node) := by
    split
    · exact finishes_dice
    · exact finishes_number.bind fun r => .pure _
  apply (finishes_isAt 0 .dSymbol).bind
  intro is
  split
  · exact (Parse.Finishes.pure true).bind hread
  · exact (finishes_isAt 1 .dSymbol).bind hread

/-- Looking for an operator does not give up. -/
theorem finishes_operatorWithin (n count : Nat) :
    Parse.Finishes (operatorWithin n count : Parse σ Bool) := by
  induction count generalizing n with
  | zero => exact .pure false
  | succ count ih =>
    apply (finishes_peekNth n).bind
    intro token
    split
    · exact .pure true
    · exact .pure false
    · exact .pure false
    · exact ih (n + 1)

end Steps

/-! ## Room for all items -/

section Fixed

variable {p : Parser FixedStream}

/-- Reading tokens leaves so many items fewer ahead. -/
theorem Reads.size_eq {ts : List Token} {q : Parser FixedStream} (h : p.Reads ts q) :
    TokenStream.size q.tokens = TokenStream.size p.tokens - ts.length := by
  rw [h.2]
  exact Nat.sub_add_eq _ _ _

/-- With at most one item ahead, that item is all that ever comes. -/
theorem ahead_eq_ahead_zero {s : FixedStream} (h : TokenStream.size s ≤ 1) (n : Nat) :
    s.ahead n = s.ahead 0 := by
  have hsize : s.items.length - s.cursor ≤ 1 := h
  unfold FixedStream.ahead FixedStream.item
  congr 2
  omega

/-- Two tokens of different kinds ahead are two items. -/
theorem one_lt_size {m n : Nat} {t u : Token} (ht : p.tokens.ahead m = .ok t)
    (hu : p.tokens.ahead n = .ok u) (hne : t.kind ≠ u.kind) : 1 < TokenStream.size p.tokens := by
  by_contra hle
  have hall := ahead_eq_ahead_zero (s := p.tokens) (by omega)
  rw [hall] at ht hu
  cases ht.symm.trans hu
  exact hne rfl

/-- With room for all items ahead, reading an expression does not give up.

**Proof sketch.** Induction on the limit. An operation takes at least two items, the first token of
its left operand and its operator, which are of different kinds. So there are two items at least,
and behind them there is room for the rest. -/
theorem expression_ne_none {limit : Nat} (hlimit : 1 ≤ limit)
    (hsize : TokenStream.size p.tokens ≤ limit) : expression limit p ≠ none := by
  induction limit generalizing p with
  | zero => omega
  | succ limit ih =>
    unfold expression
    apply Parse.bind_ne_none (finishes_operatorWithin 1 4 p)
    intro b r hahead
    obtain rfl := operatorWithin_sound hahead
    split
    · apply Parse.bind_ne_none (finishes_terminal r)
      intro left p₁ hleft
      apply Parse.bind_ne_none (finishes_expect _ _ p₁)
      intro operator p₂ hoperator
      obtain ⟨hterminal, hread₁⟩ := terminal_sound hleft
      obtain ⟨hkind, hread₂⟩ := expect_eq_ok.1 hoperator
      obtain ⟨t, ts, hts, hk⟩ := hterminal.exists_cons
      have hlt : 1 < TokenStream.size r.tokens := by
        refine one_lt_size (hread₁.ahead_of_getElem? (i := 0) (by rw [hts]; rfl))
          ((hread₁.ahead_add 0).trans (hread₂.ahead_of_getElem? rfl)) ?_
        rcases hk with hk | hk <;> simp [hk, hkind]
      have hrest : TokenStream.size p₂.tokens ≤ limit := by
        rw [(hread₁.append hread₂).size_eq, hts]
        simp only [List.cons_append, List.length_cons, List.length_append]
        omega
      exact Parse.bind_ne_none (ih (by omega) hrest) fun right p₃ _ => Parse.Finishes.pure _ p₃
    · exact finishes_terminal r

/-- With room for all items ahead, reading further expressions does not give up. -/
theorem furtherExpressions_ne_none {limit n : Nat} (hlimit : 1 ≤ limit) (hn : 1 ≤ n)
    (hsize : TokenStream.size p.tokens ≤ limit) (hsize' : TokenStream.size p.tokens ≤ n) :
    furtherExpressions limit n p ≠ none := by
  induction n generalizing p with
  | zero => omega
  | succ n ih =>
    unfold furtherExpressions
    apply Parse.bind_ne_none (finishes_isAt 0 .separator p)
    intro b r hat
    obtain ⟨t, ht, rfl, rfl⟩ := isAt_eq_ok.1 hat
    split
    next hk =>
      have hk : t.kind = .separator := of_decide_eq_true hk
      apply Parse.bind_ne_none (finishes_advance r)
      intro separator p₁ hseparator
      have hread₁ := advance_eq_ok.1 hseparator
      refine Parse.bind_ne_none (expression_ne_none hlimit (by rw [hread₁.size_eq]; omega))
        fun item p₂ hitem => ?_
      obtain ⟨hexpression, hread₂⟩ := expression_sound hitem
      obtain ⟨u, us, hus, hk'⟩ := hexpression.exists_cons
      have hlt : 1 < TokenStream.size r.tokens := by
        refine one_lt_size ht ((hread₁.ahead_add 0).trans
          (hread₂.ahead_of_getElem? (i := 0) (by rw [hus]; rfl))) ?_
        rcases hk' with hk' | hk' <;> simp [hk, hk']
      apply Parse.bind_ne_none (finishes_peekNth 0 p₂)
      intro next p₃ hpeek
      obtain ⟨-, rfl⟩ := peekNth_eq_ok.1 hpeek
      split
      · exact finishes_fail _ p₃
      · have hrest := (hread₁.append hread₂).size_eq
        refine Parse.bind_ne_none (ih (by omega) (by omega) ?_) fun items p₄ _ =>
          Parse.Finishes.pure _ p₄
        rw [hrest, hus]
        simp only [List.cons_append, List.length_cons]
        omega
    next => exact Parse.Finishes.pure _ r

/-- With room for all items ahead, reading a program does not give up. -/
theorem program_ne_none {limit : Nat} (hlimit : 1 ≤ limit)
    (hsize : TokenStream.size p.tokens ≤ limit) : program limit p ≠ none := by
  have hexpressions {q : Parser FixedStream} (hq : TokenStream.size q.tokens ≤ limit) :
      expressions limit q ≠ none := by
    unfold expressions
    apply Parse.bind_ne_none (finishes_isAt 0 .eof q)
    intro b r hat
    obtain ⟨t, -, -, rfl⟩ := isAt_eq_ok.1 hat
    split
    · exact Parse.Finishes.pure _ r
    · apply Parse.bind_ne_none (expression_ne_none hlimit hq)
      intro item p₁ hitem
      obtain ⟨-, hread⟩ := expression_sound hitem
      have hrest : TokenStream.size p₁.tokens ≤ limit := by rw [hread.size_eq]; omega
      refine Parse.bind_ne_none (furtherExpressions_ne_none hlimit hlimit hrest hrest)
        fun items p₂ _ => Parse.Finishes.pure _ p₂
  unfold program
  apply Parse.bind_ne_none (finishes_expect _ _ p)
  intro start p₁ hstart
  obtain ⟨-, hread⟩ := expect_eq_ok.1 hstart
  apply Parse.bind_ne_none (hexpressions (by rw [hread.size_eq]; omega))
  intro items p₂ _
  exact Parse.bind_ne_none (finishes_expect _ _ p₂) fun stop p₃ _ => Parse.Finishes.pure _ p₃

end Fixed

/-- If parsing does not give up, it yields what it yields with any other limit at which it does not
give up. -/
theorem parse_eq_of_ne_none {σ : Type} [TokenStream σ] {p : Parser σ}
    (h : program p.limit p ≠ none) {limit : Nat} {r : Except ParseError Program × Parser σ}
    (hr : program limit p = some r) : p.parse = r := by
  obtain ⟨r', hr'⟩ := Option.ne_none_iff_exists'.1 h
  have hmax := program_refines (Nat.le_max_left limit p.limit) p r hr
  have hmax' := program_refines (Nat.le_max_right limit p.limit) p r' hr'
  rw [parse, hr', Option.getD_some]
  exact Option.some.inj (hmax'.symm.trans hmax)

/-- Parsing a fixed stream yields what it yields with any limit that is not reached. -/
theorem parse_eq_iff {p : Parser FixedStream} {r : Except ParseError Program × Parser FixedStream} :
    p.parse = r ↔ ∃ limit, program limit p = some r := by
  have h : program p.limit p ≠ none := program_ne_none (Nat.succ_pos _) (Nat.le_succ _)
  constructor
  · rintro rfl
    obtain ⟨r, hr⟩ := Option.ne_none_iff_exists'.1 h
    exact ⟨p.limit, by rw [parse, hr, Option.getD_some]⟩
  · rintro ⟨limit, hr⟩
    exact parse_eq_of_ne_none h hr

/-- Over a fixed stream, a program is accepted exactly if it lies ahead. -/
theorem parse_eq_ok_iff {p : Parser FixedStream} {prog : Program} :
    p.parse.1 = .ok prog ↔ ∃ ts, prog.Spelling ts ∧ p.tokens.Starts ts := by
  constructor
  · intro h
    obtain ⟨limit, hprogram⟩ := parse_eq_iff.1 (Prod.ext h rfl : p.parse = (.ok prog, _))
    obtain ⟨ts, hspelling, hread⟩ := program_sound hprogram
    exact ⟨ts, hspelling, hread.1⟩
  · rintro ⟨ts, hspelling, hstarts⟩
    have hprogram := program_complete hspelling ⟨hstarts, rfl⟩ (Nat.le_refl ts.length)
    rw [parse_eq_iff.2 ⟨_, hprogram⟩]

end Parser

end DiceNotation
