import DiceNotation.Proofs.Rolling.Limits
import DiceNotation.Proofs.Rolling.Order

set_option autoImplicit false

/-!
# What the drawn values depend on

How many words some dice take, and what they show, depends on how many dice they are, on how many faces
each has and on whether they explode. What their values are combined to does not feed back into the
drawing, and neither does anything that stands around a dice term. So two lists of expressions with
the same dice terms, in this sense and in the order in which they are read, show the same values and
leave the source in the same state.

## Main definitions

* `Dice.drawing` — what decides how dice are drawn.

## Main results

* `Dice.roll_eq_of_drawing_eq` — dice that are drawn alike show the same.
* `Dice.Threaded.of_drawing_eq`, `Dice.Threaded.unique` — so do dice terms one after the other, and they
  show only one thing.
* `Rolls.drawn_eq_of_drawing_eq` — so do the dice terms of expressions.
-/

namespace DiceNotation

variable {γ : Type} [WordSource γ] {limit : Nat} {g g' : γ}

/-! ## Dice terms -/

namespace Dice

/-- What decides how dice are drawn: how many they are, how many faces each has, and whether they are
marked as exploding. -/
def drawing (d : Dice) : UInt8 × Int32 × Bool :=
  (d.number, d.faces, d.modifier = .explode)

/-- Dice that are drawn alike show the same. -/
theorem roll_eq_of_drawing_eq {d e : Dice} (h : d.drawing = e.drawing) (limit : Nat) :
    (d.roll limit : Rolling γ (List Int32)) = e.roll limit := by
  obtain ⟨hnumber, hfaces, hmodifier⟩ :
      d.number = e.number ∧ d.faces = e.faces ∧ (d.modifier = .explode ↔ e.modifier = .explode) := by
    simpa [drawing] using h
  have hupper : d.upper = e.upper := by rw [upper, upper, hfaces]
  have hlower : d.lower = e.lower := by rw [lower, lower, hfaces]
  have hexplodes : d.explodes = e.explodes := by
    simp only [explodes, hmodifier, hlower, hupper]
  unfold roll
  rw [hnumber, hfaces, hupper, hexplodes]

/-- Dice terms that are drawn alike, one after the other, show the same. -/
theorem Threaded.of_drawing_eq {ds es : List Dice} {rs : List (List Int32)}
    (h : Threaded limit ds g rs g') (hdraw : ds.map drawing = es.map drawing) :
    Threaded limit es g rs g' := by
  induction h generalizing es with
  | nil g =>
    obtain rfl := List.map_eq_nil_iff.1 hdraw.symm
    exact .nil g
  | @cons d ds g h g' vs rs hroll hrest ih =>
    cases es with
    | nil => simp at hdraw
    | cons e es =>
      obtain ⟨hhead, htail⟩ := List.cons.inj hdraw
      exact .cons (by rw [← roll_eq_of_drawing_eq hhead, hroll]) (ih htail)

/-- Dice terms one after the other show only one thing and leave the source in only one state. -/
theorem Threaded.unique {ds : List Dice} {rs rs' : List (List Int32)} {g₁ g₂ : γ}
    (h : Threaded limit ds g rs g₁) (h' : Threaded limit ds g rs' g₂) : rs = rs' ∧ g₁ = g₂ := by
  induction h generalizing rs' with
  | nil =>
    cases h'
    exact ⟨rfl, rfl⟩
  | cons hroll _ ih =>
    cases h' with
    | cons hroll' hrest' =>
      obtain ⟨rfl, rfl⟩ := Prod.mk.inj (Option.some.inj (hroll.symm.trans hroll'))
      obtain ⟨rfl, rfl⟩ := ih hrest'
      exact ⟨rfl, rfl⟩

end Dice

/-! ## Expressions -/

namespace Rolls

variable {a b : Rolls}

/-- If expressions can be evaluated, so can others whose dice terms are drawn alike. These show the same
at their dice terms, and the source is left in the same state. -/
theorem exists_results_of_drawing_eq {os : List Outcome}
    (h : a.diceTerms.map Dice.drawing = b.diceTerms.map Dice.drawing)
    (ha : a.results limit g = some (os, g')) :
    ∃ os' rs, b.results limit g = some (os', g') ∧ rs.length = a.diceTerms.length ∧
      os.flatMap Outcome.termRolls = a.diceTerms.zip rs ∧
      os'.flatMap Outcome.termRolls = b.diceTerms.zip rs := by
  obtain ⟨rs, hrs, -, hterms, -⟩ := threaded_of_results ha
  obtain ⟨os', hb⟩ := exists_results_of_threaded (hrs.of_drawing_eq h)
  obtain ⟨rs', hrs', -, hterms', -⟩ := threaded_of_results hb
  obtain ⟨rfl, -⟩ := (hrs.of_drawing_eq h).unique hrs'
  exact ⟨os', rs, hb, hrs.length_eq, hterms, hterms'⟩

/-- **Only the dice decide what is drawn.** Take two lists of expressions whose dice terms, read one after
the other, agree in how many dice they are, in their faces and in whether they explode. With the same
source, one list can be evaluated exactly if the other can. Then the dice terms of both show the same,
term by term, and the source is left in the same state.

**Proof sketch.** The dice terms of a list are rolled one after the other, and dice that are drawn alike
show the same. What is evaluated does not depend on the limit. -/
theorem drawn_eq_of_drawing_eq (h : a.diceTerms.map Dice.drawing = b.diceTerms.map Dice.drawing)
    (g : γ) :
    (∀ limit, (a.results limit g).isSome = (b.results limit g).isSome) ∧
    ∀ {limit limit' : Nat} {os os' : List Outcome} {g₁ g₂ : γ},
      a.results limit g = some (os, g₁) → b.results limit' g = some (os', g₂) →
        g₁ = g₂ ∧ ∃ rs, rs.length = a.diceTerms.length ∧
          os.flatMap Outcome.termRolls = a.diceTerms.zip rs ∧
          os'.flatMap Outcome.termRolls = b.diceTerms.zip rs := by
  constructor
  · intro limit
    rw [Bool.eq_iff_iff, Option.isSome_iff_exists, Option.isSome_iff_exists]
    constructor
    · rintro ⟨⟨os, g'⟩, ha⟩
      obtain ⟨os', -, hb, -⟩ := exists_results_of_drawing_eq h ha
      exact ⟨_, hb⟩
    · rintro ⟨⟨os', g'⟩, hb⟩
      obtain ⟨os, -, ha, -⟩ := exists_results_of_drawing_eq h.symm hb
      exact ⟨_, ha⟩
  · intro limit limit' os os' g₁ g₂ ha hb
    obtain ⟨os'', rs, hb', hterms⟩ := exists_results_of_drawing_eq h ha
    obtain ⟨rfl, rfl⟩ := Prod.mk.inj (results_unique hb' hb)
    exact ⟨rfl, rs, hterms⟩

/-- The dice terms of `sampleTerms`, apart from modifiers that do not matter, grouped into other
expressions and with other constants. -/
def sampleRegrouped : Rolls :=
  [.dice ⟨2, 6, .explode⟩, .operation .add (.dice ⟨1, 20, .keepHigh⟩)
    (.operation .sub (.constant 1) (.dice ⟨2, -2147483648, .none⟩))]

/-- Both lists are evaluated with these words, with different limits, and show the same. -/
theorem drawn_eq_of_drawing_eq_sample :
    sampleTerms.diceTerms.map Dice.drawing = sampleRegrouped.diceTerms.map Dice.drawing ∧
    ∃ os os' g rs, sampleTerms.results 10 sampleWords = some (os, g) ∧
      sampleRegrouped.results 20 sampleWords = some (os', g) ∧
      os.flatMap Outcome.termRolls = sampleTerms.diceTerms.zip rs ∧
      os'.flatMap Outcome.termRolls = sampleRegrouped.diceTerms.zip rs := by
  have hdrawing : sampleTerms.diceTerms.map Dice.drawing =
      sampleRegrouped.diceTerms.map Dice.drawing := by decide
  have hreturns : (sampleTerms.results 10 sampleWords).isSome = true := by decide +kernel
  have hreturns' : (sampleRegrouped.results 20 sampleWords).isSome = true := by decide +kernel
  obtain ⟨⟨os, g⟩, ha⟩ := Option.isSome_iff_exists.1 hreturns
  obtain ⟨⟨os', g'⟩, hb⟩ := Option.isSome_iff_exists.1 hreturns'
  obtain ⟨rfl, rs, -, hterms, hterms'⟩ := (drawn_eq_of_drawing_eq hdrawing sampleWords).2 ha hb
  exact ⟨hdrawing, os, os', g, rs, ha, hb, hterms, hterms'⟩

end Rolls

end DiceNotation
