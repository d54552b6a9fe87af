import DiceNotation.Evaluation
import DiceNotation.Proofs.Rolling.Runs

set_option autoImplicit false

/-!
# Limits of rolling

Rolling gives up where a limit is reached: when one die has passed over too many words, or when
exploding dice have gone on too long. A higher limit changes no other outcome, so what some dice or
expressions come to does not depend on the limit.

## Main definitions

* `Rolling.Refines` — a computation has every outcome that another one has.

## Main results

* `Draw.die_refines`, `Dice.roll_refines` — a higher limit changes no outcome of rolling dice.
* `Rolls.results_refines` — a higher limit changes no outcome of evaluating expressions.
* `Rolls.results_unique` — with any two limits that are not reached, expressions come to the same.
-/

namespace DiceNotation

/-! ## Outcomes of higher limits -/

namespace Rolling

variable {γ α β : Type}

/-- Wherever `x` does not give up, `y` yields the same and leaves the source in the same state. -/
def Refines (x y : Rolling γ α) : Prop :=
  ∀ g r, x g = some r → y g = some r

/-- Every computation has its own outcomes. -/
theorem Refines.refl (x : Rolling γ α) : Refines x x :=
  fun _ _ h => h

/-- Computations with the same outcomes have the same outcomes one after the other. -/
theorem Refines.bind {x y : Rolling γ α} {f f' : α → Rolling γ β} (hxy : Refines x y)
    (hf : ∀ a, Refines (f a) (f' a)) : Refines (x >>= f) (y >>= f') := by
  rintro g ⟨b, g'⟩ h
  obtain ⟨a, g₁, hx, ha⟩ := bind_eq_some.1 h
  exact bind_eq_some.2 ⟨a, g₁, hxy g _ hx, hf a g₁ _ ha⟩

end Rolling

open Rolling (Refines)

/-! ## Whichever way dice are rolled -/

/-- An expression has the same outcomes if all dice have. -/
theorem Expression.evaluate_refines {γ : Type} {roll roll' : Dice → Rolling γ Outcome}
    (h : ∀ d, Refines (roll d) (roll' d)) (e : Expression) :
    Refines (e.evaluate roll) (e.evaluate roll') := by
  induction e with
  | constant value | die faces value => exact .refl _
  | dice d => exact h d
  | operation op lhs rhs ihl ihr => exact ihl.bind fun _ => ihr.bind fun _ => .refl _

/-- Expressions have the same outcomes if all dice have. -/
theorem Rolls.evaluate_refines {γ : Type} {roll roll' : Dice → Rolling γ Outcome}
    (h : ∀ d, Refines (roll d) (roll' d)) (rolls : Rolls) :
    Refines (rolls.evaluate roll) (rolls.evaluate roll') := by
  induction rolls with
  | nil => exact .refl _
  | cons e es ih => exact (e.evaluate_refines h).bind fun _ => ih.bind fun _ => .refl _

variable {γ : Type} [WordSource γ] {limit limit' : Nat}

/-! ## Dice -/

namespace Draw

/-- A higher limit changes no face of a large die. -/
theorem wideFace_refines (h : limit ≤ limit') (sides : Nat) :
    Refines (wideFace sides limit : Rolling γ Nat) (wideFace sides limit') := by
  rintro g ⟨n, g'⟩ hn
  obtain ⟨i, hi, htaken⟩ := wideFace_eq_some.1 hn
  exact wideFace_eq_some.2 ⟨i, Nat.lt_of_lt_of_le hi h, htaken⟩

/-- A higher limit changes no value of a die. -/
theorem die_refines (h : limit ≤ limit') (faces : Int32) :
    Refines (die limit faces : Rolling γ Int32) (die limit' faces) := by
  unfold die
  split
  · exact .refl _
  · dsimp only
    split
    · exact .refl _
    · exact (wideFace_refines h _).bind fun _ => .refl _

/-- A higher limit changes no values of several dice. -/
theorem dice_refines (h : limit ≤ limit') (faces : Int32) (n : Nat) :
    Refines (dice limit faces n : Rolling γ (List Int32)) (dice limit' faces n) := by
  induction n with
  | zero => exact .refl _
  | succ n ih => exact (die_refines h faces).bind fun _ => ih.bind fun _ => .refl _

/-- Higher limits change no values of further dice. -/
theorem explosions_refines {n n' : Nat} (h : limit ≤ limit') (hn : n ≤ n') (faces top last : Int32) :
    Refines (explosions limit faces top n last : Rolling γ (List Int32))
      (explosions limit' faces top n' last) := by
  induction n generalizing n' last with
  | zero =>
    intro g r hr
    simp [explosions] at hr
  | succ n ih =>
    obtain ⟨k, rfl⟩ : ∃ k, n' = k + 1 := ⟨n' - 1, by omega⟩
    unfold explosions
    split
    · exact (die_refines h faces).bind fun value => (ih (by omega) value).bind fun _ => .refl _
    · exact .refl _

end Draw

namespace Dice

/-- A higher limit changes no values that some dice show. -/
theorem roll_refines (h : limit ≤ limit') (d : Dice) :
    Refines (d.roll limit : Rolling γ (List Int32)) (d.roll limit') := by
  refine (Draw.dice_refines h d.faces d.number.toNat).bind fun rolls => ?_
  split
  · split
    · exact (Draw.explosions_refines h h d.faces d.upper _).bind fun _ => .refl _
    · exact .refl _
  · exact .refl _

/-- A higher limit changes no outcome of some dice. -/
theorem evaluate_refines (h : limit ≤ limit') (d : Dice) :
    Refines (d.evaluate limit : Rolling γ Outcome) (d.evaluate limit') :=
  (roll_refines h d).bind fun _ => .refl _

end Dice

/-! ## Expressions -/

namespace Rolls

/-- A higher limit changes no outcomes of expressions. -/
theorem results_refines (h : limit ≤ limit') (rolls : Rolls) :
    Refines (rolls.results limit : Rolling γ (List Outcome)) (rolls.results limit') :=
  evaluate_refines (Dice.evaluate_refines h) rolls

/-- With any two limits that are not reached, expressions come to the same. -/
theorem results_unique {rolls : Rolls} {g : γ} {r r' : List Outcome × γ}
    (h : rolls.results limit g = some r) (h' : rolls.results limit' g = some r') : r = r' := by
  have hmax := results_refines (Nat.le_max_left limit limit') rolls g r h
  have hmax' := results_refines (Nat.le_max_right limit limit') rolls g r' h'
  exact Option.some.inj (hmax.symm.trans hmax')

end Rolls

end DiceNotation
