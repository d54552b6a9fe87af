import DiceNotation.Dice
import Mathlib.Algebra.BigOperators.Group.List.Basic
import Mathlib.Algebra.Ring.Int.Defs
import Mathlib.Tactic.Common

set_option autoImplicit false

/-!
# What rolls amount to, as integers

The values of dice have 32 bits, and every step of combining them is taken modulo `2 ^ 32`. The
result is what the rolls amount to as integers, modulo `2 ^ 32` only at the end. There, the highest
or the lowest roll is dropped by taking one occurrence of it out of the list.

## Main definitions

* `Modifier.total` — what integers amount to.

## Main results

* `Dice.sum_eq_ofInt` — the sum of rolls is their sum as integers, modulo `2 ^ 32`.
* `Dice.sum_sub_of_mem` — taking a roll away from the sum is taking it out of the list.
* `Dice.combine_eq_ofInt_total` — what rolls amount to.
-/

namespace DiceNotation

/-! ## Integers -/

namespace Modifier

/-- What some integers amount to: their sum, the highest or the lowest of them, or the sum of those
that are left without one that is the highest or the lowest. No integers amount to `0`. -/
def total : Modifier → List Int → Int
  | none, rolls | explode, rolls => rolls.sum
  | keepHigh, rolls => rolls.max?.getD 0
  | keepLow, rolls => rolls.min?.getD 0
  | dropHigh, rolls => (rolls.erase (rolls.max?.getD 0)).sum
  | dropLow, rolls => (rolls.erase (rolls.min?.getD 0)).sum

/-- Integers in another order have the same maximum. -/
theorem max?_eq_of_perm {rolls others : List Int} (h : others.Perm rolls) :
    others.max? = rolls.max? :=
  Option.ext fun v => by simp only [List.max?_eq_some_iff, h.mem_iff]

/-- Integers in another order have the same minimum. -/
theorem min?_eq_of_perm {rolls others : List Int} (h : others.Perm rolls) :
    others.min? = rolls.min? :=
  Option.ext fun v => by simp only [List.min?_eq_some_iff, h.mem_iff]

/-- Integers in another order amount to the same. -/
theorem total_eq_of_perm (m : Modifier) {rolls others : List Int} (h : others.Perm rolls) :
    m.total others = m.total rolls := by
  cases m with
  | none | explode => exact h.sum_eq
  | keepHigh => rw [total, total, max?_eq_of_perm h]
  | keepLow => rw [total, total, min?_eq_of_perm h]
  | dropHigh => rw [total, total, max?_eq_of_perm h, (h.erase _).sum_eq]
  | dropLow => rw [total, total, min?_eq_of_perm h, (h.erase _).sum_eq]

end Modifier

namespace Dice

variable {rolls : List Int32} {v : Int32}

/-! ## Sums -/

/-- The sum of rolls is their sum as integers, modulo `2 ^ 32`. -/
theorem sum_eq_ofInt (rolls : List Int32) :
    sum rolls = Int32.ofInt (rolls.map Int32.toInt).sum := by
  have hfold : Int32.ofInt ((rolls.map Int32.toInt).foldl (· + ·) 0) =
      rolls.foldl (· + ·) (Int32.ofInt 0) := by
    rw [List.foldl_map]
    refine (List.foldl_hom Int32.ofInt fun s v => ?_).symm
    rw [Int32.ofInt_add, Int32.ofInt_toInt]
  rw [List.sum_eq_foldl, hfold]
  rfl

/-- Taking a roll away from the sum is taking it out of the list. -/
theorem sum_sub_of_mem (h : v ∈ rolls) :
    sum rolls - v = Int32.ofInt ((rolls.map Int32.toInt).erase v.toInt).sum := by
  have hsum := List.sum_erase (List.mem_map_of_mem (f := Int32.toInt) h)
  rw [sum_eq_ofInt, ← hsum, Int32.ofInt_add, Int32.ofInt_toInt]
  grind

/-! ## Highest and lowest rolls -/

/-- The higher one of two values. -/
theorem toInt_max (v w : Int32) : (max v w).toInt = max v.toInt w.toInt := by
  show (if v ≤ w then w else v).toInt = _
  by_cases h : v ≤ w
  · rw [if_pos h, Int.max_eq_right (Int32.le_iff_toInt_le.1 h)]
  · have hlt := mt Int32.le_iff_toInt_le.2 h
    rw [if_neg h, Int.max_eq_left (by omega)]

/-- The lower one of two values. -/
theorem toInt_min (v w : Int32) : (min v w).toInt = min v.toInt w.toInt := by
  show (if v ≤ w then v else w).toInt = _
  by_cases h : v ≤ w
  · rw [if_pos h, Int.min_eq_left (Int32.le_iff_toInt_le.1 h)]
  · have hlt := mt Int32.le_iff_toInt_le.2 h
    rw [if_neg h, Int.min_eq_right (by omega)]

/-- The highest roll is the highest one as an integer. -/
theorem toInt_highest (rolls : List Int32) :
    (highest rolls).toInt = (rolls.map Int32.toInt).max?.getD 0 := by
  cases rolls with
  | nil => rfl
  | cons v vs =>
    rw [highest, List.map_cons, List.max?_cons', List.max?_cons', List.foldl_map]
    exact (List.foldl_hom Int32.toInt fun s v => (toInt_max s v).symm).symm

/-- The lowest roll is the lowest one as an integer. -/
theorem toInt_lowest (rolls : List Int32) :
    (lowest rolls).toInt = (rolls.map Int32.toInt).min?.getD 0 := by
  cases rolls with
  | nil => rfl
  | cons v vs =>
    rw [lowest, List.map_cons, List.min?_cons', List.min?_cons', List.foldl_map]
    exact (List.foldl_hom Int32.toInt fun s v => (toInt_min s v).symm).symm

/-- A value that is one of the rolls as an integer is one of the rolls. -/
theorem mem_of_toInt_mem (h : v.toInt ∈ rolls.map Int32.toInt) : v ∈ rolls := by
  obtain ⟨w, hw, heq⟩ := List.mem_map.1 h
  rwa [← Int32.toInt_inj.1 heq]

/-- If there are rolls, the highest roll is one of them. -/
theorem highest_mem (h : rolls ≠ []) : highest rolls ∈ rolls := by
  refine mem_of_toInt_mem ?_
  rw [toInt_highest]
  cases hm : (rolls.map Int32.toInt).max? with
  | none => exact absurd (List.map_eq_nil_iff.1 (List.max?_eq_none_iff.1 hm)) h
  | some m => exact List.max?_mem hm

/-- If there are rolls, the lowest roll is one of them. -/
theorem lowest_mem (h : rolls ≠ []) : lowest rolls ∈ rolls := by
  refine mem_of_toInt_mem ?_
  rw [toInt_lowest]
  cases hm : (rolls.map Int32.toInt).min? with
  | none => exact absurd (List.map_eq_nil_iff.1 (List.min?_eq_none_iff.1 hm)) h
  | some m => exact List.min?_mem hm

/-! ## Combined rolls -/

/-- What rolls are combined to is what they amount to as integers, modulo `2 ^ 32`.

**Proof sketch.** Sums can be reduced at the end. Whether values or integers are compared makes no
difference, and the highest and the lowest roll are among the rolls, so taking them away from the
sum is taking them out of the list. -/
theorem combine_eq_ofInt (d : Dice) (rolls : List Int32) :
    d.combine rolls = Int32.ofInt (d.modifier.total (rolls.map Int32.toInt)) := by
  by_cases hne : rolls = []
  · subst hne
    cases hmodifier : d.modifier <;> simp only [combine, hmodifier] <;> rfl
  · cases hmodifier : d.modifier <;> simp only [combine, hmodifier]
    case none | explode => exact sum_eq_ofInt rolls
    case keepHigh => rw [Modifier.total, ← toInt_highest, Int32.ofInt_toInt]
    case keepLow => rw [Modifier.total, ← toInt_lowest, Int32.ofInt_toInt]
    case dropHigh => rw [Modifier.total, ← toInt_highest, sum_sub_of_mem (highest_mem hne)]
    case dropLow => rw [Modifier.total, ← toInt_lowest, sum_sub_of_mem (lowest_mem hne)]

/-- **What rolls amount to.** Rolls are combined to what they amount to as integers, modulo `2 ^
32`. So the order of the rolls plays no part, no rolls are combined to `0`, and keeping the highest
or the lowest roll adds up with dropping it to the sum of all rolls. -/
theorem combine_eq_ofInt_total (d : Dice) (rolls : List Int32) :
    d.combine rolls = Int32.ofInt (d.modifier.total (rolls.map Int32.toInt)) ∧
    (∀ others : List Int32, others.Perm rolls → d.combine others = d.combine rolls) ∧
    d.combine [] = 0 ∧
    ({ d with modifier := .keepHigh } : Dice).combine rolls +
      ({ d with modifier := .dropHigh } : Dice).combine rolls =
        ({ d with modifier := .none } : Dice).combine rolls ∧
    ({ d with modifier := .keepLow } : Dice).combine rolls +
      ({ d with modifier := .dropLow } : Dice).combine rolls =
        ({ d with modifier := .none } : Dice).combine rolls := by
  refine ⟨combine_eq_ofInt d rolls, fun others hperm => ?_, ?_, ?_, ?_⟩
  · rw [combine_eq_ofInt, combine_eq_ofInt, Modifier.total_eq_of_perm _ (hperm.map Int32.toInt)]
  · rw [combine_eq_ofInt]
    cases d.modifier <;> rfl
  · simp only [combine]
    grind
  · simp only [combine]
    grind

/-- Three rolls, of which the highest value comes twice and whose sum does not have 32 bits. -/
theorem combine_eq_ofInt_total_sample :
    (⟨3, 2147483647, .dropHigh⟩ : Dice).combine [2147483647, 5, 2147483647] =
        Int32.ofInt (2147483647 + 5) ∧
      (⟨3, 2147483647, .dropHigh⟩ : Dice).combine [5, 2147483647, 2147483647] =
        (⟨3, 2147483647, .dropHigh⟩ : Dice).combine [2147483647, 5, 2147483647] := by
  obtain ⟨htotal, hperm, -⟩ :=
    combine_eq_ofInt_total ⟨3, 2147483647, .dropHigh⟩ [2147483647, 5, 2147483647]
  exact ⟨htotal.trans (by decide), hperm _ (.swap _ _ _)⟩

end Dice

end DiceNotation
