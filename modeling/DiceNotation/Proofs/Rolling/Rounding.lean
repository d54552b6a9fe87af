import DiceNotation.Draw
import Mathlib.Algebra.Group.Nat.Defs
import Mathlib.Tactic.Common

set_option autoImplicit false

/-!
# The faces of scaled fractions

The product of a fraction and a number of sides is rounded to 24 significant bits. Numbers with that
many bits have gaps, which grow with the numbers, so rounding moves a product across a whole number if
the product is closer to it than half a gap. Below `2 ^ 47` this never costs a face. From there on the
gap is `2 ^ 24`, the distance between whole numbers of sides, and the product for the largest fraction
is rounded down by as much as one side.

## Main definitions

* `Draw.gap` — the distance between neighbouring numbers with 24 significant bits.

## Main results

* `Draw.roundSignificant_error` — rounding moves a number by half a gap at most.
* `Draw.exists_scaledFace_eq` — every face below the highest one belongs to a fraction, and so does the
  highest one of a die with up to `2 ^ 23` sides.
* `Draw.scaledFace_lt` — the highest face of a die with more sides belongs to no fraction.

## Implementation notes

As in the definition of the face, a product is kept with the denominator `2 ^ 24` of the fraction
multiplied out. So a whole number of sides is a multiple of `2 ^ 24`.
-/

namespace DiceNotation

namespace Draw

variable {n m sides k v : Nat}

/-! ## Rounding -/

/-- The distance between the neighbours of `n` with at most 24 significant bits. -/
def gap (n : Nat) : Nat :=
  2 ^ (Nat.log2 n + 1 - 24)

/-- There is a gap. -/
theorem gap_pos (n : Nat) : 0 < gap n :=
  Nat.two_pow_pos _

/-- A rounded quotient is off by half at most. -/
theorem roundShift_error (n shift : Nat) :
    2 * (roundShift n shift * 2 ^ shift) ≤ 2 * n + 2 ^ shift ∧
      2 * n ≤ 2 * (roundShift n shift * 2 ^ shift) + 2 ^ shift := by
  have hdiv := Nat.div_add_mod n (2 ^ shift)
  have hmod := Nat.mod_lt n (Nat.two_pow_pos shift)
  rw [Nat.mul_comm] at hdiv
  unfold roundShift
  simp only [Nat.one_shiftLeft]
  split_ifs with h
  · rw [Nat.add_mul, Nat.one_mul]
    omega
  · omega

/-- A rounded number is a multiple of the gap. -/
theorem gap_dvd_roundSignificant (n : Nat) : gap n ∣ roundSignificant n := by
  rw [roundSignificant, Nat.shiftLeft_eq]
  exact Nat.dvd_mul_left _ _

/-- Rounding moves a number by half a gap at most. -/
theorem roundSignificant_error (n : Nat) :
    2 * roundSignificant n ≤ 2 * n + gap n ∧ 2 * n ≤ 2 * roundSignificant n + gap n := by
  rw [roundSignificant, Nat.shiftLeft_eq]
  exact roundShift_error n _

/-- A number that lies less than half a gap above a multiple of the gap is not rounded to more than
that. -/
theorem roundSignificant_le (hm : gap n ∣ m) (h : 2 * n < 2 * m + gap n) :
    roundSignificant n ≤ m := by
  have herror := roundSignificant_error n
  refine Nat.le_of_lt_add_of_dvd ?_ (gap_dvd_roundSignificant n) hm
  omega

/-- A number that lies less than half a gap below a multiple of the gap is not rounded to less than
that. -/
theorem le_roundSignificant (hm : gap n ∣ m) (h : 2 * m < 2 * n + gap n) :
    m ≤ roundSignificant n := by
  have herror := roundSignificant_error n
  refine Nat.le_of_lt_add_of_dvd ?_ hm (gap_dvd_roundSignificant n)
  omega

/-- Rounding does not pass a multiple of the gap that lies above. -/
theorem roundSignificant_le_of_le (hm : gap n ∣ m) (h : n ≤ m) : roundSignificant n ≤ m :=
  roundSignificant_le hm (by have := gap_pos n; omega)

/-- Rounding does not pass a multiple of the gap that lies below. -/
theorem le_roundSignificant_of_le (hm : gap n ∣ m) (h : m ≤ n) : m ≤ roundSignificant n :=
  le_roundSignificant hm (by have := gap_pos n; omega)

/-! ## Gaps -/

/-- Gaps grow with the numbers. -/
theorem gap_le_gap (h : n ≤ m) : gap n ≤ gap m := by
  by_cases hn : n = 0
  · subst hn
    exact Nat.two_pow_pos _
  · have hlog : Nat.log2 n ≤ Nat.log2 m :=
      (Nat.le_log2 (by omega)).2 (Nat.le_trans (Nat.log2_self_le hn) h)
    exact Nat.pow_le_pow_right (by decide) (by omega)

/-- The gap of a number with `24 + j` bits divides `2 ^ j`. -/
theorem gap_dvd {j : Nat} (h : n < 2 ^ (24 + j)) : gap n ∣ 2 ^ j := by
  refine Nat.pow_dvd_pow 2 ?_
  by_cases hn : n = 0
  · subst hn
    simp
  · have hlog := (Nat.log2_lt hn).2 h
    omega

/-- The gap of a number with more than `24 + j` bits is at least `2 ^ (j + 1)`. -/
theorem le_gap {j : Nat} (h : 2 ^ (24 + j) ≤ n) : 2 ^ (j + 1) ≤ gap n := by
  refine Nat.pow_le_pow_right (by decide) ?_
  have hne : n ≠ 0 := by
    have := Nat.two_pow_pos (24 + j)
    omega
  have hlog := (Nat.le_log2 hne).2 h
  omega

/-! ## Faces -/

/-- Whole numbers of sides are multiples of the gap, as far as products of fractions and up to
`2 ^ 24` sides go. -/
theorem gap_dvd_mul (h : n < 2 ^ 48) : gap n ∣ v * 2 ^ 24 :=
  Nat.dvd_trans (gap_dvd h) (Nat.dvd_mul_left _ _)

/-- A product that is rounded to more than `v - 1` sides and to no more than `v` belongs to face
`v`. -/
theorem scaledFace_eq (hv : 1 ≤ v) (hle : v ≤ sides)
    (hlow : (v - 1) * 2 ^ 24 < roundSignificant (k * sides))
    (hhigh : roundSignificant (k * sides) ≤ v * 2 ^ 24) : scaledFace sides k = v := by
  simp only [scaledFace, maxScaledSides]
  omega

/-- Every face below the highest one belongs to a fraction.

**Proof sketch.** Consider the largest product that does not exceed `v` sides. It is more than `v - 1`
sides, so it belongs to `v` unless it is rounded down to `v - 1`. In that case it lies no more than
half a gap above `v - 1` sides. So the next product lies less than half a gap above `v` sides, as there
are fewer than `2 ^ 24` sides, and it is rounded down to `v`. -/
theorem exists_scaledFace_eq_of_lt (hsides : sides ≤ 2 ^ 24) (hv : 1 ≤ v) (hlt : v < sides) :
    ∃ k < 2 ^ 24, scaledFace sides k = v := by
  have hdiv := Nat.div_add_mod (v * 2 ^ 24) sides
  have hmod := Nat.mod_lt (v * 2 ^ 24) (Nat.zero_lt_of_lt hlt)
  set k := v * 2 ^ 24 / sides
  rw [Nat.mul_comm sides k] at hdiv
  have hwhole : gap (k * sides) ∣ v * 2 ^ 24 := gap_dvd_mul (by omega)
  by_cases hrounded : (v - 1) * 2 ^ 24 < roundSignificant (k * sides)
  · have hk : k < 2 ^ 24 := by
      by_contra hge
      have hmul := Nat.mul_le_mul_right sides (Nat.not_lt.1 hge)
      omega
    have hhigh : roundSignificant (k * sides) ≤ v * 2 ^ 24 :=
      roundSignificant_le_of_le hwhole (by omega)
    exact ⟨k, hk, scaledFace_eq hv (Nat.le_of_lt hlt) hrounded hhigh⟩
  · -- with `2 ^ 24` sides, the product would be `v` sides
    have hfewer : sides < 2 ^ 24 := by
      by_contra hge
      obtain rfl : sides = 2 ^ 24 := by omega
      have hexact : v * 2 ^ 24 ≤ roundSignificant (k * 2 ^ 24) :=
        le_roundSignificant_of_le hwhole (by omega)
      omega
    have herror := (roundSignificant_error (k * sides)).2
    have hnext : (k + 1) * sides = k * sides + sides := Nat.succ_mul k sides
    have hgap : gap (k * sides) ≤ gap ((k + 1) * sides) := gap_le_gap (by omega)
    have hwhole' : gap ((k + 1) * sides) ∣ v * 2 ^ 24 := gap_dvd_mul (by omega)
    have hlow : v * 2 ^ 24 ≤ roundSignificant ((k + 1) * sides) :=
      le_roundSignificant hwhole' (by omega)
    have hhigh : roundSignificant ((k + 1) * sides) ≤ v * 2 ^ 24 :=
      roundSignificant_le hwhole' (by omega)
    have hk : k + 1 < 2 ^ 24 := by
      by_contra hge
      have hmul := Nat.mul_le_mul_right sides (Nat.not_lt.1 hge)
      omega
    exact ⟨k + 1, hk, scaledFace_eq hv (Nat.le_of_lt hlt) (by omega) hhigh⟩

/-- The highest face of a die with up to `2 ^ 23` sides belongs to the largest fraction. -/
theorem scaledFace_eq_sides (hpos : 0 < sides) (hsides : sides ≤ 2 ^ 23) :
    scaledFace sides (2 ^ 24 - 1) = sides := by
  have hgap : gap ((2 ^ 24 - 1) * sides) ≤ 2 ^ 23 :=
    Nat.le_of_dvd (by decide) (gap_dvd (by omega))
  have herror := (roundSignificant_error ((2 ^ 24 - 1) * sides)).2
  have hhigh : roundSignificant ((2 ^ 24 - 1) * sides) ≤ sides * 2 ^ 24 :=
    roundSignificant_le (gap_dvd_mul (by omega)) (by omega)
  exact scaledFace_eq hpos (Nat.le_refl _) (by omega) hhigh

/-- The highest face of a die with more than `2 ^ 23` sides belongs to no fraction.

**Proof sketch.** A product above `sides - 1` sides is at least `2 ^ 47`, so its gap is `2 ^ 24`. The
largest fraction leaves more than half of that to `sides` sides. -/
theorem scaledFace_lt (hmin : 2 ^ 23 < sides) (hmax : sides ≤ 2 ^ 24) (hk : k < 2 ^ 24) :
    scaledFace sides k < sides := by
  have hlargest : k * sides ≤ (2 ^ 24 - 1) * sides := Nat.mul_le_mul_right sides (by omega)
  have hrounded : roundSignificant (k * sides) ≤ (sides - 1) * 2 ^ 24 := by
    have hwhole : gap (k * sides) ∣ (sides - 1) * 2 ^ 24 := gap_dvd_mul (by omega)
    by_cases hle : k * sides ≤ (sides - 1) * 2 ^ 24
    · exact roundSignificant_le_of_le hwhole hle
    · have hgap : 2 ^ 24 ≤ gap (k * sides) := le_gap (by omega)
      exact roundSignificant_le hwhole (by omega)
  simp only [scaledFace, maxScaledSides]
  omega

end Draw

end DiceNotation
