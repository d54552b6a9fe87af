import DiceNotation.Proofs.Rolling.Rounding
import Mathlib.Algebra.Order.Group.Int
import Mathlib.Algebra.Order.Group.Abs
import Mathlib.Data.Nat.Count

set_option autoImplicit false

/-!
# The shares of faces

A die of `sides` sides is fair if each of its faces belongs to as many of the `2 ^ 24` fractions as the
others. No die with another number of sides than a power of two can do that, and rounding moves the
bounds between faces. But it moves a bound by less than the number of sides, and it keeps the order of
the fractions, so the share of a face differs by less than two fractions from `2 ^ 24 / sides`.

## Main definitions

* `Draw.share` — how many fractions belong to a face.
* `Draw.cumulativeShare` — how many fractions belong to a face and to those below it.

## Main results

* `Draw.roundSignificant_mono` — rounding keeps the order of numbers.
* `Draw.scaledFace_mono` — a larger fraction has no lower face.
* `Draw.cumulativeShare_bounds` — where the bound between two faces is.
* `Draw.share_fair` — the share of a face differs by less than two fractions from the fair one.
-/

namespace DiceNotation

namespace Draw

variable {n m sides k v : Nat}

/-! ## Rounding keeps the order -/

/-- Between numbers with different gaps is a power of two, which is a multiple of both gaps. -/
theorem exists_between_of_gap_lt (h : gap n < gap m) :
    ∃ p, n ≤ p ∧ p ≤ m ∧ gap n ∣ p ∧ gap m ∣ p := by
  have hlog : Nat.log2 n + 1 - 24 < Nat.log2 m + 1 - 24 := (Nat.pow_lt_pow_iff_right (by decide)).1 h
  have hm : m ≠ 0 := by
    rintro rfl
    simp at hlog
  have hn : n ≤ 2 ^ Nat.log2 m :=
    calc n ≤ 2 ^ (Nat.log2 n + 1) := Nat.le_of_lt Nat.lt_log2_self
      _ ≤ 2 ^ Nat.log2 m := Nat.pow_le_pow_right (by decide) (by omega)
  exact ⟨2 ^ Nat.log2 m, hn, Nat.log2_self_le hm, Nat.pow_dvd_pow 2 (by omega),
    Nat.pow_dvd_pow 2 (by omega)⟩

/-- Rounding keeps the order of numbers.

**Proof sketch.** With a power of two between the numbers, they are rounded to different sides of it.
Otherwise they have the same gap. If the larger number were rounded to less than the smaller one, then by
a gap, and the halfway point would lie above the larger number and below the smaller one. -/
theorem roundSignificant_mono : Monotone roundSignificant := by
  intro n m h
  rcases Nat.lt_or_eq_of_le (gap_le_gap h) with hgap | hgap
  · obtain ⟨p, hn, hm, hdvd, hdvd'⟩ := exists_between_of_gap_lt hgap
    exact Nat.le_trans (roundSignificant_le_of_le hdvd hn) (le_roundSignificant_of_le hdvd' hm)
  · rcases Nat.eq_or_lt_of_le h with rfl | hlt
    · exact Nat.le_refl _
    · refine roundSignificant_le (hgap ▸ gap_dvd_roundSignificant m) ?_
      have herror := (roundSignificant_error m).2
      omega

/-- A larger fraction has no lower face. -/
theorem scaledFace_mono (sides : Nat) : Monotone (scaledFace sides) := by
  intro j k h
  have hround := roundSignificant_mono (Nat.mul_le_mul_right sides h)
  have hceil : (roundSignificant (j * sides) + (maxScaledSides - 1)) / maxScaledSides ≤
      (roundSignificant (k * sides) + (maxScaledSides - 1)) / maxScaledSides :=
    Nat.div_le_div_right (Nat.add_le_add_right hround _)
  exact max_le_max le_rfl (min_le_min le_rfl hceil)

/-! ## The bounds between faces -/

/-- A gap is small in comparison with its number. -/
theorem gap_mul_le (h : 2 ^ 23 ≤ n) : gap n * 2 ^ 23 ≤ n := by
  have hne : n ≠ 0 := by omega
  have hlog : 23 ≤ Nat.log2 n := (Nat.le_log2 hne).2 h
  calc gap n * 2 ^ 23 = 2 ^ Nat.log2 n := by
        rw [gap, ← Nat.pow_add]
        congr 1
        omega
    _ ≤ n := Nat.log2_self_le hne

/-- A number that lies more than `v` above `v` sides is not rounded down to them.

**Proof sketch.** Half a gap would be more than `v`. But half a gap is at most the `2 ^ 24`-th part of the
number, which lets that happen only from `2 ^ 48` on. -/
theorem lt_roundSignificant (hv : 1 ≤ v) (hn : n < 2 ^ 48) (h : v * 2 ^ 24 + v < n) :
    v * 2 ^ 24 < roundSignificant n := by
  have herror := (roundSignificant_error n).2
  have hgap := gap_mul_le (n := n) (by omega)
  by_contra hnot
  have hwide : 2 * v + 2 ≤ gap n := by omega
  have hmany : 2 ^ 24 ≤ v + 1 := by omega
  omega

/-- The products of fractions and numbers of sides are below `2 ^ 48`. -/
theorem mul_lt (hk : k < 2 ^ 24) (hsides : sides ≤ 2 ^ 24) : k * sides < 2 ^ 48 :=
  calc k * sides ≤ k * 2 ^ 24 := Nat.mul_le_mul_left k hsides
    _ < 2 ^ 48 := by omega

/-- Which fractions belong to a face or to one below it. -/
theorem scaledFace_le_iff (hv : 1 ≤ v) (hlt : v < sides) :
    scaledFace sides k ≤ v ↔ roundSignificant (k * sides) ≤ v * 2 ^ 24 := by
  have hceil : (roundSignificant (k * sides) + (maxScaledSides - 1)) / maxScaledSides ≤ v ↔
      roundSignificant (k * sides) ≤ v * 2 ^ 24 := by
    rw [Nat.div_le_iff_le_mul (by decide), Nat.add_sub_assoc (by decide)]
    exact Nat.add_le_add_iff_right
  rw [scaledFace, max_le_iff, min_le_iff, hceil]
  omega

/-- A product that does not exceed `v` sides belongs to face `v` or to one below it. -/
theorem scaledFace_le_of_mul_le (hk : k < 2 ^ 24) (hsides : sides ≤ 2 ^ 24) (hv : 1 ≤ v)
    (hlt : v < sides) (h : k * sides ≤ v * 2 ^ 24) : scaledFace sides k ≤ v :=
  (scaledFace_le_iff hv hlt).2 (roundSignificant_le_of_le (gap_dvd_mul (mul_lt hk hsides)) h)

/-- A product that belongs to face `v` or to one below it exceeds `v` sides by no more than `v`. -/
theorem mul_le_of_scaledFace_le (hk : k < 2 ^ 24) (hsides : sides ≤ 2 ^ 24) (hv : 1 ≤ v)
    (hlt : v < sides) (h : scaledFace sides k ≤ v) : k * sides ≤ v * 2 ^ 24 + v := by
  have hround := (scaledFace_le_iff hv hlt).1 h
  by_contra hnot
  have hup := lt_roundSignificant hv (mul_lt hk hsides) (Nat.not_le.1 hnot)
  omega

/-! ## Shares -/

/-- How many of the fractions belong to face `v`. -/
def share (sides v : Nat) : Nat :=
  Nat.count (fun k => scaledFace sides k = v) (2 ^ 24)

/-- How many of the fractions belong to face `v` and to those below it. -/
def cumulativeShare (sides v : Nat) : Nat :=
  Nat.count (fun k => scaledFace sides k ≤ v) (2 ^ 24)

/-- The share of a face is what it adds to those below it. -/
theorem cumulativeShare_succ (sides v : Nat) :
    cumulativeShare sides (v + 1) = cumulativeShare sides v + share sides (v + 1) := by
  unfold cumulativeShare share
  induction 2 ^ 24 with
  | zero => simp
  | succ n ih =>
    simp only [Nat.count_succ, ih]
    split_ifs <;> omega

/-- As the faces are in order, the fractions for a face and those below it are the smallest ones. -/
theorem scaledFace_le_iff_lt_cumulativeShare (hk : k < 2 ^ 24) :
    scaledFace sides k ≤ v ↔ k < cumulativeShare sides v := by
  have hmono := scaledFace_mono sides
  constructor
  · intro h
    have hbelow : Nat.count (fun k => scaledFace sides k ≤ v) (k + 1) = k + 1 :=
      Nat.count_iff_forall.2 fun j hj => Nat.le_trans (hmono (by omega)) h
    have hcount : Nat.count (fun k => scaledFace sides k ≤ v) (k + 1) ≤ cumulativeShare sides v :=
      Nat.count_monotone _ hk
    omega
  · intro h
    have hcount : Nat.count (fun k => scaledFace sides k ≤ v) k < cumulativeShare sides v :=
      Nat.lt_of_le_of_lt (Nat.count_le _) h
    obtain ⟨j, hj, hface⟩ := Nat.exists_of_count_lt_count hcount
    exact Nat.le_trans (hmono hj.1) hface

/-- All fractions belong to the faces up to the highest one. -/
theorem cumulativeShare_sides (hpos : 1 ≤ sides) : cumulativeShare sides sides = 2 ^ 24 :=
  Nat.count_of_forall fun _ _ => max_le hpos (min_le_left _ _)

/-- No fraction belongs to a face below the first one. -/
theorem cumulativeShare_zero (sides : Nat) : cumulativeShare sides 0 = 0 :=
  Nat.count_of_forall_not fun _ _ => Nat.not_le.2 (Nat.le_max_left _ _)

/-- The bound above a face is at the whole number of sides, or less than two fractions above it.

**Proof sketch.** Below the highest face, the first fraction that does not belong to `v` has a product above
`v` sides. The last one that does has a product that exceeds `v` sides by no more than `v`, and with the next
fraction the product grows by the number of sides. -/
theorem cumulativeShare_bounds (hpos : 1 ≤ sides) (hsides : sides ≤ 2 ^ 24) (hle : v ≤ sides) :
    v * 2 ^ 24 ≤ cumulativeShare sides v * sides ∧
      cumulativeShare sides v * sides < v * 2 ^ 24 + 2 * sides := by
  rcases Nat.eq_zero_or_pos v with rfl | hv
  · rw [cumulativeShare_zero]
    omega
  rcases Nat.eq_or_lt_of_le hle with rfl | hlt
  · rw [cumulativeShare_sides hpos]
    omega
  have hcount : cumulativeShare sides v ≤ 2 ^ 24 := Nat.count_le _
  constructor
  · by_contra hnot
    have hk : cumulativeShare sides v < 2 ^ 24 := by
      refine Nat.lt_of_le_of_ne hcount fun heq => hnot ?_
      rw [heq]
      omega
    have hface := scaledFace_le_of_mul_le hk hsides hv hlt (by omega)
    exact Nat.lt_irrefl _ ((scaledFace_le_iff_lt_cumulativeShare hk).1 hface)
  · cases hshare : cumulativeShare sides v with
    | zero => omega
    | succ k =>
      have hk : k < 2 ^ 24 := by omega
      have hface : scaledFace sides k ≤ v :=
        (scaledFace_le_iff_lt_cumulativeShare hk).2 (by omega)
      have hproduct := mul_le_of_scaledFace_le hk hsides hv hlt hface
      rw [Nat.succ_mul]
      omega

/-- **Fairness.** The share of a face of a die with up to `2 ^ 24` sides differs by less than two fractions
from `2 ^ 24 / sides`, the share that every face would have if the fractions could be divided into equal
parts. And the fractions of a face follow each other, as a larger fraction has no lower face.

**Proof sketch.** The share of a face lies between two bounds, the one above it and the one above the face
before. Both bounds may be too high, but neither by two fractions, and neither is too low. -/
theorem share_fair (hsides : sides ≤ 2 ^ 24) (hv : 1 ≤ v) (hle : v ≤ sides) :
    |((sides * share sides v : Nat) : Int) - 2 ^ 24| < ((2 * sides : Nat) : Int) ∧
      Monotone (scaledFace sides) := by
  refine ⟨?_, scaledFace_mono sides⟩
  obtain ⟨w, rfl⟩ : ∃ w, v = w + 1 := ⟨v - 1, by omega⟩
  have habove := cumulativeShare_bounds (by omega) hsides hle
  have hbelow := cumulativeShare_bounds (v := w) (by omega) hsides (by omega)
  have hshare : cumulativeShare sides (w + 1) * sides =
      cumulativeShare sides w * sides + sides * share sides (w + 1) := by
    rw [cumulativeShare_succ, Nat.add_mul, Nat.mul_comm sides]
  rw [abs_lt]
  omega

/-- Face 3 of a die with 6 sides, and the highest face of the largest die. -/
theorem share_fair_sample :
    |((6 * share 6 3 : Nat) : Int) - 2 ^ 24| < ((2 * 6 : Nat) : Int) ∧
      |((2 ^ 24 * share (2 ^ 24) (2 ^ 24) : Nat) : Int) - 2 ^ 24| < ((2 * 2 ^ 24 : Nat) : Int) ∧
      Monotone (scaledFace 6) := by
  have hsides : 6 ≤ 2 ^ 24 := by decide
  obtain ⟨hthree, hmono⟩ := share_fair hsides (show 1 ≤ 3 by decide) (by decide)
  have htop := (share_fair (Nat.le_refl (2 ^ 24)) (by decide) (Nat.le_refl (2 ^ 24))).1
  exact ⟨hthree, htop, hmono⟩

end Draw

end DiceNotation
