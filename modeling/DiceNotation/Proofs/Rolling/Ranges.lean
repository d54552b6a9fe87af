import DiceNotation.Evaluation
import DiceNotation.Proofs.Rolling.Runs
import DiceNotation.Proofs.Rolling.Totals
import Mathlib.Algebra.Order.BigOperators.Group.List
import Mathlib.Algebra.Order.Group.Int
import Mathlib.Tactic.Linarith

set_option autoImplicit false

/-!
# The range of values

What rolls amount to is the sum of some of them: of all, of one, or of all but one. So the value of
dice lies between as many times the lowest and the highest value of one die. If 32 bits hold the
number of dice times the number of faces, no step of combining the rolls leaves 32 bits, and the
value is the one of the integers.

## Main definitions

* `word?` — the word of an integer, if 32 bits hold it.
* `Dice.exactSum?`, `Dice.exactCombine?` — what rolls amount to, if all steps on the way are exact.
* `Modifier.kept` — how many of some rolls the value is made of.

## Main results

* `Modifier.total_bounds` — what integers between two bounds amount to.
* `Dice.exactCombine?_eq_some` — when all steps of combining rolls are exact.
* `Dice.value_range` — the range of the value of dice that do not explode.
-/

namespace DiceNotation

/-! ## Integers -/

namespace Modifier

/-- How many of `n` rolls the value is made of. -/
def kept (n : Nat) : Modifier → Nat
  | none | explode => n
  | keepHigh | keepLow => 1
  | dropHigh | dropLow => n - 1

/-- No more rolls are kept than there are. -/
theorem kept_le (m : Modifier) {n : Nat} (h : 1 ≤ n) : m.kept n ≤ n := by
  cases m <;> simp only [kept] <;> omega

/-- What integers amount to is the sum of those that are kept. -/
theorem exists_kept (m : Modifier) {rolls : List Int} (hne : rolls ≠ []) :
    ∃ chosen : List Int, chosen ⊆ rolls ∧ chosen.length = m.kept rolls.length ∧
      m.total rolls = chosen.sum := by
  obtain ⟨high, hhigh⟩ := Option.ne_none_iff_exists'.1 (mt List.max?_eq_none_iff.1 hne)
  obtain ⟨low, hlow⟩ := Option.ne_none_iff_exists'.1 (mt List.min?_eq_none_iff.1 hne)
  have hhighMem : high ∈ rolls := List.max?_mem hhigh
  have hlowMem : low ∈ rolls := List.min?_mem hlow
  cases m with
  | none | explode => exact ⟨rolls, List.Subset.refl _, rfl, rfl⟩
  | keepHigh => exact ⟨[high], by simpa using hhighMem, rfl, by simp [total, hhigh]⟩
  | keepLow => exact ⟨[low], by simpa using hlowMem, rfl, by simp [total, hlow]⟩
  | dropHigh =>
    exact ⟨rolls.erase high, List.erase_subset, List.length_erase_of_mem hhighMem,
      by simp [total, hhigh]⟩
  | dropLow =>
    exact ⟨rolls.erase low, List.erase_subset, List.length_erase_of_mem hlowMem,
      by simp [total, hlow]⟩

/-- Integers between two bounds amount to something between as many times these bounds as integers
are kept. -/
theorem total_bounds (m : Modifier) {rolls : List Int} {lo hi : Int} (hne : rolls ≠ [])
    (h : ∀ v ∈ rolls, lo ≤ v ∧ v ≤ hi) :
    m.kept rolls.length * lo ≤ m.total rolls ∧ m.total rolls ≤ m.kept rolls.length * hi := by
  obtain ⟨chosen, hsub, hlen, htotal⟩ := m.exists_kept hne
  have hlower := chosen.card_nsmul_le_sum lo fun v hv => (h v (hsub hv)).1
  have hupper := chosen.sum_le_card_nsmul hi fun v hv => (h v (hsub hv)).2
  rw [nsmul_eq_mul, hlen] at hlower hupper
  rw [htotal]
  exact ⟨hlower, hupper⟩

/-- What integers amount to is as small as their number allows. -/
theorem total_fits (m : Modifier) {rolls : List Int} {bound : Nat} (hne : rolls ≠ [])
    (h : ∀ v ∈ rolls, v.natAbs ≤ bound) (hfits : rolls.length * bound ≤ 2147483647) :
    -2147483648 ≤ m.total rolls ∧ m.total rolls ≤ 2147483647 := by
  have hbounds : ∀ v ∈ rolls, -(bound : Int) ≤ v ∧ v ≤ bound := by
    intro v hv
    have := h v hv
    omega
  obtain ⟨hlower, hupper⟩ := m.total_bounds hne hbounds
  have hkept := Nat.mul_le_mul_right bound (m.kept_le (List.length_pos_iff.2 hne))
  rw [Int.mul_neg] at hlower
  constructor <;> omega

end Modifier

/-! ## Exact steps -/

/-- The word of an integer, if 32 bits hold it. -/
def word? (x : Int) : Option Int32 :=
  if -2147483648 ≤ x ∧ x ≤ 2147483647 then some (Int32.ofInt x) else none

/-- An integer that 32 bits hold has a word. -/
theorem word?_of_fits {x : Int} (h : -2147483648 ≤ x ∧ x ≤ 2147483647) :
    word? x = some (Int32.ofInt x) :=
  if_pos h

namespace Dice

/-- The sum of the rolls, if 32 bits hold the result of every addition on the way. -/
def exactSum? (rolls : List Int32) : Option Int32 :=
  rolls.foldlM (fun s v => word? (s.toInt + v.toInt)) 0

/-- What the rolls amount to, if 32 bits hold the result of every addition and every subtraction on
the way. -/
def exactCombine? (d : Dice) (rolls : List Int32) : Option Int32 :=
  match d.modifier with
  | .none | .explode => exactSum? rolls
  | .keepHigh => some (highest rolls)
  | .keepLow => some (lowest rolls)
  | .dropHigh => do word? ((← exactSum? rolls).toInt - (highest rolls).toInt)
  | .dropLow => do word? ((← exactSum? rolls).toInt - (lowest rolls).toInt)

variable {d : Dice} {rolls : List Int32} {bound : Nat} {v : Int32}

/-- Adding up rolls is exact as long as their number times their size leaves room.

**Proof sketch.** Induction on the rolls. Each of them uses up its share of the room that is left
beside the sum so far. -/
theorem foldlM_exact (s : Int32) (h : ∀ v ∈ rolls, v.toInt.natAbs ≤ bound)
    (hfits : s.toInt.natAbs + rolls.length * bound ≤ 2147483647) :
    rolls.foldlM (fun s v => word? (s.toInt + v.toInt)) s = some (rolls.foldl (· + ·) s) := by
  induction rolls generalizing s with
  | nil => rfl
  | cons v vs ih =>
    obtain ⟨hv, hvs⟩ := List.forall_mem_cons.1 h
    rw [List.length_cons, Nat.succ_mul] at hfits
    have hsum : (s + v).toInt = s.toInt + v.toInt := toInt_add_of_le (by omega) (by omega)
    have hstep : word? (s.toInt + v.toInt) = some (s + v) := by
      rw [word?_of_fits (by omega), Int32.ofInt_add, Int32.ofInt_toInt, Int32.ofInt_toInt]
    rw [List.foldlM_cons, hstep, List.foldl_cons]
    exact ih (s + v) hvs (by omega)

/-- The sum of rolls is exact if their number times their size has 32 bits. -/
theorem exactSum?_eq_some (h : ∀ v ∈ rolls, v.toInt.natAbs ≤ bound)
    (hfits : rolls.length * bound ≤ 2147483647) : exactSum? rolls = some (sum rolls) :=
  foldlM_exact 0 h (by simpa using hfits)

section

variable (hne : rolls ≠ []) (h : ∀ v ∈ rolls, v.toInt.natAbs ≤ bound)
  (hfits : rolls.length * bound ≤ 2147483647)

include hne h hfits

/-- As integers the rolls amount to something that 32 bits hold. -/
theorem total_toInt_fits (m : Modifier) :
    -2147483648 ≤ m.total (rolls.map Int32.toInt) ∧
      m.total (rolls.map Int32.toInt) ≤ 2147483647 := by
  have hsize : ∀ v ∈ rolls.map Int32.toInt, v.natAbs ≤ bound := by simpa using h
  exact m.total_fits (by simpa using hne) hsize (by simpa using hfits)

/-- What the rolls are combined to is what they amount to as integers. -/
theorem toInt_combine : (d.combine rolls).toInt = d.modifier.total (rolls.map Int32.toInt) := by
  have hrange := total_toInt_fits hne h hfits d.modifier
  rw [combine_eq_ofInt]
  exact Int32.toInt_ofInt_of_le hrange.1 (by omega)

/-- Taking a roll away from the sum is taking it out of the list, as integers as well. -/
theorem toInt_sum_sub (hv : v ∈ rolls) :
    (sum rolls).toInt - v.toInt = ((rolls.map Int32.toInt).erase v.toInt).sum := by
  have hsum : (sum rolls).toInt = (rolls.map Int32.toInt).sum :=
    toInt_combine (d := ⟨0, 0, .none⟩) hne h hfits
  have herase := List.sum_erase (List.mem_map_of_mem (f := Int32.toInt) hv)
  omega

/-- Combining rolls is exact if their number times their size has 32 bits.

**Proof sketch.** So is adding them up. What is left of the sum without the highest or the lowest roll
is the sum of the others, which is no larger. -/
theorem exactCombine?_eq_some : d.exactCombine? rolls = some (d.combine rolls) := by
  have hsum := exactSum?_eq_some h hfits
  have hrange := total_toInt_fits hne h hfits
  rw [combine_eq_ofInt, ← word?_of_fits (hrange d.modifier)]
  cases hmodifier : d.modifier <;> simp only [exactCombine?, hmodifier]
  case none | explode =>
    rw [hsum, sum_eq_ofInt]
    exact (word?_of_fits (hrange .none)).symm
  case keepHigh =>
    rw [word?_of_fits (hrange .keepHigh), Modifier.total, ← toInt_highest, Int32.ofInt_toInt]
  case keepLow =>
    rw [word?_of_fits (hrange .keepLow), Modifier.total, ← toInt_lowest, Int32.ofInt_toInt]
  case dropHigh =>
    rw [hsum, Modifier.total, ← toInt_highest, ← toInt_sum_sub hne h hfits (highest_mem hne)]
    rfl
  case dropLow =>
    rw [hsum, Modifier.total, ← toInt_lowest, ← toInt_sum_sub hne h hfits (lowest_mem hne)]
    rfl

end

/-! ## The range of the value -/

/-- The size of a value between the bounds is at most the number of faces. -/
theorem natAbs_le_of_bounds (hv : d.lower ≤ v ∧ v ≤ d.upper) :
    v.toInt.natAbs ≤ d.faces.toInt.natAbs := by
  rw [bounds_iff, eq_zero_iff_toInt_eq_zero, eq_zero_iff_toInt_eq_zero] at hv
  omega

/-- **The range of values.** If dice do not explode, and 32 bits hold the number of dice times the
number of faces, then no step of combining the rolls leaves 32 bits. The value lies between as many
times the lowest and the highest value of one die as rolls are kept.

**Proof sketch.** All rolls lie between the bounds of a die, and there are as many as dice. The value
is the sum of those that are kept, and no sum on the way is larger than the number of dice times the
number of faces. -/
theorem value_range {γ : Type} [WordSource γ] {limit : Nat} {g g' : γ} {o : Outcome}
    (hnumber : 1 ≤ d.number) (hmodifier : d.modifier ≠ .explode)
    (hsmall : d.number.toNat * d.faces.toInt.natAbs ≤ 2 ^ 31 - 1)
    (h : d.evaluate limit g = some (o, g')) :
    ∃ rolls, d.roll limit g = some (rolls, g') ∧ o = d.outcomeOf rolls ∧
      d.exactCombine? rolls = some o.value ∧
      d.modifier.kept d.number.toNat * d.lower.toInt ≤ o.value.toInt ∧
      o.value.toInt ≤ d.modifier.kept d.number.toNat * d.upper.toInt := by
  obtain ⟨rolls, g₁, hroll, hpure⟩ := Rolling.bind_eq_some.1 h
  obtain ⟨rfl, rfl⟩ := Rolling.pure_eq_some.1 hpure
  obtain ⟨-, hexact, hall⟩ := of_roll hroll
  have hlen : rolls.length = d.number.toNat := hexact (by simp [explodes, hmodifier])
  have hne : rolls ≠ [] := by
    rw [← List.length_pos_iff, hlen]
    exact UInt8.le_iff_toNat_le.1 hnumber
  have hsize : ∀ v ∈ rolls, v.toInt.natAbs ≤ d.faces.toInt.natAbs :=
    fun v hv => natAbs_le_of_bounds (hall v hv)
  have hfits : rolls.length * d.faces.toInt.natAbs ≤ 2147483647 := hlen ▸ hsmall
  have hsides : ∀ v ∈ rolls.map Int32.toInt, d.lower.toInt ≤ v ∧ v ≤ d.upper.toInt := by
    simpa [Int32.le_iff_toInt_le] using hall
  have hbounds := d.modifier.total_bounds (by simpa using hne) hsides
  rw [← toInt_combine hne hsize hfits, List.length_map, hlen] at hbounds
  exact ⟨rolls, hroll, rfl, exactCombine?_eq_some hne hsize hfits, hbounds.1, hbounds.2⟩

/-- Two huge dice with negative faces, without the lower roll, and rolls of larger ones, for which the
sum leaves 32 bits on the way. -/
theorem value_range_sample :
    (∃ o g, (⟨2, -1073741823, .dropLow⟩ : Dice).evaluate 3 (ScriptedWords.ofList [0, 0]) =
      some (o, g) ∧ -1073741823 ≤ o.value.toInt ∧ o.value.toInt ≤ -1) ∧
    (⟨2, -1073741825, .dropLow⟩ : Dice).exactCombine? [-1073741825, -1073741825] = none := by
  have hreturns : ((⟨2, -1073741823, .dropLow⟩ : Dice).evaluate 3
      (ScriptedWords.ofList [0, 0])).isSome = true := by decide +kernel
  have hlowest : (Modifier.dropLow.kept (2 : UInt8).toNat : Int) *
      (⟨2, -1073741823, .dropLow⟩ : Dice).lower.toInt = -1073741823 := by decide +kernel
  have hhighest : (Modifier.dropLow.kept (2 : UInt8).toNat : Int) *
      (⟨2, -1073741823, .dropLow⟩ : Dice).upper.toInt = -1 := by decide +kernel
  obtain ⟨⟨o, g⟩, h⟩ := Option.isSome_iff_exists.1 hreturns
  obtain ⟨rolls, -, -, -, hlower, hupper⟩ := value_range (by decide) (by decide) (by decide +kernel) h
  rw [hlowest] at hlower
  rw [hhighest] at hupper
  exact ⟨⟨o, g, h, hlower, hupper⟩, by decide +kernel⟩

end Dice

end DiceNotation
