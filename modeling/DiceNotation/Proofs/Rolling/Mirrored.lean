import DiceNotation.Evaluation
import DiceNotation.Proofs.Rolling.Runs
import DiceNotation.Proofs.Rolling.Totals

set_option autoImplicit false

/-!
# Dice with negative faces

Dice with negative faces mirror those with as many positive ones: with the same words every die shows
the negated value. Then the lowest roll takes the part of the highest one, so what the rolls amount
to is negated if the modifier is mirrored as well.

## Main definitions

* `Modifier.mirror` — the modifier in which highest and lowest rolls change places.
* `Dice.mirror` — the dice with negated faces and the mirrored modifier.

## Main results

* `Draw.die_neg`, `Draw.dice_neg` — what a die and several dice with negated faces show.
* `Modifier.total_mirror` — what negated integers amount to.
* `Dice.combine_mirror` — what negated rolls amount to.
* `Dice.evaluate_mirror` — rolling dice and rolling their mirror image.

## Implementation notes

Only dice whose faces are scaled from a fraction are mirrored. A larger die counts its face from the
lower bound, so that words near zero give `1` with positive faces and the value farthest from zero
with negative ones. The lowest of all words is its own negation, so it has no mirror image; no die
that is mirrored shows it.
-/

namespace DiceNotation

/-! ## Words -/

/-- The negation of a word is that of the integer, except for the lowest word. -/
theorem toInt_neg_of_ne {v : Int32} (h : v.toInt ≠ -2147483648) : (-v).toInt = -v.toInt := by
  have hrange := toInt_range v
  rw [Int32.toInt_neg]
  exact Int.bmod_eq_of_le (by omega) (by omega)

/-! ## One die and several dice -/

namespace Draw

variable {γ : Type} [WordSource γ] {faces : Int32}

/-- A die with negated faces takes the same word and shows the negated value. -/
theorem die_neg (hpos : 1 ≤ faces.toInt) (hmax : faces.toInt ≤ 2 ^ 24) (limit : Nat) (g : γ) :
    ∃ v, die limit faces g = some (v, WordSource.state g 1) ∧
      die limit (-faces) g = some (-v, WordSource.state g 1) := by
  have hfaces : (-faces).toInt = -faces.toInt := toInt_neg_of_ne (by omega)
  have hne : faces ≠ 0 := mt eq_zero_iff_toInt_eq_zero.1 (by omega)
  have hne' : -faces ≠ 0 := mt eq_zero_iff_toInt_eq_zero.1 (by omega)
  have hsides : faces.toInt.natAbs ≤ maxScaledSides := by
    simp only [maxScaledSides]
    omega
  have hsame : (-faces).toInt.natAbs = faces.toInt.natAbs := by rw [hfaces, Int.natAbs_neg]
  obtain ⟨v, hv, hface⟩ := die_of_le limit g hne hsides
  obtain ⟨w, hw, hface'⟩ := die_of_le limit g hne' (hsame.trans_le hsides)
  rw [if_pos (by omega)] at hface
  rw [if_neg (by omega), hsame, ← hface] at hface'
  have hneg : (-v).toInt = -v.toInt := toInt_neg_of_ne (by omega)
  obtain rfl : w = -v := Int32.toInt_inj.1 (hface'.trans hneg.symm)
  exact ⟨v, hv, hw⟩

/-- Several dice with negated faces take the same words and show the negated values.

**Proof sketch.** Induction on the number of dice. The words of the others are those behind the word of
the first one. -/
theorem dice_neg (hpos : 1 ≤ faces.toInt) (hmax : faces.toInt ≤ 2 ^ 24) (limit n : Nat) (g : γ) :
    ∃ vs, dice limit faces n g = some (vs, WordSource.state g n) ∧
      dice limit (-faces) n g = some (vs.map (- ·), WordSource.state g n) := by
  induction n generalizing g with
  | zero => exact ⟨[], rfl, rfl⟩
  | succ n ih =>
    obtain ⟨v, hv, hv'⟩ := die_neg hpos hmax limit g
    obtain ⟨vs, hvs, hvs'⟩ := ih (WordSource.state g 1)
    exact ⟨v :: vs, Rolling.bind_eq_some.2 ⟨v, _, hv, Rolling.bind_eq_some.2 ⟨vs, _, hvs, rfl⟩⟩,
      Rolling.bind_eq_some.2 ⟨-v, _, hv', Rolling.bind_eq_some.2 ⟨_, _, hvs', rfl⟩⟩⟩

end Draw

/-! ## What negated rolls amount to -/

namespace Modifier

/-- The modifier in which highest and lowest rolls change places. -/
def mirror : Modifier → Modifier
  | keepHigh => keepLow
  | keepLow => keepHigh
  | dropHigh => dropLow
  | dropLow => dropHigh
  | m => m

/-- Only exploding dice have a mirror image that explodes. -/
theorem mirror_ne_explode {m : Modifier} (h : m ≠ .explode) : m.mirror ≠ .explode := by
  revert h
  cases m <;> decide

/-- The highest one of negated integers is the negated lowest one. -/
theorem max?_map_neg (rolls : List Int) : (rolls.map (- ·)).max? = rolls.min?.map (- ·) := by
  refine Option.ext fun v => ?_
  rw [List.max?_eq_some_iff, Option.map_eq_some_iff]
  simp only [List.min?_eq_some_iff, List.mem_map, forall_exists_index, and_imp,
    forall_apply_eq_imp_iff₂]
  constructor
  · rintro ⟨⟨w, hw, rfl⟩, hle⟩
    exact ⟨w, ⟨hw, fun b hb => Int.neg_le_neg_iff.1 (hle b hb)⟩, rfl⟩
  · rintro ⟨w, ⟨hw, hle⟩, rfl⟩
    exact ⟨⟨w, hw, rfl⟩, fun b hb => Int.neg_le_neg (hle b hb)⟩

/-- The lowest one of negated integers is the negated highest one. -/
theorem min?_map_neg (rolls : List Int) : (rolls.map (- ·)).min? = rolls.max?.map (- ·) := by
  have h := max?_map_neg (rolls.map (- ·))
  simp only [List.map_map, Function.comp_def, Int.neg_neg, List.map_id'] at h
  simp [h]

/-- Without one of them, negated integers are the others, negated. -/
theorem sum_erase_map_neg (rolls : List Int) (v : Int) :
    ((rolls.map (- ·)).erase (-v)).sum = -(rolls.erase v).sum := by
  rw [← List.map_erase neg_injective, List.sum_neg]

/-- Negated integers amount to the negated value under the mirrored modifier. -/
theorem total_mirror (m : Modifier) (rolls : List Int) :
    m.mirror.total (rolls.map (- ·)) = -m.total rolls := by
  have hmax : (rolls.map (- ·)).max?.getD 0 = -rolls.min?.getD 0 := by
    rw [max?_map_neg]
    cases rolls.min? <;> simp
  have hmin : (rolls.map (- ·)).min?.getD 0 = -rolls.max?.getD 0 := by
    rw [min?_map_neg]
    cases rolls.max? <;> simp
  cases m with
  | none | explode => exact (List.sum_neg rolls).symm
  | keepHigh => exact hmin
  | keepLow => exact hmax
  | dropHigh => rw [mirror, total, total, hmin, sum_erase_map_neg]
  | dropLow => rw [mirror, total, total, hmax, sum_erase_map_neg]

end Modifier

/-! ## Dice and their mirror image -/

namespace Dice

/-- The dice with negated faces, where highest and lowest rolls change places. -/
def mirror (d : Dice) : Dice :=
  ⟨d.number, -d.faces, d.modifier.mirror⟩

/-- Unless the lowest word is among them, negated rolls amount to the negated value for the mirrored
dice. -/
theorem combine_mirror (d : Dice) {rolls : List Int32} (h : ∀ v ∈ rolls, v.toInt ≠ -2147483648) :
    d.mirror.combine (rolls.map (- ·)) = -d.combine rolls := by
  have hrolls : (rolls.map (- ·)).map Int32.toInt = (rolls.map Int32.toInt).map (- ·) := by
    rw [List.map_map, List.map_map]
    exact List.map_congr_left fun v hv => toInt_neg_of_ne (h v hv)
  rw [combine_eq_ofInt, combine_eq_ofInt, hrolls, mirror, Modifier.total_mirror, Int32.ofInt_neg]

variable {γ : Type} [WordSource γ] {d : Dice}

/-- **Rolling dice and their mirror image.** Dice that do not explode, with up to `2 ^ 24` faces,
are rolled with one word for each of them. With the same words, and whatever the modifier is, as
many dice with negated faces show the negated rolls; and with the mirrored modifier these amount to
the negated value.

**Proof sketch.** A die with negated faces shows the negated face, by induction for several dice. As
integers the negated rolls amount to the negated value; none of the rolls is the lowest word, so it
makes no difference whether words or integers are negated. -/
theorem evaluate_mirror (hpos : 1 ≤ d.faces.toInt) (hmax : d.faces.toInt ≤ 2 ^ 24)
    (hmodifier : d.modifier ≠ .explode) (limit : Nat) (g : γ) :
    ∃ rolls,
      d.roll limit g = some (rolls, WordSource.state g d.number.toNat) ∧
      (∀ m, m ≠ .explode → (⟨d.number, -d.faces, m⟩ : Dice).roll limit g =
        some (rolls.map (- ·), WordSource.state g d.number.toNat)) ∧
      d.evaluate limit g = some (d.outcomeOf rolls, WordSource.state g d.number.toNat) ∧
      d.mirror.evaluate limit g =
        some (d.mirror.outcomeOf (rolls.map (- ·)), WordSource.state g d.number.toNat) ∧
      (d.mirror.outcomeOf (rolls.map (- ·))).value = -(d.outcomeOf rolls).value := by
  obtain ⟨rolls, hrolls, hneg⟩ := Draw.dice_neg hpos hmax limit d.number.toNat g
  have hroll : d.roll limit g = some (rolls, WordSource.state g d.number.toNat) := by
    rw [roll_of_not_explodes (by simp [explodes, hmodifier]), hrolls]
  have hmirror (m : Modifier) (hm : m ≠ .explode) : (⟨d.number, -d.faces, m⟩ : Dice).roll limit g =
      some (rolls.map (- ·), WordSource.state g d.number.toNat) := by
    rw [roll_of_not_explodes (by simp [explodes, hm]), hneg]
  have hlowest : ∀ v ∈ rolls, v.toInt ≠ -2147483648 := by
    intro v hv
    have hbounds := bounds_iff.1 ((of_roll hroll).2.2 v hv)
    rw [eq_zero_iff_toInt_eq_zero] at hbounds
    omega
  exact ⟨rolls, hroll, hmirror, Rolling.bind_eq_some.2 ⟨rolls, _, hroll, rfl⟩,
    Rolling.bind_eq_some.2 ⟨_, _, hmirror _ (Modifier.mirror_ne_explode hmodifier), rfl⟩,
    d.combine_mirror hlowest⟩

/-- Three dice without the highest roll, and their mirror image without the lowest one. -/
theorem evaluate_mirror_sample :
    (⟨3, 6, .dropHigh⟩ : Dice).roll 1 (ScriptedWords.ofList [4294967295, 0, 2147483648]) =
        some ([6, 1, 3], ScriptedWords.ofList []) ∧
      (⟨3, -6, .dropLow⟩ : Dice).roll 1 (ScriptedWords.ofList [4294967295, 0, 2147483648]) =
        some ([-6, -1, -3], ScriptedWords.ofList []) ∧
      (⟨3, -6, .dropLow⟩ : Dice).combine [-6, -1, -3] =
        -(⟨3, 6, .dropHigh⟩ : Dice).combine [6, 1, 3] := by
  obtain ⟨rolls, hroll, hmirror, -, -, hvalue⟩ := evaluate_mirror (d := ⟨3, 6, .dropHigh⟩)
    (by decide) (by decide) (by decide) 1 (ScriptedWords.ofList [4294967295, 0, 2147483648])
  have hshown : (⟨3, 6, .dropHigh⟩ : Dice).roll 1
      (ScriptedWords.ofList [4294967295, 0, 2147483648]) =
        some ([6, 1, 3], ScriptedWords.ofList []) := by decide +kernel
  obtain rfl : rolls = [6, 1, 3] :=
    congrArg Prod.fst (Option.some.inj (hroll.symm.trans hshown))
  exact ⟨hshown, hmirror .dropLow (by decide), hvalue⟩

end Dice

end DiceNotation
