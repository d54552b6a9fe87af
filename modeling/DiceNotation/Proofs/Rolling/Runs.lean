import DiceNotation.Roll
import Mathlib.Tactic.Common

set_option autoImplicit false

/-!
# What rolling dice yields

A die takes one word, or it takes words until one is not passed over; several dice are drawn one after
the other, and exploding dice go on. For each of these, what a run amounts to if it does not give up.
From that, how many values there are and that each of them lies between the bounds.

## Main definitions

* `Draw.Taken` — a word that is not passed over.

## Main results

* `Rolling.bind_eq_some` — two computations yield something if both do one after the other.
* `Draw.wideFace_eq_some` — a large die shows the face of the first word that is not passed over.
* `Draw.die_of_le`, `Draw.die_eq_some_of_gt` — what a die shows, and what is left of the source.
* `Dice.roll_of_not_explodes`, `Dice.roll_eq_some_of_explodes` — the same for some dice.
* `Dice.of_roll` — how many values dice have, and between which bounds.
-/

namespace DiceNotation

/-! ## Computations one after the other -/

namespace Rolling

variable {γ α β : Type} {g g' : γ}

/-- Two computations yield something if both do one after the other. -/
theorem bind_eq_some {x : Rolling γ α} {f : α → Rolling γ β} {b : β} :
    (x >>= f) g = some (b, g') ↔ ∃ a h, x g = some (a, h) ∧ f a h = some (b, g') := by
  show (x g).bind (fun r => f r.1 r.2) = some (b, g') ↔ _
  rw [Option.bind_eq_some_iff, Prod.exists]

/-- A computation that only yields a value leaves the source as it is. -/
theorem pure_eq_some {a b : α} : (pure a : Rolling γ α) g = some (b, g') ↔ a = b ∧ g = g' := by
  show some (a, g) = some (b, g') ↔ _
  rw [Option.some.injEq, Prod.mk.injEq]

end Rolling

/-! ## Values as integers -/

/-- Values have 32 bits. -/
theorem toInt_range (v : Int32) : -2147483648 ≤ v.toInt ∧ v.toInt ≤ 2147483647 :=
  ⟨v.minValue_le_toInt, v.toInt_le⟩

/-- A value is positive if it is as an integer. -/
theorem pos_iff_toInt_pos {v : Int32} : 0 < v ↔ 0 < v.toInt :=
  Int32.lt_iff_toInt_lt

/-- A value is negative if it is as an integer. -/
theorem neg_iff_toInt_neg {v : Int32} : v < 0 ↔ v.toInt < 0 :=
  Int32.lt_iff_toInt_lt

/-- A value is zero if it is as an integer. -/
theorem eq_zero_iff_toInt_eq_zero {v : Int32} : v = 0 ↔ v.toInt = 0 :=
  Int32.toInt_inj.symm

/-- Values whose sum has 32 bits are added as integers. -/
theorem toInt_add_of_le {v w : Int32} (hmin : -2147483648 ≤ v.toInt + w.toInt)
    (hmax : v.toInt + w.toInt < 2147483648) : (v + w).toInt = v.toInt + w.toInt := by
  rw [Int32.toInt_add]
  exact Int.bmod_eq_of_le (by omega) (by omega)

/-! ## The values between the bounds -/

namespace Dice

/-- The values between the bounds, for positive faces, for negative ones and for none. -/
theorem bounds_iff {d : Dice} {v : Int32} :
    d.lower ≤ v ∧ v ≤ d.upper ↔
      0 < d.faces.toInt ∧ 1 ≤ v.toInt ∧ v.toInt ≤ d.faces.toInt ∨
      d.faces.toInt < 0 ∧ d.faces.toInt ≤ v.toInt ∧ v.toInt ≤ -1 ∨
      d.faces = 0 ∧ v = 0 := by
  have hone : (1 : Int32).toInt = 1 := rfl
  have hminus : (-1 : Int32).toInt = -1 := rfl
  rw [lower, upper, Int32.le_iff_toInt_le, Int32.le_iff_toInt_le]
  simp only [pos_iff_toInt_pos, neg_iff_toInt_neg, eq_zero_iff_toInt_eq_zero]
  split_ifs <;> omega

end Dice

namespace Draw

variable {γ : Type} [WordSource γ] {g g' : γ} {limit sides n : Nat} {faces v : Int32}

/-! ## Faces -/

/-- The face for a fraction of some sides is one of them. -/
theorem scaledFace_bounds (h : 0 < sides) (k : Nat) :
    1 ≤ scaledFace sides k ∧ scaledFace sides k ≤ sides := by
  unfold scaledFace
  omega

/-- A word that is not passed over for a die with `sides` sides. -/
def Taken (sides : Nat) (w : UInt32) : Prop :=
  w.toNat * sides % UInt32.size ≤ zone sides

instance (sides : Nat) (w : UInt32) : Decidable (Taken sides w) :=
  inferInstanceAs (Decidable (_ ≤ _))

/-- A large die shows the face of a word that is not passed over. -/
theorem wideFace_succ_of_taken (h : Taken sides (WordSource.word g 0)) :
    wideFace sides (limit + 1) g =
      some ((WordSource.word g 0).toNat * sides / UInt32.size, WordSource.state g 1) := by
  rw [wideFace]
  show (if Taken sides (WordSource.word g 0) then pure _ else wideFace sides limit) _ = _
  rw [if_pos h]
  rfl

/-- If the first word is passed over, a large die is drawn from what is behind it. -/
theorem wideFace_succ_of_not_taken (h : ¬ Taken sides (WordSource.word g 0)) :
    wideFace sides (limit + 1) g = wideFace sides limit (WordSource.state g 1) := by
  rw [wideFace]
  show (if Taken sides (WordSource.word g 0) then pure _ else wideFace sides limit) _ = _
  rw [if_neg h]
  rfl

/-- A large die shows the face of the first word that is not passed over.

**Proof sketch.** Induction on the limit. If the first word is passed over, what is taken and passed
over of the source behind it is one place further on in the source. -/
theorem wideFace_eq_some :
    wideFace sides limit g = some (n, g') ↔
      ∃ i < limit, (∀ j < i, ¬ Taken sides (WordSource.word g j)) ∧
        Taken sides (WordSource.word g i) ∧
        n = (WordSource.word g i).toNat * sides / UInt32.size ∧ g' = WordSource.state g (i + 1) := by
  induction limit generalizing g with
  | zero => simp [wideFace]
  | succ limit ih =>
    by_cases htaken : Taken sides (WordSource.word g 0)
    · rw [wideFace_succ_of_taken htaken, Option.some.injEq, Prod.mk.injEq]
      constructor
      · rintro ⟨rfl, rfl⟩
        exact ⟨0, by omega, by omega, htaken, rfl, rfl⟩
      · rintro ⟨i, -, hpassed, -, rfl, rfl⟩
        obtain rfl : i = 0 := by
          by_contra hi
          exact hpassed 0 (by omega) htaken
        exact ⟨rfl, rfl⟩
    · rw [wideFace_succ_of_not_taken htaken, ih]
      constructor
      · rintro ⟨i, hi, hpassed, htaken', hn, hg⟩
        refine ⟨i + 1, by omega, fun j hj => ?_, htaken', hn, hg⟩
        cases j with
        | zero => exact htaken
        | succ j => exact hpassed j (by omega)
      · rintro ⟨i, hi, hpassed, htaken', hn, hg⟩
        cases i with
        | zero => exact absurd htaken' htaken
        | succ i => exact ⟨i, by omega, fun j hj => hpassed (j + 1) (by omega), htaken', hn, hg⟩

/-- The face of a large die is below the number of sides. -/
theorem wideFace_lt (h : wideFace sides limit g = some (n, g')) (hsides : 0 < sides) :
    n < sides := by
  obtain ⟨i, -, -, -, rfl, -⟩ := wideFace_eq_some.1 h
  rw [Nat.div_lt_iff_lt_mul (by decide), Nat.mul_comm]
  exact Nat.mul_lt_mul_of_pos_left (UInt32.toNat_lt_size _) hsides

/-! ## One die -/

/-- A die without faces shows `0`. -/
theorem die_zero : die limit 0 g = some (0, g) :=
  rfl

/-- A die with up to `2 ^ 24` sides shows the face for the upper 24 bits of one word. -/
theorem die_of_le (limit : Nat) (g : γ) (hne : faces ≠ 0)
    (hsides : faces.toInt.natAbs ≤ maxScaledSides) :
    ∃ v, die limit faces g = some (v, WordSource.state g 1) ∧
      v.toInt = if 0 < faces.toInt
        then (scaledFace faces.toInt.natAbs (WordSource.word g 0 >>> 8).toNat : Int)
        else -scaledFace faces.toInt.natAbs (WordSource.word g 0 >>> 8).toNat := by
  set face := scaledFace faces.toInt.natAbs (WordSource.word g 0 >>> 8).toNat
  refine ⟨Int32.ofInt (if 0 < faces then face else -face), ?_, ?_⟩
  · rw [die, if_neg hne]
    show ite (faces.toInt.natAbs ≤ maxScaledSides) (_ : Rolling γ Int32) _ g = _
    rw [if_pos hsides]
    rfl
  · have hbounds := scaledFace_bounds (Int.natAbs_pos.2 (mt eq_zero_iff_toInt_eq_zero.2 hne))
      (WordSource.word g 0 >>> 8).toNat
    have hmax : maxScaledSides = 16777216 := rfl
    simp only [pos_iff_toInt_pos]
    apply Int32.toInt_ofInt_of_le <;> split_ifs <;> omega

/-- A die with more than `2 ^ 24` sides shows the face of a large die, counted from the lower
bound. -/
theorem die_eq_some_of_gt (hsides : maxScaledSides < faces.toInt.natAbs) :
    die limit faces g = some (v, g') ↔
      ∃ n, wideFace faces.toInt.natAbs limit g = some (n, g') ∧
        v.toInt = (if 0 < faces.toInt then 1 else faces.toInt) + n := by
  have hne : faces ≠ 0 := by
    rintro rfl
    exact absurd hsides (by decide)
  have hdie : die limit faces g = some (v, g') ↔
      ∃ n, wideFace faces.toInt.natAbs limit g = some (n, g') ∧
        v = (if 0 < faces then 1 else faces) + Int32.ofNat n := by
    rw [die, if_neg hne]
    show ite (faces.toInt.natAbs ≤ maxScaledSides) (_ : Rolling γ Int32) _ g = _ ↔ _
    rw [if_neg (Nat.not_le.2 hsides), Rolling.bind_eq_some]
    constructor
    · rintro ⟨n, h, hn, hv⟩
      obtain ⟨rfl, rfl⟩ := Rolling.pure_eq_some.1 hv
      exact ⟨n, hn, rfl⟩
    · rintro ⟨n, hn, rfl⟩
      exact ⟨n, g', hn, rfl⟩
  rw [hdie]
  refine exists_congr fun n => and_congr_right fun hn => ?_
  have hlt := wideFace_lt hn (Nat.zero_lt_of_lt hsides)
  have hrange := toInt_range faces
  have hface : (Int32.ofNat n).toInt = n := Int32.toInt_ofNat_of_lt (by omega)
  have hfirst : (if 0 < faces then 1 else faces).toInt =
      if 0 < faces.toInt then 1 else faces.toInt := by
    simp only [← pos_iff_toInt_pos]
    split_ifs <;> rfl
  rw [← Int32.toInt_inj, toInt_add_of_le, hfirst, hface]
  all_goals rw [hfirst, hface]; split_ifs <;> omega

/-! ## Several dice -/

/-- Several dice are drawn one after the other, so there are as many values as dice, and each value
is that of a die. -/
theorem of_dice {P : Int32 → Prop}
    (hdie : ∀ {g g' : γ} {v}, die limit faces g = some (v, g') → P v) {vs : List Int32}
    (h : dice limit faces n g = some (vs, g')) :
    vs.length = n ∧ ∀ v ∈ vs, P v := by
  induction n generalizing g vs with
  | zero =>
    obtain ⟨rfl, -⟩ := Rolling.pure_eq_some.1 h
    exact ⟨rfl, by simp⟩
  | succ n ih =>
    obtain ⟨v, g₁, hv, hrest⟩ := Rolling.bind_eq_some.1 h
    obtain ⟨ws, g₂, hws, hcons⟩ := Rolling.bind_eq_some.1 hrest
    obtain ⟨rfl, rfl⟩ := Rolling.pure_eq_some.1 hcons
    obtain ⟨hlen, hall⟩ := ih hws
    exact ⟨by rw [List.length_cons, hlen], List.forall_mem_cons.2 ⟨hdie hv, hall⟩⟩

/-- Each value of further dice is that of a die. -/
theorem of_explosions {P : Int32 → Prop}
    (hdie : ∀ {g g' : γ} {v}, die limit faces g = some (v, g') → P v) {top last : Int32}
    {vs : List Int32} (h : explosions limit faces top n last g = some (vs, g')) : ∀ v ∈ vs, P v := by
  induction n generalizing g last vs with
  | zero => simp [explosions] at h
  | succ n ih =>
    rw [explosions] at h
    split_ifs at h with hlast
    · obtain ⟨v, g₁, hv, hrest⟩ := Rolling.bind_eq_some.1 h
      obtain ⟨ws, g₂, hws, hcons⟩ := Rolling.bind_eq_some.1 hrest
      obtain ⟨rfl, rfl⟩ := Rolling.pure_eq_some.1 hcons
      exact List.forall_mem_cons.2 ⟨hdie hv, ih hws⟩
    · obtain ⟨rfl, -⟩ := Rolling.pure_eq_some.1 h
      simp

end Draw

/-! ## Dice and their bounds -/

namespace Dice

variable {γ : Type} [WordSource γ] {g g' : γ} {limit : Nat} {d : Dice} {v : Int32}
  {vs : List Int32}

/-- What a die shows lies between the bounds. -/
theorem bounds_of_die (h : Draw.die limit d.faces g = some (v, g')) :
    d.lower ≤ v ∧ v ≤ d.upper := by
  rw [bounds_iff]
  by_cases hne : d.faces = 0
  · rw [hne, Draw.die_zero, Option.some.injEq, Prod.mk.injEq] at h
    exact Or.inr (Or.inr ⟨hne, h.1.symm⟩)
  have hpos : 0 < d.faces.toInt.natAbs := Int.natAbs_pos.2 (mt eq_zero_iff_toInt_eq_zero.2 hne)
  by_cases hsides : d.faces.toInt.natAbs ≤ Draw.maxScaledSides
  · obtain ⟨w, hw, hface⟩ := Draw.die_of_le limit g hne hsides
    obtain ⟨rfl, -⟩ := Prod.mk.inj (Option.some.inj (h.symm.trans hw))
    have hbounds := Draw.scaledFace_bounds hpos (WordSource.word g 0 >>> 8).toNat
    split_ifs at hface <;> omega
  · obtain ⟨n, hn, hface⟩ := (Draw.die_eq_some_of_gt (Nat.not_le.1 hsides)).1 h
    have hlt := Draw.wideFace_lt hn hpos
    split_ifs at hface <;> omega

/-- Dice that do not explode are drawn one after the other. -/
theorem roll_of_not_explodes (h : d.explodes = false) :
    d.roll limit = (Draw.dice limit d.faces d.number.toNat : Rolling γ (List Int32)) := by
  refine (bind_congr fun rolls => ?_).trans (bind_pure _)
  split
  · rw [if_neg (by simp [h])]
  · rfl

/-- Dice that explode are drawn one after the other, and further ones follow the last one. -/
theorem roll_eq_some_of_explodes (h : d.explodes = true) :
    d.roll limit g = some (vs, g') ↔
      ∃ rolls g₁, Draw.dice limit d.faces d.number.toNat g = some (rolls, g₁) ∧
        (rolls = [] ∧ vs = [] ∧ g' = g₁ ∨
          ∃ last further, rolls.getLast? = some last ∧
            Draw.explosions limit d.faces d.upper limit last g₁ = some (further, g') ∧
            vs = rolls ++ further) := by
  rw [roll, Rolling.bind_eq_some]
  refine exists_congr fun rolls => exists_congr fun g₁ => and_congr_right fun _ => ?_
  cases hlast : rolls.getLast? with
  | none =>
    obtain rfl := List.getLast?_eq_none_iff.1 hlast
    constructor
    · intro hv
      obtain ⟨rfl, rfl⟩ := Rolling.pure_eq_some.1 hv
      exact Or.inl ⟨rfl, rfl, rfl⟩
    · rintro (⟨-, rfl, rfl⟩ | ⟨last, -, hsome, -⟩)
      · exact Rolling.pure_eq_some.2 ⟨rfl, rfl⟩
      · simp at hsome
  | some last =>
    have hne : rolls ≠ [] := by rintro rfl; simp at hlast
    simp only [h, ↓reduceIte, Rolling.bind_eq_some, Rolling.pure_eq_some, hne, false_and,
      false_or, Option.some.injEq]
    constructor
    · rintro ⟨further, g₂, hfurther, rfl, rfl⟩
      exact ⟨last, further, rfl, hfurther, rfl⟩
    · rintro ⟨last', further, rfl, hfurther, rfl⟩
      exact ⟨further, g', hfurther, rfl, rfl⟩

/-- There is a value for each die, and further ones only if the dice explode; all of them lie between
the bounds. -/
theorem of_roll (h : d.roll limit g = some (vs, g')) :
    d.number.toNat ≤ vs.length ∧ (d.explodes = false → vs.length = d.number.toNat) ∧
      ∀ v ∈ vs, d.lower ≤ v ∧ v ≤ d.upper := by
  cases hexplodes : d.explodes with
  | false =>
    rw [roll_of_not_explodes hexplodes] at h
    obtain ⟨hlen, hall⟩ := Draw.of_dice (fun hdie => bounds_of_die hdie) h
    exact ⟨Nat.le_of_eq hlen.symm, fun _ => hlen, hall⟩
  | true =>
    obtain ⟨rolls, g₁, hrolls, hrest⟩ := (roll_eq_some_of_explodes hexplodes).1 h
    obtain ⟨hlen, hall⟩ := Draw.of_dice (fun hdie => bounds_of_die hdie) hrolls
    rcases hrest with ⟨rfl, rfl, -⟩ | ⟨last, further, -, hfurther, rfl⟩
    · exact ⟨Nat.le_of_eq hlen.symm, by simp, by simp⟩
    · refine ⟨by rw [List.length_append]; omega, by simp, ?_⟩
      exact List.forall_mem_append.2
        ⟨hall, Draw.of_explosions (fun hdie => bounds_of_die hdie) hfurther⟩

end Dice

end DiceNotation
