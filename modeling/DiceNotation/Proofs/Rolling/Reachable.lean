import DiceNotation.Proofs.Rolling.Rounding
import DiceNotation.Proofs.Rolling.Runs

set_option autoImplicit false

/-!
# Which values a die can show

Every value between the bounds of a die is shown for some words, with one exception: a die with more
than `2 ^ 23` sides whose face is scaled from a fraction never shows the face that is farthest from
zero. A larger die is not scaled, and it shows all its faces again.

## Main definitions

* `Draw.ShownBy` — with a word, a die shows a value.

## Main results

* `Draw.exists_taken` — every face of a large die belongs to a word that is not passed over.
* `Draw.exists_shownBy` — a word for every value between the bounds, apart from the exception.
* `Dice.natAbs_lt_of_die` — the exception.
* `Dice.exists_roll_eq_singleton_iff` — which values a single die can show.
-/

namespace DiceNotation

namespace Draw

variable {sides n k : Nat} {faces v : Int32}

/-! ## Words for faces -/

/-- The upper 24 bits of a word are a quotient. -/
theorem toNat_shiftRight (w : UInt32) : (w >>> 8).toNat = w.toNat / 2 ^ 8 := by
  rw [UInt32.toNat_shiftRight, Nat.shiftRight_eq_div_pow]
  rfl

/-- The upper 24 bits of a word are the numerator of a fraction. -/
theorem shiftRight_lt (w : UInt32) : (w >>> 8).toNat < 2 ^ 24 := by
  have hw := w.toNat_lt
  rw [toNat_shiftRight]
  omega

/-- Every fraction belongs to a word. -/
theorem exists_shiftRight_eq (hk : k < 2 ^ 24) : ∃ w : UInt32, (w >>> 8).toNat = k := by
  have hfits : k * 2 ^ 8 < UInt32.size := by
    simp only [UInt32.size]
    omega
  refine ⟨UInt32.ofNat (k * 2 ^ 8), ?_⟩
  rw [toNat_shiftRight, UInt32.toNat_ofNat_of_lt' hfits, Nat.mul_div_cancel _ (by decide)]

/-- The zone is no smaller than the largest face. -/
theorem le_zone (sides : Nat) : sides - 1 ≤ zone sides := by
  have hle : sides * 1 ≤ sides * 2 ^ (31 - Nat.log2 sides) :=
    Nat.mul_le_mul_left sides (Nat.two_pow_pos _)
  rw [zone, Nat.shiftLeft_eq]
  omega

/-- Every face of a large die belongs to a word that is not passed over.

**Proof sketch.** Take the first word whose product reaches the face. The lower half of the product is
then smaller than the number of sides, so it lies in the zone. -/
theorem exists_taken (hsides : sides ≤ 2 ^ 31) (hn : n < sides) :
    ∃ w : UInt32, Taken sides w ∧ w.toNat * sides / UInt32.size = n := by
  have hdiv := Nat.div_add_mod (n * 2 ^ 32 + (sides - 1)) sides
  have hmod := Nat.mod_lt (n * 2 ^ 32 + (sides - 1)) (Nat.zero_lt_of_lt hn)
  set word := (n * 2 ^ 32 + (sides - 1)) / sides
  rw [Nat.mul_comm sides word] at hdiv
  have hfits : word < 2 ^ 32 := by
    by_contra hge
    have hmul := Nat.mul_le_mul_right sides (Nat.not_lt.1 hge)
    omega
  have hw : (UInt32.ofNat word).toNat = word := UInt32.toNat_ofNat_of_lt' hfits
  have hzone := le_zone sides
  refine ⟨UInt32.ofNat word, ?_, ?_⟩
  · rw [Taken, hw, UInt32.size]
    omega
  · rw [hw, UInt32.size]
    omega

/-! ## One die -/

/-- With the word `w`, a die with `faces` faces shows `v`, whatever source the word comes from. -/
def ShownBy (faces v : Int32) (w : UInt32) : Prop :=
  ∀ {γ : Type} [WordSource γ] (g : γ), WordSource.word g 0 = w →
    ∀ limit, die (limit + 1) faces g = some (v, WordSource.state g 1)

/-- If a face belongs to a fraction, a die whose face is scaled shows it for some word. -/
theorem exists_shownBy_of_le (hne : faces ≠ 0) (hsides : faces.toInt.natAbs ≤ 2 ^ 24)
    (hv : 0 < faces.toInt ∧ 0 ≤ v.toInt ∨ faces.toInt < 0 ∧ v.toInt ≤ 0)
    (hface : ∃ k < 2 ^ 24, scaledFace faces.toInt.natAbs k = v.toInt.natAbs) :
    ∃ w, ShownBy faces v w := by
  obtain ⟨k, hk, hface⟩ := hface
  obtain ⟨w, rfl⟩ := exists_shiftRight_eq hk
  refine ⟨w, fun g hg limit => ?_⟩
  obtain ⟨u, hu, hvalue⟩ := die_of_le (limit + 1) g hne hsides
  rw [hg, hface] at hvalue
  have heq : u.toInt = v.toInt := by split_ifs at hvalue <;> omega
  rw [hu, Int32.toInt_inj.1 heq]

/-- A large die shows every value between its bounds for some word. -/
theorem exists_shownBy_of_gt (hsides : 2 ^ 24 < faces.toInt.natAbs)
    (hv : 0 < faces.toInt ∧ 1 ≤ v.toInt ∧ v.toInt ≤ faces.toInt ∨
      faces.toInt < 0 ∧ faces.toInt ≤ v.toInt ∧ v.toInt ≤ -1) :
    ∃ w, ShownBy faces v w := by
  have hrange := toInt_range faces
  obtain ⟨n, hn, hvalue⟩ : ∃ n < faces.toInt.natAbs,
      v.toInt = (if 0 < faces.toInt then 1 else faces.toInt) + (n : Int) := by
    refine ⟨(v.toInt - if 0 < faces.toInt then 1 else faces.toInt).toNat, ?_, ?_⟩ <;>
      split_ifs <;> omega
  obtain ⟨w, htaken, hface⟩ := exists_taken (by omega) hn
  refine ⟨w, fun g hg limit => (die_eq_some_of_gt hsides).2 ⟨n, ?_, hvalue⟩⟩
  rw [wideFace_succ_of_taken (by rwa [hg]), hg, hface]

/-- A die shows every value between its bounds for some word, but for the value farthest from zero if
the face is scaled and there are more than `2 ^ 23` sides. -/
theorem exists_shownBy (hne : faces ≠ 0)
    (hv : 0 < faces.toInt ∧ 1 ≤ v.toInt ∧ v.toInt ≤ faces.toInt ∨
      faces.toInt < 0 ∧ faces.toInt ≤ v.toInt ∧ v.toInt ≤ -1)
    (hshown : faces.toInt.natAbs ≤ 2 ^ 23 ∨ 2 ^ 24 < faces.toInt.natAbs ∨
      v.toInt.natAbs < faces.toInt.natAbs) : ∃ w, ShownBy faces v w := by
  by_cases hsides : faces.toInt.natAbs ≤ 2 ^ 24
  · refine exists_shownBy_of_le hne hsides (by omega) ?_
    by_cases hlt : v.toInt.natAbs < faces.toInt.natAbs
    · exact exists_scaledFace_eq_of_lt hsides (by omega) hlt
    · have heq : v.toInt.natAbs = faces.toInt.natAbs := by omega
      rw [heq]
      exact ⟨2 ^ 24 - 1, by decide, scaledFace_eq_sides (by omega) (by omega)⟩
  · exact exists_shownBy_of_gt (Nat.not_le.1 hsides) hv

end Draw

/-! ## A single die -/

namespace Dice

variable {γ : Type} [WordSource γ] {g g' : γ} {limit : Nat} {faces v : Int32}

/-- A die with more than `2 ^ 23` sides whose face is scaled never shows the value farthest from
zero. -/
theorem natAbs_lt_of_die (hmin : 2 ^ 23 < faces.toInt.natAbs) (hmax : faces.toInt.natAbs ≤ 2 ^ 24)
    (h : Draw.die limit faces g = some (v, g')) : v.toInt.natAbs < faces.toInt.natAbs := by
  have hne : faces ≠ 0 := by
    rintro rfl
    exact absurd hmin (by decide)
  obtain ⟨u, hu, hvalue⟩ := Draw.die_of_le limit g hne hmax
  obtain ⟨rfl, -⟩ := Prod.mk.inj (Option.some.inj (h.symm.trans hu))
  have hlt := Draw.scaledFace_lt hmin hmax (Draw.shiftRight_lt (WordSource.word g 0))
  split_ifs at hvalue <;> omega

/-- A single die shows what one die shows. -/
theorem roll_eq_singleton :
    (⟨1, faces, .none⟩ : Dice).roll limit g = some ([v], g') ↔
      Draw.die limit faces g = some (v, g') := by
  rw [roll_of_not_explodes rfl]
  show Draw.dice limit faces 1 g = _ ↔ _
  rw [Draw.dice, Rolling.bind_eq_some]
  constructor
  · rintro ⟨u, g₁, hu, hrest⟩
    obtain ⟨us, g₂, hus, hcons⟩ := Rolling.bind_eq_some.1 hrest
    obtain ⟨rfl, rfl⟩ := Rolling.pure_eq_some.1 hus
    obtain ⟨hsame, rfl⟩ := Rolling.pure_eq_some.1 hcons
    obtain ⟨rfl, -⟩ := List.cons.inj hsame
    exact hu
  · intro h
    exact ⟨v, g', h, rfl⟩

/-- **Every face can come up, but for the farthest one of some dice.** A value between the bounds of a
die is shown for some words, unless the die has more than `2 ^ 23` and no more than `2 ^ 24` sides and
the value is the one farthest from zero. That value is never shown.

**Proof sketch.** Up to `2 ^ 24` sides, faces are scaled fractions, and all of them but the highest one
of more than `2 ^ 23` sides belong to a fraction. Beyond that, each face belongs to a word that is not
passed over. -/
theorem exists_roll_eq_singleton_iff (hne : faces ≠ 0)
    (hv : (⟨1, faces, .none⟩ : Dice).lower ≤ v ∧ v ≤ (⟨1, faces, .none⟩ : Dice).upper) :
    (∃ words limit g', (⟨1, faces, .none⟩ : Dice).roll limit (ScriptedWords.ofList words) =
        some ([v], g')) ↔
      ¬ (2 ^ 23 < faces.toInt.natAbs ∧ faces.toInt.natAbs ≤ 2 ^ 24 ∧
        v.toInt.natAbs = faces.toInt.natAbs) := by
  simp only [roll_eq_singleton]
  constructor
  · rintro ⟨words, limit, g', h⟩ ⟨hmin, hmax, hfarthest⟩
    exact Nat.ne_of_lt (natAbs_lt_of_die hmin hmax h) hfarthest
  · intro hshown
    rw [bounds_iff] at hv
    have hv' : 0 < faces.toInt ∧ 1 ≤ v.toInt ∧ v.toInt ≤ faces.toInt ∨
        faces.toInt < 0 ∧ faces.toInt ≤ v.toInt ∧ v.toInt ≤ -1 := by
      rcases hv with hv | hv | hv
      · exact Or.inl hv
      · exact Or.inr hv
      · exact absurd hv.1 hne
    obtain ⟨w, hw⟩ := Draw.exists_shownBy hne hv' (by omega)
    exact ⟨[w], 1, _, hw (ScriptedWords.ofList [w]) rfl 0⟩

/-- The value farthest from zero that is shown, and the one that is not: a die with `2 ^ 23` sides
shows its lowest value, and a die with one more side does not. -/
theorem exists_roll_eq_singleton_iff_sample :
    (∃ words limit g', (⟨1, -8388608, .none⟩ : Dice).roll limit (ScriptedWords.ofList words) =
      some ([-8388608], g')) ∧
    ¬ ∃ words limit g', (⟨1, -8388609, .none⟩ : Dice).roll limit (ScriptedWords.ofList words) =
      some ([-8388609], g') := by
  constructor
  · exact (exists_roll_eq_singleton_iff (by decide) (by decide)).2 (by decide)
  · exact fun h => (exists_roll_eq_singleton_iff (by decide) (by decide)).1 h (by decide)

/-- The highest value of a die with `2 ^ 24` sides lies between its bounds, but no words make the die
show it. -/
theorem not_exists_roll_eq_highest :
    ((⟨1, 16777216, .none⟩ : Dice).lower ≤ 16777216 ∧
      16777216 ≤ (⟨1, 16777216, .none⟩ : Dice).upper) ∧
    ¬ ∃ words limit g', (⟨1, 16777216, .none⟩ : Dice).roll limit (ScriptedWords.ofList words) =
      some ([16777216], g') := by
  refine ⟨by decide, ?_⟩
  rintro ⟨words, limit, g', h⟩
  exact absurd (natAbs_lt_of_die (by decide) (by decide) (roll_eq_singleton.1 h)) (by decide)

end Dice

end DiceNotation
