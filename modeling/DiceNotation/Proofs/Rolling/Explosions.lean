import DiceNotation.Proofs.Rolling.Runs

set_option autoImplicit false

/-!
# Exploding dice

Exploding dice are drawn like other dice, and then further ones follow as long as the last one shows
the highest value. So their rolls are those of a longer row of dice: from the last of the dice that
were asked for on, all rolls are the highest value, but for the very last one.

## Main definitions

* `Dice.Exploded` — the rolls of some dice, with further ones behind them as long as the last one is
  the highest value.

## Main results

* `Draw.dice_add` — two rows of dice are drawn as one.
* `Draw.explosions_eq_some` — how many dice follow, and what they show.
* `Dice.lower_eq_upper_iff` — which dice show only one value.
* `Dice.roll_of_explode` — the rolls of dice that are marked as exploding.
-/

namespace DiceNotation

variable {γ : Type} [WordSource γ] {g g' : γ} {limit n : Nat}

/-! ## Further dice -/

namespace Draw

variable {faces top last : Int32} {vs : List Int32}

/-- There are as many values as dice. -/
theorem length_of_dice (h : dice limit faces n g = some (vs, g')) : vs.length = n :=
  (of_dice (P := fun _ => True) (fun _ => trivial) h).1

/-- Two rows of dice, one drawn after the other, are drawn as one. -/
theorem dice_add {m : Nat} {us : List Int32} {g₁ : γ} (hus : dice limit faces m g = some (us, g₁))
    (hvs : dice limit faces n g₁ = some (vs, g')) :
    dice limit faces (m + n) g = some (us ++ vs, g') := by
  induction m generalizing g us with
  | zero =>
    obtain ⟨rfl, rfl⟩ := Rolling.pure_eq_some.1 hus
    rwa [Nat.zero_add, List.nil_append]
  | succ m ih =>
    obtain ⟨u, g₂, hu, hrest⟩ := Rolling.bind_eq_some.1 hus
    obtain ⟨us', g₃, hus', hcons⟩ := Rolling.bind_eq_some.1 hrest
    obtain ⟨rfl, rfl⟩ := Rolling.pure_eq_some.1 hcons
    rw [Nat.succ_add]
    exact Rolling.bind_eq_some.2 ⟨u, g₂, hu, Rolling.bind_eq_some.2 ⟨_, g', ih hus', rfl⟩⟩

/-- The dice that follow a die are drawn in a row. The die and all that follow it but the last one
show the highest value, and the last one shows another value.

**Proof sketch.** Induction on the limit. If the die shows the highest value, a die follows it, and
the others follow that one. -/
theorem explosions_eq_some :
    explosions limit faces top n last g = some (vs, g') ↔
      vs.length < n ∧ dice limit faces vs.length g = some (vs, g') ∧
        ∃ v, v ≠ top ∧ last :: vs = List.replicate vs.length top ++ [v] := by
  induction n generalizing g last vs with
  | zero => simp [explosions]
  | succ n ih =>
    rw [explosions]
    by_cases hlast : last = top
    · rw [if_pos hlast, Rolling.bind_eq_some]
      constructor
      · rintro ⟨value, g₁, hvalue, hrest⟩
        obtain ⟨values, g₂, hvalues, hcons⟩ := Rolling.bind_eq_some.1 hrest
        obtain ⟨rfl, rfl⟩ := Rolling.pure_eq_some.1 hcons
        obtain ⟨hlen, hdice, v, hv, hshape⟩ := ih.1 hvalues
        refine ⟨Nat.succ_lt_succ hlen, ?_, v, hv, ?_⟩
        · exact Rolling.bind_eq_some.2 ⟨value, g₁, hvalue,
            Rolling.bind_eq_some.2 ⟨values, _, hdice, rfl⟩⟩
        · rw [List.length_cons, List.replicate_succ, List.cons_append, ← hshape, hlast]
      · rintro ⟨hlen, hdice, v, hv, hshape⟩
        cases vs with
        | nil =>
          obtain rfl : last = v := by simpa using hshape
          exact absurd hlast hv
        | cons value values =>
          obtain ⟨u, g₁, hvalue, hrest⟩ := Rolling.bind_eq_some.1 hdice
          obtain ⟨us, g₂, hvalues, hcons⟩ := Rolling.bind_eq_some.1 hrest
          obtain ⟨hsame, rfl⟩ := Rolling.pure_eq_some.1 hcons
          obtain ⟨rfl, rfl⟩ := List.cons.inj hsame
          have hfurther :=
            ih.2 ⟨Nat.lt_of_succ_lt_succ hlen, hvalues, v, hv, (List.cons.inj hshape).2⟩
          exact ⟨u, g₁, hvalue, Rolling.bind_eq_some.2 ⟨us, _, hfurther, rfl⟩⟩
    · rw [if_neg hlast, Rolling.pure_eq_some]
      constructor
      · rintro ⟨rfl, rfl⟩
        exact ⟨Nat.succ_pos n, rfl, last, hlast, rfl⟩
      · rintro ⟨-, hdice, v, -, hshape⟩
        cases vs with
        | nil => exact Rolling.pure_eq_some.1 hdice
        | cons value values => exact absurd (List.cons.inj hshape).1 hlast

end Draw

namespace Dice

/-! ## The shape of the rolls -/

/-- The rolls of `n` dice, with further ones behind them as long as the last one is `top`. -/
def Exploded (top : Int32) (n : Nat) (vs : List Int32) : Prop :=
  ∃ front k v, vs = front ++ (List.replicate k top ++ [v]) ∧ front.length + 1 = n ∧ v ≠ top

section

variable {top : Int32} {vs : List Int32} (h : Exploded top n vs)

include h

/-- The last roll is not the highest value. -/
theorem Exploded.getLast?_ne : vs.getLast? ≠ some top := by
  obtain ⟨front, k, v, rfl, -, hv⟩ := h
  simpa using hv

/-- From the last of the dice on, all rolls but the last one are the highest value. -/
theorem Exploded.getElem?_eq {i : Nat} (hi : n ≤ i + 1) (hlt : i + 1 < vs.length) :
    vs[i]? = some top := by
  obtain ⟨front, k, v, rfl, hfront, -⟩ := h
  simp only [List.length_append, List.length_replicate, List.length_singleton] at hlt
  have hrun : i - front.length < (List.replicate k top).length := by
    rw [List.length_replicate]
    omega
  rw [List.getElem?_append_right (by omega), List.getElem?_append_left hrun,
    List.getElem?_replicate_of_lt (by omega)]

/-- There are as many further rolls as highest values from the last of the dice on, before another
value comes. -/
theorem Exploded.length_eq :
    vs.length = n + ((vs.drop (n - 1)).takeWhile (· = top)).length := by
  obtain ⟨front, k, v, rfl, rfl, hv⟩ := h
  rw [Nat.add_sub_cancel, List.drop_left, List.takeWhile_append_of_pos (by simp),
    List.takeWhile_cons_of_neg (by simpa using hv)]
  simp only [List.length_append, List.length_replicate, List.length_singleton, List.append_nil]
  omega

/-- There are further rolls exactly if the last of the dice shows the highest value. -/
theorem Exploded.lt_length_iff : n < vs.length ↔ vs[n - 1]? = some top := by
  obtain ⟨front, k, v, rfl, rfl, hv⟩ := h
  rw [Nat.add_sub_cancel, List.getElem?_append_right (Nat.le_refl _), Nat.sub_self]
  cases k with
  | zero => simp [hv]
  | succ k => simp [List.replicate_succ]

end

/-! ## Dice that show only one value -/

/-- Dice without faces and with one face show only one value. -/
theorem lower_eq_upper_iff {d : Dice} : d.lower = d.upper ↔ d.faces ∈ [-1, 0, 1] := by
  have hone : (1 : Int32).toInt = 1 := rfl
  have hminus : (-1 : Int32).toInt = -1 := rfl
  have hzero : (0 : Int32).toInt = 0 := rfl
  simp only [lower, upper, List.mem_cons, List.not_mem_nil, or_false, pos_iff_toInt_pos,
    neg_iff_toInt_neg, ← Int32.toInt_inj]
  split_ifs <;> omega

/-- The highest value of dice that have faces. -/
theorem upper_eq {d : Dice} (h : d.faces ≠ 0) :
    d.upper = if 0 < d.faces then d.faces else -1 := by
  rw [ne_eq, eq_zero_iff_toInt_eq_zero] at h
  simp only [upper, pos_iff_toInt_pos, neg_iff_toInt_neg]
  split_ifs
  · omega
  · rfl
  · rfl
  · omega

/-! ## Rolling exploding dice -/

variable {d : Dice} {vs : List Int32}

/-- Dice that explode are drawn in a row. There are none if no dice were asked for, and else the
rolls go on from the last of these dice as long as the last one is the highest value. -/
theorem exploded_of_roll (hexplodes : d.explodes = true) (h : d.roll limit g = some (vs, g')) :
    Draw.dice limit d.faces vs.length g = some (vs, g') ∧
      (∃ g₁, Draw.dice limit d.faces d.number.toNat g = some (vs.take d.number.toNat, g₁)) ∧
      (vs = [] ∧ d.number.toNat = 0 ∨ Exploded d.upper d.number.toNat vs) := by
  obtain ⟨rolls, g₁, hrolls, hrest⟩ := (roll_eq_some_of_explodes hexplodes).1 h
  have hlen := Draw.length_of_dice hrolls
  rcases hrest with ⟨rfl, rfl, rfl⟩ | ⟨last, further, hlast, hfurther, rfl⟩
  · rw [← hlen] at hrolls ⊢
    exact ⟨hrolls, ⟨_, hrolls⟩, Or.inl ⟨rfl, rfl⟩⟩
  · obtain ⟨-, hdice, v, hv, hshape⟩ := Draw.explosions_eq_some.1 hfurther
    obtain ⟨front, rfl⟩ := List.getLast?_eq_some_iff.1 hlast
    refine ⟨?_, ⟨g₁, ?_⟩, Or.inr ⟨front, further.length, v, ?_, ?_, hv⟩⟩
    · rw [List.length_append, hlen]
      exact Draw.dice_add hrolls hdice
    · rwa [← hlen, List.take_left, hlen]
    · rw [← hshape, ← List.append_cons]
    · rw [← hlen, List.length_append, List.length_singleton]

/-- **Exploding dice.** The rolls of dice that are marked as exploding begin with those that the
same dice show without the mark, and altogether they are the rolls of a longer row of dice. No
further ones follow if there are no dice or if the dice show only one value, which is so for no
faces and for one. Otherwise the rolls go on from the last of the dice as long as the highest value
comes: there are further rolls exactly if that die shows the highest value, they are as many as
there are highest values in a row from that die on, and the last roll of all is another value.

**Proof sketch.** The dice are drawn in a row, and the further ones follow in the same row. From the
last of the dice on, the row consists of highest values and one other value behind them. -/
theorem roll_of_explode (hmodifier : d.modifier = .explode) (h : d.roll limit g = some (vs, g')) :
    (∃ g₁, ({ d with modifier := .none } : Dice).roll limit g =
      some (vs.take d.number.toNat, g₁)) ∧
    Draw.dice limit d.faces vs.length g = some (vs, g') ∧
    (d.number = 0 ∨ d.lower = d.upper → vs.length = d.number.toNat) ∧
    (d.lower = d.upper ↔ d.faces ∈ [-1, 0, 1]) ∧
    (d.number ≠ 0 → d.lower ≠ d.upper →
      d.upper = (if 0 < d.faces then d.faces else -1) ∧
      vs.getLast? ≠ some d.upper ∧
      (∀ i, d.number.toNat ≤ i + 1 → i + 1 < vs.length → vs[i]? = some d.upper) ∧
      (d.number.toNat < vs.length ↔ vs[d.number.toNat - 1]? = some d.upper) ∧
      vs.length = d.number.toNat +
        ((vs.drop (d.number.toNat - 1)).takeWhile (· = d.upper)).length) := by
  have hplain : (({ d with modifier := .none } : Dice).roll limit : Rolling γ (List Int32)) =
      Draw.dice limit d.faces d.number.toNat := roll_of_not_explodes rfl
  rw [hplain]
  by_cases hsame : d.lower = d.upper
  · have hnot : d.explodes = false := by simp [explodes, hsame]
    rw [roll_of_not_explodes hnot] at h
    have hlen := Draw.length_of_dice h
    refine ⟨⟨g', ?_⟩, ?_, fun _ => hlen, lower_eq_upper_iff, fun _ hne => absurd hsame hne⟩
    · rwa [← hlen, List.take_length, hlen]
    · rwa [hlen]
  · have hexplodes : d.explodes = true := by simp [explodes, hmodifier, hsame]
    obtain ⟨hrow, hfirst, hshape⟩ := exploded_of_roll hexplodes h
    refine ⟨hfirst, hrow, ?_, lower_eq_upper_iff, fun hnumber hne => ?_⟩
    · rintro (hnumber | hsame')
      · rw [hnumber] at hshape ⊢
        rcases hshape with ⟨rfl, -⟩ | ⟨_, _, _, _, hzero, _⟩
        · rfl
        · exact absurd hzero (Nat.succ_ne_zero _)
      · exact absurd hsame' hsame
    · rcases hshape with ⟨-, hzero⟩ | hshape
      · exact absurd (UInt8.toNat_inj.1 hzero) hnumber
      · have hfaces : d.faces ≠ 0 := by
          intro hzero
          exact hne (lower_eq_upper_iff.2 (by simp [hzero]))
        exact ⟨upper_eq hfaces, hshape.getLast?_ne, fun i => hshape.getElem?_eq,
          hshape.lt_length_iff, hshape.length_eq⟩

/-- Two dice with negative faces: the second one shows the highest value, two more of that follow,
and then another value. -/
theorem roll_of_explode_sample :
    (⟨2, -6, .explode⟩ : Dice).roll 10 (ScriptedWords.ofList [4294967295, 0, 1, 2, 2147483648]) =
        some ([-6, -1, -1, -1, -3], ScriptedWords.ofList []) ∧
      (∃ g, (⟨2, -6, .none⟩ : Dice).roll 10
          (ScriptedWords.ofList [4294967295, 0, 1, 2, 2147483648]) = some ([-6, -1], g)) ∧
      [-6, -1, -1, -1, -3].getLast? ≠ some (⟨2, -6, .explode⟩ : Dice).upper := by
  have hroll : (⟨2, -6, .explode⟩ : Dice).roll 10
      (ScriptedWords.ofList [4294967295, 0, 1, 2, 2147483648]) =
        some ([-6, -1, -1, -1, -3], ScriptedWords.ofList []) := by decide +kernel
  obtain ⟨hplain, -, -, -, hshape⟩ := roll_of_explode rfl hroll
  exact ⟨hroll, hplain, (hshape (by decide) (by decide)).2.1⟩

end Dice

end DiceNotation
