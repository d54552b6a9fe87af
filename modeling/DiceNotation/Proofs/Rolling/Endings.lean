import DiceNotation.Proofs.Rolling.Explosions
import DiceNotation.Proofs.Rolling.Limits
import DiceNotation.Proofs.Rolling.Reachable

set_option autoImplicit false

/-!
# Rolling comes to an end

Two things can go on for long: a large die passes over words, and exploding dice show their highest
value again and again. Both end if the source yields every word again and again. Whatever a die has
passed over before, some words make it show a value other than its highest one, unless it has only
one value. When such a word comes up, it is the next word of some die, so that die is the last one
to be drawn.

## Main definitions

* `WordSource.Recurrent` — every word is met again and again.
* `Rolling.Ends` — a computation ends, whatever its limit is, as long as the limit is high enough.

## Main results

* `ScriptedWords.recurrent` — given words with the multiples of an odd step behind them meet every
  word again and again.
* `Draw.shown_or_passed` — a word makes a die show a value, or the die passes over it.
* `Draw.explosions_ends` — exploding dice come to an end.
* `rolling_ends` — so do all dice and all expressions.
-/

namespace DiceNotation

/-! ## Sources that meet every word -/

namespace WordSource

variable {γ : Type} [WordSource γ] {g : γ}

/-- The state behind some words and further words. -/
theorem state_state (g : γ) (m n : Nat) : state (state g m) n = state g (m + n) := by
  induction m generalizing g with
  | zero => rw [Nat.zero_add]; rfl
  | succ m ih => rw [Nat.succ_add]; exact ih _

/-- The words behind some words. -/
theorem word_state (g : γ) (m n : Nat) : word (state g m) n = word g (m + n) := by
  rw [word, state_state]
  rfl

/-- Every word is met again and again. -/
def Recurrent (g : γ) : Prop :=
  ∀ w n, ∃ i, n ≤ i ∧ word g i = w

/-- What is met again and again is met behind any words. -/
theorem Recurrent.state (h : Recurrent g) (n : Nat) : Recurrent (WordSource.state g n) := by
  intro w m
  obtain ⟨i, hi, hw⟩ := h w (n + m)
  refine ⟨i - n, by omega, ?_⟩
  rw [word_state, ← hw]
  congr 1
  omega

/-- What is met again and again behind some words is met again and again. -/
theorem recurrent_of_state {n : Nat} (h : Recurrent (WordSource.state g n)) : Recurrent g := by
  intro w m
  obtain ⟨i, hi, hw⟩ := h w m
  exact ⟨n + i, by omega, by rw [← hw, word_state]⟩

end WordSource

namespace ScriptedWords

open WordSource (state word Recurrent)

/-- The number that the step is multiplied with to give one. -/
def stepInverse : UInt32 :=
  0x144CBC89

/-- Behind the given words are multiples of the step. -/
theorem word_multiple (m : UInt32) (k : Nat) :
    word (⟨[], m⟩ : ScriptedWords) k = m + UInt32.ofNat (k + 1) * step := by
  induction k generalizing m with
  | zero =>
    have hfirst : word (⟨[], m⟩ : ScriptedWords) 0 = m + step := rfl
    rw [hfirst, show UInt32.ofNat (0 + 1) = 1 from rfl, UInt32.one_mul]
  | succ k ih =>
    have hnext : state (⟨[], m⟩ : ScriptedWords) 1 = ⟨[], m + step⟩ := rfl
    have hmultiple : UInt32.ofNat (k + 1 + 1) * step = step + UInt32.ofNat (k + 1) * step := by
      rw [UInt32.ofNat_add (k + 1) 1]
      grind
    rw [hmultiple, Nat.add_comm k 1, ← WordSource.word_state, hnext, ih, Nat.add_comm 1 k,
      UInt32.add_assoc]

/-- A word is the same for numbers of the same remainder. -/
theorem ofNat_toNat_add (a : UInt32) (n : Nat) : UInt32.ofNat (a.toNat + 2 ^ 32 * n) = a := by
  have hlt := a.toNat_lt
  rw [← UInt32.toNat_inj, UInt32.toNat_ofNat']
  omega

/-- The multiples of the step meet every word again and again.

**Proof sketch.** The step is odd, so every word is a multiple of it. How often the step is taken
counts modulo `2 ^ 32` only, so it can be taken any number of times more. -/
theorem recurrent_multiple (m : UInt32) : Recurrent (⟨[], m⟩ : ScriptedWords) := by
  intro w n
  have hinverse : step * stepInverse = 1 := by decide
  refine ⟨(stepInverse * (w - m)).toNat + 2 ^ 32 * (n + 1) - 1, by omega, ?_⟩
  rw [word_multiple, Nat.sub_add_cancel (by omega), ofNat_toNat_add]
  grind

/-- Behind the given words are the multiples from the last one on. -/
theorem state_length (s : ScriptedWords) : state s s.given.length = ⟨[], s.multiple⟩ := by
  obtain ⟨given, m⟩ := s
  induction given with
  | nil => rfl
  | cons w ws ih => exact ih

/-- Given words with the multiples of the step behind them meet every word again and again. -/
theorem recurrent (s : ScriptedWords) : Recurrent s :=
  WordSource.recurrent_of_state (n := s.given.length)
    (by rw [state_length]; exact recurrent_multiple _)

end ScriptedWords

open WordSource (Recurrent)

variable {γ : Type} [WordSource γ] {g : γ}

/-! ## Computations that end -/

namespace Rolling

variable {α β : Type}

/-- From some limit on, the computation yields one value and has taken one number of words. -/
def Ends (x : Nat → Rolling γ α) (g : γ) : Prop :=
  ∃ a n least, ∀ limit, least ≤ limit → x limit g = some (a, WordSource.state g n)

/-- A computation that takes no word ends. -/
theorem ends_pure (a : α) : Ends (fun _ => pure a) g :=
  ⟨a, 0, 0, fun _ _ => rfl⟩

/-- Two computations end one after the other if the second one ends behind any words. -/
theorem Ends.bind {x : Nat → Rolling γ α} {f : Nat → α → Rolling γ β} (hx : Ends x g)
    (hf : ∀ a n, Ends (fun limit => f limit a) (WordSource.state g n)) :
    Ends (fun limit => x limit >>= f limit) g := by
  obtain ⟨a, n, least, ha⟩ := hx
  obtain ⟨b, m, least', hb⟩ := hf a n
  refine ⟨b, n + m, max least least', fun limit hlimit => ?_⟩
  rw [← WordSource.state_state]
  exact bind_eq_some.2 ⟨a, _, ha limit (by omega), hb limit (by omega)⟩

end Rolling

open Rolling (Ends)

namespace Draw

variable {faces v : Int32} {w : UInt32} {i : Nat}

/-! ## One die -/

/-- Every word makes a die whose face is scaled show a value. -/
theorem exists_shownBy_scaled (hne : faces ≠ 0) (hsides : faces.toInt.natAbs ≤ maxScaledSides)
    (w : UInt32) : ∃ v, ShownBy faces v w := by
  let face : Int := scaledFace faces.toInt.natAbs (w >>> 8).toNat
  refine ⟨Int32.ofInt (if 0 < faces.toInt then face else -face), fun g hg limit => ?_⟩
  obtain ⟨u, hu, hvalue⟩ := die_of_le (limit + 1) g hne hsides
  rw [hg] at hvalue
  rw [hu, ← hvalue, Int32.ofInt_toInt]

/-- A word that is not passed over makes a large die show a value. -/
theorem exists_shownBy_of_taken (hsides : maxScaledSides < faces.toInt.natAbs)
    (h : Taken faces.toInt.natAbs w) : ∃ v, ShownBy faces v w := by
  have hrange := toInt_range faces
  obtain ⟨n, hn⟩ : ∃ n, w.toNat * faces.toInt.natAbs / UInt32.size = n := ⟨_, rfl⟩
  have hlt : n < faces.toInt.natAbs := by
    rw [← hn, Nat.div_lt_iff_lt_mul (by decide), Nat.mul_comm]
    exact Nat.mul_lt_mul_of_pos_left (UInt32.toNat_lt_size _) (Nat.zero_lt_of_lt hsides)
  let value : Int := (if 0 < faces.toInt then 1 else faces.toInt) + n
  have hvalue : (Int32.ofInt value).toInt = value := by
    apply Int32.toInt_ofInt_of_le <;> simp only [value] <;> split_ifs <;> omega
  refine ⟨Int32.ofInt value, fun g hg limit => (die_eq_some_of_gt hsides).2 ⟨n, ?_, hvalue⟩⟩
  rw [wideFace_succ_of_taken (by rwa [hg]), hg, hn]

/-- If the first word is passed over, a large die is drawn from what is behind it. -/
theorem die_succ_of_not_taken {limit : Nat} (hsides : maxScaledSides < faces.toInt.natAbs)
    (h : ¬ Taken faces.toInt.natAbs (WordSource.word g 0)) :
    die (limit + 1) faces g = die limit faces (WordSource.state g 1) := by
  refine Option.ext fun r => ?_
  obtain ⟨v, g'⟩ := r
  rw [die_eq_some_of_gt hsides, die_eq_some_of_gt hsides, wideFace_succ_of_not_taken h]

/-- A word makes a die with faces show a value, or the die passes over it. -/
theorem shown_or_passed (hne : faces ≠ 0) (w : UInt32) :
    (∃ v, ShownBy faces v w) ∨ ∀ {γ : Type} [WordSource γ] (g : γ), WordSource.word g 0 = w →
      ∀ limit, die (limit + 1) faces g = die limit faces (WordSource.state g 1) := by
  by_cases hsides : faces.toInt.natAbs ≤ maxScaledSides
  · exact Or.inl (exists_shownBy_scaled hne hsides w)
  · by_cases htaken : Taken faces.toInt.natAbs w
    · exact Or.inl (exists_shownBy_of_taken (Nat.not_le.1 hsides) htaken)
    · exact Or.inr fun g hg limit => die_succ_of_not_taken (Nat.not_le.1 hsides) (by rwa [hg])

/-- If a word makes a die show a value, a die with faces takes words up to this word at most. If it
takes this word, it shows this value.

**Proof sketch.** Induction on the words in front of the word. The first of them makes the die show
a value, or it is passed over. -/
theorem exists_die_of_shownBy (hne : faces ≠ 0) (hshown : ShownBy faces v w)
    (hw : WordSource.word g i = w) :
    ∃ k ≤ i, ∃ u least,
      (∀ limit, least ≤ limit → die limit faces g = some (u, WordSource.state g (k + 1))) ∧
        (k = i → u = v) := by
  induction i generalizing g with
  | zero =>
    refine ⟨0, Nat.le_refl _, v, 1, fun limit hlimit => ?_, fun _ => rfl⟩
    obtain ⟨m, rfl⟩ : ∃ m, limit = m + 1 := ⟨limit - 1, by omega⟩
    exact hshown g hw m
  | succ i ih =>
    rcases shown_or_passed hne (WordSource.word g 0) with ⟨u, hu⟩ | hpassed
    · refine ⟨0, Nat.zero_le _, u, 1, fun limit hlimit => ?_, fun hzero => by omega⟩
      obtain ⟨m, rfl⟩ : ∃ m, limit = m + 1 := ⟨limit - 1, by omega⟩
      exact hu g rfl m
    · obtain ⟨k, hk, u, least, hdie, hlast⟩ := ih (g := WordSource.state g 1) hw
      refine ⟨k + 1, by omega, u, least + 1, fun limit hlimit => ?_, fun heq => hlast (by omega)⟩
      obtain ⟨m, rfl⟩ : ∃ m, limit = m + 1 := ⟨limit - 1, by omega⟩
      rw [hpassed g rfl m]
      exact hdie m (by omega)

/-- Some word makes a die with faces show the value next to zero. -/
theorem exists_shownBy_next_to_zero (hne : faces ≠ 0) :
    ∃ w, ShownBy faces (if 0 < faces then 1 else -1) w := by
  have hone : (1 : Int32).toInt = 1 := rfl
  have hminus : (-1 : Int32).toInt = -1 := rfl
  have hzero := mt eq_zero_iff_toInt_eq_zero.2 hne
  simp only [pos_iff_toInt_pos]
  refine exists_shownBy hne ?_ ?_ <;> split_ifs <;> omega

/-- If there is more than one value, some word makes a die show another value than the highest one.
-/
theorem exists_shownBy_ne_upper {d : Dice} (h : d.lower ≠ d.upper) :
    ∃ v w, v ≠ d.upper ∧ ShownBy d.faces v w := by
  have hmany := mt Dice.lower_eq_upper_iff.2 h
  simp only [List.mem_cons, List.not_mem_nil, or_false, not_or] at hmany
  obtain ⟨hminus, hne, hone⟩ := hmany
  rw [Dice.upper_eq hne]
  by_cases hpos : 0 < d.faces
  · obtain ⟨w, hw⟩ := exists_shownBy_next_to_zero hne
    rw [if_pos hpos] at hw ⊢
    exact ⟨1, w, Ne.symm hone, hw⟩
  · -- the lowest value of negative faces may be one that no word shows, but there is one above it
    have htwo : (-2 : Int32).toInt = -2 := rfl
    have hzero : d.faces.toInt ≠ 0 := mt eq_zero_iff_toInt_eq_zero.2 hne
    have hminus : d.faces.toInt ≠ -1 := fun heq => hminus (Int32.toInt_inj.1 heq)
    rw [pos_iff_toInt_pos] at hpos
    obtain ⟨w, hw⟩ : ∃ w, ShownBy d.faces (-2) w := exists_shownBy hne (by omega) (by omega)
    rw [if_neg (mt pos_iff_toInt_pos.1 hpos)]
    exact ⟨-2, w, by decide, hw⟩

/-- A die comes to an end. -/
theorem die_ends (h : Recurrent g) (faces : Int32) : Ends (fun limit => die limit faces) g := by
  by_cases hne : faces = 0
  · subst hne
    exact ⟨0, 0, 0, fun _ _ => rfl⟩
  · obtain ⟨w, hshown⟩ := exists_shownBy_next_to_zero hne
    obtain ⟨i, -, hw⟩ := h w 0
    obtain ⟨k, -, u, least, hdie, -⟩ := exists_die_of_shownBy hne hshown hw
    exact ⟨u, k + 1, least, hdie⟩

/-! ## Several dice -/

/-- Several dice come to an end. -/
theorem dice_ends (h : Recurrent g) (faces : Int32) (n : Nat) :
    Ends (fun limit => dice limit faces n) g := by
  induction n generalizing g with
  | zero => exact Rolling.ends_pure []
  | succ n ih =>
    exact (die_ends h faces).bind fun _ m => (ih (h.state m)).bind fun _ _ => Rolling.ends_pure _

/-- No dice follow a die that shows another value than the highest one. -/
theorem explosions_ends_of_ne {top last : Int32} (h : last ≠ top) :
    Ends (fun limit => explosions limit faces top limit last) g :=
  ⟨[], 0, 1, fun _ hlimit => explosions_eq_some.2 ⟨hlimit, rfl, last, h, rfl⟩⟩

/-- Exploding dice come to an end at a word that makes a die show another value than the highest
one.

**Proof sketch.** Induction on the number of words in front of this word. The next die takes this
word, and is then the last one, or it takes only words in front of it, and fewer are left for the
dice that follow. -/
theorem explosions_ends {top : Int32} (hne : faces ≠ 0) (hshown : ShownBy faces v w) (hv : v ≠ top)
    (hw : WordSource.word g i = w) (last : Int32) :
    Ends (fun limit => explosions limit faces top limit last) g := by
  induction i using Nat.strongRecOn generalizing g last with
  | _ i ih =>
    by_cases hlast : last = top
    · obtain ⟨k, hk, u, least, hdie, hend⟩ := exists_die_of_shownBy hne hshown hw
      obtain ⟨vs, n, least', hfurther⟩ :
          Ends (fun limit => explosions limit faces top limit u) (WordSource.state g (k + 1)) := by
        rcases Nat.lt_or_eq_of_le hk with hlt | heq
        · refine ih (i - (k + 1)) (by omega) ?_ u
          rw [WordSource.word_state, Nat.add_sub_cancel' hlt, hw]
        · exact explosions_ends_of_ne (hend heq ▸ hv)
      refine ⟨u :: vs, k + 1 + n, max least (least' + 1), fun limit hlimit => ?_⟩
      obtain ⟨m, rfl⟩ : ∃ m, limit = m + 1 := ⟨limit - 1, by omega⟩
      -- the dice that follow have one less than the limit, and the limit for each of them
      have hrest := explosions_refines (by omega : least' ≤ m + 1) (by omega : least' ≤ m) faces
        top u _ _ (hfurther least' (Nat.le_refl _))
      show explosions (m + 1) faces top (m + 1) last g = _
      rw [explosions, if_pos hlast, ← WordSource.state_state]
      exact Rolling.bind_eq_some.2 ⟨u, _, hdie (m + 1) (by omega),
        Rolling.bind_eq_some.2 ⟨vs, _, hrest, rfl⟩⟩
    · exact explosions_ends_of_ne hlast

end Draw

/-! ## Dice and expressions -/

/-- Dice come to an end. -/
theorem Dice.roll_ends (h : Recurrent g) (d : Dice) : Ends (fun limit => d.roll limit) g := by
  refine (Draw.dice_ends h d.faces d.number.toNat).bind fun rolls n => ?_
  cases rolls.getLast? with
  | none => exact Rolling.ends_pure rolls
  | some last =>
    cases hexplodes : d.explodes with
    | false => exact Rolling.ends_pure rolls
    | true =>
      obtain ⟨-, hbounds⟩ : d.modifier = .explode ∧ d.lower ≠ d.upper := by
        simpa [explodes] using hexplodes
      have hne : d.faces ≠ 0 := fun hzero => hbounds (lower_eq_upper_iff.2 (by simp [hzero]))
      obtain ⟨v, w, hv, hshown⟩ := Draw.exists_shownBy_ne_upper hbounds
      obtain ⟨i, -, hw⟩ := h.state n w 0
      exact (Draw.explosions_ends hne hshown hv hw last).bind fun _ _ => Rolling.ends_pure _

/-- Evaluating an expression comes to an end. -/
theorem Expression.result_ends (h : Recurrent g) (e : Expression) :
    Ends (fun limit => e.result limit) g := by
  unfold result
  induction e generalizing g with
  | constant value | die faces value => exact Rolling.ends_pure _
  | dice d => exact (d.roll_ends h).bind fun _ _ => Rolling.ends_pure _
  | operation op lhs rhs ihl ihr =>
    exact (ihl h).bind fun _ n => (ihr (h.state n)).bind fun _ _ => Rolling.ends_pure _

/-- Evaluating expressions in a row comes to an end. -/
theorem Rolls.results_ends (h : Recurrent g) (rolls : Rolls) :
    Ends (fun limit => rolls.results limit) g := by
  unfold results
  induction rolls generalizing g with
  | nil => exact Rolling.ends_pure []
  | cons e es ih =>
    exact (e.result_ends h).bind fun _ n => (ih (h.state n)).bind fun _ _ => Rolling.ends_pure _

/-- **Rolling comes to an end.** If a source yields every word again and again, then all dice can be
rolled and all expressions can be evaluated: from some limit on, the limit is not reached, and
finitely many words have been taken. Given words with the multiples of the step behind them are such
a source.

**Proof sketch.** A die passes over words until one makes it show a value, and some word does for
every die. If a die has more than one value, some word makes it show another value than the highest
one, and exploding dice do not go past this word. -/
theorem rolling_ends :
    (∀ {γ : Type} [WordSource γ] {g : γ}, Recurrent g →
      (∀ d : Dice, Ends (fun limit => d.roll limit) g) ∧
        ∀ rolls : Rolls, Ends (fun limit => rolls.results limit) g) ∧
    ∀ s : ScriptedWords, Recurrent s :=
  ⟨fun h => ⟨fun d => d.roll_ends h, fun rolls => rolls.results_ends h⟩, ScriptedWords.recurrent⟩

/-- Exploding dice with the most faces, with one face, and with some. -/
def sampleExploding : Rolls :=
  [.operation .sub (.dice ⟨2, -2147483648, .explode⟩) (.dice ⟨255, -1, .explode⟩),
    .dice ⟨3, 20, .explode⟩]

/-- A word that a die with the most faces passes over, and words for which it shows the highest
value. -/
def sampleHighWords : ScriptedWords :=
  .ofList [4294967295, 4294967294, 4294967294]

/-- Behind these words every word comes again and again, so rolling these dice comes to an end. -/
theorem rolling_ends_sample :
    Recurrent sampleHighWords ∧
      Ends (fun limit => (⟨2, -2147483648, .explode⟩ : Dice).roll limit) sampleHighWords ∧
      Ends (fun limit => sampleExploding.results limit) sampleHighWords := by
  obtain ⟨hends, hrecurrent⟩ := rolling_ends
  have hwords := hrecurrent sampleHighWords
  exact ⟨hwords, (hends hwords).1 _, (hends hwords).2 sampleExploding⟩

end DiceNotation
