import DiceNotation.Proofs.Rolling.Runs
import DiceNotation.Evaluation

set_option autoImplicit false

/-!
# The order of rolls

All dice of an evaluation are drawn from one source, and the order is the one in which the dice terms
are read: expression by expression, and in each of them from left to right. Nothing else takes a
word. So an evaluation is determined by the dice terms read one after the other, wherever they stand,
and evaluating two lists one after the other is evaluating them as one list.

## Main definitions

* `Expression.leaves`, `Rolls.leaves` — what is written between the operators, from left to right.
* `Rolls.diceTerms` — the dice terms among them.
* `Dice.Threaded` — dice terms that are rolled one after the other.
* `Outcome.termRolls` — what the dice terms of an outcome showed.
* `onTable` — the dice on the table, where the dice terms showed given rolls.

## Main results

* `Dice.threaded_append` — two lists of dice terms are rolled as one.
* `Expression.threaded_of_result` — what one expression draws, and what its outcome shows.
* `Rolls.evaluate_append` — two lists are evaluated one after the other.
* `Rolls.results_threaded` — what a list of expressions draws, and what its outcomes show.
-/

namespace DiceNotation

/-! ## Reading expressions from left to right -/

/-- What is written between the operators, from left to right. -/
def Expression.leaves : Expression → List Expression
  | operation _ lhs rhs => lhs.leaves ++ rhs.leaves
  | e => [e]

/-- The dice of a dice term. -/
def Expression.dice? : Expression → Option Dice
  | dice d => some d
  | _ => none

/-- What is written between the operators of expressions, one expression after the other. -/
def Rolls.leaves (rolls : Rolls) : List Expression :=
  rolls.flatMap Expression.leaves

/-- The dice terms of an expression, from left to right. -/
def Expression.diceTerms (e : Expression) : List Dice :=
  e.leaves.filterMap Expression.dice?

/-- The dice terms of expressions, one expression after the other. -/
def Rolls.diceTerms (rolls : Rolls) : List Dice :=
  rolls.leaves.filterMap Expression.dice?

/-- The values of the dice on the table for leaves whose dice terms showed `rs`: the rolls of each dice
term, and the value of each die that lay on the table before. -/
def onTable : List Expression → List (List Int32) → List Int32
  | .dice _ :: es, vs :: rs => vs ++ onTable es rs
  | .die _ value :: es, rs => value :: onTable es rs
  | _ :: es, rs => onTable es rs
  | [], _ => []

@[simp] theorem Expression.diceTerms_constant (value : Int32) : (constant value).diceTerms = [] :=
  rfl

@[simp] theorem Expression.diceTerms_die (faces value : Int32) : (die faces value).diceTerms = [] :=
  rfl

@[simp] theorem Expression.diceTerms_dice (d : Dice) : (dice d).diceTerms = [d] :=
  rfl

@[simp] theorem Expression.diceTerms_operation (op : Operator) (lhs rhs : Expression) :
    (operation op lhs rhs).diceTerms = lhs.diceTerms ++ rhs.diceTerms :=
  List.filterMap_append

@[simp] theorem Rolls.leaves_cons (e : Expression) (es : Rolls) :
    Rolls.leaves (e :: es) = e.leaves ++ es.leaves :=
  rfl

@[simp] theorem Rolls.diceTerms_cons (e : Expression) (es : Rolls) :
    Rolls.diceTerms (e :: es) = e.diceTerms ++ es.diceTerms :=
  List.filterMap_append

/-- The dice on the table for two lists of leaves. -/
theorem onTable_append {es fs : List Expression} {rs ss : List (List Int32)}
    (h : rs.length = (es.filterMap Expression.dice?).length) :
    onTable (es ++ fs) (rs ++ ss) = onTable es rs ++ onTable fs ss := by
  induction es generalizing rs with
  | nil =>
    obtain rfl : rs = [] := List.length_eq_zero_iff.1 h
    rfl
  | cons e es ih =>
    cases e with
    | dice d =>
      cases rs with
      | nil => simp [Expression.dice?] at h
      | cons vs rs =>
        have hlen : rs.length = (es.filterMap Expression.dice?).length := by
          simpa [Expression.dice?] using h
        simp only [List.cons_append, onTable, ih hlen, List.append_assoc]
    | die faces value => simp only [List.cons_append, onTable, ih h]
    | constant value | operation op lhs rhs => simp only [List.cons_append, onTable, ih h]

/-! ## Dice terms one after the other -/

/-- The dice terms are rolled one after the other, and show `rs`: each of them is rolled with what the
one in front of it left of the source. -/
inductive Dice.Threaded {γ : Type} [WordSource γ] (limit : Nat) :
    List Dice → γ → List (List Int32) → γ → Prop
  | nil (g : γ) : Threaded limit [] g [] g
  | cons {d : Dice} {ds : List Dice} {g h g' : γ} {vs : List Int32} {rs : List (List Int32)}
    (hroll : d.roll limit g = some (vs, h)) (hrest : Threaded limit ds h rs g') :
    Threaded limit (d :: ds) g (vs :: rs) g'

namespace Dice

variable {γ : Type} [WordSource γ] {limit : Nat} {ds es : List Dice} {g g' : γ}
  {rs : List (List Int32)}

/-- There are rolls for each dice term. -/
theorem Threaded.length_eq (h : Threaded limit ds g rs g') : rs.length = ds.length := by
  induction h with
  | nil => rfl
  | cons _ _ ih => rw [List.length_cons, List.length_cons, ih]

/-- Two lists of dice terms are rolled as one if the second is rolled with what the first leaves. -/
theorem threaded_append :
    Threaded limit (ds ++ es) g rs g' ↔
      ∃ rs₁ rs₂ h, rs = rs₁ ++ rs₂ ∧ Threaded limit ds g rs₁ h ∧ Threaded limit es h rs₂ g' := by
  induction ds generalizing g rs with
  | nil =>
    constructor
    · intro h
      exact ⟨[], rs, g, rfl, .nil g, h⟩
    · rintro ⟨rs₁, rs₂, h, rfl, hnil, hes⟩
      cases hnil
      exact hes
  | cons d ds ih =>
    constructor
    · intro h
      cases h with
      | cons hroll hrest =>
        obtain ⟨rs₁, rs₂, h, rfl, hds, hes⟩ := ih.1 hrest
        exact ⟨_ :: rs₁, rs₂, h, rfl, .cons hroll hds, hes⟩
    · rintro ⟨rs₁, rs₂, h, rfl, hds, hes⟩
      cases hds with
      | cons hroll hrest => exact .cons hroll (ih.2 ⟨_, rs₂, h, rfl, hrest, hes⟩)

/-- One dice term is rolled for itself. -/
theorem threaded_singleton {d : Dice} :
    Threaded limit [d] g rs g' ↔ ∃ vs, rs = [vs] ∧ d.roll limit g = some (vs, g') := by
  constructor
  · intro h
    cases h with
    | cons hroll hrest =>
      cases hrest
      exact ⟨_, rfl, hroll⟩
  · rintro ⟨vs, rfl, hroll⟩
    exact .cons hroll (.nil g')

end Dice

/-! ## What outcomes show -/

namespace Outcome

mutual

/-- What the dice terms of an outcome showed, from left to right. -/
def termRolls : Outcome → List (Dice × List Int32)
  | ⟨.dice d, _, steps⟩ => [(d, steps.map value)]
  | ⟨_, _, steps⟩ => termRollsOf steps

/-- What the dice terms of several outcomes showed. -/
def termRollsOf : List Outcome → List (Dice × List Int32)
  | [] => []
  | o :: os => o.termRolls ++ termRollsOf os

end

/-- The dice on the table for outcomes of single dice are those of their expressions. -/
theorem diceRollsOf_dice (faces : Int32) (vs : List Int32) :
    diceRollsOf (vs.map fun v => leaf (.die faces v) v) = vs := by
  induction vs with
  | nil => rfl
  | cons v vs ih => rw [List.map_cons, diceRollsOf, ih]; rfl

end Outcome

/-! ## Evaluating an expression -/

namespace Expression

variable {γ : Type} [WordSource γ] {limit : Nat} {e : Expression} {g g' : γ} {o : Outcome}

/-- Evaluating an expression rolls its dice terms one after the other. The outcome is one of this
expression, it shows these rolls at its dice terms, and they are on the table together with the dice
that lay there before.

**Proof sketch.** Induction on the expression. For an operation, the dice terms of the left operand
come first, with their rolls, and the right operand is evaluated with what the left one leaves. -/
theorem threaded_of_result (h : e.result limit g = some (o, g')) :
    ∃ rs, Dice.Threaded limit e.diceTerms g rs g' ∧ o.expression = e ∧
      o.termRolls = e.diceTerms.zip rs ∧ o.diceRolls = onTable e.leaves rs := by
  unfold result at h
  induction e generalizing g g' o with
  | constant value | die faces value =>
    obtain ⟨rfl, rfl⟩ := Rolling.pure_eq_some.1 h
    exact ⟨[], .nil g, rfl, rfl, rfl⟩
  | dice d =>
    obtain ⟨vs, g₁, hroll, hpure⟩ := Rolling.bind_eq_some.1 h
    obtain ⟨rfl, rfl⟩ := Rolling.pure_eq_some.1 hpure
    refine ⟨[vs], Dice.threaded_singleton.2 ⟨vs, rfl, hroll⟩, rfl, ?_, ?_⟩
    · simp [Dice.outcomeOf, Outcome.termRolls, Outcome.leaf, diceTerms, leaves, dice?,
        Function.comp_def]
    · have hrolls : (d.outcomeOf vs).diceRolls = vs := Outcome.diceRollsOf_dice d.faces vs
      simp [hrolls, onTable, leaves]
  | operation op lhs rhs ihl ihr =>
    obtain ⟨left, g₁, hleft, hrest⟩ := Rolling.bind_eq_some.1 h
    obtain ⟨right, g₂, hright, hpure⟩ := Rolling.bind_eq_some.1 hrest
    obtain ⟨rfl, rfl⟩ := Rolling.pure_eq_some.1 hpure
    obtain ⟨rs, hrs, -, hleftTerms, hleftRolls⟩ := ihl hleft
    obtain ⟨ss, hss, -, hrightTerms, hrightRolls⟩ := ihr hright
    refine ⟨rs ++ ss, ?_, rfl, ?_, ?_⟩
    · rw [diceTerms_operation]
      exact Dice.threaded_append.2 ⟨rs, ss, g₁, rfl, hrs, hss⟩
    · rw [diceTerms_operation, List.zip_append hrs.length_eq.symm, ← hleftTerms, ← hrightTerms]
      simp [Outcome.termRolls, Outcome.termRollsOf]
    · rw [leaves, onTable_append hrs.length_eq, ← hleftRolls, ← hrightRolls]
      simp [Outcome.diceRolls, Outcome.diceRollsOf]

/-- If the dice terms of an expression can be rolled one after the other, it can be evaluated. -/
theorem exists_result_of_threaded {rs : List (List Int32)}
    (h : Dice.Threaded limit e.diceTerms g rs g') : ∃ o, e.result limit g = some (o, g') := by
  unfold result
  induction e generalizing g g' rs with
  | constant value | die faces value =>
    cases h
    exact ⟨_, rfl⟩
  | dice d =>
    obtain ⟨vs, -, hroll⟩ := Dice.threaded_singleton.1 h
    exact ⟨_, Rolling.bind_eq_some.2 ⟨vs, g', hroll, rfl⟩⟩
  | operation op lhs rhs ihl ihr =>
    rw [diceTerms_operation] at h
    obtain ⟨rs₁, rs₂, g₁, -, hleft, hright⟩ := Dice.threaded_append.1 h
    obtain ⟨left, hleft⟩ := ihl hleft
    obtain ⟨right, hright⟩ := ihr hright
    exact ⟨_, Rolling.bind_eq_some.2 ⟨left, g₁, hleft,
      Rolling.bind_eq_some.2 ⟨right, g', hright, rfl⟩⟩⟩

/-- The outcomes of an expression that is evaluated several times, one after the other. -/
def resultRepeatedly (limit : Nat) (e : Expression) : Nat → Rolling γ (List Outcome)
  | 0 => return []
  | k + 1 => do
    let o ← e.result limit
    let os ← resultRepeatedly limit e k
    return o :: os

end Expression

/-! ## Evaluating expressions in a row -/

namespace Rolls

/-- Two lists of expressions are evaluated one after the other, whichever way dice are rolled. -/
theorem evaluate_append {m : Type → Type} [Monad m] [LawfulMonad m] (roll : Dice → m Outcome)
    (a b : Rolls) :
    evaluate roll (a ++ b) = do
      let os ← evaluate roll a
      let os' ← evaluate roll b
      return os ++ os' := by
  induction a with
  | nil => simp [evaluate]
  | cons e a ih => simp [evaluate, ih]

variable {γ : Type} [WordSource γ]

/-- The values are those of the outcomes, and the source is left in the same state. -/
theorem values_eq_map_results (limit : Nat) (rolls : Rolls) :
    (rolls.values limit : Rolling γ (List Int32)) =
      List.map Outcome.value <$> rolls.results limit := by
  unfold results
  induction rolls with
  | nil => simp [values, evaluate]
  | cons e es ih =>
    simp only [values, evaluate, ih, map_bind, bind_map_left, map_pure, List.map_cons]
    rfl

/-- Copies of an expression are evaluated as it is several times in a row. -/
theorem results_replicate (limit : Nat) (e : Expression) (k : Nat) :
    (results limit (List.replicate k e) : Rolling γ (List Outcome)) =
      e.resultRepeatedly limit k := by
  induction k with
  | zero => rfl
  | succ k ih =>
    rw [Expression.resultRepeatedly, ← ih]
    rfl

variable {limit : Nat} {rolls : Rolls} {g g' : γ}

/-- Evaluating expressions rolls their dice terms one after the other, and the outcomes show these
rolls.

**Proof sketch.** Induction on the list. The dice terms of the first expression come first, and the
others are evaluated with what it leaves. -/
theorem threaded_of_results {os : List Outcome} (h : rolls.results limit g = some (os, g')) :
    ∃ rs, Dice.Threaded limit rolls.diceTerms g rs g' ∧ os.map Outcome.expression = rolls ∧
      os.flatMap Outcome.termRolls = rolls.diceTerms.zip rs ∧
      os.flatMap Outcome.diceRolls = onTable rolls.leaves rs := by
  unfold results at h
  induction rolls generalizing g os with
  | nil =>
    obtain ⟨rfl, rfl⟩ := Rolling.pure_eq_some.1 h
    exact ⟨[], .nil g, rfl, rfl, rfl⟩
  | cons e es ih =>
    obtain ⟨o, g₁, hfirst, hrest⟩ := Rolling.bind_eq_some.1 h
    obtain ⟨os', g₂, hothers, hpure⟩ := Rolling.bind_eq_some.1 hrest
    obtain ⟨rfl, rfl⟩ := Rolling.pure_eq_some.1 hpure
    obtain ⟨rs, hrs, hexpression, hterms, hrolls⟩ := Expression.threaded_of_result hfirst
    obtain ⟨ss, hss, hexpressions, hterms', hrolls'⟩ := ih hothers
    have hlen := hrs.length_eq
    refine ⟨rs ++ ss, ?_, ?_, ?_, ?_⟩
    · rw [diceTerms_cons]
      exact Dice.threaded_append.2 ⟨rs, ss, g₁, rfl, hrs, hss⟩
    · rw [List.map_cons, hexpression, hexpressions]
    · rw [diceTerms_cons, List.zip_append hlen.symm, List.flatMap_cons, hterms, hterms']
    · rw [leaves_cons, onTable_append hlen, List.flatMap_cons, hrolls, hrolls']

/-- If the dice terms of expressions can be rolled one after the other, the expressions can be
evaluated. -/
theorem exists_results_of_threaded {rs : List (List Int32)}
    (h : Dice.Threaded limit rolls.diceTerms g rs g') :
    ∃ os, rolls.results limit g = some (os, g') := by
  unfold results
  induction rolls generalizing g rs with
  | nil =>
    cases h
    exact ⟨[], rfl⟩
  | cons e es ih =>
    rw [diceTerms_cons] at h
    obtain ⟨rs₁, rs₂, g₁, -, hfirst, hothers⟩ := Dice.threaded_append.1 h
    obtain ⟨o, ho⟩ := Expression.exists_result_of_threaded hfirst
    obtain ⟨os, hos⟩ := ih hothers
    exact ⟨o :: os, Rolling.bind_eq_some.2 ⟨o, g₁, ho,
      Rolling.bind_eq_some.2 ⟨os, g', hos, rfl⟩⟩⟩

/-- **One source, from left to right.** Expressions are evaluated exactly if their dice terms can be
rolled one after the other, in the order in which they are read and each with what the one in front of
it left of the source; nothing else takes a word. The outcomes are those of the expressions, they
show these rolls at the dice terms, and on the table are these rolls with the dice between them that
lay there before. The values alone are drawn from the source in the same way. Two lists are evaluated one
after the other, and so are copies of one expression.

**Proof sketch.** The dice terms of an expression are rolled while it is evaluated, by induction on the
expression, and those of a list by induction on the list. -/
theorem results_threaded (limit : Nat) (rolls : Rolls) (g : γ) :
    (∀ os g', rolls.results limit g = some (os, g') →
      os.map Outcome.expression = rolls ∧
        rolls.values limit g = some (os.map Outcome.value, g') ∧
        ∃ rs, Dice.Threaded limit rolls.diceTerms g rs g' ∧
          os.flatMap Outcome.termRolls = rolls.diceTerms.zip rs ∧
          os.flatMap Outcome.diceRolls = onTable rolls.leaves rs) ∧
    (∀ rs g', Dice.Threaded limit rolls.diceTerms g rs g' →
      ∃ os, rolls.results limit g = some (os, g')) ∧
    (∀ others : Rolls, (rolls ++ others).results limit g = (do
      let os ← rolls.results limit
      let os' ← others.results limit
      return os ++ os' : Rolling γ (List Outcome)) g) ∧
    ∀ e k, results limit (List.replicate k e) g = e.resultRepeatedly limit k g := by
  refine ⟨fun os g' h => ?_, fun rs g' h => exists_results_of_threaded h, fun others => ?_,
    fun e k => congrFun (results_replicate limit e k) g⟩
  · obtain ⟨rs, hrs, hexpressions, hterms, hrolls⟩ := threaded_of_results h
    refine ⟨hexpressions, ?_, rs, hrs, hterms, hrolls⟩
    rw [values_eq_map_results, ← bind_pure_comp]
    exact Rolling.bind_eq_some.2 ⟨os, g', h, rfl⟩
  · exact congrFun (evaluate_append (Dice.evaluate limit) rolls others) g

/-- Exploding dice on the left of an operation, a die on the table, and huge dice. -/
def sampleTerms : Rolls :=
  [.operation .sub (.operation .add (.dice ⟨2, 6, .explode⟩) (.die 4 3)) (.dice ⟨1, 20, .none⟩),
    .constant 7, .dice ⟨2, -2147483648, .dropLow⟩]

/-- Words for which the second die with six faces explodes. -/
def sampleWords : ScriptedWords :=
  .ofList [0, 4294967295, 2147483648]

/-- These expressions are evaluated with these words, and their dice terms are rolled in order. -/
theorem results_threaded_sample :
    ∃ os g rs, sampleTerms.results 10 sampleWords = some (os, g) ∧
      Dice.Threaded 10 sampleTerms.diceTerms sampleWords rs g ∧
      os.flatMap Outcome.termRolls = sampleTerms.diceTerms.zip rs ∧
      os.flatMap Outcome.diceRolls = onTable sampleTerms.leaves rs := by
  have hreturns : (sampleTerms.results 10 sampleWords).isSome = true := by decide +kernel
  obtain ⟨⟨os, g⟩, h⟩ := Option.isSome_iff_exists.1 hreturns
  obtain ⟨-, -, rs, hrs, hterms, hrolls⟩ :=
    (results_threaded 10 sampleTerms sampleWords).1 os g h
  exact ⟨os, g, rs, h, hrs, hterms, hrolls⟩

end Rolls

end DiceNotation
