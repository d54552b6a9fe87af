import DiceNotation.Evaluation
import DiceNotation.Proofs.Rolling.Runs

set_option autoImplicit false

/-!
# Outcomes are derivations of their values

An outcome tells how its value came about: every node of the tree of outcomes follows from its steps
by the rule for its expression. For dice, the steps are dice on the table, each of which shows a value
between the bounds.

## Main definitions

* `Outcome.Follows` — the value and the steps of an outcome are those of its expression.
* `Outcome.Everywhere` — an outcome and all outcomes that contributed to it have a property.

## Main results

* `Dice.follows_outcomeOf` — the outcome of dice that have been rolled follows from its steps.
* `Expression.everywhere_follows` — so does every node of the outcome of an expression.
-/

namespace DiceNotation

/-! ## The rules -/

namespace Outcome

/-- The value and the steps of an outcome are those of its expression. Something with a fixed value
has no steps. Dice have a step for each die that was rolled, which is a die on the table with a value
between the bounds, and as many steps as dice unless they explode. An operation has a step for each
operand. -/
def Follows (o : Outcome) : Prop :=
  match o.expression with
  | .constant value => o.value = value ∧ o.steps = []
  | .die _ value => o.value = value ∧ o.steps = []
  | .dice d =>
    d.number.toNat ≤ o.steps.length ∧
      (d.modifier ≠ .explode → o.steps.length = d.number.toNat) ∧
      (∀ s ∈ o.steps, ∃ v, s = leaf (.die d.faces v) v ∧ d.lower ≤ v ∧ v ≤ d.upper) ∧
      o.value = d.combine (o.steps.map value)
  | .operation op lhs rhs =>
    ∃ left right, o.steps = [left, right] ∧ left.expression = lhs ∧ right.expression = rhs ∧
      o.value = op.apply left.value right.value

/-- An outcome has a property, and so has everything that contributed to it. -/
inductive Everywhere (P : Outcome → Prop) : Outcome → Prop
  | node {o : Outcome} (h : P o) (hsteps : ∀ s ∈ o.steps, Everywhere P s) : Everywhere P o

/-- An outcome without steps has a property everywhere if it has it. -/
theorem Everywhere.of_leaf {P : Outcome → Prop} {e : Expression} {v : Int32} (h : P (leaf e v)) :
    (leaf e v).Everywhere P :=
  .node h (by simp [leaf])

end Outcome

/-! ## Dice -/

namespace Dice

variable {γ : Type} [WordSource γ] {g g' : γ} {limit : Nat} {d : Dice} {vs : List Int32}

/-- The outcome of dice that have been rolled follows from its steps. -/
theorem follows_outcomeOf (h : d.roll limit g = some (vs, g')) : (d.outcomeOf vs).Follows := by
  obtain ⟨hlen, hexact, hall⟩ := of_roll h
  have hvalues : (d.outcomeOf vs).steps.map Outcome.value = vs := by
    simp [outcomeOf, Outcome.leaf, Function.comp_def]
  refine ⟨?_, fun hmodifier => ?_, fun s hs => ?_, ?_⟩
  · rwa [outcomeOf, List.length_map]
  · rw [outcomeOf, List.length_map]
    exact hexact (by simp [explodes, hmodifier])
  · obtain ⟨v, hv, rfl⟩ := List.mem_map.1 hs
    exact ⟨v, rfl, hall v hv⟩
  · rw [hvalues]
    rfl

/-- The outcome of dice has a property everywhere if it has it and all dice on the table have it. -/
theorem everywhere_outcomeOf_of_die {P : Outcome → Prop} (h : P (d.outcomeOf vs))
    (hdie : ∀ v, P (.leaf (.die d.faces v) v)) : (d.outcomeOf vs).Everywhere P := by
  refine .node h fun s hs => ?_
  obtain ⟨v, -, rfl⟩ := List.mem_map.1 hs
  exact .of_leaf (hdie v)

/-- Everything in the outcome of dice that have been rolled follows from its steps. -/
theorem everywhere_outcomeOf (h : d.roll limit g = some (vs, g')) :
    (d.outcomeOf vs).Everywhere Outcome.Follows :=
  everywhere_outcomeOf_of_die (follows_outcomeOf h) fun _ => ⟨rfl, rfl⟩

end Dice

/-! ## Expressions -/

namespace Expression

/-- **Outcomes are derivations of their values.** Whenever an expression is evaluated, its outcome is
one of this expression, and every node of the outcome follows from its steps.

**Proof sketch.** Induction on the expression. The outcomes of the operands of an operation are
outcomes of these operands, and what comes of them is the outcome of the operation. -/
theorem everywhere_follows {γ : Type} [WordSource γ] {limit : Nat} {e : Expression} {g g' : γ}
    {o : Outcome} (h : e.result limit g = some (o, g')) :
    o.expression = e ∧ o.Everywhere Outcome.Follows := by
  unfold result at h
  induction e generalizing g g' o with
  | constant value | die faces value =>
    obtain ⟨rfl, -⟩ := Rolling.pure_eq_some.1 h
    exact ⟨rfl, .of_leaf ⟨rfl, rfl⟩⟩
  | dice d =>
    obtain ⟨vs, g₁, hroll, hpure⟩ := Rolling.bind_eq_some.1 h
    obtain ⟨rfl, -⟩ := Rolling.pure_eq_some.1 hpure
    exact ⟨rfl, Dice.everywhere_outcomeOf hroll⟩
  | operation op lhs rhs ihl ihr =>
    obtain ⟨left, g₁, hleft, hrest⟩ := Rolling.bind_eq_some.1 h
    obtain ⟨right, g₂, hright, hpure⟩ := Rolling.bind_eq_some.1 hrest
    obtain ⟨rfl, -⟩ := Rolling.pure_eq_some.1 hpure
    obtain ⟨rfl, hleftAll⟩ := ihl hleft
    obtain ⟨rfl, hrightAll⟩ := ihr hright
    refine ⟨rfl, .node ⟨left, right, rfl, rfl, rfl, rfl⟩ fun s hs => ?_⟩
    simp only [List.mem_cons, List.not_mem_nil, or_false] at hs
    rcases hs with rfl | rfl
    · exact hleftAll
    · exact hrightAll

/-- Exploding dice and a constant on the left, huge dice and a die on the table on the right. -/
def sample : Expression :=
  .operation .sub (.operation .add (.dice ⟨2, 6, .explode⟩) (.constant (-7)))
    (.operation .add (.dice ⟨2, -2147483648, .dropLow⟩) (.die 4 3))

/-- Words for which the second die with six faces explodes. -/
def sampleWords : ScriptedWords :=
  .ofList [0, 4294967295, 2147483648]

/-- This expression is evaluated with these words, and its outcome is a derivation. -/
theorem everywhere_follows_sample :
    ∃ o g, sample.result 10 sampleWords = some (o, g) ∧ o.expression = sample ∧
      o.Everywhere Outcome.Follows := by
  have hreturns : (sample.result 10 sampleWords).isSome = true := by decide +kernel
  obtain ⟨⟨o, g⟩, h⟩ := Option.isSome_iff_exists.1 hreturns
  exact ⟨o, g, h, everywhere_follows h⟩

end Expression

end DiceNotation
