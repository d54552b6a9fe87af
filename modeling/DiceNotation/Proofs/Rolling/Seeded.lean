import DiceNotation.Proofs.Rolling.Derived
import DiceNotation.Proofs.Rolling.Order

set_option autoImplicit false

/-!
# Rolling with a seed

With a seed, each dice term is drawn from the first words of the seed. Its outcome depends on nothing
that stands around it, and the outcomes of dice terms are put together in the same way as without a
seed: evaluating an expression rolls its dice terms from left to right and then fills them into the
expression, whichever way dice are rolled.

## Main definitions

* `Expression.fill`, `Expression.assemble` — the outcome of an expression whose dice terms came to given
  outcomes.
* `Outcome.Seeded` — an outcome is the one that its expression has with a seed.

## Main results

* `Expression.evaluate_eq_mapM` — an expression is evaluated by rolling its dice terms.
* `Expression.everywhere_seeded` — everything in an outcome with a seed is what the seed gives for it.
* `Rolls.exists_resultsFor_of_perm` — expressions in another order have their outcomes in that order.
* `Rolls.resultsFor_seeded` — how expressions are evaluated with a seed.
-/

namespace DiceNotation

/-- A function of what is yielded leaves the source as it is. -/
theorem Rolling.map_apply {γ α β : Type} (f : α → β) (x : Rolling γ α) (g : γ) :
    (f <$> x) g = (x g).map fun r => (f r.1, r.2) := by
  show (x g).bind (fun r => some (f r.1, r.2)) = _
  cases x g <;> rfl

namespace Expression

/-! ## Dice terms first -/

/-- The outcome of an expression whose dice terms came to the first ones of some outcomes, from left to
right, and the outcomes that are left. -/
def fill : Expression → List Outcome → Outcome × List Outcome
  | constant value, os => (Outcome.leaf (.constant value) value, os)
  | die faces value, os => (Outcome.leaf (.die faces value) value, os)
  | dice _, os => (os.headD default, os.tail)
  | operation op lhs rhs, os =>
    let left := lhs.fill os
    let right := rhs.fill left.2
    (⟨.operation op lhs rhs, op.apply left.1.value right.1.value, [left.1, right.1]⟩, right.2)

/-- The outcome of an expression whose dice terms came to `os`, from left to right. -/
def assemble (e : Expression) (os : List Outcome) : Outcome :=
  (e.fill os).1

variable {m : Type → Type} [Monad m] [LawfulMonad m]

/-- Rolling the dice terms of an expression and further dice, and filling in the former, is evaluating
the expression and rolling the further dice, whatever comes next.

**Proof sketch.** Induction on the expression, for any further dice. For the left operand of an operation,
these are the dice terms of the right operand and the dice behind them. -/
theorem bind_fill {β : Type} (roll : Dice → m Outcome) (e : Expression) (ds : List Dice)
    (next : Outcome × List Outcome → m β) :
    (do
      let os ← (e.diceTerms ++ ds).mapM roll
      next (e.fill os)) =
    (do
      let o ← e.evaluate roll
      let os ← ds.mapM roll
      next (o, os)) := by
  induction e generalizing ds next with
  | constant value | die faces value => simp [fill, evaluate]
  | dice d => simp [fill, evaluate]
  | operation op lhs rhs ihl ihr =>
    -- the outcome of the operation, from those of its operands
    let join (left right : Outcome) : Outcome :=
      ⟨.operation op lhs rhs, op.apply left.value right.value, [left, right]⟩
    have hleft := ihl (rhs.diceTerms ++ ds) fun p =>
      next (join p.1 (rhs.fill p.2).1, (rhs.fill p.2).2)
    have hright (left : Outcome) := ihr ds fun q => next (join left q.1, q.2)
    rw [diceTerms_operation, List.append_assoc]
    refine hleft.trans ?_
    simp only [hright, evaluate, bind_assoc, pure_bind, join]

/-- **Dice terms first.** Whichever way dice are rolled, evaluating an expression is rolling its dice terms
from left to right and putting their outcomes together. -/
theorem evaluate_eq_mapM (roll : Dice → m Outcome) (e : Expression) :
    e.evaluate roll = e.assemble <$> e.diceTerms.mapM roll := by
  have h := bind_fill roll e [] fun p => pure p.1
  simp only [List.append_nil, List.mapM_nil, pure_bind, bind_pure] at h
  rw [← bind_pure_comp]
  exact h.symm

/-- An expression with one dice term comes to what this term comes to, put into the expression. -/
theorem evaluate_of_diceTerms_eq_singleton (roll : Dice → m Outcome) {e : Expression} {d : Dice}
    (h : e.diceTerms = [d]) : e.evaluate roll = (fun o => e.assemble [o]) <$> roll d := by
  simp [evaluate_eq_mapM, h]

end Expression

/-! ## Outcomes with a seed -/

/-- The outcome follows from its steps, and it is the one that its expression has with a seed. -/
def Outcome.Seeded (limit : Nat) (seed : UInt64) (o : Outcome) : Prop :=
  o.Follows ∧ o.expression.resultSeeded limit seed = some o

namespace Expression

variable {limit : Nat} {seed : UInt64} {e : Expression} {o : Outcome}

/-- With a seed, an operation comes to what its operands come to with this seed. -/
theorem resultSeeded_operation_eq_some {op : Operator} {lhs rhs : Expression} :
    (operation op lhs rhs).resultSeeded limit seed = some o ↔
      ∃ left, lhs.resultSeeded limit seed = some left ∧
        ∃ right, rhs.resultSeeded limit seed = some right ∧
          ⟨.operation op lhs rhs, op.apply left.value right.value, [left, right]⟩ = o := by
  simp [resultSeeded, evaluate, Option.bind_eq_some_iff]

/-- With a seed, dice come to what their rolls with the words of the seed amount to. -/
theorem resultSeeded_dice_eq_some {d : Dice} :
    (dice d).resultSeeded limit seed = some o ↔
      ∃ vs g, d.roll limit (Keystream.ofSeed seed) = some (vs, g) ∧ d.outcomeOf vs = o := by
  show (d.evaluate limit).run' (Keystream.ofSeed seed) = some o ↔ _
  simp [Dice.evaluate, StateT.run', Rolling.map_apply]

/-- Everything in the outcome of an expression with a seed is what the seed gives for it.

**Proof sketch.** Induction on the expression. The steps of dice are dice on the table, which have one
outcome whatever the seed is. -/
theorem everywhere_seeded (h : e.resultSeeded limit seed = some o) :
    o.expression = e ∧ o.Everywhere (Outcome.Seeded limit seed) := by
  induction e generalizing o with
  | constant value | die faces value =>
    obtain rfl := Option.some.inj h
    exact ⟨rfl, .of_leaf ⟨⟨rfl, rfl⟩, rfl⟩⟩
  | dice d =>
    obtain ⟨vs, g, hroll, rfl⟩ := resultSeeded_dice_eq_some.1 h
    exact ⟨rfl, Dice.everywhere_outcomeOf_of_die ⟨Dice.follows_outcomeOf hroll, h⟩
      fun _ => ⟨⟨rfl, rfl⟩, rfl⟩⟩
  | operation op lhs rhs ihl ihr =>
    obtain ⟨left, hleft, right, hright, rfl⟩ := resultSeeded_operation_eq_some.1 h
    obtain ⟨hlhs, hleftAll⟩ := ihl hleft
    obtain ⟨hrhs, hrightAll⟩ := ihr hright
    refine ⟨rfl, .node ⟨⟨left, right, rfl, hlhs, hrhs, rfl⟩, h⟩ fun s hs => ?_⟩
    simp only [List.mem_cons, List.not_mem_nil, or_false] at hs
    rcases hs with rfl | rfl
    · exact hleftAll
    · exact hrightAll

/-- An expression with one dice term comes to the same as when it is drawn from the words of the seed. -/
theorem resultSeeded_of_length_diceTerms (h : e.diceTerms.length = 1) :
    e.resultSeeded limit seed = (e.result limit).run' (Keystream.ofSeed seed) := by
  obtain ⟨d, hd⟩ := List.length_eq_one_iff.1 h
  rw [resultSeeded, result, evaluate_of_diceTerms_eq_singleton _ hd,
    evaluate_of_diceTerms_eq_singleton _ hd]
  simp [seededDice, StateT.run', Rolling.map_apply, Function.comp_def]

end Expression

namespace Rolls

/-- Expressions are evaluated one after the other, whichever way dice are rolled. -/
theorem evaluate_eq_mapM {m : Type → Type} [Monad m] [LawfulMonad m] (roll : Dice → m Outcome)
    (rolls : Rolls) : rolls.evaluate roll = rolls.mapM (·.evaluate roll) := by
  induction rolls with
  | nil => simp [evaluate]
  | cons e es ih => simp [evaluate, ih]

variable {γ : Type} [WordSource γ] {limit : Nat} {seed : UInt64} {g g' : γ} {rolls : Rolls}
  {os : List Outcome}

/-- A list of computations that may yield nothing yields something if each of them does. -/
theorem mapM_eq_some {α β : Type} {f : α → Option β} {as : List α} {bs : List β} :
    as.mapM f = some bs ↔ as.map f = bs.map some := by
  induction as generalizing bs with
  | nil => cases bs <;> simp
  | cons a as ih =>
    cases bs with
    | nil => simp [Option.bind_eq_some_iff]
    | cons b bs => simp [Option.bind_eq_some_iff, ih]

/-- With a seed, the outcomes of expressions are those that the seed gives for each of them, and no word
is taken from the source. -/
theorem resultsFor_seeded_eq_some :
    rolls.resultsFor (.seeded seed) limit g = some (os, g') ↔
      rolls.map (Expression.resultSeeded limit seed) = os.map some ∧ g = g' := by
  have hresults : rolls.resultsSeeded limit seed = rolls.mapM (Expression.resultSeeded limit seed) :=
    evaluate_eq_mapM _ _
  show (rolls.resultsSeeded limit seed).map (·, g) = some (os, g') ↔ _
  rw [hresults, ← mapM_eq_some]
  simp [Option.map_eq_some_iff]

/-- With a seed, the outcomes are those of the expressions, and everything in them is what the seed gives for
it. -/
theorem everywhere_seeded (h : rolls.map (Expression.resultSeeded limit seed) = os.map some) :
    os.map Outcome.expression = rolls ∧ ∀ o ∈ os, o.Everywhere (Outcome.Seeded limit seed) := by
  induction os generalizing rolls with
  | nil => exact ⟨(List.map_eq_nil_iff.1 h).symm, by simp⟩
  | cons o os ih =>
    obtain ⟨e, es, rfl, hfirst, hothers⟩ := List.map_eq_cons_iff.1 h
    obtain ⟨hexpression, hfirstAll⟩ := Expression.everywhere_seeded hfirst
    obtain ⟨hexpressions, hothersAll⟩ := ih hothers
    exact ⟨by rw [List.map_cons, hexpression, hexpressions],
      List.forall_mem_cons.2 ⟨hfirstAll, hothersAll⟩⟩

/-- With a seed there is one outcome for each expression, which it has in every list of these
expressions. -/
theorem exists_outcomes_of_resultsFor (h : rolls.resultsFor (.seeded seed) limit g = some (os, g')) :
    ∃ outcome : Expression → Outcome, os = rolls.map outcome ∧
      ∀ others : Rolls, others ⊆ rolls →
        others.resultsFor (.seeded seed) limit g = some (others.map outcome, g') := by
  obtain ⟨hmap, rfl⟩ := resultsFor_seeded_eq_some.1 h
  have hsome : ∀ e ∈ rolls, e.resultSeeded limit seed =
      some ((e.resultSeeded limit seed).getD default) := by
    intro e he
    have hmem : e.resultSeeded limit seed ∈ os.map some := hmap ▸ List.mem_map_of_mem he
    obtain ⟨o, -, ho⟩ := List.mem_map.1 hmem
    rw [← ho, Option.getD_some]
  have hall : ∀ others : Rolls, others ⊆ rolls → others.map (Expression.resultSeeded limit seed) =
      (others.map fun e => (e.resultSeeded limit seed).getD default).map some := by
    intro others hsub
    rw [List.map_map]
    exact List.map_congr_left fun e he => hsome e (hsub he)
  refine ⟨_, ?_, fun others hsub => resultsFor_seeded_eq_some.2 ⟨hall others hsub, rfl⟩⟩
  exact (List.map_inj_right fun _ _ => Option.some.inj).1 (hmap.symm.trans (hall rolls fun _ he => he))

/-- Expressions in another order have the same outcomes in that order. -/
theorem exists_resultsFor_of_perm {others : Rolls} (hperm : others.Perm rolls)
    (h : rolls.resultsFor (.seeded seed) limit g = some (os, g')) :
    ∃ os', others.resultsFor (.seeded seed) limit g = some (os', g') ∧
      (others.zip os').Perm (rolls.zip os) := by
  obtain ⟨outcome, rfl, hall⟩ := exists_outcomes_of_resultsFor h
  refine ⟨others.map outcome, hall others hperm.subset, ?_⟩
  rw [← List.map_prod_left_eq_zip, ← List.map_prod_left_eq_zip]
  exact hperm.map _

/-- With a seed, two lists are evaluated one after the other. -/
theorem resultsFor_seeded_append (a b : Rolls) :
    ((a ++ b).resultsFor (.seeded seed) limit : Rolling γ (List Outcome)) = do
      let os ← a.resultsFor (.seeded seed) limit
      let os' ← b.resultsFor (.seeded seed) limit
      return os ++ os' := by
  have happend : (a ++ b).resultsSeeded limit seed = do
      let os ← a.resultsSeeded limit seed
      let os' ← b.resultsSeeded limit seed
      return os ++ os' :=
    evaluate_append _ a b
  funext g
  show ((a ++ b).resultsSeeded limit seed).map (·, g) = _
  rw [happend]
  show _ = ((a.resultsSeeded limit seed).map (·, g)).bind fun r =>
    ((b.resultsSeeded limit seed).map (·, r.2)).bind fun r' => some (r.1 ++ r'.1, r'.2)
  cases a.resultsSeeded limit seed <;> cases b.resultsSeeded limit seed <;> rfl

/-- **Rolling with a seed.** With a seed, the outcomes are those that each expression has for itself, and
the source stays as it is. Each dice term comes to what it comes to with the words of the seed from the
first one on, and the outcomes of the dice terms are put together as they are without a seed.

So, where the outcomes do not give up at a limit, equal expressions have equal outcomes wherever they stand
in each other or in the list, and expressions in another order have their outcomes in that order. The
outcomes of two lists in a row are those of the first, and then those of the second. An expression with one
dice term comes to the same as if it drew from one source, which is the words of the seed.

**Proof sketch.** Evaluating an expression is rolling its dice terms and filling them in, for any way to roll
dice, by induction on the expression. What is said about the places of an outcome is an induction of its
own, with the operands as the steps. -/
theorem resultsFor_seeded (limit : Nat) (seed : UInt64) :
    (∀ (rolls : Rolls) (g : γ), rolls.resultsFor (.seeded seed) limit g =
      (rolls.mapM (Expression.resultSeeded limit seed)).map (·, g)) ∧
    (∀ e : Expression,
      e.resultSeeded limit seed = e.assemble <$>
        e.diceTerms.mapM (fun d => (d.evaluate limit).run' (Keystream.ofSeed seed)) ∧
      (e.result limit : Rolling γ Outcome) = e.assemble <$> e.diceTerms.mapM (Dice.evaluate limit)) ∧
    (∀ (rolls : Rolls) (g g' : γ) (os : List Outcome),
      rolls.resultsFor (.seeded seed) limit g = some (os, g') →
        os.map Outcome.expression = rolls ∧
        (∀ o ∈ os, o.Everywhere (Outcome.Seeded limit seed)) ∧
        ∀ others : Rolls, others.Perm rolls →
          ∃ os', others.resultsFor (.seeded seed) limit g = some (os', g') ∧
            (others.zip os').Perm (rolls.zip os)) ∧
    (∀ a b : Rolls, ((a ++ b).resultsFor (.seeded seed) limit : Rolling γ (List Outcome)) = do
      let os ← a.resultsFor (.seeded seed) limit
      let os' ← b.resultsFor (.seeded seed) limit
      return os ++ os') ∧
    ∀ e : Expression, e.diceTerms.length = 1 →
      e.resultSeeded limit seed = (e.result limit).run' (Keystream.ofSeed seed) := by
  refine ⟨fun rolls g => ?_, fun e => ⟨?_, ?_⟩, fun rolls g g' os h => ?_,
    resultsFor_seeded_append, fun e => Expression.resultSeeded_of_length_diceTerms⟩
  · show (rolls.resultsSeeded limit seed).map (·, g) = _
    rw [resultsSeeded, evaluate_eq_mapM]
    rfl
  · exact e.evaluate_eq_mapM _
  · exact e.evaluate_eq_mapM _
  · obtain ⟨hexpressions, hall⟩ := everywhere_seeded (resultsFor_seeded_eq_some.1 h).1
    exact ⟨hexpressions, hall, fun others hperm => exists_resultsFor_of_perm hperm h⟩

/-- The same exploding dice as an operand and for themselves. -/
def sampleRepeated : Rolls :=
  [.operation .sub (.dice ⟨2, 6, .explode⟩) (.dice ⟨1, 20, .none⟩), .dice ⟨2, 6, .explode⟩]

/-- These expressions are evaluated with a seed, and in reverse order; and a term with a constant behind it
draws from the words of the seed. -/
theorem resultsFor_seeded_sample :
    (∃ os os' g, sampleRepeated.resultsFor (.seeded 1) 10 sampleWords = some (os, g) ∧
      (∀ o ∈ os, o.Everywhere (Outcome.Seeded 10 1)) ∧
      resultsFor (.seeded 1) 10 sampleRepeated.reverse sampleWords = some (os', g) ∧
      (sampleRepeated.reverse.zip os').Perm (sampleRepeated.zip os)) ∧
    (Expression.operation .add (.dice ⟨2, 6, .explode⟩) (.constant 3)).resultSeeded 10 1 =
      ((Expression.operation .add (.dice ⟨2, 6, .explode⟩) (.constant 3)).result 10).run'
        (Keystream.ofSeed 1) := by
  have hreturns : (sampleRepeated.resultsFor (.seeded 1) 10 sampleWords).isSome = true := by
    decide +kernel
  obtain ⟨⟨os, g⟩, h⟩ := Option.isSome_iff_exists.1 hreturns
  obtain ⟨-, -, hlists, -, hone⟩ := @resultsFor_seeded ScriptedWords _ 10 1
  obtain ⟨-, hall, horder⟩ := hlists sampleRepeated sampleWords g os h
  obtain ⟨os', h', hperm⟩ := horder _ (List.reverse_perm sampleRepeated)
  exact ⟨⟨os, os', g, h, hall, h', hperm⟩, hone _ rfl⟩

end Rolls

end DiceNotation
