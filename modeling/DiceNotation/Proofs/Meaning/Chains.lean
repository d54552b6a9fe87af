import DiceNotation.Proofs.Meaning.Writable
import DiceNotation.Proofs.Rolling.Order
import Mathlib.Algebra.Ring.Int.Defs

set_option autoImplicit false

/-!
# The values of chains

The expressions of a text are chains: terms with operators between them. As operations nest on the
right, a subtraction takes away all that is behind it, so it turns the sign of every term behind it.
The value of a chain is the sum of its terms, each of them negative if there is an odd number of
subtractions in front of it, modulo `2 ^ 32`.

## Main definitions

* `Expression.chain` — terms with operators between them.
* `Operator.signBehind`, `Operator.signedSum` — the sign of a term, and the sum of terms with their
  signs.
* `Outcome.terms` — the outcomes of the terms in an outcome.

## Main results

* `Expression.Writable.exists_chain` — the notation writes chains.
* `Expression.results_leaves`, `Expression.exists_result_of_leaves` — evaluating an expression is
  evaluating its terms one after the other.
* `Expression.value_chain` — the value of a chain.
* `Rolls.value_of_ofText` — the values of the expressions of a text.
-/

namespace DiceNotation

/-! ## Chains -/

namespace Expression

/-- Terms with operators between them. Operations nest on the right. -/
def chain (first : Expression) : List (Operator × Expression) → Expression
  | [] => first
  | (op, e) :: rest => .operation op first (chain e rest)

/-- The notation writes chains of leaves. -/
theorem Writable.exists_chain {e : Expression} (h : e.Writable) :
    ∃ first rest, e = chain first rest ∧ ∀ t ∈ first :: rest.map Prod.snd, t.IsLeaf := by
  induction h with
  | leaf h => exact ⟨_, [], rfl, by simpa using h⟩
  | operation op hlhs _ ih =>
    obtain ⟨first, rest, rfl, hleaves⟩ := ih
    exact ⟨_, (op, first) :: rest, rfl, List.forall_mem_cons.2 ⟨hlhs, hleaves⟩⟩

/-- A leaf is the only one of its leaves. -/
theorem IsLeaf.leaves_eq {e : Expression} (h : e.IsLeaf) : e.leaves = [e] := by
  cases h <;> rfl

/-- The leaves of a chain of leaves are its terms. -/
theorem leaves_chain {first : Expression} {rest : List (Operator × Expression)}
    (h : ∀ t ∈ first :: rest.map Prod.snd, t.IsLeaf) :
    (chain first rest).leaves = first :: rest.map Prod.snd := by
  induction rest generalizing first with
  | nil => exact (h first List.mem_cons_self).leaves_eq
  | cons r rest ih =>
    obtain ⟨op, e⟩ := r
    obtain ⟨hfirst, hrest⟩ := List.forall_mem_cons.1 h
    rw [chain, leaves, hfirst.leaves_eq, ih hrest]
    rfl

end Expression

/-! ## Signs -/

namespace Operator

/-- The sign of a term behind some operators: minus if an odd number of them are subtractions. -/
def signBehind (ops : List Operator) : Int :=
  if ops.count sub % 2 = 1 then -1 else 1

/-- The sum of integers with operators between them: each integer has the sign that belongs to the
operators in front of it. -/
def signedSum (ops : List Operator) (vs : List Int) : Int :=
  (vs.mapIdx fun i v => signBehind (ops.take i) * v).sum

/-- The sign of a term behind a single operator. -/
def sign : Operator → Int
  | add => 1
  | sub => -1

/-- A subtraction in front turns the sign, and an addition does not. -/
theorem signBehind_cons (op : Operator) (ops : List Operator) :
    signBehind (op :: ops) = op.sign * signBehind ops := by
  cases op with
  | add => simp [signBehind, sign]
  | sub =>
    simp only [signBehind, sign, List.count_cons_self]
    split_ifs <;> omega

/-- A factor of all summands is a factor of the sum. -/
theorem sum_mapIdx_mul (c : Int) (f : Nat → Int → Int) (vs : List Int) :
    (vs.mapIdx fun i v => c * f i v).sum = c * (vs.mapIdx f).sum := by
  induction vs generalizing f with
  | nil => simp
  | cons v vs ih =>
    rw [List.mapIdx_cons, List.mapIdx_cons, List.sum_cons, List.sum_cons, Int.mul_add,
      ih fun i => f (i + 1)]

/-- Behind the first integer is the sum of the others, with the sign of the first operator. -/
theorem signedSum_cons (op : Operator) (ops : List Operator) (v : Int) (vs : List Int) :
    signedSum (op :: ops) (v :: vs) = v + op.sign * signedSum ops vs := by
  have hsign (i : Nat) (w : Int) : signBehind ((op :: ops).take (i + 1)) * w =
      op.sign * (signBehind (ops.take i) * w) := by
    rw [List.take_succ_cons, signBehind_cons, Int.mul_assoc]
  have hfirst : signBehind ((op :: ops).take 0) * v = v := Int.one_mul v
  rw [signedSum, List.mapIdx_cons, List.sum_cons, hfirst, signedSum, ← sum_mapIdx_mul]
  simp only [hsign]

/-- An operator joins a value with the sum of what is behind it. -/
theorem apply_ofInt (op : Operator) (v : Int32) (x : Int) :
    op.apply v (Int32.ofInt x) = Int32.ofInt (v.toInt + op.sign * x) := by
  rw [Int32.ofInt_add, Int32.ofInt_toInt]
  cases op with
  | add => rw [sign, Int.one_mul, apply]
  | sub => rw [sign, Int.neg_mul, Int.one_mul, Int32.ofInt_neg, apply, Int32.sub_eq_add_neg]

end Operator

/-! ## Outcomes of terms -/

namespace Outcome

mutual

/-- The outcomes of the terms in an outcome, from left to right. -/
def terms : Outcome → List Outcome
  | ⟨.operation .., _, steps⟩ => termsOf steps
  | o => [o]

/-- The outcomes of the terms in several outcomes. -/
def termsOf : List Outcome → List Outcome
  | [] => []
  | o :: os => o.terms ++ termsOf os

end

/-- The outcomes of the terms of an operation are those of the terms of both operands. -/
theorem terms_operation (op : Operator) (lhs rhs : Expression) (v : Int32) (left right : Outcome) :
    terms ⟨.operation op lhs rhs, v, [left, right]⟩ = left.terms ++ right.terms := by
  simp only [terms, termsOf, List.append_nil]

end Outcome

/-! ## Evaluating chains -/

variable {γ : Type} [WordSource γ] {limit : Nat} {g g' : γ}

namespace Rolls

/-- One expression is evaluated for itself. -/
theorem results_singleton {e : Expression} {o : Outcome} (h : e.result limit g = some (o, g')) :
    results limit [e] g = some ([o], g') :=
  Rolling.bind_eq_some.2 ⟨o, g', h, Rolling.bind_eq_some.2 ⟨[], g', rfl, rfl⟩⟩

/-- Expressions are evaluated with what the ones in front of them left of the source. -/
theorem results_append {a b : Rolls} {g₁ : γ} {os us : List Outcome}
    (ha : a.results limit g = some (os, g₁)) (hb : b.results limit g₁ = some (us, g')) :
    results limit (a ++ b) g = some (os ++ us, g') := by
  rw [results, evaluate_append]
  exact Rolling.bind_eq_some.2 ⟨os, g₁, ha, Rolling.bind_eq_some.2 ⟨us, g', hb, rfl⟩⟩

end Rolls

namespace Expression

variable {e : Expression} {o : Outcome}

/-- Evaluating an expression is evaluating what is written between its operators, from left to
right.

**Proof sketch.** Induction on the expression. For an operation, the leaves of the left operand come
first, and those of the right operand are evaluated with what is left of the source. -/
theorem results_leaves (h : e.result limit g = some (o, g')) :
    Rolls.results limit e.leaves g = some (o.terms, g') := by
  induction e generalizing g g' o with
  | constant value | die faces value =>
    obtain ⟨rfl, -⟩ := Rolling.pure_eq_some.1 h
    exact Rolls.results_singleton h
  | dice d =>
    obtain ⟨vs, g₁, -, hpure⟩ := Rolling.bind_eq_some.1 h
    obtain ⟨rfl, -⟩ := Rolling.pure_eq_some.1 hpure
    exact Rolls.results_singleton h
  | operation op lhs rhs ihl ihr =>
    obtain ⟨left, g₁, hleft, hrest⟩ := Rolling.bind_eq_some.1 h
    obtain ⟨right, g₂, hright, hpure⟩ := Rolling.bind_eq_some.1 hrest
    obtain ⟨rfl, rfl⟩ := Rolling.pure_eq_some.1 hpure
    rw [Outcome.terms_operation]
    exact Rolls.results_append (ihl hleft) (ihr hright)

/-- There is no operator between the leaves of an expression any more. -/
theorem leaves_leaves (e : Expression) : Rolls.leaves e.leaves = e.leaves := by
  induction e with
  | constant | die | dice => rfl
  | operation op lhs rhs ihl ihr =>
    rw [Rolls.leaves] at ihl ihr
    rw [leaves, Rolls.leaves, List.flatMap_append, ihl, ihr]

/-- If what is written between the operators can be evaluated from left to right, so can the
expression.

**Proof sketch.** Both roll the same dice terms in the same order, and this is all it takes. -/
theorem exists_result_of_leaves {os : List Outcome}
    (h : Rolls.results limit e.leaves g = some (os, g')) :
    ∃ o, e.result limit g = some (o, g') ∧ o.terms = os := by
  obtain ⟨rs, hrs, -⟩ := Rolls.threaded_of_results h
  rw [Rolls.diceTerms, leaves_leaves] at hrs
  obtain ⟨o, ho⟩ := exists_result_of_threaded hrs
  have hpair := Option.some.inj ((results_leaves ho).symm.trans h)
  exact ⟨o, ho, congrArg Prod.fst hpair⟩

/-- The outcome of a leaf is that of its only term. -/
theorem IsLeaf.terms_eq (he : e.IsLeaf) (h : e.result limit g = some (o, g')) : o.terms = [o] := by
  cases he with
  | constant value =>
    obtain ⟨rfl, -⟩ := Rolling.pure_eq_some.1 h
    rfl
  | dice _ =>
    obtain ⟨vs, g₁, -, hpure⟩ := Rolling.bind_eq_some.1 h
    obtain ⟨rfl, -⟩ := Rolling.pure_eq_some.1 hpure
    rfl

/-- The value of a chain of leaves is the sum of the values of its terms with their signs, modulo
`2 ^ 32`.

**Proof sketch.** Induction along the chain. The first operator joins the value of the first term
with the sum of the others. -/
theorem value_chain {first : Expression} {rest : List (Operator × Expression)}
    (hleaves : ∀ t ∈ first :: rest.map Prod.snd, t.IsLeaf)
    (h : (chain first rest).result limit g = some (o, g')) :
    o.value = Int32.ofInt
      (Operator.signedSum (rest.map Prod.fst) (o.terms.map fun u => u.value.toInt)) := by
  induction rest generalizing first g g' o with
  | nil =>
    rw [(hleaves first List.mem_cons_self).terms_eq h]
    simp [Operator.signedSum, Operator.signBehind]
  | cons r rest ih =>
    obtain ⟨op, e⟩ := r
    obtain ⟨hfirst, hrest⟩ := List.forall_mem_cons.1 hleaves
    obtain ⟨left, g₁, hleft, hothers⟩ := Rolling.bind_eq_some.1 h
    obtain ⟨right, g₂, hright, hpure⟩ := Rolling.bind_eq_some.1 hothers
    obtain ⟨rfl, rfl⟩ := Rolling.pure_eq_some.1 hpure
    rw [Outcome.terms_operation, hfirst.terms_eq hleft, List.singleton_append, List.map_cons,
      List.map_cons, Operator.signedSum_cons, ← Operator.apply_ofInt, ← ih hrest hright]

end Expression

/-! ## Texts -/

namespace Rolls

variable {text : String} {rolls : Rolls}

/-- The expressions of a text are some that the notation can write. -/
theorem writable_of_ofText (h : ofText text = .ok rolls) : ∀ e ∈ rolls, e.Writable := by
  obtain ⟨prog, hparse⟩ := exists_parse_of_ofText h
  have hitems := hparse
  rw [parse_eq_parse_items] at hitems
  obtain ⟨ts, hspelling, hstarts⟩ := Parser.parse_eq_ok_iff.1 hitems
  obtain ⟨rolls', hrolls, -, hwritable⟩ :=
    hspelling.exists_rolls fun t ht => isPlain_of_mem_items (hstarts.mem_items ht)
  obtain rfl : rolls' = rolls := Except.ok.inj ((ofText_eq_ok hparse hrolls).symm.trans h)
  exact hwritable

/-- **The values of chains.** Every expression of a text is a chain of numbers and dice. It can be
evaluated exactly if its terms can be evaluated from left to right, with the same words; and its
value is the sum of what they are worth then, each of them negative if there is an odd number of
subtractions in front of it, modulo `2 ^ 32`.

**Proof sketch.** The notation writes chains only. The first operator of a chain joins the value of
the first term with the value of the rest, so by induction along the chain each subtraction turns
the sign of all terms behind it. -/
theorem value_of_ofText (htext : ofText text = .ok rolls) {e : Expression} (he : e ∈ rolls) :
    ∃ first rest, e = .chain first rest ∧ (∀ t ∈ first :: rest.map Prod.snd, t.IsLeaf) ∧
      ∀ (limit : Nat) (g g' : γ),
        (∀ os, results limit (first :: rest.map Prod.snd) g = some (os, g') ↔
          ∃ o, e.result limit g = some (o, g') ∧ o.terms = os) ∧
        ∀ o, e.result limit g = some (o, g') →
          o.terms.map Outcome.expression = first :: rest.map Prod.snd ∧
          o.value = Int32.ofInt
            (Operator.signedSum (rest.map Prod.fst) (o.terms.map fun u => u.value.toInt)) := by
  obtain ⟨first, rest, rfl, hleaves⟩ := (writable_of_ofText htext e he).exists_chain
  refine ⟨first, rest, rfl, hleaves, fun limit g g' => ⟨fun os => ?_, fun o ho => ⟨?_, ?_⟩⟩⟩
  · rw [← Expression.leaves_chain hleaves]
    constructor
    · exact Expression.exists_result_of_leaves
    · rintro ⟨o, ho, rfl⟩
      exact Expression.results_leaves ho
  · obtain ⟨rs, -, hexpressions, -⟩ := threaded_of_results (Expression.results_leaves ho)
    rw [hexpressions, Expression.leaves_chain hleaves]
  · exact Expression.value_chain hleaves ho

/-- A chain with two subtractions. -/
def sampleChain : Expression :=
  .operation .sub (.constant 10) (.operation .sub (.constant 2)
    (.operation .add (.dice ⟨1, 6, .keepHigh⟩) (.constant 4)))

/-- The chain is read from a text and evaluated with a word for which the die shows five, and its
value is the signed sum. -/
theorem value_of_ofText_sample :
    ofText "10 - 2 - d6H + 4; 7" = .ok [sampleChain, .constant 7] ∧
      ∃ first rest o g, sampleChain = .chain first rest ∧
        sampleChain.result 1 (ScriptedWords.ofList [3000000000]) = some (o, g) ∧ o.value = 17 ∧
        o.value = Int32.ofInt
          (Operator.signedSum (rest.map Prod.fst) (o.terms.map fun u => u.value.toInt)) := by
  have htext : ofText "10 - 2 - d6H + 4; 7" = .ok [sampleChain, .constant 7] := by decide +kernel
  obtain ⟨first, rest, hchain, -, hruns⟩ :=
    value_of_ofText (γ := ScriptedWords) htext (e := sampleChain) List.mem_cons_self
  have hvalue : (sampleChain.result 1 (ScriptedWords.ofList [3000000000])).map
      (fun r => r.1.value) = some 17 := by decide +kernel
  obtain ⟨⟨o, g⟩, ho, hseventeen⟩ := Option.map_eq_some_iff.1 hvalue
  exact ⟨htext, first, rest, o, g, hchain, ho, hseventeen, ((hruns _ _ _).2 o ho).2⟩

end Rolls

end DiceNotation
