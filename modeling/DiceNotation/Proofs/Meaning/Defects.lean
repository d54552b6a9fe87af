import DiceNotation.Program.Meaning
import DiceNotation.Proofs.Notation.Trees
import Mathlib.Data.List.Forall2

set_option autoImplicit false

/-!
# Defects of trees

Trees that are not read from a text may have any number of defects. Listing all of them in a fixed
order tells what becomes of a program: the first defect of the list is the one that is reported, and a
program without defects stands for expressions that have the shape of its trees.

## Main definitions

* `Node.defects` — all defects of a tree, in order.
* `Node.inspection`, `Program.inspection` — the defects up to an operation on the left, tree by tree.
* `Node.StandsFor` — an expression has the shape of a tree.
* `Reports` — a result is the first of some defects, or there are none and it has a property.

## Main results

* `Reports.bind`, `Reports.mapM` — steps one after the other report the defects of one after the other.
* `Node.reports_expression` — a tree reports its defects, or it stands for an expression.
* `Program.rolls_of_inspection` — what becomes of a program.

## Implementation notes

Nothing that comes behind the first defect can be told from the result. So it makes no difference that
an operation on the left ends the inspection of a tree, and `Node.defects` goes on behind it.
-/

namespace DiceNotation

/-! ## Listing defects -/

namespace Token

/-- The defects of a token that has to hold a number which `read` can read. -/
def numberDefects {α : Type} (read : String → Option α) (t : Token) : List Defect :=
  if (read t.lexeme).isSome then [] else [.notANumber t]

/-- The defects of a token that has to hold one of the characters `signs`. -/
def signDefects (signs : List Char) (unknown : Char → Defect) (t : Token) : List Defect :=
  match t.lexeme.toList with
  | [c] => if c ∈ signs then [] else [unknown c]
  | _ => [.notOneCharacter t]

/-- The token holds this character and nothing else. -/
def Holds (t : Token) (symbol : Option Char) : Prop :=
  ∃ c, symbol = some c ∧ t.lexeme.toList = [c]

end Token

namespace Node

/-- All defects of a tree. An operation as left operand comes before anything else of the operation,
then come the operands and the operator; of dice, first the number, then the modifier, then the
faces. -/
def defects : Node → List Defect
  | number .. => []
  | dice times _ faces modifier =>
    times.elim [] (Token.numberDefects Numeral.uint8?) ++
      modifier.elim [] (Token.signDefects TokenKind.modifier.signs .notAModifier) ++
      faces.numberDefects Numeral.int32?
  | operation left op right =>
    (if left.isOperation then [.operationOnTheLeft] else []) ++ left.defects ++ right.defects ++
      op.signDefects TokenKind.operator.signs .notAnOperator

/-- The defects that are met when a tree is inspected. An operation on the left ends the inspection. -/
def inspection (n : Node) : List Defect :=
  n.defects.take (n.defects.idxOf .operationOnTheLeft + 1)

/-- An expression has the shape of a tree. A missing number of dice is one, and dice without a
modifier are summed up. -/
inductive StandsFor : Node → Expression → Prop
  | number (token : Token) (value : Int32) : StandsFor (.number token value) (.constant value)
  | dice {times modifier : Option Token} {dSymbol faces : Token} {d : Dice}
    (hnumber : times.elim (d.number = 1) fun t => Numeral.uint8? t.lexeme = some d.number)
    (hmodifier : modifier.elim (d.modifier = .none) fun t => t.Holds d.modifier.symbol)
    (hfaces : Numeral.int32? faces.lexeme = some d.faces) :
    StandsFor (.dice times dSymbol faces modifier) (.dice d)
  | operation {left right : Node} {operator : Token} {op : Operator} {lhs rhs : Expression}
    (hleft : StandsFor left lhs) (hright : StandsFor right rhs)
    (hoperator : operator.Holds op.symbol) :
    StandsFor (.operation left operator right) (.operation op lhs rhs)

end Node

/-- The defects that are met when the trees of a program are inspected one after the other. -/
def Program.inspection (p : Program) : List Defect :=
  p.items.flatMap Node.inspection

/-! ## Reporting the first defect -/

/-- A result is the first of the defects `ds`, or there are none and `P` holds of the result. -/
inductive Reports {α : Type} (P : α → Prop) : List Defect → Except Defect α → Prop
  | ok {a : α} (h : P a) : Reports P [] (.ok a)
  | error (d : Defect) (ds : List Defect) : Reports P (d :: ds) (.error d)

namespace Reports

variable {α β : Type} {P : α → Prop} {Q : β → Prop} {ds es : List Defect} {x : Except Defect α}

/-- Two steps report the defects of the first one, and behind them those of the second one. -/
theorem bind {f : α → Except Defect β} (hx : Reports P ds x)
    (hf : ∀ a, P a → Reports Q es (f a)) : Reports Q (ds ++ es) (x >>= f) := by
  cases hx with
  | ok h => exact hf _ h
  | error d ds => exact .error d (ds ++ es)

/-- What comes behind the first defect does not matter. -/
theorem take_succ (hx : Reports P ds x) (k : Nat) : Reports P (ds.take (k + 1)) x := by
  cases hx with
  | ok h => exact .ok h
  | error d ds => exact .error d (ds.take k)

/-- A part that may be missing reports no defects if it is. -/
theorem elim {γ : Type} {step : γ → Except Defect α} {defects : γ → List Defect}
    {R : γ → α → Prop} (h : ∀ c, Reports (R c) (defects c) (step c)) (o : Option γ) (missing : α) :
    Reports (fun a => o.elim (a = missing) fun c => R c a) (o.elim [] defects)
      (o.elim (.ok missing) step) := by
  cases o with
  | none => exact .ok rfl
  | some c => exact h c

/-- A list reports the defects of its items, one item after the other. -/
theorem mapM {f : α → Except Defect β} {defects : α → List Defect} {R : α → β → Prop}
    (h : ∀ a, Reports (R a) (defects a) (f a)) (as : List α) :
    Reports (List.Forall₂ R as) (as.flatMap defects) (as.mapM f) := by
  induction as with
  | nil => exact .ok .nil
  | cons a as ih =>
    rw [List.mapM_cons, List.flatMap_cons]
    refine (h a).bind fun b hb => ?_
    rw [← List.append_nil (as.flatMap defects)]
    exact ih.bind fun bs hbs => .ok (.cons hb hbs)

end Reports

/-! ## Tokens -/

namespace Token

/-- A token that has to hold a number reports that it holds none. -/
theorem reports_number {α : Type} (read : String → Option α) (t : Token) :
    Reports (fun a => read t.lexeme = some a) (t.numberDefects read)
      ((read t.lexeme).elim (.error (.notANumber t)) .ok) := by
  unfold numberDefects
  cases hread : read t.lexeme with
  | none => exact .error _ []
  | some a => exact .ok rfl

/-- A token that has to hold one of some characters reports that it does not hold one character, or
that it holds another one. -/
theorem reports_sign {α : Type} {signs : List Char} {ofChar? : Char → Option α}
    {symbol : α → Option Char} (hsigns : ∀ {c}, c ∈ signs ↔ (ofChar? c).isSome = true)
    (hsymbol : ∀ c a, ofChar? c = some a → symbol a = some c) (unknown : Char → Defect)
    (t : Token) :
    Reports (fun a => t.Holds (symbol a)) (t.signDefects signs unknown)
      (t.singleChar >>= fun c => (ofChar? c).elim (.error (unknown c)) .ok) := by
  unfold signDefects singleChar
  rcases hchars : t.lexeme.toList with _ | ⟨c, _ | ⟨c', cs⟩⟩
  · exact .error _ []
  · show Reports _ (if c ∈ signs then [] else [unknown c])
      ((ofChar? c).elim (.error (unknown c)) .ok)
    cases hof : ofChar? c with
    | none =>
      rw [if_neg (by simp [hsigns, hof])]
      exact .error _ []
    | some a =>
      rw [if_pos (hsigns.2 (by rw [hof]; rfl))]
      exact .ok ⟨c, hsymbol c a hof, hchars⟩
  · exact .error _ []

/-- A token as a modifier. -/
theorem reports_modifier (t : Token) :
    Reports (fun m : Modifier => t.Holds m.symbol)
      (t.signDefects TokenKind.modifier.signs .notAModifier) t.modifier :=
  reports_sign TokenKind.mem_signs_modifier_iff (fun _ _ => Modifier.ofChar?_eq_some_iff.1) _ t

/-- A token as an operator. -/
theorem reports_operator (t : Token) :
    Reports (fun op : Operator => t.Holds op.symbol)
      (t.signDefects TokenKind.operator.signs .notAnOperator) t.operator :=
  reports_sign TokenKind.mem_signs_operator_iff
    (fun _ _ h => congrArg some (Operator.ofChar?_eq_some_iff.1 h)) _ t

/-- A token holds one character at most. -/
theorem Holds.exists_eq {t : Token} {o o' : Option Char} (h : t.Holds o) (h' : t.Holds o') :
    ∃ c, o = some c ∧ o' = some c := by
  obtain ⟨c, ho, hc⟩ := h
  obtain ⟨c', ho', hc'⟩ := h'
  obtain rfl : c = c' := by simpa [hc] using hc'
  exact ⟨c, ho, ho'⟩

/-- A token holds the symbol of one modifier at most. -/
theorem Holds.modifier_unique {t : Token} {m m' : Modifier} (h : t.Holds m.symbol)
    (h' : t.Holds m'.symbol) : m = m' := by
  obtain ⟨c, hm, hm'⟩ := h.exists_eq h'
  rw [← Modifier.ofChar?_eq_some_iff] at hm hm'
  exact Option.some.inj (hm.symm.trans hm')

/-- A token holds the symbol of one operator at most. -/
theorem Holds.operator_unique {t : Token} {op op' : Operator} (h : t.Holds op.symbol)
    (h' : t.Holds op'.symbol) : op = op' := by
  obtain ⟨c, hop, hop'⟩ := h.exists_eq h'
  rw [Option.some.injEq, ← Operator.ofChar?_eq_some_iff] at hop hop'
  exact Option.some.inj (hop.symm.trans hop')

end Token

/-! ## Trees -/

namespace Node

/-- Dice report the defects of the number, of the modifier and of the faces. -/
theorem reports_diceOf (times modifier : Option Token) (dSymbol faces : Token) :
    Reports (fun d => StandsFor (.dice times dSymbol faces modifier) (.dice d))
      (defects (.dice times dSymbol faces modifier)) (diceOf times faces modifier) := by
  have hnumber := Reports.elim (Token.reports_number Numeral.uint8?) times 1
  have hmode := Reports.elim Token.reports_modifier modifier .none
  have hfaces := Token.reports_number Numeral.int32? faces
  rw [defects, List.append_assoc, ← List.append_nil (faces.numberDefects _)]
  refine hnumber.bind fun number hn => hmode.bind fun mode hm => ?_
  exact hfaces.bind fun value hf => .ok (.dice (d := ⟨number, value, mode⟩) hn hm hf)

/-- A tree reports its first defect, or it stands for an expression of its shape.

**Proof sketch.** Induction on the tree. The parts of a tree are gone through in the order in which
their defects are listed. -/
theorem reports_expression (n : Node) : Reports n.StandsFor n.defects n.expression := by
  induction n with
  | number token value => exact .ok (.number token value)
  | dice times dSymbol faces modifier =>
    rw [← List.append_nil (defects _)]
    exact (reports_diceOf times modifier dSymbol faces).bind fun d hd => .ok hd
  | operation left op right ihl ihr =>
    rw [defects, expression]
    by_cases hleft : left.isOperation = true
    · rw [if_pos hleft, if_pos hleft]
      exact .error _ _
    · rw [if_neg hleft, if_neg hleft, List.nil_append, List.append_assoc,
        ← List.append_nil (op.signDefects _ _)]
      refine ihl.bind fun lhs hlhs => ihr.bind fun rhs hrhs => ?_
      exact op.reports_operator.bind fun operator hop => .ok (.operation hlhs hrhs hop)

/-- A tree stands for one expression at most. -/
theorem StandsFor.unique {n : Node} {e e' : Expression} (h : n.StandsFor e)
    (h' : n.StandsFor e') : e = e' := by
  induction h generalizing e' with
  | number token value =>
    cases h'
    rfl
  | @dice times modifier dSymbol faces d hnumber hmodifier hfaces =>
    cases h' with
    | @dice _ _ _ _ d' hnumber' hmodifier' hfaces' =>
      have hn : d.number = d'.number := by
        cases times with
        | none => exact hnumber.trans hnumber'.symm
        | some t => exact Option.some.inj (hnumber.symm.trans hnumber')
      have hm : d.modifier = d'.modifier := by
        cases modifier with
        | none => exact hmodifier.trans hmodifier'.symm
        | some t => exact Token.Holds.modifier_unique hmodifier hmodifier'
      have hf : d.faces = d'.faces := Option.some.inj (hfaces.symm.trans hfaces')
      obtain ⟨_, _, _⟩ := d
      obtain ⟨_, _, _⟩ := d'
      cases hn
      cases hm
      cases hf
      rfl
  | operation _ _ hoperator ihl ihr =>
    cases h' with
    | operation hleft' hright' hoperator' =>
      rw [ihl hleft', ihr hright', hoperator.operator_unique hoperator']

end Node

/-! ## Programs -/

namespace Program

/-- A program reports the first defect of its inspection, or it stands for one expression for each
tree, of its shape. -/
theorem reports_rolls (p : Program) :
    Reports (List.Forall₂ Node.StandsFor p.items) p.inspection p.rolls :=
  .mapM (fun n => n.reports_expression.take_succ _) p.items

/-- Trees stand for one list of expressions at most. -/
theorem standsFor_unique {ns : List Node} {rolls rolls' : Rolls}
    (h : List.Forall₂ Node.StandsFor ns rolls) (h' : List.Forall₂ Node.StandsFor ns rolls') :
    rolls = rolls' := by
  induction h generalizing rolls' with
  | nil =>
    cases h'
    rfl
  | cons he _ ih =>
    cases h' with
    | cons he' hes' => rw [he.unique he', ih hes']

/-- **What becomes of a program.** It is refused exactly if its inspection meets a defect, with the
message of the first one. Otherwise it stands for one expression for each of its trees, in order, and
each of them has the shape of its tree.

**Proof sketch.** A program goes through its trees in the order of the inspection, and it stops at the
first defect. -/
theorem rolls_of_inspection (p : Program) :
    (∀ text, p.rolls.mapError Defect.message = .error text ↔
      ∃ d ds, p.inspection = d :: ds ∧ d.message = text) ∧
    ∀ rolls, p.rolls = .ok rolls ↔
      p.inspection = [] ∧ List.Forall₂ Node.StandsFor p.items rolls := by
  have hreports := p.reports_rolls
  generalize p.inspection = ds at hreports
  generalize p.rolls = result at hreports
  cases hreports with
  | ok hstands =>
    refine ⟨by simp [Except.mapError], fun rolls => ?_⟩
    rw [Except.ok.injEq]
    constructor
    · rintro rfl
      exact ⟨rfl, hstands⟩
    · rintro ⟨-, hrolls⟩
      exact standsFor_unique hstands hrolls
  | error d ds => exact ⟨fun text => by simp [Except.mapError], by simp⟩

/-- Inspecting this tree meets the defects of the dice and an operation on the left; it ends there,
and the operator `*` in front of that operation is not met any more. -/
example :
    Node.inspection
      (.operation
        (.dice (some ⟨.number, "256", 0, 2⟩) ⟨.dSymbol, "d", 3, 3⟩ ⟨.number, "six ", 4, 7⟩
          (some ⟨.modifier, "x", 8, 8⟩))
        ⟨.operator, "*", 9, 9⟩
        (.operation
          (.operation (.number ⟨.number, "1", 10, 10⟩ 1) ⟨.operator, "+", 11, 11⟩
            (.number ⟨.number, "2", 12, 12⟩ 2))
          ⟨.operator, "-", 13, 13⟩ (.number ⟨.number, "3", 14, 14⟩ 3))) =
      [.notANumber ⟨.number, "256", 0, 2⟩, .notAModifier 'x', .notANumber ⟨.number, "six ", 4, 7⟩,
        .operationOnTheLeft] := by
  decide +kernel

end Program

end DiceNotation
