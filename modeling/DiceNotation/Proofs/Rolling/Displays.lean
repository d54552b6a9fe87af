import DiceNotation.Proofs.Rolling.Order

set_option autoImplicit false

/-!
# What outcomes are shown as

An outcome is shown like its expression, leaf by leaf. In the place of a dice term stand the values that
its dice showed, between brackets and in the order in which they were drawn, and in the place of a die on
the table stands its value; all else is as in the text of the expression. So whoever reads the numbers
between the brackets of an outcome reads the dice that were rolled for it.

## Main definitions

* `Expression.operators` — the operators of an expression, from left to right.
* `woven` — texts with operators between them.
* `shownLeaves` — what the leaves of an expression are shown as, where the dice terms showed given
  rolls.
* `Outcome.Built` — the outcomes that evaluation builds.
* `bracketedLists` — the lists of numbers between the brackets of a text.

## Main results

* `Expression.text_eq_woven` — the text of an expression consists of those of its leaves.
* `Outcome.Built.text_eq_woven` — an outcome is shown like its expression.
* `Outcome.Built.contributes_text` — the lists between the brackets of an outcome are its rolls.
* `Expression.text_of_result` — what the outcome of an expression is shown as.
-/

namespace DiceNotation

/-! ## Leaves with operators between them -/

/-- The operators of an expression, from left to right. -/
def Expression.operators : Expression → List Operator
  | operation op lhs rhs => lhs.operators ++ op :: rhs.operators
  | _ => []

/-- Texts with operators between them. -/
def woven : List String → List Operator → String
  | s :: ss, op :: ops => s ++ " " ++ op.text ++ " " ++ woven ss ops
  | [s], [] => s
  | _, _ => ""

/-- What leaves are shown as if the dice terms among them showed `rs`: the rolls of a dice term stand
between brackets, and a die on the table is its value. -/
def shownLeaves : List Expression → List (List Int32) → List String
  | .dice _ :: es, vs :: rs =>
    ("[" ++ ", ".intercalate (vs.map Numeral.ofInt32) ++ "]") :: shownLeaves es rs
  | .die _ value :: es, rs => Numeral.ofInt32 value :: shownLeaves es rs
  | e :: es, rs => e.text :: shownLeaves es rs
  | [], _ => []

/-- There is one leaf more than there are operators. -/
theorem Expression.length_leaves (e : Expression) : e.leaves.length = e.operators.length + 1 := by
  induction e with
  | constant value | dice d | die faces value => rfl
  | operation op lhs rhs ihl ihr =>
    simp only [leaves, operators, List.length_append, List.length_cons, ihl, ihr]
    omega

/-- Texts on both sides of an operator. -/
theorem woven_append {ss ts : List String} {ops ops' : List Operator} (op : Operator)
    (h : ss.length = ops.length + 1) :
    woven (ss ++ ts) (ops ++ op :: ops') = woven ss ops ++ " " ++ op.text ++ " " ++ woven ts ops' := by
  induction ops generalizing ss with
  | nil =>
    obtain ⟨s, rfl⟩ := List.length_eq_one_iff.1 h
    rfl
  | cons op' ops ih =>
    cases ss with
    | nil => simp at h
    | cons s ss =>
      rw [List.cons_append, List.cons_append, woven, woven, ih (by simpa using h)]
      simp only [String.append_assoc]

/-- Every leaf is shown. -/
theorem length_shownLeaves (es : List Expression) (rs : List (List Int32)) :
    (shownLeaves es rs).length = es.length := by
  fun_induction shownLeaves es rs with
  | case1 d es vs rs ih | case2 faces value es rs ih | case3 e es rs _ _ ih =>
    rw [List.length_cons, List.length_cons, ih]
  | case4 => rfl

/-- What two lists of leaves are shown as. -/
theorem shownLeaves_append {es fs : List Expression} {rs ss : List (List Int32)}
    (h : rs.length = (es.filterMap Expression.dice?).length) :
    shownLeaves (es ++ fs) (rs ++ ss) = shownLeaves es rs ++ shownLeaves fs ss := by
  induction es generalizing rs with
  | nil =>
    obtain rfl : rs = [] := List.length_eq_zero_iff.1 h
    rfl
  | cons e es ih =>
    cases e with
    | dice d =>
      cases rs with
      | nil => simp [Expression.dice?] at h
      | cons vs rs =>
        have hlen : rs.length = (es.filterMap Expression.dice?).length := by
          simpa [Expression.dice?] using h
        simp only [List.cons_append, shownLeaves, ih hlen]
    | die faces value => simp only [List.cons_append, shownLeaves, ih h]
    | constant value | operation op lhs rhs => simp only [List.cons_append, shownLeaves, ih h]

/-- The text of an expression consists of those of its leaves, with its operators between them. -/
theorem Expression.text_eq_woven (e : Expression) :
    e.text = woven (e.leaves.map text) e.operators := by
  induction e with
  | constant value | dice d | die faces value => rfl
  | operation op lhs rhs ihl ihr =>
    have hlen : (lhs.leaves.map text).length = lhs.operators.length + 1 := by
      rw [List.length_map, lhs.length_leaves]
    rw [leaves, operators, List.map_append, woven_append op hlen, ← ihl, ← ihr, text]

/-! ## Outcomes -/

namespace Outcome

/-- The outcomes that evaluation builds: fixed values without steps, dice with a step for each roll, and
operations with a step for each operand. -/
inductive Built : Outcome → Prop
  | constant (value : Int32) : Built (leaf (.constant value) value)
  | die (faces value : Int32) : Built (leaf (.die faces value) value)
  | dice (d : Dice) (vs : List Int32) : Built (d.outcomeOf vs)
  | operation (op : Operator) {left right : Outcome} (hleft : Built left) (hright : Built right) :
    Built ⟨.operation op left.expression right.expression, op.apply left.value right.value,
      [left, right]⟩

/-- The rolls of the dice terms of an outcome, from left to right. -/
def rollsShown (o : Outcome) : List (List Int32) :=
  o.termRolls.map Prod.snd

/-- Dice show their rolls. -/
theorem rollsShown_outcomeOf (d : Dice) (vs : List Int32) : (d.outcomeOf vs).rollsShown = [vs] := by
  simp [Dice.outcomeOf, rollsShown, termRolls, leaf, Function.comp_def]

/-- An operation shows the rolls of its operands. -/
theorem rollsShown_operation (op : Operator) (lhs rhs : Expression) (value : Int32)
    (left right : Outcome) : rollsShown ⟨.operation op lhs rhs, value, [left, right]⟩ =
      left.rollsShown ++ right.rollsShown := by
  simp [rollsShown, termRolls, termRollsOf]

namespace Built

variable {o : Outcome}

/-- There are rolls for each dice term. -/
theorem length_rollsShown (h : o.Built) :
    o.rollsShown.length = o.expression.diceTerms.length := by
  induction h with
  | constant value | die faces value => rfl
  | dice d vs =>
    rw [rollsShown_outcomeOf]
    rfl
  | operation op hleft hright ihl ihr =>
    rw [rollsShown_operation, List.length_append, ihl, ihr, Expression.diceTerms_operation,
      List.length_append]

/-- An outcome is shown like its expression, leaf by leaf. -/
theorem text_eq_woven (h : o.Built) :
    o.text = woven (shownLeaves o.expression.leaves o.rollsShown) o.expression.operators := by
  induction h with
  | constant value | die faces value => rfl
  | dice d vs =>
    rw [rollsShown_outcomeOf]
    simp [Dice.outcomeOf, text, bracketed, leaf, Expression.leaves, Expression.operators, shownLeaves,
      woven, Function.comp_def]
  | @operation op left right hleft hright ihl ihr =>
    have hlen := hleft.length_rollsShown
    rw [rollsShown_operation, Expression.leaves, Expression.operators, shownLeaves_append hlen,
      woven_append op (by rw [length_shownLeaves, Expression.length_leaves]), ← ihl, ← ihr, text]

end Built

end Outcome

/-! ## Reading what is shown -/

/-- The parts of a text between an opening bracket and the closing one behind it. -/
def bracketParts (text : List Char) : List (List Char) :=
  (text.splitOn '[').tail.map (·.takeWhile (· != ']'))

/-- The number in a text, which may stand behind spaces. -/
def numberIn? (text : List Char) : Option Int32 :=
  Numeral.int32? (String.ofList (text.dropWhile (· == ' ')))

/-- The numbers in a text with commas between them. -/
def numbersIn (text : List Char) : List Int32 :=
  (text.splitOn ',').filterMap numberIn?

/-- The lists of numbers between the brackets of a text, from left to right. -/
def bracketedLists (text : List Char) : List (List Int32) :=
  (bracketParts text).map numbersIn

/-- In front of any other text, the text `s` contributes the lists `rs`. -/
def Contributes (s : String) (rs : List (List Int32)) : Prop :=
  ∀ rest, bracketedLists (s.toList ++ rest) = rs ++ bracketedLists rest

/-- Two texts contribute what each of them does. -/
theorem Contributes.append {s t : String} {rs ss : List (List Int32)} (hs : Contributes s rs)
    (ht : Contributes t ss) : Contributes (s ++ t) (rs ++ ss) := by
  intro rest
  rw [String.toList_append, List.append_assoc, hs, ht, List.append_assoc]

/-- What contains no separator is the beginning of the first part. -/
theorem splitOn_append_of_notMem {x : Char} {cs : List Char} (h : x ∉ cs) (rest : List Char) :
    (cs ++ rest).splitOn x = (rest.splitOn x).modifyHead (cs ++ ·) := by
  induction cs with
  | nil => exact (congrFun List.modifyHead_id _).symm
  | cons c cs ih =>
    obtain ⟨hc, hcs⟩ := not_or.1 (mt List.mem_cons.2 h)
    have hne : (c == x) = false := beq_false_of_ne (Ne.symm hc)
    rw [List.cons_append, List.splitOn_cons_eq_if_modifyHead, hne, ih hcs, List.modifyHead_modifyHead]
    rfl

/-- A text without brackets contributes nothing. -/
theorem contributes_of_notMem {s : String} (h : '[' ∉ s.toList) : Contributes s [] := by
  intro rest
  rw [bracketedLists, bracketParts, splitOn_append_of_notMem h, List.tail_modifyHead]
  rfl

/-- A numeral has no characters but digits and a minus. -/
theorem notMem_ofInt32 {c : Char} (hminus : c ≠ '-') (hdigit : c.isDigit = false) (v : Int32) :
    c ∉ (Numeral.ofInt32 v).toList := by
  intro hc
  rcases Numeral.of_mem_ofInt32 hc with h | h
  · exact hminus h
  · exact Bool.false_ne_true (hdigit.symm.trans h)

/-- A space in front of a number does not count. -/
theorem numberIn?_space (cs : List Char) : numberIn? (' ' :: cs) = numberIn? cs := by
  rw [numberIn?, numberIn?, List.dropWhile_cons_of_pos (by decide)]

/-- The number in a numeral. -/
theorem numberIn?_ofInt32 (v : Int32) : numberIn? (Numeral.ofInt32 v).toList = some v := by
  have hspace : ∀ c ∈ (Numeral.ofInt32 v).toList, (c == ' ') = false := fun c hc =>
    beq_false_of_ne fun heq => notMem_ofInt32 (by decide) (by decide) v (heq ▸ hc)
  have hself : (Numeral.ofInt32 v).toList.dropWhile (· == ' ') = (Numeral.ofInt32 v).toList := by
    cases hcs : (Numeral.ofInt32 v).toList with
    | nil => rfl
    | cons c cs => simp [hspace c (by rw [hcs]; exact List.mem_cons_self)]
  rw [numberIn?, hself, String.ofList_toList, Numeral.int32?_ofInt32]

/-- A list of numbers is split into the numbers, all of them but the first one behind a space. -/
theorem splitOn_numbers (v : Int32) (vs : List Int32) :
    (", ".intercalate ((v :: vs).map Numeral.ofInt32)).toList.splitOn ',' =
      (Numeral.ofInt32 v).toList :: vs.map fun w => ' ' :: (Numeral.ofInt32 w).toList := by
  have hcomma : ∀ w : Int32, ',' ∉ (Numeral.ofInt32 w).toList :=
    notMem_ofInt32 (by decide) (by decide)
  induction vs generalizing v with
  | nil => simpa using List.splitOn_eq_singleton (hcomma v)
  | cons w vs ih =>
    set rest := (", ".intercalate ((w :: vs).map Numeral.ofInt32)).toList with hrest
    have htext : (", ".intercalate ((v :: w :: vs).map Numeral.ofInt32)).toList =
        (Numeral.ofInt32 v).toList ++ ',' :: ([' '] ++ rest) := by
      rw [hrest, List.map_cons, List.map_cons, String.intercalate_cons_cons]
      simp
    have hfurther := splitOn_append_of_notMem (by decide : ',' ∉ [' ']) rest
    rw [ih w] at hfurther
    rw [htext, List.splitOn_append_cons_self_of_not_mem (hcomma v), hfurther]
    rfl

/-- The numbers of a list of numbers. -/
theorem numbersIn_intercalate (vs : List Int32) :
    numbersIn (", ".intercalate (vs.map Numeral.ofInt32)).toList = vs := by
  cases vs with
  | nil => decide
  | cons v vs =>
    have hspaces : (numberIn? ∘ fun w => ' ' :: (Numeral.ofInt32 w).toList) = some := by
      funext w
      rw [Function.comp_apply, numberIn?_space, numberIn?_ofInt32]
    rw [numbersIn, splitOn_numbers, List.filterMap_cons, numberIn?_ofInt32, List.filterMap_map,
      hspaces, List.filterMap_some]

/-- A list of numbers has neither brackets nor anything else but numerals, commas and spaces. -/
theorem of_mem_intercalate {vs : List Int32} {c : Char}
    (h : c ∈ (", ".intercalate (vs.map Numeral.ofInt32)).toList) :
    (c = '-' ∨ c.isDigit = true) ∨ c = ',' ∨ c = ' ' := by
  induction vs with
  | nil => simp at h
  | cons v vs ih =>
    cases vs with
    | nil => exact Or.inl (Numeral.of_mem_ofInt32 (by simpa using h))
    | cons w vs =>
      rw [List.map_cons, List.map_cons, String.intercalate_cons_cons, String.toList_append,
        String.toList_append] at h
      rcases List.mem_append.1 h with h | h
      · rcases List.mem_append.1 h with h | h
        · exact Or.inl (Numeral.of_mem_ofInt32 h)
        · exact Or.inr (by simpa using h)
      · exact ih h

/-- A list of numbers between brackets contributes itself. -/
theorem contributes_brackets (vs : List Int32) :
    Contributes ("[" ++ ", ".intercalate (vs.map Numeral.ofInt32) ++ "]") [vs] := by
  intro rest
  set inside := (", ".intercalate (vs.map Numeral.ofInt32)).toList with hinside
  have hclean : ∀ c ∈ inside, c ≠ '[' ∧ c ≠ ']' := by
    intro c hc
    rcases of_mem_intercalate hc with (rfl | hdigit) | rfl | rfl
    · decide
    · exact ⟨fun heq => absurd (heq ▸ hdigit) (by decide), fun heq => absurd (heq ▸ hdigit) (by decide)⟩
    · decide
    · decide
  have htext : ("[" ++ ", ".intercalate (vs.map Numeral.ofInt32) ++ "]").toList ++ rest =
      [] ++ '[' :: ((inside ++ [']']) ++ rest) := by
    simp [hinside]
  have hopening : '[' ∉ inside ++ [']'] := by
    intro hmem
    rcases List.mem_append.1 hmem with hc | hc
    · exact (hclean _ hc).1 rfl
    · exact absurd hc (by decide)
  have hclosing (cs : List Char) : (inside ++ [']'] ++ cs).takeWhile (· != ']') = inside := by
    rw [List.append_assoc, List.takeWhile_append_of_pos fun c hc => bne_iff_ne.2 (hclean c hc).2]
    simp
  obtain ⟨part, parts, hparts⟩ := List.exists_cons_of_ne_nil (List.splitOn_ne_nil '[' rest)
  rw [htext, bracketedLists, bracketParts, List.splitOn_append_cons_self_of_not_mem List.not_mem_nil,
    splitOn_append_of_notMem hopening, bracketedLists, bracketParts, hparts, List.tail_cons,
    List.modifyHead_cons, List.map_cons, hclosing, List.map_cons, numbersIn_intercalate]
  rfl

/-- The lists between the brackets of an outcome are the rolls of its dice terms. -/
theorem Outcome.Built.contributes_text {o : Outcome} (h : o.Built) :
    Contributes o.text o.rollsShown := by
  have hnumeral (v : Int32) : Contributes (Numeral.ofInt32 v) [] :=
    contributes_of_notMem (notMem_ofInt32 (by decide) (by decide) v)
  induction h with
  | constant value | die faces value => exact hnumeral value
  | dice d vs =>
    have htext : (d.outcomeOf vs).text = "[" ++ ", ".intercalate (vs.map Numeral.ofInt32) ++ "]" := by
      simp [Dice.outcomeOf, text, bracketed, leaf, Function.comp_def]
    rw [rollsShown_outcomeOf, htext]
    exact contributes_brackets vs
  | @operation op left right hleft hright ihl ihr =>
    have hbetween : Contributes (" " ++ op.text ++ " ") [] :=
      contributes_of_notMem (by cases op <;> decide)
    have htext := (ihl.append hbetween).append ihr
    rw [List.append_nil] at htext
    rw [rollsShown_operation, text]
    simpa only [String.append_assoc] using htext

/-! ## The outcome of an expression -/

/-- Without dice on the table, the dice of an expression are those of its dice terms. -/
theorem onTable_eq_flatten {es : List Expression} {rs : List (List Int32)}
    (hdie : ∀ faces value, .die faces value ∉ es)
    (hlen : rs.length = (es.filterMap Expression.dice?).length) : onTable es rs = rs.flatten := by
  induction es generalizing rs with
  | nil =>
    obtain rfl : rs = [] := List.length_eq_zero_iff.1 hlen
    rfl
  | cons e es ih =>
    have hrest : ∀ faces value, .die faces value ∉ es := fun faces value hmem =>
      hdie faces value (List.mem_cons_of_mem e hmem)
    cases e with
    | dice d =>
      cases rs with
      | nil => simp [Expression.dice?] at hlen
      | cons vs rs =>
        rw [onTable, ih hrest (by simpa [Expression.dice?] using hlen), List.flatten_cons]
    | die faces value => exact absurd List.mem_cons_self (hdie faces value)
    | constant value | operation op lhs rhs => exact ih hrest hlen

namespace Expression

variable {γ : Type} [WordSource γ] {limit : Nat} {e : Expression} {g g' : γ} {o : Outcome}

/-- Evaluating an expression builds an outcome. -/
theorem built_of_result (h : e.result limit g = some (o, g')) : o.Built := by
  unfold result at h
  induction e generalizing g g' o with
  | constant value =>
    obtain ⟨rfl, -⟩ := Rolling.pure_eq_some.1 h
    exact .constant value
  | die faces value =>
    obtain ⟨rfl, -⟩ := Rolling.pure_eq_some.1 h
    exact .die faces value
  | dice d =>
    obtain ⟨vs, g₁, -, hpure⟩ := Rolling.bind_eq_some.1 h
    obtain ⟨rfl, -⟩ := Rolling.pure_eq_some.1 hpure
    exact .dice d vs
  | operation op lhs rhs ihl ihr =>
    obtain ⟨left, g₁, hleft, hrest⟩ := Rolling.bind_eq_some.1 h
    obtain ⟨right, g₂, hright, hpure⟩ := Rolling.bind_eq_some.1 hrest
    obtain ⟨rfl, -⟩ := Rolling.pure_eq_some.1 hpure
    obtain ⟨-, -, rfl, -⟩ := threaded_of_result hleft
    obtain ⟨-, -, rfl, -⟩ := threaded_of_result hright
    exact .operation op (ihl hleft) (ihr hright)

/-- **Outcomes are shown like their expressions.** The text of an expression consists of those of its
leaves, with its operators between them. Whenever the expression is evaluated, its outcome is shown with
the same operators in the same places, and with the rolls of each dice term, in the order in which they
were drawn, where the dice term stands. Read from left to right, the lists between the brackets of
what is shown are these rolls; if no dice lay on the table before, they are all dice of the outcome.

**Proof sketch.** Evaluation builds an outcome with a node for each node of the expression. By
induction on what it builds, it is shown leaf by leaf with the rolls of its dice terms, and its text
contributes these rolls to whatever is read in front of another text. -/
theorem text_of_result (h : e.result limit g = some (o, g')) :
    e.text = woven (e.leaves.map text) e.operators ∧
      ∃ rs, Dice.Threaded limit e.diceTerms g rs g' ∧
        o.text = woven (shownLeaves e.leaves rs) e.operators ∧
        bracketedLists o.text.toList = rs ∧
        ((∀ faces value, .die faces value ∉ e.leaves) →
          (bracketedLists o.text.toList).flatten = o.diceRolls) := by
  obtain ⟨rs, hrs, hexpression, hterms, hrolls⟩ := threaded_of_result h
  have hbuilt := built_of_result h
  have hshown : o.rollsShown = rs := by
    rw [Outcome.rollsShown, hterms, List.map_snd_zip (Nat.le_of_eq hrs.length_eq)]
  have hlists : bracketedLists o.text.toList = rs := by
    have hread := hbuilt.contributes_text []
    rwa [List.append_nil, hshown, show bracketedLists [] = [] from rfl, List.append_nil] at hread
  refine ⟨e.text_eq_woven, rs, hrs, ?_, hlists, fun hdie => ?_⟩
  · rw [hbuilt.text_eq_woven, hexpression, hshown]
  · rw [hlists, hrolls, onTable_eq_flatten hdie hrs.length_eq]

/-- Exploding dice, no dice at all and a constant, with the first operation nested on the left. -/
def sampleShown : Expression :=
  .operation .sub (.operation .add (.dice ⟨2, 6, .explode⟩) (.dice ⟨0, 6, .none⟩)) (.constant (-7))

/-- With words for which the second die explodes, `2d6e + 0d6 - -7` is shown with three numbers between
the first two brackets and none between the others. -/
theorem text_of_result_sample :
    ∃ o g rs, sampleShown.result 10 (ScriptedWords.ofList [0, 4294967295, 2147483648]) = some (o, g) ∧
      (∀ faces value, .die faces value ∉ sampleShown.leaves) ∧
      sampleShown.text = woven ["2d6e", "0d6", "-7"] [.add, .sub] ∧
      o.text = woven (shownLeaves sampleShown.leaves rs) [.add, .sub] ∧
      o.text = "[1, 6, 3] + [] - -7" ∧ rs.flatten = o.diceRolls := by
  have hreturns :
      ((sampleShown.result 10 (ScriptedWords.ofList [0, 4294967295, 2147483648])).map
        fun r => r.1.text) = some "[1, 6, 3] + [] - -7" := by decide +kernel
  have hdie : ∀ faces value, .die faces value ∉ sampleShown.leaves := by
    intro faces value
    simp [sampleShown, leaves]
  obtain ⟨⟨o, g⟩, hresult, htext⟩ := Option.map_eq_some_iff.1 hreturns
  obtain ⟨hexpression, rs, -, hwoven, hlists, hdice⟩ := text_of_result hresult
  exact ⟨o, g, rs, hresult, hdie, hexpression, hwoven, htext, hlists ▸ hdice hdie⟩

end Expression

end DiceNotation
