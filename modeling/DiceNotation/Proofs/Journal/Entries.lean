import DiceNotation.Journal
import DiceNotation.Proofs.Journal.Looked
import DiceNotation.Proofs.Meaning.Chains

set_option autoImplicit false

/-!
# The journal tells what happened

Rolling with a journal is rolling without one: what is entered can be read off the tokens that were looked
at and off the outcomes. Each dice term adds one entry when it has been rolled, so the entries of the rolls
are those of the terms in the outcomes, from left to right. What a reader sees of an entry is its level and
its text, so the journal as it is read is known from the tokens and the outcomes as well.

## Main definitions

* `Message.shown` — what the reader of a journal sees of an entry.
* `Outcome.rolled?`, `Outcome.rolledShown?` — the entry of a dice term, and what is seen of it.
* `Outcome.entries` — the entries of an outcome.

## Main results

* `Expression.run_evaluateWithJournal`, `Rolls.run_evaluateWithJournal` — rolling with a journal is rolling
  without one, and adds the entries of the outcomes.
* `Rolls.results_leaves` — the terms of the outcomes are those of the expressions, from left to right.
* `rollWithJournal_of_rollText` — the outcomes of a text, all entries of the journal, and what they say.
-/

namespace DiceNotation

/-- What the reader of a journal sees of an entry: how much it matters, and what it says. -/
def Message.shown (m : Message) : Level × String :=
  (m.level, m.text)

/-- Tokens that were looked at are seen as traces that name them. -/
theorem Message.map_shown_buffered (looked : List Token) :
    (looked.map buffered).map shown =
      looked.map fun t => (.trace, "buffered token " ++ t.text) := by
  rw [List.map_map]
  rfl

namespace Outcome

/-- The entry of a dice term: what the dice showed, and what they amount to. -/
def rolled? (o : Outcome) : Option Message :=
  o.expression.dice?.map fun d => .rolled d (o.steps.map value) o.value

/-- What is seen of a dice term: the dice, what they showed, and what they amount to. -/
def rolledShown? (o : Outcome) : Option (Level × String) :=
  o.expression.dice?.map fun d =>
    (.debug, "rolled " ++ d.text ++ ": " ++ bracketed (o.steps.map value) ++ " = " ++
      Numeral.ofInt32 o.value)

/-- The entries of dice terms, as they are seen. -/
theorem map_shown_rolled (terms : List Outcome) :
    (terms.filterMap rolled?).map Message.shown = terms.filterMap rolledShown? := by
  have hterm : (fun o => (rolled? o).map Message.shown) = rolledShown? := by
    funext o
    rw [rolled?, Option.map_map]
    rfl
  rw [List.map_filterMap, hterm]

/-- The entries of an outcome: one for each of its dice terms, from left to right. -/
def entries (o : Outcome) : List Message :=
  o.terms.filterMap rolled?

/-- A number adds no entry. -/
theorem entries_constant (value : Int32) : (leaf (.constant value) value).entries = [] :=
  rfl

/-- A die that lay on the table before adds no entry. -/
theorem entries_die (faces value : Int32) : (leaf (.die faces value) value).entries = [] :=
  rfl

/-- The entry of dice tells their rolls. -/
theorem entries_outcomeOf (d : Dice) (rolls : List Int32) :
    (d.outcomeOf rolls).entries = [.rolled d rolls (d.combine rolls)] := by
  have hsteps : (d.outcomeOf rolls).steps.map value = rolls := by
    simp [Dice.outcomeOf, Function.comp_def, leaf]
  show [Message.rolled d ((d.outcomeOf rolls).steps.map value) (d.combine rolls)] = _
  rw [hsteps]

/-- The entries of an operation are those of both operands. -/
theorem entries_operation (op : Operator) (lhs rhs : Expression) (v : Int32) (left right : Outcome) :
    entries ⟨.operation op lhs rhs, v, [left, right]⟩ = left.entries ++ right.entries := by
  rw [entries, terms_operation, List.filterMap_append]
  rfl

end Outcome

/-! ## Rolling with a journal -/

variable {γ : Type} [WordSource γ]

/-- Rolling dice with a journal adds one entry. -/
theorem Dice.run_evaluateWithJournal (limit : Nat) (d : Dice) (journal : Array Message) :
    ((d.evaluateWithJournal limit).run journal : Rolling γ (Outcome × Array Message)) =
      (fun o => (o, journal ++ o.entries.toArray)) <$> d.evaluate limit := by
  simp [evaluateWithJournal, evaluate, Outcome.entries_outcomeOf]

/-- Evaluating an expression with a journal adds the entries of its outcome.

**Proof sketch.** Induction on the expression. The left operand of an operation adds its entries first. -/
theorem Expression.run_evaluateWithJournal (limit : Nat) (e : Expression) (journal : Array Message) :
    ((e.evaluate (Dice.evaluateWithJournal limit)).run journal :
        Rolling γ (Outcome × Array Message)) =
      (fun o => (o, journal ++ o.entries.toArray)) <$> e.result limit := by
  unfold result
  induction e generalizing journal with
  | constant value => simp [evaluate, Outcome.entries_constant]
  | die faces value => simp [evaluate, Outcome.entries_die]
  | dice d => exact d.run_evaluateWithJournal limit journal
  | operation op lhs rhs ihl ihr => simp [evaluate, ihl, ihr, Outcome.entries_operation]

namespace Rolls

/-- Evaluating expressions with a journal adds the entries of their outcomes. -/
theorem run_evaluateWithJournal (limit : Nat) (rolls : Rolls) (journal : Array Message) :
    ((rolls.evaluate (Dice.evaluateWithJournal limit)).run journal :
        Rolling γ (List Outcome × Array Message)) =
      (fun os => (os, journal ++ (os.flatMap Outcome.entries).toArray)) <$> rolls.results limit := by
  unfold results
  induction rolls generalizing journal with
  | nil => simp [evaluate]
  | cons e es ih =>
    simp [evaluate, ih, Expression.run_evaluateWithJournal, Expression.result]

variable {limit : Nat} {rolls : Rolls} {g g' : γ} {os : List Outcome}

/-- Evaluating expressions is evaluating what is written between their operators, from left to right. -/
theorem results_leaves (h : rolls.results limit g = some (os, g')) :
    results limit rolls.leaves g = some (os.flatMap Outcome.terms, g') := by
  induction rolls generalizing g os with
  | nil =>
    obtain ⟨rfl, rfl⟩ := Rolling.pure_eq_some.1 h
    rfl
  | cons e es ih =>
    obtain ⟨o, g₁, hfirst, hrest⟩ := Rolling.bind_eq_some.1 h
    obtain ⟨os', g₂, hothers, hpure⟩ := Rolling.bind_eq_some.1 hrest
    obtain ⟨rfl, rfl⟩ := Rolling.pure_eq_some.1 hpure
    exact results_append (Expression.results_leaves hfirst) (ih hothers)

/-- The terms of the outcomes are those of the expressions, from left to right. -/
theorem map_expression_terms (h : rolls.results limit g = some (os, g')) :
    (os.flatMap Outcome.terms).map Outcome.expression = rolls.leaves := by
  obtain ⟨-, -, hexpressions, -⟩ := threaded_of_results (results_leaves h)
  exact hexpressions

end Rolls

/-! ## The journal of a text -/

/-- A text that is not parsed has no expressions. -/
theorem Rolls.ofText_eq_error {text : String} {e : ParseError} (h : parse text = .error e) :
    Rolls.ofText text = .error (.unparsable e) := by
  unfold Rolls.ofText
  rw [h]
  rfl

/-- A text without expressions has no outcomes. -/
theorem rollText_of_ofText_eq_error {limit : Nat} {text : String} {e : Failure}
    (h : Rolls.ofText text = .error e) : (rollText limit text : Rolling γ _) = pure (.error e) := by
  unfold rollText
  rw [h]

/-- The outcomes of a text are those of its expressions. -/
theorem rollText_of_ofText_eq_ok {limit : Nat} {text : String} {rolls : Rolls}
    (h : Rolls.ofText text = .ok rolls) :
    (rollText limit text : Rolling γ _) = .ok <$> rolls.results limit := by
  unfold rollText
  rw [h]

/-- Behind the start of a program, its tokens end with an end. -/
theorem Program.Spelling.getLast?_tail {prog : Program} {ts : List Token} (h : prog.Spelling ts) :
    ∃ stop, ts.tail.getLast? = some stop ∧ stop.kind = .eof := by
  cases h with
  | @program start stop items ts _ _ hstop => exact ⟨stop, by simp, hstop⟩

variable {limit : Nat} {text : String} {p : Parser Lookahead} {g g' : γ}
  {result : Except Failure (List Outcome)}

/-- If a text is not parsed, the journal has the tokens that were looked at. -/
theorem rollWithJournal_of_parse_eq_error {e : ParseError}
    (h : (Parser.onText text.toList).parse = (.error e, p)) :
    (rollWithJournal limit text : Rolling γ _) =
      pure (.error (.unparsable e), p.tokens.buffered.toList.map .buffered) := by
  unfold Parser.onText at h
  unfold rollWithJournal
  rw [h]

/-- If a text is parsed, the journal goes on with the number of its expressions and the entries of their
outcomes. -/
theorem rollWithJournal_of_parse_eq_ok {prog : Program} {rolls : Rolls}
    (h : (Parser.onText text.toList).parse = (.ok prog, p)) (hrolls : prog.rolls = .ok rolls) :
    (rollWithJournal limit text : Rolling γ _) =
      (fun os => (.ok os, p.tokens.buffered.toList.map .buffered ++
        .parsed prog.items.length :: os.flatMap Outcome.entries)) <$> rolls.results limit := by
  unfold Parser.onText at h
  unfold rollWithJournal
  rw [h]
  simp [hrolls, Rolls.run_evaluateWithJournal]

/-- **The journal tells what happened.** Whenever rolling a text comes to an end, so does rolling it with a
journal, in the same way. The journal begins with tokens that were looked at: the first ones behind the start
of the text, each of them once and in order. If the text is not parsed, there is nothing else in it, and no
entry matters more than a trace. If it is parsed, all tokens have been looked at, the end of the text as
the last one; the number of outcomes is the next entry, and then there is one for each dice term, in
rolling order, with the rolls and the value that the outcomes have there. Whoever reads the journal sees
traces that name the tokens and, behind them, the number and the rolls with their values.

**Proof sketch.** The parser looks at every token before it reads it, the start of the text apart. Evaluating
an expression with a journal adds the entries of its outcome, whose terms are those of the expression. -/
theorem rollWithJournal_of_rollText (h : rollText limit text g = some (result, g')) :
    ∃ (looked : List Token) (journal : List Message),
      rollWithJournal limit text g = some ((result, journal), g') ∧
      looked.map .ok <+: (Lexer.ofText text.toList).items.tail ∧
      match result with
      | .error e => (∃ cause, parse text = .error cause ∧ e = .unparsable cause) ∧
        journal = looked.map .buffered ∧ (∀ m ∈ journal, m.level = .trace) ∧
        journal.map Message.shown = looked.map fun t => (Level.trace, "buffered token " ++ t.text)
      | .ok os => ∃ rolls, Rolls.ofText text = .ok rolls ∧ os.map Outcome.expression = rolls ∧
        looked.map .ok = (Lexer.ofText text.toList).items.tail ∧
        (∃ stop, looked.getLast? = some stop ∧ stop.kind = .eof) ∧
        (os.flatMap Outcome.terms).map Outcome.expression = rolls.leaves ∧
        journal = looked.map .buffered ++
          .parsed os.length :: (os.flatMap Outcome.terms).filterMap Outcome.rolled? ∧
        journal.map Message.shown = (looked.map fun t => (Level.trace, "buffered token " ++ t.text)) ++
          (Level.debug, "parsed " ++ os.length.repr ++ " expressions") ::
            (os.flatMap Outcome.terms).filterMap Outcome.rolledShown? := by
  have hlooked := Parser.looked_onText text.toList
  obtain ⟨⟨parsed, p⟩, hpair⟩ : ∃ r, (Parser.onText text.toList).parse = r := ⟨_, rfl⟩
  have hparse : parse text = parsed := congrArg Prod.fst hpair
  rw [hpair] at hlooked
  refine ⟨p.tokens.buffered.toList, ?_⟩
  cases parsed with
  | error cause =>
    rw [rollText_of_ofText_eq_error (Rolls.ofText_eq_error hparse)] at h
    obtain ⟨rfl, rfl⟩ := Rolling.pure_eq_some.1 h
    refine ⟨_, ?_, hlooked, ⟨cause, hparse, rfl⟩, rfl, by simp [Message.level],
      Message.map_shown_buffered _⟩
    rw [rollWithJournal_of_parse_eq_error hpair]
    rfl
  | ok prog =>
    obtain ⟨ts, hspelling, hitems⟩ := parse_eq_ok_iff_spelling.1 hparse
    obtain ⟨rolls, hrolls, hmap, -⟩ := hspelling.exists_rolls fun t ht =>
      isPlain_of_mem_items (l := Lexer.ofText text.toList) (hitems ▸ List.mem_map_of_mem ht)
    have htext := Rolls.ofText_eq_ok hparse hrolls
    rw [rollText_of_ofText_eq_ok htext, ← bind_pure_comp] at h
    obtain ⟨os, g₁, hos, hpure⟩ := Rolling.bind_eq_some.1 h
    obtain ⟨rfl, rfl⟩ := Rolling.pure_eq_some.1 hpure
    obtain ⟨-, -, hexpressions, -⟩ := Rolls.threaded_of_results hos
    have hlen : prog.items.length = os.length := by
      have htrees := congrArg List.length hmap
      have houtcomes := congrArg List.length hexpressions
      rw [List.length_map] at houtcomes
      rw [List.length_map, List.length_map, ← houtcomes] at htrees
      exact htrees
    have hall : p.tokens.buffered.toList = ts.tail := by
      rw [hitems, ← List.map_tail] at hlooked
      exact (List.map_inj_right fun _ _ => Except.ok.inj).1 hlooked
    refine ⟨_, ?_, hlooked ▸ List.prefix_rfl, rolls, htext, hexpressions, hlooked,
      hall ▸ hspelling.getLast?_tail, Rolls.map_expression_terms hos, rfl, ?_⟩
    · have hentries : (os.flatMap Outcome.terms).filterMap Outcome.rolled? =
          os.flatMap Outcome.entries := List.filterMap_flatMap
      rw [rollWithJournal_of_parse_eq_ok hpair hrolls, ← bind_pure_comp, hlen, hentries]
      exact Rolling.bind_eq_some.2 ⟨os, g₁, hos, rfl⟩
    · rw [List.map_append, List.map_cons, Message.map_shown_buffered, Outcome.map_shown_rolled]
      rfl

/-- Words for which both dice of `2d6-d4; 7` that have six faces show different values. -/
def journalWords : ScriptedWords :=
  .ofList [0, 4294967295, 2147483648]

/-- The journal of `2d6-d4; 7` with these words. -/
theorem rollWithJournal_of_rollText_sample :
    ∃ (os : List Outcome) (g : ScriptedWords) (looked : List Token) (journal : List Message),
      rollText 10 "2d6-d4; 7" journalWords = some (.ok os, g) ∧
      rollWithJournal 10 "2d6-d4; 7" journalWords = some ((.ok os, journal), g) ∧
      looked.map .ok = (Lexer.ofText "2d6-d4; 7".toList).items.tail ∧
      journal = looked.map .buffered ++
        .parsed os.length :: (os.flatMap Outcome.terms).filterMap Outcome.rolled? ∧
      journal.map Message.shown = (looked.map fun t => (Level.trace, "buffered token " ++ t.text)) ++
        [(Level.debug, "parsed 2 expressions"), (Level.debug, "rolled 2d6: [1, 6] = 7"),
          (Level.debug, "rolled d4: [2] = 2")] := by
  have hreturns : ((rollText 10 "2d6-d4; 7" journalWords).map fun r => r.1.toOption.map fun os =>
      (os.length, (os.flatMap Outcome.terms).filterMap Outcome.rolledShown?)) =
      some (some (2, [(Level.debug, "rolled 2d6: [1, 6] = 7"), (Level.debug, "rolled d4: [2] = 2")])) := by
    decide +kernel
  obtain ⟨⟨result, g⟩, h, hresult⟩ := Option.map_eq_some_iff.1 hreturns
  obtain ⟨looked, journal, hjournal, -, htells⟩ := rollWithJournal_of_rollText h
  cases result with
  | error e => cases hresult
  | ok os =>
    obtain ⟨-, -, -, hall, -, -, hentries, hshown⟩ := htells
    obtain ⟨hlen, hrolled⟩ := Prod.mk.inj (Option.some.inj hresult)
    rw [hlen, hrolled] at hshown
    exact ⟨os, g, looked, journal, h, hjournal, hall, hentries, hshown⟩

end DiceNotation
