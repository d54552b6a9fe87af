import DiceNotation.Proofs.Notation.Boundaries
import DiceNotation.Proofs.Notation.Trees
import DiceNotation.Proofs.Parsing.Alike

set_option autoImplicit false

/-!
# The parser recognizes the grammar of texts

A text is parsed exactly if the grammar derives it, and its program is that of the derivation. Both
directions go through the pieces of the text: its tokens are the tokens of the pieces, and these are
the pieces of a derivation.

## Main results

* `Grammar.Derivation.parse_text` — a derived text is parsed, with the program of its derivation.
* `Grammar.exists_derivation_of_parse` — a text that is parsed is derived.
* `Grammar.parse_eq_ok_iff_derives` — a text is parsed exactly if it is derived, with the program of
  its only derivation.
-/

namespace DiceNotation

namespace Grammar

/-- The items of a derived text are the tokens of its derivation, between a start and an end. -/
theorem Derivation.items_text (d : Derivation) :
    ∃ start stop : Token, start.kind = .sof ∧ stop.kind = .eof ∧
      (Lexer.ofText d.text).items = (start :: place d.spaces d.pieces ++ [stop]).map .ok := by
  have hitems := (items_ofText_append_iff d.spaces d.pieces).2 d.chain.wellFormed
  refine ⟨Token.sofWith (String.ofList (List.replicate d.spaces ' ')) (d.spaces - 1),
    Token.eof (d.spaces + (textOf d.pieces).length), rfl, rfl, hitems.trans ?_⟩
  simp [reading]

/-- A derived text is parsed, with the program of its derivation. -/
theorem Derivation.parse_text {d : Derivation} {text : String} (h : d.text = text.toList) :
    parse text = .ok d.program := by
  obtain ⟨start, stop, hstart, hstop, hitems⟩ := d.items_text
  rw [h] at hitems
  exact parse_eq_ok_iff_spelling.2 ⟨_, d.spelling hstart hstop, hitems⟩

/-- A text that is parsed is derived, by a derivation of its program. -/
theorem exists_derivation_of_parse {text : String} {p : Program} (h : parse text = .ok p) :
    ∃ d : Derivation, d.text = text.toList ∧ d.program = p := by
  obtain ⟨ts, hspelling, hall⟩ := parse_eq_ok_iff_spelling.1 h
  cases hspelling with
  | @program start stop items ts hstart hlisting hstop =>
    obtain ⟨start', -, hitems⟩ := Lexer.items_ofText text.toList
    set spaces := (text.toList.takeWhile (· == ' ')).length with hspaces
    have hrest : Lexer.items ⟨Cursor.place text.toList spaces, none⟩ =
        ts.map .ok ++ [.ok stop] := by
      have heq := hitems.symm.trans hall
      simp only [List.cons_append, List.map_cons, List.map_append, List.map_nil] at heq
      exact (List.cons.inj heq).2
    obtain ⟨ps, hplace, htext⟩ := exists_pieces (Int.natCast_nonneg _) hrest
    obtain ⟨d, hd, rfl, hprogram⟩ := exists_derivation hlisting hplace
    refine ⟨d, ?_, hprogram⟩
    have hdrop : textOf d.pieces = text.toList.drop spaces := by
      simpa [Cursor.place] using htext
    rw [Derivation.text, hd, hdrop, hspaces, ← takeWhile_space]
    exact List.prefix_iff_eq_append.1 (List.takeWhile_prefix _)

/-- **The parser recognizes the grammar.** A text is parsed exactly if the grammar derives it, its
program is the one of the derivation, and it has no other derivation.

**Proof sketch.** The tokens of a derivation are read from its text, and the parser accepts them.
The other way round, the tokens of a program come from pieces of the text, and these from a
derivation. Two derivations of a text have the program of the text, and its trees tell the
derivation. -/
theorem parse_eq_ok_iff_derives (text : String) :
    (∀ p, parse text = .ok p ↔ ∃ d : Derivation, d.text = text.toList ∧ d.program = p) ∧
      ∀ d d' : Derivation, d.text = text.toList → d'.text = text.toList → d = d' := by
  constructor
  · intro p
    constructor
    · exact exists_derivation_of_parse
    · rintro ⟨d, htext, rfl⟩
      exact d.parse_text htext
  · intro d d' hd hd'
    have hprogram : d.program = d'.program :=
      Except.ok.inj ((d.parse_text hd).symm.trans (d'.parse_text hd'))
    exact Derivation.eq_of_program_eq hprogram (by rw [hd, hd'])

/-- The program of `d4h-1`. -/
def sampleProgram : Program :=
  ⟨[.operation
    (.dice none ⟨.dSymbol, "d", 0, 0⟩ ⟨.number, "4", 1, 1⟩ (some ⟨.modifier, "h", 2, 2⟩))
    ⟨.operator, "-", 3, 3⟩ (.number ⟨.number, "1", 4, 4⟩ 1)]⟩

/-- A text with a derivation, which is the only one, and a text with none: dice with one face do not
explode. -/
theorem parse_eq_ok_iff_derives_sample :
    (∃ d : Derivation, (d.text = "d4h-1".toList ∧ d.program = sampleProgram) ∧
      ∀ d' : Derivation, d'.text = "d4h-1".toList → d' = d) ∧
    ¬ ∃ d : Derivation, d.text = "d1e".toList := by
  constructor
  · obtain ⟨hparse, hunique⟩ := parse_eq_ok_iff_derives "d4h-1"
    obtain ⟨d, hd⟩ := (hparse sampleProgram).1 (by decide +kernel)
    exact ⟨d, hd, fun d' hd' => hunique d' d hd' hd.1⟩
  · rintro ⟨d, hd⟩
    have hparse := ((parse_eq_ok_iff_derives "d1e").1 d.program).2 ⟨d, hd, rfl⟩
    have hfails : (parse "d1e").toOption = none := by decide +kernel
    simp [hparse, Except.toOption] at hfails

end Grammar

end DiceNotation
