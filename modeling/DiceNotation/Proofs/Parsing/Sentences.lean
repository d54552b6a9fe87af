import DiceNotation.Proofs.Parsing.Limits

set_option autoImplicit false

/-!
# Sentences

The grammar of token sequences without trees. A sequence is a sentence exactly if it spells a
program, so a stream is parsed exactly if its list begins with a sentence. There is at most one such
sentence, since a sentence ends with its only end; it is what the parser reads, and what comes behind
it does not matter.

## Main definitions

* `Sentence.IsTerminal`, `Sentence.IsExpression`, `Sentence.IsFurther`, `Sentence.IsListing` — the
  token sequences of terminals, expressions and expressions with separators.
* `IsSentence` — the token sequences of programs.

## Main results

* `isSentence_iff_exists_spelling` — the sentences are the sequences that spell a program.
* `Parser.parse_of_spelling` — a spelling at the front of a stream is read, with its program.
* `Parser.parse_eq_ok_iff_isSentence` — what is parsed, what is read for it, and what is not
  looked at.
-/

namespace DiceNotation

/-! ## The grammar -/

namespace Sentence

/-- The tokens of a terminal: a number, or dice with a count or none and with a modifier or none. -/
inductive IsTerminal : List Token → Prop
  | number {t : Token} {value : Int32} (h : t.IsNumber value) : IsTerminal [t]
  | dice {count modifier : Option Token} {dSymbol faces : Token} {value : Int32}
    (hcount : ∀ t ∈ count, t.IsCount) (hd : dSymbol.kind = .dSymbol) (hfaces : faces.IsNumber value)
    (hmodifier : ∀ t ∈ modifier, t.IsModifier value) :
    IsTerminal (count.toList ++ [dSymbol, faces] ++ modifier.toList)

/-- The tokens of an expression: a terminal, or a terminal, an operator and an expression. -/
inductive IsExpression : List Token → Prop
  | terminal {ts : List Token} (h : IsTerminal ts) : IsExpression ts
  | operation {ts us : List Token} {operator : Token} (hts : IsTerminal ts)
    (hoperator : operator.kind = .operator) (hus : IsExpression us) :
    IsExpression (ts ++ operator :: us)

/-- The tokens of expressions, each behind a separator. -/
inductive IsFurther : List Token → Prop
  | nil : IsFurther []
  | cons {separator : Token} {ts us : List Token} (hseparator : separator.kind = .separator)
    (hts : IsExpression ts) (hus : IsFurther us) : IsFurther (separator :: ts ++ us)

/-- The tokens of expressions with separators between them, or none. -/
inductive IsListing : List Token → Prop
  | nil : IsListing []
  | cons {ts us : List Token} (hts : IsExpression ts) (hus : IsFurther us) : IsListing (ts ++ us)

end Sentence

/-- The tokens of a program: the start, expressions with separators between them or none, the
end. -/
inductive IsSentence : List Token → Prop
  | sentence {start stop : Token} {ts : List Token} (hstart : start.kind = .sof)
    (hts : Sentence.IsListing ts) (hstop : stop.kind = .eof) : IsSentence (start :: ts ++ [stop])

/-! ## Sentences and trees -/

namespace Sentence

/-- The sequences of terminals are those of their trees. -/
theorem isTerminal_iff {ts : List Token} : IsTerminal ts ↔ ∃ n : Node, n.IsTerminal ∧ n.tokens = ts := by
  constructor
  · rintro (h | ⟨hcount, hd, hfaces, hmodifier⟩)
    · exact ⟨_, .number h, rfl⟩
    · exact ⟨_, .dice hcount hd hfaces hmodifier, rfl⟩
  · rintro ⟨n, h | ⟨hcount, hd, hfaces, hmodifier⟩, rfl⟩
    · exact .number h
    · exact .dice hcount hd hfaces hmodifier

/-- The sequences of expressions are those of their trees. -/
theorem isExpression_iff {ts : List Token} :
    IsExpression ts ↔ ∃ n : Node, n.IsExpression ∧ n.tokens = ts := by
  constructor
  · intro h
    induction h with
    | terminal h =>
      obtain ⟨n, hn, rfl⟩ := isTerminal_iff.1 h
      exact ⟨n, .terminal hn, rfl⟩
    | operation hts hoperator _ ih =>
      obtain ⟨left, hleft, rfl⟩ := isTerminal_iff.1 hts
      obtain ⟨right, hright, rfl⟩ := ih
      exact ⟨_, .operation hleft hoperator hright, rfl⟩
  · rintro ⟨n, hn, rfl⟩
    induction hn with
    | terminal h => exact .terminal (isTerminal_iff.2 ⟨_, h, rfl⟩)
    | operation hleft hoperator _ ih =>
      exact .operation (isTerminal_iff.2 ⟨_, hleft, rfl⟩) hoperator ih

/-- The sequences of further expressions are those of their trees. -/
theorem isFurther_iff {ts : List Token} : IsFurther ts ↔ ∃ ns, Program.Further ns ts := by
  constructor
  · intro h
    induction h with
    | nil => exact ⟨[], .nil⟩
    | cons hseparator hts _ ih =>
      obtain ⟨n, hn, rfl⟩ := isExpression_iff.1 hts
      obtain ⟨ns, hns⟩ := ih
      exact ⟨n :: ns, .cons hseparator hn hns⟩
  · rintro ⟨ns, h⟩
    induction h with
    | nil => exact .nil
    | cons hseparator hn _ ih => exact .cons hseparator (isExpression_iff.2 ⟨_, hn, rfl⟩) ih

/-- The sequences of listed expressions are those of their trees. -/
theorem isListing_iff {ts : List Token} : IsListing ts ↔ ∃ ns, Program.Listing ns ts := by
  constructor
  · rintro (_ | ⟨hts, hus⟩)
    · exact ⟨[], .nil⟩
    · obtain ⟨n, hn, rfl⟩ := isExpression_iff.1 hts
      obtain ⟨ns, hns⟩ := isFurther_iff.1 hus
      exact ⟨n :: ns, .cons hn hns⟩
  · rintro ⟨ns, _ | ⟨hn, hns⟩⟩
    · exact .nil
    · exact .cons (isExpression_iff.2 ⟨_, hn, rfl⟩) (isFurther_iff.2 ⟨_, hns⟩)

end Sentence

/-- The sentences are the sequences that spell a program. -/
theorem isSentence_iff_exists_spelling {ts : List Token} :
    IsSentence ts ↔ ∃ prog : Program, prog.Spelling ts := by
  constructor
  · rintro ⟨hstart, hts, hstop⟩
    obtain ⟨items, hitems⟩ := Sentence.isListing_iff.1 hts
    exact ⟨⟨items⟩, .program hstart hitems hstop⟩
  · rintro ⟨prog, hstart, hitems, hstop⟩
    exact .sentence hstart (Sentence.isListing_iff.2 ⟨_, hitems⟩) hstop

/-! ## Sentences at the front of a stream -/

/-- If a stream starts with no more tokens than its list has items, its list begins with them. -/
theorem FixedStream.Starts.isPrefix_of_length_le {s : FixedStream} {ts : List Token}
    (h : s.Starts ts) (hcursor : s.cursor = 0) (hlen : ts.length ≤ s.items.length) :
    ts.map .ok <+: s.items := by
  rw [List.prefix_iff_getElem?]
  intro i hi
  rw [List.length_map] at hi
  have hahead := s.some_ahead i
  rw [h i ts[i] (List.getElem?_eq_getElem hi), hcursor, Nat.zero_add,
    nthOrLast_of_lt (by omega)] at hahead
  rw [List.getElem?_eq_getElem (by omega), ← hahead, List.getElem_map]

/-- If a stream starts with tokens of which just the last one is an end, its list begins with them.

**Proof sketch.** Were the list shorter, its last item would be among the tokens in front of the end.
But a stream repeats the last item of its list, so that item would be the end as well. -/
theorem FixedStream.Starts.isPrefix {s : FixedStream} {us : List Token} {stop : Token}
    (h : s.Starts (us ++ [stop])) (hcursor : s.cursor = 0) (hne : ∀ t ∈ us, t.kind ≠ .eof)
    (hstop : stop.kind = .eof) : (us ++ [stop]).map .ok <+: s.items := by
  have hpos := List.length_pos_iff.2 s.items_ne_nil
  have hahead (i : Nat) (t : Token) (ht : (us ++ [stop])[i]? = some t) :
      nthOrLast s.items i = some (.ok t) := by
    rw [← h i t ht, s.some_ahead, hcursor, Nat.zero_add]
  refine h.isPrefix_of_length_le hcursor ?_
  rw [List.length_append, List.length_singleton, Nat.succ_le_iff]
  by_contra hle
  have hlast := hahead us.length stop (by simp)
  have hi : s.items.length - 1 < us.length := by omega
  have hinner := hahead (s.items.length - 1) us[s.items.length - 1]
    (by rw [List.getElem?_append_left hi, List.getElem?_eq_getElem hi])
  have hsame : us[s.items.length - 1] = stop := by
    rw [nthOrLast, List.getElem?_eq_none (by omega), Option.none_or,
      List.getLast?_eq_getElem?] at hlast
    rw [nthOrLast_of_lt (by omega), ← List.getElem?_eq_getElem, hlast] at hinner
    exact (Except.ok.inj (Option.some.inj hinner)).symm
  exact hne _ (List.getElem_mem hi) (hsame ▸ hstop)

namespace Parser

/-- A parser in front of the items `items`. -/
def ofItems (items : List Item) (h : items ≠ []) : Parser FixedStream :=
  ofStream (FixedStream.ofItems items h)

/-- A spelling at the front of a stream is read, with its program. -/
theorem parse_of_spelling {items : List Item} {h : items ≠ []} {prog : Program} {ts : List Token}
    (hspelling : prog.Spelling ts) (hts : ts.map .ok <+: items) :
    (ofItems items h).parse = (.ok prog, (ofItems items h).behind ts) :=
  parse_eq_iff.2 ⟨ts.length, program_complete hspelling
    ⟨FixedStream.starts_of_prefix rfl hts, rfl⟩ (Nat.le_refl _)⟩

/-- **A stream is parsed exactly if it begins with a sentence.** It begins with one sentence at most.
The program is spelled by that sentence, whose tokens are just those that have been read, and with
anything else behind the sentence the outcome is the same.

**Proof sketch.** A sentence spells a program, and a spelling at the front of a stream is read; how
much has been read tells the sentence. The other way round, the program of a stream is spelled by
tokens that the stream starts with, and as only the last of them is an end, they are items of the
list. -/
theorem parse_eq_ok_iff_isSentence (items : List Item) (h : items ≠ []) :
    ((∃ prog, (ofItems items h).parse.1 = .ok prog) ↔ ∃ ts, IsSentence ts ∧ ts.map .ok <+: items) ∧
    (∀ ts us, IsSentence ts → ts.map .ok <+: items → IsSentence us → us.map .ok <+: items →
      ts = us) ∧
    ∀ ts, IsSentence ts → ts.map .ok <+: items →
      ∃ prog : Program, prog.Spelling ts ∧
        (ofItems items h).parse = (.ok prog, (ofItems items h).behind ts) ∧
        ∀ (rest : List Item) (h' : ts.map .ok ++ rest ≠ []),
          (ofItems (ts.map .ok ++ rest) h').parse =
            (.ok prog, (ofItems (ts.map .ok ++ rest) h').behind ts) := by
  refine ⟨⟨?_, ?_⟩, ?_, ?_⟩
  · rintro ⟨prog, hparse⟩
    obtain ⟨ts, hspelling, hstarts⟩ := parse_eq_ok_iff.1 hparse
    obtain ⟨us, stop, rfl, hne, hstop⟩ := hspelling.exists_append
    exact ⟨_, isSentence_iff_exists_spelling.2 ⟨prog, hspelling⟩, hstarts.isPrefix rfl hne hstop⟩
  · rintro ⟨ts, hts, hitems⟩
    obtain ⟨prog, hspelling⟩ := isSentence_iff_exists_spelling.1 hts
    exact ⟨prog, by rw [parse_of_spelling hspelling hitems]⟩
  · intro ts us hts hitems hus hitems'
    obtain ⟨prog, hspelling⟩ := isSentence_iff_exists_spelling.1 hts
    obtain ⟨prog', hspelling'⟩ := isSentence_iff_exists_spelling.1 hus
    have hread := (parse_of_spelling (h := h) hspelling hitems).symm.trans
      (parse_of_spelling hspelling' hitems')
    have hcursor := congrArg (fun r => r.2.tokens.cursor) hread
    have hlen : ts.length = us.length := Nat.add_left_cancel hcursor
    have hmap := (List.prefix_of_prefix_length_le hitems hitems' (by simp [hlen])).eq_of_length
      (by simp [hlen])
    exact (List.map_inj_right fun _ _ => Except.ok.inj).1 hmap
  · intro ts hts hitems
    obtain ⟨prog, hspelling⟩ := isSentence_iff_exists_spelling.1 hts
    exact ⟨prog, hspelling, parse_of_spelling hspelling hitems, fun rest h' =>
      parse_of_spelling hspelling (List.prefix_append _ rest)⟩

/-- The tokens of `d4h - 1; 2`. -/
def sampleSentence : List Token :=
  [Token.sof, ⟨.dSymbol, "d", 0, 0⟩, ⟨.number, "4", 1, 1⟩, ⟨.modifier, "h ", 2, 3⟩,
    ⟨.operator, "- ", 4, 5⟩, ⟨.number, "1", 6, 6⟩, ⟨.separator, "; ", 7, 8⟩, ⟨.number, "2", 9, 9⟩,
    Token.eof 10]

/-- A sentence with another start behind it. -/
def sampleItems : List Item :=
  sampleSentence.map .ok ++ [.ok Token.sof]

/-- A stream that begins with no sentence, since its only number has no value. -/
def sampleNoSentence : List Item :=
  [.ok Token.sof, .ok ⟨.number, "-", 0, 0⟩, .ok (Token.eof 1)]

/-- A sentence is read, with another start behind it, and a stream that is not parsed begins with
no sentence. -/
theorem parse_eq_ok_iff_isSentence_sample :
    (∃ h : sampleItems ≠ [], ∃ prog : Program, prog.Spelling sampleSentence ∧
      (ofItems sampleItems h).parse = (.ok prog, (ofItems sampleItems h).behind sampleSentence)) ∧
    ¬ ∃ ts, IsSentence ts ∧ ts.map .ok <+: sampleNoSentence := by
  have hdice : Sentence.IsTerminal
      [⟨.dSymbol, "d", 0, 0⟩, ⟨.number, "4", 1, 1⟩, ⟨.modifier, "h ", 2, 3⟩] :=
    @Sentence.IsTerminal.dice none (some ⟨.modifier, "h ", 2, 3⟩) _ _ 4 (by simp) rfl
      ⟨rfl, by decide +kernel⟩
      fun t ht => Option.some.inj ht ▸ ⟨rfl, .dropHigh, by decide +kernel, by simp⟩
  have hone : Sentence.IsTerminal [⟨.number, "1", 6, 6⟩] :=
    @Sentence.IsTerminal.number _ 1 ⟨rfl, by decide +kernel⟩
  have htwo : Sentence.IsTerminal [⟨.number, "2", 9, 9⟩] :=
    @Sentence.IsTerminal.number _ 2 ⟨rfl, by decide +kernel⟩
  have hsentence : IsSentence sampleSentence :=
    .sentence rfl (.cons (.operation hdice rfl (.terminal hone))
      (.cons rfl (.terminal htwo) .nil)) rfl
  constructor
  · obtain ⟨-, -, hread⟩ := parse_eq_ok_iff_isSentence sampleItems (by simp [sampleItems])
    obtain ⟨prog, hspelling, hparse, -⟩ := hread sampleSentence hsentence (List.prefix_append _ _)
    exact ⟨_, prog, hspelling, hparse⟩
  · have hne : sampleNoSentence ≠ [] := by simp [sampleNoSentence]
    rw [← (parse_eq_ok_iff_isSentence sampleNoSentence hne).1]
    rintro ⟨prog, hparse⟩
    have hfails : (ofItems sampleNoSentence (List.cons_ne_nil _ _)).parse.1.toOption = none := by
      decide +kernel
    simp [hparse, Except.toOption] at hfails

end Parser

end DiceNotation
