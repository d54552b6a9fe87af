import DiceNotation.Proofs.Errors.Programs
import DiceNotation.Proofs.Parsing.Alike

set_option autoImplicit false

/-!
# Errors come at the first token that is wrong

A sequence of tokens may be the beginning of one that the parser accepts, or it may be too late for
that. The error of a text blames the token with which it becomes too late: the tokens in front of it
still begin an accepted sequence, those up to it do not. The one exception are numbers of dice that
are out of range. Without the letter behind them they might be operands, but the letter is there.

## Main definitions

* `Parser.Accepts` — the parser accepts a sequence of tokens.
* `Parser.ofText` — a parser in front of the items of a text.

## Main results

* `Parser.accepts_iff` — accepted are the sequences that begin with a sentence.
* `Parser.not_isPrefix_of_accepts` — no accepted sequence begins with tokens that lead nowhere.
* `exists_prefix_of_misplaced` — which token of a text an error blames.
-/

namespace DiceNotation

/-! ## The tokens in front of the end -/

/-- If the stream of the items starts with tokens in front of the end and one more, the items begin
with them.

**Proof sketch.** Were there fewer items, the last one would be among the tokens in front of the end.
But it is an end or a failure. -/
theorem Lexer.isPrefix_items {l : Lexer} {ts : List Token} {t : Token}
    (h : (FixedStream.ofItems l.items l.items_ne_nil).Starts (ts ++ [t]))
    (hne : ∀ u ∈ ts, u.kind ≠ .eof) : (ts ++ [t]).map .ok <+: l.items := by
  refine h.isPrefix_of_length_le rfl ?_
  obtain ⟨us, x, hitems, hx, -⟩ := l.items_eq_append
  have hlen : l.items.length = us.length + 1 := by simp [hitems]
  by_contra hlt
  simp only [FixedStream.ofItems, List.length_append, List.length_singleton, hlen] at hlt
  have hi : us.length < ts.length := by omega
  have hahead := h us.length ts[us.length]
    (by rw [List.getElem?_append_left hi, List.getElem?_eq_getElem hi])
  have hlast : some (.ok ts[us.length]) = nthOrLast l.items us.length := by
    rw [← hahead, FixedStream.some_ahead]
    simp [FixedStream.ofItems]
  rw [hitems, nthOrLast_append_singleton (by simp), Option.some.injEq] at hlast
  rw [← hlast] at hx
  exact hne _ (List.getElem_mem hi) hx

namespace Parser

/-! ## Accepted sequences -/

/-- The parser accepts these tokens. -/
def Accepts (ts : List Token) : Prop :=
  ∃ (h : ts.map Except.ok ≠ []) (prog : Program), (ofItems (ts.map .ok) h).parse.1 = .ok prog

/-- Accepted are the sequences that begin with a sentence. -/
theorem accepts_iff {ts : List Token} : Accepts ts ↔ ∃ us, IsSentence us ∧ us <+: ts := by
  constructor
  · rintro ⟨h, prog, hparse⟩
    obtain ⟨us, hspelling, hstarts⟩ := parse_eq_ok_iff.1 hparse
    obtain ⟨vs, stop, rfl, hne, hstop⟩ := hspelling.exists_append
    refine ⟨vs ++ [stop], isSentence_iff_exists_spelling.2 ⟨prog, hspelling⟩, ?_⟩
    exact (List.prefix_map_iff_of_injective fun _ _ => Except.ok.inj).1
      (hstarts.isPrefix rfl hne hstop)
  · rintro ⟨us, hsentence, hus⟩
    obtain ⟨prog, hspelling⟩ := isSentence_iff_exists_spelling.1 hsentence
    have hne : ts.map (Except.ok : Token → Item) ≠ [] := by
      cases hsentence
      simpa using List.IsPrefix.ne_nil hus (by simp)
    exact ⟨hne, prog, by rw [parse_of_spelling hspelling (hus.map _)]⟩

/-- No accepted sequence begins with tokens of which the last one leads nowhere, if the others lead to
a stage in front of the last one.

**Proof sketch.** An accepted sequence begins with a sentence. If this is longer than the tokens, it
begins with them, though it leads somewhere. If it is shorter, then its end is among the tokens in
front of the last one. -/
theorem not_isPrefix_of_accepts {ts us : List Token} {t : Token} {s : Stage}
    (hrun : Stage.start.run ts = some s) (hlive : s ≠ .done) (hstep : s.step t = none)
    (hus : Accepts us) : ¬ ts ++ [t] <+: us := by
  intro hts
  have hnone : Stage.start.run (ts ++ [t]) = none := by
    rw [Stage.run_append_of_eq hrun, Stage.run_cons, hstep, Option.bind_none]
  obtain ⟨vs, hsentence, hvs⟩ := accepts_iff.1 hus
  rcases List.prefix_or_prefix_of_prefix hts hvs with h | h
  · exact Stage.not_isPrefix_of_run_eq_none hnone hsentence h
  rcases List.prefix_concat_iff.1 h with rfl | ⟨ws, rfl⟩
  · exact Stage.not_isPrefix_of_run_eq_none hnone hsentence List.prefix_rfl
  · rw [Stage.run_append_of_eq (Stage.isSentence_iff_run.1 hsentence)] at hrun
    exact hlive (Stage.eq_nil_of_run_done hrun).2

end Parser

/-! ## Errors of a text -/

/-- A parser in front of the items of a text. -/
def Parser.ofText (text : List Char) : Parser FixedStream :=
  ofItems (Lexer.ofText text).items (Lexer.items_ne_nil _)

/-- What the failure of a text is due to. -/
theorem faults_of_parse_eq_error {text : String} {e : ParseError} (h : parse text = .error e) :
    (Parser.ofText text.toList).Faults .start e := by
  rw [parse_eq_parse_items] at h
  obtain ⟨limit, hprogram⟩ := Parser.parse_eq_iff.1 rfl
  rw [← Prod.eta (Parser.parse _), h] at hprogram
  exact Parser.program_faults hprogram

/-- The tokens in front of a blamed token, and this token, are items of the text. -/
theorem Parser.Blames.isPrefix_items {text : List Char} {e : SyntaxError} {ts : List Token}
    {s : Stage} (h : (Parser.ofText text).Blames .start e ts s) :
    (ts ++ [e.token]).map .ok <+: (Lexer.ofText text).items :=
  Lexer.isPrefix_items h.starts fun _ => Stage.kind_ne_eof_of_run h.run h.live

/-- **An error blames the first token that is wrong.** The blamed token is an item of the text. The
tokens in front of it begin an accepted sequence, those up to it do not. If the error is that a number
of dice is out of range, the letter comes behind this number, and the tokens up to the letter begin
no accepted sequence.

**Proof sketch.** The tokens in front lead to a stage from which there is a way to the end, and the
blamed token leads nowhere from there. If a number of dice is blamed, the letter behind it leads
nowhere. No end is among these tokens, so they are items of the text. -/
theorem exists_prefix_of_misplaced {text : String} {e : SyntaxError}
    (h : parse text = .error (.misplaced e)) :
    ∃ ts, (ts ++ [e.token]).map .ok <+: (Lexer.ofText text.toList).items ∧
      (∃ us, Parser.Accepts (ts ++ us)) ∧
      ((∀ count, e.misfit ≠ .countOutOfRange count) →
        ∀ us, Parser.Accepts us → ¬ ts ++ [e.token] <+: us) ∧
      (∀ count, e.misfit = .countOutOfRange count →
        ∃ d, d.kind = .dSymbol ∧
          (ts ++ [e.token, d]).map .ok <+: (Lexer.ofText text.toList).items ∧
          ∀ us, Parser.Accepts us → ¬ ts ++ [e.token, d] <+: us) := by
  cases faults_of_parse_eq_error h with
  | @misplaced e ts s hblames =>
    obtain ⟨us, hsentence⟩ := Stage.exists_isSentence_append hblames.run
    refine ⟨ts, hblames.isPrefix_items, ⟨us, Parser.accepts_iff.2 ⟨_, hsentence, List.prefix_rfl⟩⟩,
      fun hcause vs hvs => ?_, fun count hcause => ?_⟩
    · exact Parser.not_isPrefix_of_accepts hblames.run hblames.live
        (hblames.refuses.step_eq_none hcause) hvs
    · obtain ⟨d, s', hahead, hd, hstep, hlive, hnone⟩ := hblames.refuses.exists_dSymbol hcause
      have hrun : Stage.start.run (ts ++ [e.token]) = some s' := by
        rw [Stage.run_append_of_eq hblames.run, Stage.run_cons, hstep]
        rfl
      have hsplit : ts ++ [e.token, d] = ts ++ [e.token] ++ [d] := by simp
      refine ⟨d, hd, ?_, fun vs hvs => ?_⟩ <;> rw [hsplit]
      · refine Lexer.isPrefix_items ?_ fun t => Stage.kind_ne_eof_of_run hrun hlive
        refine FixedStream.starts_append.2 ⟨hblames.starts, FixedStream.starts_singleton.2 ?_⟩
        rw [FixedStream.ahead_behind, List.length_append]
        exact hahead
      · exact Parser.not_isPrefix_of_accepts hrun hlive hnone hvs

/-- The number of dice of `300d6` is blamed, and no accepted sequence begins with it and the letter;
behind the dice of `d6 7` a number is blamed, and no accepted sequence begins with the dice and it. -/
theorem exists_prefix_of_misplaced_sample :
    (∃ ts d, (ts ++ [⟨.number, "300", 0, 2⟩, d]).map .ok <+: (Lexer.ofText "300d6".toList).items ∧
      ∀ us, Parser.Accepts us → ¬ ts ++ [⟨.number, "300", 0, 2⟩, d] <+: us) ∧
    ∃ ts, (∃ us, Parser.Accepts (ts ++ us)) ∧
      ∀ us, Parser.Accepts us → ¬ ts ++ [⟨.number, "7", 3, 3⟩] <+: us := by
  have hcount : parse "300d6" =
      .error (.misplaced ⟨⟨.number, "300", 0, 2⟩, .countOutOfRange 300, 0⟩) := by decide +kernel
  have hnumber : parse "d6 7" = .error (.misplaced ⟨⟨.number, "7", 3, 3⟩, .notEof, 3⟩) := by
    decide +kernel
  obtain ⟨ts, -, -, -, hletter⟩ := exists_prefix_of_misplaced hcount
  obtain ⟨us, -, haccepts, hother, -⟩ := exists_prefix_of_misplaced hnumber
  obtain ⟨d, -, hitems, hnone⟩ := hletter 300 rfl
  exact ⟨⟨ts, d, hitems, hnone⟩, us, haccepts, hother (by simp)⟩

end DiceNotation
