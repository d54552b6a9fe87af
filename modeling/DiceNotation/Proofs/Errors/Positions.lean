import DiceNotation.Proofs.Errors.Prefixes
import DiceNotation.Proofs.Notation.Alphabet

set_option autoImplicit false

/-!
# Where errors are

The first character of a text that is not in the alphabet ends the tokens of the text. An error either
is this character, or it blames a token in front of it. A syntax error points at its token, but where a
number was expected it points at the last character in front of the token, because tokens have no gaps
between them. So every error points into the text, at the place before it or at the place behind it.

## Main results

* `Tiles.bounds` — tokens without gaps stand where the part of the text is that they cover.
* `Lexer.Extent.position_eq`, `Lexer.Extent.position_bounds` — where syntax errors point at.
* `parse_error_position` — which errors a text has, and where.
-/

namespace DiceNotation

/-! ## The places of tokens -/

/-- A token among tokens without gaps stands where these stand. -/
theorem Tiles.bounds {text : List Char} {a b : Nat} {ts : List Token} (h : Tiles text a ts b)
    {t : Token} (ht : t ∈ ts) : a ≤ t.startPos ∧ t.startPos ≤ t.endPos ∧ t.endPos < b := by
  induction h with
  | nil => simp at ht
  | @cons a b c tile ts htile hts ih =>
    have hlt := htile.lt
    have hle := hts.le
    rcases List.mem_cons.1 ht with rfl | hmem
    · rw [htile.startPos, htile.endPos]
      omega
    · obtain ⟨hstart, hends, hstop⟩ := ih hmem
      omega

/-- What is met behind the last token is not behind the text. -/
theorem StopsAt.le_length {text : List Char} {b : Nat} {x : Item} (h : StopsAt text b x) :
    b ≤ text.length := by
  cases h with
  | ended => exact Nat.le_refl _
  | unknown hc =>
    obtain ⟨hlt, -⟩ := List.getElem?_eq_some_iff.1 hc
    exact Nat.le_of_lt hlt

/-- The tokens that items begin with are tokens in front of the place where the items stop, and the
end there. -/
theorem StopsAt.isPrefix {text : List Char} {b : Nat} {x : Item} {ts us : List Token}
    (h : StopsAt text b x) (hus : us.map .ok <+: ts.map .ok ++ [x]) : us <+: ts ++ [Token.eof b] := by
  have hmap {vs : List Token} (hvs : us.map (Except.ok : Token → Item) <+: vs.map .ok) : us <+: vs :=
    (List.prefix_map_iff_of_injective fun _ _ => Except.ok.inj).1 hvs
  cases h with
  | ended => exact hmap (by simpa using hus)
  | @unknown b c hc =>
    rcases List.prefix_concat_iff.1 hus with heq | hus
    · have hmem : (.error ⟨c, b⟩ : Item) ∈ us.map .ok := by simp [heq]
      simp at hmem
    · exact (hmap hus).trans (List.prefix_append _ _)

/-! ## The places of errors -/

/-- There is a token in front of the place where a number was expected. -/
theorem Parser.Blames.ne_nil_of_notNumber {text : List Char} {e : SyntaxError} {us : List Token}
    {s : Stage} (h : (Parser.ofText text).Blames .start e us s) (hnumber : e.misfit = .notNumber) :
    us ≠ [] := by
  rintro rfl
  obtain rfl : s = .start := (Option.some.inj h.run).symm
  obtain ⟨rest, hrest⟩ := h.isPrefix_items
  rw [Lexer.items_ofText_eq] at hrest
  have htoken : e.token = Lexer.startOf text := by simpa using (List.cons.inj hrest).1
  -- the start of the text is where it belongs, so it is not blamed
  have hnone := h.refuses.step_eq_none (by simp [hnumber])
  simp [Stage.step, htoken, Lexer.startOf, Token.sofWith] at hnone

namespace Lexer.Extent

variable {text : List Char} {ts us : List Token} {b : Nat} {x : Item} {e : SyntaxError} {s : Stage}

/-- The start of a text and the tokens behind it stand in front of the place up to which the text can
be read. -/
theorem bounds_of_mem (h : Extent text ts b x) {t : Token} (ht : t ∈ startOf text :: ts) :
    t.startPos ≤ t.endPos ∧ t.endPos < b := by
  rcases List.mem_cons.1 ht with rfl | hmem
  · have hle := h.tiles.le
    simp only [startOf, Token.sofWith]
    omega
  · exact (h.tiles.bounds hmem).2

/-- If the parser shows a character that begins no token, this is where the text stops being read. -/
theorem eq_error {text : String} {u : UnknownToken} (h : Extent text.toList ts b x)
    (hparse : parse text = .error (.unknownToken u)) : x = .error u := by
  cases faults_of_parse_eq_error hparse with
  | unknown hahead =>
    have hmem : .error u ∈ (ofText text.toList).items := hahead ▸ List.get_mem _ _
    simpa [h.items_eq, eq_comm] using hmem

/-- A text that stops being read at a character has an error. -/
theorem exists_error {text : String} {u : UnknownToken} (h : Extent text.toList ts b (.error u)) :
    ∃ e, parse text = .error e := by
  cases hparse : parse text with
  | error e => exact ⟨e, rfl⟩
  | ok prog =>
    obtain ⟨us, -, hus⟩ := parse_eq_ok_iff_spelling.1 hparse
    have hmem : (.error u : Item) ∈ us.map .ok := by simp [← hus, h.items_eq]
    simp at hmem

/-- A blamed token and those in front of it come among the start, the tokens behind it and the end. -/
theorem isPrefix (h : Extent text ts b x) (hblames : (Parser.ofText text).Blames .start e us s) :
    us ++ [e.token] <+: startOf text :: ts ++ [Token.eof b] := by
  refine h.stops.isPrefix ?_
  rw [List.map_cons, ← h.items_eq]
  exact hblames.isPrefix_items

/-- If the text stops being read at a character, a blamed token stands in front of it. -/
theorem blamed_lt {u : UnknownToken} (h : Extent text ts b (.error u))
    (hblames : (Parser.ofText text).Blames .start e us s) :
    e.token.startPos ≤ e.token.endPos ∧ e.token.endPos < b := by
  have hmem : .ok e.token ∈ (ofText text).items := hblames.isPrefix_items.subset (by simp)
  exact h.bounds_of_mem (by simpa [h.items_eq] using hmem)

/-- A syntax error points at its token, or right in front of it if a number was expected. -/
theorem position_eq (h : Extent text ts b x) (hblames : (Parser.ofText text).Blames .start e us s) :
    e.position = if e.misfit = .notNumber then e.token.startPos - 1 else e.token.startPos := by
  rw [hblames.position]
  split_ifs with hnumber
  · obtain ⟨us, t, rfl⟩ :=
      (List.eq_nil_or_concat us).resolve_left (hblames.ne_nil_of_notNumber hnumber)
    rw [List.concat_eq_append] at hblames ⊢
    obtain ⟨vs, hvs⟩ := h.isPrefix hblames
    have hsplit : startOf text :: ts ++ [Token.eof b] = us ++ t :: e.token :: vs := by simp [← hvs]
    have hstart : (startOf text).endPos + 1 = (text.takeWhile (· == ' ')).length := by
      simp [startOf, Token.sofWith]
    have hadjacent := h.tiles.endPos_add_one hstart rfl hsplit
    rw [Parser.lastPosition_behind_concat]
    omega
  · rfl

/-- A syntax error points at the place before the text, into the part of it that can be read, or right
behind this part. -/
theorem position_bounds (h : Extent text ts b x)
    (hblames : (Parser.ofText text).Blames .start e us s) : -1 ≤ e.position ∧ e.position ≤ b := by
  have htokens := h.isPrefix hblames
  have hle := h.tiles.le
  have hbehind {t : Token} (ht : t ∈ ts ++ [Token.eof b]) : 0 ≤ t.startPos ∧ t.startPos ≤ b := by
    rcases List.mem_append.1 ht with hmem | hmem
    · obtain ⟨hstart, hends, hstop⟩ := h.tiles.bounds hmem
      omega
    · obtain rfl := List.mem_singleton.1 hmem
      simp [Token.eof]
  rw [h.position_eq hblames]
  cases us with
  | nil =>
    have hnumber : e.misfit ≠ .notNumber := fun hnumber => hblames.ne_nil_of_notNumber hnumber rfl
    rw [if_neg hnumber]
    rcases List.mem_cons.1 (htokens.subset (List.mem_singleton.2 rfl)) with htoken | hmem
    · simp only [htoken, startOf, Token.sofWith]
      omega
    · have := hbehind hmem
      omega
  | cons t us =>
    have hmem : e.token ∈ ts ++ [Token.eof b] :=
      (List.cons_prefix_cons.1 htokens).2.subset (by simp)
    have := hbehind hmem
    split_ifs <;> omega

end Lexer.Extent

/-- **Errors are at the first character that is not in the alphabet, or in front of it.** A text whose
characters are all in the alphabet has no character that begins no token. Any other text has an error:
this is the first such character, or it blames a token in front of it. A syntax error points at its
token, or right in front of it if a number was expected. So every error points into the text, or at
the place before it or behind it.

**Proof sketch.** The text can be read up to its first character that is not in the alphabet, or to its
end, and up to there it consists of tokens without gaps. An error is due to what is met there, or it
blames one of the tokens. -/
theorem parse_error_position (text : String) :
    ((∀ c ∈ text.toList, inAlphabet c = true) → ∀ u, parse text ≠ .error (.unknownToken u)) ∧
    ((∃ c ∈ text.toList, inAlphabet c = false) →
      ∃ (p : Nat) (c : Char), text.toList[p]? = some c ∧ inAlphabet c = false ∧
        (∀ d ∈ text.toList.take p, inAlphabet d = true) ∧ (∃ e, parse text = .error e) ∧
        (∀ u, parse text = .error (.unknownToken u) → u = ⟨c, p⟩) ∧
        ∀ e, parse text = .error (.misplaced e) →
          e.token.startPos ≤ e.token.endPos ∧ e.token.endPos < p) ∧
    (∀ e, parse text = .error (.misplaced e) →
      e.position = if e.misfit = .notNumber then e.token.startPos - 1 else e.token.startPos) ∧
    ∀ e, parse text = .error e → -1 ≤ e.position ∧ e.position ≤ text.toList.length := by
  obtain ⟨ts, b, x, h⟩ := Lexer.exists_extent text.toList
  refine ⟨fun hall u hparse => ?_, fun ⟨c, hc, hout⟩ => ?_, fun e hparse => ?_, fun e hparse => ?_⟩
  · obtain rfl := h.eq_error hparse
    have hout := h.respects
    cases h.stops with
    | unknown hc => simp [Lexer.Respects, hall _ (List.mem_of_getElem? hc)] at hout
  · have hstops := h.stops
    cases hstops with
    | ended =>
      have hin := h.front c (by simpa using hc)
      simp [hin] at hout
    | @unknown _ c' hc' =>
      refine ⟨b, c', hc', h.respects, h.front, h.exists_error, fun u hparse => ?_, fun e hparse => ?_⟩
      · exact (Except.error.inj (h.eq_error hparse)).symm
      · cases faults_of_parse_eq_error hparse with
        | misplaced us hblames => exact h.blamed_lt hblames
  · cases faults_of_parse_eq_error hparse with
    | misplaced us hblames => exact h.position_eq hblames
  · have hle := h.stops.le_length
    cases faults_of_parse_eq_error hparse with
    | unknown =>
      obtain rfl := h.eq_error hparse
      cases h.stops with
      | unknown =>
        simp only [ParseError.position]
        omega
    | misplaced us hblames =>
      have hbounds := h.position_bounds hblames
      simp only [ParseError.position]
      omega

/-- In `d6 ?` the error is the character that is not in the alphabet; that of `d + 1` points right in
front of the operator. -/
theorem parse_error_position_sample :
    (∃ (p : Nat) (c : Char), "d6 ?".toList[p]? = some c ∧ inAlphabet c = false ∧
      parse "d6 ?" = .error (.unknownToken ⟨c, p⟩)) ∧
    ∃ e, parse "d + 1" = .error (.misplaced e) ∧ e.misfit = .notNumber ∧
      e.position = e.token.startPos - 1 := by
  have hunknown : parse "d6 ?" = .error (.unknownToken ⟨'?', 3⟩) := by decide +kernel
  have hnumber : parse "d + 1" = .error (.misplaced ⟨⟨.operator, "+ ", 2, 3⟩, .notNumber, 1⟩) := by
    decide +kernel
  obtain ⟨-, hout, -, -⟩ := parse_error_position "d6 ?"
  obtain ⟨-, -, hposition, -⟩ := parse_error_position "d + 1"
  obtain ⟨p, c, hp, hc, -, -, hchar, -⟩ := hout ⟨'?', by decide, by decide⟩
  exact ⟨⟨p, c, hp, hc, by rw [hunknown, hchar _ hunknown]⟩, _, hnumber, rfl, hposition _ hnumber⟩

end DiceNotation
