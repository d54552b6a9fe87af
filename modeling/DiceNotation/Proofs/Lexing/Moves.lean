import DiceNotation.Proofs.Lexing.Items

set_option autoImplicit false

/-!
# Moves in a text

A cursor that stands in its text stays there, and no move takes it back. A long move is computed from
the place where it ends, and single moves go there character by character. Both arrive at the same
place with the same character, also from the place before the text, where the first single move is
silent, and also when the end of the text is in between.

## Main definitions

* `Cursor.InText` — the cursor stands before its text, at one of its characters, or at its end.
* `Cursor.Move`, `Cursor.moves` — the moves of a cursor, and a cursor behind some of them.
* `Cursor.consumeMany` — single moves, one after the other.

## Main results

* `Cursor.InText.moves` — moves stay in the text and do not go back.
* `Cursor.consumeNth_eq_consumeMany` — a long move is as good as single moves.
* `Cursor.moves_stepwise` — the same wherever moves from a place of a text lead.

## Implementation notes

Places have 64 bits, so a text has fewer characters than `Cursor.outOfReach`. Without this bound the
characters further away than that could be reached by single moves only.
-/

namespace DiceNotation.Cursor

/-- The cursor stands right before its text, at one of its characters, or behind the last one. -/
def InText (c : Cursor) : Prop :=
  -1 ≤ c.pos ∧ c.pos ≤ c.text.length

/-- The moves of a cursor. -/
inductive Move where
  /-- Past the next character. -/
  | single
  /-- Past the character `n` places ahead. -/
  | long (n : Nat)

/-- The cursor behind a move. -/
def move (c : Cursor) : Move → Cursor
  | .single => c.consume.2
  | .long n => (c.consumeNth n).2

/-- The cursor behind moves, one after the other. -/
def moves (c : Cursor) (ms : List Move) : Cursor :=
  ms.foldl move c

/-- Makes `n + 1` single moves, and yields what the last one does. -/
def consumeMany (c : Cursor) : Nat → Option Char × Cursor
  | 0 => c.consume
  | n + 1 => c.consume.2.consumeMany n

variable {c : Cursor}

/-! ## One move -/

/-- At the end of the text a single move does nothing. -/
theorem consume_nil (h : 0 ≤ c.pos) (hr : c.rest = []) : c.consume = (none, c) := by
  unfold consume
  rw [dif_neg (by omega)]
  split
  next => rfl
  next ch cs hcons => simp [hr] at hcons

/-- In front of the end of the text a single move goes on by one place. -/
theorem consume_eq (c : Cursor) :
    c.consume = if c.pos < c.text.length then (c.peek, c.behind 1) else (none, c) := by
  rcases Int.lt_or_le c.pos 0 with hneg | hpos
  · rw [consume_of_neg hneg, if_pos (by omega), peek, if_pos hneg]
  · have hlength : c.rest.length = c.text.length - c.pos.toNat := by
      rw [c.rest_eq, List.length_drop]
    cases hrest : c.rest with
    | nil =>
      rw [hrest, List.length_nil] at hlength
      rw [consume_nil hpos hrest, if_neg (by omega)]
    | cons ch cs =>
      rw [hrest, List.length_cons] at hlength
      rw [consume_cons hpos hrest, if_pos (by omega), peek_eq_head? hpos, hrest, List.head?_cons]

/-- There is nothing to see at the end of the text and behind it. -/
theorem peekNth_of_le {n : Nat} (h : c.text.length ≤ c.pos + n) : c.peekNth n = none := by
  rcases Nat.lt_or_ge n outOfReach with hn | hn
  · rw [peekNth_eq_getElem? c hn (by omega), List.getElem?_eq_none (by omega)]
  · exact if_neg fun hreach => by omega

/-- A long move yields the character that is seen from where it begins. -/
theorem fst_consumeNth (c : Cursor) (n : Nat) : (c.consumeNth n).1 = c.peekNth n := by
  unfold consumeNth
  split_ifs with hn
  · rfl
  · rcases Nat.lt_or_ge n outOfReach with hreach | hreach
    · exact (peekNth_of_le (by omega)).symm
    · exact (if_neg fun h => by omega).symm

/-- A move goes back nowhere, and it does not leave the text. -/
theorem InText.move (h : c.InText) (m : Move) :
    (c.move m).InText ∧ (c.move m).text = c.text ∧ c.pos ≤ (c.move m).pos := by
  obtain ⟨hlow, hhigh⟩ := h
  cases m with
  | single =>
    rw [Cursor.move, consume_eq]
    split_ifs with hlt
    · refine ⟨⟨?_, ?_⟩, rfl, ?_⟩ <;> simp only [behind, place] <;> omega
    · exact ⟨⟨hlow, hhigh⟩, rfl, Int.le_refl _⟩
  | long n =>
    rw [Cursor.move, consumeNth]
    split_ifs with hlt
    · refine ⟨⟨?_, ?_⟩, rfl, ?_⟩ <;> simp only [place] <;> omega
    · refine ⟨⟨?_, ?_⟩, rfl, ?_⟩ <;> simp only [place] <;> omega

/-! ## Several moves -/

/-- Moves go back nowhere, and they do not leave the text. -/
theorem InText.moves (h : c.InText) (ms : List Move) :
    (c.moves ms).InText ∧ (c.moves ms).text = c.text ∧ c.pos ≤ (c.moves ms).pos := by
  induction ms generalizing c with
  | nil => exact ⟨h, rfl, Int.le_refl _⟩
  | cons m ms ih =>
    obtain ⟨hm, htext, hle⟩ := h.move m
    obtain ⟨hms, htexts, hles⟩ := ih hm
    exact ⟨hms, htexts.trans htext, Int.le_trans hle hles⟩

/-- A long move that passes only one character is a single move. -/
theorem consumeNth_zero (h : c.InText) : c.consumeNth 0 = c.consume := by
  obtain ⟨hlow, hhigh⟩ := h
  have hreach : 0 < outOfReach := by decide
  rw [consume_eq, consumeNth]
  split_ifs with hlong hsingle hsingle
  · refine Prod.ext ?_ (ext_pos rfl (by simp [place]))
    rcases Int.lt_or_le c.pos 0 with hneg | hpos
    · rw [peek, if_pos hneg]
      exact if_neg (by omega)
    · rw [peek_eq_head? hpos, peekNth_eq_getElem? c hreach (by omega), c.rest_eq, List.head?_drop]
      simp
  · omega
  · omega
  · exact congrArg _ (ext_pos rfl (by simp only [place]; omega))

/-- A long move is a single move and a long move behind it, which passes one character less. -/
theorem consumeNth_succ (h : c.InText) (hlen : c.text.length < outOfReach) (n : Nat) :
    c.consumeNth (n + 1) = c.consume.2.consumeNth n := by
  obtain ⟨hlow, hhigh⟩ := h
  rw [consume_eq]
  rcases Int.lt_or_le (c.pos + (n + 1)) c.text.length with hlt | hge
  · have hnext : c.pos < c.text.length := by omega
    have hplace : c.pos + (n + 1 : Nat) = (c.behind 1).pos + n := by rw [behind_pos]; omega
    have hseen : c.peekNth (n + 1) = (c.behind 1).peekNth n := by
      rw [peekNth_eq_getElem? c (by omega) (by omega), hplace]
      exact (peekNth_eq_getElem? (c.behind 1) (by omega) (by omega)).symm
    rw [if_pos hnext, consumeNth, consumeNth, if_pos ⟨by omega, by omega⟩,
      if_pos ⟨by omega, by simp only [behind, place]; omega⟩, hseen]
    exact congrArg _ (ext_pos rfl (by simp only [behind, place]; omega))
  · rw [consumeNth, if_neg (by omega)]
    split_ifs with hnext
    · rw [consumeNth, if_neg (by simp only [behind, place]; omega)]
      rfl
    · dsimp only
      rw [consumeNth, if_neg (by omega)]

/-- A long move arrives where single moves arrive, with the same character.

**Proof sketch.** Induction on the distance: behind the first single move, one character less is to be
passed. -/
theorem consumeNth_eq_consumeMany (h : c.InText) (hlen : c.text.length < outOfReach) (n : Nat) :
    c.consumeNth n = c.consumeMany n := by
  induction n generalizing c with
  | zero => exact consumeNth_zero h
  | succ n ih =>
    obtain ⟨hnext, htext, -⟩ := h.move .single
    rw [consumeNth_succ h hlen, consumeMany]
    exact ih hnext (htext.symm ▸ hlen)

/-- **Moves in a text.** Wherever moves lead from a place of a text, the cursor is in the text, and no
further move takes it back. From there, a long move arrives where as many single moves arrive, whatever
the distance, and the character that the last of these yields is the one that the long move yields and that
is seen ahead. -/
theorem moves_stepwise (text : List Char) (hlen : text.length < outOfReach) (start : Int)
    (hlow : -1 ≤ start) (hhigh : start ≤ text.length) (ms : List Move) :
    let c := (place text start).moves ms
    (c.InText ∧ c.text = text ∧ start ≤ c.pos ∧ ∀ m, c.pos ≤ (c.move m).pos) ∧
      ∀ n, c.consumeNth n = c.consumeMany n ∧ c.peekNth n = (c.consumeMany n).1 := by
  intro c
  have hstart : (place text start).InText := ⟨hlow, hhigh⟩
  obtain ⟨hin, htext, hle⟩ := hstart.moves ms
  refine ⟨⟨hin, htext, hle, fun m => (hin.move m).2.2⟩, fun n => ?_⟩
  have hmany : c.consumeNth n = c.consumeMany n :=
    consumeNth_eq_consumeMany hin (by rw [htext]; exact hlen) n
  exact ⟨hmany, by rw [← hmany, fst_consumeNth]⟩

/-- From the place before `2d6`, a silent step and a move past the `d`; then the `6` can be passed with
what follows, however far that is. -/
theorem moves_stepwise_sample :
    ['2', 'd', '6'].length < outOfReach ∧ (-1 : Int) ≤ -1 ∧ (-1 : Int) ≤ ['2', 'd', '6'].length ∧
      ((start ['2', 'd', '6']).moves [.single, .long 1]).pos = 2 ∧
      (((start ['2', 'd', '6']).moves [.single, .long 1]).consumeMany 18446744073709551615).1 = none ∧
      (((start ['2', 'd', '6']).moves [.single, .long 1]).consumeMany 18446744073709551615).2.pos = 3 := by
  have hlen : ['2', 'd', '6'].length < outOfReach := by decide
  have hhigh : (-1 : Int) ≤ ['2', 'd', '6'].length := by decide
  have hfar := ((moves_stepwise ['2', 'd', '6'] hlen (-1) (by decide) hhigh [.single, .long 1]).2
    18446744073709551615).1
  refine ⟨hlen, by decide, hhigh, by decide, ?_⟩
  rw [start, ← hfar]
  decide

end DiceNotation.Cursor
