set_option autoImplicit false

/-!
# Cursors

A cursor is a place in a text. Places are counted in characters; place `-1` lies before the text,
where nothing has been read yet, and the length of the text is the place behind its last
character. A cursor may also be put further out on either side.

## Main definitions

* `Cursor.place` — a cursor at any place of a text.
* `Cursor.peek`, `Cursor.peekNth` — look at the next character, or at one further ahead.
* `Cursor.consume`, `Cursor.consumeNth` — move past the next character, or past one further ahead.
* `Cursor.takeWhile` — move past all characters of a class.

## Main results

* `Cursor.peekNth_eq_getElem?` — looking `n` ahead is looking up place `pos + n` of the text.

## Implementation notes

The characters from the cursor on are kept beside the text (`Cursor.rest`), so reading a text from
one end to the other takes linear time. Before the text every move is a silent step: it yields no
character and goes one place forward.
-/

namespace DiceNotation

/-- A place in a text, with the part of the text that lies ahead. -/
structure Cursor where
  /-- The whole text. -/
  text : List Char
  /-- The place of the next character. -/
  pos : Int
  /-- The characters from the cursor on; all of them for a cursor before the text. -/
  rest : List Char
  rest_eq : rest = text.drop pos.toNat

namespace Cursor

/-- The cursor at place `pos` of `text`. -/
def place (text : List Char) (pos : Int) : Cursor where
  text := text
  pos := pos
  rest := text.drop pos.toNat
  rest_eq := rfl

/-- The cursor just before `text`. -/
def start (text : List Char) : Cursor :=
  place text (-1)

/-- The cursor lies before the text. -/
def isStart (c : Cursor) : Bool :=
  c.pos < 0

/-- The cursor lies behind the last character. -/
def isEnd (c : Cursor) : Bool :=
  c.text.length ≤ c.pos

/-- A distance that no text can be long enough for: places have 64 bits, one of them a sign, so this
is `2 ^ 63`. -/
def outOfReach : Nat :=
  0x8000000000000000

/-- The character `n` places ahead, `n = 0` being the next one. -/
def peekNth (c : Cursor) (n : Nat) : Option Char :=
  let before := (-c.pos).toNat
  if before ≤ n ∧ n < outOfReach then c.rest[n - before]? else none

/-- The next character; there is none before the text and behind it. -/
def peek (c : Cursor) : Option Char :=
  if c.pos < 0 then none else c.rest.head?

/-- Moves past the next character. Before the text this is a silent step, behind it the cursor
stays where it is. -/
def consume (c : Cursor) : Option Char × Cursor :=
  if h : c.pos < 0 then
    (none, { c with
      pos := c.pos + 1
      rest_eq := by rw [c.rest_eq, show c.pos.toNat = 0 by omega, show (c.pos + 1).toNat = 0 by omega] })
  else
    match hr : c.rest with
    | [] => (none, c)
    | ch :: rest =>
      (some ch, { c with
        pos := c.pos + 1
        rest := rest
        rest_eq := by
          rw [show (c.pos + 1).toNat = 1 + c.pos.toNat by omega, Nat.add_comm, ← List.drop_drop,
            ← c.rest_eq, hr, List.drop_one, List.tail_cons] })

/-- Moves past the character `n` places ahead. When there is no such place in the text, the cursor
goes to the end of the text. -/
def consumeNth (c : Cursor) (n : Nat) : Option Char × Cursor :=
  if n < outOfReach ∧ c.pos + n < c.text.length then
    (c.peekNth n, place c.text (c.pos + n + 1))
  else
    (none, place c.text c.text.length)

/-- Moves past the longest run of characters of class `p`, and yields the run. -/
def takeWhile (c : Cursor) (p : Char → Bool) : List Char × Cursor :=
  if h : c.pos < 0 then ([], c)
  else
    let run := c.rest.takeWhile p
    (run, { c with
      pos := c.pos + run.length
      rest := c.rest.drop run.length
      rest_eq := by
        rw [c.rest_eq, List.drop_drop, show (c.pos + run.length).toNat = c.pos.toNat + run.length by omega] })

/-- Two cursors at one place of one text are equal. -/
theorem ext_pos {c d : Cursor} (ht : c.text = d.text) (hp : c.pos = d.pos) : c = d := by
  obtain ⟨t, p, r, hr⟩ := c
  obtain ⟨t', p', r', hr'⟩ := d
  simp only at ht hp
  subst ht hp hr hr'
  rfl

/-- Looking `n` ahead is looking up place `pos + n` of the text. -/
theorem peekNth_eq_getElem? (c : Cursor) {n : Nat} (hn : n < outOfReach) (h : 0 ≤ c.pos + n) :
    c.peekNth n = c.text[(c.pos + n).toNat]? := by
  have hb : (-c.pos).toNat ≤ n := by omega
  simp only [peekNth, hb, hn, and_self, if_true, c.rest_eq, List.getElem?_drop]
  congr 1
  omega

end Cursor

end DiceNotation
