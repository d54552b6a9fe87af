set_option autoImplicit false

/-!
# Reading UTF-8

Bytes are read one after the other. Where they stop being the beginning of a character, the part
read so far is dropped as a whole and reading starts anew with the byte that did not fit.

## Main definitions

* `Utf8.decode` — the characters of some bytes, with a gap for each part that belongs to none.
* `Utf8.decode?` — the characters, if there are no gaps.
* `Utf8.decodeLossy` — the characters, with U+FFFD in the place of each gap.

## Implementation notes

The bounds of the second byte rule out forms that are longer than needed, surrogates, and numbers
beyond the last code point, so that no character has two forms.
-/

namespace DiceNotation.Utf8

/-- A character that has begun: how many bytes are missing, the bits so far, and the bounds of the
next byte. -/
structure Begun where
  missing : Nat
  bits : Nat
  low : UInt8
  high : UInt8

/-- What the first byte of a longer form begins. -/
def begin? (b : UInt8) : Option Begun :=
  if 0xC2 ≤ b ∧ b ≤ 0xDF then some ⟨1, b.toNat - 0xC0, 0x80, 0xBF⟩
  else if b = 0xE0 then some ⟨2, 0, 0xA0, 0xBF⟩
  else if b = 0xED then some ⟨2, 0xD, 0x80, 0x9F⟩
  else if 0xE1 ≤ b ∧ b ≤ 0xEF then some ⟨2, b.toNat - 0xE0, 0x80, 0xBF⟩
  else if b = 0xF0 then some ⟨3, 0, 0x90, 0xBF⟩
  else if 0xF1 ≤ b ∧ b ≤ 0xF3 then some ⟨3, b.toNat - 0xF0, 0x80, 0xBF⟩
  else if b = 0xF4 then some ⟨3, 4, 0x80, 0x8F⟩
  else none

/-- The result of a byte between two characters: what it yields, and what it begins. -/
def first (b : UInt8) : List (Option Char) × Option Begun :=
  if b < 0x80 then ([some (Char.ofNat b.toNat)], none)
  else
    match begin? b with
    | some begun => ([], some begun)
    | none => ([none], none)

/-- The result of a byte inside a character. -/
def further (s : Begun) (b : UInt8) : List (Option Char) × Option Begun :=
  if s.low ≤ b ∧ b ≤ s.high then
    let bits := s.bits * 64 + (b.toNat - 0x80)
    if s.missing ≤ 1 then ([some (Char.ofNat bits)], none)
    else ([], some ⟨s.missing - 1, bits, 0x80, 0xBF⟩)
  else
    let (out, begun) := first b
    (none :: out, begun)

/-- Reads bytes behind a character that may have begun. -/
def decodeFrom : Option Begun → List UInt8 → List (Option Char)
  | none, [] => []
  | some _, [] => [none]
  | state, b :: bytes =>
    let (out, begun) := state.elim (first b) (further · b)
    out ++ decodeFrom begun bytes

/-- The characters of some bytes, with `none` for each longest part that belongs to no character. -/
def decode (bytes : List UInt8) : List (Option Char) :=
  decodeFrom none bytes

/-- The characters of some bytes, if all bytes belong to characters. -/
def decode? (bytes : List UInt8) : Option (List Char) :=
  (decode bytes).mapM id

/-- The characters of some bytes, with a replacement character for each part that belongs to none. -/
def decodeLossy (bytes : List UInt8) : List Char :=
  (decode bytes).map (·.getD '\ufffd')

end DiceNotation.Utf8
