set_option autoImplicit false

/-!
# Blanks

The characters with the Unicode property White_Space.

## Main definitions

* `Blank.contains` — membership of a character.
* `Blank.trim` — a text without the blanks at its ends.
-/

namespace DiceNotation.Blank

/-- The blank code points, as closed ranges in ascending order. -/
def ranges : List (Nat × Nat) :=
  [(0x9, 0xd), (0x20, 0x20), (0x85, 0x85), (0xa0, 0xa0), (0x1680, 0x1680), (0x2000, 0x200a),
    (0x2028, 0x2029), (0x202f, 0x202f), (0x205f, 0x205f), (0x3000, 0x3000)]

/-- The character is a blank. -/
def contains (c : Char) : Bool :=
  ranges.any fun r => r.1 ≤ c.toNat && c.toNat ≤ r.2

/-- The text without the blanks at its ends. -/
def trim (text : List Char) : List Char :=
  ((text.dropWhile contains).reverse.dropWhile contains).reverse

end DiceNotation.Blank
