import DiceNotation.Text.Unprintable
import DiceNotation.Text.GraphemeExtend

set_option autoImplicit false

/-!
# Quoted text

Text between double quotes in which every character can be told apart by eye: quotes,
backslashes and the common controls have short escapes, and whatever has no printed form of its
own, or is drawn onto the character before it, is written as its code point.

## Main definitions

* `Quoted.escape` — the written form of one character.
* `Quoted.text` — the written form of a text.
-/

namespace DiceNotation.Quoted

/-- A code point in lower case hexadecimal digits, without leading zeros. -/
def codePoint (c : Char) : List Char :=
  "\\u\x7b".toList ++ Nat.toDigits 16 c.toNat ++ ['\x7d']

/-- The written form of one character. -/
def escape (c : Char) : List Char :=
  if c = '\x00' then ['\\', '0']
  else if c = '\t' then ['\\', 't']
  else if c = '\r' then ['\\', 'r']
  else if c = '\n' then ['\\', 'n']
  else if c = '"' then ['\\', '"']
  else if c = '\\' then ['\\', '\\']
  else if GraphemeExtend.contains c || Unprintable.contains c then codePoint c
  else [c]

/-- The written form of a text, in double quotes. -/
def text (s : String) : String :=
  String.ofList ('"' :: s.toList.flatMap escape ++ ['"'])

end DiceNotation.Quoted
