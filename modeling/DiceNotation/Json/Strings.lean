set_option autoImplicit false

/-!
# Strings in JSON

## Main definitions

* `Json.quote` — a string as it is written in JSON.
* `Json.unescape?` — the characters that the inside of a written string stands for.

## Implementation notes

Only what has to be escaped is: quotes, backslashes, and the controls below the space. When a string
is read, a pair of surrogates stands for one character, and a surrogate alone stands for none.
-/

namespace DiceNotation.Json

/-- The four digits of a control character. -/
def fourDigits (n : Nat) : List Char :=
  let digits := Nat.toDigits 16 n
  List.replicate (4 - digits.length) '0' ++ digits

/-- One character inside a written string. -/
def escape (c : Char) : List Char :=
  if c = '"' then ['\\', '"']
  else if c = '\\' then ['\\', '\\']
  else if c = '\x08' then ['\\', 'b']
  else if c = '\x0c' then ['\\', 'f']
  else if c = '\n' then ['\\', 'n']
  else if c = '\r' then ['\\', 'r']
  else if c = '\t' then ['\\', 't']
  else if c.toNat < 0x20 then '\\' :: 'u' :: fourDigits c.toNat
  else [c]

/-- A string as it is written in JSON. -/
def quote (s : String) : List Char :=
  '"' :: s.toList.flatMap escape ++ ['"']

/-- The value of a hexadecimal digit in either case. -/
def hexDigit? (c : Char) : Option Nat :=
  if '0' ≤ c ∧ c ≤ '9' then some (c.toNat - '0'.toNat)
  else if 'a' ≤ c ∧ c ≤ 'f' then some (c.toNat - 'a'.toNat + 10)
  else if 'A' ≤ c ∧ c ≤ 'F' then some (c.toNat - 'A'.toNat + 10)
  else none

/-- The value of four hexadecimal digits. -/
def hexUnit? (a b c d : Char) : Option Nat := do
  let a ← hexDigit? a
  let b ← hexDigit? b
  let c ← hexDigit? c
  let d ← hexDigit? d
  return ((a * 16 + b) * 16 + c) * 16 + d

/-- The character behind a backslash, for the escapes of two characters. -/
def shortEscape? : Char → Option Char
  | '"' => some '"'
  | '\\' => some '\\'
  | '/' => some '/'
  | 'b' => some '\x08'
  | 'f' => some '\x0c'
  | 'n' => some '\n'
  | 'r' => some '\r'
  | 't' => some '\t'
  | _ => none

/-- The first of a pair of surrogates. -/
def isLeading (unit : Nat) : Bool :=
  0xD800 ≤ unit && unit < 0xDC00

/-- The second of a pair of surrogates. -/
def isTrailing (unit : Nat) : Bool :=
  0xDC00 ≤ unit && unit < 0xE000

/-- The character of a pair of surrogates. -/
def ofPair (leading trailing : Nat) : Char :=
  Char.ofNat (0x10000 + (leading - 0xD800) * 0x400 + (trailing - 0xDC00))

/-- The characters that the inside of a written string stands for. `leading` is the first of a pair
of surrogates that has been read. -/
def unescapeFrom? : Option Nat → List Char → Option (List Char)
  | none, [] => some []
  | some _, [] => none
  | leading, '\\' :: 'u' :: a :: b :: c :: d :: rest =>
    match hexUnit? a b c d, leading with
    | none, _ => none
    | some unit, some first =>
      if isTrailing unit then (unescapeFrom? none rest).map (ofPair first unit :: ·) else none
    | some unit, none =>
      if isLeading unit then unescapeFrom? (some unit) rest
      else if isTrailing unit then none
      else (unescapeFrom? none rest).map (Char.ofNat unit :: ·)
  | some _, _ => none
  | none, '\\' :: c :: rest =>
    (shortEscape? c).bind fun ch => (unescapeFrom? none rest).map (ch :: ·)
  | none, c :: rest => (unescapeFrom? none rest).map (c :: ·)

/-- The characters that the inside of a written string stands for. -/
def unescape? (inside : List Char) : Option String :=
  (unescapeFrom? none inside).map String.ofList

end DiceNotation.Json
