import DiceNotation.Json.Strings
import DiceNotation.Text.Numeral

set_option autoImplicit false

/-!
# JSON values

Values as they are written: what is between the quotes of a string, and the characters of a number,
are kept as they are. What they stand for is asked for where it matters, so a value that nobody asks
for only has to follow the grammar.

## Main definitions

* `Json` — a written value.
* `Json.ofText?` — the value that a whole text is.
* `Json.string?`, `Json.integer?` — the string and the integer that a value stands for.
* `Json.variant?` — the name of a variant without contents.
* `Json.fields?` — the fields of a record, given as an object or as an array.

## Implementation notes

Reading is limited by twice the length of the text: a step into a value or on to the next element
takes a character at least every other time.
-/

namespace DiceNotation

/-- A written JSON value. -/
inductive Json where
  | null
  | bool (b : Bool)
  | number (written : List Char)
  | string (inside : List Char)
  | array (elements : List Json)
  | object (members : List (List Char × Json))
  deriving Repr, Inhabited

namespace Json

/-! ## Grammar -/

/-- The characters that may stand between the parts of a value. -/
def isSpace (c : Char) : Bool :=
  c = ' ' || c = '\n' || c = '\t' || c = '\r'

/-- The text behind the spaces it begins with. -/
def skip (cs : List Char) : List Char :=
  cs.dropWhile isSpace

/-- The inside of a string and the text behind its closing quote. -/
def stringInside : List Char → Option (List Char × List Char)
  | [] => none
  | '"' :: rest => some ([], rest)
  | '\\' :: 'u' :: a :: b :: c :: d :: rest =>
    (hexUnit? a b c d).bind fun _ =>
      (stringInside rest).map fun (inside, rest) =>
        ('\\' :: 'u' :: a :: b :: c :: d :: inside, rest)
  | '\\' :: c :: rest =>
    (shortEscape? c).bind fun _ =>
      (stringInside rest).map fun (inside, rest) => ('\\' :: c :: inside, rest)
  | c :: rest =>
    if c.toNat < 0x20 then none
    else (stringInside rest).map fun (inside, rest) => (c :: inside, rest)

/-- A nonempty run of digits and the text behind it. -/
def digits (cs : List Char) : Option (List Char × List Char) :=
  match cs.takeWhile Char.isDigit with
  | [] => none
  | run => some (run, cs.dropWhile Char.isDigit)

/-- The digits in front of a fraction: no zero stands in front of other digits. -/
def wholePart : List Char → Option (List Char × List Char)
  | '0' :: rest => if rest.head?.any Char.isDigit then none else some (['0'], rest)
  | cs => digits cs

/-- A fraction, if there is one. -/
def fractionPart : List Char → Option (List Char × List Char)
  | '.' :: rest => (digits rest).map fun (run, rest) => ('.' :: run, rest)
  | cs => some ([], cs)

/-- The sign of an exponent, if there is one. -/
def exponentSign : List Char → List Char × List Char
  | '+' :: rest => (['+'], rest)
  | '-' :: rest => (['-'], rest)
  | cs => ([], cs)

/-- An exponent, if there is one. -/
def exponentPart : List Char → Option (List Char × List Char)
  | [] => some ([], [])
  | c :: rest =>
    if c = 'e' ∨ c = 'E' then
      let (sign, rest) := exponentSign rest
      (digits rest).map fun (run, rest) => (c :: sign ++ run, rest)
    else some ([], c :: rest)

/-- A number without a minus and the text behind it. -/
def unsignedNumber (cs : List Char) : Option (List Char × List Char) := do
  let (whole, cs) ← wholePart cs
  let (fraction, cs) ← fractionPart cs
  let (exponent, cs) ← exponentPart cs
  return (whole ++ fraction ++ exponent, cs)

/-- A number and the text behind it. -/
def writtenNumber : List Char → Option (List Char × List Char)
  | '-' :: rest => (unsignedNumber rest).map fun (written, rest) => ('-' :: written, rest)
  | cs => unsignedNumber cs

/-- The text behind a colon. -/
def afterColon (cs : List Char) : Option (List Char) :=
  match skip cs with
  | ':' :: rest => some rest
  | _ => none

mutual

/-- A value and the text behind it. -/
def value : Nat → List Char → Option (Json × List Char)
  | 0, _ => none
  | n + 1, cs =>
    match skip cs with
    | 'n' :: 'u' :: 'l' :: 'l' :: rest => some (null, rest)
    | 't' :: 'r' :: 'u' :: 'e' :: rest => some (bool true, rest)
    | 'f' :: 'a' :: 'l' :: 's' :: 'e' :: rest => some (bool false, rest)
    | '"' :: rest => (stringInside rest).map fun (inside, rest) => (string inside, rest)
    | '[' :: rest =>
      match skip rest with
      | ']' :: rest => some (array [], rest)
      | rest => (elements n rest).map fun (es, rest) => (array es, rest)
    | '\x7b' :: rest =>
      match skip rest with
      | '\x7d' :: rest => some (object [], rest)
      | rest => (members n rest).map fun (ms, rest) => (object ms, rest)
    | rest => (writtenNumber rest).map fun (written, rest) => (number written, rest)

/-- The elements of an array and the text behind its closing bracket. -/
def elements : Nat → List Char → Option (List Json × List Char)
  | 0, _ => none
  | n + 1, cs => do
    let (e, cs) ← value n cs
    match skip cs with
    | ',' :: rest => (elements n rest).map fun (es, rest) => (e :: es, rest)
    | ']' :: rest => return ([e], rest)
    | _ => none

/-- The members of an object and the text behind its closing brace. -/
def members : Nat → List Char → Option (List (List Char × Json) × List Char)
  | 0, _ => none
  | n + 1, cs =>
    match skip cs with
    | '"' :: rest => do
      let (name, cs) ← stringInside rest
      let cs ← afterColon cs
      let (v, cs) ← value n cs
      match skip cs with
      | ',' :: rest => (members n rest).map fun (ms, rest) => ((name, v) :: ms, rest)
      | '\x7d' :: rest => return ([(name, v)], rest)
      | _ => none
    | _ => none

end

/-- The value that a whole text is, spaces around it apart. -/
def ofText? (text : String) : Option Json := do
  let cs := text.toList
  let (v, rest) ← value (2 * cs.length + 2) cs
  if skip rest = [] then return v else none

/-! ## What values stand for -/

/-- The string that a value stands for. -/
def string? : Json → Option String
  | string inside => unescape? inside
  | _ => none

/-- The integer that a value stands for. A fraction or an exponent makes no integer, nor does a
zero with a minus. -/
def integer? : Json → Option Int
  | number ('-' :: digits) =>
    (Numeral.natural? digits).bind fun n => if n = 0 then none else some (-(n : Int))
  | number digits => (Numeral.natural? digits).map Int.ofNat
  | _ => none

/-- The name of a variant without contents: a string, or an object whose only member has that name
and the value null. -/
def variant? : Json → Option String
  | string inside => unescape? inside
  | object [(name, null)] => unescape? name
  | _ => none

/-- The fields of a record, in the order of `names`. An array has exactly these fields; in an object
every name has to be readable, fields with other names are passed over, fields may be missing, and
none comes twice. -/
def fields? (names : List String) : Json → Option (List (Option Json))
  | array elements =>
    if elements.length = names.length then some (elements.map some) else none
  | object members => do
    let named ← members.mapM fun (name, v) => (unescape? name).map (·, v)
    names.mapM fun name =>
      match named.filter (·.1 == name) with
      | [] => some none
      | [(_, v)] => some (some v)
      | _ => none
  | _ => none

end Json

end DiceNotation
