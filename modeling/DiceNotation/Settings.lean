import DiceNotation.Text.Blank
import DiceNotation.Text.Numeral
import DiceNotation.Text.Utf8

set_option autoImplicit false

/-!
# Settings

Where the randomness of a roll comes from, and the environment variable that says so.

## Main definitions

* `Settings` — a seed, or none.
* `Settings.ofText`, `Settings.ofVariable` — settings from the value of the variable.
-/

namespace DiceNotation

/-- Where the randomness of a roll comes from. -/
structure Settings where
  /-- With a seed, the words for each dice term are those of the seed, from the first one on. -/
  seed : Option UInt64
  deriving DecidableEq, Repr, Inhabited

/-- The environment variable that holds the seed. -/
def seedVariable : String :=
  "CRITICAL_DICE_SEED"

/-- The value of the variable is no seed. -/
structure InvalidSeed where
  /-- The value, as far as it is text. -/
  value : String
  deriving DecidableEq, Repr

/-- The message of a value that is no seed. -/
def InvalidSeed.message (e : InvalidSeed) : String :=
  seedVariable ++ " must be an unsigned integer, but found '" ++ e.value ++ "'"

namespace Settings

/-- Settings without a seed. -/
def unseeded : Settings :=
  ⟨none⟩

/-- Settings with a seed. -/
def seeded (seed : UInt64) : Settings :=
  ⟨some seed⟩

/-- Settings from a text: a numeral with blanks around it, or blanks alone for no seed. -/
def ofText (text : List Char) : Except InvalidSeed Settings :=
  let value := String.ofList (Blank.trim text)
  if value = "" then .ok unseeded
  else (Numeral.uint64? value).elim (.error ⟨value⟩) (.ok ∘ seeded)

/-- Settings from the bytes of the variable, if it is set. Bytes that are no text are shown with a
replacement character for each part that cannot be read. -/
def ofVariable : Option (List UInt8) → Except InvalidSeed Settings
  | none => .ok unseeded
  | some bytes =>
    match Utf8.decode? bytes with
    | some text => ofText text
    | none => .error ⟨String.ofList (Utf8.decodeLossy bytes)⟩

end Settings

end DiceNotation
