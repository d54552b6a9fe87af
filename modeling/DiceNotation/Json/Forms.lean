import DiceNotation.Json.Value
import DiceNotation.Settings
import DiceNotation.Symbol
import DiceNotation.Token

set_option autoImplicit false

/-!
# Tokens, symbols and settings in JSON

## Main definitions

* `JsonForm` — types whose values are written in JSON and read from it.
* `JsonForm.write`, `JsonForm.read?` — from a value to a text, and from a text to a value.

## Implementation notes

Kinds and symbols are variants, named as in `TokenKind.name`, `Modifier.name` and `Operator.name`.
Tokens and settings are records; of all fields only the seed may be missing. Places are integers of
64 bits with a sign, and the seed is one without.
-/

namespace DiceNotation

/-- Types whose values are written in JSON and read from it. -/
class JsonForm (α : Type) where
  /-- A value as it is written. -/
  written : α → List Char
  /-- The value that a JSON value stands for. -/
  ofJson? : Json → Option α

namespace JsonForm

variable {α : Type} [JsonForm α]

/-- A value as JSON text, without spaces. -/
def write (a : α) : String :=
  String.ofList (written a)

/-- The value that a JSON text stands for. -/
def read? (text : String) : Option α :=
  (Json.ofText? text).bind ofJson?

/-- The variant of a name. -/
def ofName? (all : List α) (name : α → String) (j : Json) : Option α :=
  j.variant?.bind fun s => all.find? (name · == s)

end JsonForm

instance : JsonForm TokenKind where
  written k := Json.quote k.name
  ofJson? := JsonForm.ofName? TokenKind.all TokenKind.name

instance : JsonForm Modifier where
  written m := Json.quote m.name
  ofJson? := JsonForm.ofName? Modifier.all Modifier.name

instance : JsonForm Operator where
  written op := Json.quote op.name
  ofJson? := JsonForm.ofName? Operator.all Operator.name

namespace Json

/-- An integer of 64 bits with a sign. -/
def place? (j : Json) : Option Int :=
  j.integer?.bind fun n =>
    if Int64.minValue.toInt ≤ n ∧ n ≤ Int64.maxValue.toInt then some n else none

/-- An integer of 64 bits without a sign, or null for none. -/
def seed? : Json → Option (Option UInt64)
  | null => some none
  | j => j.integer?.bind fun n =>
    if 0 ≤ n ∧ n < UInt64.size then some (some (UInt64.ofNat n.toNat)) else none

/-- A field as it is written: its name and its value. -/
def field (name : String) (value : List Char) : List Char :=
  quote name ++ ':' :: value

/-- A record as it is written, of fields that are written already. -/
def record (fields : List (List Char)) : List Char :=
  '\x7b' :: [','].intercalate fields ++ ['\x7d']

end Json

namespace Token

/-- The fields of a token, in the order in which they are written. -/
def fieldNames : List String :=
  ["start_pos", "end_pos", "content", "kind"]

instance : JsonForm Token where
  written t := Json.record [
    Json.field "start_pos" t.startPos.repr.toList,
    Json.field "end_pos" t.endPos.repr.toList,
    Json.field "content" (Json.quote t.content),
    Json.field "kind" (JsonForm.written t.kind)]
  ofJson? j := do
    match ← j.fields? fieldNames with
    | [some first, some last, some content, some kind] =>
      return ⟨← JsonForm.ofJson? kind, ← content.string?, ← first.place?, ← last.place?⟩
    | _ => none

end Token

namespace Settings

instance : JsonForm Settings where
  written s := Json.record [
    Json.field "seed" (s.seed.elim "null" (·.toNat.repr)).toList]
  ofJson? j := do
    match ← j.fields? ["seed"] with
    | [some seed] => return ⟨← seed.seed?⟩
    | [none] => return unseeded
    | _ => none

end Settings

end DiceNotation
