import DiceNotation.Proofs.Json.Values

set_option autoImplicit false

/-!
# What is written in JSON is read back

Tokens and settings are records. Each of their fields is a name, an integer of 64 bits, a string or a null, and
as such it is read back; so is the record, because its fields have different names.

## Main definitions

* `Token.entries`, `Settings.entry` — the fields with their values.

## Main results

* `JsonForm.ofName?_escape` — a variant is read back from its name.
* `Json.place?_repr`, `Json.seed?_repr` — integers of 64 bits are read back.
* `JsonForm.read?_write_of_record` — a record is read as the object of its fields.
* `JsonForm.read?_write` — tokens and settings are read back.
-/

namespace DiceNotation

open Json

/-! ## Fields -/

/-- A variant is read back from its name, if no variant in front of it has the same name. -/
theorem JsonForm.ofName?_escape {α : Type} {all : List α} {name : α → String} {a : α}
    (h : all.find? (name · == name a) = some a) :
    ofName? all name (.string ((name a).toList.flatMap escape)) = some a := by
  rw [ofName?, variant?, unescape?_escape, Option.bind_some, h]

/-- A kind of token is read back from its name. -/
theorem TokenKind.ofName?_name (kind : TokenKind) :
    JsonForm.ofName? all name (.string (kind.name.toList.flatMap escape)) = some kind :=
  JsonForm.ofName?_escape (by cases kind <;> decide)

namespace Json

/-- A string is read back from what is written inside its quotes. -/
theorem string?_escape (s : String) : (string (s.toList.flatMap escape)).string? = some s :=
  unescape?_escape s

/-- An integer of 64 bits with a sign is read back from its numeral. -/
theorem place?_repr (v : Int64) : (number v.toInt.repr.toList).place? = some v.toInt := by
  rw [place?, integer?_repr, Option.bind_some, if_pos ⟨v.minValue_le_toInt, v.toInt_le⟩]

/-- An integer of 64 bits without a sign is read back from its numeral. -/
theorem seed?_repr (v : UInt64) : (number v.toNat.repr.toList).seed? = some (some v) := by
  have hinteger : (number v.toNat.repr.toList).integer? = some (v.toNat : Int) := integer?_repr v.toNat
  rw [seed?, hinteger, Option.bind_some, if_pos ⟨Int.natCast_nonneg _, by exact_mod_cast v.toNat_lt⟩,
    Int.toNat_natCast, UInt64.ofNat_toNat]
  -- a number is no null
  simp

end Json

/-! ## Records -/

/-- A record is read as the object of its fields. -/
theorem JsonForm.read?_write_of_record {α : Type} [JsonForm α] {a : α} {es : List Entry}
    (h : written a = record (es.map Entry.text)) (hne : es ≠ []) :
    read? (write a) = (ofJson? (object (es.map Entry.member)) : Option α) := by
  obtain ⟨e, es, rfl⟩ := List.exists_cons_of_ne_nil hne
  rw [read?, write, h, ofText?_record, Option.bind_some]

namespace Token

/-- The fields of a token. -/
def entries (t : Token) : List Entry :=
  [⟨"start_pos", _, _, stands_repr t.startPos⟩, ⟨"end_pos", _, _, stands_repr t.endPos⟩,
    ⟨"content", _, _, stands_quote t.content⟩, ⟨"kind", _, _, stands_quote t.kind.name⟩]

/-- The names of the fields of a token. -/
theorem map_name_entries (t : Token) : t.entries.map Entry.name = fieldNames :=
  rfl

/-- A token with places of 64 bits is read back. -/
theorem read?_write_token (kind : TokenKind) (content : String) (first last : Int64) :
    JsonForm.read? (JsonForm.write (⟨kind, content, first.toInt, last.toInt⟩ : Token)) =
      some (⟨kind, content, first.toInt, last.toInt⟩ : Token) := by
  set t : Token := ⟨kind, content, first.toInt, last.toInt⟩ with ht
  have hwritten : JsonForm.written t = record (t.entries.map Entry.text) := rfl
  have hfields := fields?_entries t.entries (by rw [t.map_name_entries]; decide)
  rw [t.map_name_entries] at hfields
  rw [JsonForm.read?_write_of_record hwritten (List.cons_ne_nil _ _)]
  simp only [JsonForm.ofJson?, hfields]
  simp [entries, ht, TokenKind.ofName?_name, string?_escape, place?_repr]

end Token

namespace Settings

/-- The field of settings. -/
def entry : Settings → Entry
  | ⟨none⟩ => ⟨"seed", _, _, stands_null⟩
  | ⟨some seed⟩ => ⟨"seed", _, _, stands_repr seed.toNat⟩

/-- Settings are read back. -/
theorem read?_write_settings (s : Settings) : JsonForm.read? (JsonForm.write s) = some s := by
  have hname : [s.entry].map Entry.name = ["seed"] := by rcases s with ⟨_ | _⟩ <;> rfl
  have hwritten : JsonForm.written s = record ([s.entry].map Entry.text) := by
    rcases s with ⟨_ | _⟩ <;> rfl
  have hvalue : s.entry.value.seed? = some s.seed := by
    rcases s with ⟨_ | seed⟩
    · rfl
    · exact seed?_repr seed
  have hfields := fields?_entries [s.entry] (by rw [hname]; decide)
  rw [hname] at hfields
  rw [JsonForm.read?_write_of_record hwritten (List.cons_ne_nil _ _)]
  simp only [JsonForm.ofJson?, hfields]
  simp [hvalue]

end Settings

namespace JsonForm

/-- **What is written in JSON is read back.** Every token whose places have 64 bits is read back from its
text, whatever characters it has, and so are all settings, with any seed of 64 bits or without one.

**Proof sketch.** The text of a record is an object of its fields, and these have different names. Each field
is read back: a string because each of its characters is, an integer because its numeral has no zero in
front and denotes it, and the name of a kind because no other kind has it. -/
theorem read?_write :
    (∀ (kind : TokenKind) (content : String) (first last : Int64),
      read? (write (⟨kind, content, first.toInt, last.toInt⟩ : Token)) =
        some (⟨kind, content, first.toInt, last.toInt⟩ : Token)) ∧
    ∀ seed : Option UInt64, read? (write (⟨seed⟩ : Settings)) = some (⟨seed⟩ : Settings) :=
  ⟨Token.read?_write_token, fun seed => Settings.read?_write_settings ⟨seed⟩⟩

end JsonForm

end DiceNotation
