import DiceNotation.Json.Forms
import DiceNotation.Proofs.Json.Strings

set_option autoImplicit false

/-!
# Written records are read back

A record is read field by field. The value of a field is followed by a comma or by the closing brace, and all
that its reading needs to know of the text behind it is that it begins so: such a character ends a number,
and a string or a null ends by itself.

## Main definitions

* `Json.Closes` — a text that begins with a comma or with a closing brace.
* `Json.Stands` — a text is a value wherever such a text follows.
* `Json.Entry` — a field with its value, as it is written and as it is read.

## Main results

* `Json.stands_null`, `Json.stands_quote`, `Json.stands_repr` — nulls, strings and integers.
* `Json.integer?_repr` — the integer that a numeral stands for.
* `Json.ofText?_record` — the text of a record is an object of its fields.
* `Json.fields?_entries` — the fields of such an object are those that were written.
-/

namespace DiceNotation

/-! ## Numerals of integers -/

namespace Numeral

/-- The numeral of a number begins with a digit, and so with no minus. -/
theorem exists_cons_toDigits (n : Nat) :
    ∃ c cs, Nat.toDigits 10 n = c :: cs ∧ c.isDigit = true ∧ c ≠ '-' := by
  obtain ⟨c, cs, h⟩ := List.exists_cons_of_ne_nil (Nat.toDigits_ne_nil (b := 10) (n := n))
  have hdigit : c.isDigit = true :=
    Nat.isDigit_of_mem_toDigits (b := 10) (n := n) (by decide) (by decide) (by simp [h])
  refine ⟨c, cs, h, hdigit, ?_⟩
  rintro rfl
  exact absurd hdigit (by decide)

/-- Only zero is written with a zero in front.

**Proof sketch.** Induction on the number. Behind its last digit, a number is written as its tenth is. -/
theorem eq_zero_of_toDigits {n : Nat} {cs : List Char} (h : Nat.toDigits 10 n = '0' :: cs) : n = 0 := by
  induction n using Nat.strongRecOn generalizing cs with
  | ind n ih =>
    by_cases hn : n < 10
    · have hall : ∀ m < 10, Nat.digitChar m = '0' → m = 0 := by decide
      rw [Nat.toDigits_of_lt_base hn] at h
      exact hall n hn (List.cons.inj h).1
    · rw [Nat.toDigits_of_base_le (by decide) (by omega)] at h
      obtain ⟨c, ds, hds, -, -⟩ := exists_cons_toDigits (n / 10)
      rw [hds, List.cons_append] at h
      have htenth := ih (n / 10) (by omega) (hds.trans (congrArg (· :: ds) (List.cons.inj h).1))
      omega

end Numeral

namespace Json

/-! ## Values in front of a comma or a closing brace -/

/-- A text that begins with a comma or with a closing brace. -/
inductive Closes : List Char → Prop
  | comma (rest : List Char) : Closes (',' :: rest)
  | brace (rest : List Char) : Closes ('\x7d' :: rest)

variable {cs rest : List Char}

/-- A run of digits ends where the text closes. -/
theorem digits_append (hne : cs ≠ []) (hdigit : ∀ c ∈ cs, c.isDigit = true) (h : Closes rest) :
    digits (cs ++ rest) = some (cs, rest) := by
  have htake : rest.takeWhile Char.isDigit = [] := by cases h <;> rfl
  have hdrop : rest.dropWhile Char.isDigit = rest := by cases h <;> rfl
  rw [digits, List.takeWhile_append_of_pos hdigit, List.dropWhile_append_of_pos hdigit, htake, hdrop,
    List.append_nil]
  cases cs with
  | nil => exact absurd rfl hne
  | cons c cs => rfl

/-- The digits of a number are a number, which ends where the text closes. -/
theorem unsignedNumber_toDigits (n : Nat) (h : Closes rest) :
    unsignedNumber (Nat.toDigits 10 n ++ rest) = some (Nat.toDigits 10 n, rest) := by
  have hwhole : wholePart (Nat.toDigits 10 n ++ rest) = some (Nat.toDigits 10 n, rest) := by
    -- a zero in front is read for itself, so no other number may begin with one
    by_cases hn : n = 0
    · subst hn
      cases h <;> rfl
    · have hdigits := digits_append (Nat.toDigits_ne_nil (b := 10) (n := n))
        (fun c hc => Nat.isDigit_of_mem_toDigits (by decide) (by decide) hc) h
      obtain ⟨c, ds, hds, -, -⟩ := Numeral.exists_cons_toDigits n
      rw [hds] at hdigits ⊢
      have hc : c ≠ '0' := by
        rintro rfl
        exact hn (Numeral.eq_zero_of_toDigits hds)
      rw [List.cons_append, wholePart]
      · exact hdigits
      · simpa using hc
  have hfraction : fractionPart rest = some ([], rest) := by cases h <;> rfl
  have hexponent : exponentPart rest = some ([], rest) := by cases h <;> rfl
  simp [unsignedNumber, hwhole, hfraction, hexponent]

/-- The numeral of an integer is a number, which ends where the text closes. -/
theorem writtenNumber_repr (n : Int) (h : Closes rest) :
    writtenNumber (n.repr.toList ++ rest) = some (n.repr.toList, rest) := by
  rcases Numeral.toList_repr_cases n with ⟨m, -, hm⟩ | ⟨m, -, -, hm⟩
  · obtain ⟨c, ds, hds, -, hminus⟩ := Numeral.exists_cons_toDigits m
    have hnumber := unsignedNumber_toDigits m h
    rw [hds] at hm hnumber
    rw [hm, List.cons_append, writtenNumber]
    · exact hnumber
    · simpa using hminus
  · rw [hm, List.cons_append, writtenNumber, unsignedNumber_toDigits m h]
    rfl

/-- Where a text begins with a digit or a minus, the value that it begins with is a number. -/
theorem value_number {c : Char} (n : Nat) (h : c = '-' ∨ c.isDigit = true) :
    value (n + 1) (c :: cs) = (writtenNumber (c :: cs)).map fun r => (number r.1, r.2) := by
  have hne (d : Char) (hd : ¬ (d = '-' ∨ d.isDigit = true)) : c ≠ d := by
    rintro rfl
    exact hd h
  have hspace : isSpace c = false := by
    simp [isSpace, hne ' ' (by decide), hne '\n' (by decide), hne '\t' (by decide),
      hne '\r' (by decide)]
  have hskip : skip (c :: cs) = c :: cs := List.dropWhile_cons_of_neg (by simp [hspace])
  rw [value, hskip]
  split
  next heq => exact absurd (List.cons.inj heq).1 (hne 'n' (by decide))
  next heq => exact absurd (List.cons.inj heq).1 (hne 't' (by decide))
  next heq => exact absurd (List.cons.inj heq).1 (hne 'f' (by decide))
  next heq => exact absurd (List.cons.inj heq).1 (hne '"' (by decide))
  next heq => exact absurd (List.cons.inj heq).1 (hne '[' (by decide))
  next heq => exact absurd (List.cons.inj heq).1 (hne '\x7b' (by decide))
  next => rfl

/-- The text `cs` is the value `j` wherever a text follows that closes. -/
def Stands (cs : List Char) (j : Json) : Prop :=
  ∀ n rest, Closes rest → value (n + 1) (cs ++ rest) = some (j, rest)

/-- A null stands for itself. -/
theorem stands_null : Stands "null".toList null :=
  fun _ _ _ => rfl

/-- A string in quotes stands for what is inside. -/
theorem stands_quote (s : String) : Stands (quote s) (string (s.toList.flatMap escape)) := by
  intro n rest _
  have hskip : skip (quote s ++ rest) = '"' :: (s.toList.flatMap escape ++ '"' :: rest) := by
    simp [skip, quote, isSpace]
  rw [value, hskip]
  simp only [stringInside_escape, Option.map_some]

/-- A numeral stands for the number. -/
theorem stands_repr (n : Int) : Stands n.repr.toList (number n.repr.toList) := by
  intro m rest h
  have hnumber := writtenNumber_repr n h
  obtain ⟨c, cs, hcs, hc⟩ : ∃ c cs, n.repr.toList = c :: cs ∧ (c = '-' ∨ c.isDigit = true) := by
    rcases Numeral.toList_repr_cases n with ⟨k, -, hk⟩ | ⟨k, -, -, hk⟩
    · obtain ⟨c, cs, hcs, hdigit, -⟩ := Numeral.exists_cons_toDigits k
      exact ⟨c, cs, hk.trans hcs, Or.inr hdigit⟩
    · exact ⟨_, _, hk, Or.inl rfl⟩
  rw [hcs, List.cons_append] at hnumber ⊢
  rw [value_number m hc, hnumber]
  rfl

/-- The integer that a numeral stands for. -/
theorem integer?_repr (n : Int) : (number n.repr.toList).integer? = some n := by
  rcases Numeral.toList_repr_cases n with ⟨m, rfl, hm⟩ | ⟨m, hpos, rfl, hm⟩
  · obtain ⟨c, cs, hcs, -, hminus⟩ := Numeral.exists_cons_toDigits m
    have hnatural := Numeral.natural?_toDigits m
    rw [hm]
    rw [hcs] at hnatural ⊢
    rw [integer?, hnatural]
    · rfl
    · simpa using hminus
  · rw [hm, integer?, Numeral.natural?_toDigits, Option.bind_some, if_neg (by omega)]

/-! ## Records -/

/-- A field with its value, as it is written and as it is read. -/
structure Entry where
  /-- The name. -/
  name : String
  /-- The value as it is written. -/
  written : List Char
  /-- The value as it is read. -/
  value : Json
  stands : Stands written value

namespace Entry

/-- The field as it is written. -/
def text (e : Entry) : List Char :=
  field e.name e.written

/-- The field as it is read. -/
def member (e : Entry) : List Char × Json :=
  (e.name.toList.flatMap escape, e.value)

variable (e : Entry)

/-- A field begins with its name, in quotes, and a colon. -/
theorem skip_text_append (behind : List Char) :
    skip (e.text ++ behind) =
      '"' :: (e.name.toList.flatMap escape ++ '"' :: ':' :: (e.written ++ behind)) := by
  simp [skip, text, field, quote, isSpace]

/-- Behind a field and a comma the other fields are read. -/
theorem members_comma (n : Nat) (rest : List Char) :
    members (n + 2) (e.text ++ ',' :: rest) =
      (members (n + 1) rest).map fun r => (e.member :: r.1, r.2) := by
  rw [members, e.skip_text_append]
  simp [stringInside_escape, afterColon, skip, isSpace, e.stands n _ (.comma rest), member]

/-- A closing brace ends the fields. -/
theorem members_brace (n : Nat) (rest : List Char) :
    members (n + 2) (e.text ++ '\x7d' :: rest) = some ([e.member], rest) := by
  rw [members, e.skip_text_append]
  simp [stringInside_escape, afterColon, skip, isSpace, e.stands n _ (.brace rest), member]

end Entry

/-- Fields with commas between them, in front of a closing brace, are the members of an object.

**Proof sketch.** Induction on the fields. Behind a value stands a comma if there is another field, and else
the closing brace. -/
theorem members_entries {e : Entry} {es : List Entry} {n : Nat} (hn : es.length ≤ n) (rest : List Char) :
    members (n + 2) ([','].intercalate ((e :: es).map Entry.text) ++ '\x7d' :: rest) =
      some ((e :: es).map Entry.member, rest) := by
  induction es generalizing e n with
  | nil =>
    rw [List.map_singleton, List.intercalate_singleton]
    exact e.members_brace n rest
  | cons f es ih =>
    obtain ⟨m, rfl⟩ : ∃ m, n = m + 1 := Nat.exists_eq_succ_of_ne_zero (by
      rw [List.length_cons] at hn
      omega)
    rw [List.map_cons, List.map_cons, List.intercalate_cons_cons, ← List.map_cons, List.append_assoc,
      List.append_assoc, List.singleton_append, e.members_comma, ih (Nat.le_of_succ_le_succ hn)]
    rfl

/-- There are no more fields than characters. -/
theorem length_le_length_intercalate (fields : List (List Char)) :
    fields.length ≤ ([','].intercalate fields).length + 1 := by
  induction fields with
  | nil => exact Nat.zero_le _
  | cons cs fields ih =>
    cases fields with
    | nil => simp
    | cons ds fields =>
      rw [List.intercalate_cons_cons]
      simp only [List.length_append, List.length_cons, List.length_nil] at ih ⊢
      omega

/-- An object of fields begins with a brace, and with the quote of the first name. -/
theorem value_object (n : Nat) (cs : List Char) :
    value (n + 1) ('\x7b' :: '"' :: cs) =
      (members n ('"' :: cs)).map fun r => (object r.1, r.2) := by
  simp [value, skip, isSpace]

/-- The text of a record is an object of its fields. -/
theorem ofText?_record (e : Entry) (es : List Entry) :
    ofText? (String.ofList (record ((e :: es).map Entry.text))) =
      some (object ((e :: es).map Entry.member)) := by
  set fields := [','].intercalate ((e :: es).map Entry.text) with hfields
  obtain ⟨cs, hcs⟩ : ∃ cs, fields ++ ['\x7d'] = '"' :: cs := by
    cases es with
    | nil => exact ⟨_, by rw [hfields]; rfl⟩
    | cons f es => exact ⟨_, by rw [hfields]; rfl⟩
  have hlen : es.length ≤ 2 * fields.length + 3 := by
    have hle := length_le_length_intercalate ((e :: es).map Entry.text)
    rw [← hfields, List.length_map, List.length_cons] at hle
    omega
  have hmembers : members (2 * fields.length + 3 + 2) ('"' :: cs) =
      some ((e :: es).map Entry.member, []) := hcs ▸ members_entries hlen []
  have hsize : 2 * (record ((e :: es).map Entry.text)).length + 2 =
      2 * fields.length + 3 + 2 + 1 := by
    simp only [record, ← hfields, List.cons_append, List.length_append, List.length_cons,
      List.length_nil]
    omega
  have htext : record ((e :: es).map Entry.text) = '\x7b' :: '"' :: cs := by
    rw [record, ← hfields, List.cons_append, hcs]
  rw [ofText?, String.toList_ofList, hsize, htext, value_object, hmembers]
  rfl

/-- Where all names are different, a name is found once. -/
theorem filter_name_eq {es : List Entry} (h : (es.map Entry.name).Nodup) {e : Entry} (he : e ∈ es) :
    (es.map fun e => (e.name, e.value)).filter (·.1 == e.name) = [(e.name, e.value)] := by
  induction es with
  | nil => cases he
  | cons f es ih =>
    rw [List.map_cons, List.nodup_cons] at h
    rw [List.map_cons]
    rcases List.mem_cons.1 he with rfl | he
    · rw [List.filter_cons_of_pos (by simp), List.filter_eq_nil_iff.2]
      rintro ⟨name, value⟩ hmem hname
      obtain ⟨f, hf, heq⟩ := List.mem_map.1 hmem
      obtain ⟨rfl, rfl⟩ := Prod.mk.inj heq
      exact h.1 (List.mem_map.2 ⟨f, hf, eq_of_beq hname⟩)
    · rw [List.filter_cons_of_neg, ih h.2 he]
      intro hname
      exact h.1 (List.mem_map.2 ⟨e, he, (eq_of_beq hname).symm⟩)

/-- If the value of each field is found by its name, so are the values of all fields. -/
theorem mapM_name_eq {es : List Entry} {f : String → Option (Option Json)}
    (h : ∀ e ∈ es, f e.name = some (some e.value)) :
    (es.map Entry.name).mapM f = some (es.map fun e => some e.value) := by
  induction es with
  | nil => rfl
  | cons e es ih =>
    rw [List.map_cons, List.mapM_cons, h e List.mem_cons_self,
      ih fun f hf => h f (List.mem_cons_of_mem e hf)]
    rfl

/-- The fields of a record, if they have different names, are those that were written. -/
theorem fields?_entries (es : List Entry) (h : (es.map Entry.name).Nodup) :
    fields? (es.map Entry.name) (object (es.map Entry.member)) =
      some (es.map fun e => some e.value) := by
  have hnamed : (es.map Entry.member).mapM (fun m => (unescape? m.1).map (·, m.2)) =
      some (es.map fun e => (e.name, e.value)) := by
    rw [List.mapM_map]
    simp only [Function.comp_def, Entry.member, unescape?_escape, Option.map_some]
    exact List.mapM_pure
  rw [fields?, hnamed]
  exact mapM_name_eq fun e he => by simp only [filter_name_eq h he]

end Json

end DiceNotation
