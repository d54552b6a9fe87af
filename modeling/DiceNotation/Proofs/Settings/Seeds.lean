import DiceNotation.Settings
import DiceNotation.Proofs.Settings.Encodings
import Mathlib.Data.Nat.Digits.Defs
import Mathlib.Data.List.TakeWhile
import Mathlib.Tactic.Ring

set_option autoImplicit false

/-!
# The seed in the environment

What the value of the environment variable means, for all bytes it may hold. A text without the blanks
at its ends is a numeral that fits a word, or nothing at all, or else an error that shows it. Bytes that
are no text are an error that shows all of them, with the blanks at the ends.

## Main definitions

* `Blank.Trimmed` — a text without the blanks at its ends, in terms of what is left out.
* `Numeral.decimal` — the number whose decimal digits are given.
* `Numeral.Writes` — digits that have a given value, behind an optional plus.

## Main results

* `Blank.trim_eq_iff` — trimming a text leaves the one text that is the trimmed text.
* `Numeral.unsigned?_eq_some_iff` — which texts are read as which number.
* `Numeral.uint64?_eq_some_iff`, `Numeral.uint64?_eq_none_iff` — which texts are read as a word.
* `Settings.ofVariable_exact` — the settings that the bytes of the variable stand for.

## Implementation notes

Whether bytes are a text, and what they are shown as if they are none, is said in terms of the bytes of
characters, as `Utf8.encode` and `Utf8.Decodes` have them, and not in terms of the table of first bytes
from which they are read.
-/

namespace DiceNotation

/-! ## Blanks at the ends -/

namespace Blank

/-- The text `x` is the text without the blanks at its ends. -/
structure Trimmed (text x : List Char) : Prop where
  /-- Only blanks are left out, and only at the ends. -/
  split : ∃ before behind, text = before ++ x ++ behind ∧ (∀ c ∈ before, contains c) ∧
    ∀ c ∈ behind, contains c
  /-- There is no blank at the beginning. -/
  head : ∀ c ∈ x.head?, ¬ contains c
  /-- There is no blank at the end. -/
  last : ∀ c ∈ x.getLast?, ¬ contains c

variable {text x before behind : List Char}

/-- The blanks in front of something else are dropped. -/
theorem dropWhile_append (hbefore : ∀ c ∈ before, contains c) (hx : ∀ c ∈ x.head?, ¬ contains c) :
    (before ++ x).dropWhile contains = x := by
  rw [List.dropWhile_append_of_pos hbefore]
  cases x with
  | nil => rfl
  | cons c x => exact List.dropWhile_cons_of_neg (hx c rfl)

/-- Behind the blanks at the beginning stands no blank. -/
theorem not_contains_head_dropWhile : ∀ c ∈ (text.dropWhile contains).head?, ¬ contains c := by
  intro c hc
  have hnot := List.head?_dropWhile_not contains text
  rw [Option.mem_def.1 hc] at hnot
  simp [hnot]

/-- What trimming leaves is the trimmed text. -/
theorem trimmed_trim (text : List Char) : Trimmed text (trim text) := by
  generalize hrest : text.dropWhile contains = rest
  have htext : text.takeWhile contains ++ rest = text := hrest ▸ List.takeWhile_append_dropWhile
  have hx : trim text ++ (rest.reverse.takeWhile contains).reverse = rest := by
    rw [trim, hrest, ← List.reverse_append, List.takeWhile_append_dropWhile, List.reverse_reverse]
  refine ⟨⟨text.takeWhile contains, (rest.reverse.takeWhile contains).reverse, ?_, ?_, ?_⟩, ?_, ?_⟩
  · rw [List.append_assoc, hx, htext]
  · exact fun c hc => List.mem_takeWhile_imp hc
  · exact fun c hc => List.mem_takeWhile_imp (List.mem_reverse.1 hc)
  · intro c hc
    have hhead : c ∈ rest.head? := by
      rw [← hx, List.head?_append, Option.mem_def.1 hc]
      rfl
    exact not_contains_head_dropWhile c (hrest ▸ hhead)
  · rw [trim, List.getLast?_reverse]
    exact not_contains_head_dropWhile

/-- Trimming a text leaves the trimmed text. -/
theorem Trimmed.trim_eq (h : Trimmed text x) : trim text = x := by
  obtain ⟨before, behind, rfl, hbefore, hbehind⟩ := h.split
  rw [trim, List.append_assoc]
  by_cases hx : x = []
  · subst hx
    have hblank : ∀ c ∈ before ++ behind, contains c := fun c hc =>
      (List.mem_append.1 hc).elim (hbefore c) (hbehind c)
    rw [List.nil_append, List.dropWhile_eq_nil_iff.2 hblank]
    rfl
  · have hhead : (x ++ behind).head? = x.head? := by
      rw [List.head?_append, List.head?_eq_some_head hx]
      rfl
    have hlast : ∀ c ∈ x.reverse.head?, ¬ contains c := by
      rw [List.head?_reverse]
      exact h.last
    rw [dropWhile_append hbefore (hhead ▸ h.head), List.reverse_append,
      dropWhile_append (by simpa using hbehind) hlast, List.reverse_reverse]

/-- Trimming a text leaves the trimmed text, and nothing else is one. -/
theorem trim_eq_iff : trim text = x ↔ Trimmed text x :=
  ⟨fun h => h ▸ trimmed_trim text, Trimmed.trim_eq⟩

end Blank

/-! ## Numerals -/

namespace Numeral

/-- The number with these decimal digits, from the most significant one on. -/
def decimal (digits : List Char) : Nat :=
  Nat.ofDigits 10 (digits.reverse.map fun c => c.toNat - '0'.toNat)

/-- The text is one or more ASCII digits that have the value `n`, behind an optional plus. -/
def Writes (x : List Char) (n : Nat) : Prop :=
  ∃ sign digits, x = sign ++ digits ∧ (sign = [] ∨ sign = ['+']) ∧ digits ≠ [] ∧
    (∀ c ∈ digits, c.isDigit) ∧ decimal digits = n

/-- A first digit counts for as many as there are digits behind it. -/
theorem decimal_cons (c : Char) (digits : List Char) :
    decimal (c :: digits) = decimal digits + 10 ^ digits.length * (c.toNat - '0'.toNat) := by
  simp [decimal, Nat.ofDigits_append]

/-- Digits read behind a number. -/
theorem ofDigitChars_eq (digits : List Char) (n : Nat) :
    Nat.ofDigitChars 10 digits n = 10 ^ digits.length * n + decimal digits := by
  induction digits generalizing n with
  | nil => simp [decimal]
  | cons c digits ih =>
    rw [Nat.ofDigitChars_cons, ih, decimal_cons, List.length_cons]
    ring

/-- Which digits are read as which number. -/
theorem natural?_eq_some_iff {digits : List Char} {n : Nat} : natural? digits = some n ↔
    digits ≠ [] ∧ (∀ c ∈ digits, c.isDigit) ∧ decimal digits = n := by
  rw [natural?, Option.ite_none_right_eq_some, ofDigitChars_eq, Nat.mul_zero, Nat.zero_add,
    List.all_eq_true, Option.some.injEq, and_assoc]

/-- Which texts are read as which number. -/
theorem unsigned?_eq_some_iff {x : List Char} {n : Nat} : unsigned? x = some n ↔ Writes x n := by
  constructor
  · intro h
    unfold unsigned? at h
    split at h
    next digits => exact ⟨['+'], digits, rfl, Or.inr rfl, natural?_eq_some_iff.1 h⟩
    next => exact ⟨[], x, rfl, Or.inl rfl, natural?_eq_some_iff.1 h⟩
  · rintro ⟨sign, digits, rfl, rfl | rfl, hdigits⟩
    · rw [List.nil_append, ← natural?_eq_some_iff.2 hdigits]
      unfold unsigned?
      split
      -- a plus is no digit
      next rest => exact absurd (hdigits.2.1 '+' List.mem_cons_self) (by decide)
      next => rfl
    · exact natural?_eq_some_iff.2 hdigits

/-- Which texts are read as which word. -/
theorem uint64?_eq_some_iff {x : List Char} {n : UInt64} :
    uint64? (String.ofList x) = some n ↔ Writes x n.toNat := by
  rw [← unsigned?_eq_some_iff, uint64?, String.toList_ofList, Option.bind_eq_some_iff]
  constructor
  · rintro ⟨m, hm, hfits⟩
    obtain ⟨hlt, hn⟩ := Option.ite_none_right_eq_some.1 hfits
    rw [hm, ← Option.some.inj hn, UInt64.toNat_ofNat_of_lt' hlt]
  · intro h
    exact ⟨_, h, by rw [if_pos n.toNat_lt, UInt64.ofNat_toNat]⟩

/-- Which texts are read as no word: those that write no number, or one that does not fit. -/
theorem uint64?_eq_none_iff {x : List Char} :
    uint64? (String.ofList x) = none ↔ ∀ n ≤ 2 ^ 64 - 1, ¬ Writes x n := by
  rw [Option.eq_none_iff_forall_ne_some]
  constructor
  · intro h n hle hn
    have hword : (UInt64.ofNat n).toNat = n := UInt64.toNat_ofNat_of_lt' (by
      rw [UInt64.size]
      omega)
    exact h (UInt64.ofNat n) (uint64?_eq_some_iff.2 (hword.symm ▸ hn))
  · intro h n hn
    exact h n.toNat (Nat.le_sub_one_of_lt n.toNat_lt) (uint64?_eq_some_iff.1 hn)

/-- The numeral of a word writes it. -/
theorem writes_repr (n : UInt64) : Writes n.toNat.repr.toList n.toNat := by
  rw [← uint64?_eq_some_iff, String.ofList_toList, uint64?_repr]

/-- A text that writes a number is not empty. -/
theorem Writes.ne_nil {x : List Char} {n : Nat} (h : Writes x n) : x ≠ [] := by
  obtain ⟨sign, digits, rfl, -, hne, -⟩ := h
  exact List.append_ne_nil_of_right_ne_nil sign hne

/-- A text that writes a number holds no blanks. -/
theorem Writes.not_contains {x : List Char} {n : Nat} (h : Writes x n) :
    ∀ c ∈ x, ¬ Blank.contains c := by
  obtain ⟨sign, digits, rfl, hsign, -, hdigits, -⟩ := h
  intro c hc
  rcases List.mem_append.1 hc with hc | hc
  · rcases hsign with rfl | rfl
    · exact absurd hc List.not_mem_nil
    · rw [List.mem_singleton.1 hc]
      decide
  · have hbounds : 48 ≤ c.toNat ∧ c.toNat ≤ 57 := Char.isDigit_iff_toNat.1 (hdigits c hc)
    have houtside : ∀ r ∈ Blank.ranges, r.2 < 48 ∨ 57 < r.1 := by decide
    intro hblank
    obtain ⟨r, hr, hwithin⟩ := List.any_eq_true.1 hblank
    rw [Bool.and_eq_true, decide_eq_true_eq, decide_eq_true_eq] at hwithin
    have := houtside r hr
    omega

end Numeral

/-! ## The value of the variable -/

namespace Settings

variable {text x : List Char}

/-- The settings from a text, in terms of the trimmed text. -/
theorem ofText_eq (h : Blank.Trimmed text x) : ofText text =
    if x = [] then .ok unseeded
    else (Numeral.uint64? (String.ofList x)).elim (.error ⟨String.ofList x⟩) (.ok ∘ seeded) := by
  rw [ofText, h.trim_eq]
  simp only [String.ofList_eq_empty_iff]

/-- Which texts are a seed. -/
theorem ofText_eq_seeded_iff (h : Blank.Trimmed text x) {n : UInt64} :
    ofText text = .ok (seeded n) ↔ Numeral.Writes x n.toNat := by
  rw [ofText_eq h]
  split_ifs with hx
  · exact iff_of_false (by simp [unseeded, seeded]) fun hn => hn.ne_nil hx
  · rw [← Numeral.uint64?_eq_some_iff]
    cases Numeral.uint64? (String.ofList x) <;> simp [seeded]

/-- Which texts are no seed and no error. -/
theorem ofText_eq_unseeded_iff (h : Blank.Trimmed text x) :
    ofText text = .ok unseeded ↔ x = [] := by
  rw [ofText_eq h]
  split_ifs with hx
  · exact iff_of_true rfl hx
  · refine iff_of_false ?_ hx
    cases Numeral.uint64? (String.ofList x) <;> simp [unseeded, seeded]

/-- Which texts are an error, and which one. -/
theorem ofText_eq_error_iff (h : Blank.Trimmed text x) {e : InvalidSeed} :
    ofText text = .error e ↔
      (x ≠ [] ∧ ∀ n ≤ 2 ^ 64 - 1, ¬ Numeral.Writes x n) ∧ e = ⟨String.ofList x⟩ := by
  rw [ofText_eq h, ← Numeral.uint64?_eq_none_iff]
  split_ifs with hx
  · simp [hx]
  · cases Numeral.uint64? (String.ofList x) <;> simp [hx, eq_comm]

/-- The bytes of a text. -/
theorem ofVariable_encode (text : List Char) : ofVariable (some (Utf8.encode text)) = ofText text := by
  rw [ofVariable, Utf8.decode?_eq_some_iff.2 rfl]

/-- Bytes that are no text. -/
theorem ofVariable_of_ne {bytes : List UInt8} (h : ∀ text, Utf8.encode text ≠ bytes)
    {items : List (Option Char)} (hitems : Utf8.Decodes bytes items) :
    ofVariable (some bytes) = .error ⟨String.ofList (items.map (·.getD '\ufffd'))⟩ := by
  have hnone : Utf8.decode? bytes = none :=
    Option.eq_none_iff_forall_ne_some.2 fun text htext => h text (Utf8.decode?_eq_some_iff.1 htext)
  rw [ofVariable, hnone, Utf8.decodeLossy, Utf8.decode_eq_iff.2 hitems]

/-- **The seed in the environment.** Each text has one trimmed text, and all bytes consist of characters
and gaps in one way. The bytes of a text are the seed `n` exactly if the trimmed text is the number `n`,
they are no seed exactly if nothing is left of the text, and otherwise they are refused with the trimmed
text, also where the number does not fit. Bytes that are no text are refused with all of them, a
replacement character in the place of each part that belongs to no character. So each word is read from
its numeral, with any blanks around it. -/
theorem ofVariable_exact :
    (∀ text, ∃! x, Blank.Trimmed text x) ∧
    (∀ bytes, ∃! items, Utf8.Decodes bytes items) ∧
    (∀ text x, Blank.Trimmed text x →
      (∀ n, ofVariable (some (Utf8.encode text)) = .ok (seeded n) ↔ Numeral.Writes x n.toNat) ∧
      (ofVariable (some (Utf8.encode text)) = .ok unseeded ↔ x = []) ∧
      ∀ e, ofVariable (some (Utf8.encode text)) = .error e ↔
        (x ≠ [] ∧ ∀ n ≤ 2 ^ 64 - 1, ¬ Numeral.Writes x n) ∧ e = ⟨String.ofList x⟩) ∧
    (∀ bytes items, (∀ text, Utf8.encode text ≠ bytes) → Utf8.Decodes bytes items →
      ofVariable (some bytes) = .error ⟨String.ofList (items.map (·.getD '\ufffd'))⟩) ∧
    ∀ (n : UInt64) (before behind : List Char), (∀ c ∈ before, Blank.contains c) →
      (∀ c ∈ behind, Blank.contains c) →
      ofVariable (some (Utf8.encode (before ++ n.toNat.repr.toList ++ behind))) =
        .ok (seeded n) := by
  refine ⟨fun text => ⟨_, Blank.trimmed_trim text, fun x h => h.trim_eq.symm⟩,
    fun bytes => ⟨_, Utf8.decode_eq_iff.1 rfl, fun items h => (Utf8.decode_eq_iff.2 h).symm⟩,
    fun text x h => ?_, fun bytes items h hitems => ofVariable_of_ne h hitems,
    fun n before behind hbefore hbehind => ?_⟩
  · rw [ofVariable_encode]
    exact ⟨fun n => ofText_eq_seeded_iff h, ofText_eq_unseeded_iff h, fun e => ofText_eq_error_iff h⟩
  · have htrimmed : Blank.Trimmed (before ++ n.toNat.repr.toList ++ behind) n.toNat.repr.toList := by
      have hx := (Numeral.writes_repr n).not_contains
      exact ⟨⟨before, behind, rfl, hbefore, hbehind⟩, fun c hc => hx c (List.mem_of_mem_head? hc),
        fun c hc => hx c (List.mem_of_mem_getLast? hc)⟩
    rw [ofVariable_encode, ofText_eq_seeded_iff htrimmed]
    exact Numeral.writes_repr n

/-- A seed with a plus, leading zeros and blanks of several bytes, a number that does not fit, bytes in
the middle of which a character breaks off, and the largest seed. -/
theorem ofVariable_exact_sample :
    (Blank.Trimmed "\t +007\u3000".toList "+007".toList ∧ Numeral.Writes "+007".toList 7 ∧
      ofVariable (some (Utf8.encode "\t +007\u3000".toList)) = .ok (seeded 7)) ∧
    (Blank.Trimmed "18446744073709551616 ".toList "18446744073709551616".toList ∧
      ofVariable (some (Utf8.encode "18446744073709551616 ".toList)) =
        .error ⟨"18446744073709551616"⟩ ∧
      ∀ n ≤ 2 ^ 64 - 1, ¬ Numeral.Writes "18446744073709551616".toList n) ∧
    ((∀ text, Utf8.encode text ≠ [0x20, 0xE2, 0x82, 0x37]) ∧
      Utf8.Decodes [0x20, 0xE2, 0x82, 0x37] [some ' ', none, some '7'] ∧
      ofVariable (some [0x20, 0xE2, 0x82, 0x37]) = .error ⟨" \ufffd7"⟩) ∧
    (∀ c ∈ ['\u2003', '\n'], Blank.contains c) ∧
      ofVariable (some (Utf8.encode (['\u2003', '\n'] ++ "18446744073709551615".toList))) =
        .ok (seeded 18446744073709551615) := by
  have hseven : Blank.Trimmed "\t +007\u3000".toList "+007".toList :=
    Blank.trim_eq_iff.1 (by decide +kernel)
  have hwrites : Numeral.Writes "+007".toList (7 : UInt64).toNat :=
    Numeral.unsigned?_eq_some_iff.1 (by decide +kernel)
  have hlarge : Blank.Trimmed "18446744073709551616 ".toList "18446744073709551616".toList :=
    Blank.trim_eq_iff.1 (by decide +kernel)
  have hrefused : ofVariable (some (Utf8.encode "18446744073709551616 ".toList)) =
      .error ⟨"18446744073709551616"⟩ := by decide +kernel
  have hnone : Utf8.decode? [0x20, 0xE2, 0x82, 0x37] = none := by decide +kernel
  have hne (text : List Char) : Utf8.encode text ≠ [0x20, 0xE2, 0x82, 0x37] := fun htext => by
    rw [← Utf8.decode?_eq_some_iff, hnone] at htext
    exact Option.some_ne_none text htext.symm
  have hitems : Utf8.Decodes [0x20, 0xE2, 0x82, 0x37] [some ' ', none, some '7'] :=
    Utf8.decode_eq_iff.1 (by decide +kernel)
  have hblank : ∀ c ∈ ['\u2003', '\n'], Blank.contains c := List.all_eq_true.1 (by decide +kernel)
  have hrepr : (18446744073709551615 : UInt64).toNat.repr = "18446744073709551615" := by
    decide +kernel
  obtain ⟨-, -, htext, hgaps, hnumeral⟩ := ofVariable_exact
  refine ⟨⟨hseven, hwrites, ((htext _ _ hseven).1 7).2 hwrites⟩,
    ⟨hlarge, hrefused, (((htext _ _ hlarge).2.2 _).1 hrefused).1.2⟩,
    ⟨hne, hitems, hgaps _ _ hne hitems⟩, hblank, ?_⟩
  have hread := hnumeral 18446744073709551615 _ [] hblank fun _ hc => absurd hc List.not_mem_nil
  rwa [hrepr, List.append_nil] at hread

end Settings

end DiceNotation
