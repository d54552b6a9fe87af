import DiceNotation.Json.Value
import Mathlib.Tactic.Common

set_option autoImplicit false

/-!
# Written strings are read back

A character is written in one of three ways: as itself, with a backslash and a second character, or as four
hexadecimal digits. Each of them is the same for whoever looks for the closing quote and for whoever asks what
the inside of the string stands for, so the two need not know which characters are written in which way.

## Main definitions

* `Json.Written` — the ways in which a character can stand inside a string.

## Main results

* `Json.written_escape` — a character is written in one of these ways.
* `Json.stringInside_escape` — the inside of a string is found in front of its closing quote.
* `Json.unescape?_escape` — the inside of a string stands for the string.
-/

namespace DiceNotation.Json

/-- The ways in which the character `ch` can stand inside a string. -/
inductive Written (ch : Char) : List Char → Prop
  /-- As itself: neither quote nor backslash nor control. -/
  | plain (hquote : ch ≠ '"') (hbackslash : ch ≠ '\\') (hcontrol : ¬ ch.toNat < 0x20) : Written ch [ch]
  /-- With a backslash and a second character. -/
  | short {c : Char} (h : shortEscape? c = some ch) : Written ch ['\\', c]
  /-- As four digits, which are none of a surrogate. -/
  | unit {a b c d : Char} (h : hexUnit? a b c d = some ch.toNat)
    (hleading : isLeading ch.toNat = false) (htrailing : isTrailing ch.toNat = false) :
    Written ch ['\\', 'u', a, b, c, d]

/-- The four digits of a control denote it. -/
theorem exists_fourDigits {n : Nat} (h : n < 0x20) :
    ∃ a b c d, fourDigits n = [a, b, c, d] ∧ hexUnit? a b c d = some n := by
  have hall : ∀ n < 0x20,
      fourDigits n = [(fourDigits n).getD 0 '0', (fourDigits n).getD 1 '0',
        (fourDigits n).getD 2 '0', (fourDigits n).getD 3 '0'] ∧
      hexUnit? ((fourDigits n).getD 0 '0') ((fourDigits n).getD 1 '0')
        ((fourDigits n).getD 2 '0') ((fourDigits n).getD 3 '0') = some n := by decide
  exact ⟨_, _, _, _, hall n h⟩

/-- A character is written in one of these ways. -/
theorem written_escape (ch : Char) : Written ch (escape ch) := by
  unfold escape
  split_ifs with hquote hbackslash h₁ h₂ h₃ h₄ h₅ hcontrol
  · exact .short (by rw [hquote]; rfl)
  · exact .short (by rw [hbackslash]; rfl)
  · exact .short (by rw [h₁]; rfl)
  · exact .short (by rw [h₂]; rfl)
  · exact .short (by rw [h₃]; rfl)
  · exact .short (by rw [h₄]; rfl)
  · exact .short (by rw [h₅]; rfl)
  · obtain ⟨a, b, c, d, hdigits, hunit⟩ := exists_fourDigits hcontrol
    rw [hdigits]
    refine .unit hunit ?_ ?_
    · simp only [isLeading, Bool.and_eq_false_iff, decide_eq_false_iff_not]
      omega
    · simp only [isTrailing, Bool.and_eq_false_iff, decide_eq_false_iff_not]
      omega
  · exact .plain hquote hbackslash hcontrol

/-- The letter of the escapes of four digits begins no other escape. -/
theorem ne_u_of_shortEscape? {c ch : Char} (h : shortEscape? c = some ch) : c ≠ 'u' := by
  rintro rfl
  cases h

/-- A written character belongs to the inside of the string. -/
theorem Written.stringInside_append {ch : Char} {w : List Char} (h : Written ch w) (rest : List Char) :
    stringInside (w ++ rest) = (stringInside rest).map fun r => (w ++ r.1, r.2) := by
  cases h with
  | plain hquote hbackslash hcontrol =>
    rw [List.singleton_append, stringInside, if_neg hcontrol]
    · rfl
    · simpa using hquote
    · simp [hbackslash]
    · simp [hbackslash]
  | short h =>
    have hu := ne_u_of_shortEscape? h
    rw [List.cons_append, List.singleton_append, stringInside, h, Option.bind_some]
    · rfl
    · intro a b c d rest hc
      exact absurd hc hu
  | unit h =>
    simp only [List.cons_append, List.nil_append, stringInside, h, Option.bind_some]

/-- A written character stands for the character. -/
theorem Written.unescapeFrom?_append {ch : Char} {w : List Char} (h : Written ch w)
    (rest : List Char) :
    unescapeFrom? none (w ++ rest) = (unescapeFrom? none rest).map (ch :: ·) := by
  cases h with
  | plain hquote hbackslash hcontrol =>
    rw [List.singleton_append, unescapeFrom?]
    · simp [hbackslash]
    · simp [hbackslash]
  | short h =>
    have hu := ne_u_of_shortEscape? h
    rw [List.cons_append, List.singleton_append, unescapeFrom?, h, Option.bind_some]
    intro a b c d rest hc
    exact absurd hc hu
  | unit h hleading htrailing =>
    rw [List.cons_append, unescapeFrom?.eq_def]
    simp only [List.cons_append, List.nil_append, h, hleading, htrailing, Bool.false_eq_true,
      ↓reduceIte, Char.ofNat_toNat]

/-- The inside of a written string is found in front of its closing quote. -/
theorem stringInside_escape (cs rest : List Char) :
    stringInside (cs.flatMap escape ++ '"' :: rest) = some (cs.flatMap escape, rest) := by
  induction cs with
  | nil => rfl
  | cons c cs ih =>
    rw [List.flatMap_cons, List.append_assoc, (written_escape c).stringInside_append, ih]
    rfl

/-- The inside of a written string stands for its characters. -/
theorem unescapeFrom?_escape (cs : List Char) : unescapeFrom? none (cs.flatMap escape) = some cs := by
  induction cs with
  | nil => rfl
  | cons c cs ih =>
    rw [List.flatMap_cons, (written_escape c).unescapeFrom?_append, ih]
    rfl

/-- The inside of a written string stands for the string. -/
theorem unescape?_escape (s : String) : unescape? (s.toList.flatMap escape) = some s := by
  rw [unescape?, unescapeFrom?_escape, Option.map_some, String.ofList_toList]

end DiceNotation.Json
