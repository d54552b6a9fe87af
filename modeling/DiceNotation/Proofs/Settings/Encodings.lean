import DiceNotation.Text.Utf8
import Mathlib.Tactic.Common

set_option autoImplicit false

/-!
# Texts in UTF-8

Bytes are read with a table of first bytes, one byte after the other. What is read is said here in terms
of the bytes of characters alone: which characters are written, and which parts belong to no character.

## Main definitions

* `Utf8.encode` — the bytes of a text.
* `Utf8.Behind` — bytes that begin a character, with what is expected behind them.
* `Utf8.Initial` — the beginnings of the bytes of characters.
* `Utf8.IllFormed` — a part that belongs to no character, as long as a beginning of one can be.
* `Utf8.Decodes` — bytes as a sequence of characters and of parts that belong to none.

## Main results

* `Utf8.decode_utf8EncodeChar_append` — a character is read from its bytes, whatever follows.
* `Utf8.Behind.initial_append`, `Utf8.Behind.within_of_initial` — the bounds of a next byte are those
  within which a character goes on.
* `Utf8.decode_eq_iff` — what some bytes are read as.
* `Utf8.decode?_eq_some_iff` — the bytes that are read without gaps are those of texts.

## Implementation notes

The characters are counted by their numbers, and all that is known of the table of first bytes is
`Utf8.Leads`, in numbers as well, so that the bounds of the bytes are linear arithmetic. That the part in
front of a byte that does not fit is a longest one has no arithmetic in it: no character goes on there,
since its bytes would be read as that character.
-/

namespace DiceNotation.Utf8

/-- The bytes of a text. -/
def encode (text : List Char) : List UInt8 :=
  text.flatMap String.utf8EncodeChar

/-! ## First bytes -/

/-- What a first byte begins. Two bytes have numbers from `0x80` on, three from `0x800` on without the
surrogates, and four from `0x10000` to `0x10ffff`, so behind some first bytes the second one has
narrower bounds. -/
inductive Leads (b : UInt8) (s : Begun) : Prop
  | two (hb : 0xC2 ≤ b.toNat ∧ b.toNat ≤ 0xDF) (hmissing : s.missing = 1)
    (hbits : s.bits = b.toNat - 0xC0) (hlow : s.low.toNat = 0x80) (hhigh : s.high.toNat = 0xBF)
  | three (hb : 0xE0 ≤ b.toNat ∧ b.toNat ≤ 0xEF) (hmissing : s.missing = 2)
    (hbits : s.bits = b.toNat - 0xE0)
    (hlow : b.toNat = 0xE0 ∧ s.low.toNat = 0xA0 ∨ b.toNat ≠ 0xE0 ∧ s.low.toNat = 0x80)
    (hhigh : b.toNat = 0xED ∧ s.high.toNat = 0x9F ∨ b.toNat ≠ 0xED ∧ s.high.toNat = 0xBF)
  | four (hb : 0xF0 ≤ b.toNat ∧ b.toNat ≤ 0xF4) (hmissing : s.missing = 3)
    (hbits : s.bits = b.toNat - 0xF0)
    (hlow : b.toNat = 0xF0 ∧ s.low.toNat = 0x90 ∨ b.toNat ≠ 0xF0 ∧ s.low.toNat = 0x80)
    (hhigh : b.toNat = 0xF4 ∧ s.high.toNat = 0x8F ∨ b.toNat ≠ 0xF4 ∧ s.high.toNat = 0xBF)

/-- The table of first bytes, in numbers. -/
theorem begin?_eq (b : UInt8) : begin? b =
    if 0xC2 ≤ b.toNat ∧ b.toNat ≤ 0xDF then some ⟨1, b.toNat - 0xC0, 0x80, 0xBF⟩
    else if b.toNat = 0xE0 then some ⟨2, 0, 0xA0, 0xBF⟩
    else if b.toNat = 0xED then some ⟨2, 0xD, 0x80, 0x9F⟩
    else if 0xE1 ≤ b.toNat ∧ b.toNat ≤ 0xEF then some ⟨2, b.toNat - 0xE0, 0x80, 0xBF⟩
    else if b.toNat = 0xF0 then some ⟨3, 0, 0x90, 0xBF⟩
    else if 0xF1 ≤ b.toNat ∧ b.toNat ≤ 0xF3 then some ⟨3, b.toNat - 0xF0, 0x80, 0xBF⟩
    else if b.toNat = 0xF4 then some ⟨3, 4, 0x80, 0x8F⟩
    else none := by
  unfold begin?
  simp only [UInt8.le_iff_toNat_le, ← UInt8.toNat_inj]
  rfl

/-- What begins with a byte is what the byte leads. -/
theorem leads_of_begin? {b : UInt8} {s : Begun} (h : begin? b = some s) : Leads b s := by
  rw [begin?_eq] at h
  split_ifs at h with h₁ h₂ h₃ h₄ h₅ h₆ h₇ <;> cases h
  · exact .two h₁ rfl rfl rfl rfl
  · exact .three (by omega) rfl (by simp [h₂]) (Or.inl ⟨h₂, rfl⟩) (Or.inr ⟨by omega, rfl⟩)
  · exact .three (by omega) rfl (by simp [h₃]) (Or.inr ⟨h₂, rfl⟩) (Or.inl ⟨h₃, rfl⟩)
  · exact .three (by omega) rfl rfl (Or.inr ⟨h₂, rfl⟩) (Or.inr ⟨h₃, rfl⟩)
  · exact .four (by omega) rfl (by simp [h₅]) (Or.inl ⟨h₅, rfl⟩) (Or.inr ⟨by omega, rfl⟩)
  · exact .four (by omega) rfl rfl (Or.inr ⟨h₅, rfl⟩) (Or.inr ⟨by omega, rfl⟩)
  · exact .four (by omega) rfl (by simp [h₇]) (Or.inr ⟨h₅, rfl⟩) (Or.inl ⟨h₇, rfl⟩)

/-- Each byte within these bounds begins something. -/
theorem exists_begin?_eq {b : UInt8} (h : 0xC2 ≤ b.toNat ∧ b.toNat ≤ 0xF4) :
    ∃ s, begin? b = some s := by
  rw [begin?_eq]
  split_ifs
  all_goals first | exact ⟨_, rfl⟩ | omega

/-! ## Characters that have begun -/

/-- The bytes `p` begin a character as `s` says. -/
inductive Behind : List UInt8 → Begun → Prop
  | first {b : UInt8} {s : Begun} (h : begin? b = some s) : Behind [b] s
  | further {p : List UInt8} {s : Begun} {x : UInt8} (hp : Behind p s) (hx : s.low ≤ x ∧ x ≤ s.high)
    (hmissing : 1 < s.missing) :
    Behind (p ++ [x]) ⟨s.missing - 1, s.bits * 64 + (x.toNat - 0x80), 0x80, 0xBF⟩

variable {p : List UInt8} {s : Begun} {x : UInt8}

/-- A byte within the bounds that does not complete the character. -/
theorem decodeFrom_further (hx : s.low ≤ x ∧ x ≤ s.high) (hmissing : 1 < s.missing)
    (rest : List UInt8) : decodeFrom (some s) (x :: rest) =
      decodeFrom (some ⟨s.missing - 1, s.bits * 64 + (x.toNat - 0x80), 0x80, 0xBF⟩) rest := by
  rw [decodeFrom, Option.elim_some, further, if_pos hx, if_neg (by omega)]
  rfl

/-- The last byte of a character. -/
theorem decodeFrom_last (hx : s.low ≤ x ∧ x ≤ s.high) (hmissing : s.missing ≤ 1) (rest : List UInt8) :
    decodeFrom (some s) (x :: rest) =
      some (Char.ofNat (s.bits * 64 + (x.toNat - 0x80))) :: decodeFrom none rest := by
  rw [decodeFrom, Option.elim_some, further, if_pos hx, if_pos hmissing]
  rfl

/-- A byte that does not belong to what has begun. -/
theorem decodeFrom_gap (hx : ¬ (s.low ≤ x ∧ x ≤ s.high)) (rest : List UInt8) :
    decodeFrom (some s) (x :: rest) = none :: decodeFrom none (x :: rest) := by
  rw [decodeFrom, Option.elim_some, further, if_neg hx, decodeFrom, Option.elim_none]
  rfl

/-- Behind bytes that begin a character, reading goes on with what has begun. -/
theorem decodeFrom_append (h : Behind p s) (rest : List UInt8) :
    decodeFrom none (p ++ rest) = decodeFrom (some s) rest := by
  induction h generalizing rest with
  | @first b s hb =>
    have hlow : ¬ b < 0x80 := by
      rw [UInt8.lt_iff_toNat_lt]
      cases leads_of_begin? hb <;> simp <;> omega
    rw [List.singleton_append, decodeFrom, Option.elim_none, first, if_neg hlow, hb]
    rfl
  | further hp hx hmissing ih =>
    rw [List.append_assoc, ih, List.singleton_append, decodeFrom_further hx hmissing]

/-- A character that has begun has bytes, and it will have at most four of them. -/
theorem Behind.length_bounds (h : Behind p s) : 0 < p.length ∧ p.length + s.missing ≤ 4 := by
  induction h with
  | first hb =>
    rw [List.length_singleton]
    cases leads_of_begin? hb <;> omega
  | further hp hx hmissing ih =>
    rw [List.length_append, List.length_singleton]
    dsimp only
    omega

/-! ## The bytes of a character -/

/-- The bytes of the character with a given number. -/
theorem utf8EncodeChar_ofNat {v : Nat} (h : v.isValidChar) :
    String.utf8EncodeChar (Char.ofNat v) =
      if v ≤ 0x7F then [UInt8.ofNat v]
      else if v ≤ 0x7FF then [UInt8.ofNat (v / 64 % 32 + 192), UInt8.ofNat (v % 64 + 128)]
      else if v ≤ 0xFFFF then
        [UInt8.ofNat (v / 4096 % 16 + 224), UInt8.ofNat (v / 64 % 64 + 128), UInt8.ofNat (v % 64 + 128)]
      else
        [UInt8.ofNat (v / 262144 % 8 + 240), UInt8.ofNat (v / 4096 % 64 + 128),
          UInt8.ofNat (v / 64 % 64 + 128), UInt8.ofNat (v % 64 + 128)] := by
  have hv : (Char.ofNat v).val.toNat = v := by
    rw [Char.ofNat, dif_pos h]
    rfl
  unfold String.utf8EncodeChar
  simp only [hv]

/-- The bounds of a byte, in numbers. -/
theorem within_iff {low high : UInt8} :
    low ≤ x ∧ x ≤ high ↔ low.toNat ≤ x.toNat ∧ x.toNat ≤ high.toNat := by
  rw [UInt8.le_iff_toNat_le, UInt8.le_iff_toNat_le]

/-- The bounds of a byte behind the second one, in numbers. -/
theorem within_further_iff :
    ((0x80 : UInt8) ≤ x ∧ x ≤ 0xBF) ↔ 0x80 ≤ x.toNat ∧ x.toNat ≤ 0xBF :=
  within_iff

section Leading

variable {b y z : UInt8} (hb : Leads b s)
include hb

/-- A character of two bytes: its number has no shorter form. -/
theorem utf8EncodeChar_two (hmissing : s.missing = 1) (hx : s.low ≤ x ∧ x ≤ s.high) :
    String.utf8EncodeChar (Char.ofNat (s.bits * 64 + (x.toNat - 0x80))) = [b, x] := by
  rw [within_iff] at hx
  cases hb with
  | two hb _ hbits hlow hhigh =>
    generalize hv : s.bits * 64 + (x.toNat - 0x80) = v
    have hvalid : v.isValidChar := by unfold Nat.isValidChar; omega
    rw [utf8EncodeChar_ofNat hvalid, if_neg (by omega), if_pos (by omega),
      show v / 64 % 32 + 192 = b.toNat by omega, show v % 64 + 128 = x.toNat by omega,
      UInt8.ofNat_toNat, UInt8.ofNat_toNat]
  | three | four => omega

/-- A character of three bytes: its number has no shorter form and is that of no surrogate. -/
theorem utf8EncodeChar_three (hmissing : s.missing = 2) (hy : s.low ≤ y ∧ y ≤ s.high)
    (hx : (0x80 : UInt8) ≤ x ∧ x ≤ 0xBF) :
    String.utf8EncodeChar (Char.ofNat ((s.bits * 64 + (y.toNat - 0x80)) * 64 + (x.toNat - 0x80))) =
      [b, y, x] := by
  rw [within_iff] at hy
  rw [within_further_iff] at hx
  cases hb with
  | three hb _ hbits hlow hhigh =>
    generalize hv : (s.bits * 64 + (y.toNat - 0x80)) * 64 + (x.toNat - 0x80) = v
    have hvalid : v.isValidChar := by unfold Nat.isValidChar; omega
    rw [utf8EncodeChar_ofNat hvalid, if_neg (by omega), if_neg (by omega), if_pos (by omega),
      show v / 4096 % 16 + 224 = b.toNat by omega, show v / 64 % 64 + 128 = y.toNat by omega,
      show v % 64 + 128 = x.toNat by omega, UInt8.ofNat_toNat, UInt8.ofNat_toNat, UInt8.ofNat_toNat]
  | two | four => omega

/-- A character of four bytes: its number has no shorter form and is not too large. -/
theorem utf8EncodeChar_four (hmissing : s.missing = 3) (hz : s.low ≤ z ∧ z ≤ s.high)
    (hy : (0x80 : UInt8) ≤ y ∧ y ≤ 0xBF) (hx : (0x80 : UInt8) ≤ x ∧ x ≤ 0xBF) :
    String.utf8EncodeChar (Char.ofNat
      (((s.bits * 64 + (z.toNat - 0x80)) * 64 + (y.toNat - 0x80)) * 64 + (x.toNat - 0x80))) =
      [b, z, y, x] := by
  rw [within_iff] at hz
  rw [within_further_iff] at hy hx
  cases hb with
  | four hb _ hbits hlow hhigh =>
    generalize hv : ((s.bits * 64 + (z.toNat - 0x80)) * 64 + (y.toNat - 0x80)) * 64 +
      (x.toNat - 0x80) = v
    have hvalid : v.isValidChar := by unfold Nat.isValidChar; omega
    rw [utf8EncodeChar_ofNat hvalid, if_neg (by omega), if_neg (by omega), if_neg (by omega),
      show v / 262144 % 8 + 240 = b.toNat by omega, show v / 4096 % 64 + 128 = z.toNat by omega,
      show v / 64 % 64 + 128 = y.toNat by omega, show v % 64 + 128 = x.toNat by omega,
      UInt8.ofNat_toNat, UInt8.ofNat_toNat, UInt8.ofNat_toNat, UInt8.ofNat_toNat]
  | two | three => omega

end Leading

/-- The last byte of a character completes its bytes.

**Proof sketch.** In front of it are one, two or three bytes, the first of which calls for so many. -/
theorem Behind.utf8EncodeChar_last (hp : Behind p s) (hx : s.low ≤ x ∧ x ≤ s.high)
    (hmissing : s.missing ≤ 1) :
    String.utf8EncodeChar (Char.ofNat (s.bits * 64 + (x.toNat - 0x80))) = p ++ [x] := by
  cases hp with
  | first hb =>
    have hone : s.missing = 1 := by cases leads_of_begin? hb <;> omega
    exact utf8EncodeChar_two (leads_of_begin? hb) hone hx
  | @further q t y hq hy hmore =>
    dsimp only at hx hmissing ⊢
    cases hq with
    | first hb => exact utf8EncodeChar_three (leads_of_begin? hb) (by omega) hy hx
    | @further r u z hr hz hmost =>
      dsimp only at hy hmore hmissing ⊢
      cases hr with
      | first hb => exact utf8EncodeChar_four (leads_of_begin? hb) (by omega) hz hy hx
      | further hq' =>
        obtain ⟨hpos, hle⟩ := hq'.length_bounds
        dsimp only at hmost hmore hmissing
        omega

/-- The number of a byte. -/
theorem toNat_ofNat {n : Nat} (h : n < 256) : (UInt8.ofNat n).toNat = n := by
  rw [UInt8.toNat_ofNat', Nat.mod_eq_of_lt h]

/-- The bytes of a character with more than one byte, in the order in which they are read.

**Proof sketch.** The first byte is in the table, and as the number has no shorter form, is that of no
surrogate and is not too large, the second byte is within the bounds that belong to the first one. -/
theorem exists_behind_utf8EncodeChar {v : Nat} (hvalid : v.isValidChar) (hv : 0x7F < v) :
    ∃ p s x, Behind p s ∧ (s.low ≤ x ∧ x ≤ s.high) ∧ s.missing ≤ 1 ∧
      String.utf8EncodeChar (Char.ofNat v) = p ++ [x] ∧ s.bits * 64 + (x.toNat - 0x80) = v := by
  have hlast : (UInt8.ofNat (v % 64 + 128)).toNat = v % 64 + 128 := toNat_ofNat (by omega)
  have hbefore : (UInt8.ofNat (v / 64 % 64 + 128)).toNat = v / 64 % 64 + 128 :=
    toNat_ofNat (by omega)
  have hthird : (UInt8.ofNat (v / 4096 % 64 + 128)).toNat = v / 4096 % 64 + 128 :=
    toNat_ofNat (by omega)
  unfold Nat.isValidChar at hvalid
  rw [utf8EncodeChar_ofNat hvalid, if_neg (by omega)]
  split_ifs with htwo hthree
  · have hfirst : (UInt8.ofNat (v / 64 % 32 + 192)).toNat = v / 64 % 32 + 192 :=
      toNat_ofNat (by omega)
    obtain ⟨s, hs⟩ := exists_begin?_eq (b := UInt8.ofNat (v / 64 % 32 + 192)) (by omega)
    cases leads_of_begin? hs with
    | two hb hmissing hbits hlow hhigh =>
      exact ⟨_, s, _, .first hs, within_iff.2 (by omega), by omega, rfl, by omega⟩
    | three | four => omega
  · have hfirst : (UInt8.ofNat (v / 4096 % 16 + 224)).toNat = v / 4096 % 16 + 224 :=
      toNat_ofNat (by omega)
    obtain ⟨s, hs⟩ := exists_begin?_eq (b := UInt8.ofNat (v / 4096 % 16 + 224)) (by omega)
    cases leads_of_begin? hs with
    | three hb hmissing hbits hlow hhigh =>
      exact ⟨_, _, _, .further (.first hs) (within_iff.2 (by omega)) (by omega),
        within_further_iff.2 (by omega), by dsimp only; omega, rfl, by dsimp only; omega⟩
    | two | four => omega
  · have hfirst : (UInt8.ofNat (v / 262144 % 8 + 240)).toNat = v / 262144 % 8 + 240 :=
      toNat_ofNat (by omega)
    obtain ⟨s, hs⟩ := exists_begin?_eq (b := UInt8.ofNat (v / 262144 % 8 + 240)) (by omega)
    cases leads_of_begin? hs with
    | four hb hmissing hbits hlow hhigh =>
      have hwithin : s.low ≤ UInt8.ofNat (v / 4096 % 64 + 128) ∧
          UInt8.ofNat (v / 4096 % 64 + 128) ≤ s.high := within_iff.2 (by omega)
      have hsecond := Behind.further (.first hs) hwithin (by omega)
      exact ⟨_, _, _, .further hsecond (within_further_iff.2 (by omega)) (by dsimp only; omega),
        within_further_iff.2 (by omega), by dsimp only; omega, rfl, by dsimp only; omega⟩
    | two | three => omega

/-- A character is read from its bytes. -/
theorem decode_utf8EncodeChar_append (c : Char) (rest : List UInt8) :
    decode (String.utf8EncodeChar c ++ rest) = some c :: decode rest := by
  obtain ⟨v, hvalid, rfl⟩ : ∃ v, v.isValidChar ∧ c = Char.ofNat v :=
    ⟨c.toNat, c.valid, (Char.ofNat_toNat c).symm⟩
  rcases Nat.lt_or_ge 0x7F v with hv | hv
  · obtain ⟨p, s, x, hp, hx, hmissing, hbytes, rfl⟩ := exists_behind_utf8EncodeChar hvalid hv
    rw [hbytes, decode, List.append_assoc, decodeFrom_append hp, List.singleton_append,
      decodeFrom_last hx hmissing]
    rfl
  · have hnumber : (UInt8.ofNat v).toNat = v := toNat_ofNat (by omega)
    have hlow : UInt8.ofNat v < 0x80 := by
      rw [UInt8.lt_iff_toNat_lt, hnumber]
      exact Nat.lt_of_le_of_lt hv (by decide)
    rw [utf8EncodeChar_ofNat hvalid, if_pos hv, List.singleton_append, decode, decodeFrom,
      Option.elim_none, first, if_pos hlow, hnumber]
    rfl

/-! ## Beginnings of characters -/

/-- The bytes are those that some character begins with. -/
def Initial (p : List UInt8) : Prop :=
  ∃ c, p <+: String.utf8EncodeChar c

/-- Some byte is within the bounds. -/
theorem Behind.low_le (h : Behind p s) : s.low ≤ s.high := by
  cases h with
  | first hb =>
    rw [UInt8.le_iff_toNat_le]
    cases leads_of_begin? hb <;> omega
  | further => exact (by decide : (0x80 : UInt8) ≤ 0xBF)

/-- A byte that completes a character goes on with one. -/
theorem Behind.initial_append_of_last (h : Behind p s) (hx : s.low ≤ x ∧ x ≤ s.high)
    (hmissing : s.missing ≤ 1) : Initial (p ++ [x]) :=
  ⟨_, [], (List.append_nil _).trans (h.utf8EncodeChar_last hx hmissing).symm⟩

/-- Behind bytes that have begun a character, a byte within the bounds goes on with one.

**Proof sketch.** Induction on the number of missing bytes: the byte completes a character, or a byte
within the bounds behind it goes on with one. -/
theorem Behind.initial_append (h : Behind p s) (hx : s.low ≤ x ∧ x ≤ s.high) : Initial (p ++ [x]) := by
  generalize hn : s.missing = n
  induction n generalizing p s x with
  | zero => exact h.initial_append_of_last hx (by omega)
  | succ n ih =>
    rcases Nat.lt_or_ge 1 s.missing with hmore | hlast
    · have hnext := h.further hx hmore
      obtain ⟨c, hc⟩ := ih hnext ⟨UInt8.le_refl _, hnext.low_le⟩ (by dsimp only; omega)
      exact ⟨c, (List.prefix_append _ _).trans hc⟩
    · exact h.initial_append_of_last hx hlast

/-- Where a character goes on behind its first bytes, it is within the bounds. -/
theorem Behind.within_of_initial (h : Behind p s) (hx : Initial (p ++ [x])) :
    s.low ≤ x ∧ x ≤ s.high := by
  obtain ⟨c, t, hc⟩ := hx
  by_contra hout
  have hread := decode_utf8EncodeChar_append c []
  rw [List.append_nil, ← hc, List.append_assoc, decode, decodeFrom_append h, List.singleton_append,
    decodeFrom_gap hout] at hread
  exact absurd (List.cons.inj hread).1 (by simp)

/-- Bytes that have begun a character are those that some character begins with. -/
theorem Behind.initial (h : Behind p s) : Initial p := by
  obtain ⟨c, hc⟩ := h.initial_append ⟨UInt8.le_refl _, h.low_le⟩
  exact ⟨c, (List.prefix_append p _).trans hc⟩

/-- No character ends within the bytes that have begun one. -/
theorem Behind.not_isPrefix (h : Behind p s) (c : Char) : ¬ String.utf8EncodeChar c <+: p := by
  rintro ⟨t, rfl⟩
  have hgap := decodeFrom_append h []
  rw [List.append_nil] at hgap
  have hread := decode_utf8EncodeChar_append c t
  rw [decode, hgap] at hread
  exact absurd (List.cons.inj hread).1 (by simp)

/-! ## Bytes that belong to no character -/

/-- In front of `rest`, the bytes `part` belong to no character: no character is written where they
begin, and they are the longest beginning of one that is found there, or a single byte if there is
none. -/
structure IllFormed (part rest : List UInt8) : Prop where
  /-- There is something. -/
  ne_nil : part ≠ []
  /-- No character is written here. -/
  not_isPrefix (c : Char) : ¬ String.utf8EncodeChar c <+: part ++ rest
  /-- It is the beginning of a character, or a single byte. -/
  initial : Initial part ∨ part.length = 1
  /-- No longer beginning of a character is found here. -/
  longest (p : List UInt8) (hp : p <+: part ++ rest) (hinitial : Initial p) : p.length ≤ part.length

/-- The bytes are those of characters, with a gap for each longest part that belongs to none. -/
inductive Decodes : List UInt8 → List (Option Char) → Prop
  | nil : Decodes [] []
  | char {bytes : List UInt8} {items : List (Option Char)} (c : Char) (h : Decodes bytes items) :
    Decodes (String.utf8EncodeChar c ++ bytes) (some c :: items)
  | gap {part bytes : List UInt8} {items : List (Option Char)} (hpart : IllFormed part bytes)
    (h : Decodes bytes items) : Decodes (part ++ bytes) (none :: items)

/-- Two parts at the beginning of the same bytes that belong to no character are equal. -/
theorem IllFormed.unique {part part' rest rest' : List UInt8} (h : IllFormed part rest)
    (h' : IllFormed part' rest') (heq : part ++ rest = part' ++ rest') :
    part = part' ∧ rest = rest' := by
  have hle {p q r t : List UInt8} (hp : IllFormed p r) (hq : IllFormed q t) (heq : p ++ r = q ++ t) :
      p.length ≤ q.length := by
    rcases hp.initial with hinitial | hone
    · exact hq.longest p (heq ▸ List.prefix_append p r) hinitial
    · have := List.length_pos_iff.2 hq.ne_nil
      omega
  exact List.append_inj heq (Nat.le_antisymm (hle h h' heq) (hle h' h heq.symm))

/-- A character has bytes. -/
theorem utf8EncodeChar_ne_nil (c : Char) : String.utf8EncodeChar c ≠ [] := by
  intro hnil
  have hread := decode_utf8EncodeChar_append c []
  rw [hnil] at hread
  exact absurd hread (by simp [decode, decodeFrom])

/-- Bytes are read in one way only.

**Proof sketch.** Induction on how they are read. Where a character is written, no part without one
begins, and what is read there is the character; two parts that belong to no character are equal. -/
theorem Decodes.unique {bytes : List UInt8} {items items' : List (Option Char)}
    (h : Decodes bytes items) (h' : Decodes bytes items') : items = items' := by
  induction h generalizing items' with
  | nil =>
    generalize hbytes : ([] : List UInt8) = bytes at h'
    cases h' with
    | nil => rfl
    | char c => exact absurd (List.append_eq_nil_iff.1 hbytes.symm).1 (utf8EncodeChar_ne_nil c)
    | gap hpart => exact absurd (List.append_eq_nil_iff.1 hbytes.symm).1 hpart.ne_nil
  | @char rest items c h ih =>
    generalize hbytes : String.utf8EncodeChar c ++ rest = bytes at h'
    cases h' with
    | nil => exact absurd (List.append_eq_nil_iff.1 hbytes).1 (utf8EncodeChar_ne_nil c)
    | @char rest' items' c' h' =>
      have hread := decode_utf8EncodeChar_append c rest
      rw [hbytes, decode_utf8EncodeChar_append] at hread
      obtain rfl := Option.some.inj (List.cons.inj hread).1
      obtain rfl := List.append_cancel_left hbytes
      rw [ih h']
    | gap hpart => exact absurd ⟨rest, hbytes⟩ (hpart.not_isPrefix c)
  | @gap part rest items hpart h ih =>
    generalize hbytes : part ++ rest = bytes at h'
    cases h' with
    | nil => exact absurd (List.append_eq_nil_iff.1 hbytes).1 hpart.ne_nil
    | @char rest' _ c' => exact absurd ⟨rest', hbytes.symm⟩ (hpart.not_isPrefix c')
    | gap hpart' h' =>
      obtain ⟨rfl, rfl⟩ := hpart.unique hpart' hbytes
      rw [ih h']

/-! ## Reading -/

/-- What no byte goes on with, and in what no character ends, belongs to no character. -/
theorem illFormed_of_not_initial {part rest : List UInt8} (hne : part ≠ [])
    (hinitial : Initial part ∨ part.length = 1) (hpart : ∀ c, ¬ String.utf8EncodeChar c <+: part)
    (hrest : ∀ x ∈ rest.head?, ¬ Initial (part ++ [x])) : IllFormed part rest := by
  have hlongest (p : List UInt8) (hp : p <+: part ++ rest) (hinitial : Initial p) :
      p.length ≤ part.length := by
    by_contra hlonger
    cases rest with
    | nil =>
      have := hp.length_le
      rw [List.append_nil] at this
      exact hlonger this
    | cons x rest =>
      have hx : part ++ [x] <+: p := by
        refine List.prefix_of_prefix_length_le ⟨rest, by simp⟩ hp ?_
        rw [List.length_append, List.length_singleton]
        omega
      obtain ⟨c, hc⟩ := hinitial
      exact hrest x rfl ⟨c, hx.trans hc⟩
  refine ⟨hne, fun c hc => ?_, hinitial, hlongest⟩
  have hle := hlongest _ hc ⟨c, List.prefix_rfl⟩
  exact hpart c (List.prefix_of_prefix_length_le hc (List.prefix_append part rest) hle)

/-- Bytes that have begun a character belong to none if what follows does not go on with it. -/
theorem Behind.illFormed (h : Behind p s) {rest : List UInt8}
    (hrest : ∀ x ∈ rest.head?, ¬ (s.low ≤ x ∧ x ≤ s.high)) : IllFormed p rest :=
  illFormed_of_not_initial (List.length_pos_iff.1 h.length_bounds.1) (Or.inl h.initial) h.not_isPrefix
    fun x hx hinitial => hrest x hx (h.within_of_initial hinitial)

/-- A byte that begins nothing belongs to no character. -/
theorem illFormed_singleton {b : UInt8} (hb : ¬ b < 0x80) (hnone : begin? b = none)
    (rest : List UInt8) : IllFormed [b] rest := by
  have hinitial : ¬ Initial [b] := by
    rintro ⟨c, t, hc⟩
    have hread := decode_utf8EncodeChar_append c []
    rw [List.append_nil, ← hc, List.singleton_append, decode, decodeFrom, Option.elim_none, first,
      if_neg hb, hnone] at hread
    exact absurd (List.cons.inj hread).1 (by simp)
  refine illFormed_of_not_initial (List.cons_ne_nil b []) (Or.inr rfl) (fun c hc => ?_)
    fun x _ ⟨c, hc⟩ => hinitial ⟨c, (List.prefix_append [b] [x]).trans hc⟩
  rcases List.prefix_cons_iff.1 hc with hnil | ⟨t, ht, -⟩
  · exact utf8EncodeChar_ne_nil c hnil
  · exact hinitial ⟨c, t, ht.symm⟩

/-- A byte that stands for a character. -/
theorem utf8EncodeChar_singleton {b : UInt8} (hb : b < 0x80) :
    String.utf8EncodeChar (Char.ofNat b.toNat) = [b] := by
  have hlt : b.toNat < 0x80 := UInt8.lt_iff_toNat_lt.1 hb
  have hvalid : b.toNat.isValidChar := by unfold Nat.isValidChar; omega
  rw [utf8EncodeChar_ofNat hvalid, if_pos (by omega), UInt8.ofNat_toNat]

/-- Reading goes on in the same way behind bytes that have begun a character.

**Proof sketch.** Induction on the bytes that are read. A byte within the bounds completes a character
or goes on with it. At any other byte, and at the end, the bytes in front belong to no character, and
reading starts anew with the byte. -/
theorem decodes_decodeFrom (bytes : List UInt8) :
    Decodes bytes (decodeFrom none bytes) ∧
      ∀ p s, Behind p s → Decodes (p ++ bytes) (decodeFrom (some s) bytes) := by
  induction bytes with
  | nil =>
    refine ⟨.nil, fun p s hp => ?_⟩
    have hpart : IllFormed p [] := hp.illFormed (by simp)
    exact .gap hpart .nil
  | cons b bytes ih =>
    obtain ⟨hbetween, hbehind⟩ := ih
    have hfirst : Decodes (b :: bytes) (decodeFrom none (b :: bytes)) := by
      rw [decodeFrom, Option.elim_none, first]
      by_cases hb : b < 0x80
      · rw [if_pos hb]
        have hchar := Decodes.char (Char.ofNat b.toNat) hbetween
        rwa [utf8EncodeChar_singleton hb] at hchar
      · rw [if_neg hb]
        cases hbegin : begin? b with
        | none => exact .gap (illFormed_singleton hb hbegin bytes) hbetween
        | some s => exact hbehind [b] s (.first hbegin)
    refine ⟨hfirst, fun p s hp => ?_⟩
    by_cases hx : s.low ≤ b ∧ b ≤ s.high
    · rcases Nat.lt_or_ge 1 s.missing with hmore | hlast
      · have hnext := hbehind _ _ (hp.further hx hmore)
        rw [decodeFrom_further hx hmore]
        simpa using hnext
      · have hchar := Decodes.char (Char.ofNat (s.bits * 64 + (b.toNat - 0x80))) hbetween
        rw [hp.utf8EncodeChar_last hx hlast] at hchar
        rw [decodeFrom_last hx hlast]
        simpa using hchar
    · rw [decodeFrom_gap hx]
      refine .gap (hp.illFormed fun x hhead => ?_) hfirst
      cases hhead
      exact hx

/-- **Characters and gaps.** Some bytes are read as those characters and gaps of which they consist: a
character wherever one is written, and a gap for each longest part that belongs to none. -/
theorem decode_eq_iff {bytes : List UInt8} {items : List (Option Char)} :
    decode bytes = items ↔ Decodes bytes items := by
  constructor
  · rintro rfl
    exact (decodes_decodeFrom bytes).1
  · exact fun h => (decodes_decodeFrom bytes).1.unique h

/-- Items are characters throughout. -/
theorem mapM_id_eq_some {items : List (Option Char)} {text : List Char} :
    items.mapM id = some text ↔ items = text.map some := by
  induction items generalizing text with
  | nil => cases text <;> simp
  | cons item items ih =>
    cases item with
    | none => cases text <;> simp [List.mapM_cons]
    | some c => cases text <;> simp [List.mapM_cons, Option.bind_eq_some_iff, ih, and_comm]

/-- The bytes of a text are those of its characters, without gaps. -/
theorem decodes_map_some_iff {bytes : List UInt8} {text : List Char} :
    Decodes bytes (text.map some) ↔ encode text = bytes := by
  constructor
  · intro h
    induction text generalizing bytes with
    | nil =>
      cases h
      rfl
    | cons c text ih =>
      cases h with
      | char c h => rw [encode, List.flatMap_cons, ← encode, ih h]
  · rintro rfl
    induction text with
    | nil => exact .nil
    | cons c text ih => exact .char c ih

/-- The bytes of a text are read as the text, and no other bytes are read without gaps. -/
theorem decode?_eq_some_iff {bytes : List UInt8} {text : List Char} :
    decode? bytes = some text ↔ encode text = bytes := by
  rw [decode?, mapM_id_eq_some, decode_eq_iff, decodes_map_some_iff]

end DiceNotation.Utf8
