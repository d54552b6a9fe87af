set_option autoImplicit false

/-!
# Decimal numerals

Whole numbers written with the ASCII digits, and the fixed-width values read from them.

## Main definitions

* `Numeral.natural?` — the number that a nonempty run of digits denotes.
* `Numeral.unsigned?`, `Numeral.signed?` — the same after an optional sign.
* `Numeral.int32?`, `Numeral.uint8?`, `Numeral.uint64?` — numerals whose value fits a word.
* `Numeral.ofInt32` — the numeral of a 32-bit value.

## Main results

* `Numeral.toList_repr_cases`, `Numeral.of_mem_ofInt32` — the characters of a numeral.
* `Numeral.natural?_toDigits` — the digits of a number denote it.
* `Numeral.int32?_ofInt32`, `Numeral.uint64?_repr` — the numeral of a value is read as that value.

## Implementation notes

Leading zeros are allowed and a sign alone denotes nothing. An unsigned numeral may carry a plus
but no minus, so `-0` is no unsigned numeral.
-/

namespace DiceNotation.Numeral

/-- The number denoted by a nonempty run of ASCII digits. -/
def natural? (cs : List Char) : Option Nat :=
  if cs ≠ [] ∧ cs.all Char.isDigit then some (Nat.ofDigitChars 10 cs 0) else none

/-- A natural number after an optional plus. -/
def unsigned? : List Char → Option Nat
  | '+' :: cs => natural? cs
  | cs => natural? cs

/-- An integer: a natural number after an optional sign. -/
def signed? : List Char → Option Int
  | '-' :: cs => (natural? cs).map fun n => -(n : Int)
  | cs => (unsigned? cs).map Int.ofNat

/-- A signed numeral whose value fits 32 bits. -/
def int32? (s : String) : Option Int32 :=
  (signed? s.toList).bind fun n =>
    if Int32.minValue.toInt ≤ n ∧ n ≤ Int32.maxValue.toInt then some (Int32.ofInt n) else none

/-- An unsigned numeral whose value fits 8 bits. -/
def uint8? (s : String) : Option UInt8 :=
  (unsigned? s.toList).bind fun n => if n < UInt8.size then some (UInt8.ofNat n) else none

/-- An unsigned numeral whose value fits 64 bits. -/
def uint64? (s : String) : Option UInt64 :=
  (unsigned? s.toList).bind fun n => if n < UInt64.size then some (UInt64.ofNat n) else none

/-- The numeral of a 32-bit value: its digits, after a minus when it is negative. -/
def ofInt32 (v : Int32) : String :=
  v.toInt.repr

/-! ## What is written -/

/-- The numeral of an integer has its digits, behind a minus if it is negative. -/
theorem toList_repr_cases (n : Int) :
    (∃ m : Nat, n = m ∧ n.repr.toList = Nat.toDigits 10 m) ∨
      ∃ m : Nat, 0 < m ∧ n = -(m : Int) ∧ n.repr.toList = '-' :: Nat.toDigits 10 m := by
  cases n with
  | ofNat m => exact Or.inl ⟨m, rfl, Nat.toList_repr⟩
  | negSucc m =>
    refine Or.inr ⟨m + 1, Nat.succ_pos m, rfl, ?_⟩
    rw [show (Int.negSucc m).repr = "-" ++ (m + 1).repr from rfl, String.toList_append, Nat.toList_repr]
    rfl

/-- The numeral of a value has digits and a minus only. -/
theorem of_mem_ofInt32 {v : Int32} {c : Char} (h : c ∈ (ofInt32 v).toList) :
    c = '-' ∨ c.isDigit = true := by
  have hdigit {m : Nat} (hc : c ∈ Nat.toDigits 10 m) : c.isDigit = true :=
    Nat.isDigit_of_mem_toDigits (by decide) (by decide) hc
  rcases toList_repr_cases v.toInt with ⟨m, -, hm⟩ | ⟨m, -, -, hm⟩
  · exact Or.inr (hdigit (hm ▸ h))
  · rcases List.mem_cons.1 (hm ▸ h : c ∈ '-' :: Nat.toDigits 10 m) with rfl | hc
    · exact Or.inl rfl
    · exact Or.inr (hdigit hc)

/-! ## Reading what was written -/

/-- The digits of a number denote it. -/
theorem natural?_toDigits (n : Nat) : natural? (Nat.toDigits 10 n) = some n := by
  have hd : (Nat.toDigits 10 n).all Char.isDigit = true :=
    List.all_eq_true.2 fun c hc => Nat.isDigit_of_mem_toDigits (by decide) (by decide) hc
  rw [natural?, if_pos ⟨Nat.toDigits_ne_nil, hd⟩, Nat.ofDigitChars_toDigits (by decide) (by decide)]

/-- A run of digits does not begin with a sign. -/
theorem unsigned?_toDigits (n : Nat) : unsigned? (Nat.toDigits 10 n) = some n := by
  rw [← natural?_toDigits n]
  unfold unsigned?
  split
  next h =>
    have hc := Nat.isDigit_of_mem_toDigits (b := 10) (n := n) (c := '+') (by decide) (by decide)
      (by rw [h]; exact List.mem_cons_self)
    exact absurd hc (by decide)
  next => rfl

/-- The numeral of an integer denotes it. -/
theorem signed?_repr (n : Int) : signed? n.repr.toList = some n := by
  rcases toList_repr_cases n with ⟨m, rfl, hm⟩ | ⟨m, -, rfl, hm⟩
  · rw [hm]
    unfold signed?
    split
    next h =>
      have hc := Nat.isDigit_of_mem_toDigits (b := 10) (n := m) (c := '-') (by decide) (by decide)
        (by rw [h]; exact List.mem_cons_self)
      exact absurd hc (by decide)
    next => rw [unsigned?_toDigits]; rfl
  · rw [hm, signed?, natural?_toDigits]
    rfl

/-- The numeral of a 32-bit value is read as that value. -/
theorem int32?_ofInt32 (v : Int32) : int32? (ofInt32 v) = some v := by
  rw [int32?, ofInt32, signed?_repr, Option.bind_some, if_pos ⟨v.minValue_le_toInt, v.toInt_le⟩,
    Int32.ofInt_toInt]

/-- The numeral of a 64-bit word is read as that word. -/
theorem uint64?_repr (v : UInt64) : uint64? v.toNat.repr = some v := by
  rw [uint64?, Nat.toList_repr, unsigned?_toDigits, Option.bind_some, if_pos v.toNat_lt,
    UInt64.ofNat_toNat]

end DiceNotation.Numeral
