import DiceNotation.TokenStream
import Mathlib.Tactic.Common

set_option autoImplicit false

/-!
# Streams that cannot be told apart

Two representations of a token stream answer alike if a relation between their states is kept by
the two basic operations, with equal answers. Then they answer alike to every sequence of
operations.

## Main definitions

* `TokenStream.Simulation` — a relation that both operations keep, with equal answers.
* `TokenStream.after` — a stream after a sequence of operations.
* `nthOrLast` — an item of a list whose last item is repeated for ever.

## Main results

* `TokenStream.Simulation.answers_eq` — related streams answer alike to every sequence of operations.
* `FixedStream.some_ahead` — the stream of a list repeats the last item of the list.
-/

namespace DiceNotation

/-! ## Simulations -/

namespace TokenStream

variable {σ τ : Type} [TokenStream σ] [TokenStream τ] {R : σ → τ → Prop}

/-- Related streams give equal answers to the basic operations, and stay related. -/
structure Simulation (R : σ → τ → Prop) : Prop where
  /-- Looking ahead. -/
  peekNth {s : σ} {t : τ} (h : R s t) (n : Nat) :
    (peekNth s n).1 = (peekNth t n).1 ∧ R (peekNth s n).2 (peekNth t n).2
  /-- Reading. -/
  next {s : σ} {t : τ} (h : R s t) :
    (next s).1 = (next t).1 ∧ R (next s).2 (next t).2

/-- Related streams answer alike to reading past `n` tokens, and stay related. -/
theorem Simulation.nextNth (hR : Simulation R) {s : σ} {t : τ} (h : R s t) (n : Nat) :
    (nextNth s n).1 = (nextNth t n).1 ∧ R (nextNth s n).2 (nextNth t n).2 := by
  induction n generalizing s t with
  | zero => exact hR.next h
  | succ n ih =>
    obtain ⟨hanswer, hrel⟩ := hR.next h
    unfold TokenStream.nextNth
    generalize TokenStream.next s = a at hanswer hrel
    generalize TokenStream.next t = b at hanswer hrel
    obtain ⟨x, s'⟩ := a
    obtain ⟨y, t'⟩ := b
    cases hanswer
    cases x with
    | ok u => exact ih hrel
    | error e => exact ⟨rfl, hrel⟩

/-- Related streams answer alike to every operation, and stay related. -/
theorem Simulation.answer (hR : Simulation R) {s : σ} {t : τ} (h : R s t) (q : Query) :
    (answer s q).1 = (answer t q).1 ∧ R (answer s q).2 (answer t q).2 := by
  cases q with
  | peek => exact hR.peekNth h 0
  | peekNth n => exact hR.peekNth h n
  | next => exact hR.next h
  | nextNth n => exact hR.nextNth h n

/-- Related streams answer alike to every sequence of operations. -/
theorem Simulation.answers_eq (hR : Simulation R) {s : σ} {t : τ} (h : R s t) (qs : List Query) :
    answers s qs = answers t qs := by
  induction qs generalizing s t with
  | nil => rfl
  | cons q qs ih =>
    obtain ⟨hanswer, hrel⟩ := hR.answer h q
    simp only [answers, hanswer, ih hrel]

/-- A stream after operations that were done one after the other. -/
def after (s : σ) : List Query → σ
  | [] => s
  | q :: qs => after (TokenStream.answer s q).2 qs

/-- Related streams stay related under every sequence of operations. -/
theorem Simulation.after (hR : Simulation R) {s : σ} {t : τ} (h : R s t) (qs : List Query) :
    R (after s qs) (after t qs) := by
  induction qs generalizing s t with
  | nil => exact h
  | cons q qs ih => exact ih (hR.answer h q).2

end TokenStream

/-! ## Lists whose last item is repeated -/

section NthOrLast

variable {α : Type}

/-- The item at place `n`, or the last one of a shorter list. -/
def nthOrLast (l : List α) (n : Nat) : Option α :=
  l[n]?.or l.getLast?

/-- In front of its end, the item is the one at its place. -/
theorem nthOrLast_of_lt {l : List α} {n : Nat} (h : n < l.length) : nthOrLast l n = some l[n] := by
  rw [nthOrLast, List.getElem?_eq_getElem h, Option.some_or]

/-- What comes behind a list does not matter at a place inside it. -/
theorem nthOrLast_append_of_lt {l : List α} (m : List α) {n : Nat} (h : n < l.length) :
    nthOrLast (l ++ m) n = nthOrLast l n := by
  rw [nthOrLast_of_lt h, nthOrLast_of_lt (by rw [List.length_append]; omega),
    List.getElem_append_left h]

/-- Applying a function to all items applies it to the one that is found. -/
theorem nthOrLast_map {β : Type} (f : α → β) (l : List α) (n : Nat) :
    nthOrLast (l.map f) n = (nthOrLast l n).map f := by
  simp only [nthOrLast, List.getElem?_map, List.getLast?_map, Option.map_or]

/-- From the last place on, the item is the last one. -/
theorem nthOrLast_append_singleton {l : List α} {x : α} {n : Nat} (h : l.length ≤ n) :
    nthOrLast (l ++ [x]) n = some x := by
  unfold nthOrLast
  rcases Nat.eq_or_lt_of_le h with rfl | hlt
  · simp
  · rw [List.getElem?_eq_none (by simp; omega)]
    simp

/-- The items behind the first one. -/
theorem nthOrLast_cons_succ {x y : α} {l : List α} (n : Nat) :
    nthOrLast (x :: y :: l) (n + 1) = nthOrLast (y :: l) n := by
  simp [nthOrLast]

/-- Repeating the last item makes no difference. -/
theorem nthOrLast_append_last (l : List α) (x : α) (n : Nat) :
    nthOrLast (l ++ [x] ++ [x]) n = nthOrLast (l ++ [x]) n := by
  rcases Nat.lt_or_ge n (l ++ [x]).length with h | h
  · rw [nthOrLast_append_of_lt _ h]
  · rw [nthOrLast_append_singleton h]
    rw [List.length_append] at h
    rw [nthOrLast_append_singleton (Nat.le_of_add_right_le h)]

end NthOrLast

namespace FixedStream

/-- The item `n` places ahead is the one at that place of the list, or the last one. -/
theorem some_ahead (s : FixedStream) (n : Nat) :
    some (s.ahead n) = nthOrLast s.items (s.cursor + n) := by
  have hlen := List.length_pos_iff.2 s.items_ne_nil
  unfold ahead item nthOrLast
  rcases Nat.lt_or_ge (s.cursor + n) s.items.length with h | h
  · rw [List.getElem?_eq_getElem h, Option.some_or]
    simp [show min (s.cursor + n) (s.items.length - 1) = s.cursor + n by omega]
  · rw [List.getElem?_eq_none h, Option.none_or, List.getLast?_eq_getElem?,
      List.getElem?_eq_getElem (by omega)]
    simp [show min (s.cursor + n) (s.items.length - 1) = s.items.length - 1 by omega]

/-- The stream behind its next `n` items. -/
def behind (s : FixedStream) (n : Nat) : FixedStream :=
  { s with cursor := s.cursor + n }

/-- What lies ahead behind `m` items lies `m` places further ahead in front of them. -/
@[simp] theorem ahead_behind (s : FixedStream) (m n : Nat) :
    (s.behind m).ahead n = s.ahead (m + n) := by
  simp only [ahead, behind, item, Nat.add_assoc]

/-- Going on twice is going on once. -/
@[simp] theorem behind_behind (s : FixedStream) (m n : Nat) :
    (s.behind m).behind n = s.behind (m + n) := by
  simp only [behind, Nat.add_assoc]

/-- Reading a token goes on behind it. -/
theorem next_of_ok {s : FixedStream} {t : Token} (h : s.ahead 0 = .ok t) :
    TokenStream.next s = (.ok t, s.behind 1) := by
  simp only [TokenStream.next, h, behind]

/-- A failure is not passed. -/
theorem next_of_error {s : FixedStream} {e : UnknownToken} (h : s.ahead 0 = .error e) :
    TokenStream.next s = (.error e, s) := by
  simp only [TokenStream.next, h]

end FixedStream

end DiceNotation
