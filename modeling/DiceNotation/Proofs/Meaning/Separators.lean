import DiceNotation.Proofs.Meaning.Denotations

set_option autoImplicit false

/-!
# Expressions between separators

A text with separators is read part by part. Each part is read as one expression, or the whole text
is not read; an empty part is read as no expression, and so it is not allowed between separators.

## Main definitions

* `Grammar.Derivation.single`, `Grammar.Derivation.joined` — derivations of one expression, and of
  several ones with separators between them.
* `Rolls.parts` — the parts of a text between its separators.

## Main results

* `Grammar.Derivation.splitOn_text_joined` — the text of joined expressions splits into theirs.
* `Rolls.ofText_eq_ok_iff_map_parts` — the expressions of a text are those of its parts.
* `Rolls.ofText_eq_ok_iff_parts` — whether a text is read, and as what, in terms of its parts.
-/

namespace DiceNotation

namespace Grammar

/-! ## Where separators stand -/

/-- The text of a piece that is no separator contains none. -/
theorem Piece.separator_notMem_text {p : Piece} (h : p.kind ≠ .separator) : ';' ∉ p.text := by
  intro hmem
  rcases List.mem_append.1 hmem with hc | hc
  · rcases p.spells.of_mem hc with ⟨-, hminus | hdigit⟩ | hsign
    · exact absurd hminus (by decide)
    · exact absurd hdigit (by decide)
    · cases hkind : p.kind <;> simp [hkind, TokenKind.signs] at hsign h
  · exact absurd (List.mem_replicate.1 hc).2 (by decide)

/-- The pieces of a term are no separators. -/
theorem Term.kind_ne_separator (t : Term) {p : Piece} (hp : p ∈ t.pieces) :
    p.kind ≠ .separator := by
  cases t with
  | number n =>
    obtain rfl := List.mem_singleton.1 hp
    simp [Num.piece]
  | dice d =>
    simp only [pieces, Throw.pieces, List.mem_append, Option.mem_toList, Option.map_eq_some_iff,
      List.mem_cons, List.not_mem_nil, or_false] at hp
    rcases hp with (⟨n, -, rfl⟩ | rfl | rfl) | ⟨s, -, rfl⟩ <;> simp [Num.piece, Sign.piece]

/-- The pieces of an expression are no separators. -/
theorem Expr.kind_ne_separator (e : Expr) {p : Piece} (hp : p ∈ e.pieces) :
    p.kind ≠ .separator := by
  induction e with
  | term t => exact t.kind_ne_separator hp
  | operation left operator right ih =>
    rcases List.mem_append.1 hp with hp | hp
    · exact left.kind_ne_separator hp
    rcases List.mem_cons.1 hp with rfl | hp
    · simp [Sign.piece]
    · exact ih hp

namespace Derivation

/-! ## Joined expressions -/

/-- An expression behind spaces. -/
def single (part : Nat × Expr) : Derivation :=
  ⟨part.1, some (part.2, [])⟩

/-- Expressions with separators between them, each behind spaces. -/
def joined (first : Nat × Expr) (others : List (Nat × Expr)) : Derivation :=
  ⟨first.1, some (first.2, others.map fun part => (⟨';', part.1, by decide⟩, part.2))⟩

/-- A derivation has no expressions, or it joins some. -/
theorem eq_joined (d : Derivation) : d.exprs = none ∨ ∃ first others, d = joined first others := by
  obtain ⟨spaces, _ | ⟨e, rest⟩⟩ := d
  · exact Or.inl rfl
  · have hrest : (rest.map fun r => (r.1.spaces, r.2)).map
        (fun part => ((⟨';', part.1, by decide⟩ : Sign .separator), part.2)) = rest := by
      rw [List.map_map]
      refine List.map_id'' (fun r => ?_) rest
      obtain ⟨⟨c, n, hc⟩, e⟩ := r
      obtain rfl := List.mem_singleton.1 hc
      rfl
    exact Or.inr ⟨(spaces, e), _, by rw [joined, hrest]⟩

/-- The text of an expression behind spaces contains no separator. -/
theorem separator_notMem_text_single (part : Nat × Expr) : ';' ∉ (single part).text := by
  intro hmem
  rcases List.mem_append.1 hmem with hc | hc
  · exact absurd (List.mem_replicate.1 hc).2 (by decide)
  · obtain ⟨p, hp, hc⟩ := List.mem_flatMap.1 hc
    have hpieces : p ∈ part.2.pieces := by simpa [pieces, single, furtherPieces] using hp
    exact Piece.separator_notMem_text (part.2.kind_ne_separator hpieces) hc

/-- The text of joined expressions is that of the expressions, with separators between them. -/
theorem text_joined (first : Nat × Expr) (others : List (Nat × Expr)) :
    (joined first others).text =
      [';'].intercalate ((first :: others).map fun part => (single part).text) := by
  induction others generalizing first with
  | nil => simp [joined, single]
  | cons second others ih =>
    have htail := ih second
    rw [List.map_cons] at htail
    rw [List.map_cons, List.map_cons, List.intercalate_cons_cons, ← htail]
    simp [joined, single, text, pieces, furtherPieces, Sign.piece, Piece.text]

/-- The text of joined expressions splits into those of the expressions. -/
theorem splitOn_text_joined (first : Nat × Expr) (others : List (Nat × Expr)) :
    (joined first others).text.splitOn ';' =
      (first :: others).map fun part => (single part).text := by
  rw [text_joined, List.splitOn_intercalate]
  · intro cs hcs
    obtain ⟨part, -, rfl⟩ := List.mem_map.1 hcs
    exact separator_notMem_text_single part
  · exact List.cons_ne_nil _ _

/-- The expressions of joined expressions, in order. -/
theorem rolls_joined (first : Nat × Expr) (others : List (Nat × Expr)) :
    (joined first others).rolls = (first :: others).map fun part => part.2.meaning := by
  simp [joined, rolls]

end Derivation

end Grammar

/-! ## Parts of a text -/

namespace Rolls

open Grammar.Derivation (single joined)

/-- The parts of a text between its separators. -/
def parts (text : String) : List String :=
  (text.toList.splitOn ';').map String.ofList

/-- A text is read as one expression exactly if an expression behind spaces derives it. -/
theorem ofText_eq_ok_singleton_iff {text : String} {e : Expression} :
    ofText text = .ok [e] ↔ ∃ part, (single part).text = text.toList ∧ part.2.meaning = e := by
  rw [ofText_eq_ok_iff]
  constructor
  · rintro ⟨d, htext, hrolls⟩
    rcases d.eq_joined with hnone | ⟨first, others, rfl⟩
    · simp [Grammar.Derivation.rolls, hnone] at hrolls
    · rw [Grammar.Derivation.rolls_joined, List.map_cons, List.cons.injEq,
        List.map_eq_nil_iff] at hrolls
      obtain ⟨hmeaning, rfl⟩ := hrolls
      exact ⟨first, htext, hmeaning⟩
  · rintro ⟨part, htext, rfl⟩
    exact ⟨single part, htext, rfl⟩

/-- Texts that are read as one expression each have derivations. -/
theorem exists_singles {texts : List (List Char)} {es : Rolls}
    (h : texts.map (fun cs => ofText (String.ofList cs)) = es.map fun e => .ok [e]) :
    ∃ ps : List (Nat × Grammar.Expr), (ps.map fun part => (single part).text) = texts ∧
      (ps.map fun part => part.2.meaning) = es := by
  induction texts generalizing es with
  | nil => exact ⟨[], rfl, (List.map_eq_nil_iff.1 h.symm).symm⟩
  | cons cs texts ih =>
    cases es with
    | nil => simp at h
    | cons e es =>
      obtain ⟨hhead, htail⟩ := List.cons.inj h
      obtain ⟨part, htext, hmeaning⟩ := ofText_eq_ok_singleton_iff.1 hhead
      obtain ⟨ps, htexts, hmeanings⟩ := ih htail
      refine ⟨part :: ps, ?_, ?_⟩
      · rw [List.map_cons, htext, htexts, String.toList_ofList]
      · rw [List.map_cons, hmeaning, hmeanings]

/-- A text with separators is read as some expressions exactly if its parts are read as one of them
each, in order.

**Proof sketch.** The derivation of the text joins expressions, and its text splits into theirs. The
other way round, the expressions of the parts are joined, and the text consists of its parts with
separators between them. -/
theorem ofText_eq_ok_iff_map_parts {text : String} (h : ';' ∈ text.toList) {es : Rolls} :
    ofText text = .ok es ↔ (parts text).map ofText = es.map fun e => .ok [e] := by
  rw [parts, List.map_map]
  constructor
  · intro hread
    obtain ⟨d, htext, rfl⟩ := ofText_eq_ok_iff.1 hread
    rcases d.eq_joined with hnone | ⟨first, others, rfl⟩
    · have hspaces : text.toList = List.replicate d.spaces ' ' := by
        simp [← htext, Grammar.Derivation.text, Grammar.Derivation.pieces, hnone]
      rw [hspaces] at h
      exact absurd (List.mem_replicate.1 h).2 (by decide)
    · rw [← htext, Grammar.Derivation.splitOn_text_joined, Grammar.Derivation.rolls_joined,
        List.map_map, List.map_map, List.map_inj_left]
      intro part _
      exact ofText_eq_ok_singleton_iff.2 ⟨part, String.toList_ofList.symm, rfl⟩
  · intro hparts
    obtain ⟨ps, htexts, rfl⟩ := exists_singles hparts
    cases ps with
    | nil => exact absurd htexts.symm (List.splitOn_ne_nil ';' _)
    | cons first others =>
      rw [← Grammar.Derivation.rolls_joined]
      refine ofText_eq_ok_iff.2 ⟨joined first others, ?_, rfl⟩
      rw [Grammar.Derivation.text_joined, htexts, List.intercalate_splitOn]

/-- **A text is read part by part.** A text with separators is read exactly if each of its parts is
read as one expression, and its expressions are then those of its parts, in order. -/
theorem ofText_eq_ok_iff_parts (text : String) (h : ';' ∈ text.toList) :
    ((∃ es, ofText text = .ok es) ↔ ∀ part ∈ parts text, ∃ e, ofText part = .ok [e]) ∧
    ∀ es, ofText text = .ok es →
      ∃ ess : List Rolls, (parts text).map ofText = ess.map .ok ∧ es = ess.flatten := by
  constructor
  · simp only [ofText_eq_ok_iff_map_parts h]
    constructor
    · rintro ⟨es, hes⟩ part hpart
      have hmem : ofText part ∈ (parts text).map ofText := List.mem_map_of_mem hpart
      rw [hes] at hmem
      obtain ⟨e, -, he⟩ := List.mem_map.1 hmem
      exact ⟨e, he.symm⟩
    · intro hparts
      choose! e he using hparts
      refine ⟨(parts text).map e, ?_⟩
      rw [List.map_map]
      exact List.map_congr_left he
  · intro es hread
    refine ⟨es.map fun e => [e], ?_, ?_⟩
    · rw [(ofText_eq_ok_iff_map_parts h).1 hread, List.map_map]
      rfl
    · rw [← List.flatMap_def, List.flatMap_singleton']

/-- A text that is read, with its parts, and one that is not, since one of its parts is blank. -/
theorem ofText_eq_ok_iff_parts_sample :
    (';' ∈ "d4h-1; 2+3 ;-4".toList ∧
      ∀ part ∈ parts "d4h-1; 2+3 ;-4", ∃ e, ofText part = .ok [e]) ∧
    ';' ∈ "1; ;2".toList ∧ ¬ ∃ es, ofText "1; ;2" = .ok es := by
  have hread : ofText "d4h-1; 2+3 ;-4" = .ok [.operation .sub (.dice ⟨1, 4, .dropHigh⟩) (.constant 1),
      .operation .add (.constant 2) (.constant 3), .constant (-4)] := by
    decide +kernel
  have hsome : ';' ∈ "d4h-1; 2+3 ;-4".toList := by decide
  have hblank : ';' ∈ "1; ;2".toList := by decide
  refine ⟨⟨hsome, (ofText_eq_ok_iff_parts _ hsome).1.1 ⟨_, hread⟩⟩, hblank, fun h => ?_⟩
  obtain ⟨e, he⟩ := (ofText_eq_ok_iff_parts _ hblank).1.1 h " " (by decide +kernel)
  have hnone : ofText " " = .ok [] := by decide +kernel
  simp [hnone] at he

end Rolls

end DiceNotation
