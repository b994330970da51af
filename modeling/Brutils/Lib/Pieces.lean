import Mathlib.Data.List.Infix

/-!
# The pieces of a list between the occurrences of another list

A list is cut at the occurrences of a list `sep` that are found one after the other, from the
left. `find` searches for the first occurrence from a position on. `Pieces sep l ps` says that
`ps` are the pieces of `l`: what stands before the first occurrence, then the pieces of what
stands behind it. Nothing behind the last occurrence is no piece, so a list and the list with
one `sep` behind it can have the same pieces.

The pieces are read off the occurrences that a search finds, and occurrences can overlap. What
makes the result independent of that is `not_infix_of_find`: no occurrence ends before the first
one begins. So no piece has `sep` in it (`Pieces.not_infix`), and the list is its pieces joined
with `sep`, or these with one `sep` behind them (`Pieces.eq_intercalate`).
-/

set_option autoImplicit false

namespace Cutting

variable {α : Type*}

/-! ### The search -/

section
variable [DecidableEq α]

/-- The first position from `pos` on at which `sep` occurs in `l`. -/
def find (sep l : List α) (pos : Nat) : Option Nat :=
  (List.range' pos (l.length + 1 - pos)).find? fun i => sep <+: l.drop i

variable {sep l : List α} {pos i : Nat}

/-- What the search finds is an occurrence, and none is before it. -/
theorem find_eq_some_iff : find sep l pos = some i ↔
    sep <+: l.drop i ∧ (pos ≤ i ∧ i ≤ l.length) ∧ ∀ j, pos ≤ j → j < i → ¬sep <+: l.drop j := by
  have hrange : i ∈ List.range' pos (l.length + 1 - pos) ↔ pos ≤ i ∧ i ≤ l.length := by
    rw [List.mem_range'_1]
    omega
  rw [find, List.find?_range'_eq_some, hrange]
  simp

/-- A search from a position in the list fails if there is no occurrence behind it. -/
theorem find_eq_none_iff (hpos : pos ≤ l.length) : find sep l pos = none ↔ ¬sep <:+: l.drop pos := by
  rw [find, List.find?_range'_eq_none]
  constructor
  · rintro h ⟨before, behind, heq⟩
    have hlen : before.length ≤ l.length - pos := by
      rw [← List.length_drop, ← heq]
      simp only [List.length_append]
      omega
    have hocc : sep <+: l.drop (pos + before.length) := by
      rw [← List.drop_drop, ← heq, List.append_assoc, List.drop_left]
      exact List.prefix_append sep behind
    have hnone := h (pos + before.length) (by omega) (by omega)
    simp [hocc] at hnone
  · intro h i hi _
    have hnot : ¬sep <+: l.drop i := by
      intro hocc
      refine h (hocc.isInfix.trans ?_)
      rw [show i = pos + (i - pos) by omega, ← List.drop_drop]
      exact (List.drop_suffix _ _).isInfix
    simp [hnot]

/-- An occurrence cuts the list in three. -/
theorem drop_eq_of_find (h : find sep l pos = some i) :
    l.drop pos = (l.drop pos).take (i - pos) ++ (sep ++ l.drop (i + sep.length)) := by
  obtain ⟨⟨behind, hocc⟩, hi, -⟩ := find_eq_some_iff.mp h
  have hbehind : behind = l.drop (i + sep.length) := by
    rw [← List.drop_drop, ← hocc, List.drop_left]
  rw [← hbehind, hocc]
  conv_lhs => rw [← List.take_append_drop (i - pos) (l.drop pos)]
  rw [List.drop_drop, show pos + (i - pos) = i by omega]

/-- An occurrence ends in the list. -/
theorem add_length_le_of_find (h : find sep l pos = some i) : i + sep.length ≤ l.length := by
  obtain ⟨hocc, hi, -⟩ := find_eq_some_iff.mp h
  have hle : sep.length ≤ l.length - i := by
    rw [← List.length_drop]
    exact hocc.length_le
  omega

/-- There is no occurrence that ends before the first one begins. -/
theorem not_infix_of_find (hsep : sep ≠ []) (h : find sep l pos = some i) :
    ¬sep <:+: (l.drop pos).take (i - pos) := by
  rintro ⟨before, behind, heq⟩
  obtain ⟨-, hi, hfirst⟩ := find_eq_some_iff.mp h
  have hpositive : 0 < sep.length := List.length_pos_iff.mpr hsep
  have hlen : before.length + sep.length + behind.length ≤ i - pos := by
    rw [← List.length_append, ← List.length_append, heq]
    exact List.length_take_le _ _
  -- it would be an occurrence that the search passed
  refine hfirst (pos + before.length) (by omega) (by omega) ?_
  have hdrop : l.drop (pos + before.length) =
      ((l.drop pos).take (i - pos) ++ (l.drop pos).drop (i - pos)).drop before.length := by
    rw [List.take_append_drop, List.drop_drop]
  rw [hdrop, ← heq, List.append_assoc, List.append_assoc, List.drop_left]
  exact List.prefix_append _ _

end

/-! ### The pieces -/

/-- `ps` are the pieces of `l` between the occurrences of `sep`. -/
inductive Pieces (sep : List α) : List α → List (List α) → Prop
  | none : Pieces sep [] []
  | last (l : List α) (hne : l ≠ []) (h : ¬sep <:+: l) : Pieces sep l [l]
  | cut (piece rest : List α) (ps : List (List α)) (h : ¬sep <:+: piece)
      (hrest : Pieces sep rest ps) : Pieces sep (piece ++ (sep ++ rest)) (piece :: ps)

variable {sep l : List α} {ps : List (List α)}

/-- What stands before the first occurrence, and the pieces of what stands behind it. -/
theorem Pieces.of_find [DecidableEq α] {pos i : Nat} (hsep : sep ≠ []) (h : find sep l pos = some i)
    (hrest : Pieces sep (l.drop (i + sep.length)) ps) :
    Pieces sep (l.drop pos) ((l.drop pos).take (i - pos) :: ps) := by
  have hcut := Pieces.cut _ _ _ (not_infix_of_find hsep h) hrest
  rw [← drop_eq_of_find h] at hcut
  exact hcut

/-- No piece has `sep` in it. -/
theorem Pieces.not_infix (h : Pieces sep l ps) : ∀ piece ∈ ps, ¬sep <:+: piece := by
  induction h with
  | none => intro piece hpiece; cases hpiece
  | last l _ hnot =>
    intro piece hpiece
    rw [List.mem_singleton.mp hpiece]
    exact hnot
  | cut piece rest ps hnot _ ih => exact List.forall_mem_cons.mpr ⟨hnot, ih⟩

/-- Only the empty list has no pieces. -/
theorem Pieces.eq_nil (h : Pieces sep l []) : l = [] := by
  cases h with
  | none => rfl

/-- The list is its pieces joined with `sep`, or these with one `sep` behind them. -/
theorem Pieces.eq_intercalate (h : Pieces sep l ps) :
    l = sep.intercalate ps ∨ l = sep.intercalate ps ++ sep := by
  induction h with
  | none => exact Or.inl rfl
  | last l _ _ => exact Or.inl List.intercalate_singleton.symm
  | cut piece rest ps _ hrest ih =>
    cases ps with
    | nil =>
      rw [hrest.eq_nil, List.append_nil, List.intercalate_singleton]
      exact Or.inr rfl
    | cons p ps =>
      have hjoin : sep.intercalate (piece :: p :: ps) =
          piece ++ (sep ++ sep.intercalate (p :: ps)) := by
        rw [List.intercalate_cons_cons, List.append_assoc]
      rw [hjoin]
      rcases ih with heq | heq
      · exact Or.inl (by rw [← heq])
      · refine Or.inr ?_
        rw [List.append_assoc, List.append_assoc, ← heq]

end Cutting
