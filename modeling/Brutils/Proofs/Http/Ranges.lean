import Brutils.Http.Strings
import Mathlib.Data.List.TakeWhile

/-!
# `Brutils.Proofs.Http.Ranges`: the ranges of `_buffer` that the parser works on

`Spans buffer pos endPos text` says that a range of `_buffer` lies inside it and holds `text`.
A range that holds two texts after each other splits into two ranges, and `std::find` comes to
the place where the second begins. So what a parsing function does with a range is a statement
about the text in it, and so is whether `getString` returns (`getString_spans`).
-/

set_option autoImplicit false

namespace Brutils.Proofs.Http

open Brutils.RequestParser

/-- A text has its first `c` somewhere, or none. -/
theorem split_at (c : Char) (text : Text) :
    c ∉ text ∨ ∃ front back, text = front ++ c :: back ∧ c ∉ front := by
  by_cases h : c ∈ text
  · obtain ⟨front, back, htext, hfront⟩ := List.eq_append_cons_of_mem h
    exact Or.inr ⟨front, back, htext, hfront⟩
  · exact Or.inl h

/-- Two texts are split at their first `c` in one way. -/
theorem first_unique {c : Char} {front front' back back' : Text} (hfront : c ∉ front)
    (hfront' : c ∉ front') (h : front ++ c :: back = front' ++ c :: back') :
    front = front' ∧ back = back' := by
  rcases List.append_eq_append_iff.mp h with ⟨more, rfl, hback⟩ | ⟨more, rfl, hback⟩
  · cases more with
    | nil => exact ⟨(List.append_nil _).symm, (List.cons.inj hback).2⟩
    | cons d more =>
      rw [← (List.cons.inj hback).1] at hfront'
      exact absurd (List.mem_append_right _ List.mem_cons_self) hfront'
  · cases more with
    | nil => exact ⟨List.append_nil _, (List.cons.inj hback).2.symm⟩
    | cons d more =>
      rw [← (List.cons.inj hback).1] at hfront
      exact absurd (List.mem_append_right _ List.mem_cons_self) hfront

/-- What stands before the first `c`. -/
theorem takeWhile_ne {c : Char} {front : Text} (hfront : c ∉ front) (back : Text) :
    (front ++ c :: back).takeWhile (· ≠ c) = front := by
  rw [List.takeWhile_append_of_pos, List.takeWhile_cons_of_neg (by simp), List.append_nil]
  intro d hd
  exact decide_eq_true (ne_of_mem_of_not_mem hd hfront)

/-- What stands behind it, with the `c` in front. -/
theorem dropWhile_ne {c : Char} {front : Text} (hfront : c ∉ front) (back : Text) :
    (front ++ c :: back).dropWhile (· ≠ c) = c :: back := by
  rw [List.dropWhile_append_of_pos, List.dropWhile_cons_of_neg (by simp)]
  intro d hd
  exact decide_eq_true (ne_of_mem_of_not_mem hd hfront)

/-- A text without a `c` stands before it as a whole. -/
theorem takeWhile_ne_of_not_mem {c : Char} {text : Text} (h : c ∉ text) :
    text.takeWhile (· ≠ c) = text :=
  List.takeWhile_eq_self_iff.mpr fun _ hd => decide_eq_true (ne_of_mem_of_not_mem hd h)

/-- And nothing stands behind it. -/
theorem dropWhile_ne_of_not_mem {c : Char} {text : Text} (h : c ∉ text) :
    text.dropWhile (· ≠ c) = [] :=
  List.dropWhile_eq_nil_iff.mpr fun _ hd => decide_eq_true (ne_of_mem_of_not_mem hd h)

/-- A text is cut at its first `c`. -/
theorem cut_append {c : Char} {front : Text} (hfront : c ∉ front) (back : Text) :
    cut c (front ++ c :: back) = some (front, back) := by
  rw [cut, if_pos (List.mem_append_right _ List.mem_cons_self), takeWhile_ne hfront,
    dropWhile_ne hfront, List.tail_cons]

/-- The range from `pos` to `endPos` holds `text`. -/
structure Spans (buffer : Text) (pos endPos : Nat) (text : Text) : Prop where
  endPos_eq : endPos = pos + text.length
  holds : text <+: buffer.drop pos

section
variable {buffer text front back : Text} {pos endPos : Nat} {c : Char} {p : Char → Bool}

namespace Spans

/-- The range holds the text. -/
theorem slice (h : Spans buffer pos endPos text) : slice buffer pos endPos = text := by
  rw [RequestParser.slice, h.endPos_eq, Nat.add_sub_cancel_left]
  exact (List.prefix_iff_eq_take.mp h.holds).symm

/-- A range does not end before its beginning. -/
theorem pos_le (h : Spans buffer pos endPos text) : pos ≤ endPos := by
  rw [h.endPos_eq]
  exact Nat.le_add_right _ _

/-- The front part of a range. -/
theorem left (h : Spans buffer pos endPos (front ++ back)) :
    Spans buffer pos (pos + front.length) front :=
  ⟨rfl, (List.prefix_append front back).trans h.holds⟩

/-- The back part of a range. -/
theorem right (h : Spans buffer pos endPos (front ++ back)) :
    Spans buffer (pos + front.length) endPos back := by
  refine ⟨?_, ?_⟩
  · rw [h.endPos_eq, List.length_append, Nat.add_assoc]
  · obtain ⟨rest, hrest⟩ := h.holds
    rw [← List.drop_drop, ← hrest, List.append_assoc, List.drop_left]
    exact List.prefix_append back rest

/-- A range without its first character. -/
theorem tail (h : Spans buffer pos endPos (c :: text)) : Spans buffer (pos + 1) endPos text :=
  Spans.right (show Spans buffer pos endPos ([c] ++ text) from h)

/-- The text behind a character that follows `front`. -/
theorem behind (h : Spans buffer pos endPos (front ++ c :: back)) :
    Spans buffer (pos + front.length + 1) endPos back :=
  h.right.tail

/-- A range that holds a character is not empty. -/
theorem pos_lt_end (h : Spans buffer pos endPos (c :: text)) : pos < endPos := by
  rw [h.endPos_eq]
  exact Nat.lt_add_of_pos_right (Nat.succ_pos _)

/-- A range that holds a character begins inside `_buffer`. -/
theorem pos_lt (h : Spans buffer pos endPos (c :: text)) : pos < buffer.length := by
  have hlength := h.holds.length_le
  rw [List.length_drop, List.length_cons] at hlength
  omega

end Spans

/-- A range inside `_buffer` holds some text. -/
theorem spans_slice (hpos : pos ≤ endPos) (hend : endPos ≤ buffer.length) :
    Spans buffer pos endPos (slice buffer pos endPos) := by
  refine ⟨?_, List.take_prefix _ _⟩
  rw [RequestParser.slice, List.length_take, List.length_drop]
  omega

/-- The rest of `_buffer` behind what comes first. -/
theorem spans_rest (before text : Text) :
    Spans (before ++ text) before.length (before ++ text).length text := by
  refine ⟨List.length_append, ?_⟩
  have hdrop : (before ++ text).drop before.length = text := List.drop_left
  simp only [hdrop, List.prefix_rfl]

/-- The search comes to the end of a range without such a character. -/
theorem findIf_eq_endPos (h : Spans buffer pos endPos text) (htext : ∀ c ∈ text, p c = false) :
    findIf p buffer pos endPos = endPos := by
  rw [findIf, h.slice, List.findIdx_eq_length_of_false htext, h.endPos_eq]

/-- The search comes to the first such character. -/
theorem findIf_eq (h : Spans buffer pos endPos (front ++ c :: back))
    (hfront : ∀ c ∈ front, p c = false) (hc : p c = true) :
    findIf p buffer pos endPos = pos + front.length := by
  rw [findIf, h.slice, List.findIdx_append, List.findIdx_eq_length_of_false hfront,
    if_neg (lt_irrefl _), List.findIdx_cons, hc, cond_true, Nat.zero_add]

/-- A search for a character that is not there ends at the end of the range. -/
theorem find_eq_endPos (h : Spans buffer pos endPos text) (htext : c ∉ text) :
    find c buffer pos endPos = endPos := by
  refine findIf_eq_endPos h fun c' hc' => decide_eq_false ?_
  rintro rfl
  exact htext hc'

/-- A search ends at the first occurrence. -/
theorem find_eq (h : Spans buffer pos endPos (front ++ c :: back)) (hfront : c ∉ front) :
    find c buffer pos endPos = pos + front.length := by
  refine findIf_eq h (fun c' hc' => decide_eq_false ?_) (decide_eq_true rfl)
  rintro rfl
  exact hfront hc'

/-- `getString` returns if an empty string has the memory for what the range holds. -/
theorem getString_spans [StandardLibrary] (h : Spans buffer pos endPos text) :
    getString buffer pos endPos =
      if text.length ≤ StandardLibrary.emptyCapacity then some [] else none := by
  rw [getString_eq, h.slice]

/-! ### Lines -/

/-- A line of `_buffer`: the characters from `pos` to the next character of a line end, or to the
end of `_buffer`. -/
structure LineAt (buffer : Text) (pos : Nat) (line : Text) : Prop where
  spans : Spans buffer pos (pos + line.length) line
  lineEnd : findFirstOf newLine buffer pos buffer.length = pos + line.length

/-- The line that a line end follows. -/
theorem lineAt_append (before back : Text) {line : Text} (hline : ∀ c ∈ line, c ∉ newLine)
    (hc : c ∈ newLine) :
    LineAt (before ++ (line ++ c :: back)) before.length line :=
  ⟨(spans_rest before _).left,
    findIf_eq (spans_rest before _) (fun c hc => decide_eq_false (hline c hc)) (decide_eq_true hc)⟩

/-- The line at the end of `_buffer`. -/
theorem lineAt_last (before : Text) {line : Text} (hline : ∀ c ∈ line, c ∉ newLine) :
    LineAt (before ++ line) before.length line := by
  have hspans := spans_rest before line
  have hend := hspans.endPos_eq
  refine ⟨⟨rfl, hspans.holds⟩, ?_⟩
  rw [← hend]
  exact findIf_eq_endPos hspans fun c hc => decide_eq_false (hline c hc)

end

end Brutils.Proofs.Http
