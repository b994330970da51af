import Brutils.Proofs.StringUtils
import Mathlib.Data.List.TakeWhile

/-!
# `Brutils.Proofs.StringUtils.Overloads`: the two ways to split a string

The `split_string` whose delimiter is a character appends the pieces of the string, whatever the
string is: `std::getline` takes what stands before the next delimiter, and at the end of the stream
what is left. `splitStringChar_pieces` is the induction over the pieces, with one pass for each. It
starts from any pieces of the string, so with a delimiter of one character there is only one way to
cut a string.

The other `split_string` appends pieces as well where it keeps the text, and these are then the same.
Where the string has no delimiter it loses a character. `splits_agree_iff` is the condition under
which the one can stand for the other.

`str_startsWith` compares the lengths the wrong way round. So it is true of equal strings only, and
no shorter string is a beginning (`strStartsWith_iff`).
-/

set_option autoImplicit false

namespace Brutils.Proofs.StringUtils

open Cutting

/-! ### One character as the delimiter -/

section
variable {c : Char} {l str piece rest : Text} {ps : List Text}

/-- A character occurs as a list of one. -/
theorem singleton_infix_iff : [c] <:+: l ↔ c ∈ l := by
  constructor
  · intro h
    exact h.subset List.mem_cons_self
  · intro h
    obtain ⟨before, behind, rfl⟩ := List.mem_iff_append.mp h
    exact ⟨before, behind, by simp⟩

/-- A text in which a character is not to be found consists of other characters. -/
theorem all_ne_of_not_infix (h : ¬[c] <:+: piece) : ∀ d ∈ piece, (decide (d ≠ c)) = true := by
  intro d hd
  rw [decide_eq_true_eq]
  rintro rfl
  exact h (singleton_infix_iff.mpr hd)

/-- A token that a delimiter follows. -/
theorem getline_cut (h : ¬[c] <:+: piece) :
    getline c (piece ++ ([c] ++ rest)) = some (piece, rest) := by
  have hall := all_ne_of_not_infix h
  have hne : piece ++ ([c] ++ rest) ≠ [] := by simp
  have htake : (piece ++ ([c] ++ rest)).takeWhile (· ≠ c) = piece := by
    rw [List.takeWhile_append_of_pos hall]
    simp
  have hdrop : (piece ++ ([c] ++ rest)).dropWhile (· ≠ c) = c :: rest := by
    rw [List.dropWhile_append_of_pos hall]
    simp
  rw [getline, if_neg hne, htake, hdrop]
  rfl

/-- The last token. -/
theorem getline_last (hne : l ≠ []) (h : ¬[c] <:+: l) : getline c l = some (l, []) := by
  have hall := all_ne_of_not_infix h
  have htake : l.takeWhile (· ≠ c) = l := List.takeWhile_eq_self_iff.mpr hall
  have hdrop : l.dropWhile (· ≠ c) = [] := List.dropWhile_eq_nil_iff.mpr hall
  rw [getline, if_neg hne, htake, hdrop]
  rfl

/-- The loop appends the pieces, whichever they are. -/
theorem splitStringChar_pieces (h : Pieces [c] l ps) (fuel : Nat) (cont : List Text)
    (hfuel : l.length < fuel) : splitStringCharLoop c fuel l cont = some (cont ++ ps) := by
  induction h generalizing fuel cont with
  | none =>
    obtain ⟨fuel, rfl⟩ := Nat.exists_eq_add_of_lt hfuel
    rw [splitStringCharLoop, List.append_nil]
    rfl
  | last l hne hnot =>
    have hpositive : 0 < l.length := List.length_pos_iff.mpr hne
    obtain ⟨fuel, rfl⟩ : ∃ n, fuel = n + 2 := ⟨fuel - 2, by omega⟩
    rw [splitStringCharLoop, getline_last hne hnot]
    rfl
  | cut piece rest ps hnot hrest ih =>
    obtain ⟨fuel, rfl⟩ := Nat.exists_eq_add_of_lt hfuel
    have hlen : rest.length < (piece ++ ([c] ++ rest)).length + fuel := by
      simp only [List.length_append, List.length_cons, List.length_nil]
      omega
    rw [splitStringCharLoop, getline_cut hnot]
    show splitStringCharLoop c _ rest (cont ++ [piece]) = _
    rw [ih _ _ hlen, List.append_assoc]
    rfl

/-- A string without the delimiter is one token for both, and only the delimiter as a character
keeps all of it. -/
theorem splits_of_not_mem (hne : str ≠ []) (hmem : c ∉ str) {fuel : Nat} (cont : List Text)
    (hfuel : str.length < fuel) :
    splitString fuel str cont [c] = some (cont ++ [str.dropLast]) ∧
      splitStringChar fuel str cont c = some (cont ++ [str]) := by
  have hnot : ¬[c] <:+: str := mt singleton_infix_iff.mp hmem
  have hlost := splitString_of_not_infix hne hnot cont hfuel
  exact ⟨hlost, splitStringChar_pieces (.last str hne hnot) fuel cont hfuel⟩

/-- The delimiter as a string of one character can stand for the delimiter as a character if the
string is empty or has the delimiter in it, and only then. Otherwise the string is one token for
both, and the delimiter as a string loses its last character. -/
theorem splits_agree_iff (str : Text) (delim : Char) :
    ((∀ fuel cont, str.length < fuel →
      splitString fuel str cont [delim] = splitStringChar fuel str cont delim) ↔
      str = [] ∨ delim ∈ str) ∧
    (¬(str = [] ∨ delim ∈ str) → ∀ fuel cont, str.length < fuel →
      splitString fuel str cont [delim] = some (cont ++ [str.dropLast]) ∧
        splitStringChar fuel str cont delim = some (cont ++ [str])) := by
  refine ⟨⟨fun hagree => ?_, ?_⟩, fun h fuel cont hfuel => ?_⟩
  · by_contra h
    rw [not_or] at h
    obtain ⟨hlost, hkept⟩ := splits_of_not_mem h.1 h.2 [] (Nat.lt_succ_self _)
    rw [hagree _ _ (Nat.lt_succ_self _), hkept] at hlost
    -- the one token is the string, and it is the string without its last character
    have heq : str = str.dropLast := (List.cons.inj (Option.some.inj hlost)).1
    have hlen := congrArg List.length heq
    have hpositive : 0 < str.length := List.length_pos_iff.mpr h.1
    rw [List.length_dropLast] at hlen
    omega
  · rintro (rfl | hmem) fuel cont hfuel
    · obtain ⟨fuel, rfl⟩ := Nat.exists_eq_add_of_lt hfuel
      rfl
    · obtain ⟨tokens, hpieces, hloop⟩ :=
        splitString_of_infix (List.cons_ne_nil _ _) (singleton_infix_iff.mpr hmem)
      rw [hloop fuel cont hfuel, splitStringChar, splitStringChar_pieces hpieces fuel cont hfuel]
  · rw [not_or] at h
    exact splits_of_not_mem h.1 h.2 cont hfuel

end

/-! ### Searching in a string -/

section
variable (baseStr subStr : Text)

/-- A text is found at the beginning if it is a prefix. -/
theorem find_zero_iff : find subStr baseStr 0 = some 0 ↔ subStr <+: baseStr := by
  rw [find_eq_some_iff]
  simp

/-- Only a string itself is a beginning of it. -/
theorem strStartsWith_iff : strStartsWith baseStr subStr = true ↔ baseStr = subStr := by
  unfold strStartsWith
  split
  · rename_i hle
    rw [decide_eq_true_eq, find_zero_iff]
    constructor
    · intro hstart
      exact (hstart.eq_of_length_le hle).symm
    · rintro rfl
      exact List.prefix_rfl
  · rename_i hlt
    refine iff_of_false Bool.false_ne_true ?_
    rintro rfl
    exact hlt (Nat.le_refl _)

/-- The length of the match is that of the string, if there is one. -/
theorem strStartsWithMatch_eq :
    strStartsWithMatch baseStr subStr =
      if strStartsWith baseStr subStr = true then baseStr.length else 0 := by
  unfold strStartsWithMatch strStartsWith
  split
  · simp
  · simp

/-- `str_contains` finds every part. -/
theorem strContains_iff : strContains baseStr subStr = true ↔ subStr <:+: baseStr := by
  have hnone : find subStr baseStr 0 = none ↔ ¬ subStr <:+: baseStr.drop 0 :=
    find_eq_none_iff (Nat.zero_le baseStr.length)
  rw [List.drop_zero] at hnone
  rw [strContains, ← not_iff_not, ← hnone, Bool.not_eq_true, Option.isSome_eq_false_iff,
    Option.isNone_iff_eq_none]

end

end Brutils.Proofs.StringUtils
