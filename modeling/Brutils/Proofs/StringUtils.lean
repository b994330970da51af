import Brutils.StringUtils

/-!
# `Brutils.Proofs.StringUtils`: what splitting a string loses

The last token is `str.substr(i, str.size() - 1)`. Behind a first delimiter that is the rest of
the string, since the rest is shorter than `str.size()`. Before it, with `i = 0`, it is the
string without its last character.

So the index makes the difference. `splitStringLoop_pieces` is about an index behind a
delimiter: the loop appends the pieces of the rest, by induction on the fuel, of which one pass
takes one unit and at least one character of the rest. `splitString_of_infix` adds the first
pass, which finds a delimiter. `splitString_of_not_infix` is about a string without one. The two
meet in `splitString_keeps_text_iff`.
-/

set_option autoImplicit false

namespace Brutils.Proofs.StringUtils

open Cutting

variable {str delim : Text}

/-! ### One pass -/

/-- A pass that finds a delimiter. -/
theorem splitStringLoop_of_find {i index : Nat} (fuel : Nat) (cont : List Text)
    (hi : i < str.length) (h : find delim str i = some index) :
    splitStringLoop str delim (fuel + 1) i cont =
      splitStringLoop str delim fuel (index + delim.length)
        (cont ++ [substr str i (index - i)]) := by
  rw [splitStringLoop, if_pos hi, h]

/-- A pass that finds none appends a last token. -/
theorem splitStringLoop_of_not_find {i : Nat} (fuel : Nat) (cont : List Text)
    (hi : i < str.length) (h : find delim str i = none) :
    splitStringLoop str delim (fuel + 1) i cont =
      some (cont ++ [substr str i (str.length - 1)]) := by
  rw [splitStringLoop, if_pos hi, h]

/-- The loop ends at the end of the string. -/
theorem splitStringLoop_of_le {i : Nat} (fuel : Nat) (cont : List Text) (hi : str.length ≤ i) :
    splitStringLoop str delim (fuel + 1) i cont = some cont :=
  if_neg (by omega)

/-! ### The passes behind a delimiter -/

/-- From an index behind a delimiter the loop appends the pieces of the rest of the string. -/
theorem splitStringLoop_pieces (str : Text) (hdelim : delim ≠ []) :
    ∀ (k i : Nat), str.length - i ≤ k → 0 < i →
      ∃ tokens, Pieces delim (str.drop i) tokens ∧
        ∀ fuel cont, k < fuel → splitStringLoop str delim fuel i cont = some (cont ++ tokens) := by
  have hpositive : 0 < delim.length := List.length_pos_iff.mpr hdelim
  intro k
  induction k with
  | zero =>
    intro i hk _
    refine ⟨[], ?_, ?_⟩
    · rw [List.drop_eq_nil_of_le (by omega)]
      exact Pieces.none
    · intro fuel cont hfuel
      obtain ⟨fuel, rfl⟩ := Nat.exists_eq_add_of_lt hfuel
      rw [splitStringLoop_of_le _ _ (by omega), List.append_nil]
  | succ k ih =>
    intro i hk hi
    by_cases hend : str.length ≤ i
    · obtain ⟨tokens, hpieces, hloop⟩ := ih i (by omega) hi
      exact ⟨tokens, hpieces, fun fuel cont hfuel => hloop fuel cont (by omega)⟩
    · cases hfind : find delim str i with
      | none =>
        -- the last piece: it begins behind the first character, so the length asked for is enough
        refine ⟨[str.drop i], ?_, ?_⟩
        · refine Pieces.last _ ?_ ((find_eq_none_iff (by omega)).mp hfind)
          intro hnil
          have hlen := List.drop_eq_nil_iff.mp hnil
          omega
        · intro fuel cont hfuel
          obtain ⟨fuel, rfl⟩ := Nat.exists_eq_add_of_lt hfuel
          have hlast : substr str i (str.length - 1) = str.drop i := by
            refine List.take_of_length_le ?_
            rw [List.length_drop]
            omega
          rw [splitStringLoop_of_not_find _ _ (by omega) hfind, hlast]
      | some index =>
        -- a piece, a delimiter and the rest, which is shorter because the delimiter is not empty
        have hle := add_length_le_of_find hfind
        have hge : i ≤ index := (find_eq_some_iff.mp hfind).2.1.1
        obtain ⟨tokens, hpieces, hloop⟩ := ih (index + delim.length) (by omega) (by omega)
        refine ⟨substr str i (index - i) :: tokens, Pieces.of_find hdelim hfind hpieces, ?_⟩
        intro fuel cont hfuel
        obtain ⟨fuel, rfl⟩ := Nat.exists_eq_add_of_lt hfuel
        rw [splitStringLoop_of_find _ _ (by omega) hfind, hloop _ _ (by omega), List.append_assoc]
        rfl

/-! ### A whole string -/

/-- A string with a delimiter is split into its pieces. -/
theorem splitString_of_infix (hdelim : delim ≠ []) (h : delim <:+: str) :
    ∃ tokens, Pieces delim str tokens ∧ ∀ fuel cont, str.length < fuel →
      splitString fuel str cont delim = some (cont ++ tokens) := by
  have hpositive : 0 < delim.length := List.length_pos_iff.mpr hdelim
  have hlen : delim.length ≤ str.length := h.length_le
  cases hfind : find delim str 0 with
  | none => exact absurd h ((find_eq_none_iff (Nat.zero_le _)).mp hfind)
  | some index =>
    have hle := add_length_le_of_find hfind
    obtain ⟨tokens, hpieces, hloop⟩ := splitStringLoop_pieces str hdelim (str.length - 1)
      (index + delim.length) (by omega) (by omega)
    refine ⟨substr str 0 (index - 0) :: tokens, Pieces.of_find hdelim hfind hpieces, ?_⟩
    intro fuel cont hfuel
    obtain ⟨fuel, rfl⟩ := Nat.exists_eq_add_of_lt hfuel
    rw [splitString, splitStringLoop_of_find _ _ (by omega) hfind, hloop _ _ (by omega),
      List.append_assoc]
    rfl

/-- A string without a delimiter is one token, and that has lost the last character. -/
theorem splitString_of_not_infix (hne : str ≠ []) (h : ¬delim <:+: str) (cont : List Text)
    {fuel : Nat} (hfuel : str.length < fuel) :
    splitString fuel str cont delim = some (cont ++ [str.dropLast]) := by
  have hpositive : 0 < str.length := List.length_pos_iff.mpr hne
  obtain ⟨fuel, rfl⟩ := Nat.exists_eq_add_of_lt hfuel
  have hfind : find delim str 0 = none := (find_eq_none_iff (Nat.zero_le _)).mpr h
  rw [splitString, splitStringLoop_of_not_find _ _ hpositive hfind, List.dropLast_eq_take]
  rfl

/-! ### What is lost -/

/-- Nothing is lost: the loop ends, no token has the delimiter in it, and the tokens joined with
the delimiter are the string, or the string up to a delimiter at its end. -/
def KeepsText (str delim : Text) : Prop :=
  ∃ tokens, (∀ fuel cont, str.length < fuel →
      splitString fuel str cont delim = some (cont ++ tokens)) ∧
    (∀ token ∈ tokens, ¬delim <:+: token) ∧
    (str = delim.intercalate tokens ∨ str = delim.intercalate tokens ++ delim)

/-- Pieces lose nothing. -/
theorem KeepsText.of_pieces {tokens : List Text} (hpieces : Pieces delim str tokens)
    (hloop : ∀ fuel cont, str.length < fuel →
      splitString fuel str cont delim = some (cont ++ tokens)) : KeepsText str delim :=
  ⟨tokens, hloop, hpieces.not_infix, hpieces.eq_intercalate⟩

/-- A string without a delimiter loses its last character. -/
theorem not_keepsText (hne : str ≠ []) (h : ¬delim <:+: str) : ¬KeepsText str delim := by
  rintro ⟨tokens, hloop, -, hjoin⟩
  have hrun := splitString_of_not_infix hne h [] (Nat.lt_succ_self _)
  rw [hloop _ [] (Nat.lt_succ_self _)] at hrun
  have htokens : tokens = [str.dropLast] := Option.some.inj hrun
  rw [htokens, List.intercalate_singleton] at hjoin
  have hpositive : 0 < str.length := List.length_pos_iff.mpr hne
  rcases hjoin with heq | heq
  · -- the token is shorter than the string
    have hlen := congrArg List.length heq
    rw [List.length_dropLast] at hlen
    omega
  · exact h ⟨str.dropLast, [], by rw [List.append_nil]; exact heq.symm⟩

/-- Splitting loses nothing if the string is empty or has the delimiter in it, and only then. -/
theorem splitString_keeps_text_iff (str : Text) {delim : Text} (hdelim : delim ≠ []) :
    KeepsText str delim ↔ str = [] ∨ delim <:+: str := by
  constructor
  · intro hkeeps
    by_contra h
    rw [not_or] at h
    exact not_keepsText h.1 h.2 hkeeps
  · rintro (rfl | h)
    · refine KeepsText.of_pieces Pieces.none ?_
      intro fuel cont hfuel
      obtain ⟨fuel, rfl⟩ := Nat.exists_eq_add_of_lt hfuel
      rw [splitString, List.append_nil]
      exact splitStringLoop_of_le _ _ (Nat.le_refl _)
    · obtain ⟨tokens, hpieces, hloop⟩ := splitString_of_infix hdelim h
      exact KeepsText.of_pieces hpieces hloop

/-- A string with the delimiter first, twice in a row and last. -/
theorem splitString_keeps_text_commas : KeepsText ",a,,b,".toList ",".toList :=
  (splitString_keeps_text_iff _ (by decide)).mpr (Or.inr (by decide))

/-- The one token of `ab`, split at commas, is `a`. -/
theorem splitString_loses_last_character : ¬KeepsText "ab".toList ",".toList :=
  not_keepsText (by decide) (by decide)

end Brutils.Proofs.StringUtils
