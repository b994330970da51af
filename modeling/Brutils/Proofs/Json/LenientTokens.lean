import Brutils.Json.Lenient
import Brutils.Proofs.Json.Effects
import Brutils.Proofs.Json.Layout

/-!
# `Brutils.Proofs.Json.LenientTokens`: where the tokens of the grammar end

The grammar of `Brutils.Json.Lenient` says which characters a token has, and the reading
functions of the reader look for its end. For each kind of token there is a lemma from the grammar
to the reader (`readString_of_literal`, `readNumber_of_number`, `readWord_of_run`) and one back
(`literal_of_readString`, `number_of_readNumber`, `run_of_readWord`). What is no token of its
kind is named, too: a string that is not closed, and a sign with no digit behind it.
-/

set_option autoImplicit false

namespace Brutils.Proofs.Json

open Brutils.JsonParser
open Brutils.JsonReader
open Brutils.LenientJson

/-! ### Tokens -/

section
variable {p : Char → Bool} {run s rest : Text}

/-- A run is what the reader takes as one. -/
theorem takeWhile_of_run (h : Run p run rest) : (run ++ rest).takeWhile p = run := by
  obtain ⟨c, tail, rfl, hc⟩ := h.next
  rw [List.takeWhile_append_of_pos h.all, List.takeWhile_cons, if_neg (by simp [hc]),
    List.append_nil]

/-- The parser reads a run of the grammar to its end. -/
theorem readRun_of_run (h : Run p run rest) : readRun p (run ++ rest) = .ok rest := by
  have htake := takeWhile_of_run h
  obtain ⟨c, tail, rfl, hc⟩ := h.next
  have hdrop : (run ++ c :: tail).dropWhile p = c :: tail := by
    rw [List.dropWhile_append_of_pos h.all, List.dropWhile_cons, if_neg (by simp [hc])]
  rw [readRun, htake, hdrop, if_neg (Nat.not_le.mpr h.length), if_neg (by simp)]

/-- What the reader takes is a run. -/
theorem run_of_readRun (h : readRun p s = .ok rest) :
    Run p (s.takeWhile p) rest ∧ s = s.takeWhile p ++ rest := by
  obtain ⟨rfl, hne, hlen⟩ := readRun_ok h
  refine ⟨⟨fun c hc => List.mem_takeWhile_imp hc, hlen, ?_⟩, List.takeWhile_append_dropWhile.symm⟩
  cases hdrop : s.dropWhile p with
  | nil => exact absurd hdrop hne
  | cons c tail =>
    refine ⟨c, tail, rfl, ?_⟩
    -- the first character that is left is the one at which `dropWhile` has stopped
    have hhead := List.head_dropWhile_not p hne
    simpa [hdrop] using hhead

/-- The parser reads a literal of the grammar to its closing quote. -/
theorem readString_of_literal (h : Literal run) :
    readString (run ++ '"' :: rest) = .ok (some rest) :=
  readString_clean ⟨h.quote, h.backslash⟩ h.length

/-- A string that the reader reads, and its closing quote. -/
theorem literal_of_readString (h : readString s = .ok (some rest)) :
    ∃ body, s = body ++ '"' :: rest ∧ Literal body := by
  obtain ⟨body, hs, hclean, hlen, -⟩ := readString_ok h
  exact ⟨body, hs, hclean.1, hclean.2, hlen⟩

/-- Without another quote there is no end to find. -/
theorem readString_of_unclosed (h : '"' ∉ s) : readString s = .ok none := by
  have hfind : findQuote s 0 = none := by
    simp only [findQuote, List.drop_zero, Option.map_eq_none_iff, List.findIdx?_eq_none_iff,
      decide_eq_false_iff_not]
    rintro c hc rfl
    exact h hc
  rw [readString, hfind]

/-! ### Numbers -/

/-- The parser reads an exponent of the grammar. -/
theorem readExponent_of_part (h : ExponentPart s rest) : readExponent s = .ok rest := by
  cases h with
  | @none c s hc =>
    have hmarker : ¬(c = 'e' ∨ c = 'E') := hc
    simp only [readExponent, if_neg hmarker]
  | @plain c digits rest hc hsign hrun =>
    have hread := readRun_of_run hrun
    cases hdigits : digits ++ rest with
    | nil =>
      obtain ⟨d, tail, rfl, -⟩ := hrun.next
      simp at hdigits
    | cons d s =>
      rw [hdigits] at hread hsign
      have hd : d ≠ '-' := fun hd => hsign (by rw [hd, List.head?_cons])
      rw [readExponent, if_pos (by exact hc)]
      show readRun Char.isDigit (if d = '-' then s else d :: s) = .ok rest
      rw [if_neg hd, hread]
  | minus hc hrun =>
    rw [readExponent, if_pos (by exact hc)]
    exact readRun_of_run hrun

/-- What the parser reads for an exponent is one of the grammar. -/
theorem part_of_readExponent (h : readExponent s = .ok rest) : ExponentPart s rest := by
  cases s with
  | nil => cases h
  | cons c s =>
    simp only [readExponent] at h
    split at h
    · rename_i hc
      cases s with
      | nil => cases h
      | cons d s =>
        have hmarker : IsMarker c := hc
        by_cases hd : d = '-'
        · simp only [hd, if_true] at h
          obtain ⟨hrun, hs⟩ := run_of_readRun h
          rw [hd, hs]
          exact .minus hmarker hrun
        · simp only [if_neg hd] at h
          obtain ⟨hrun, hs⟩ := run_of_readRun h
          rw [hs]
          refine .plain hmarker ?_ hrun
          rw [← hs, List.head?_cons]
          exact fun hsome => hd (Option.some.inj hsome)
    · rename_i hc
      obtain rfl := Except.ok.inj h
      exact .none hc

/-- The parser reads a fraction of the grammar. -/
theorem readFraction_of_part (h : FractionPart s rest) : readFraction s = .ok rest := by
  cases h with
  | none hc h => rw [readFraction, if_neg hc, readExponent_of_part h]
  | digits hrun h =>
    rw [readFraction, if_pos rfl, readRun_of_run hrun]
    exact readExponent_of_part h

/-- What the parser reads for a fraction is one of the grammar. -/
theorem part_of_readFraction (h : readFraction s = .ok rest) : FractionPart s rest := by
  cases s with
  | nil => cases h
  | cons c s =>
    rw [readFraction] at h
    split at h
    · rename_i hdot
      cases hrun : readRun Char.isDigit s with
      | error e => rw [hrun] at h; cases h
      | ok t =>
        rw [hrun] at h
        obtain ⟨hrun, hs⟩ := run_of_readRun hrun
        rw [hdot, hs]
        exact .digits hrun (part_of_readExponent h)
    · rename_i hdot
      exact .none hdot (part_of_readExponent h)

/-- The parser reads an unsigned number of the grammar, and it has a value. -/
theorem readUnsigned_of_unsigned (h : Unsigned s rest) : readUnsigned s = .ok (true, rest) := by
  cases h with
  | zero h =>
    rw [readUnsigned, if_pos rfl, readFraction_of_part h]
    rfl
  | @digits c digits s rest hc hrun h =>
    have hread : readRun Char.isDigit (c :: (digits ++ s)) = .ok s := readRun_of_run hrun
    rw [readUnsigned, if_neg hc, if_pos (hrun.all c List.mem_cons_self), hread]
    show (readFraction s).map _ = _
    rw [readFraction_of_part h]
    rfl

/-- After a sign, or without one, there is a number or a character that is no digit. -/
theorem unsigned_of_readUnsigned {valid : Bool} (h : readUnsigned s = .ok (valid, rest)) :
    (valid = true ∧ Unsigned s rest) ∨
      (valid = false ∧ rest = s ∧ ∃ c tail, s = c :: tail ∧ c.isDigit = false) := by
  cases s with
  | nil => cases h
  | cons c s =>
    rw [readUnsigned] at h
    split at h
    · -- a leading zero is the whole integer part
      rename_i hzero
      cases hfrac : readFraction s with
      | error e => rw [hfrac] at h; cases h
      | ok t =>
        rw [hfrac] at h
        obtain ⟨rfl, rfl⟩ := Prod.mk.inj (Except.ok.inj h)
        rw [hzero]
        exact Or.inl ⟨rfl, .zero (part_of_readFraction hfrac)⟩
    · rename_i hzero
      split at h
      · rename_i hdigit
        cases hrun : readRun Char.isDigit (c :: s) with
        | error e => rw [hrun] at h; cases h
        | ok t =>
          rw [hrun] at h
          have hrest : (readFraction t).map (fun rest => (true, rest)) = .ok (valid, rest) := h
          cases hfrac : readFraction t with
          | error e => rw [hfrac] at hrest; cases hrest
          | ok t' =>
            rw [hfrac] at hrest
            obtain ⟨rfl, rfl⟩ := Prod.mk.inj (Except.ok.inj hrest)
            obtain ⟨hdigits, hs⟩ := run_of_readRun hrun
            rw [List.takeWhile_cons, if_pos hdigit] at hdigits hs
            rw [List.cons_append] at hs
            rw [hs]
            exact Or.inl ⟨rfl, .digits hzero hdigits (part_of_readFraction hfrac)⟩
      · rename_i hdigit
        obtain ⟨rfl, rfl⟩ := Prod.mk.inj (Except.ok.inj h)
        exact Or.inr ⟨rfl, rfl, c, s, rfl, by simpa using hdigit⟩

/-- A number begins with a digit or a sign. -/
theorem front_of_unsigned (h : Unsigned s rest) : ∃ c tail, s = c :: tail ∧ c.isDigit := by
  cases h with
  | zero h => exact ⟨'0', _, rfl, by decide⟩
  | @digits c digits s rest hc hrun h => exact ⟨c, _, rfl, hrun.all c List.mem_cons_self⟩

/-- A number of the grammar begins with a digit or a sign. -/
theorem front_of_number (h : Number s rest) :
    ∃ c tail, s = c :: tail ∧ (c.isDigit ∨ c = '-') := by
  cases h with
  | plain h =>
    obtain ⟨c, tail, hs, hc⟩ := front_of_unsigned h
    exact ⟨c, tail, hs, Or.inl hc⟩
  | minus h => exact ⟨'-', _, rfl, Or.inr rfl⟩

/-- The parser reads a number of the grammar, and it has a value. -/
theorem readNumber_of_number (h : Number s rest) : readNumber s = .ok (true, rest) := by
  cases h with
  | plain h =>
    have hread := readUnsigned_of_unsigned h
    obtain ⟨c, tail, rfl, hc⟩ := front_of_unsigned h
    have hsign : c ≠ '-' := by
      rintro rfl
      exact absurd hc (by decide)
    rw [readNumber, if_neg hsign, hread]
  | minus h => rw [readNumber, if_pos rfl, readUnsigned_of_unsigned h]

/-- What the reader makes of a digit or a sign: a number, or a sign without one. -/
theorem number_of_readNumber {c : Char} {valid : Bool} (hc : c.isDigit ∨ c = '-')
    (h : readNumber (c :: s) = .ok (valid, rest)) :
    (valid = true ∧ Number (c :: s) rest) ∨
      (valid = false ∧ rest = s ∧ c = '-' ∧ ∃ d tail, s = d :: tail ∧ d.isDigit = false) := by
  rw [readNumber] at h
  split at h
  · rename_i hsign
    rcases unsigned_of_readUnsigned h with ⟨hvalid, hnumber⟩ | ⟨hvalid, hrest, hnone⟩
    · rw [hsign]
      exact Or.inl ⟨hvalid, .minus hnumber⟩
    · exact Or.inr ⟨hvalid, hrest, hsign, hnone⟩
  · rename_i hsign
    have hdigit : c.isDigit := hc.resolve_right hsign
    rcases unsigned_of_readUnsigned h with ⟨hvalid, hnumber⟩ | ⟨-, -, d, tail, hs, hd⟩
    · exact Or.inl ⟨hvalid, .plain hnumber⟩
    -- a digit begins a number
    · rw [← (List.cons.inj hs).1, hdigit] at hd
      cases hd

/-! ### Words -/

/-- The words with a value are the literal names of the grammar. -/
theorem isWord_iff (word : Text) : isWord word = true ↔ IsLiteralName word := by
  unfold isWord IsLiteralName
  exact decide_eq_true_iff

/-- The parser reads a run of letters, and asks whether it is a literal name. -/
theorem readWord_of_run (h : Run Char.isAlpha run rest) :
    readWord (run ++ rest) = .ok (isWord run, rest) := by
  rw [readWord, readRun_of_run h, takeWhile_of_run h]
  rfl

/-- What the reader makes of a letter. -/
theorem run_of_readWord {valid : Bool} (h : readWord s = .ok (valid, rest)) :
    ∃ word, s = word ++ rest ∧ Run Char.isAlpha word rest ∧ valid = isWord word := by
  unfold readWord at h
  cases hrun : readRun Char.isAlpha s with
  | error e => rw [hrun] at h; cases h
  | ok t =>
    rw [hrun] at h
    obtain ⟨rfl, rfl⟩ := Prod.mk.inj (Except.ok.inj h)
    obtain ⟨hword, hs⟩ := run_of_readRun hrun
    exact ⟨_, hs, hword, rfl⟩

end

end Brutils.Proofs.Json
