import Brutils.Json.Reader
import Mathlib.Data.List.DropRight

/-!
# `Brutils.Proofs.Json.Tokens`: the leaf routines read what the reader reads

For each token the reader has a function that says where the token ends, and the parser has
a routine that also builds a value. The theorems here run the routine from that answer:
`parseString_of_readString`, `parseNumber_of_readNumber`, `parseLiteral_of_readWord`, and
the ways each of them can stop.

`stopOf` is the way the parser stops where the reader cannot go on. A string at which the
reader is stuck with `spins` makes `parseString` run out of every amount of fuel: its search loop goes
on from the quote it has just found.
-/

set_option autoImplicit false

namespace Brutils.Proofs.Json

open Brutils.JsonParser
open Brutils.JsonReader (Stuck Frame afterValue stepKey readString readRun readExponent
  readFraction readUnsigned readNumber isWord readWord)

/-- How the parser stops where the reader cannot go on. -/
def stopOf : Stuck → Stop
  | .endOfText => .outOfRange
  | .tooLong => .intRange
  | .spins => .outOfFuel

/-! ### Whitespace -/

/-- There is no white space in the empty text. -/
@[simp] theorem skipSpace_nil : skipSpace [] = [] := rfl

/-- Nothing is skipped before another character. -/
theorem skipSpace_cons_of_not {c : Char} (h : isSpace c = false) (s : Text) :
    skipSpace (c :: s) = c :: s := by
  simp [skipSpace, h]

/-- What is left does not start with white space. -/
@[simp] theorem skipSpace_skipSpace (s : Text) : skipSpace (skipSpace s) = skipSpace s :=
  List.dropWhile_idempotent isSpace s

/-- Where white space has been removed there is none to remove. -/
theorem skipSpace_eq_self {s t : Text} (h : skipSpace s = t) : skipSpace t = t := by
  rw [← h, skipSpace_skipSpace]

/-- Skipping does not make the text longer. -/
theorem length_skipSpace_le (s : Text) : (skipSpace s).length ≤ s.length :=
  (List.dropWhile_suffix _).length_le

/-- A digit is not white space. -/
theorem isSpace_of_isDigit {c : Char} (h : c.isDigit) : isSpace c = false := by
  rw [← Bool.not_eq_true]
  intro hspace
  simp only [isSpace, decide_eq_true_eq] at hspace
  rcases hspace with rfl | rfl | rfl | rfl | rfl | rfl <;> exact absurd h (by decide)

/-- A letter is not white space. -/
theorem isSpace_of_isAlpha {c : Char} (h : c.isAlpha) : isSpace c = false := by
  rw [← Bool.not_eq_true]
  intro hspace
  simp only [isSpace, decide_eq_true_eq] at hspace
  rcases hspace with rfl | rfl | rfl | rfl | rfl | rfl <;> exact absurd h (by decide)

/-! ### Strings -/

/-- The limit of an `int` is positive. -/
theorem intLimit_pos : 0 < intLimit := Nat.two_pow_pos 31

/-- A length below the limit is its own `int`. -/
theorem toInt_of_lt {n : Nat} (h : n < intLimit) : toInt n = .ok n := if_pos h

/-- From the limit on the conversion leaves what the language defines. -/
theorem toInt_of_le {n : Nat} (h : intLimit ≤ n) : toInt n = .error .intRange :=
  if_neg (by omega)

/-- From the quote it has found, the search finds the same quote again. -/
theorem findQuote_self {s : Text} {n : Nat} (h : findQuote s 0 = some n) :
    findQuote s n = some n := by
  simp only [findQuote, List.drop_zero, Option.map_eq_some_iff, Nat.add_zero, exists_eq_right]
    at h
  obtain ⟨hn, hquote, -⟩ := List.findIdx?_eq_some_iff_getElem.mp h
  simp only [findQuote, Option.map_eq_some_iff]
  -- dropping `n` characters puts the quote first
  refine ⟨0, ?_, Nat.zero_add n⟩
  rw [List.drop_eq_getElem_cons hn, List.findIdx?_cons, if_pos hquote]

/-- The search never ends at a quote after a backslash. -/
theorem searchQuote_spins {s : Text} {n : Nat} (hlen : n < intLimit) (hpos : n ≠ 0)
    (hback : s[n - 1]? = some '\\') (fuel continueIndex : Nat)
    (h : findQuote s continueIndex = some n) (hself : findQuote s n = some n) :
    searchQuote s fuel continueIndex = .error .outOfFuel := by
  induction fuel generalizing continueIndex with
  | zero => rfl
  | succ fuel ih =>
    simp only [searchQuote, h, toInt_of_lt hlen]
    show (if n = 0 then _ else if s[n - 1]? = some '\\' then _ else _) = _
    -- the next pass begins at the quote that has just been found
    rw [if_neg hpos, if_pos hback]
    exact ih n hself

section
variable {s rest : Text} {l : List Routine}

/-- What the search makes of a string, by the answer of the reader. -/
theorem searchQuote_of_readString (fuel : Nat) :
    match readString s with
    | .ok (some rest) => ∃ size, searchQuote s (fuel + 1) 0 = .ok (some size) ∧
        size + 1 < intLimit ∧ findQuote s 0 = some size ∧ rest = s.drop (size + 1)
    | .ok none => searchQuote s (fuel + 1) 0 = .ok none
    | .error .tooLong => searchQuote s (fuel + 1) 0 = .error .intRange ∨
        ∃ size, searchQuote s (fuel + 1) 0 = .ok (some size) ∧ intLimit ≤ size + 1
    | .error _ => searchQuote s (fuel + 1) 0 = .error .outOfFuel := by
  cases hfind : findQuote s 0 with
  | none => simp only [readString, hfind, searchQuote]
  | some size =>
    simp only [readString, hfind]
    -- `size` is an `int`, so the first thing that can go wrong is its range
    by_cases hlong : intLimit ≤ size
    · simp only [if_pos hlong]
      exact Or.inl (by simp only [searchQuote, hfind, toInt_of_le hlong]; rfl)
    · rw [if_neg hlong]
      by_cases hback : size ≠ 0 ∧ s[size - 1]? = some '\\'
      · simp only [if_pos hback]
        exact searchQuote_spins (by omega) hback.1 hback.2 _ 0 hfind (findQuote_self hfind)
      · have hsearch : searchQuote s (fuel + 1) 0 = .ok (some size) := by
          simp only [searchQuote, hfind, toInt_of_lt (by omega : size < intLimit)]
          show (if size = 0 then _ else if s[size - 1]? = some '\\' then _ else _) = _
          split
          · rfl
          · rename_i hpos
            rw [if_neg fun hb => hback ⟨hpos, hb⟩]
            rfl
        rw [if_neg hback]
        -- the search is over, but `remove_prefix` takes `size + 1`
        by_cases hsucc : intLimit ≤ size + 1
        · simp only [if_pos hsucc]
          exact Or.inr ⟨size, hsearch, hsucc⟩
        · simp only [if_neg hsucc]
          exact ⟨size, hsearch, by omega, rfl, rfl⟩

/-- A string with its closing quote. -/
theorem parseString_of_readString (h : readString s = .ok (some rest)) (fuel : Nat) :
    parseString (fuel + 1) ⟨'"' :: s, l⟩
      = .ok (.string (s.take ((findQuote s 0).getD 0)), ⟨skipSpace rest, l⟩) := by
  have hsearch := searchQuote_of_readString (s := s) fuel
  rw [h] at hsearch
  obtain ⟨size, hsize, hlt, hfind, hrest⟩ := hsearch
  simp [parseString, skipSpace_cons_of_not (show isSpace '"' = false from rfl), hsize,
    toInt_of_lt hlt, hfind, hrest]

/-- A string without a closing quote. -/
theorem parseString_of_unterminated (h : readString s = .ok none) (fuel : Nat) :
    parseString (fuel + 1) ⟨'"' :: s, l⟩ = .ok (.invalid, ⟨s, .parseString :: l⟩) := by
  have hsearch := searchQuote_of_readString (s := s) fuel
  rw [h] at hsearch
  simp only at hsearch
  simp [parseString, skipSpace_cons_of_not (show isSpace '"' = false from rfl), hsearch]

/-- A string at which the reader is stuck. -/
theorem parseString_of_stuck {e : Stuck} (h : readString s = .error e) (fuel : Nat) :
    parseString (fuel + 1) ⟨'"' :: s, l⟩ = .error (stopOf e) := by
  -- a string never makes the reader run into the end of the text
  have hkind : e = .tooLong ∨ e = .spins := by
    unfold readString at h
    split at h
    · cases h
    · repeat' split at h
      all_goals simp_all
  have hsearch := searchQuote_of_readString (s := s) fuel
  rw [h] at hsearch
  rcases hkind with rfl | rfl
  · rcases hsearch with hsearch | ⟨size, hsearch, hlong⟩
    · simp [parseString, skipSpace_cons_of_not (show isSpace '"' = false from rfl), hsearch,
        stopOf]
    · simp [parseString, skipSpace_cons_of_not (show isSpace '"' = false from rfl), hsearch,
        toInt_of_le hlong, stopOf]
  · simp only at hsearch
    simp [parseString, skipSpace_cons_of_not (show isSpace '"' = false from rfl), hsearch,
      stopOf]

/-- Without fuel `parseString` stops after the opening quote. -/
theorem parseString_zero : parseString 0 ⟨'"' :: s, l⟩ = .error .outOfFuel := by
  simp [parseString, skipSpace_cons_of_not (show isSpace '"' = false from rfl), searchQuote]
/-- Behind a key the reader needs a character. -/
theorem stepKey_of_end (stack : List Frame) (l : List Routine)
    (hread : readString s = .ok (some rest)) (hrest : skipSpace rest = []) :
    stepKey stack l s = .error .endOfText := by
  rw [stepKey, hread]
  simp only [bind, Except.bind, hrest]

/-- Behind a key the reader goes on by whether the next character is a colon. -/
theorem stepKey_of_next (stack : List Frame) (l : List Routine) {c : Char} {rest' : Text}
    (hread : readString s = .ok (some rest)) (hrest : skipSpace rest = c :: rest') :
    stepKey stack l s
      = .ok (if c = ':' then ⟨.value, .object :: stack, skipSpace rest', l⟩
        else afterValue stack (c :: rest') (.parseObject :: l) true) := by
  rw [stepKey, hread]
  simp only [bind, Except.bind, hrest]
  split <;> rfl

end

/-! ### Runs of one character class -/

/-- `scan` from a count on: it counts the run, unless the count leaves `int` or the text ends
with the run. -/
theorem scan_eq (p : Char → Bool) (s : Text) (size : Nat) (hsize : size < intLimit) :
    scan p size s
      = if intLimit ≤ size + (s.takeWhile p).length then .error .intRange
        else if s.dropWhile p = [] then .error .outOfRange
        else .ok (size + (s.takeWhile p).length) := by
  induction s generalizing size with
  | nil => simp [scan, Nat.not_le.mpr hsize]
  | cons c s ih =>
    by_cases hc : p c
    · simp only [scan, hc, if_true, List.takeWhile_cons, List.dropWhile_cons, List.length_cons]
      -- the count of the rest begins one higher, so both bounds move by one
      by_cases hlast : size + 1 < intLimit
      · rw [toInt_of_lt hlast]
        show scan p (size + 1) s = _
        rw [ih (size + 1) hlast, Nat.add_right_comm, Nat.add_assoc]
      · rw [toInt_of_le (by omega), if_pos (by omega)]
        rfl
    · simp [scan, hc, Nat.not_le.mpr hsize]

/-- `scan` from the beginning of a run. -/
theorem scan_zero (p : Char → Bool) (s : Text) :
    scan p 0 s = match readRun p s with
      | .ok _ => .ok (s.takeWhile p).length
      | .error e => .error (stopOf e) := by
  rw [scan_eq p s 0 intLimit_pos]
  unfold readRun
  simp only [Nat.zero_add]
  split
  · rfl
  · split <;> rfl

/-- A run that is read ends before the text does, and its length fits an `int`. -/
theorem readRun_ok {p : Char → Bool} {s rest : Text} (h : readRun p s = .ok rest) :
    rest = s.dropWhile p ∧ s.dropWhile p ≠ [] ∧ (s.takeWhile p).length < intLimit := by
  unfold readRun at h
  split at h
  · cases h
  · split at h
    · cases h
    -- the two tests have failed, in the order in which `readRun` makes them
    · rename_i hlong hend
      exact ⟨(Except.ok.inj h).symm, hend, by omega⟩

/-! ### Numbers -/

/-- The second loop of `parseInt` goes through the digits. -/
theorem sumDigits_eq (strLength : Nat) (s : Text) (i val : Nat)
    (h : s.dropWhile Char.isDigit ≠ []) :
    ∃ v, sumDigits strLength i val s = .ok (v, s.dropWhile Char.isDigit) := by
  induction s generalizing i val with
  | nil => exact absurd rfl h
  | cons c s ih =>
    by_cases hc : c.isDigit
    · simp only [List.dropWhile_cons, hc, if_true, sumDigits] at h ⊢
      exact ih _ _ h
    · simp [sumDigits, hc]

/-- `parseInt` reads a run of digits. -/
theorem parseInt_eq (s : Text) (l : List Routine) :
    match readRun Char.isDigit s with
    | .ok rest => ∃ v, parseInt ⟨s, l⟩ = .ok (v, ⟨rest, l⟩)
    | .error e => parseInt ⟨s, l⟩ = .error (stopOf e) := by
  cases h : readRun Char.isDigit s with
  | error e => simp [parseInt, scan_zero, h]
  | ok rest =>
    obtain ⟨hrest, hend, -⟩ := readRun_ok h
    -- the first loop has shown that the second does not come to the end of the text
    obtain ⟨v, hv⟩ := sumDigits_eq (s.takeWhile Char.isDigit).length s 0 0 hend
    exact ⟨v, by simp [parseInt, scan_zero, h, hv, hrest]⟩

/-- `sumFraction` from a count on: it goes through the digits, unless the count leaves `int`
or the text ends with the digits. -/
theorem sumFraction_eq (s : Text) (i : Nat) (val : ℚ) (hi : i < intLimit) :
    if intLimit ≤ i + (s.takeWhile Char.isDigit).length then
      sumFraction i val s = .error .intRange
    else if s.dropWhile Char.isDigit = [] then sumFraction i val s = .error .outOfRange
    else ∃ v, sumFraction i val s = .ok (v, s.dropWhile Char.isDigit) := by
  induction s generalizing i val with
  | nil => simp [sumFraction, Nat.not_le.mpr hi]
  | cons c s ih =>
    by_cases hc : c.isDigit
    · simp only [sumFraction, hc, if_true, List.takeWhile_cons, List.dropWhile_cons,
        List.length_cons]
      by_cases hlast : i + 1 < intLimit
      -- the value built so far plays no part in where the loop ends
      · have hrec := ih (i + 1) (val + digit c / 10 ^ (i + 1)) hlast
        rw [Nat.add_right_comm, Nat.add_assoc] at hrec
        rw [toInt_of_lt hlast]
        exact hrec
      · rw [toInt_of_le (by omega), if_pos (by omega)]
        rfl
    · simp [sumFraction, hc, Nat.not_le.mpr hi]

/-- `parseAfterInt` reads a run of digits. -/
theorem parseAfterInt_eq (s : Text) (l : List Routine) :
    match readRun Char.isDigit s with
    | .ok rest => ∃ v, parseAfterInt ⟨s, l⟩ = .ok (v, ⟨rest, l⟩)
    | .error e => parseAfterInt ⟨s, l⟩ = .error (stopOf e) := by
  have hsum := sumFraction_eq s 0 0 intLimit_pos
  simp only [Nat.zero_add] at hsum
  unfold readRun
  by_cases hlong : intLimit ≤ (s.takeWhile Char.isDigit).length
  · rw [if_pos hlong] at hsum
    simp [hlong, parseAfterInt, hsum, stopOf]
  · rw [if_neg hlong] at hsum
    by_cases hend : s.dropWhile Char.isDigit = []
    · rw [if_pos hend] at hsum
      simp [hlong, hend, parseAfterInt, hsum, stopOf]
    · rw [if_neg hend] at hsum
      obtain ⟨v, hv⟩ := hsum
      simp only [if_neg hlong, if_neg hend]
      exact ⟨v, by simp [parseAfterInt, hv]⟩

/-- `parseExponent` reads an exponent. -/
theorem parseExponent_eq (s : Text) (l : List Routine) (number : ℚ) :
    match readExponent s with
    | .ok rest => ∃ q, parseExponent number ⟨s, l⟩ = .ok (q, ⟨rest, l⟩)
    | .error e => parseExponent number ⟨s, l⟩ = .error (stopOf e) := by
  cases s with
  | nil => simp [readExponent, parseExponent, stopOf]
  | cons c s =>
    by_cases hc : c = 'e' ∨ c = 'E'
    · cases s with
      | nil => simp [readExponent, parseExponent, hc, stopOf]
      | cons d s =>
        -- with or without a sign the digits after it are a run of their own
        by_cases hd : d = '-'
        · have hint := parseInt_eq s l
          simp only [readExponent, if_pos hc, if_pos hd]
          cases hrun : readRun Char.isDigit s with
          | error e =>
            rw [hrun] at hint
            simp [parseExponent, hc, hd, hint]
          | ok rest =>
            rw [hrun] at hint
            obtain ⟨v, hv⟩ := hint
            exact ⟨number / 10 ^ v, by simp [parseExponent, hc, hd, hv]⟩
        · have hint := parseInt_eq (d :: s) l
          simp only [readExponent, if_pos hc, if_neg hd]
          cases hrun : readRun Char.isDigit (d :: s) with
          | error e =>
            rw [hrun] at hint
            simp [parseExponent, hc, hd, hint]
          | ok rest =>
            rw [hrun] at hint
            obtain ⟨v, hv⟩ := hint
            exact ⟨number * 10 ^ v, by simp [parseExponent, hc, hd, hv]⟩
    · simp only [readExponent, if_neg hc]
      exact ⟨number, by simp [parseExponent, hc]⟩

/-- `parseAfterNumber` reads a fraction and an exponent. The routine removes whitespace in
one of its two exits. -/
theorem parseAfterNumber_eq (s : Text) (l : List Routine) (coeff number : ℚ) :
    match readFraction s with
    | .ok rest => ∃ q r, parseAfterNumber coeff number ⟨s, l⟩ = .ok (.float q, ⟨r, l⟩) ∧
        skipSpace r = skipSpace rest ∧ r.length ≤ rest.length
    | .error e => parseAfterNumber coeff number ⟨s, l⟩ = .error (stopOf e) := by
  cases s with
  | nil => simp [readFraction, parseAfterNumber, stopOf]
  | cons c s =>
    by_cases hdot : c = '.'
    · subst hdot
      have hafter := parseAfterInt_eq s l
      simp only [readFraction, if_true]
      cases hrun : readRun Char.isDigit s with
      | error e =>
        rw [hrun] at hafter
        show parseAfterNumber coeff number _ = _
        simp [parseAfterNumber, hafter]
      | ok rest =>
        rw [hrun] at hafter
        obtain ⟨v, hv⟩ := hafter
        have hexp := parseExponent_eq rest l (number + v)
        show (match readExponent rest with | .ok rest => _ | .error e => _)
        cases hread : readExponent rest with
        | error e =>
          rw [hread] at hexp
          simp [parseAfterNumber, hv, hexp]
        | ok rest' =>
          rw [hread] at hexp
          obtain ⟨q, hq⟩ := hexp
          exact ⟨q * coeff, rest', by simp [parseAfterNumber, hv, hq], rfl, le_refl _⟩
    · simp only [readFraction, if_neg hdot]
      by_cases hc : c = 'e' ∨ c = 'E'
      -- no fraction, but an exponent directly after the integer part
      · have hexp := parseExponent_eq (c :: s) l number
        have henter : ¬c = 'e' → c = 'E' := hc.resolve_left
        cases hread : readExponent (c :: s) with
        | error e =>
          rw [hread] at hexp
          simp [parseAfterNumber, hdot, hc, hexp, imp_iff_not_or]
        | ok rest =>
          rw [hread] at hexp
          obtain ⟨q, hq⟩ := hexp
          exact ⟨q * coeff, rest, by simp +contextual [parseAfterNumber, hdot, hq, henter], rfl,
            le_refl _⟩
      -- neither: the exit that removes whitespace
      · obtain ⟨he, hE⟩ := not_or.mp hc
        simp only [readExponent, if_neg hc]
        exact ⟨number, skipSpace (c :: s), by simp [parseAfterNumber, hdot, he, hE],
          skipSpace_skipSpace _, length_skipSpace_le _⟩

/-- `parseUnsigned` reads a number after its sign. -/
theorem parseUnsigned_eq (s : Text) (l : List Routine) (coeff : ℚ) :
    match readUnsigned s with
    | .ok (true, rest) => ∃ q r, parseUnsigned coeff ⟨s, l⟩ = .ok (.float q, ⟨r, l⟩) ∧
        skipSpace r = skipSpace rest ∧ r.length ≤ rest.length
    | .ok (false, rest) => parseUnsigned coeff ⟨s, l⟩ = .ok (.invalid, ⟨rest, .parseNumber :: l⟩)
    | .error e => parseUnsigned coeff ⟨s, l⟩ = .error (stopOf e) := by
  cases s with
  | nil => simp [readUnsigned, parseUnsigned, stopOf]
  | cons c s =>
    by_cases hzero : c = '0'
    · subst hzero
      have hafter := parseAfterNumber_eq s l coeff 0
      simp only [readUnsigned, if_true]
      cases hread : readFraction s with
      | error e =>
        rw [hread] at hafter
        simp [parseUnsigned, hafter]
      | ok rest =>
        rw [hread] at hafter
        obtain ⟨q, r, hq, hr⟩ := hafter
        exact ⟨q, r, by simp [parseUnsigned, hq], hr⟩
    · by_cases hc : c.isDigit
      · have hint := parseInt_eq (c :: s) l
        simp only [readUnsigned, if_neg hzero, if_pos hc]
        cases hrun : readRun Char.isDigit (c :: s) with
        | error e =>
          rw [hrun] at hint
          show parseUnsigned coeff _ = _
          simp [parseUnsigned, hzero, hc, hint]
        | ok rest =>
          rw [hrun] at hint
          obtain ⟨v, hv⟩ := hint
          have hafter := parseAfterNumber_eq rest l coeff v
          -- the integer part has been read, and the rest is a fraction
          show (match (readFraction rest).map fun rest => (true, rest) with
            | .ok (true, rest) => _ | .ok (false, rest) => _ | .error e => _)
          cases hread : readFraction rest with
          | error e =>
            rw [hread] at hafter
            show parseUnsigned coeff _ = _
            simp [parseUnsigned, hzero, hc, hv, hafter]
          | ok rest' =>
            rw [hread] at hafter
            obtain ⟨q, r, hq, hr⟩ := hafter
            exact ⟨q, r, by simp [parseUnsigned, hzero, hc, hv, hq], hr⟩
      · simp [readUnsigned, parseUnsigned, hzero, hc]

/-- `parseNumber` reads a number that begins with a digit or a sign. -/
theorem parseNumber_eq {c : Char} (hc : c.isDigit ∨ c = '-') (s : Text) (l : List Routine) :
    match readNumber (c :: s) with
    | .ok (true, rest) => ∃ q r, parseNumber ⟨c :: s, l⟩ = .ok (.float q, ⟨r, l⟩) ∧
        skipSpace r = skipSpace rest ∧ r.length ≤ rest.length
    | .ok (false, rest) => parseNumber ⟨c :: s, l⟩ = .ok (.invalid, ⟨rest, .parseNumber :: l⟩)
    | .error e => parseNumber ⟨c :: s, l⟩ = .error (stopOf e) := by
  by_cases hsign : c = '-'
  · subst hsign
    have hrun : parseNumber ⟨'-' :: s, l⟩ = parseUnsigned (-1) ⟨s, l⟩ := by
      simp [parseNumber, skipSpace_cons_of_not (show isSpace '-' = false from rfl)]
    rw [hrun]
    exact parseUnsigned_eq s l (-1)
  · have hspace : isSpace c = false := isSpace_of_isDigit (hc.resolve_right hsign)
    have hrun : parseNumber ⟨c :: s, l⟩ = parseUnsigned 1 ⟨c :: s, l⟩ := by
      simp [parseNumber, skipSpace_cons_of_not hspace, hsign]
    rw [hrun, readNumber, if_neg hsign]
    exact parseUnsigned_eq (c :: s) l 1

/-! ### Words -/

/-- The words with a value are `true`, `false` and `null`. -/
theorem wordValue_isValid (word : Text) : (wordValue word).isValid = isWord word := by
  unfold wordValue isWord
  by_cases htrue : word = "true".toList
  · rw [if_pos htrue, decide_eq_true (Or.inl htrue)]
    rfl
  · by_cases hfalse : word = "false".toList
    · rw [if_neg htrue, if_pos hfalse, decide_eq_true (Or.inr (Or.inl hfalse))]
      rfl
    · by_cases hnull : word = "null".toList
      · rw [if_neg htrue, if_neg hfalse, if_pos hnull, decide_eq_true (Or.inr (Or.inr hnull))]
        rfl
      · rw [if_neg htrue, if_neg hfalse, if_neg hnull,
          decide_eq_false (not_or.mpr ⟨htrue, not_or.mpr ⟨hfalse, hnull⟩⟩)]
        rfl

/-- `parseLiteral` reads a word. -/
theorem parseLiteral_eq {c : Char} (hc : c.isAlpha) (s : Text) (l : List Routine) :
    match readWord (c :: s) with
    | .ok (true, rest) => parseLiteral ⟨c :: s, l⟩
        = .ok (wordValue ((c :: s).takeWhile Char.isAlpha), ⟨skipSpace rest, l⟩)
    | .ok (false, rest) => parseLiteral ⟨c :: s, l⟩
        = .ok (.invalid, ⟨skipSpace rest, .parseLiteral :: l⟩)
    | .error e => parseLiteral ⟨c :: s, l⟩ = .error (stopOf e) := by
  have hspace := skipSpace_cons_of_not (isSpace_of_isAlpha hc) s
  have hscan := scan_zero Char.isAlpha (c :: s)
  unfold readWord
  cases hrun : readRun Char.isAlpha (c :: s) with
  | error e =>
    rw [hrun] at hscan
    simp [parseLiteral, hspace, hc, hscan]
  | ok rest =>
    rw [hrun] at hscan
    obtain ⟨hrest, -, -⟩ := readRun_ok hrun
    have htake : (c :: s).take ((c :: s).takeWhile Char.isAlpha).length
        = (c :: s).takeWhile Char.isAlpha :=
      (List.prefix_iff_eq_take.mp (List.takeWhile_prefix _)).symm
    -- the routine drops as many characters as it has counted
    have hdrop : (c :: s).drop ((c :: s).takeWhile Char.isAlpha).length
        = (c :: s).dropWhile Char.isAlpha := by
      have happ : (c :: s).takeWhile Char.isAlpha ++ (c :: s).dropWhile Char.isAlpha = c :: s :=
        List.takeWhile_append_dropWhile
      conv_lhs => arg 2; rw [← happ]
      exact List.drop_left
    have hrun : parseLiteral ⟨c :: s, l⟩
        = if isWord ((c :: s).takeWhile Char.isAlpha) then
            .ok (wordValue ((c :: s).takeWhile Char.isAlpha), ⟨skipSpace rest, l⟩)
          else .ok (.invalid, ⟨skipSpace rest, .parseLiteral :: l⟩) := by
      simp only [parseLiteral, bind_apply, removeWhitespace_apply, hspace, front_cons,
        ite_run, hc, if_true, view_apply, hscan, map_ok, removePrefix_apply, htake, hdrop,
        wordValue_isValid, pure_apply, giveUp_apply, hrest]
    rw [hrun]
    cases isWord ((c :: s).takeWhile Char.isAlpha) <;> simp

/-- `parseLiteral` does not read a character that is not a letter. -/
theorem parseLiteral_of_not_alpha {c : Char} (hc : c.isAlpha = false) (hspace : isSpace c = false)
    (s : Text) (l : List Routine) :
    parseLiteral ⟨c :: s, l⟩ = .ok (.invalid, ⟨c :: s, .parseLiteral :: l⟩) := by
  simp [parseLiteral, skipSpace_cons_of_not hspace, hc]

/-! ### What the reader leaves -/

/-- What follows a string is no longer than the text behind its opening quote. -/
theorem length_of_readString {s rest : Text} (h : readString s = .ok (some rest)) :
    rest.length ≤ s.length := by
  have hsearch := searchQuote_of_readString (s := s) 0
  rw [h] at hsearch
  obtain ⟨size, -, -, -, rfl⟩ := hsearch
  rw [List.length_drop]
  omega

/-- What follows a run is no longer than the text. -/
theorem length_of_readRun {p : Char → Bool} {s rest : Text} (h : readRun p s = .ok rest) :
    rest.length ≤ s.length := by
  rw [(readRun_ok h).1]
  exact (List.dropWhile_suffix p).length_le

/-- A run whose first character is in the class is not empty. -/
theorem length_of_readRun_cons {p : Char → Bool} {c : Char} {s rest : Text} (hc : p c)
    (h : readRun p (c :: s) = .ok rest) : rest.length ≤ s.length := by
  rw [(readRun_ok h).1, List.dropWhile_cons, if_pos hc]
  exact (List.dropWhile_suffix p).length_le

/-- What follows an exponent is no longer than the text. -/
theorem length_of_readExponent {s rest : Text} (h : readExponent s = .ok rest) :
    rest.length ≤ s.length := by
  unfold readExponent at h
  split at h
  · cases h
  · split at h
    · split at h
      · cases h
      · have hrun := length_of_readRun h
        split at hrun <;> simp only [List.length_cons] at hrun ⊢ <;> omega
    · rw [← Except.ok.inj h]

/-- What follows a fraction is no longer than the text. -/
theorem length_of_readFraction {s rest : Text} (h : readFraction s = .ok rest) :
    rest.length ≤ s.length := by
  unfold readFraction at h
  split at h
  · cases h
  · split at h
    · rename_i c s _
      cases hrun : readRun Char.isDigit s with
      | error e => rw [hrun] at h; cases h
      | ok rest' =>
        rw [hrun] at h
        have hexp := length_of_readExponent h
        have hlen := length_of_readRun hrun
        simp only [List.length_cons]
        omega
    · exact length_of_readExponent h

/-- A number takes a character, and a failed attempt takes none. -/
theorem length_of_readUnsigned {s rest : Text} {valid : Bool}
    (h : readUnsigned s = .ok (valid, rest)) : rest.length + valid.toNat ≤ s.length := by
  cases s with
  | nil => cases h
  | cons c s =>
    simp only [readUnsigned] at h
    split at h
    · cases hfrac : readFraction s with
      | error e => rw [hfrac] at h; cases h
      | ok rest' =>
        rw [hfrac] at h
        obtain ⟨rfl, rfl⟩ := Prod.mk.inj (Except.ok.inj h)
        exact Nat.succ_le_succ (length_of_readFraction hfrac)
    · split at h
      · rename_i hc
        cases hrun : readRun Char.isDigit (c :: s) with
        | error e => rw [hrun] at h; cases h
        | ok rest' =>
          have hlen := length_of_readRun_cons hc hrun
          rw [hrun] at h
          cases hfrac : readFraction rest' with
          | error e =>
            have h : (readFraction rest').map (fun rest => (true, rest)) = .ok (valid, rest) := h
            rw [hfrac] at h
            cases h
          | ok rest'' =>
            have h : (readFraction rest').map (fun rest => (true, rest)) = .ok (valid, rest) := h
            rw [hfrac] at h
            obtain ⟨rfl, rfl⟩ := Prod.mk.inj (Except.ok.inj h)
            exact Nat.succ_le_succ ((length_of_readFraction hfrac).trans hlen)
      · obtain ⟨rfl, rfl⟩ := Prod.mk.inj (Except.ok.inj h)
        exact le_refl _

/-- What follows a number with a value is shorter than the text, and after one without it is no
longer. -/
theorem length_of_readNumber {c : Char} {s rest : Text} {valid : Bool}
    (h : readNumber (c :: s) = .ok (valid, rest)) :
    rest.length + valid.toNat ≤ (c :: s).length := by
  rw [readNumber] at h
  have hlen := length_of_readUnsigned h
  split at hlen
  · exact hlen.trans (Nat.le_succ _)
  · exact hlen

/-- What follows a word is shorter than the text. -/
theorem length_of_readWord {c : Char} {s rest : Text} {valid : Bool} (hc : c.isAlpha)
    (h : readWord (c :: s) = .ok (valid, rest)) : rest.length ≤ s.length := by
  unfold readWord at h
  cases hrun : readRun Char.isAlpha (c :: s) with
  | error e => rw [hrun] at h; cases h
  | ok rest' =>
    rw [hrun] at h
    obtain ⟨-, rfl⟩ := Prod.mk.inj (Except.ok.inj h)
    exact length_of_readRun_cons hc hrun

end Brutils.Proofs.Json
