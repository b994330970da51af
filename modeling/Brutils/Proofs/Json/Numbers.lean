import Brutils.Json.Number
import Brutils.Proofs.Json.Tokens
import Mathlib.Tactic.FieldSimp
import Mathlib.Tactic.Linarith
import Mathlib.Tactic.Ring

/-!
# `Brutils.Proofs.Json.Numbers`: which numbers are read with their value

`parseNumber` computes the value of the digits, of the fraction and of the exponent as it
should (`parseInt_digits`, `parseAfterInt_digits`). It goes wrong in two places:

* A number without a fraction and without an exponent is returned before it is multiplied by
  `coeff`. So `-5` is read as 5.
* `parseInt` reads no sign, and only a `-` is taken away before it. So the `+` of `1e+5` ends
  the number, whose exponent is then 0.

The counts of digits are `int`s. `ReadWithValue` lists what is left, and `number_read_iff`
says that it is exact.
-/

set_option autoImplicit false

namespace Brutils.Proofs.Json

open Brutils.JsonParser

/-- A text behind a number. -/
def EndsNumber (rest : Text) : Prop :=
  ∃ c s, rest = c :: s ∧ c.isDigit = false ∧ c ≠ '.' ∧ c ≠ 'e' ∧ c ≠ 'E'

/-- The text begins with a character that is no digit. -/
def EndsDigits (rest : Text) : Prop := ∃ c s, rest = c :: s ∧ c.isDigit = false

/-- What comes behind a number is no digit. -/
theorem EndsNumber.endsDigits {rest : Text} (h : EndsNumber rest) : EndsDigits rest := by
  obtain ⟨c, s, rfl, hc, -⟩ := h
  exact ⟨c, s, rfl, hc⟩

/-! ### Digits -/

section
variable {digits rest : Text} {l : List Routine}

/-- The run of digits that the parser takes is the whole of them. -/
theorem takeWhile_digits (h : ∀ c ∈ digits, c.isDigit) (hrest : EndsDigits rest) :
    (digits ++ rest).takeWhile Char.isDigit = digits := by
  obtain ⟨c, s, rfl, hc⟩ := hrest
  rw [List.takeWhile_append_of_pos h]
  simp [hc]

/-- It leaves what comes behind them. -/
theorem dropWhile_digits (h : ∀ c ∈ digits, c.isDigit) (hrest : EndsDigits rest) :
    (digits ++ rest).dropWhile Char.isDigit = rest := by
  obtain ⟨c, s, rfl, hc⟩ := hrest
  rw [List.dropWhile_append_of_pos h]
  simp [hc]

/-- A digit in front counts as many tens as there are digits behind it. -/
theorem natValue_cons (c : Char) (digits : Text) :
    natValue (c :: digits) = digit c * 10 ^ digits.length + natValue digits := by
  have hacc : ∀ (digits : Text) (value : Nat),
      digits.foldl (fun value c => 10 * value + (c.toNat - '0'.toNat)) value
        = value * 10 ^ digits.length + natValue digits := by
    intro digits
    induction digits with
    | nil => intro value; simp [natValue]
    | cons c digits ih =>
      intro value
      rw [natValue, List.foldl_cons, List.foldl_cons, ih, ih, List.length_cons, pow_succ]
      ring
  rw [natValue, List.foldl_cons, hacc]
  simp [digit]

/-- The second loop of `parseInt` adds up the value of the digits. -/
theorem sumDigits_digits (h : ∀ c ∈ digits, c.isDigit) (hrest : EndsDigits rest) (i val : Nat) :
    sumDigits (i + digits.length) i val (digits ++ rest) = .ok (val + natValue digits, rest) := by
  induction digits generalizing i val with
  | nil =>
    obtain ⟨c, s, rfl, hc⟩ := hrest
    simp [sumDigits, hc, natValue]
  | cons c digits ih =>
    have hc := h c List.mem_cons_self
    have hnext := ih (fun c hc => h c (List.mem_cons_of_mem _ hc)) (i + 1)
      (val + digit c * 10 ^ digits.length)
    have hplace : i + (c :: digits).length - i - 1 = digits.length := by
      rw [List.length_cons]
      omega
    have hlength : i + (c :: digits).length = i + 1 + digits.length := by
      rw [List.length_cons]
      omega
    rw [List.cons_append, sumDigits, if_pos hc, hplace, hlength, hnext, natValue_cons, Nat.add_assoc]

/-- `parseInt` reads the value of the digits. -/
theorem parseInt_digits (h : ∀ c ∈ digits, c.isDigit) (hrest : EndsDigits rest) :
    parseInt ⟨digits ++ rest, l⟩ = if digits.length < intLimit then
      .ok (natValue digits, ⟨rest, l⟩) else .error .intRange := by
  have hscan := scan_eq Char.isDigit (digits ++ rest) 0 intLimit_pos
  have hne : rest ≠ [] := by
    obtain ⟨c, s, rfl, -⟩ := hrest
    exact List.cons_ne_nil c s
  rw [takeWhile_digits h hrest, dropWhile_digits h hrest, if_neg hne, Nat.zero_add] at hscan
  by_cases hshort : digits.length < intLimit
  · have hsum := sumDigits_digits h hrest 0 0
    rw [Nat.zero_add, Nat.zero_add] at hsum
    rw [if_neg (by omega)] at hscan
    rw [if_pos hshort]
    simp [parseInt, hscan, hsum]
  · rw [if_pos (by omega)] at hscan
    rw [if_neg hshort]
    simp [parseInt, hscan]

/-- The loop of `parseAfterInt` adds up the value of the digits as a fraction. -/
theorem sumFraction_digits (h : ∀ c ∈ digits, c.isDigit) (hrest : EndsDigits rest) (i : Nat)
    (val : ℚ) (hshort : i + digits.length < intLimit) :
    sumFraction i val (digits ++ rest)
      = .ok (val + natValue digits / 10 ^ (i + digits.length), rest) := by
  induction digits generalizing i val with
  | nil =>
    obtain ⟨c, s, rfl, hc⟩ := hrest
    simp [sumFraction, hc, natValue]
  | cons c digits ih =>
    have hc := h c List.mem_cons_self
    rw [List.length_cons] at hshort
    have hnext := ih (fun c hc => h c (List.mem_cons_of_mem _ hc)) (i + 1)
      (val + digit c / 10 ^ (i + 1)) (by omega)
    rw [List.cons_append, sumFraction, if_pos hc, toInt_of_lt (by omega)]
    show sumFraction (i + 1) (val + digit c / 10 ^ (i + 1)) (digits ++ rest) = _
    rw [hnext, natValue_cons, List.length_cons]
    congr 2
    have hpow : (10 : ℚ) ^ (i + 1 + digits.length) = 10 ^ (i + 1) * 10 ^ digits.length := pow_add _ _ _
    rw [show i + (digits.length + 1) = i + 1 + digits.length by omega, hpow]
    push_cast
    field_simp
    ring

/-- `parseAfterInt` reads the value of the digits as a fraction. -/
theorem parseAfterInt_digits (h : ∀ c ∈ digits, c.isDigit) (hrest : EndsDigits rest) :
    parseAfterInt ⟨digits ++ rest, l⟩ = if digits.length < intLimit then
      .ok (natValue digits / 10 ^ digits.length, ⟨rest, l⟩) else .error .intRange := by
  by_cases hshort : digits.length < intLimit
  · have hsum := sumFraction_digits h hrest 0 0 (by omega)
    rw [Nat.zero_add, zero_add] at hsum
    rw [if_pos hshort]
    simp [parseAfterInt, hsum]
  · have hsum := sumFraction_eq (digits ++ rest) 0 0 intLimit_pos
    rw [takeWhile_digits h hrest, Nat.zero_add, if_pos (by omega)] at hsum
    rw [if_neg hshort]
    simp [parseAfterInt, hsum]

/-- Both loops take exactly the digits away. `parseInt` gives the number that they denote, which
is 0 if there are none, and `parseAfterInt` what they denote behind a decimal point. -/
def ReadsDigits (digits rest : Text) (l : List Routine) : Prop :=
  parseInt ⟨digits ++ rest, l⟩ = .ok (natValue digits, ⟨rest, l⟩) ∧
    parseAfterInt ⟨digits ++ rest, l⟩ = .ok (natValue digits / 10 ^ digits.length, ⟨rest, l⟩)

/-- More digits than an `int` can count. -/
theorem not_readsDigits (h : ∀ c ∈ digits, c.isDigit) (hrest : EndsDigits rest)
    (hlong : intLimit ≤ digits.length) : ¬ReadsDigits digits rest l := by
  rintro ⟨hint, -⟩
  rw [parseInt_digits h hrest, if_neg (by omega)] at hint
  cases hint

/-- The loops read the digits if an `int` can count them, and only then. -/
theorem reads_digits_iff (digits rest : Text) (l : List Routine) (h : ∀ c ∈ digits, c.isDigit)
    (hrest : EndsDigits rest) : ReadsDigits digits rest l ↔ digits.length < intLimit := by
  constructor
  · intro hreads
    by_contra hlong
    exact not_readsDigits h hrest (by omega) hreads
  · intro hshort
    refine ⟨?_, ?_⟩
    · rw [parseInt_digits h hrest, if_pos hshort]
    · rw [parseAfterInt_digits h hrest, if_pos hshort]

/-- Digits with zeros in front and behind. -/
theorem reads_digits_zeros : ReadsDigits ['0', '1', '2', '0'] [',', '7'] [.parseNumber] :=
  (reads_digits_iff _ _ _ (by simp) ⟨',', ['7'], rfl, rfl⟩).mpr (by simp [intLimit])

/-- As many zeros as there are numbers in the range of `int` from 0 on, and a comma. -/
theorem too_many_digits : ¬ReadsDigits (List.replicate intLimit '0') [','] [] := by
  refine not_readsDigits ?_ ⟨',', [], rfl, rfl⟩ ?_
  · intro c hc
    rw [List.eq_of_mem_replicate hc]
    rfl
  · rw [List.length_replicate]

end

/-! ### The parts of a number -/

section
variable {rest : Text} {l : List Routine} (number : ℚ)

/-- What `parseExponent` makes of an exponent. It does not know the sign `+`. -/
def exponentOutcome (exponent : Exponent) (rest : Text) (l : List Routine) :
    Except Stop (ℚ × ParserState) :=
  match exponent.sign with
  | some .plus => .ok (number, ⟨'+' :: (exponent.digits ++ rest), l⟩)
  | _ => if exponent.digits.length < intLimit then .ok (number * exponent.factor, ⟨rest, l⟩)
      else .error .intRange

/-- `parseExponent` on the text of an exponent. With the sign `+` it stops in front of the sign and
leaves the number as it is. -/
theorem parseExponent_text (exponent : Exponent) (hrest : EndsDigits rest) :
    parseExponent number ⟨exponent.text ++ rest, l⟩ = exponentOutcome number exponent rest l := by
  obtain ⟨marker, sign, digits, hmarker, hne, hdigits⟩ := exponent
  have henter : ¬marker = 'e' → marker = 'E' := hmarker.resolve_left
  have hint := parseInt_digits (l := l) hdigits hrest
  unfold exponentOutcome Exponent.factor Exponent.text Exponent.signText
  cases sign with
  | none =>
    -- the first digit is not the sign
    obtain ⟨d, digits, rfl⟩ := List.exists_cons_of_ne_nil hne
    have hd : d ≠ '-' := by
      rintro rfl
      exact absurd (hdigits '-' List.mem_cons_self) (by decide)
    rw [List.cons_append] at hint
    split at hint
    · rename_i hshort
      simp only [if_pos hshort]
      simp [parseExponent, hmarker, hd, hint]
    · rename_i hshort
      simp only [if_neg hshort]
      simp [parseExponent, hmarker, hd, hint]
  | some sign =>
    cases sign with
    | minus =>
      split at hint
      · rename_i hshort
        simp only [if_pos hshort]
        simp [parseExponent, hmarker, hint, div_eq_mul_inv]
      · rename_i hshort
        simp only [if_neg hshort]
        simp [parseExponent, hmarker, hint]
    | plus =>
      -- no digit follows, so the exponent is 0
      have hplus : EndsDigits ('+' :: (digits ++ rest)) := ⟨'+', _, rfl, rfl⟩
      have hnone : ∀ c ∈ ([] : Text), c.isDigit := by simp
      have hzero : parseInt ⟨'+' :: (digits ++ rest), l⟩ = _ := parseInt_digits hnone hplus
      rw [List.length_nil, if_pos intLimit_pos] at hzero
      simp [parseExponent, hmarker, hzero, natValue]

/-- `parseExponent` where there is none. -/
theorem parseExponent_none (hrest : EndsNumber rest) :
    parseExponent number ⟨rest, l⟩ = .ok (number, ⟨rest, l⟩) := by
  obtain ⟨c, s, rfl, -, -, he, hE⟩ := hrest
  simp [parseExponent, he, hE]

variable (coeff : ℚ)

/-- A number without a fraction and without an exponent is not multiplied by `coeff`. -/
theorem parseAfterNumber_plain (hrest : EndsNumber rest) :
    parseAfterNumber coeff number ⟨rest, l⟩ = .ok (.float number, ⟨skipSpace rest, l⟩) := by
  obtain ⟨c, s, rfl, -, hdot, he, hE⟩ := hrest
  simp [parseAfterNumber, hdot, he, hE]

/-- The result of the other exit. -/
def scaled (out : Except Stop (ℚ × ParserState)) : Except Stop (Variant × ParserState) :=
  out.map fun p => (.float (p.1 * coeff), p.2)

/-- An exponent directly behind the integer part. -/
theorem parseAfterNumber_exponent (exponent : Exponent) (hrest : EndsDigits rest) :
    parseAfterNumber coeff number ⟨exponent.text ++ rest, l⟩
      = scaled coeff (exponentOutcome number exponent rest l) := by
  rw [← parseExponent_text number exponent hrest, Exponent.text, List.cons_append]
  generalize exponent.signText ++ exponent.digits ++ rest = more
  rcases exponent.marker_eq with hmarker | hmarker
  · rw [hmarker]
    cases hout : parseExponent number ⟨'e' :: more, l⟩ with
    | error e => simp [parseAfterNumber, hout, scaled]
    | ok p => simp [parseAfterNumber, hout, scaled]
  · rw [hmarker]
    cases hout : parseExponent number ⟨'E' :: more, l⟩ with
    | error e => simp [parseAfterNumber, hout, scaled]
    | ok p => simp [parseAfterNumber, hout, scaled]

/-- A fraction, and what may come behind it. Its length must fit an `int`. -/
theorem parseAfterNumber_fraction {digits more : Text} (hdigits : IsDigits digits)
    (hmore : EndsDigits more) :
    parseAfterNumber coeff number ⟨'.' :: (digits ++ more), l⟩ = if digits.length < intLimit then
      scaled coeff (parseExponent (number + natValue digits / 10 ^ digits.length) ⟨more, l⟩)
      else .error .intRange := by
  have hafter := parseAfterInt_digits (l := l) hdigits.2 hmore
  split at hafter
  · rename_i hshort
    rw [if_pos hshort]
    generalize hout : parseExponent (number + natValue digits / 10 ^ digits.length) ⟨more, l⟩ = out
    cases out with
    | error e => simp [parseAfterNumber, hafter, hout, scaled]
    | ok p => simp [parseAfterNumber, hafter, hout, scaled]
  · rename_i hshort
    rw [if_neg hshort]
    simp [parseAfterNumber, hafter]

/-- The integer part. -/
theorem parseUnsigned_int (token : NumberToken) {more : Text} (hmore : EndsDigits more) :
    parseUnsigned coeff ⟨token.int ++ more, l⟩ = if token.int.length < intLimit then
      parseAfterNumber coeff (natValue token.int) ⟨more, l⟩ else .error .intRange := by
  obtain ⟨hne, hdigits⟩ := token.int_isDigits
  have hint := parseInt_digits (l := l) hdigits hmore
  obtain ⟨d, digits, hcons⟩ := List.exists_cons_of_ne_nil hne
  by_cases hzero : d = '0'
  · -- the code takes a 0 away without `parseInt`, and no other digit follows it
    have hint' := token.int_leading (by rw [hcons, hzero]; rfl)
    rw [hint', if_pos (by decide)]
    simp [parseUnsigned, natValue]
  · have hd : d.isDigit := hdigits d (by rw [hcons]; exact List.mem_cons_self)
    rw [hcons, List.cons_append] at hint ⊢
    split at hint
    · rename_i hshort
      rw [if_pos hshort]
      simp [parseUnsigned, hzero, hd, hint]
    · rename_i hshort
      rw [if_neg hshort]
      simp [parseUnsigned, hzero, hd, hint]

/-- The sign. -/
theorem parseNumber_text (token : NumberToken) (rest : Text) :
    parseNumber ⟨token.text ++ rest, l⟩
      = parseUnsigned (if token.negative then -1 else 1)
          ⟨token.int ++ (token.afterInt ++ rest), l⟩ := by
  obtain ⟨hne, hdigits⟩ := token.int_isDigits
  rw [NumberToken.text]
  cases token.negative with
  | true => simp [parseNumber, skipSpace_cons_of_not (show isSpace '-' = false from rfl)]
  | false =>
    obtain ⟨d, digits, hcons⟩ := List.exists_cons_of_ne_nil hne
    have hd : d.isDigit := hdigits d (by rw [hcons]; exact List.mem_cons_self)
    have hminus : d ≠ '-' := by
      rintro rfl
      exact absurd hd (by decide)
    rw [hcons]
    simp [parseNumber, skipSpace_cons_of_not (isSpace_of_isDigit hd), hminus]

end

/-! ### The result -/

/-- `parseNumber` reads the token before `rest`: it returns its value and leaves `rest`, up to white
space in front of it. -/
def ReadsNumber (token : NumberToken) (rest : Text) : Prop :=
  ∀ l, ∃ r, parseNumber ⟨token.text ++ rest, l⟩ = .ok (.float token.value, ⟨r, l⟩) ∧
    (r = rest ∨ r = skipSpace rest)

/-- The digits can be counted by an `int`, the exponent has no `+`, and a number without a
fraction and without an exponent has no `-`, unless it is 0. -/
structure ReadWithValue (token : NumberToken) : Prop where
  int : token.int.length < intLimit
  fraction : ∀ digits ∈ token.fraction, digits.length < intLimit
  exponent : ∀ exponent ∈ token.exponent, exponent.digits.length < intLimit
  noPlus : ∀ exponent ∈ token.exponent, exponent.sign ≠ some .plus
  noMinus : token.fraction = none → token.exponent = none → token.negative = true →
    natValue token.int = 0

/-- A result is right if it is the value with `rest` left. -/
def Right (value : ℚ) (rest : Text) (l : List Routine)
    (out : Except Stop (Variant × ParserState)) : Prop :=
  ∃ r, out = .ok (.float value, ⟨r, l⟩) ∧ (r = rest ∨ r = skipSpace rest)

section
variable {rest : Text} {l : List Routine} {value : ℚ}

/-- An exception is no result. -/
theorem not_right_error (e : Stop) : ¬Right value rest l (.error e) := by
  rintro ⟨r, h, -⟩
  cases h

/-- A returned number is right if it has the value. -/
theorem right_ok {value' : ℚ} {r : Text} (hr : r = rest ∨ r = skipSpace rest) :
    Right value rest l (.ok (.float value', ⟨r, l⟩)) ↔ value' = value := by
  constructor
  · rintro ⟨r', h, -⟩
    obtain ⟨hvalue, -⟩ := Prod.mk.inj (Except.ok.inj h)
    exact Variant.float.inj hvalue
  · rintro rfl
    exact ⟨r, rfl, hr⟩

/-- An exponent is read as it should be exactly if it has no `+` and is not too long. -/
theorem right_exponent_iff (number coeff : ℚ) (exponent : Exponent) :
    Right (number * exponent.factor * coeff) rest l
        (scaled coeff (exponentOutcome number exponent rest l)) ↔
      exponent.digits.length < intLimit ∧ exponent.sign ≠ some .plus := by
  by_cases hplus : exponent.sign = some .plus
  · refine iff_of_false ?_ fun h => h.2 hplus
    rw [exponentOutcome, hplus]
    rintro ⟨r, hout, hr⟩
    -- the sign and the digits are left
    have hleft : '+' :: (exponent.digits ++ rest) = r :=
      congrArg ParserState.input (Prod.mk.inj (Except.ok.inj hout)).2
    have hlength := congrArg List.length hleft
    rw [List.length_cons, List.length_append] at hlength
    have hle := length_skipSpace_le rest
    rcases hr with rfl | rfl
    · omega
    · omega
  · have hout : exponentOutcome number exponent rest l
        = if exponent.digits.length < intLimit then .ok (number * exponent.factor, ⟨rest, l⟩)
          else .error .intRange := by
      rw [exponentOutcome]
      split
      · rename_i h
        exact absurd h hplus
      · rfl
    rw [hout]
    split
    · rename_i hshort
      exact iff_of_true ((right_ok (Or.inl rfl)).mpr rfl) ⟨hshort, hplus⟩
    · rename_i hlong
      exact iff_of_false (not_right_error _) fun h => hlong h.1

/-- An exponent does not begin with a digit. -/
theorem exponent_endsDigits (exponent : Exponent) (rest : Text) :
    EndsDigits (exponent.text ++ rest) := by
  refine ⟨exponent.marker, _, rfl, ?_⟩
  rcases exponent.marker_eq with h | h
  · rw [h]
    rfl
  · rw [h]
    rfl

/-- What comes behind the integer part does not begin with a digit. -/
theorem endsDigits_afterInt (token : NumberToken) (hrest : EndsNumber rest) :
    EndsDigits (token.afterInt ++ rest) := by
  rw [NumberToken.afterInt]
  cases token.fraction with
  | some digits => exact ⟨'.', _, rfl, rfl⟩
  | none =>
    cases token.exponent with
    | none => exact hrest.endsDigits
    | some exponent => exact exponent_endsDigits exponent rest

end

section
variable (token : NumberToken) {rest : Text} {l : List Routine} (hrest : EndsNumber rest)
  (hint : token.int.length < intLimit)
include hrest hint

/-- The result behind the integer part is right. -/
def RightBehindInt (token : NumberToken) (rest : Text) (l : List Routine) : Prop :=
  Right token.value rest l (parseAfterNumber (if token.negative then -1 else 1)
    (natValue token.int) ⟨token.afterInt ++ rest, l⟩)

/-- A number without a fraction and without an exponent loses its sign. -/
theorem right_plain_iff (hfraction : token.fraction = none) (hexponent : token.exponent = none) :
    RightBehindInt token rest l ↔ ReadWithValue token := by
  have hvalue : token.value = (if token.negative then -1 else 1) * natValue token.int := by
    simp [NumberToken.value, NumberToken.mantissa, hfraction, hexponent]
  have hafter : token.afterInt = [] := by simp [NumberToken.afterInt, hfraction, hexponent]
  rw [RightBehindInt, hafter, List.nil_append, parseAfterNumber_plain _ _ hrest,
    right_ok (Or.inr rfl), hvalue]
  constructor
  · intro h
    refine ⟨hint, by simp [hfraction], by simp [hexponent], by simp [hexponent], ?_⟩
    -- a number that is its own negative is 0
    intro _ _ hnegative
    rw [hnegative] at h
    have hzero : (natValue token.int : ℚ) = 0 := by
      simp only [if_true] at h
      linarith
    exact_mod_cast hzero
  · intro h
    cases hnegative : token.negative with
    | false => simp
    | true => simp [h.noMinus hfraction hexponent hnegative]

/-- A number with an exponent. -/
theorem right_withExponent_iff {exponent : Exponent} (hfraction : token.fraction = none)
    (hexponent : token.exponent = some exponent) :
    RightBehindInt token rest l ↔ ReadWithValue token := by
  have hvalue : token.value = natValue token.int * exponent.factor
      * (if token.negative then -1 else 1) := by
    simp only [NumberToken.value, NumberToken.mantissa, hfraction, hexponent]
    ring
  have hafter : token.afterInt = exponent.text := by
    simp [NumberToken.afterInt, hfraction, hexponent]
  rw [RightBehindInt, hafter, parseAfterNumber_exponent _ _ _ hrest.endsDigits, hvalue,
    right_exponent_iff]
  constructor
  · intro h
    exact ⟨hint, by simp [hfraction], by simpa [hexponent] using h.1,
      by simpa [hexponent] using h.2, by simp [hexponent]⟩
  · intro h
    exact ⟨h.exponent _ hexponent, h.noPlus _ hexponent⟩

/-- A number with a fraction, and maybe with an exponent. -/
theorem right_withFraction_iff {digits : Text} (hfraction : token.fraction = some digits) :
    RightBehindInt token rest l ↔ ReadWithValue token := by
  have hdigits := token.fraction_isDigits digits hfraction
  rw [RightBehindInt, NumberToken.afterInt, hfraction, List.append_assoc, List.cons_append]
  cases hexponent : token.exponent with
  | none =>
    have hvalue : token.value = (natValue token.int + natValue digits / 10 ^ digits.length)
        * (if token.negative then -1 else 1) := by
      simp only [NumberToken.value, NumberToken.mantissa, hfraction, hexponent]
      ring
    rw [List.nil_append, parseAfterNumber_fraction _ _ hdigits hrest.endsDigits]
    split
    · rename_i hshort
      rw [parseExponent_none _ hrest, hvalue]
      refine iff_of_true ((right_ok (Or.inl rfl)).mpr rfl) ?_
      exact ⟨hint, by simpa [hfraction] using hshort, by simp [hexponent], by simp [hexponent],
        by simp [hfraction]⟩
    · rename_i hlong
      exact iff_of_false (not_right_error _) fun h => hlong (h.fraction _ hfraction)
  | some exponent =>
    have hvalue : token.value = (natValue token.int + natValue digits / 10 ^ digits.length)
        * exponent.factor * (if token.negative then -1 else 1) := by
      simp only [NumberToken.value, NumberToken.mantissa, hfraction, hexponent]
      ring
    rw [parseAfterNumber_fraction _ _ hdigits (exponent_endsDigits exponent rest)]
    split
    · rename_i hshort
      rw [parseExponent_text _ _ hrest.endsDigits, hvalue, right_exponent_iff]
      constructor
      · intro h
        exact ⟨hint, by simpa [hfraction] using hshort, by simpa [hexponent] using h.1,
          by simpa [hexponent] using h.2, by simp [hexponent]⟩
      · intro h
        exact ⟨h.exponent _ hexponent, h.noPlus _ hexponent⟩
    · rename_i hlong
      exact iff_of_false (not_right_error _) fun h => hlong (h.fraction _ hfraction)

end

/-- A number token before a text that ends it is read with its value exactly if its digits can be
counted by an `int`, its exponent has no `+`, and it has no `-` where it has neither a fraction
nor an exponent, unless it is 0. -/
theorem number_read_iff (token : NumberToken) {rest : Text} (hrest : EndsNumber rest) :
    ReadsNumber token rest ↔ ReadWithValue token := by
  suffices h : ∀ l, Right token.value rest l (parseNumber ⟨token.text ++ rest, l⟩) ↔
      ReadWithValue token from ⟨fun h' => (h []).mp (h' []), fun h' l => (h l).mpr h'⟩
  intro l
  rw [parseNumber_text, parseUnsigned_int _ token (endsDigits_afterInt token hrest)]
  by_cases hint : token.int.length < intLimit
  · rw [if_pos hint]
    show RightBehindInt token rest l ↔ ReadWithValue token
    cases hfraction : token.fraction with
    | some digits => exact right_withFraction_iff token hrest hint hfraction
    | none =>
      cases hexponent : token.exponent with
      | none => exact right_plain_iff token hrest hint hfraction hexponent
      | some exponent => exact right_withExponent_iff token hrest hint hfraction hexponent
  · rw [if_neg hint]
    exact iff_of_false (not_right_error _) fun h => hint h.int

/-- `1.5e2` in front of a comma. -/
theorem number_read_iff_fraction :
    let token : NumberToken :=
      { negative := false, int := ['1'], fraction := some ['5']
        exponent := some ⟨'e', none, ['2'], Or.inl rfl, by simp [IsDigits]⟩
        int_isDigits := by simp [IsDigits], int_leading := by simp
        fraction_isDigits := by simp [IsDigits] }
    ReadsNumber token [','] := by
  intro token
  have hends : EndsNumber [','] := ⟨',', [], rfl, by decide⟩
  refine (number_read_iff token hends).mpr ?_
  exact ⟨by decide, by simp [token, intLimit], by simp [token, intLimit], by simp [token],
    by simp [token]⟩

/-- `-5` in front of a comma is read as 5. -/
theorem minus_lost :
    let token : NumberToken :=
      { negative := true, int := ['5'], fraction := none, exponent := none
        int_isDigits := by simp [IsDigits], int_leading := by simp
        fraction_isDigits := by simp }
    EndsNumber [','] ∧ ¬ReadsNumber token [','] := by
  intro token
  refine ⟨⟨',', [], rfl, by decide⟩, fun h => ?_⟩
  obtain ⟨r, hread, -⟩ := h []
  have hvalue : token.value = -5 := by
    simp [token, NumberToken.value, NumberToken.mantissa, natValue]
  have hfive : parseNumber ⟨token.text ++ [','], []⟩ = .ok (.float 5, ⟨[','], []⟩) := by
    rfl
  rw [hfive, hvalue] at hread
  have h5 : (5 : ℚ) = -5 := Variant.float.inj (Prod.mk.inj (Except.ok.inj hread)).1
  norm_num at h5

end Brutils.Proofs.Json
