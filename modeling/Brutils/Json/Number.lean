import Brutils.Text
import Mathlib.Algebra.Order.Field.Rat

/-!
# `Brutils.Json.Number`: number tokens and their values

What a number looks like in a JSON text, for the parser's results to be compared with. This is
not translated from the source. A `NumberToken` carries the conditions of the grammar on its
parts. `NumberToken.text` are its characters and `NumberToken.value` the number that it
denotes.
-/

set_option autoImplicit false

namespace Brutils

/-- A sequence of decimal digits that is not empty. -/
def IsDigits (s : Text) : Prop := s ≠ [] ∧ ∀ c ∈ s, c.isDigit

/-- The number that a sequence of digits denotes. -/
def natValue (digits : Text) : Nat :=
  digits.foldl (fun value c => 10 * value + (c.toNat - '0'.toNat)) 0

/-- The sign of an exponent. -/
inductive ExponentSign
  | plus
  | minus
  deriving DecidableEq

/-- An exponent. -/
structure Exponent where
  marker : Char
  sign : Option ExponentSign
  digits : Text
  marker_eq : marker = 'e' ∨ marker = 'E'
  isDigits : IsDigits digits

namespace Exponent

/-- The characters of the sign. -/
def signText (exponent : Exponent) : Text :=
  match exponent.sign with
  | none => []
  | some .plus => ['+']
  | some .minus => ['-']

/-- The characters of the exponent. -/
def text (exponent : Exponent) : Text :=
  exponent.marker :: (exponent.signText ++ exponent.digits)

/-- The factor that the exponent stands for. -/
def factor (exponent : Exponent) : ℚ :=
  match exponent.sign with
  | some .minus => (10 ^ natValue exponent.digits)⁻¹
  | _ => 10 ^ natValue exponent.digits

end Exponent

/-- A number token. The integer part has no leading zero. -/
structure NumberToken where
  negative : Bool
  int : Text
  fraction : Option Text
  exponent : Option Exponent
  int_isDigits : IsDigits int
  int_leading : int.head? = some '0' → int = ['0']
  fraction_isDigits : ∀ digits ∈ fraction, IsDigits digits

namespace NumberToken

/-- The characters behind the integer part. -/
def afterInt (token : NumberToken) : Text :=
  (match token.fraction with
    | none => []
    | some digits => '.' :: digits)
  ++ match token.exponent with
    | none => []
    | some exponent => exponent.text

/-- The characters of the number. -/
def text (token : NumberToken) : Text :=
  (if token.negative then ['-'] else []) ++ token.int ++ token.afterInt

/-- The number without its sign and its exponent. -/
def mantissa (token : NumberToken) : ℚ :=
  natValue token.int + match token.fraction with
    | none => 0
    | some digits => natValue digits / 10 ^ digits.length

/-- The number that the token denotes. -/
def value (token : NumberToken) : ℚ :=
  (if token.negative then -1 else 1) * token.mantissa * match token.exponent with
    | none => 1
    | some exponent => exponent.factor

/-- A character of a number. -/
def IsNumberChar (c : Char) : Prop := c.isDigit ∨ c = '-' ∨ c = '+' ∨ c = '.' ∨ c = 'e' ∨ c = 'E'

/-- An exponent consists of characters of numbers. -/
theorem isNumberChar_exponent (exponent : Exponent) : ∀ c ∈ exponent.text, IsNumberChar c := by
  intro c hc
  rcases List.mem_cons.mp hc with rfl | hc
  · rcases exponent.marker_eq with h | h
    · simp [IsNumberChar, h]
    · simp [IsNumberChar, h]
  · rcases List.mem_append.mp hc with hsign | hdigit
    · unfold Exponent.signText at hsign
      split at hsign
      · exact absurd hsign List.not_mem_nil
      · simp [IsNumberChar, List.mem_singleton.mp hsign]
      · simp [IsNumberChar, List.mem_singleton.mp hsign]
    · exact Or.inl (exponent.isDigits.2 c hdigit)

/-- So does what comes behind the integer part. -/
theorem isNumberChar_afterInt (token : NumberToken) : ∀ c ∈ token.afterInt, IsNumberChar c := by
  intro c hc
  rcases List.mem_append.mp hc with hfraction | hexponent
  · cases htoken : token.fraction with
    | none => simp [htoken] at hfraction
    | some digits =>
      rw [htoken] at hfraction
      rcases List.mem_cons.mp hfraction with rfl | hdigit
      · simp [IsNumberChar]
      · exact Or.inl ((token.fraction_isDigits digits htoken).2 c hdigit)
  · cases htoken : token.exponent with
    | none => simp [htoken] at hexponent
    | some exponent =>
      rw [htoken] at hexponent
      exact isNumberChar_exponent exponent c hexponent

/-- A number has no other characters. -/
theorem isNumberChar_text (token : NumberToken) : ∀ c ∈ token.text, IsNumberChar c := by
  intro c hc
  rw [text, List.append_assoc] at hc
  rcases List.mem_append.mp hc with hsign | hc
  · split at hsign
    · simp [IsNumberChar, List.mem_singleton.mp hsign]
    · exact absurd hsign List.not_mem_nil
  · rcases List.mem_append.mp hc with hint | hafter
    · exact Or.inl (token.int_isDigits.2 c hint)
    · exact isNumberChar_afterInt token c hafter

/-- A number has a character. -/
theorem text_ne_nil (token : NumberToken) : token.text ≠ [] := by
  simp [text, token.int_isDigits.1]

end NumberToken

end Brutils
