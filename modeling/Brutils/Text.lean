import Mathlib.Data.Char
import Mathlib.Data.List.Lex

/-!
# `Brutils.Text`: strings and character classes

A C++ `std::string`, `std::string_view` or byte vector is a list of characters, and a C++
`char` or `std::byte` is a `Char`. The code compares characters with ASCII constants and
asks `<cctype>` about them, so nothing in it depends on the range of a character. A result
over all `Text` covers in particular every sequence of bytes.

The `<cctype>` classes are those of the C locale. `isdigit` and `isalpha` are
`Char.isDigit` and `Char.isAlpha`, which are ASCII only.
-/

set_option autoImplicit false

namespace Brutils

/-- The characters of a string or of a byte vector. -/
abbrev Text := List Char

/-- `std::isspace` in the C locale. -/
def isSpace (c : Char) : Bool :=
  c = ' ' ∨ c = '\t' ∨ c = '\n' ∨ c = '\x0b' ∨ c = '\x0c' ∨ c = '\r'

end Brutils
