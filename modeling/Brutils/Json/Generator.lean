import Brutils.Variant
import Mathlib.Data.Nat.Log
import Mathlib.Data.Rat.Floor

/-!
# `Brutils.Json.Generator`: `json_generator`

The three functions `genObject`, `genArray` and `genValue` call each other as in the
source. The loops over the items are `genMembers` and `genElements`. Each appends `", "`
after every item, and the container then erases the last two characters of its output.

`genNumber` writes through an `std::ostringstream`. An `int` is written in decimal, and a
`float` or a `double` as `%g` with precision 6 (`streamNumber`).
-/

set_option autoImplicit false

namespace Brutils

namespace JsonGenerator

/-- `genTab`: four spaces for each tab. -/
def genTab : Nat → Text
  | 0 => []
  | tabCount + 1 => "    ".toList ++ genTab tabCount

/-- `genLineFeed`. -/
def genLineFeed : Text := ['\r', '\n']

/-- `getWhiteSpace`. -/
def getWhiteSpace (compact : Bool) (depth : Nat) : Text :=
  if compact then [] else genLineFeed ++ genTab depth

/-- `genString`. -/
def genString (string : Variant) : Text :=
  if string.isString then '"' :: string.toText ++ ['"'] else []

/-- `genLiteral`. -/
def genLiteral (literal : Variant) : Text :=
  if !literal.isValid then []
  else if literal.isNull then "null".toList
  else if literal.isBool then
    if literal.toBool then "true".toList else "false".toList
  else []

/-- Round to the nearest natural number, halves to even. -/
def roundHalfEven (q : ℚ) : Nat :=
  let n := ⌊q⌋.toNat
  let r := q - n
  if r < 1 / 2 then n else if 1 / 2 < r then n + 1 else if n % 2 = 0 then n else n + 1

/-- The decimal exponent and the six significant digits of a positive number. -/
def significant (q : ℚ) : Int × Nat :=
  let e : Int :=
    if 1 ≤ q then Nat.log 10 ⌊q⌋.toNat else -(Nat.clog 10 ⌈1 / q⌉.toNat : Nat)
  let m := roundHalfEven (q * 10 ^ (5 - e))
  if m = 1000000 then (e + 1, 100000) else (e, m)

/-- Drop the zeros at the end of a fraction. -/
def stripZeros (fraction : Text) : Text := (fraction.reverse.dropWhile (· = '0')).reverse

/-- A fraction with its point, or nothing when it is empty. -/
def withPoint (fraction : Text) : Text := if fraction = [] then [] else '.' :: fraction

/-- A `float` or `double` as an output stream writes it by default: `%g` with six
significant digits. -/
def streamNumber (q : ℚ) : Text :=
  if q = 0 then ['0']
  else
    let (e, m) := significant |q|
    let digits := (Nat.repr m).toList
    let body :=
      if -4 ≤ e ∧ e < 0 then
        '0' :: withPoint (List.replicate (-e - 1).toNat '0' ++ stripZeros digits)
      else if 0 ≤ e ∧ e < 6 then
        digits.take (e.toNat + 1) ++ withPoint (stripZeros (digits.drop (e.toNat + 1)))
      else
        let exponent := (Nat.repr e.natAbs).toList
        digits.take 1 ++ withPoint (stripZeros (digits.drop 1)) ++
          ['e', if e < 0 then '-' else '+'] ++
          List.replicate (2 - exponent.length) '0' ++ exponent
    if q < 0 then '-' :: body else body

/-- `genNumber`. -/
def genNumber (number : Variant) : Text :=
  if number.isInt then (toString number.toInt).toList
  else if number.isFloat then streamNumber number.toFloat
  else if number.isDouble then streamNumber number.toDouble
  else []

/-- What `genObject` and `genArray` do after their loop: erase the last `", "`, when there
is more than the opening bracket, and close. -/
def close (output : Text) (compact : Bool) (depth : Nat) (bracket : Char) : Text :=
  (if output.length > 1 then output.take (output.length - 2) else output) ++
    getWhiteSpace compact depth ++ [bracket]

mutual

/-- `genObject`. -/
def genObject : VariantMap → Bool → Nat → Text
  | object, compact, depth =>
    close ('{' :: genMembers object compact depth) compact depth '}'

/-- The loop of `genObject`. -/
def genMembers : VariantMap → Bool → Nat → Text
  | [], _, _ => []
  | (key, value) :: object, compact, depth =>
    getWhiteSpace compact (depth + 1) ++ genString (.string key) ++ [':', ' '] ++
      genValue value compact (depth + 1) ++ [',', ' '] ++ genMembers object compact depth

/-- `genArray`. -/
def genArray : VariantList → Bool → Nat → Text
  | list, compact, depth =>
    close ('[' :: genElements list compact depth) compact depth ']'

/-- The loop of `genArray`. -/
def genElements : VariantList → Bool → Nat → Text
  | [], _, _ => []
  | element :: list, compact, depth =>
    getWhiteSpace compact (depth + 1) ++ genValue element compact (depth + 1) ++ [',', ' '] ++
      genElements list compact depth

/-- `genValue`. A map and a list come first here, because the recursion is on them. They
fail every test that the source makes before theirs. The last case of the source prints a
message and returns the empty string. -/
def genValue : Variant → Bool → Nat → Text
  | .map val, compact, depth => genObject val compact depth
  | .list val, compact, depth => genArray val compact depth
  | value, _, _ =>
    if value.isValid && value.isNull then genLiteral value
    else if value.isBool then genLiteral value
    else if value.isInt || value.isFloat || value.isDouble then genNumber value
    else if value.isString then genString value
    else []

end

/-- `generate`. -/
def generate (json : Variant) (compact : Bool) : Text := genValue json compact 0

end JsonGenerator

end Brutils
