import Brutils.Lib.Pieces
import Brutils.Text

/-!
# `Brutils.StringUtils`: the functions on strings

## Strings that are written through iterators

The code builds some strings with `std::transform`, whose output iterator points into the
string. Such a write overwrites characters. It does not make the string longer, whatever
memory lies behind its last character: `reserve` gives memory, not characters. A
`StringBuffer` is a string together with that memory.

A write that goes beyond the memory of the string overwrites something else, and the language
does not say what follows. `Holds` says that it does not. `toLower` has reserved what it writes
(`toLower_holds`). Other functions write into a string for which nothing has been reserved. An
empty `std::string` has some memory in itself, and how much is up to the standard library:
`StandardLibrary` is a parameter of all that depends on it, and `Libstdcxx` is one value of it.

## Strings that are split

`splitString` is the `split_string` whose delimiter is a string. Its loop moves an index over
the string, and appends to the container what stands before the next delimiter. The fuel counts
the passes: the loop goes round for ever if the delimiter has no characters. `splitStringChar` is
the other one, whose delimiter is a character. It reads the string with `std::getline`.
-/

set_option autoImplicit false

namespace Brutils

/-- What the language leaves to the implementation of the standard library. As an inferred parameter
it goes through the functions that depend on it without being written. -/
class StandardLibrary where
  /-- `std::string().capacity()`: how many characters an empty string has memory for -/
  emptyCapacity : Nat

namespace Libstdcxx

/-- In libstdc++ a string keeps up to 15 characters in itself. -/
scoped instance standardLibrary : StandardLibrary := ⟨15⟩

end Libstdcxx

/-- A string in memory: `storage` is its memory, which begins with its characters, of which there
are `size`. -/
structure StringBuffer where
  size : Nat
  storage : Text

namespace StringBuffer

/-- A string without characters, and the memory that it has. -/
def empty (storage : Text) : StringBuffer := ⟨0, storage⟩

/-- The characters of the string. -/
def text (buffer : StringBuffer) : Text := buffer.storage.take buffer.size

/-- The memory of the string holds what is written from `begin() + pos` on. -/
def Holds (buffer : StringBuffer) (pos : Nat) (output : Text) : Prop :=
  pos + output.length ≤ buffer.storage.length

instance (buffer : StringBuffer) (pos : Nat) (output : Text) : Decidable (buffer.Holds pos output) :=
  inferInstanceAs (Decidable (_ ≤ _))

/-- `std::transform(first, last, begin() + pos, …)`, where `output` is what the operation gives
for the characters from `first` to `last`, and the memory of the string holds it. -/
def transform (buffer : StringBuffer) (pos : Nat) (output : Text) : StringBuffer :=
  { buffer with
    storage := buffer.storage.take pos ++ output ++ buffer.storage.drop (pos + output.length) }

/-- A string without characters has none after the write. -/
theorem text_transform_empty (storage output : Text) (pos : Nat) :
    ((empty storage).transform pos output).text = [] := by
  rw [text, transform, empty, List.take_zero]

end StringBuffer

/-- `lower` in `toLower`, after `lower.reserve(input.size())`. -/
def lowerBuffer (input : Text) : StringBuffer :=
  StringBuffer.empty (List.replicate input.length '\x00')

/-- `toLower`. The output goes to `lower.begin()`. -/
def toLower (input : Text) : Text :=
  ((lowerBuffer input).transform 0 (input.map Char.toLower)).text

/-- What `toLower` writes, it has reserved. So it always returns. -/
theorem toLower_holds (input : Text) : (lowerBuffer input).Holds 0 (input.map Char.toLower) := by
  show 0 + (input.map Char.toLower).length ≤ (List.replicate input.length '\x00').length
  rw [List.length_map, List.length_replicate, Nat.zero_add]

/-- The string that `toLower` returns has no characters. -/
theorem toLower_eq_nil (input : Text) : toLower input = [] :=
  StringBuffer.text_transform_empty _ _ 0

/-- `str.substr(pos, n)`, for a `pos` in the string. -/
def substr (str : Text) (pos n : Nat) : Text := (str.drop pos).take n

/-- The loop of `split_string`, from the index `i`. It has no result if the fuel runs out. -/
def splitStringLoop (str delim : Text) : Nat → Nat → List Text → Option (List Text)
  | 0, _, _ => none
  | fuel + 1, i, cont =>
    if i < str.length then
      match Cutting.find delim str i with
      | none => some (cont ++ [substr str i (str.length - 1)])
      | some index =>
        splitStringLoop str delim fuel (index + delim.length) (cont ++ [substr str i (index - i)])
    else some cont

/-- `split_string(str, cont, delim)`, for a `std::string` as the delimiter. -/
def splitString (fuel : Nat) (str : Text) (cont : List Text) (delim : Text) : Option (List Text) :=
  splitStringLoop str delim fuel 0 cont

/-- `std::getline(ss, token, delim)` on what is left of the stream: the token, and what is left
behind the delimiter. At the end of the stream there is no token, and the stream is false. -/
def getline (delim : Char) (rest : Text) : Option (Text × Text) :=
  if rest = [] then none
  else some (rest.takeWhile (· ≠ delim), (rest.dropWhile (· ≠ delim)).drop 1)

/-- The loop of `split_string`, with what is left of the stream. -/
def splitStringCharLoop (delim : Char) : Nat → Text → List Text → Option (List Text)
  | 0, _, _ => none
  | fuel + 1, rest, cont =>
    match getline delim rest with
    | none => some cont
    | some (token, rest) => splitStringCharLoop delim fuel rest (cont ++ [token])

/-- `split_string(str, cont, delim)`, for a `char` as the delimiter. -/
def splitStringChar (fuel : Nat) (str : Text) (cont : List Text) (delim : Char) :
    Option (List Text) :=
  splitStringCharLoop delim fuel str cont

/-! ## Searching in a string -/

/-- `str_startsWith`. -/
def strStartsWith (baseStr subStr : Text) : Bool :=
  if baseStr.length ≤ subStr.length then Cutting.find subStr baseStr 0 = some 0 else false

/-- `str_startsWithMatch`. -/
def strStartsWithMatch (baseStr subStr : Text) : Nat :=
  if baseStr.length ≤ subStr.length then
    if Cutting.find subStr baseStr 0 = some 0 then baseStr.length else 0
  else 0

/-- `str_contains`. -/
def strContains (baseStr subStr : Text) : Bool := (Cutting.find subStr baseStr 0).isSome

end Brutils
