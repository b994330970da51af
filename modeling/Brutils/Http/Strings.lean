import Brutils.Http.RequestParser

/-!
# `Brutils.Http.Strings`: the strings that the parser is to make

`getString` is called for every path, key and value. Which texts these are can be told from the
text that is parsed: `lineStrings` lists those of a request line, and `headerStrings` those of a
header line. This is not translated from the source, and nothing in it depends on positions.

`getString` writes each of these texts into an empty string. `Fit` says that the memory of an empty
string holds each of them. It is decidable, and it depends on the implementation of the standard
library by its one parameter. Texts without characters always fit.
-/

set_option autoImplicit false

namespace Brutils

namespace RequestParser

/-- What stands before and behind the first `c`, if there is one. -/
def cut (c : Char) (text : Text) : Option (Text × Text) :=
  if c ∈ text then some (text.takeWhile (· ≠ c), (text.dropWhile (· ≠ c)).tail) else none

/-! ### The query -/

/-- The pieces of a query between its `&`. A final empty piece is dropped. -/
def queryPieces (query : Text) : List Text :=
  let pieces := query.splitOn '&'
  if pieces.getLast? = some [] then pieces.dropLast else pieces

/-- The characters of a piece before its first `=`. -/
def queryKey (piece : Text) : Text := piece.takeWhile (· ≠ '=')

/-- The characters behind it. -/
def queryValue (piece : Text) : Text := (piece.dropWhile (· ≠ '=')).tail

/-- The strings for a piece. Without a `=` it has no value, and no string is made of it. -/
def pieceStrings (piece : Text) : List Text := [queryKey piece, queryValue piece]

/-- The strings for a query. -/
def queryStrings (query : Text) : List Text := (queryPieces query).flatMap pieceStrings

/-! ### The request line -/

/-- The strings for the part between the two spaces. If there is a query but no path,
`parsePathAndQuery` fails before it has made any. -/
def uriStrings (uri : Text) : List Text :=
  match cut '?' uri with
  | none => [uri]
  | some (path, query) => if path = [] then [] else path :: queryStrings query

/-- The strings for a line that is taken for a request line. The method has to be known, and there
has to be a second space. The version is compared in `_buffer`, without a string. -/
def lineStrings (line : Text) : List Text :=
  match cut ' ' line with
  | none => []
  | some (method, rest) =>
    if methodMap.lookup method = none then []
    else
      match cut ' ' rest with
      | none => []
      | some (uri, _) => uriStrings uri

example : lineStrings "GET /a?b=c&d HTTP/1.1".toList =
    ["/a".toList, "b".toList, "c".toList, "d".toList, []] := by decide

/-! ### The header lines -/

/-- The characters of a header line before its first `:`. -/
def keyText (line : Text) : Text := line.takeWhile (· ≠ ':')

/-- The characters behind it, without leading spaces. -/
def valueText (line : Text) : Text := (line.dropWhile (· ≠ ':')).tail.dropWhile (· = ' ')

/-- The strings for a header line. -/
def headerStrings (line : Text) : List Text := [keyText line, valueText line]

/-! ### The memory of an empty string -/

section
variable [StandardLibrary]

/-- An empty string has the memory for each of these texts. -/
def Fit (strings : List Text) : Prop :=
  ∀ text ∈ strings, text.length ≤ StandardLibrary.emptyCapacity

instance (strings : List Text) : Decidable (Fit strings) := List.decidableBAll _ strings

/-- No strings fit. -/
theorem fit_nil : Fit [] := List.forall_mem_nil _

/-- A string and the rest. -/
theorem fit_cons {text : Text} {strings : List Text} :
    Fit (text :: strings) ↔ text.length ≤ StandardLibrary.emptyCapacity ∧ Fit strings :=
  List.forall_mem_cons

/-- Two lists of strings. -/
theorem fit_append {strings strings' : List Text} :
    Fit (strings ++ strings') ↔ Fit strings ∧ Fit strings' :=
  List.forall_mem_append

/-- Two strings. -/
theorem fit_pair {text text' : Text} :
    Fit [text, text'] ↔ text.length ≤ StandardLibrary.emptyCapacity ∧
      text'.length ≤ StandardLibrary.emptyCapacity := by
  rw [fit_cons, fit_cons, and_iff_left fit_nil]

/-- Two texts, the second of which has no characters. -/
theorem fit_pair_nil {text : Text} :
    Fit [text, []] ↔ text.length ≤ StandardLibrary.emptyCapacity :=
  fit_pair.trans (and_iff_left (Nat.zero_le _))

end

end RequestParser

end Brutils
