import Brutils.Json.Number
import Brutils.Lib.Spaced
import Brutils.Variant

/-!
# `Brutils.Json.Document`: documents, their texts and their meaning

What a JSON document is, for the parser's results to be compared with. This is not translated
from the source. The texts of a `Document` are its `tokens` with white space around them
(`HasText`), and `Denotes` says which variants stand for it: where a key of an object is
repeated, its last value counts.

A string is kept as it is written between its quotes, because the parser does not replace its
escapes. In `tokens`, `[]` is one token, because the parser allows no white space in it. The
grammar of JSON does, and for what is a part of a document (`Truncated`) the texts of the grammar
count (`HasJsonText`).
-/

set_option autoImplicit false

namespace Brutils

/-- A JSON document. -/
inductive Document
  | null
  | bool (val : Bool)
  | number (token : NumberToken)
  | string (val : Text)
  | array (items : List Document)
  | object (members : List (Text × Document))

namespace Document

/-- A string between its quotes. -/
def quoted (s : Text) : Text := '"' :: (s ++ ['"'])

mutual

/-- The tokens of a document. -/
def tokens : Document → List Text
  | .null => ["null".toList]
  | .bool true => ["true".toList]
  | .bool false => ["false".toList]
  | .number token => [token.text]
  | .string val => [quoted val]
  | .array [] => ["[]".toList]
  | .array (item :: items) => ['['] :: (tokens item ++ itemTokens items)
  | .object [] => [['{'], ['}']]
  | .object ((key, value) :: members) =>
    ['{'] :: quoted key :: [':'] :: (tokens value ++ memberTokens members)

/-- The tokens behind an item of an array. -/
def itemTokens : List Document → List Text
  | [] => [[']']]
  | item :: items => [','] :: (tokens item ++ itemTokens items)

/-- The tokens behind a member of an object. -/
def memberTokens : List (Text × Document) → List Text
  | [] => [['}']]
  | (key, value) :: members =>
    [','] :: quoted key :: [':'] :: (tokens value ++ memberTokens members)

end

example : (array [null, string ['a']]).tokens
    = [['['], "null".toList, [','], "\"a\"".toList, [']']] := by decide

/-- The white space between tokens. -/
def IsWhitespace (c : Char) : Prop := c = ' ' ∨ c = '\t' ∨ c = '\r' ∨ c = '\n'

/-- `txt` is a text of the document. -/
def HasText (document : Document) (txt : Text) : Prop :=
  Spaced IsWhitespace document.tokens txt

/-- The grammar has two tokens for an empty array. -/
def splitEmpty (token : Text) : List Text :=
  if token = "[]".toList then [['['], [']']] else [token]

/-- The tokens of a document in the grammar of JSON. -/
def jsonTokens (document : Document) : List Text := document.tokens.flatMap splitEmpty

/-- `txt` is a text of the document in the grammar of JSON. -/
def HasJsonText (document : Document) (txt : Text) : Prop :=
  Spaced IsWhitespace document.jsonTokens txt

example : (array [array []]).jsonTokens = [['['], ['['], [']'], [']']] := by decide

/-- A hexadecimal digit. -/
def IsHexDigit (c : Char) : Prop := c.isDigit ∨ ('a' ≤ c ∧ c ≤ 'f') ∨ ('A' ≤ c ∧ c ≤ 'F')

/-- What the grammar allows between the quotes of a string. -/
inductive StringBody : Text → Prop
  | nil : StringBody []
  | char {c : Char} {s : Text} (hquote : c ≠ '"') (hback : c ≠ '\\') (hcontrol : ' ' ≤ c)
      (h : StringBody s) : StringBody (c :: s)
  | escape {c : Char} {s : Text} (hc : c ∈ ['"', '\\', '/', 'b', 'f', 'n', 'r', 't'])
      (h : StringBody s) : StringBody ('\\' :: c :: s)
  | unicode {digits s : Text} (hlength : digits.length = 4) (hdigits : ∀ c ∈ digits, IsHexDigit c)
      (h : StringBody s) : StringBody ('\\' :: 'u' :: (digits ++ s))

/-- The strings and keys of the document are ones that the grammar allows. -/
inductive WellFormed : Document → Prop
  | null : WellFormed .null
  | bool (val : Bool) : WellFormed (.bool val)
  | number (token : NumberToken) : WellFormed (.number token)
  | string (val : Text) (h : StringBody val) : WellFormed (.string val)
  | array (items : List Document) (h : ∀ d ∈ items, WellFormed d) : WellFormed (.array items)
  | object (members : List (Text × Document)) (hkeys : ∀ e ∈ members, StringBody e.1)
      (h : ∀ e ∈ members, WellFormed e.2) : WellFormed (.object members)

/-- The document is an object or an array. -/
def isContainer : Document → Bool
  | .array _ => true
  | .object _ => true
  | _ => false

/-- A part of a text of an object or array that ends before the bracket that closes it. -/
def Truncated (txt : Text) : Prop :=
  ∃ document : Document, document.WellFormed ∧ document.isContainer ∧
    ∃ body c, ¬IsWhitespace c ∧ document.HasJsonText (body ++ [c]) ∧ txt <+: body

/-- The last value of a key. -/
def lastValue (key : Text) (members : List (Text × Document)) : Option Document :=
  members.reverse.lookup key

end Document

/-- The variant stands for the document. The map of an object has the keys of its members, and
under each key the last value that it has there. -/
inductive Variant.Denotes : Variant → Document → Prop
  | null : Denotes .null .null
  | bool (val : Bool) : Denotes (.bool val) (.bool val)
  | number (token : NumberToken) : Denotes (.float token.value) (.number token)
  | string (val : Text) : Denotes (.string val) (.string val)
  | array {vs : VariantList} {items : List Document} (hlength : vs.length = items.length)
      (h : ∀ (i : Nat) (hv : i < vs.length) (hd : i < items.length), Denotes vs[i] items[i]) :
      Denotes (.list vs) (.array items)
  | object {es : VariantMap} {members : List (Text × Document)} (hsorted : SortedAssoc.Sorted es)
      (hkeys : ∀ key, (es.lookup key).isSome = (Document.lastValue key members).isSome)
      (h : ∀ key v d, es.lookup key = some v → Document.lastValue key members = some d →
        Denotes v d) :
      Denotes (.map es) (.object members)

end Brutils
