import Brutils.Http.RequestParser

/-!
# `Brutils.Http.Message`: well-formed requests

What a request looks like in a stream, for the parser's results to be compared with. This is
not translated from the source. A `Message` carries the conditions under which its bytes can
be read back: no part contains a character that ends it. `Message.bytes` is the request as a
client sends it. A `RequestHead` is everything before the body, with or without a query and with any
number of header lines, and a `WholeRequest` is a head with the body that it announces.
-/

set_option autoImplicit false

namespace Brutils

open RequestParser

/-- No character of `text` is one of `cs`. -/
def FreeOf (cs text : Text) : Prop := ∀ c ∈ text, c ∉ cs

-- the instance goes through the characters of the text, not through all characters
instance (cs text : Text) : Decidable (FreeOf cs text) := List.decidableBAll (· ∉ cs) text

/-- A well-formed request line, with or without a query. -/
structure RequestLine where
  method : Text × HttpMethod
  path : Text
  query : Option Text
  version : Text × HttpVersion
  method_mem : method ∈ methodMap
  version_mem : version ∈ versionMap
  path_ne_nil : path ≠ []
  path_freeOf : FreeOf [' ', '?'] path
  query_freeOf : ∀ query' ∈ query, FreeOf [' '] query'

namespace RequestLine

/-- The path, and the query if there is one. -/
def uri (line : RequestLine) : Text :=
  line.path ++ match line.query with
    | none => []
    | some query => '?' :: query

/-- The characters of a request line, without the line end. -/
def text (line : RequestLine) : Text :=
  line.method.1 ++ ' ' :: (line.uri ++ ' ' :: line.version.1)

end RequestLine

/-- A header line. -/
structure HeaderLine where
  name : Text
  value : Text
  name_ne_nil : name ≠ []
  name_freeOf : FreeOf [':', '\r', '\n'] name
  value_freeOf : FreeOf ['\r', '\n'] value

/-- The bytes of a header line. -/
def HeaderLine.bytes (line : HeaderLine) : Text := line.name ++ ':' :: line.value ++ newLine

/-- A pair in a query. If there is no value, the `=` may be left out. -/
structure QueryPair where
  key : Text
  value : Text
  bare : Bool
  key_ne_nil : key ≠ []
  key_freeOf : FreeOf ['&', '='] key
  value_freeOf : FreeOf ['&'] value
  bare_value : bare = true → value = []

/-- The bytes of a pair. -/
def QueryPair.bytes (pair : QueryPair) : Text :=
  if pair.bare then pair.key else pair.key ++ '=' :: pair.value

/-- The bytes of a query. -/
def queryBytes (pairs : List QueryPair) : Text :=
  List.intercalate ['&'] (pairs.map QueryPair.bytes)

/-- A well-formed request. The body, if any, is announced by a header line. -/
structure Message where
  method : Text × HttpMethod
  path : Text
  query : Text
  version : Text × HttpVersion
  headers : List HeaderLine
  body : Text
  method_mem : method ∈ methodMap
  version_mem : version ∈ versionMap
  path_ne_nil : path ≠ []
  path_freeOf : FreeOf [' ', '?', '\r', '\n'] path
  query_ne_nil : query ≠ []
  query_freeOf : FreeOf [' ', '\r', '\n'] query
  headers_ne_nil : headers ≠ []
  announced : body = [] ∨ ∃ line ∈ headers, line.name = "content-size".toList ∧
    line.value = (Nat.repr body.length).toList

namespace Message

/-- The request line. -/
def requestLine (message : Message) : Text :=
  message.method.1 ++ ' ' :: message.path ++ '?' :: message.query ++ ' ' :: message.version.1 ++
    newLine

/-- The bytes of a request. -/
def bytes (message : Message) : Text :=
  message.requestLine ++ message.headers.flatMap HeaderLine.bytes ++ newLine ++ message.body

/-- A message is not empty. -/
theorem bytes_ne_nil (message : Message) : message.bytes ≠ [] := by
  unfold bytes newLine
  simp

end Message

/-- The bytes of requests that follow each other. -/
def stream (messages : List Message) : Text := messages.flatMap Message.bytes

/-- So a stream with a message in it is not empty. -/
theorem stream_cons_ne_nil (first : Message) (rest : List Message) :
    stream (first :: rest) ≠ [] := by
  intro hnil
  rw [stream, List.flatMap_cons] at hnil
  exact first.bytes_ne_nil (List.append_eq_nil_iff.mp hnil).1

/-! ### Heads and announced bodies -/

/-- The name is `content-size`, in any letter case. -/
def HeaderLine.IsContentSize (header : HeaderLine) : Prop :=
  header.name.map Char.toLower = "content-size".toList

instance (header : HeaderLine) : Decidable header.IsContentSize :=
  inferInstanceAs (Decidable (header.name.map Char.toLower = "content-size".toList))

/-- The value is the decimal number `n`, with or without spaces before it. -/
def HeaderLine.HasSize (header : HeaderLine) (n : Nat) : Prop :=
  let digits := header.value.dropWhile (· = ' ')
  digits ≠ [] ∧ digits.all Char.isDigit ∧ decimal digits = n

/-- The part of a well-formed request before the body. -/
structure RequestHead where
  line : RequestLine
  headers : List HeaderLine
  line_freeOf : FreeOf newLine line.text

namespace RequestHead

/-- The bytes of a head. -/
def bytes (head : RequestHead) : Text :=
  head.line.text ++ newLine ++ head.headers.flatMap HeaderLine.bytes ++ newLine

/-- A header line announces a body of `n` bytes. -/
def Announces (head : RequestHead) (n : Nat) : Prop :=
  ∃ header ∈ head.headers, header.IsContentSize ∧ header.HasSize n

end RequestHead

/-- A well-formed request with its body. Without an announcement there is none. -/
structure WholeRequest where
  head : RequestHead
  body : Text
  announced : head.Announces body.length ∨
    body = [] ∧ ∀ header ∈ head.headers, ¬header.IsContentSize

/-- The bytes of a request. -/
def WholeRequest.bytes (request : WholeRequest) : Text := request.head.bytes ++ request.body

end Brutils
