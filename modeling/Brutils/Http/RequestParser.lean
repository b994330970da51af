import Brutils.Http.Request
import Mathlib.Algebra.Group.Int.Defs

/-!
# `Brutils.Http.RequestParser`: the `RequestParser_v1x` class

The parser works on `_buffer` with iterators, which are positions here: `buffer` is the whole
of `_buffer`, and a range goes from `pos` to `endPos`. Every parsing function returns its
result, the new position and the changed request. The calls that follow each other in
`parse` leave `pos` at most at the end of the range that the next one reads, with one
exception: a function that skips a line end advances by two characters, which may lead
behind the end of `_buffer`.

* `getString` writes the whole range through the `end()` of an empty string. The string it returns
  has no characters. The characters go into the memory that an empty string has, and where that does
  not hold them, `getString` is `none`: the write overwrites what lies behind the string.
* The functions that call `getString`, `parseHeader` and `parseBody` are `none` where the code has
  written outside a string or goes on to read from behind the end of `_buffer`. The language does not
  say what follows, and a call that comes to it halts (`Halt.outOfBounds`).
* The signal `errorOccured` is a list of the errors emitted, in order.
* `newRequestReady` is a list of the requests emitted. A slot that is connected to it gets a
  shared pointer to a request that the parser does not use any more.
* An exception ends a call. What has been changed until then stays changed.
-/

set_option autoImplicit false

namespace Brutils

/-- `ParseErrorCode`. -/
inductive ParseErrorCode
  | NoError
  | Method
  | URI
  | Version
  deriving DecidableEq, Repr

/-- `ParseError`. -/
structure ParseError where
  errorCode : ParseErrorCode := .NoError
  errorStr : Text := []
  deriving DecidableEq

/-- `ParsingStatus`. -/
inductive ParsingStatus
  | REQUEST_LINE
  | HEADER_LINES
  | BODY
  | FINISHED
  | ERROR
  deriving DecidableEq, Repr

namespace RequestParser

/-- How a call ends that does not return. -/
inductive Halt
  | out_of_range
  | invalid_argument
  /-- the code reads behind the end of `_buffer` or writes behind the memory of a string -/
  | outOfBounds
  deriving DecidableEq, Repr

/-- The members of a `RequestParser_v1x`, and the errors it has emitted. -/
structure State where
  buffer : Text
  requestInProduction : Option HttpRequest
  parsingStatus : ParsingStatus
  emitted : List ParseError
  deriving DecidableEq

/-- A new parser. -/
def fresh : State := ⟨[], none, .REQUEST_LINE, []⟩

/-- `_methodMap`. -/
def methodMap : List (Text × HttpMethod) :=
  [("CONNECT".toList, .CONNECT), ("DELETE".toList, .DELETE), ("GET".toList, .GET),
    ("HEAD".toList, .HEAD), ("OPTIONS".toList, .OPTIONS), ("PATCH".toList, .PATCH),
    ("POST".toList, .POST), ("PUT".toList, .PUT), ("TRACE".toList, .TRACE)]

/-- `_versionMap`. -/
def versionMap : List (Text × HttpVersion) :=
  [("HTTP/1.0".toList, .HTTP_10), ("HTTP/1.1".toList, .HTTP_11)]

/-- `_newLine`. -/
def newLine : Text := ['\r', '\n']

/-- The characters of a range. -/
def slice (buffer : Text) (pos endPos : Nat) : Text := (buffer.drop pos).take (endPos - pos)

/-- `std::find_if`: the first position in a range whose character satisfies `p`, or the end. -/
def findIf (p : Char → Bool) (buffer : Text) (pos endPos : Nat) : Nat :=
  pos + (slice buffer pos endPos).findIdx p

/-- `std::find`. -/
def find (c : Char) (buffer : Text) (pos endPos : Nat) : Nat := findIf (· = c) buffer pos endPos

/-- `std::find_first_of`. -/
def findFirstOf (cs : Text) (buffer : Text) (pos endPos : Nat) : Nat :=
  findIf (· ∈ cs) buffer pos endPos

section
variable [StandardLibrary]

/-- `getString`. The output goes to `result.end()`, and nothing has been reserved for it. -/
def getString (buffer : Text) (pos endPos : Nat) : Option Text :=
  let result := StringBuffer.empty (List.replicate StandardLibrary.emptyCapacity '\x00')
  let output := slice buffer pos endPos
  if result.Holds result.size output then some (result.transform result.size output).text
  else none

/-- The string that `getString` returns has no characters, and it returns if an empty string has the
memory for those of the range. -/
theorem getString_eq (buffer : Text) (pos endPos : Nat) :
    getString buffer pos endPos =
      if (slice buffer pos endPos).length ≤ StandardLibrary.emptyCapacity then some [] else none := by
  have hholds : (StringBuffer.empty (List.replicate StandardLibrary.emptyCapacity '\x00')).Holds 0
      (slice buffer pos endPos) ↔ (slice buffer pos endPos).length ≤ StandardLibrary.emptyCapacity := by
    show 0 + _ ≤ (List.replicate _ _).length ↔ _
    rw [Nat.zero_add, List.length_replicate]
  show (if StringBuffer.Holds _ 0 _ then _ else _) = _
  rw [if_congr hholds (congrArg some (StringBuffer.text_transform_empty _ _ _)) rfl]

end

/-! ### The request line -/

section
variable [StandardLibrary] (buffer : Text) (pos endPos : Nat) (request : HttpRequest)

/-- `parseMethod`. -/
def parseMethod : Bool × Nat × HttpRequest :=
  let methodEndPos := find ' ' buffer pos endPos
  if methodEndPos = endPos then (false, pos, request)
  else
    match methodMap.lookup (slice buffer pos methodEndPos) with
    | none => (false, pos, request)
    | some method => (true, methodEndPos + 1, request.setMethod method)

/-- `parsePath`. -/
def parsePath : Option (Bool × Nat × HttpRequest) :=
  if endPos ≤ pos then some (false, pos, request)
  else do
    let path ← getString buffer pos endPos
    pure (true, endPos, request.setPath path)

/-- One pass of the loop of `parseQuery`. -/
def addPair (query : StringMap) (pairEndPos : Nat) : Option StringMap :=
  let keyEndPos := find '=' buffer pos pairEndPos
  if keyEndPos = pairEndPos then do
    let key ← getString buffer pos pairEndPos
    pure (SortedAssoc.emplace key [] query)
  else do
    let key ← getString buffer pos keyEndPos
    let value ← getString buffer (keyEndPos + 1) pairEndPos
    pure (SortedAssoc.emplace key value query)

/-- The loop of `parseQuery`. A pass advances, so it makes at most `endPos - pos` of them. -/
def queryLoop : Nat → Nat → StringMap → Option (Nat × StringMap)
  | 0, pos, query => some (pos, query)
  | fuel + 1, pos, query =>
    if pos < endPos then do
      let pairEndPos := find '&' buffer pos endPos
      let query ← addPair buffer pos query pairEndPos
      queryLoop fuel (pairEndPos + 1) query
    else some (pos, query)

/-- `parseQuery`. -/
def parseQuery : Option (Bool × Nat × HttpRequest) := do
  let (pos, query) ← queryLoop buffer endPos (endPos - pos) pos []
  pure (true, pos, request.setQuery query)

/-- `parsePathAndQuery`. Without a query the result of `parsePath` is not looked at. -/
def parsePathAndQuery : Option (Bool × Nat × HttpRequest) :=
  let uriEndPos := find ' ' buffer pos endPos
  if uriEndPos = endPos then some (false, pos, request)
  else
    let queryStartPos := find '?' buffer pos uriEndPos
    if queryStartPos = uriEndPos then do
      let (_, pos, request) ← parsePath buffer pos uriEndPos request
      pure (true, pos, request)
    else do
      match ← parsePath buffer pos queryStartPos request with
      | (false, pos, request) => pure (false, pos, request)
      | (true, pos, request) => parseQuery buffer (pos + 1) uriEndPos request

/-- `parseVersion`. -/
def parseVersion : Bool × Nat × HttpRequest :=
  match versionMap.lookup (slice buffer pos endPos) with
  | none => (false, pos, request)
  | some version => (true, endPos, request.setVersion version)

/-- `parseRequestLine`, with the error that it emits, if any. -/
def parseRequestLine : Option (Bool × Nat × HttpRequest × List ParseError) :=
  if pos = endPos then some (false, pos, request, [])
  else
    let lineEndPos := findFirstOf newLine buffer pos endPos
    match parseMethod buffer pos lineEndPos request with
    | (false, pos, request) =>
      some (false, pos, request, [⟨.Method, "Cannot parse method in request line".toList⟩])
    | (true, pos, request) => do
      -- the errors that are made below are not emitted
      match ← parsePathAndQuery buffer pos lineEndPos request with
      | (false, pos, request) => pure (false, pos, request, [])
      | (true, pos, request) =>
        match parseVersion buffer pos lineEndPos request with
        | (false, pos, request) => pure (false, pos, request, [])
        | (true, pos, request) => pure (true, pos + newLine.length, request, [])

/-! ### The header lines and the body -/

/-- The loop of `parseHeader`. A pass advances, so it makes at most `endPos - pos` of them. -/
def headerLoop : Nat → Nat → HttpRequest → Option (Bool × Nat × HttpRequest)
  | 0, pos, request => if pos = endPos then some (false, pos, request) else none
  | fuel + 1, pos, request =>
    if pos = endPos then some (false, pos, request)
    else if endPos < pos then none
    else
      let lineEndPos := findFirstOf newLine buffer pos endPos
      if lineEndPos = pos then some (true, pos + 2, request)
      else
        let keyEndPos := find ':' buffer pos lineEndPos
        if keyEndPos = lineEndPos then some (false, pos, request)
        else do
          let key ← getString buffer pos keyEndPos
          let valueStart := findIf (· ≠ ' ') buffer (keyEndPos + 1) lineEndPos
          let value ← getString buffer valueStart lineEndPos
          headerLoop fuel (lineEndPos + 2) (request.insertHeader key value)

/-- `parseHeader`. -/
def parseHeader : Option (Bool × Nat × HttpRequest) :=
  headerLoop buffer endPos (endPos - pos) pos request

/-- `parseBody`. -/
def parseBody (contentSize : Nat) : Option (Bool × Nat × HttpRequest) :=
  if endPos < pos then none
  else if endPos - pos < contentSize then some (false, pos, request)
  else some (true, endPos, request.setRawBody (slice buffer pos endPos))

end

/-- The value of a sequence of digits. -/
def decimal (digits : Text) : Nat :=
  digits.foldl (fun value c => 10 * value + (c.toNat - '0'.toNat)) 0

/-- `std::stoll`. -/
def stoll (text : Text) : Except Halt Int :=
  let text := text.dropWhile isSpace
  let negative := text.head? = some '-'
  let digits := (if negative ∨ text.head? = some '+' then text.tail else text).takeWhile Char.isDigit
  let value : Int := if negative then -decimal digits else decimal digits
  if digits.isEmpty then .error .invalid_argument
  else if -2 ^ 63 ≤ value ∧ value < 2 ^ 63 then .ok value
  else .error .out_of_range

/-! ### `parse` -/

/-- What changes in the loop of `parse`. -/
structure Progress where
  pos : Nat
  request : HttpRequest
  parsingStatus : ParsingStatus
  emitted : List ParseError

/-- What an `if` in the loop of `parse` does: it goes on, or an exception is thrown. -/
abbrev Stage := Progress → Except (Halt × Progress) Progress

section
variable [StandardLibrary]

/-- `if (REQUEST_LINE == _parsingStatus)`. -/
def requestLineStage (buffer : Text) : Stage := fun p =>
  if p.parsingStatus = .REQUEST_LINE then
    match parseRequestLine buffer p.pos buffer.length p.request with
    | none => .error (.outOfBounds, p)
    | some (false, pos, request, errors) => .ok ⟨pos, request, .ERROR, p.emitted ++ errors⟩
    | some (true, pos, request, errors) => .ok ⟨pos, request, .HEADER_LINES, p.emitted ++ errors⟩
  else .ok p

/-- `if (HEADER_LINES == _parsingStatus)`. -/
def headerStage (buffer : Text) : Stage := fun p =>
  if p.parsingStatus = .HEADER_LINES then
    match parseHeader buffer p.pos buffer.length p.request with
    | none => .error (.outOfBounds, p)
    | some (false, pos, request) => .ok ⟨pos, request, .ERROR, p.emitted⟩
    | some (true, pos, request) =>
      match request.header "content-size".toList with
      | none => .error (.out_of_range, ⟨pos, request, .HEADER_LINES, p.emitted⟩)
      | some contentSize =>
        .ok ⟨pos, request, if contentSize.isEmpty then .FINISHED else .BODY, p.emitted⟩
  else .ok p

/-- `if (BODY == _parsingStatus)`. The result of `std::stoll` becomes a `uint64_t`. -/
def bodyStage (buffer : Text) : Stage := fun p =>
  if p.parsingStatus = .BODY then
    match p.request.header "content-size".toList with
    | none => .error (.out_of_range, p)
    | some text =>
      match stoll text with
      | .error e => .error (e, p)
      | .ok contentSize =>
        match parseBody buffer p.pos buffer.length p.request (contentSize % 2 ^ 64).toNat with
        | none => .error (.outOfBounds, p)
        | some (false, pos, request) => .ok ⟨pos, request, .ERROR, p.emitted⟩
        | some (true, pos, request) => .ok ⟨pos, request, .FINISHED, p.emitted⟩
  else .ok p

/-- The three stages of one pass of the loop. -/
def stages (buffer : Text) : Stage := fun p => do
  bodyStage buffer (← headerStage buffer (← requestLineStage buffer p))

/-- The members after a pass. -/
def State.leave (s : State) (p : Progress) (parsingStatus : ParsingStatus)
    (errors : List ParseError) : State :=
  { s with
    requestInProduction := some p.request
    parsingStatus := parsingStatus
    emitted := p.emitted ++ errors }

/-- `parse`. The loop makes one pass if `_buffer` is not empty, because the stages leave the status
`FINISHED` or `ERROR`. -/
def parse (s : State) : Except Halt Bool × State :=
  let request := s.requestInProduction.getD {}
  if s.buffer.isEmpty then (.ok false, { s with requestInProduction := some request })
  else
    match stages s.buffer ⟨0, request, s.parsingStatus, s.emitted⟩ with
    | .error (e, p) => (.error e, s.leave p p.parsingStatus [])
    | .ok p =>
      if p.parsingStatus = .FINISHED then (.ok true, s.leave p .REQUEST_LINE [])
      else (.ok false, s.leave p p.parsingStatus [{}])

/-- `newIncomingData`. The result `none` is a `nullptr`. -/
def newIncomingData (s : State) (data : Text) : Except Halt (Option HttpRequest) × State :=
  match parse { s with buffer := s.buffer ++ data } with
  | (.ok true, s) => (.ok s.requestInProduction, { s with requestInProduction := none })
  | (.ok false, s) => (.ok none, s)
  | (.error e, s) => (.error e, s)

/-- The loop of `newDataReceived_slot`, with the requests that `newRequestReady` has emitted. Nothing
in the code bounds the number of passes, and `none` means that `fuel` of them are not enough. -/
def slotLoop : Nat → State → List (Option HttpRequest) →
    Option (Except Halt Unit × State × List (Option HttpRequest))
  | 0, _, _ => none
  | fuel + 1, s, ready =>
    match parse s with
    | (.error e, s) => some (.error e, s, ready)
    | (.ok false, s) => some (.ok (), s, ready)
    | (.ok true, s) =>
      slotLoop fuel { s with requestInProduction := none } (ready ++ [s.requestInProduction])

/-- `newDataReceived_slot`. -/
def newDataReceivedSlot (fuel : Nat) (s : State) (data : Text) :
    Option (Except Halt Unit × State × List (Option HttpRequest)) :=
  slotLoop fuel { s with buffer := s.buffer ++ data } []

end

end RequestParser

end Brutils
