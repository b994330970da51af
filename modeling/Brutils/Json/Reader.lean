import Brutils.Json.Parser
import Brutils.Lib.Brackets
import Brutils.Lib.Machine

/-!
# `Brutils.Json.Reader`: a text read as the parser reads it

A pushdown reader for JSON texts. It says what is read where, and nothing about the values:
a configuration is the text that is left, what is read next, and the stack of the
containers around it. One step reads one token, or leaves one container.

The reader is as lenient as `json_parser`. A container that breaks off is left as if it
were an empty one, the text goes on after the break, and `failed` records the break. A
container breaks off

* after `{` when neither `}` nor a string follows,
* between two members at a character other than `"`, `,` and `}`,
* at a key that has no closing quote or is not followed by `:`,
* in an array at an element that cannot be read.

The reader halts when it has left the outermost container, when there is none, or when it
cannot go on (`Stuck`). A text is `Balanced` when its brackets match and nest, and the brackets of a
text are the characters `{`, `}`, `[` and `]` outside its string literals (`outside`,
`bracketKind`).
-/

set_option autoImplicit false

namespace Brutils

namespace JsonReader

open JsonParser (Routine findQuote skipSpace intLimit)

/-- A container around the place that is read. -/
inductive Frame
  | object
  | array
  deriving DecidableEq, Repr

/-- What is read next. -/
inductive Point
  /-- the outermost container -/
  | root
  /-- a value -/
  | value
  /-- a member of an object, or its end -/
  | members
  /-- an element of an array, or its end -/
  | elements
  /-- nothing: a value has been read, and `valid` says whether there was one -/
  | back (valid : Bool)
  deriving DecidableEq, Repr

/-- Why the reader cannot go on. -/
inductive Stuck
  /-- a character is needed and the text is at its end -/
  | endOfText
  /-- a token has too many characters for an `int` -/
  | tooLong
  /-- the first quote after the opening one comes directly after a backslash -/
  | spins
  deriving DecidableEq, Repr

/-- Why the reader has halted. -/
inductive Halt
  /-- the outermost container has been left -/
  | finished
  /-- the text does not begin with a container -/
  | noContainer
  | stuck (reason : Stuck)
  deriving DecidableEq, Repr

/-- A configuration of the reader. -/
structure Config where
  point : Point
  stack : List Frame
  input : Text
  failed : List Routine

/-- Read a string from after its opening quote. The result is the text after the closing
quote, or `none` when there is no quote. -/
def readString (input : Text) : Except Stuck (Option Text) :=
  match findQuote input 0 with
  | none => .ok none
  | some size =>
    if intLimit ≤ size then .error .tooLong
    else if size ≠ 0 ∧ input[size - 1]? = some '\\' then .error .spins
    else if intLimit ≤ size + 1 then .error .tooLong
    else .ok (some (input.drop (size + 1)))

/-- Read the characters of a class, at least one other character being left. -/
def readRun (p : Char → Bool) (input : Text) : Except Stuck Text :=
  if intLimit ≤ (input.takeWhile p).length then .error .tooLong
  else if input.dropWhile p = [] then .error .endOfText
  else .ok (input.dropWhile p)

/-- Read the exponent of a number, if there is one. -/
def readExponent : Text → Except Stuck Text
  | [] => .error .endOfText
  | c :: input =>
    if c = 'e' ∨ c = 'E' then
      match input with
      | [] => .error .endOfText
      | d :: input' => readRun Char.isDigit (if d = '-' then input' else d :: input')
    else .ok (c :: input)

/-- Read the fraction and the exponent of a number, if they are there. -/
def readFraction : Text → Except Stuck Text
  | [] => .error .endOfText
  | c :: input =>
    if c = '.' then readRun Char.isDigit input >>= readExponent else readExponent (c :: input)

/-- Read a number after its sign. The flag says whether there was one. -/
def readUnsigned : Text → Except Stuck (Bool × Text)
  | [] => .error .endOfText
  | c :: input =>
    if c = '0' then (readFraction input).map fun rest => (true, rest)
    else if c.isDigit then
      (readRun Char.isDigit (c :: input) >>= readFraction).map fun rest => (true, rest)
    else .ok (false, c :: input)

/-- Read a number. -/
def readNumber : Text → Except Stuck (Bool × Text)
  | [] => .error .endOfText
  | c :: input => readUnsigned (if c = '-' then input else c :: input)

/-- The words that denote a value. -/
def isWord (word : Text) : Bool :=
  word = "true".toList ∨ word = "false".toList ∨ word = "null".toList

/-- Read a word. The flag says whether it denotes a value. -/
def readWord (input : Text) : Except Stuck (Bool × Text) :=
  (readRun Char.isAlpha input).map fun rest => (isWord (input.takeWhile Char.isAlpha), rest)

/-- The configuration after a value, at the next character that is not whitespace. -/
def afterValue (stack : List Frame) (input : Text) (failed : List Routine) (valid : Bool) :
    Config :=
  ⟨.back valid, stack, skipSpace input, failed⟩

/-- Read a value, or its first bracket. -/
def stepValue (stack : List Frame) (failed : List Routine) : Text → Except Stuck Config
  | [] => .error .endOfText
  | c :: input =>
    if c = '"' then
      (readString input).map fun
        | some rest => afterValue stack rest failed true
        | none => afterValue stack input (.parseString :: failed) false
    else if c.isDigit ∨ c = '-' then
      (readNumber (c :: input)).map fun (valid, rest) =>
        afterValue stack rest (if valid then failed else .parseNumber :: failed) valid
    else if c = '{' then
      match skipSpace input with
      | [] => .error .endOfText
      | d :: rest =>
        if d = '}' then .ok (afterValue stack rest failed true)
        else if d = '"' then .ok ⟨.members, stack, d :: rest, failed⟩
        else .ok (afterValue stack (d :: rest) (.parseObject :: failed) true)
    else if c = '[' then .ok ⟨.elements, stack, input, failed⟩
    else if c.isAlpha then
      (readWord (c :: input)).map fun (valid, rest) =>
        afterValue stack rest (if valid then failed else .parseLiteral :: failed) valid
    else .ok (afterValue stack (c :: input) (.parseLiteral :: failed) false)

/-- Read a key and its colon, from after the opening quote. -/
def stepKey (stack : List Frame) (failed : List Routine) (input : Text) : Except Stuck Config := do
  match ← readString input with
  | none => .ok (afterValue stack input (.parseObject :: .parseString :: failed) true)
  | some rest =>
    match skipSpace rest with
    | [] => .error .endOfText
    | c :: rest =>
      if c = ':' then .ok ⟨.value, .object :: stack, skipSpace rest, failed⟩
      else .ok (afterValue stack (c :: rest) (.parseObject :: failed) true)

/-- Read in an object between its members. -/
def stepMembers (stack : List Frame) (failed : List Routine) : Text → Except Stuck Config
  | [] => .error .endOfText
  | c :: input =>
    if c = '}' then .ok (afterValue stack input failed true)
    else if c = '"' then stepKey stack failed input
    else if c = ',' then .ok ⟨.members, stack, skipSpace input, failed⟩
    else .ok (afterValue stack (c :: input) (.parseObject :: failed) true)

/-- Read in an array between its elements. -/
def stepElements (stack : List Frame) (failed : List Routine) : Text → Except Stuck Config
  | [] => .error .endOfText
  | c :: input =>
    if c = ']' then .ok (afterValue stack input failed true)
    else .ok ⟨.value, .array :: stack, skipSpace (c :: input), failed⟩

/-- Go on after an element of an array. -/
def stepElementRead (stack : List Frame) (failed : List Routine) : Text → Except Stuck Config
  | [] => .error .endOfText
  | c :: input =>
    .ok ⟨.elements, stack, skipSpace (if c = ',' then input else c :: input), failed⟩

/-- Read the outermost bracket. -/
def stepRoot (failed : List Routine) : Text → Except Halt Config
  | [] => .error (.stuck .endOfText)
  | c :: input =>
    if c = '{' ∨ c = '[' then .ok ⟨.value, [], c :: input, failed⟩ else .error .noContainer

/-- One step of the reader. -/
def step : Config → Except Halt Config
  | ⟨.root, _, input, failed⟩ => stepRoot failed (skipSpace input)
  | ⟨.value, stack, input, failed⟩ => (stepValue stack failed input).mapError .stuck
  | ⟨.members, stack, input, failed⟩ => (stepMembers stack failed input).mapError .stuck
  | ⟨.elements, stack, input, failed⟩ => (stepElements stack failed input).mapError .stuck
  | ⟨.back _, [], _, _⟩ => .error .finished
  | ⟨.back _, .object :: stack, input, failed⟩ => .ok ⟨.members, stack, skipSpace input, failed⟩
  | ⟨.back true, .array :: stack, input, failed⟩ =>
    (stepElementRead stack failed input).mapError .stuck
  | ⟨.back false, .array :: stack, input, failed⟩ =>
    .ok (afterValue stack input (.parseArray :: failed) true)

/-- The configuration before a text. -/
def start (input : Text) : Config := ⟨.root, [], input, []⟩

/-! ### The brackets of a text -/

/-- The text outside the string literals. `inside` says whether the text begins inside one.
In a literal a backslash takes the next character with it. -/
def outside : Bool → Text → Text
  | _, [] => []
  | false, c :: text => if c = '"' then outside true text else c :: outside false text
  | true, '\\' :: _ :: text => outside true text
  | true, c :: text => if c = '"' then outside false text else outside true text

/-- The brackets of JSON. -/
def bracketKind (c : Char) : Brackets.Kind Frame :=
  if c = '{' then .opening .object
  else if c = '[' then .opening .array
  else if c = '}' then .closing .object
  else if c = ']' then .closing .array
  else .neutral

/-- The characters `{`, `}`, `[` and `]` outside string literals match and nest. -/
def Balanced (text : Text) : Prop := Brackets.Balanced bracketKind (outside false text)

/-! ### The numbers of a text -/

/-- The text outside the strings that `parseString` finds, which go from one quote to the next.
A quote with no other one after it begins none. -/
def bare : Bool → Text → Text
  | _, [] => []
  | false, c :: text => if c = '"' then bare (text.contains '"') text else c :: bare false text
  | true, c :: text => bare (c ≠ '"') text

/-- The text has no number: a number has a digit, and there is none outside the strings. -/
def NumberFree (text : Text) : Prop := ∀ c ∈ bare false text, c.isDigit = false

instance (text : Text) : Decidable (NumberFree text) :=
  List.decidableBAll (fun c : Char => c.isDigit = false) (bare false text)

end JsonReader

end Brutils
