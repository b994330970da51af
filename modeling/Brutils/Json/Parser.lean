import Brutils.Lib.Loop
import Brutils.Variant
import Mathlib.Algebra.Order.Field.Rat

/-!
# `Brutils.Json.Parser`: `json_parser`

Each routine of the source reads from the front of a `std::string_view` that it shortens.
Here it is a computation on a `ParserState`, which holds that view. A run can stop in three
ways (`Stop`):

* `outOfRange`: `std::string_view::at` throws `std::out_of_range`;
* `intRange`: an index leaves the range of the `int` that holds it, and the language does
  not say what follows;
* `outOfFuel`: the fuel ran out. Fuel counts the passes of a `while` loop and the nesting
  of values. A text on which every amount of fuel runs out is one on which the source does
  not return.

`ParserState.failed` is a ghost: no routine reads it. It names the routines that left
through a failure return, last first. For `parseObject` and `parseArray` that is a return
of an empty container before the closing bracket, and for the others a return of a variant
without a value.

`float` and `std::pow` compute with exact numbers.
-/

set_option autoImplicit false

namespace Brutils

namespace JsonParser

open Loop (Pass loop)

/-- The routines that can leave through a failure return. -/
inductive Routine
  | parseObject
  | parseArray
  | parseString
  | parseNumber
  | parseLiteral
  deriving DecidableEq, Repr

/-- How a run ends without a result. -/
inductive Stop
  | outOfRange
  | intRange
  | outOfFuel
  deriving DecidableEq, Repr

/-- The view that is left to read, and the routines that have failed. -/
structure ParserState where
  input : Text
  failed : List Routine

/-- A routine of the parser. -/
abbrev Parser := StateT ParserState (Except Stop)

/-- Stop the run. -/
def stop {α : Type} (e : Stop) : Parser α := fun _ => .error e

/-- Leave `routine` with `a` through a failure return. -/
def giveUp {α : Type} (routine : Routine) (a : α) : Parser α := fun st =>
  .ok (a, { st with failed := routine :: st.failed })

/-- Read the view without shortening it. -/
def view {α : Type} (f : Text → Except Stop α) : Parser α := fun st =>
  (f st.input).map fun a => (a, st)

/-- Read the view and replace it by a part of it. -/
def shorten {α : Type} (f : Text → Except Stop (α × Text)) : Parser α := fun st =>
  (f st.input).map fun p => (p.1, { st with input := p.2 })

/-- `input.at(0)`. -/
def front : Parser Char := view fun
  | [] => .error .outOfRange
  | c :: _ => .ok c

/-- `input.remove_prefix(n)`. -/
def removePrefix (n : Nat) : Parser Unit := fun st =>
  .ok ((), { st with input := st.input.drop n })

/-- A view without the whitespace at its front. -/
def skipSpace (input : Text) : Text := input.dropWhile isSpace

/-- `removeWhitespace`. -/
def removeWhitespace : Parser Unit := fun st =>
  .ok ((), { st with input := skipSpace st.input })

section
variable {α β : Type} (st : ParserState)

/-- One routine after the other: the second runs where the first has stopped. -/
@[simp] theorem bind_apply (x : Parser α) (f : α → Parser β) :
    (x >>= f) st = match x st with
      | .ok (a, st') => f a st'
      | .error e => .error e := by
  show (x st >>= fun p => f p.1 p.2) = _
  cases x st <;> rfl

/-- A returned value moves nothing. -/
@[simp] theorem pure_apply (a : α) : (pure a : Parser α) st = .ok (a, st) := rfl

/-- The result of a routine under a function. -/
@[simp] theorem map_apply (f : α → β) (x : Parser α) :
    (f <$> x) st = match x st with
      | .ok (a, st') => .ok (f a, st')
      | .error e => .error e := by
  show (x st >>= fun p => pure (f p.1, p.2)) = _
  cases x st <;> rfl

/-- A test selects the routine that runs. -/
@[simp] theorem ite_run (c : Prop) [Decidable c] (x y : Parser α) :
    (if c then x else y) st = if c then x st else y st := by
  split <;> rfl

/-- `stop` ends the reading. -/
@[simp] theorem stop_apply (e : Stop) : (stop e : Parser α) st = .error e := rfl

/-- `giveUp` puts the routine's name into the record. -/
@[simp] theorem giveUp_apply (routine : Routine) (a : α) :
    giveUp routine a st = .ok (a, ⟨st.input, routine :: st.failed⟩) := rfl

/-- `view` leaves the text as it is. -/
@[simp] theorem view_apply (f : Text → Except Stop α) :
    view f st = (f st.input).map fun a => (a, st) := rfl

/-- `shorten` goes on with the text that its function leaves. -/
@[simp] theorem shorten_apply (f : Text → Except Stop (α × Text)) :
    shorten f st = (f st.input).map fun p => (p.1, ⟨p.2, st.failed⟩) := rfl

/-- `removePrefix` drops characters. -/
@[simp] theorem removePrefix_apply (n : Nat) :
    removePrefix n st = .ok ((), ⟨st.input.drop n, st.failed⟩) := rfl

/-- `removeWhitespace` skips white space. -/
@[simp] theorem removeWhitespace_apply :
    removeWhitespace st = .ok ((), ⟨skipSpace st.input, st.failed⟩) := rfl

end

/-- The first character of an empty view is outside of it. -/
@[simp] theorem front_nil (failed : List Routine) : front ⟨[], failed⟩ = .error .outOfRange := rfl

/-- The first character stays where it is. -/
@[simp] theorem front_cons (c : Char) (input : Text) (failed : List Routine) :
    front ⟨c :: input, failed⟩ = .ok (c, ⟨c :: input, failed⟩) := rfl

/-- A value under a function. -/
@[simp] theorem map_ok {ε α β : Type} (f : α → β) (a : α) :
    (Except.ok a : Except ε α).map f = .ok (f a) := rfl

/-- An error stays an error. -/
@[simp] theorem map_error {ε α β : Type} (f : α → β) (e : ε) :
    (Except.error e : Except ε α).map f = .error e := rfl

/-- The first number above the range of `int`. -/
def intLimit : Nat := 2 ^ 31

/-- An index as an `int`. -/
def toInt (n : Nat) : Except Stop Nat := if n < intLimit then .ok n else .error .intRange

/-- `input.find_first_of('\"', pos)`, with `none` for `npos`. -/
def findQuote (input : Text) (pos : Nat) : Option Nat :=
  ((input.drop pos).findIdx? (· = '"')).map (· + pos)

/-- The search loop of `parseString`. It goes on from `size` when the character before the
quote it found is a backslash. -/
def searchQuote (input : Text) : Nat → Nat → Except Stop (Option Nat)
  | 0, _ => .error .outOfFuel
  | fuel + 1, continueIndex =>
    match findQuote input continueIndex with
    | none => .ok none
    | some index => do
      let size ← toInt index
      if size = 0 then pure (some size)
      else if input[size - 1]? = some '\\' then searchQuote input fuel size
      else pure (some size)

/-- `parseString`. -/
def parseString (fuel : Nat) : Parser Variant := do
  removeWhitespace
  if (← front) = '"' then
    removePrefix 1 -- remove first '\"'
    match ← view fun input => searchQuote input fuel 0 with
    | none => giveUp .parseString .invalid
    | some size =>
      let output ← view fun input => .ok (input.take size)
      removePrefix (← view fun _ => toInt (size + 1))
      removeWhitespace
      pure (.string output)
  else giveUp .parseString .invalid

/-- `for (size = 0; p(input.at(size)); ++size);`, with `size` characters already passed. -/
def scan (p : Char → Bool) : Nat → Text → Except Stop Nat
  | _, [] => .error .outOfRange
  | size, c :: input => if p c then do scan p (← toInt (size + 1)) input else .ok size

/-- `c - '0'`. -/
def digit (c : Char) : Nat := c.toNat - '0'.toNat

/-- The second loop of `parseInt`. Its `i` stays below `strLength`, which is an `int`. -/
def sumDigits (strLength : Nat) : Nat → Nat → Text → Except Stop (Nat × Text)
  | _, _, [] => .error .outOfRange
  | i, val, c :: input =>
    if c.isDigit then
      sumDigits strLength (i + 1) (val + digit c * 10 ^ (strLength - i - 1)) input
    else .ok (val, c :: input)

/-- `parseInt`. -/
def parseInt : Parser Nat := do
  let strLength ← view (scan Char.isDigit 0)
  shorten (sumDigits strLength 0 0)

/-- The loop of `parseAfterInt`. -/
def sumFraction : Nat → ℚ → Text → Except Stop (ℚ × Text)
  | _, _, [] => .error .outOfRange
  | i, val, c :: input =>
    if c.isDigit then do
      let i' ← toInt (i + 1)
      sumFraction i' (val + digit c / 10 ^ i') input
    else .ok (val, c :: input)

/-- `parseAfterInt`. -/
def parseAfterInt : Parser ℚ := shorten (sumFraction 0 0)

/-- The part of `parseNumber` that reads an exponent. -/
def parseExponent (number : ℚ) : Parser ℚ := do
  if (← front) = 'e' ∨ (← front) = 'E' then
    removePrefix 1 -- remove 'e' || 'E'
    if (← front) = '-' then
      removePrefix 1 -- remove '-'
      pure (number / 10 ^ (← parseInt))
    else pure (number * 10 ^ (← parseInt))
  else pure number

/-- The part of `parseNumber` after the integer part. -/
def parseAfterNumber (coeff : ℚ) (number : ℚ) : Parser Variant := do
  if (← front) ≠ '.' ∧ (← front) ≠ 'e' ∧ (← front) ≠ 'E' then
    removeWhitespace
    pure (.float number)
  else
    let number ←
      if (← front) = '.' then do
        removePrefix 1 -- remove '.'
        pure (number + (← parseAfterInt))
      else pure number
    let number ← parseExponent number
    pure (.float (number * coeff))

/-- The part of `parseNumber` after the sign. -/
def parseUnsigned (coeff : ℚ) : Parser Variant := do
  if (← front) = '0' then
    removePrefix 1 -- remove '0'
    parseAfterNumber coeff 0
  else if (← front).isDigit then
    parseAfterNumber coeff (← parseInt)
  else giveUp .parseNumber .invalid

/-- `parseNumber`. -/
def parseNumber : Parser Variant := do
  removeWhitespace
  if (← front) = '-' then
    removePrefix 1
    parseUnsigned (-1)
  else parseUnsigned 1

/-- The variant a word denotes. A word that is none of the three leaves `output` without a
value. -/
def wordValue (val : Text) : Variant :=
  if val = "true".toList then .bool true
  else if val = "false".toList then .bool false
  else if val = "null".toList then .null
  else .invalid

/-- `parseLiteral`. -/
def parseLiteral : Parser Variant := do
  removeWhitespace
  if (← front).isAlpha then
    let size ← view (scan Char.isAlpha 0)
    let val ← view fun input => .ok (input.take size)
    removePrefix size
    removeWhitespace
    if (wordValue val).isValid then pure (wordValue val)
    else giveUp .parseLiteral .invalid
  else giveUp .parseLiteral .invalid

/-- One pass of the loop of `parseObject`, from its test on. `parseValue` is the routine for
the values inside. -/
def objectPass (parseValue : Parser Variant) (fuel : Nat) (object : VariantMap) :
    Parser (Pass VariantMap VariantMap) := do
  if (← front) = '}' then
    removePrefix 1 -- remove '}'
    removeWhitespace
    pure (.leave object)
  else if (← front) = '"' then -- key-value pair
    let key ← parseString fuel
    if key.isValid then
      removeWhitespace
      if (← front) = ':' then
        removePrefix 1 -- remove ':'
        removeWhitespace
        let value ← parseValue
        removeWhitespace
        pure (.again (SortedAssoc.insert key.toText value object))
      else giveUp .parseObject (.leave [])
    else giveUp .parseObject (.leave [])
  else if (← front) = ',' then -- next
    removePrefix 1 -- remove ','
    removeWhitespace
    pure (.again object)
  else giveUp .parseObject (.leave [])

/-- `parseObject`. -/
def parseObject (parseValue : Parser Variant) (fuel : Nat) : Parser VariantMap := do
  removeWhitespace
  if (← front) = '{' then
    removePrefix 1 -- remove '{'
    removeWhitespace
    if (← front) = '}' then
      removePrefix 1 -- remove '}'
      pure [] -- empty json
    else if (← front) = '"' then
      loop .outOfFuel (objectPass parseValue fuel) fuel []
    else giveUp .parseObject []
  else giveUp .parseObject []

/-- One pass of the loop of `parseArray`, from its test on. -/
def arrayPass (parseValue : Parser Variant) (array : VariantList) :
    Parser (Pass VariantList VariantList) := do
  if (← front) = ']' then
    removePrefix 1 -- remove ']'
    removeWhitespace
    pure (.leave array)
  else
    removeWhitespace
    let element ← parseValue
    if element.isValid then
      if (← front) = ',' then
        removePrefix 1 -- remove ','
        removeWhitespace
        pure (.again (array ++ [element]))
      else
        removeWhitespace
        pure (.again (array ++ [element]))
    else giveUp .parseArray (.leave [])

/-- `parseArray`. -/
def parseArray (parseValue : Parser Variant) (fuel : Nat) : Parser VariantList := do
  removeWhitespace
  if (← front) = '[' then
    removePrefix 1 -- remove first '['
    loop .outOfFuel (arrayPass parseValue) fuel []
  else giveUp .parseArray []

/-- The dispatch of `parseValue` on the first character. -/
def parseByFront (parseValue : Parser Variant) (fuel : Nat) : Parser Variant := do
  if (← front) = '"' then parseString fuel
  else if (← front).isDigit ∨ (← front) = '-' then parseNumber
  else if (← front) = '{' then return .map (← parseObject parseValue fuel)
  else if (← front) = '[' then return .list (← parseArray parseValue fuel)
  else parseLiteral

/-- `parseValue`. The fuel bounds the nesting. -/
def parseValue : Nat → Parser Variant
  | 0 => stop .outOfFuel
  | fuel + 1 => do
    removeWhitespace
    let val ← parseByFront (parseValue fuel) fuel
    removeWhitespace
    pure val

/-- The body of `parse`. -/
def parseRoot (fuel : Nat) : Parser Variant := do
  removeWhitespace
  if (← front) = '{' then
    let content ← parseObject (parseValue fuel) fuel
    removeWhitespace
    view fun input => .ok (if input ≠ [] then .invalid else .map content)
  else if (← front) = '[' then
    let content ← parseArray (parseValue fuel) fuel
    removeWhitespace
    view fun input => .ok (if input ≠ [] then .invalid else .list content)
  else pure .invalid

/-- `parse`: the variant it returns, and the routines that failed on the way. -/
def parse (fuel : Nat) (input : Text) : Except Stop (Variant × List Routine) :=
  (parseRoot fuel ⟨input, []⟩).map fun p => (p.1, p.2.failed)

end JsonParser

end Brutils
