import Brutils.Json.Parser

/-!
# `Brutils.Json.Lenient`: the texts in which a container may break off

A grammar of the texts that are JSON but for containers that break off. It is a statement about
texts, for the parser's results to be compared with, and not translated from the source.

`Lenient part s rest counts broken` says that `s` begins with `part`, and that `rest` is what is
behind it and the white space after it. The productions whose `broken` is `true` are those that
JSON does not have:

* a string or a key with no quote behind its first one (`unclosed`, `unclosedKey`),
* a word other than `true`, `false` and `null`, and a character that begins no value (`noWord`,
  `noValue`),
* an object that ends before a character that cannot go on there (`noObject`, `noMember`,
  `noColon`),
* an array that ends behind something that is no element (`noElement`).

An array takes everything as an element that `counts`. A container that breaks off counts, too:
behind it the text of the container around it goes on. `HidesBreak` are the texts of one whole
container in which something is broken.

Tokens are cut off as long as they can be, and there is a character behind each number and word,
because the code looks at it. White space is what `skipSpace` removes.
-/

set_option autoImplicit false

namespace Brutils

namespace LenientJson

open JsonParser (skipSpace intLimit)

/-! ### Tokens -/

/-- `run` is all that there is of a class of characters before `rest`, and a character follows.
Its length is an `int`. -/
structure Run (p : Char → Bool) (run rest : Text) : Prop where
  all : ∀ c ∈ run, p c
  length : run.length < intLimit
  next : ∃ c tail, rest = c :: tail ∧ p c = false

/-- `body` is a string between two quotes: there is no quote in it, and the one behind it does not
follow a backslash. Its length and the quote are an `int`. -/
structure Literal (body : Text) : Prop where
  quote : '"' ∉ body
  backslash : body.getLast? ≠ some '\\'
  length : body.length + 1 < intLimit

/-- The letter of an exponent. -/
def IsMarker (c : Char) : Prop := c = 'e' ∨ c = 'E'

/-- `s` begins with the exponent of a number, or with none. The digits may be missing. -/
inductive ExponentPart : Text → Text → Prop
  | none {c : Char} {s : Text} (hc : ¬IsMarker c) : ExponentPart (c :: s) (c :: s)
  | plain {c : Char} {digits rest : Text} (hc : IsMarker c)
      (hsign : (digits ++ rest).head? ≠ some '-') (hrun : Run Char.isDigit digits rest) :
      ExponentPart (c :: (digits ++ rest)) rest
  | minus {c : Char} {digits rest : Text} (hc : IsMarker c) (hrun : Run Char.isDigit digits rest) :
      ExponentPart (c :: '-' :: (digits ++ rest)) rest

/-- `s` begins with the fraction and the exponent of a number. Each may be missing, and so may
the digits of the fraction. -/
inductive FractionPart : Text → Text → Prop
  | none {c : Char} {s rest : Text} (hc : c ≠ '.') (h : ExponentPart (c :: s) rest) :
      FractionPart (c :: s) rest
  | digits {digits s rest : Text} (hrun : Run Char.isDigit digits s) (h : ExponentPart s rest) :
      FractionPart ('.' :: (digits ++ s)) rest

/-- `s` begins with a number that has no sign. A zero at its beginning is its integer part. -/
inductive Unsigned : Text → Text → Prop
  | zero {s rest : Text} (h : FractionPart s rest) : Unsigned ('0' :: s) rest
  | digits {c : Char} {digits s rest : Text} (hc : c ≠ '0')
      (hrun : Run Char.isDigit (c :: digits) s) (h : FractionPart s rest) :
      Unsigned (c :: (digits ++ s)) rest

/-- `s` begins with a number. -/
inductive Number : Text → Text → Prop
  | plain {s rest : Text} (h : Unsigned s rest) : Number s rest
  | minus {s rest : Text} (h : Unsigned s rest) : Number ('-' :: s) rest

/-- A word that denotes a value. -/
def IsLiteralName (word : Text) : Prop :=
  word = "true".toList ∨ word = "false".toList ∨ word = "null".toList

/-- The character begins a string, a number, a container or a word. -/
def OpensValue (c : Char) : Prop :=
  c = '"' ∨ c.isDigit ∨ c = '-' ∨ c = '{' ∨ c = '[' ∨ c.isAlpha

/-! ### Values -/

/-- What a text can begin with. -/
inductive Part
  | value
  /-- the members of an object, behind its opening bracket or behind one of them -/
  | members
  /-- the elements of an array, behind its opening bracket or behind one of them -/
  | elements

/-- The text begins with the part, and the second text is behind it and the white space after it.
The flags say whether an array takes it as an element, and whether something in it is broken. -/
inductive Lenient : Part → Text → Text → Bool → Bool → Prop
  | string {body rest : Text} (h : Literal body) :
      Lenient .value ('"' :: (body ++ '"' :: rest)) (skipSpace rest) true false
  | unclosed {s : Text} (h : '"' ∉ s) : Lenient .value ('"' :: s) (skipSpace s) false true
  | number {s rest : Text} (h : Number s rest) : Lenient .value s (skipSpace rest) true false
  /-- a sign with no number behind it: it is no element, but an object goes on behind it -/
  | sign {c : Char} {s : Text} (hc : c.isDigit = false) :
      Lenient .value ('-' :: c :: s) (skipSpace (c :: s)) false false
  | word {word rest : Text} (h : Run Char.isAlpha word rest) (hword : IsLiteralName word) :
      Lenient .value (word ++ rest) (skipSpace rest) true false
  | noWord {word rest : Text} (h : Run Char.isAlpha word rest) (hne : word ≠ [])
      (hword : ¬IsLiteralName word) : Lenient .value (word ++ rest) (skipSpace rest) false true
  | noValue {c : Char} {s : Text} (hc : ¬OpensValue c) :
      Lenient .value (c :: s) (skipSpace (c :: s)) false true
  | emptyObject {s rest : Text} (hs : skipSpace s = '}' :: rest) :
      Lenient .value ('{' :: s) (skipSpace rest) true false
  | object {s t rest : Text} {broken : Bool} (hs : skipSpace s = '"' :: t)
      (h : Lenient .members ('"' :: t) rest true broken) : Lenient .value ('{' :: s) rest true broken
  | noObject {c : Char} {s t : Text} (hs : skipSpace s = c :: t) (hc : c ≠ '}' ∧ c ≠ '"') :
      Lenient .value ('{' :: s) (c :: t) true true
  | array {s rest : Text} {broken : Bool} (h : Lenient .elements s rest true broken) :
      Lenient .value ('[' :: s) rest true broken
  | closeObject {s : Text} : Lenient .members ('}' :: s) (skipSpace s) true false
  | comma {s rest : Text} {broken : Bool} (h : Lenient .members (skipSpace s) rest true broken) :
      Lenient .members (',' :: s) rest true broken
  | member {key s t u rest : Text} {counts broken broken' : Bool} (hkey : Literal key)
      (hcolon : skipSpace s = ':' :: t) (hvalue : Lenient .value (skipSpace t) u counts broken)
      (h : Lenient .members u rest true broken') :
      Lenient .members ('"' :: (key ++ '"' :: s)) rest true (broken || broken')
  | unclosedKey {s : Text} (h : '"' ∉ s) : Lenient .members ('"' :: s) (skipSpace s) true true
  | noColon {c : Char} {key s t : Text} (hkey : Literal key) (hs : skipSpace s = c :: t)
      (hc : c ≠ ':') : Lenient .members ('"' :: (key ++ '"' :: s)) (c :: t) true true
  | noMember {c : Char} {s : Text} (hc : c ≠ '}' ∧ c ≠ '"' ∧ c ≠ ',') :
      Lenient .members (c :: s) (skipSpace (c :: s)) true true
  | closeArray {s : Text} : Lenient .elements (']' :: s) (skipSpace s) true false
  /-- an element, and the comma behind it, which may be missing -/
  | element {c d : Char} {s u rest : Text} {broken broken' : Bool} (hc : c ≠ ']')
      (hvalue : Lenient .value (skipSpace (c :: s)) (d :: u) true broken)
      (h : Lenient .elements (skipSpace (if d = ',' then u else d :: u)) rest true broken') :
      Lenient .elements (c :: s) rest true (broken || broken')
  | noElement {c : Char} {s rest : Text} {broken : Bool} (hc : c ≠ ']')
      (hvalue : Lenient .value (skipSpace (c :: s)) rest false broken) :
      Lenient .elements (c :: s) rest true true

/-! ### Texts -/

/-- The text begins, behind white space, with a bracket that opens a container. -/
def OpensContainer (txt : Text) : Prop :=
  ∃ c s, skipSpace txt = c :: s ∧ (c = '{' ∨ c = '[')

/-- The text is one container, with white space around it, and something in it is broken. -/
def HidesBreak (txt : Text) : Prop :=
  OpensContainer txt ∧ ∃ counts, Lenient .value (skipSpace txt) [] counts true

/-- The text is blank, or it opens a container and has no end for it, not even one where it
breaks off. -/
def EndsInside (txt : Text) : Prop :=
  skipSpace txt = [] ∨
    OpensContainer txt ∧ ∀ rest counts broken, ¬Lenient .value (skipSpace txt) rest counts broken

end LenientJson

end Brutils
