import Brutils.Proofs.Json.LenientTokens
import Brutils.Proofs.Json.Simulation

/-!
# `Brutils.Proofs.Json.Lenient`: the reader reads the lenient grammar

The reader of `Brutils.Json.Reader` goes step by step and has a stack, and the grammar of
`Brutils.Json.Lenient` says what a text looks like. Here they are shown to agree.

`runs_of_lenient` is one direction: along a derivation, by induction on it, the reader comes to
the end of the part, and the failures that it adds count exactly if the derivation is broken.
`reads_or_stuck` is the other one: a text that has no derivation is one at which the reader is
stuck. The induction is on the length of the text. An array asks for an element at the same
text, so it counts as one more than what is in it.
-/

set_option autoImplicit false

namespace Brutils.Proofs.Json

open Machine (Reaches Halts HaltsAt)
open Brutils.JsonParser
open Brutils.JsonReader
open Brutils.LenientJson

/-! ### Failures that count -/

/-- A routine other than `parseNumber` has failed. -/
def HasFailed (failed : List Routine) : Prop := ∃ r ∈ failed, r ≠ .parseNumber

/-- Nothing recorded, nothing failed. -/
@[simp] theorem not_hasFailed_nil : ¬HasFailed [] := by simp [HasFailed]

/-- One more name in the record. A number without a value does not count. -/
@[simp] theorem hasFailed_cons (r : Routine) (l : List Routine) :
    HasFailed (r :: l) ↔ r ≠ .parseNumber ∨ HasFailed l := by
  simp [HasFailed]

/-- A record of two parts. -/
@[simp] theorem hasFailed_append (l l' : List Routine) :
    HasFailed (l ++ l') ↔ HasFailed l ∨ HasFailed l' := by
  simp [HasFailed, or_and_right, exists_or]

/-! ### From the grammar to the reader -/

/-- Where the reader is when it reads a part. -/
def point : Part → Point
  | .value => .value
  | .members => .members
  | .elements => .elements

/-- From the part on the reader comes to `rest`, with nothing but the part read. The failures
that it adds on the way count exactly if the part is broken. -/
def Runs (part : Part) (s rest : Text) (counts broken : Bool) : Prop :=
  ∀ stack l, ∃ added, (HasFailed added ↔ broken = true) ∧
    Reaches step ⟨point part, stack, s, l⟩ ⟨.back counts, stack, rest, added ++ l⟩

section
variable {part part' : Part} {s t u rest : Text} {counts broken broken' : Bool} {c : Char}

/-- White space is removed behind every part. -/
theorem skipSpace_of_lenient (h : Lenient part s rest counts broken) :
    skipSpace rest = rest := by
  induction h with
  | object _ _ ih => exact ih
  | array _ ih => exact ih
  | comma _ ih => exact ih
  | member _ _ _ _ _ ih => exact ih
  | element _ _ _ _ ih => exact ih
  | noElement _ _ ih => exact ih
  | noObject hs => exact skipSpace_eq_self hs
  | noColon _ hs => exact skipSpace_eq_self hs
  | string => exact skipSpace_skipSpace _
  | unclosed => exact skipSpace_skipSpace _
  | number => exact skipSpace_skipSpace _
  | sign => exact skipSpace_skipSpace _
  | word => exact skipSpace_skipSpace _
  | noWord => exact skipSpace_skipSpace _
  | noValue => exact skipSpace_skipSpace _
  | emptyObject => exact skipSpace_skipSpace _
  | closeObject => exact skipSpace_skipSpace _
  | unclosedKey => exact skipSpace_skipSpace _
  | noMember => exact skipSpace_skipSpace _
  | closeArray => exact skipSpace_skipSpace _

/-- One step that reads the whole part. -/
theorem runs_of_step (added : List Routine) (hadded : HasFailed added ↔ broken = true)
    (h : ∀ stack l, step ⟨point part, stack, s, l⟩
      = .ok (afterValue stack rest (added ++ l) counts)) :
    Runs part s (skipSpace rest) counts broken :=
  fun stack l => ⟨added, hadded, .single (h stack l)⟩

/-- A step to a part that is the last thing in this one. -/
theorem Runs.of_step (hruns : Runs part' t rest counts broken)
    (h : ∀ stack l, step ⟨point part, stack, s, l⟩ = .ok ⟨point part', stack, t, l⟩) :
    Runs part s rest counts broken := by
  intro stack l
  obtain ⟨added, hadded, hreaches⟩ := hruns stack l
  exact ⟨added, hadded, .head (h stack l) hreaches⟩

/-! ### The steps at a value -/

/-- A string with its closing quote is a value. -/
theorem step_closedString (h : readString s = .ok (some rest)) (stack : List Frame)
    (l : List Routine) :
    step ⟨.value, stack, '"' :: s, l⟩ = .ok (afterValue stack rest l true) := by
  rw [step_string, h]
  rfl

/-- Without a closing quote `parseString` fails behind the opening quote, and there is no value. -/
theorem step_unclosedString (h : readString s = .ok none) (stack : List Frame)
    (l : List Routine) :
    step ⟨.value, stack, '"' :: s, l⟩
      = .ok (afterValue stack s (.parseString :: l) false) := by
  rw [step_string, h]
  rfl

/-- A number that ends before the text does is a value, or a failure of `parseNumber`. -/
theorem step_wholeNumber {valid : Bool} (hc : c.isDigit ∨ c = '-')
    (h : readNumber (c :: s) = .ok (valid, rest)) (stack : List Frame) (l : List Routine) :
    step ⟨.value, stack, c :: s, l⟩
      = .ok (afterValue stack rest (if valid then l else .parseNumber :: l) valid) := by
  rw [step_number stack s l hc, h]
  rfl

/-- A letter is no digit: the code points of the digits lie below those of the letters. -/
theorem not_isDigit_of_isAlpha (hc : c.isAlpha) : ¬c.isDigit := by
  intro hdigit
  have hletter : (decide (c.val ≥ 'A'.val ∧ c.val ≤ 'Z'.val) ||
      (decide (c.val ≥ 'a'.val) && decide (c.val ≤ 'z'.val))) = true := hc
  have hdigit : (decide (c.val ≥ '0'.val) && decide (c.val ≤ '9'.val)) = true := hdigit
  simp only [Bool.or_eq_true, Bool.and_eq_true, decide_eq_true_eq, ge_iff_le,
    UInt32.le_iff_toNat_le] at hletter hdigit
  have hnine : '9'.val.toNat = 57 := rfl
  have hA : 'A'.val.toNat = 65 := rfl
  have ha : 'a'.val.toNat = 97 := rfl
  omega

/-- A letter begins nothing but a word. -/
theorem ne_of_isAlpha (hc : c.isAlpha) :
    c ≠ '"' ∧ ¬(c.isDigit ∨ c = '-') ∧ c ≠ '{' ∧ c ≠ '[' := by
  have hne : ∀ d : Char, d.isAlpha = false → c ≠ d := by
    rintro d hd rfl
    rw [hc] at hd
    cases hd
  exact ⟨hne _ (by decide), not_or.mpr ⟨not_isDigit_of_isAlpha hc, hne _ (by decide)⟩,
    hne _ (by decide), hne _ (by decide)⟩

/-- A word that ends before the text does is a literal, or a failure of `parseLiteral`. -/
theorem step_wholeWord {valid : Bool} (hc : c.isAlpha)
    (h : readWord (c :: s) = .ok (valid, rest)) (stack : List Frame) (l : List Routine) :
    step ⟨.value, stack, c :: s, l⟩
      = .ok (afterValue stack rest (if valid then l else .parseLiteral :: l) valid) := by
  rw [step_word stack s l (ne_of_isAlpha hc) hc, h]
  rfl

/-- At a character that no value starts with `parseLiteral` fails, and the reader stays there. -/
theorem step_noValue (hc : ¬OpensValue c) (stack : List Frame) (l : List Routine) :
    step ⟨.value, stack, c :: s, l⟩
      = .ok (afterValue stack (c :: s) (.parseLiteral :: l) false) := by
  obtain ⟨hquote, hdigit, hsign, hobject, harray, halpha⟩ :
      c ≠ '"' ∧ ¬c.isDigit ∧ c ≠ '-' ∧ c ≠ '{' ∧ c ≠ '[' ∧ ¬c.isAlpha := by
    simpa only [OpensValue, not_or] using hc
  simp only [step, stepValue, if_neg hquote, if_neg (not_or.mpr ⟨hdigit, hsign⟩), if_neg hobject,
    if_neg harray, if_neg halpha]
  rfl

/-- The bracket of an object, by the character behind it. -/
theorem step_object (hs : skipSpace s = c :: t) (stack : List Frame) (l : List Routine) :
    step ⟨.value, stack, '{' :: s, l⟩
      = .ok (if c = '}' then afterValue stack t l true
        else if c = '"' then ⟨.members, stack, c :: t, l⟩
        else afterValue stack (c :: t) (.parseObject :: l) true) := by
  have hnumber : ¬('{'.isDigit ∨ '{' = '-') := by decide
  simp only [step, stepValue, if_neg (show '{' ≠ '"' by decide), if_neg hnumber, if_true, hs]
  split
  · rfl
  · split <;> rfl

/-- An opening bracket opens a list. -/
theorem step_array (stack : List Frame) (l : List Routine) :
    step ⟨.value, stack, '[' :: s, l⟩ = .ok ⟨.elements, stack, s, l⟩ := by
  have hnumber : ¬('['.isDigit ∨ '[' = '-') := by decide
  simp only [step, stepValue, if_neg (show '[' ≠ '"' by decide), if_neg hnumber,
    if_neg (show '[' ≠ '{' by decide), if_true]
  rfl

/-! ### The steps between members and elements -/

/-- A closing brace ends the map, which is a value. -/
theorem step_closeObject (stack : List Frame) (l : List Routine) :
    step ⟨.members, stack, '}' :: s, l⟩ = .ok (afterValue stack s l true) := rfl

/-- A comma in a map is passed, wherever it stands. -/
theorem step_comma (stack : List Frame) (l : List Routine) :
    step ⟨.members, stack, ',' :: s, l⟩ = .ok ⟨.members, stack, skipSpace s, l⟩ := rfl

/-- At any other character the map breaks off, and counts as a value all the same. -/
theorem step_noMember (hc : c ≠ '}' ∧ c ≠ '"' ∧ c ≠ ',') (stack : List Frame)
    (l : List Routine) :
    step ⟨.members, stack, c :: s, l⟩
      = .ok (afterValue stack (c :: s) (.parseObject :: l) true) := by
  simp only [step, stepMembers, if_neg hc.1, if_neg hc.2.1, if_neg hc.2.2]
  rfl

/-- At a key without its closing quote both `parseString` and `parseObject` fail, and what has been
read of the map counts as a value. -/
theorem step_unclosedKey (h : readString s = .ok none) (stack : List Frame) (l : List Routine) :
    step ⟨.members, stack, '"' :: s, l⟩
      = .ok (afterValue stack s (.parseObject :: .parseString :: l) true) := by
  show (stepKey stack l s).mapError Halt.stuck = _
  rw [stepKey, h]
  rfl

/-- A closing bracket ends the list, which is a value. -/
theorem step_closeArray (stack : List Frame) (l : List Routine) :
    step ⟨.elements, stack, ']' :: s, l⟩ = .ok (afterValue stack s l true) := rfl

/-- Any other character is taken for the first one of an element. -/
theorem step_nextElement (hc : c ≠ ']') (stack : List Frame) (l : List Routine) :
    step ⟨.elements, stack, c :: s, l⟩ = .ok ⟨.value, .array :: stack, skipSpace (c :: s), l⟩ := by
  simp only [step, stepElements, if_neg hc]
  rfl

/-! ### A whole derivation -/

/-- A value of a member, and then what is behind it. -/
theorem Runs.member (hvalue : Runs .value t u counts broken) (hu : skipSpace u = u)
    (h : Runs .members u rest true broken')
    (hkey : ∀ stack l, step ⟨.members, stack, s, l⟩ = .ok ⟨.value, .object :: stack, t, l⟩) :
    Runs .members s rest true (broken || broken') := by
  intro stack l
  obtain ⟨added, hadded, hreaches⟩ := hvalue (.object :: stack) l
  obtain ⟨added', hadded', hreaches'⟩ := h stack (added ++ l)
  refine ⟨added' ++ added, ?_, ?_⟩
  · rw [hasFailed_append, hadded, hadded', Bool.or_eq_true, or_comm]
  · have hback : step ⟨.back counts, .object :: stack, u, added ++ l⟩
        = .ok ⟨.members, stack, u, added ++ l⟩ := by
      simp only [step, hu]
    rw [List.append_assoc]
    exact (Reaches.head (hkey stack l) hreaches).trans (.head hback hreaches')

/-- An element, and then what is behind it and its comma. -/
theorem Runs.element {d : Char} (hc : c ≠ ']')
    (hvalue : Runs .value (skipSpace (c :: s)) (d :: u) true broken)
    (h : Runs .elements (skipSpace (if d = ',' then u else d :: u)) rest true broken') :
    Runs .elements (c :: s) rest true (broken || broken') := by
  intro stack l
  obtain ⟨added, hadded, hreaches⟩ := hvalue (.array :: stack) l
  obtain ⟨added', hadded', hreaches'⟩ := h stack (added ++ l)
  refine ⟨added' ++ added, ?_, ?_⟩
  · rw [hasFailed_append, hadded, hadded', Bool.or_eq_true, or_comm]
  · have hback : step ⟨.back true, .array :: stack, d :: u, added ++ l⟩
        = .ok ⟨.elements, stack, skipSpace (if d = ',' then u else d :: u), added ++ l⟩ := rfl
    rw [List.append_assoc]
    exact (Reaches.head (step_nextElement hc stack l) hreaches).trans (.head hback hreaches')

/-- Something that is no element: the array ends there. -/
theorem Runs.noElement (hc : c ≠ ']')
    (hvalue : Runs .value (skipSpace (c :: s)) rest false broken) (hrest : skipSpace rest = rest) :
    Runs .elements (c :: s) rest true true := by
  intro stack l
  obtain ⟨added, -, hreaches⟩ := hvalue (.array :: stack) l
  refine ⟨.parseArray :: added, by simp, ?_⟩
  have hback : step ⟨.back false, .array :: stack, rest, added ++ l⟩
      = .ok ⟨.back true, stack, rest, .parseArray :: (added ++ l)⟩ := by
    simp only [step, afterValue, hrest]
  exact (Reaches.head (step_nextElement hc stack l) hreaches).trans (.single hback)

/-- The reader follows a derivation. The induction is on the derivation, and each production is
the steps above. -/
theorem runs_of_lenient (h : Lenient part s rest counts broken) : Runs part s rest counts broken := by
  induction h with
  | string h =>
    exact runs_of_step [] (by simp) (step_closedString (readString_of_literal h))
  | unclosed h =>
    exact runs_of_step [.parseString] (by simp) (step_unclosedString (readString_of_unclosed h))
  | number h =>
    have hread := readNumber_of_number h
    obtain ⟨c, tail, rfl, hc⟩ := front_of_number h
    exact runs_of_step [] (by simp) (step_wholeNumber hc hread)
  -- a sign before no digit: `parseNumber` fails behind the sign
  | @sign c s hc =>
    have hzero : c ≠ '0' := by
      rintro rfl
      exact absurd hc (by decide)
    have hread : readNumber ('-' :: c :: s) = .ok (false, c :: s) := by
      rw [readNumber, if_pos rfl, readUnsigned, if_neg hzero, if_neg (by simp [hc])]
    exact runs_of_step [.parseNumber] (by simp) (step_wholeNumber (Or.inr rfl) hread)
  | word h hword =>
    have hread := readWord_of_run h
    rw [(isWord_iff _).mpr hword] at hread
    rcases hword with rfl | rfl | rfl
    · exact runs_of_step [] (by simp) (step_wholeWord (by decide) hread)
    · exact runs_of_step [] (by simp) (step_wholeWord (by decide) hread)
    · exact runs_of_step [] (by simp) (step_wholeWord (by decide) hread)
  | @noWord word rest h hne hword =>
    have hread := readWord_of_run h
    rw [Bool.eq_false_iff.mpr fun hw => hword ((isWord_iff _).mp hw)] at hread
    cases word with
    | nil => exact absurd rfl hne
    | cons c word =>
      exact runs_of_step [.parseLiteral] (by simp) (step_wholeWord (h.all c List.mem_cons_self) hread)
  | noValue hc => exact runs_of_step [.parseLiteral] (by simp) (step_noValue hc)
  -- the cases of `{` differ in the character behind the white space
  | emptyObject hs =>
    refine runs_of_step [] (by simp) fun stack l => ?_
    exact step_object hs stack l
  | object hs _ ih => exact ih.of_step (step_object hs)
  | @noObject c s t hs hc =>
    have hruns : Runs .value ('{' :: s) (skipSpace (c :: t)) true true := by
      refine runs_of_step [.parseObject] (by simp) fun stack l => ?_
      have hstep := step_object hs stack l
      rw [if_neg hc.1, if_neg hc.2] at hstep
      exact hstep
    rwa [skipSpace_eq_self hs] at hruns
  | array _ ih => exact ih.of_step step_array
  | closeObject => exact runs_of_step [] (by simp) step_closeObject
  | comma _ ih => exact ih.of_step step_comma
  -- the run through the value comes between the two productions for members
  | member hkey hcolon hvalue _ ihvalue ih =>
    exact ihvalue.member (skipSpace_of_lenient hvalue) ih
      (step_readKey (readString_of_literal hkey) hcolon)
  | unclosedKey h =>
    exact runs_of_step [.parseObject, .parseString] (by simp)
      (step_unclosedKey (readString_of_unclosed h))
  | @noColon c key s t hkey hs hc =>
    have hruns : Runs .members ('"' :: (key ++ '"' :: s)) (skipSpace (c :: t)) true true := by
      refine runs_of_step [.parseObject] (by simp) fun stack l => ?_
      have hstep := step_readKey (readString_of_literal hkey) hs stack l
      rw [if_neg hc] at hstep
      exact hstep
    rwa [skipSpace_eq_self hs] at hruns
  | noMember hc => exact runs_of_step [.parseObject] (by simp) (step_noMember hc)
  | closeArray => exact runs_of_step [] (by simp) step_closeArray
  | element hc _ _ ihvalue ih => exact ihvalue.element hc ih
  | noElement hc hvalue ih => exact ih.noElement hc (skipSpace_of_lenient hvalue)

/-! ### Lengths -/

/-- What is behind a part is no longer than the text. -/
theorem length_le_of_lenient (h : Lenient part s rest counts broken) :
    rest.length ≤ s.length := by
  induction h with
  | string h =>
    refine (length_skipSpace_le _).trans ?_
    simp only [List.length_cons, List.length_append]
    omega
  | unclosed h => exact (length_skipSpace_le _).trans (Nat.le_succ _)
  | number h =>
    have hread := readNumber_of_number h
    obtain ⟨c, tail, rfl, -⟩ := front_of_number h
    have hlen := length_of_readNumber hread
    exact (length_skipSpace_le _).trans (by omega)
  | sign hc => exact (length_skipSpace_le _).trans (Nat.le_succ _)
  | word h hword => exact (length_skipSpace_le _).trans (by simp)
  | noWord h hne hword => exact (length_skipSpace_le _).trans (by simp)
  | noValue hc => exact length_skipSpace_le _
  -- white space is skipped before the members, so the length comes from what is left of it
  | @emptyObject s rest hs =>
    have hlen := length_skipSpace_le s
    rw [hs, List.length_cons] at hlen
    exact (length_skipSpace_le _).trans (by rw [List.length_cons]; omega)
  | @object s t rest broken hs h ih =>
    have hlen := length_skipSpace_le s
    rw [hs] at hlen
    rw [List.length_cons]
    omega
  | @noObject c s t hs hc =>
    have hlen := length_skipSpace_le s
    rw [hs] at hlen
    exact hlen.trans (Nat.le_succ _)
  | array h ih => exact ih.trans (Nat.le_succ _)
  | closeObject => exact (length_skipSpace_le _).trans (Nat.le_succ _)
  | @comma s rest broken h ih => exact (ih.trans (length_skipSpace_le s)).trans (Nat.le_succ _)
  | @member key s t u rest counts broken broken' hkey hcolon hvalue h ihvalue ih =>
    have hlen := length_skipSpace_le s
    rw [hcolon, List.length_cons] at hlen
    have hvalue := ihvalue.trans (length_skipSpace_le t)
    simp only [List.length_cons, List.length_append]
    omega
  | unclosedKey h => exact (length_skipSpace_le _).trans (Nat.le_succ _)
  | @noColon c key s t hkey hs hc =>
    have hlen := length_skipSpace_le s
    rw [hs] at hlen
    simp only [List.length_cons, List.length_append] at hlen ⊢
    omega
  | noMember hc => exact length_skipSpace_le _
  | closeArray => exact (length_skipSpace_le _).trans (Nat.le_succ _)
  -- an element that counts may be followed by a comma, which is taken as well
  | @element c d s u rest broken broken' hc hvalue h ihvalue ih =>
    have hlen := ihvalue.trans (length_skipSpace_le _)
    refine (ih.trans (length_skipSpace_le _)).trans (le_trans ?_ hlen)
    split
    · exact Nat.le_succ _
    · exact le_refl _
  | @noElement c s rest broken hc hvalue ih => exact ih.trans (length_skipSpace_le _)

/-- What an array takes as an element has a character. -/
theorem length_lt_of_lenient (h : Lenient .value s rest true broken) :
    rest.length < s.length := by
  -- a production that counts takes a quote, a bracket, a letter or a digit
  cases h with
  | string h =>
    refine (length_skipSpace_le _).trans_lt ?_
    simp only [List.length_cons, List.length_append]
    omega
  | number h =>
    have hread := readNumber_of_number h
    obtain ⟨c, tail, rfl, -⟩ := front_of_number h
    have hlen := length_of_readNumber hread
    rw [Bool.toNat_true] at hlen
    exact (length_skipSpace_le _).trans_lt (by omega)
  | word h hword =>
    refine (length_skipSpace_le _).trans_lt ?_
    rw [List.length_append]
    rcases hword with rfl | rfl | rfl
    · exact Nat.lt_add_of_pos_left (by decide)
    · exact Nat.lt_add_of_pos_left (by decide)
    · exact Nat.lt_add_of_pos_left (by decide)
  | @emptyObject s rest hs =>
    have hlen := length_skipSpace_le s
    rw [hs, List.length_cons] at hlen
    exact (length_skipSpace_le _).trans_lt (by rw [List.length_cons]; omega)
  | @object s t rest _ hs h =>
    have hlen := length_skipSpace_le s
    rw [hs] at hlen
    have hmembers := length_le_of_lenient h
    rw [List.length_cons]
    omega
  | @noObject c s t hs hc =>
    have hlen := length_skipSpace_le s
    rw [hs] at hlen
    exact Nat.lt_succ_of_le hlen
  | array h => exact Nat.lt_succ_of_le (length_le_of_lenient h)

/-- A container counts, also where it breaks off. -/
theorem counts_of_lenient (h : Lenient part s rest counts broken) (hpart : part ≠ .value) :
    counts = true := by
  cases h with
  | string | unclosed | number | sign | word | noWord | noValue | emptyObject | object
  | noObject | array => exact absurd rfl hpart
  | closeObject | comma | member | unclosedKey | noColon | noMember | closeArray | element
  | noElement => rfl

/-! ### From the reader to the grammar -/

/-- The reader cannot go on somewhere in the part. -/
def StuckIn (part : Part) (s : Text) : Prop :=
  ∀ stack l, ∃ reason, Halts step ⟨point part, stack, s, l⟩ (.stuck reason)

/-- The text begins with the part, or the reader is stuck in it. -/
def ReadsOrStuck (part : Part) (s : Text) : Prop :=
  (∃ rest counts broken, Lenient part s rest counts broken) ∨ StuckIn part s

/-- A token at which the reader is stuck. -/
theorem stuckIn_of_step (reason : Stuck)
    (h : ∀ stack l, step ⟨point part, stack, s, l⟩ = .error (.stuck reason)) : StuckIn part s :=
  fun stack l => ⟨reason, .now (h stack l)⟩

/-- A part of this part in which the reader is stuck. -/
theorem StuckIn.of_reaches (hstuck : StuckIn part' t)
    (h : ∀ stack l, ∃ stack' l', Reaches step ⟨point part, stack, s, l⟩
      ⟨point part', stack', t, l'⟩) : StuckIn part s := by
  intro stack l
  obtain ⟨stack', l', hreaches⟩ := h stack l
  obtain ⟨reason, hhalts⟩ := hstuck stack' l'
  exact ⟨reason, hhalts.of_reaches hreaches⟩

/-- A part of this part that is reached by one step. -/
theorem StuckIn.of_step (push : List Frame → List Frame) (hstuck : StuckIn part' t)
    (h : ∀ stack l, step ⟨point part, stack, s, l⟩ = .ok ⟨point part', push stack, t, l⟩) :
    StuckIn part s :=
  hstuck.of_reaches fun stack l => ⟨push stack, l, .single (h stack l)⟩

/-- From a quote on, a string is read, closed or not, unless it is too long for an `int`. -/
theorem reads_string (s : Text) : ReadsOrStuck .value ('"' :: s) := by
  cases hread : readString s with
  | error e =>
    refine Or.inr (stuckIn_of_step e fun stack l => ?_)
    rw [point, step_string, hread]
    rfl
  | ok rest =>
    cases rest with
    | none => exact Or.inl ⟨_, _, _, .unclosed (not_mem_of_readString hread)⟩
    | some rest =>
      obtain ⟨body, rfl, hbody⟩ := literal_of_readString hread
      exact Or.inl ⟨_, _, _, .string hbody⟩

/-- From a digit or a sign on, a number or a lone sign is read. If the text ends first, the reader
is stuck. -/
theorem reads_number (hc : c.isDigit ∨ c = '-') (s : Text) : ReadsOrStuck .value (c :: s) := by
  cases hread : readNumber (c :: s) with
  | error e =>
    refine Or.inr (stuckIn_of_step e fun stack l => ?_)
    rw [point, step_number stack s l hc, hread]
    rfl
  | ok p =>
    obtain ⟨valid, rest⟩ := p
    rcases number_of_readNumber hc hread with ⟨-, hnumber⟩ | ⟨-, -, rfl, d, tail, rfl, hd⟩
    · exact Or.inl ⟨_, _, _, .number hnumber⟩
    · exact Or.inl ⟨_, _, _, .sign hd⟩

/-- From a letter on, a word is read to its end, whether it is a literal or not. If the text ends
first, the reader is stuck. -/
theorem reads_word (hc : c.isAlpha) (s : Text) : ReadsOrStuck .value (c :: s) := by
  cases hread : readWord (c :: s) with
  | error e =>
    refine Or.inr (stuckIn_of_step e fun stack l => ?_)
    rw [point, step_word stack s l (ne_of_isAlpha hc) hc, hread]
    rfl
  | ok p =>
    obtain ⟨valid, rest⟩ := p
    obtain ⟨word, hs, hword, -⟩ := run_of_readWord hread
    rw [hs]
    by_cases hname : IsLiteralName word
    · exact Or.inl ⟨_, _, _, .word hword hname⟩
    · refine Or.inl ⟨_, _, _, .noWord hword ?_ hname⟩
      -- the first letter is in the word, for the word is as long as it can be
      rintro rfl
      obtain ⟨d, tail, hrest, hd⟩ := hword.next
      rw [List.nil_append, hrest] at hs
      rw [← (List.cons.inj hs).1, hc] at hd
      cases hd

/-- A map is read if its members are, which are shorter than the text with the brace. -/
theorem reads_object (s : Text)
    (hmembers : ∀ t, t.length ≤ s.length → ReadsOrStuck .members t) :
    ReadsOrStuck .value ('{' :: s) := by
  have hlen := length_skipSpace_le s
  cases hs : skipSpace s with
  | nil =>
    have hnumber : ¬('{'.isDigit ∨ '{' = '-') := by decide
    refine Or.inr (stuckIn_of_step .endOfText fun stack l => ?_)
    simp only [point, step, stepValue, if_neg (show '{' ≠ '"' by decide), if_neg hnumber, if_true,
      hs]
    rfl
  | cons c t =>
    by_cases hclose : c = '}'
    · rw [hclose] at hs
      exact Or.inl ⟨_, _, _, .emptyObject hs⟩
    by_cases hkey : c = '"'
    · rw [hkey] at hs
      rw [hs] at hlen
      rcases hmembers ('"' :: t) hlen with ⟨rest, counts, broken, h⟩ | hstuck
      · rw [counts_of_lenient h (by simp)] at h
        exact Or.inl ⟨_, _, _, .object hs h⟩
      · exact Or.inr (hstuck.of_step id (step_object hs))
    · exact Or.inl ⟨_, _, _, .noObject hs ⟨hclose, hkey⟩⟩

/-- A value, by its first character. What is in a container is shorter than the container. -/
theorem reads_value (s : Text)
    (hmembers : ∀ t, t.length < s.length → ReadsOrStuck .members t)
    (helements : ∀ t, t.length < s.length → ReadsOrStuck .elements t) : ReadsOrStuck .value s := by
  cases s with
  | nil => exact Or.inr (stuckIn_of_step .endOfText fun stack l => rfl)
  | cons c s =>
    by_cases hquote : c = '"'
    · rw [hquote]
      exact reads_string s
    by_cases hnumber : c.isDigit ∨ c = '-'
    · exact reads_number hnumber s
    by_cases hobject : c = '{'
    · rw [hobject]
      exact reads_object s fun t ht => hmembers t (Nat.lt_succ_of_le ht)
    by_cases harray : c = '['
    · rw [harray]
      rcases helements s (Nat.lt_succ_self _) with ⟨rest, counts, broken, h⟩ | hstuck
      · rw [counts_of_lenient h (by simp)] at h
        exact Or.inl ⟨_, _, _, .array h⟩
      · exact Or.inr (hstuck.of_step id step_array)
    by_cases halpha : c.isAlpha
    · exact reads_word halpha s
    · refine Or.inl ⟨_, _, _, .noValue ?_⟩
      rintro (h | h | h | h | h | h)
      · exact hquote h
      · exact hnumber (Or.inl h)
      · exact hnumber (Or.inr h)
      · exact hobject h
      · exact harray h
      · exact halpha h

/-- A member, from its key on. -/
theorem reads_member (s : Text) (hvalue : ∀ t, t.length ≤ s.length → ReadsOrStuck .value t)
    (hmembers : ∀ t, t.length ≤ s.length → ReadsOrStuck .members t) :
    ReadsOrStuck .members ('"' :: s) := by
  cases hread : readString s with
  | error e =>
    refine Or.inr (stuckIn_of_step e fun stack l => ?_)
    show (stepKey stack l s).mapError Halt.stuck = _
    rw [stepKey, hread]
    rfl
  | ok rest =>
    cases rest with
    | none => exact Or.inl ⟨_, _, _, .unclosedKey (not_mem_of_readString hread)⟩
    | some rest =>
      have hlen := length_of_readString hread
      have hskip := length_skipSpace_le rest
      cases hrest : skipSpace rest with
      | nil =>
        refine Or.inr (stuckIn_of_step .endOfText fun stack l => ?_)
        show (stepKey stack l s).mapError Halt.stuck = _
        rw [stepKey_of_end stack l hread hrest]
        rfl
      | cons c t =>
        rw [hrest, List.length_cons] at hskip
        by_cases hcolon : c = ':'
        · subst hcolon
          have hstep := step_readKey hread hrest
          have ht := length_skipSpace_le t
          rcases hvalue (skipSpace t) (by omega) with ⟨u, counts, broken, hv⟩ | hstuck
          · have hu := length_le_of_lenient hv
            have hspace := skipSpace_of_lenient hv
            rcases hmembers u (by omega) with ⟨rest', counts', broken', h⟩ | hstuck
            · obtain ⟨key, rfl, hkey⟩ := literal_of_readString hread
              rw [counts_of_lenient h (by simp)] at h
              exact Or.inl ⟨_, _, _, .member hkey hrest hv h⟩
            -- the reader goes through the value before it is stuck behind it
            · refine Or.inr (hstuck.of_reaches fun stack l => ?_)
              obtain ⟨added, -, hreaches⟩ := runs_of_lenient hv (.object :: stack) l
              have hback : step ⟨.back counts, .object :: stack, u, added ++ l⟩
                  = .ok ⟨.members, stack, u, added ++ l⟩ := by
                simp only [step, hspace]
              exact ⟨stack, added ++ l, (Reaches.head (hstep stack l) hreaches).trans (.single hback)⟩
          · exact Or.inr (hstuck.of_step (.object :: ·) hstep)
        · obtain ⟨key, rfl, hkey⟩ := literal_of_readString hread
          exact Or.inl ⟨_, _, _, .noColon hkey hrest hcolon⟩

/-- The members of an object, by the next character. -/
theorem reads_members (s : Text) (hvalue : ∀ t, t.length < s.length → ReadsOrStuck .value t)
    (hmembers : ∀ t, t.length < s.length → ReadsOrStuck .members t) : ReadsOrStuck .members s := by
  cases s with
  | nil => exact Or.inr (stuckIn_of_step .endOfText fun stack l => rfl)
  | cons c s =>
    by_cases hclose : c = '}'
    · rw [hclose]
      exact Or.inl ⟨_, _, _, .closeObject⟩
    by_cases hquote : c = '"'
    · rw [hquote]
      exact reads_member s (fun t ht => hvalue t (Nat.lt_succ_of_le ht))
        fun t ht => hmembers t (Nat.lt_succ_of_le ht)
    by_cases hcomma : c = ','
    · rw [hcomma]
      have hlen := length_skipSpace_le s
      rcases hmembers (skipSpace s) (Nat.lt_succ_of_le hlen) with
        ⟨rest, counts, broken, h⟩ | hstuck
      · rw [counts_of_lenient h (by simp)] at h
        exact Or.inl ⟨_, _, _, .comma h⟩
      · exact Or.inr (hstuck.of_step id step_comma)
    · exact Or.inl ⟨_, _, _, .noMember ⟨hclose, hquote, hcomma⟩⟩

/-- The elements of an array. The element may be the whole text, and behind it there is less. -/
theorem reads_elements (s : Text) (hvalue : ∀ t, t.length ≤ s.length → ReadsOrStuck .value t)
    (helements : ∀ t, t.length < s.length → ReadsOrStuck .elements t) :
    ReadsOrStuck .elements s := by
  cases s with
  | nil => exact Or.inr (stuckIn_of_step .endOfText fun stack l => rfl)
  | cons c s =>
    by_cases hclose : c = ']'
    · rw [hclose]
      exact Or.inl ⟨_, _, _, .closeArray⟩
    have hlen := length_skipSpace_le (c :: s)
    rcases hvalue (skipSpace (c :: s)) hlen with ⟨u, counts, broken, hv⟩ | hstuck
    · cases counts with
      | false => exact Or.inl ⟨_, _, _, .noElement hclose hv⟩
      | true =>
        have hshort := length_lt_of_lenient hv
        cases u with
        | nil =>
          -- behind the element there is no character to look at
          refine Or.inr fun stack l => ?_
          obtain ⟨added, -, hreaches⟩ := runs_of_lenient hv (.array :: stack) l
          have hend : step ⟨.back true, .array :: stack, [], added ++ l⟩
              = .error (.stuck .endOfText) := rfl
          exact ⟨.endOfText,
            ((Halts.now hend).of_reaches hreaches).head (step_nextElement hclose stack l)⟩
        | cons d u =>
          have hnext := length_skipSpace_le (if d = ',' then u else d :: u)
          have hif : (if d = ',' then u else d :: u).length ≤ (d :: u).length := by
            split
            · exact Nat.le_succ _
            · exact le_refl _
          rcases helements (skipSpace (if d = ',' then u else d :: u)) (by omega) with
            ⟨rest, counts, broken', h⟩ | hstuck
          · rw [counts_of_lenient h (by simp)] at h
            exact Or.inl ⟨_, _, _, .element hclose hv h⟩
          · refine Or.inr (hstuck.of_reaches fun stack l => ?_)
            obtain ⟨added, -, hreaches⟩ := runs_of_lenient hv (.array :: stack) l
            exact ⟨stack, added ++ l,
              (Reaches.head (step_nextElement hclose stack l) hreaches).trans (.single rfl)⟩
    · exact Or.inr (hstuck.of_step (.array :: ·) (step_nextElement hclose))

/-- Every text begins with the part, or the reader is stuck in it. The induction is on the length,
and for an array the elements come after the values of the same length. -/
theorem reads_or_stuck (n : Nat) : ∀ s : Text, s.length ≤ n →
    ReadsOrStuck .value s ∧ ReadsOrStuck .members s ∧ ReadsOrStuck .elements s := by
  induction n with
  | zero =>
    intro s hs
    obtain rfl := List.length_eq_zero_iff.mp (Nat.le_zero.mp hs)
    exact ⟨reads_value [] nofun nofun, reads_members [] nofun nofun,
      Or.inr (stuckIn_of_step .endOfText fun stack l => rfl)⟩
  | succ n ih =>
    intro s hs
    have hvalue : ∀ t, t.length ≤ s.length → ReadsOrStuck .value t := fun t ht =>
      reads_value t (fun u hu => (ih u (by omega)).2.1) fun u hu => (ih u (by omega)).2.2
    exact ⟨hvalue s (le_refl _),
      reads_members s (fun t ht => (ih t (by omega)).1) fun t ht => (ih t (by omega)).2.1,
      reads_elements s hvalue fun t ht => (ih t (by omega)).2.2⟩

end

end Brutils.Proofs.Json
