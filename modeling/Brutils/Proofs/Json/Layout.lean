import Brutils.Proofs.Json.Generated
import Brutils.Proofs.Json.Tokens

/-!
# `Brutils.Proofs.Json.Layout`: what the parser makes of a text it can read

`ReadsAs quiet F fuel s v` says that `parseValue` makes `v` of the text `s`, whatever comes after it,
as long as that is in `F`. There is a rule for each kind of value. The rules for containers
take the texts of the items with the white space around them (`Elements`, `Members`):
`readsAs_list` and `readsAs_map` go through the loops of `parseArray` and `parseObject`, by
induction on the items.

A member of a map may have no value: where the parser finds none, it stores a variant without
a value and goes on (`readsAs_blank`). Only this is recorded as a failure. `quiet` says that it
does not happen, and then the failures are those from before (`Gives`).
-/

set_option autoImplicit false

namespace Brutils.Proofs.Json

open Loop (Pass loop loop_again loop_leave)
open Brutils.JsonParser
open Brutils.JsonGenerator
open Brutils.JsonReader (readString readWord readRun isWord)

/-- White space only. -/
def Blank (s : Text) : Prop := ∀ c ∈ s, isSpace c

/-- The outcome is `a` with `rest` left, and with no new failures when it is quiet. -/
def Gives {α : Type} (out : Except Stop (α × ParserState)) (a : α) (rest : Text)
    (l : List Routine) (quiet : Prop) : Prop :=
  ∃ l', out = .ok (a, ⟨rest, l'⟩) ∧ (quiet → l' = l)

/-- The text begins with a character that ends a word. -/
def EndsWord (rest : Text) : Prop := ∃ c s, rest = c :: s ∧ c.isAlpha = false

/-- The text begins with a character that comes after an item. -/
def EndsItem (rest : Text) : Prop := ∃ c s, rest = c :: s ∧ (c = ',' ∨ c = ']' ∨ c = '}')

/-- `parseValue` makes `v` of `s` before the texts in `F`. -/
def ReadsAs (quiet : Prop) (F : Text → Prop) (fuel : Nat) (s : Text) (v : Variant) : Prop :=
  ∀ rest l, F rest → Gives (parseValue fuel ⟨s ++ rest, l⟩) v (skipSpace rest) l quiet

section
variable {s rest : Text} {l : List Routine} {v : Variant} {fuel : Nat} {F : Text → Prop}
  {quiet : Prop}

/-- White space in front is skipped. -/
theorem skipSpace_append (hs : Blank s) (rest : Text) : skipSpace (s ++ rest) = skipSpace rest :=
  List.dropWhile_append_of_pos hs

/-- Skipping ends at the first other character, and what comes later does not matter. -/
theorem skipSpace_append_of_cons {c : Char} {t : Text} (hs : skipSpace s = c :: t) (rest : Text) :
    skipSpace (s ++ rest) = c :: (t ++ rest) := by
  have hne : s.dropWhile isSpace = c :: t := hs
  rw [skipSpace, List.dropWhile_append, hne]
  rfl

/-- The characters that come after an item are no letters. -/
theorem EndsItem.endsWord (h : EndsItem rest) : EndsWord rest := by
  obtain ⟨c, s, rfl, rfl | rfl | rfl⟩ := h
  · exact ⟨',', s, rfl, rfl⟩
  · exact ⟨']', s, rfl, rfl⟩
  · exact ⟨'}', s, rfl, rfl⟩

/-- The characters that come after an item are no white space. -/
theorem EndsItem.skipSpace (h : EndsItem rest) : skipSpace rest = rest := by
  obtain ⟨c, s, rfl, rfl | rfl | rfl⟩ := h
  · exact skipSpace_cons_of_not rfl s
  · exact skipSpace_cons_of_not rfl s
  · exact skipSpace_cons_of_not rfl s

/-- White space in front does not keep a text from ending a word. -/
theorem EndsWord.append (h : EndsWord rest) (hs : Blank s) : EndsWord (s ++ rest) := by
  cases s with
  | nil => exact h
  | cons c s =>
    refine ⟨c, s ++ rest, rfl, ?_⟩
    by_contra hc
    have hspace := isSpace_of_isAlpha (by simpa using hc)
    rw [hs c List.mem_cons_self] at hspace
    cases hspace

/-- Fewer texts may come after. -/
theorem ReadsAs.mono {G : Text → Prop} (h : ReadsAs quiet F fuel s v) (hFG : ∀ rest, G rest → F rest) :
    ReadsAs quiet G fuel s v :=
  fun rest l hrest => h rest l (hFG rest hrest)

/-- `parseValue` begins with the white space. -/
theorem parseValue_skipSpace (fuel : Nat) (s : Text) (l : List Routine) :
    parseValue fuel ⟨skipSpace s, l⟩ = parseValue fuel ⟨s, l⟩ := by
  cases fuel with
  | zero => rfl
  | succ fuel => simp [parseValue]

/-- White space in front of a value. -/
theorem ReadsAs.after {a : Text} (h : ReadsAs quiet F fuel s v) (ha : Blank a) :
    ReadsAs quiet F fuel (a ++ s) v := by
  intro rest l hrest
  rw [List.append_assoc, ← parseValue_skipSpace, skipSpace_append ha, parseValue_skipSpace]
  exact h rest l hrest

/-- White space behind a value. -/
theorem ReadsAs.before {b : Text} (h : ReadsAs quiet EndsWord fuel s v) (hb : Blank b) :
    ReadsAs quiet EndsWord fuel (s ++ b) v := by
  intro rest l hrest
  rw [List.append_assoc, ← skipSpace_append hb rest]
  exact h (b ++ rest) l (hrest.append hb)

/-- `parseValue` on a text that begins with no white space. -/
theorem parseValue_of_parseByFront {c : Char} (hspace : isSpace c = false)
    (h : Gives (parseByFront (parseValue fuel) fuel ⟨c :: s, l⟩) v rest l quiet) :
    Gives (parseValue (fuel + 1) ⟨c :: s, l⟩) v (skipSpace rest) l quiet := by
  obtain ⟨l', hout, hquiet⟩ := h
  exact ⟨l', by simp [parseValue, skipSpace_cons_of_not hspace, hout], hquiet⟩

/-! ### Leaves -/

/-- The first quote after a string without quotes is the one that closes it. -/
theorem findQuote_clean (hs : '"' ∉ s) : findQuote (s ++ '"' :: rest) 0 = some s.length := by
  simp only [findQuote, List.drop_zero, Option.map_eq_some_iff, Nat.add_zero, exists_eq_right]
  refine List.findIdx?_eq_some_iff_getElem.mpr ⟨by simp, by simp, fun j hj => ?_⟩
  rw [List.getElem_append_left hj]
  intro hquote
  exact hs (of_decide_eq_true hquote ▸ List.getElem_mem hj)

/-- The character before the closing quote is the last one of the string. -/
theorem not_backslash_clean (hs : Clean s) :
    ¬(s.length ≠ 0 ∧ (s ++ '"' :: rest)[s.length - 1]? = some '\\') := by
  rintro ⟨hpos, hget⟩
  rw [List.getElem?_append_left (by omega), ← List.getLast?_eq_getElem?] at hget
  exact hs.2 hget

/-- A clean string ends at the first quote, since no backslash stands before it. -/
theorem readString_clean (hs : Clean s) (hlen : s.length + 1 < intLimit) :
    readString (s ++ '"' :: rest) = .ok (some rest) := by
  simp only [readString, findQuote_clean hs.1]
  rw [if_neg (by omega), if_neg (not_backslash_clean hs), if_neg (by omega)]
  simp

/-- A string that is too long for an `int`. -/
theorem readString_long (hs : Clean s) (hlen : ¬s.length + 1 < intLimit) :
    readString (s ++ '"' :: rest) = .error .tooLong := by
  simp only [readString, findQuote_clean hs.1]
  by_cases hlong : intLimit ≤ s.length
  · rw [if_pos hlong]
  · rw [if_neg hlong, if_neg (not_backslash_clean hs), if_pos (by omega)]

/-- `parseString` takes a clean string as it stands and skips the white space behind it. -/
theorem parseString_clean (fuel : Nat) (hs : Clean s) (hlen : s.length + 1 < intLimit)
    (rest : Text) :
    parseString (fuel + 1) ⟨'"' :: (s ++ '"' :: rest), l⟩
      = .ok (.string s, ⟨skipSpace rest, l⟩) := by
  rw [parseString_of_readString (readString_clean hs hlen), findQuote_clean hs.1]
  simp

/-- A word that denotes a value, before a character that ends it. -/
theorem parseLiteral_word {d : Char} {word : Text} (hword : ∀ c ∈ d :: word, c.isAlpha)
    (hlen : (d :: word).length < intLimit) (hvalue : isWord (d :: word)) (hrest : EndsWord rest) :
    parseLiteral ⟨d :: word ++ rest, l⟩ = .ok (wordValue (d :: word), ⟨skipSpace rest, l⟩) := by
  obtain ⟨c, rest, rfl, hc⟩ := hrest
  have htake : (d :: word ++ c :: rest).takeWhile Char.isAlpha = d :: word := by
    rw [List.takeWhile_append_of_pos hword]
    simp [hc]
  have hdrop : (d :: word ++ c :: rest).dropWhile Char.isAlpha = c :: rest := by
    rw [List.dropWhile_append_of_pos hword]
    simp [hc]
  have hread : readWord (d :: word ++ c :: rest) = .ok (true, c :: rest) := by
    unfold readWord readRun
    rw [htake, hdrop, if_neg (by omega), if_neg (by simp), hvalue]
    rfl
  -- the word ends where the class of letters does, at the first character of `rest`
  have hliteral := parseLiteral_eq (hword d List.mem_cons_self) (word ++ c :: rest) l
  rw [← List.cons_append, hread] at hliteral
  simp only [htake] at hliteral
  exact hliteral

/-- `parseByFront` on a character that begins none of the other kinds of values. -/
theorem parseByFront_other {c : Char}
    (hc : c ≠ '"' ∧ ¬(c.isDigit ∨ c = '-') ∧ c ≠ '{' ∧ c ≠ '[') (p : Parser Variant) :
    parseByFront p fuel ⟨c :: s, l⟩ = parseLiteral ⟨c :: s, l⟩ := by
  simp only [parseByFront, bind_apply, front_cons, ite_run, if_neg hc.1, if_neg hc.2.1,
    if_neg hc.2.2.1, if_neg hc.2.2.2]

/-- One of the three words, before a character that is no letter. -/
theorem readsAs_word (fuel : Nat) (d : Char) (word : Text) (hword : ∀ c ∈ d :: word, c.isAlpha)
    (hlen : (d :: word).length < intLimit) (hvalue : isWord (d :: word))
    (hd : d ≠ '"' ∧ ¬(d.isDigit ∨ d = '-') ∧ d ≠ '{' ∧ d ≠ '[') :
    ReadsAs quiet EndsWord (fuel + 1) (d :: word) (wordValue (d :: word)) := by
  intro rest l hrest
  have hliteral := parseLiteral_word (l := l) hword hlen hvalue hrest
  rw [← skipSpace_skipSpace]
  refine parseValue_of_parseByFront (isSpace_of_isAlpha (hword d List.mem_cons_self))
    ⟨l, ?_, fun _ => rfl⟩
  rw [← hliteral]
  exact parseByFront_other hd _

/-- The two words of a boolean. -/
theorem readsAs_bool (fuel : Nat) (b : Bool) :
    ReadsAs quiet EndsWord (fuel + 1) (genLiteral (.bool b)) (.bool b) := by
  cases b with
  | true =>
    exact readsAs_word fuel 't' "rue".toList (List.all_eq_true.mp rfl) (by decide)
      (by decide) (by decide)
  | false =>
    exact readsAs_word fuel 'f' "alse".toList (List.all_eq_true.mp rfl) (by decide)
      (by decide) (by decide)

/-- A string. One level is for the value, and one pass for the search of its end. -/
theorem readsAs_string (fuel : Nat) (hs : Clean s) (hlen : s.length + 1 < intLimit) :
    ReadsAs quiet F (fuel + 2) (genString (.string s)) (.string s) := by
  intro rest l _
  have hstring := parseString_clean (l := l) fuel hs hlen rest
  rw [genString_eq, ← skipSpace_skipSpace]
  simp only [List.cons_append, List.append_assoc, List.nil_append]
  refine parseValue_of_parseByFront rfl ⟨l, ?_, fun _ => rfl⟩
  rw [← hstring]
  simp [parseByFront]

/-- No value at all, before a character that comes after an item. -/
theorem readsAs_blank (fuel : Nat) (hs : Blank s) (hquiet : ¬quiet) :
    ReadsAs quiet EndsItem (fuel + 1) s .invalid := by
  intro rest l hrest
  have hskip := hrest.skipSpace
  rw [← parseValue_skipSpace, skipSpace_append hs, parseValue_skipSpace, ← skipSpace_skipSpace]
  obtain ⟨c, rest, rfl, hc⟩ := hrest
  have hclass : isSpace c = false ∧ c.isAlpha = false ∧ c ≠ '"' ∧ ¬(c.isDigit ∨ c = '-') ∧
      c ≠ '{' ∧ c ≠ '[' := by
    rcases hc with rfl | rfl | rfl <;> decide
  obtain ⟨hspace, halpha, hother⟩ := hclass
  refine parseValue_of_parseByFront hspace ⟨.parseLiteral :: l, ?_, fun h => absurd h hquiet⟩
  rw [hskip, parseByFront_other hother]
  exact parseLiteral_of_not_alpha halpha hspace rest l

end

/-! ### Lists -/

/-- A text that `parseValue` reads as an element of a list, with white space around it. -/
def Element (quiet : Prop) (fuel : Nat) (s : Text) (v : Variant) : Prop :=
  ReadsAs quiet EndsWord fuel s v ∧ v.isValid = true ∧ ∃ c t, skipSpace s = c :: t ∧ c ≠ ']'

/-- The text of the elements of a list up to its closing bracket. -/
inductive Elements (quiet : Prop) (fuel : Nat) : Text → VariantList → Prop
  | last {s : Text} {v : Variant} (h : Element quiet fuel s v) : Elements quiet fuel (s ++ [']']) [v]
  | cons {s t : Text} {v : Variant} {vs : VariantList} (h : Element quiet fuel s v)
      (hs : Elements quiet fuel t vs) : Elements quiet fuel (s ++ ',' :: t) (v :: vs)

section
variable {s rest : Text} {l : List Routine} {v : Variant} {vs : VariantList} {fuel : Nat}
  {quiet : Prop}

/-- White space behind an element belongs to it. -/
theorem Element.before {b : Text} (h : Element quiet fuel s v) (hb : Blank b) :
    Element quiet fuel (s ++ b) v := by
  obtain ⟨hread, hvalid, c, t, hs, hc⟩ := h
  exact ⟨hread.before hb, hvalid, c, t ++ b, skipSpace_append_of_cons hs b, hc⟩

/-- White space in front of an element belongs to it. -/
theorem Element.after {a : Text} (h : Element quiet fuel s v) (ha : Blank a) :
    Element quiet fuel (a ++ s) v := by
  obtain ⟨hread, hvalid, c, t, hs, hc⟩ := h
  exact ⟨hread.after ha, hvalid, c, t, by rw [skipSpace_append ha, hs], hc⟩

/-- `arrayPass` at the front of an element, whether the white space there is removed or not. -/
theorem arrayPass_front {x t : Text} {c : Char} (hx : skipSpace x = c :: t) (hc : c ≠ ']')
    (acc : VariantList) :
    arrayPass (parseValue fuel) acc ⟨x, l⟩ = arrayPass (parseValue fuel) acc ⟨c :: t, l⟩ := by
  have hspace : skipSpace (c :: t) = c :: t := skipSpace_eq_self hx
  cases x with
  | nil => cases hx
  | cons d x =>
    have hd : d ≠ ']' := by
      rintro rfl
      rw [skipSpace_cons_of_not rfl] at hx
      exact hc (List.cons.inj hx).1.symm
    simp only [arrayPass, bind_apply, front_cons, ite_run, if_neg hd, if_neg hc,
      removeWhitespace_apply, hx, hspace]

/-- A pass of the loop of `parseArray` over an element. -/
theorem arrayPass_reads (h : Element quiet fuel s v) (acc : VariantList) {d : Char} {tail x : Text}
    (hd : d = ',' ∨ d = ']') (hx : skipSpace x = skipSpace (s ++ d :: tail)) :
    Gives (arrayPass (parseValue fuel) acc ⟨x, l⟩) (.again (acc ++ [v]))
      (skipSpace (if d = ',' then tail else d :: tail)) l quiet := by
  obtain ⟨hread, hvalid, c, t, hs, hc⟩ := h
  have hends : EndsItem (d :: tail) := ⟨d, tail, rfl, hd.imp_right Or.inl⟩
  obtain ⟨l', hout, hquiet⟩ := hread (d :: tail) l hends.endsWord
  have hfront := skipSpace_append_of_cons hs (d :: tail)
  have hspace : skipSpace (c :: (t ++ d :: tail)) = c :: (t ++ d :: tail) := skipSpace_eq_self hfront
  rw [← parseValue_skipSpace, hfront, hends.skipSpace] at hout
  rw [hfront] at hx
  rw [arrayPass_front hx hc]
  refine ⟨l', ?_, hquiet⟩
  rcases hd with rfl | rfl
  · simp [arrayPass, hc, hspace, hout, hvalid]
  · simp [arrayPass, hc, hspace, hout, hvalid]

/-- The loop of `parseArray` on the elements of a list, whether the white space in front of the
first one is removed or not. -/
theorem arrayLoop_elements (h : Elements quiet fuel s vs) (acc : VariantList) (passes : Nat)
    (hpasses : vs.length < passes) {x : Text} (hx : skipSpace x = skipSpace (s ++ rest))
    (l : List Routine) :
    Gives (loop .outOfFuel (arrayPass (parseValue fuel)) passes acc ⟨x, l⟩) (acc ++ vs)
      (skipSpace rest) l quiet := by
  induction h generalizing acc passes x l with
  | last h =>
    obtain ⟨passes, rfl⟩ : ∃ n, passes = n + 2 := ⟨passes - 2, by simp at hpasses; omega⟩
    rw [List.append_assoc] at hx
    obtain ⟨l', hpass, hquiet⟩ := arrayPass_reads (l := l) h acc (Or.inr rfl) hx
    refine ⟨l', ?_, hquiet⟩
    rw [loop_again _ hpass]
    refine loop_leave _ ?_
    simp [arrayPass, skipSpace_cons_of_not (show isSpace ']' = false from rfl)]
  | cons h hs ih =>
    obtain ⟨passes, rfl⟩ := Nat.exists_eq_succ_of_ne_zero (by omega : passes ≠ 0)
    rw [List.append_assoc] at hx
    obtain ⟨l', hpass, hquiet⟩ := arrayPass_reads (l := l) h acc (Or.inl rfl) hx
    obtain ⟨l'', hloop, hquiet'⟩ := ih (acc ++ [_]) passes
      (by rw [List.length_cons] at hpasses; omega) (skipSpace_skipSpace _) l'
    refine ⟨l'', ?_, fun h => (hquiet' h).trans (hquiet h)⟩
    rw [loop_again _ hpass]
    simpa using hloop

/-- The text of a list after its opening bracket. White space is not allowed in an empty one. -/
def ListText (quiet : Prop) (fuel : Nat) (s : Text) (vs : VariantList) : Prop :=
  s = [']'] ∧ vs = [] ∨ Elements quiet fuel s vs

/-- `parseArray` on the text of a list. -/
theorem parseArray_gives (h : ListText quiet fuel s vs) (hfuel : vs.length < fuel) (rest : Text)
    (l : List Routine) :
    Gives (parseArray (parseValue fuel) fuel ⟨'[' :: (s ++ rest), l⟩) vs (skipSpace rest) l
      quiet := by
  have hrun : parseArray (parseValue fuel) fuel ⟨'[' :: (s ++ rest), l⟩
      = loop .outOfFuel (arrayPass (parseValue fuel)) fuel [] ⟨s ++ rest, l⟩ := by
    simp [parseArray, skipSpace_cons_of_not (show isSpace '[' = false from rfl)]
  rw [hrun]
  rcases h with ⟨rfl, rfl⟩ | h
  · obtain ⟨fuel, rfl⟩ := Nat.exists_eq_succ_of_ne_zero (Nat.ne_of_gt hfuel)
    exact ⟨l, loop_leave _ (by simp [arrayPass]), fun _ => rfl⟩
  · exact arrayLoop_elements h [] fuel hfuel rfl l

/-- A list. -/
theorem readsAs_list {F : Text → Prop} (h : ListText quiet fuel s vs) (hfuel : vs.length < fuel) :
    ReadsAs quiet F (fuel + 1) ('[' :: s) (.list vs) := by
  intro rest l _
  obtain ⟨l', hout, hquiet⟩ := parseArray_gives h hfuel rest l
  rw [List.cons_append, ← skipSpace_skipSpace]
  refine parseValue_of_parseByFront rfl ⟨l', ?_, hquiet⟩
  simp [parseByFront, hout]

end

/-! ### Maps -/

/-- The text of a member after its colon: a value, or nothing where that is allowed. -/
def MemberValue (quiet : Prop) (fuel : Nat) (s : Text) (v : Variant) : Prop :=
  ReadsAs quiet EndsWord fuel s v ∨ Blank s ∧ v = .invalid ∧ ¬quiet

/-- A text that `parseObject` reads as a member, with white space around it. -/
def Member (quiet : Prop) (fuel : Nat) (s : Text) (e : Text × Variant) : Prop :=
  ∃ a b t, s = a ++ '"' :: (e.1 ++ '"' :: (b ++ ':' :: t)) ∧ Blank a ∧ Blank b ∧ Clean e.1 ∧
    e.1.length + 1 < intLimit ∧ MemberValue quiet fuel t e.2

/-- The text of the members of a map up to its closing bracket. -/
inductive Members (quiet : Prop) (fuel : Nat) : Text → VariantMap → Prop
  | last {s : Text} {e : Text × Variant} (h : Member quiet fuel s e) :
      Members quiet fuel (s ++ ['}']) [e]
  | cons {s t : Text} {e : Text × Variant} {es : VariantMap} (h : Member quiet fuel s e)
      (hs : Members quiet fuel t es) : Members quiet fuel (s ++ ',' :: t) (e :: es)

/-- The map that takes the members one after another. -/
def assignAll (object : VariantMap) (es : VariantMap) : VariantMap :=
  es.foldl (fun object e => SortedAssoc.insert e.1 e.2 object) object

section
variable {s rest : Text} {l : List Routine} {e : Text × Variant} {es : VariantMap} {fuel : Nat}
  {quiet : Prop}

/-- A member's value is read as it is, also when it is blank. -/
theorem MemberValue.readsAs {v : Variant} (h : MemberValue quiet (fuel + 1) s v) :
    ReadsAs quiet EndsItem (fuel + 1) s v := by
  rcases h with h | ⟨hs, rfl, hquiet⟩
  · exact h.mono fun _ => EndsItem.endsWord
  · exact readsAs_blank fuel hs hquiet

/-- White space behind a member's value belongs to it. -/
theorem MemberValue.before {v : Variant} {b : Text} (h : MemberValue quiet fuel s v)
    (hb : Blank b) : MemberValue quiet fuel (s ++ b) v := by
  rcases h with h | ⟨hs, rfl, hquiet⟩
  · exact Or.inl (h.before hb)
  · refine Or.inr ⟨fun c hc => ?_, rfl, hquiet⟩
    exact (List.mem_append.mp hc).elim (hs c) (hb c)

/-- White space behind a member belongs to it. -/
theorem Member.before {b : Text} (h : Member quiet fuel s e) (hb : Blank b) :
    Member quiet fuel (s ++ b) e := by
  obtain ⟨a, b', t, rfl, ha, hb', hkey, hlen, hvalue⟩ := h
  exact ⟨a, b', t ++ b, by simp, ha, hb', hkey, hlen, hvalue.before hb⟩

/-- White space in front of a member belongs to it. -/
theorem Member.after {a : Text} (h : Member quiet fuel s e) (ha : Blank a) :
    Member quiet fuel (a ++ s) e := by
  obtain ⟨a', b, t, rfl, ha', hb, hkey, hlen, hvalue⟩ := h
  refine ⟨a ++ a', b, t, by simp, fun c hc => ?_, hb, hkey, hlen, hvalue⟩
  exact (List.mem_append.mp hc).elim (ha c) (ha' c)

/-- A pass of the loop of `parseObject` over a member. -/
theorem objectPass_reads (h : Member quiet (fuel + 1) s e) (acc : VariantMap) {tail : Text}
    (htail : EndsItem tail) :
    Gives (objectPass (parseValue (fuel + 1)) (fuel + 1) acc ⟨skipSpace (s ++ tail), l⟩)
      (.again (SortedAssoc.insert e.1 e.2 acc)) tail l quiet := by
  obtain ⟨a, b, t, rfl, ha, hb, hkey, hlen, hvalue⟩ := h
  obtain ⟨l', hout, hquiet⟩ := hvalue.readsAs tail l htail
  rw [← parseValue_skipSpace, htail.skipSpace] at hout
  -- the quote of the key is what comes after the white space
  have hfront : skipSpace (a ++ '"' :: (e.1 ++ '"' :: (b ++ ':' :: t)) ++ tail)
      = '"' :: (e.1 ++ '"' :: (b ++ ':' :: (t ++ tail))) := by
    rw [List.append_assoc, skipSpace_append ha, List.cons_append, skipSpace_cons_of_not rfl]
    simp
  have hcolon : skipSpace (b ++ ':' :: (t ++ tail)) = ':' :: (t ++ tail) := by
    rw [skipSpace_append hb, skipSpace_cons_of_not rfl]
  have hstring := parseString_clean (l := l) fuel hkey hlen (b ++ ':' :: (t ++ tail))
  rw [hcolon] at hstring
  rw [hfront]
  refine ⟨l', ?_, hquiet⟩
  simp [objectPass, hstring, Variant.isValid, Variant.toText,
    skipSpace_cons_of_not (show isSpace ':' = false from rfl), hout, htail.skipSpace]

/-- A pass over a comma. -/
theorem objectPass_comma (p : Parser Variant) (acc : VariantMap) (tail : Text) :
    objectPass p fuel acc ⟨',' :: tail, l⟩ = .ok (.again acc, ⟨skipSpace tail, l⟩) := by
  simp [objectPass]

/-- The loop of `parseObject` on the members of a map. It takes two passes for each member but
the last one. -/
theorem objectLoop_members (h : Members quiet (fuel + 1) s es) (acc : VariantMap) (passes : Nat)
    (hpasses : 2 * es.length ≤ passes) (l : List Routine) :
    Gives (loop .outOfFuel (objectPass (parseValue (fuel + 1)) (fuel + 1)) passes acc
        ⟨skipSpace (s ++ rest), l⟩)
      (assignAll acc es) (skipSpace rest) l quiet := by
  induction h generalizing acc passes l with
  | last h =>
    obtain ⟨passes, rfl⟩ : ∃ n, passes = n + 2 := ⟨passes - 2, by simp at hpasses; omega⟩
    obtain ⟨l', hpass, hquiet⟩ := objectPass_reads (l := l) h acc
      (⟨'}', rest, rfl, Or.inr (Or.inr rfl)⟩ : EndsItem ('}' :: rest))
    refine ⟨l', ?_, hquiet⟩
    rw [List.append_assoc, List.singleton_append, loop_again _ hpass]
    exact loop_leave _ (by simp [objectPass, assignAll])
  | @cons s t e es h hs ih =>
    obtain ⟨passes, rfl⟩ : ∃ n, passes = n + 2 := ⟨passes - 2, by simp at hpasses; omega⟩
    obtain ⟨l', hpass, hquiet⟩ := objectPass_reads (l := l) h acc
      (⟨',', t ++ rest, rfl, Or.inl rfl⟩ : EndsItem (',' :: (t ++ rest)))
    obtain ⟨l'', hloop, hquiet'⟩ := ih (SortedAssoc.insert e.1 e.2 acc) passes
      (by rw [List.length_cons] at hpasses; omega) l'
    refine ⟨l'', ?_, fun h => (hquiet' h).trans (hquiet h)⟩
    rw [List.append_assoc, List.cons_append, loop_again _ hpass,
      loop_again _ (objectPass_comma _ _ _)]
    exact hloop

/-- The text of a map after its opening bracket. -/
def MapText (quiet : Prop) (fuel : Nat) (s : Text) (es : VariantMap) : Prop :=
  (∃ a, Blank a ∧ s = a ++ ['}'] ∧ es = []) ∨ Members quiet fuel s es

/-- The first member begins with its quote. -/
theorem Members.front_quote (h : Members quiet fuel s es) (rest : Text) :
    ∃ t, skipSpace (s ++ rest) = '"' :: t := by
  have hmember : ∀ {s : Text} {e : Text × Variant}, Member quiet fuel s e → ∀ tail,
      ∃ t, skipSpace (s ++ tail) = '"' :: t := by
    rintro s e ⟨a, b, t, rfl, ha, -⟩ tail
    rw [List.append_assoc, skipSpace_append ha, List.cons_append]
    exact ⟨_, skipSpace_cons_of_not rfl _⟩
  cases h with
  | last h =>
    rw [List.append_assoc]
    exact hmember h _
  | cons h hs =>
    rw [List.append_assoc]
    exact hmember h _

/-- `parseObject` on the text of a map. An empty one leaves the white space behind it. -/
theorem parseObject_gives (h : MapText quiet fuel s es) (hfuel : 2 * es.length < fuel) (rest : Text)
    (l : List Routine) :
    ∃ rest', skipSpace rest' = skipSpace rest ∧
      Gives (parseObject (parseValue fuel) fuel ⟨'{' :: (s ++ rest), l⟩) (assignAll [] es) rest' l
        quiet := by
  obtain ⟨fuel, rfl⟩ := Nat.exists_eq_succ_of_ne_zero (by omega : fuel ≠ 0)
  have hopen : isSpace '{' = false := rfl
  rcases h with ⟨a, ha, rfl, rfl⟩ | h
  · have hclose : skipSpace (a ++ '}' :: rest) = '}' :: rest := by
      rw [skipSpace_append ha, skipSpace_cons_of_not rfl]
    refine ⟨rest, rfl, l, ?_, fun _ => rfl⟩
    rw [List.append_assoc, List.singleton_append]
    simp [parseObject, skipSpace_cons_of_not hopen, hclose, assignAll]
  · obtain ⟨t, ht⟩ := h.front_quote rest
    obtain ⟨l', hloop, hquiet⟩ := objectLoop_members h [] (fuel + 1) hfuel.le l
    refine ⟨skipSpace rest, skipSpace_skipSpace rest, l', ?_, hquiet⟩
    rw [ht] at hloop
    rw [← hloop]
    simp [parseObject, skipSpace_cons_of_not hopen, ht]

/-- A map. -/
theorem readsAs_map {F : Text → Prop} (h : MapText quiet fuel s es) (hfuel : 2 * es.length < fuel) :
    ReadsAs quiet F (fuel + 1) ('{' :: s) (.map (assignAll [] es)) := by
  intro rest l _
  obtain ⟨rest', hrest, l', hout, hquiet⟩ := parseObject_gives h hfuel rest l
  rw [List.cons_append, ← hrest]
  refine parseValue_of_parseByFront rfl ⟨l', ?_, hquiet⟩
  simp [parseByFront, hout]

end

end Brutils.Proofs.Json
