import Brutils.Proofs.Json.Reading

/-!
# `Brutils.Proofs.Json.RoundTrip`: parsing a generated text

`parse_generate` is the result: a list or a map whose leaves are booleans and strings is
what `parse` makes of its compact text. The strings must have no quote in them and no
backslash at their end, because `genString` escapes nothing. The bound on the text keeps every
string in the range of `int` (`readable_of_plain`), and `parse_generated` does the rest.

`separated` is the compact text between the brackets (`genArray_compact`, `genObject_compact`).
`parseValue_genValue` is the result for a value in the middle of a text, before a character
that ends a word (`Delimited`), which a comma and a closing bracket do.
-/

set_option autoImplicit false

namespace Brutils.Proofs.Json

open Brutils.JsonParser
open Brutils.JsonGenerator

/-! ### Compact texts -/

/-- Items with `", "` between them. -/
def separated : List Text → Text
  | [] => []
  | item :: items => item ++ items.flatMap ([',', ' '] ++ ·)

/-- The text of a member of a map. -/
def genMember (depth : Nat) (e : Text × Variant) : Text :=
  genString (.string e.1) ++ [':', ' '] ++ genValue e.2 true depth

/-- Items with a bracket behind them. -/
theorem write_eq_separated {α : Type} (code : α → Text) (close : Text) (as : List α) :
    ItemList.write code [',', ' '] close as = separated (as.map code) ++ close := by
  have htail : ∀ as, ItemList.tail code [',', ' '] close as
      = (as.map code).flatMap ([',', ' '] ++ ·) ++ close := by
    intro as
    induction as with
    | nil => rfl
    | cons a as ih =>
      rw [ItemList.tail_cons, ItemList.write_cons, ih]
      simp
  cases as with
  | nil => rfl
  | cons a as =>
    rw [ItemList.write_cons, htail]
    simp [separated]

/-- The compact text of a list. -/
theorem genArray_compact (list : VariantList) (depth : Nat) :
    genArray list true depth
      = '[' :: separated (list.map fun v => genValue v true (depth + 1)) ++ [']'] := by
  rw [genArray_eq, elementsText, write_eq_separated]
  rfl

/-- The compact text of a map. -/
theorem genObject_compact (object : VariantMap) (depth : Nat) :
    genObject object true depth
      = '{' :: separated (object.map (genMember (depth + 1))) ++ ['}'] := by
  rw [genObject_eq, membersText, write_eq_separated]
  rfl

/-! ### Values in a text -/

/-- A text that begins with a character that ends a word and is no whitespace. -/
def Delimited : Text → Prop
  | [] => False
  | c :: _ => c.isAlpha = false ∧ isSpace c = false

/-- A delimiter is no white space. -/
theorem Delimited.skipSpace {s : Text} (h : Delimited s) : skipSpace s = s := by
  cases s with
  | nil => exact h.elim
  | cons c s => exact skipSpace_cons_of_not h.2 s

/-- A delimiter ends a word. -/
theorem Delimited.endsWord {s : Text} (h : Delimited s) : EndsWord s := by
  cases s with
  | nil => exact h.elim
  | cons c s => exact ⟨c, s, rfl, h.1⟩

/-- `parseValue` reads back what `genValue` writes for `v`, whatever comes after it. -/
def ReadsBack (parseValue : Parser Variant) (depth : Nat) (v : Variant) : Prop :=
  ∀ rest l, Delimited rest →
    parseValue ⟨genValue v true depth ++ rest, l⟩ = .ok (v, ⟨rest, l⟩)

/-- `parseValue` reads back `v` when the fuel and the range of `int` are above the length of its
text. -/
def ReadsBackWithin (fuel depth : Nat) (v : Variant) : Prop :=
  (genValue v true depth).length < fuel → (genValue v true depth).length < intLimit →
    ReadsBack (parseValue fuel) depth v

section
variable {v : Variant}

/-- No string is longer than the text it is in. -/
theorem readable_of_plain (hplain : Plain v) (hordered : v.Ordered) (depth : Nat)
    (hlimit : (genValue v true depth).length < intLimit) : Readable true v := by
  induction hplain generalizing depth with
  | bool b => exact .bool b
  | string s hclean =>
    rw [genValue_string, genString_eq, List.length_append, List.length_cons,
      List.length_singleton] at hlimit
    exact .string s hclean (by omega)
  | list vs hplain ih =>
    rw [genValue_list, List.length_cons] at hlimit
    cases hordered with
    | list _ hordered =>
      refine .list vs (fun h => nomatch h) fun v hv => ?_
      have hle := length_le_elementsText true depth hv
      exact ih v hv (hordered v hv) (depth + 1) (by omega)
  | map es hkeys hplain ih =>
    rw [genValue_map, List.length_cons] at hlimit
    cases hordered with
    | map _ hsorted hordered =>
      refine .map es hsorted (fun e he => ?_) fun e he _ => ?_
      · have hle := length_le_membersText true depth he
        exact ⟨hkeys e he, by omega⟩
      · have hle := length_le_membersText true depth he
        exact ih e he (hordered e he) (depth + 1) (by omega)

/-- `parseValue` reads back every plain variant, with more fuel than its text has characters. -/
theorem parseValue_genValue (hplain : Plain v) (hordered : v.Ordered) (depth fuel : Nat) :
    ReadsBackWithin fuel depth v := by
  intro hfuel hlimit rest l hrest
  have hreads : ReadsText True true depth fuel v :=
    genValue_reads (readable_of_plain hplain hordered depth hlimit) (fun _ => hplain) depth fuel
  obtain ⟨l', hout, hquiet⟩ := hreads hfuel rest l hrest.endsWord
  rw [hout, hrest.skipSpace, hquiet trivial]

end

/-- Parsing undoes generating: a list or a map of plain leaves comes back as it was, and no
routine fails. -/
theorem parse_generate (v : Variant) (hroot : v.isMap ∨ v.isList) (hplain : Plain v)
    (hordered : v.Ordered) (hlimit : (generate v true).length < intLimit) :
    ∃ n, ∀ fuel ≥ n, parse fuel (generate v true) = .ok (v, []) := by
  refine ⟨(generate v true).length, fun fuel hfuel => ?_⟩
  obtain ⟨failed, hparse, hquiet⟩ :=
    parse_generated hroot (readable_of_plain hplain hordered 0 hlimit) hfuel
  rw [hparse, hquiet hplain]

/-- The result on `{"a": [true]}`. -/
theorem parse_generate_nested : ∃ n, ∀ fuel ≥ n,
    parse fuel (generate (.map [("a".toList, .list [.bool true])]) true)
      = .ok (.map [("a".toList, .list [.bool true])], []) := by
  refine parse_generate _ (Or.inl rfl) ?_ ?_ ?_
  · refine .map _ (by decide) fun e he => ?_
    obtain rfl := List.mem_singleton.mp he
    refine .list _ fun v hv => ?_
    obtain rfl := List.mem_singleton.mp hv
    exact .bool true
  · refine .map _ (by simp [SortedAssoc.Sorted]) fun e he => ?_
    obtain rfl := List.mem_singleton.mp he
    refine .list _ fun v hv => ?_
    obtain rfl := List.mem_singleton.mp hv
    exact .bool true
  · simp [generate, genValue, genObject_compact, genArray_compact, separated, genMember,
      genString_eq, genLiteral, Variant.isValid, Variant.isNull, Variant.isBool, Variant.toBool,
      intLimit]

end Brutils.Proofs.Json
