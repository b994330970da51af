import Brutils.Proofs.Json.Builds

/-!
# `Brutils.Proofs.Json.Parsed`: the variants that the parser builds

`Parsed P v` lists what a variant from `parse` can be: its strings and keys are clean and no longer
than an `int` can count, its lists have no element without a value, and a null or a number in it
needs characters in `P`. `parse_parsed` says so, with the characters of the text outside its
strings for `P`.
-/

set_option autoImplicit false

namespace Brutils.Proofs.Json

open Brutils.JsonParser
open Brutils.JsonReader (bare)
open Variant (Occurs)

/-- A variant that the parser can build from a text in `P`. -/
inductive Parsed (P : Char → Prop) : Variant → Prop
  | invalid : Parsed P .invalid
  | null (h : P 'n') : Parsed P .null
  | bool (val : Bool) : Parsed P (.bool val)
  | float (val : ℚ) (h : ∃ c, c.isDigit ∧ P c) : Parsed P (.float val)
  | string (val : Text) (h : Clean val) (hshort : val.length + 1 < intLimit) : Parsed P (.string val)
  | list (val : VariantList) (hvalid : ∀ v ∈ val, v.isValid) (h : ∀ v ∈ val, Parsed P v) :
      Parsed P (.list val)
  | map (val : VariantMap) (hkeys : ∀ e ∈ val, Clean e.1 ∧ e.1.length + 1 < intLimit)
      (h : ∀ e ∈ val, Parsed P e.2) : Parsed P (.map val)

/-- A list that the parser can build. -/
def ParsedList (P : Char → Prop) (array : VariantList) : Prop :=
  ∀ v ∈ array, v.isValid ∧ Parsed P v

/-- A map that the parser can build. -/
def ParsedMap (P : Char → Prop) (object : VariantMap) : Prop :=
  ∀ e ∈ object, (Clean e.1 ∧ e.1.length + 1 < intLimit) ∧ Parsed P e.2

section
variable {P : Char → Prop} {v : Variant}

/-- One more element. -/
theorem ParsedList.concat {array : VariantList} (h : ParsedList P array) (hvalid : v.isValid)
    (hv : Parsed P v) : ParsedList P (array ++ [v]) := by
  intro w hw
  rcases List.mem_append.mp hw with hold | hnew
  · exact h w hold
  · rw [List.mem_singleton.mp hnew]
    exact ⟨hvalid, hv⟩

/-- A value is assigned to a key. -/
theorem ParsedMap.insert {object : VariantMap} (h : ParsedMap P object) {key : Text}
    (hkey : Clean key ∧ key.length + 1 < intLimit) (hv : Parsed P v) :
    ParsedMap P (SortedAssoc.insert key v object) := by
  intro e he
  rcases SortedAssoc.mem_of_mem_insert he with rfl | hold
  · exact ⟨hkey, hv⟩
  · exact h e hold

/-- The parser builds nothing else. -/
theorem builds_parsed : Builds P (Parsed P) (ParsedList P) (ParsedMap P) where
  invalid := .invalid
  null := .null
  bool := .bool
  float := .float
  string := .string
  list vs h := .list vs (fun v hv => (h v hv).1) fun v hv => (h v hv).2
  map es h := .map es (fun e he => (h e he).1) fun e he => (h e he).2
  nil := fun _ hv => absurd hv List.not_mem_nil
  concat _ _ h := h.concat
  empty := fun _ he => absurd he List.not_mem_nil
  insert _ _ _ h := h.insert

/-- What `parse` returns is built from the characters of the text outside its strings. -/
theorem parse_parsed {fuel : Nat} {txt : Text} {failed : List Routine}
    (h : parse fuel txt = .ok (v, failed)) : Parsed (· ∈ bare false txt) v :=
  parse_builds builds_parsed (fun _ hc => Or.inr hc) h

/-- There is no null without an `n`. -/
theorem Parsed.not_null (hv : Parsed P v) (hn : ¬P 'n') : ¬Occurs .null v := by
  intro hnull
  induction hnull with
  | here =>
    cases hv with
    | null h => exact hn h
  | element hmem _ ih =>
    cases hv with
    | list _ _ hvs => exact ih (hvs _ hmem)
  | value hmem _ ih =>
    cases hv with
    | map _ _ hes => exact ih (hes _ hmem)

end

end Brutils.Proofs.Json
