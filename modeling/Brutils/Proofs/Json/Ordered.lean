import Brutils.Proofs.Json.Builds

/-!
# `Brutils.Proofs.Json.Ordered`: the maps that the parser builds

A variant that a routine of the parser returns is one that the source can hold: each of its maps
has its keys in strictly increasing order. The maps grow by assignments only, which keep the
order (`SortedAssoc.sorted_insert`).
-/

set_option autoImplicit false

namespace Brutils.Proofs.Json

open Brutils.JsonParser
open Variant (Ordered)

/-- A map that a `Variant` may hold. -/
def OrderedMap (object : VariantMap) : Prop :=
  SortedAssoc.Sorted object ∧ ∀ e ∈ object, Ordered e.2

/-- A list that a `Variant` may hold. -/
def OrderedList (array : VariantList) : Prop := ∀ v ∈ array, Ordered v

/-- The empty map is in order. -/
theorem orderedMap_nil : OrderedMap [] :=
  ⟨List.Pairwise.nil, fun _ he => absurd he List.not_mem_nil⟩

/-- The empty list has nothing out of order in it. -/
theorem orderedList_nil : OrderedList [] := fun _ hv => absurd hv List.not_mem_nil

/-- An assignment of an ordered value keeps a map ordered. -/
theorem OrderedMap.insert {object : VariantMap} (h : OrderedMap object) (key : Text)
    {value : Variant} (hvalue : Ordered value) :
    OrderedMap (SortedAssoc.insert key value object) := by
  refine ⟨SortedAssoc.sorted_insert key value object h.1, ?_⟩
  intro e he
  rcases SortedAssoc.mem_of_mem_insert he with rfl | hold
  · exact hvalue
  · exact h.2 e hold

/-- One more element. -/
theorem OrderedList.concat {array : VariantList} (h : OrderedList array) {element : Variant}
    (helement : Ordered element) : OrderedList (array ++ [element]) := by
  intro v hv
  rcases List.mem_append.mp hv with hold | hnew
  · exact h v hold
  · rw [List.mem_singleton.mp hnew]
    exact helement

/-- Keys are assigned in order and their values are in order, so everything that the parser builds
is. -/
theorem builds_ordered (P : Char → Prop) : Builds P Ordered OrderedList OrderedMap where
  invalid := .invalid
  null _ := .null
  bool := .bool
  float q _ := .float q
  string s _ _ := .string s
  list := .list
  map es h := .map es h.1 h.2
  nil := orderedList_nil
  concat _ _ h _ := h.concat
  empty := orderedMap_nil
  insert key _ _ h _ := h.insert key

/-- The variant that `parse` returns is one that the source can hold. -/
theorem parse_ordered {fuel : Nat} {input : Text} {content : Variant} {failed : List Routine}
    (h : parse fuel input = .ok (content, failed)) : Ordered content :=
  parse_builds (builds_ordered fun _ => True) (fun _ _ => Or.inr trivial) h

end Brutils.Proofs.Json
