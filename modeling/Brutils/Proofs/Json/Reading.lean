import Brutils.Proofs.Json.Layout

/-!
# `Brutils.Proofs.Json.Reading`: which variants are read back from their text

`Readable compact v` lists what the parser asks for: the strings and keys end at the first
quote, none is too long for an `int`, the elements of a list have a value, and no list is empty
unless `compact` is set. A map may have members without a value, which are written as nothing.

`genValue_reads` is the induction over the variant, with the rules of the layout, and
`parse_generated` the result for a whole text.
-/

set_option autoImplicit false

namespace Brutils.Proofs.Json

open Brutils.JsonParser
open Brutils.JsonGenerator

/-- A variant that is read back from its text. -/
inductive Readable (compact : Bool) : Variant → Prop
  | bool (val : Bool) : Readable compact (.bool val)
  | string (val : Text) (h : Clean val) (hshort : val.length + 1 < intLimit) :
      Readable compact (.string val)
  | list (val : VariantList) (hempty : compact = false → val ≠ [])
      (h : ∀ v ∈ val, Readable compact v) : Readable compact (.list val)
  | map (val : VariantMap) (hsorted : SortedAssoc.Sorted val)
      (hkeys : ∀ e ∈ val, Clean e.1 ∧ e.1.length + 1 < intLimit)
      (h : ∀ e ∈ val, e.2 ≠ .invalid → Readable compact e.2) : Readable compact (.map val)

/-- What can be read back is written at all. -/
theorem Readable.isWritten {compact : Bool} {v : Variant} (hv : Readable compact v) :
    isWritten v := by
  cases hv <;> rfl

/-! ### The items of a container -/

section
variable {quiet : Prop} {fuel : Nat} {compact : Bool} {depth : Nat}

/-- The first element of a list has its text, and the others have white space in front. -/
theorem elements_tail {s : Text} {v : Variant} {vs : VariantList} (h : Element quiet fuel s v)
    (hvs : ∀ v ∈ vs, Element quiet fuel (genElement compact (depth + 1) v) v) :
    Elements quiet fuel (s ++ ItemList.tail (genElement compact (depth + 1)) [',', ' ']
      (closing compact depth ']') vs) (v :: vs) := by
  induction vs generalizing s v with
  | nil =>
    have hlast := h.before (isSpace_getWhiteSpace compact depth)
    rw [ItemList.tail_nil, closing, ← List.append_assoc]
    exact .last hlast
  | cons w vs ih =>
    have hnext := (hvs w List.mem_cons_self).after
      (List.forall_mem_singleton.mpr (rfl : isSpace ' ' = true))
    have hrest := ih hnext fun v hv => hvs v (List.mem_cons_of_mem _ hv)
    exact .cons h hrest

/-- A member and those behind it, with the separators that the generator writes. -/
theorem members_tail {s : Text} {e : Text × Variant} {es : VariantMap} (h : Member quiet fuel s e)
    (hes : ∀ e ∈ es, Member quiet fuel (genEntry compact (depth + 1) e) e) :
    Members quiet fuel (s ++ ItemList.tail (genEntry compact (depth + 1)) [',', ' ']
      (closing compact depth '}') es) (e :: es) := by
  induction es generalizing s e with
  | nil =>
    have hlast := h.before (isSpace_getWhiteSpace compact depth)
    rw [ItemList.tail_nil, closing, ← List.append_assoc]
    exact .last hlast
  | cons e' es ih =>
    have hnext := (hes e' List.mem_cons_self).after
      (List.forall_mem_singleton.mpr (rfl : isSpace ' ' = true))
    have hrest := ih hnext fun e he => hes e (List.mem_cons_of_mem _ he)
    exact .cons h hrest

/-- The text of a list. -/
theorem listText_elementsText {vs : VariantList} (hempty : compact = false → vs ≠ [])
    (hvs : ∀ v ∈ vs, Element quiet fuel (genElement compact (depth + 1) v) v) :
    ListText quiet fuel (elementsText compact depth vs) vs := by
  cases vs with
  | nil =>
    cases compact with
    | true => exact Or.inl ⟨rfl, rfl⟩
    | false => exact absurd rfl (hempty rfl)
  | cons v vs =>
    exact Or.inr (elements_tail (hvs v List.mem_cons_self)
      fun v hv => hvs v (List.mem_cons_of_mem _ hv))

/-- The text of a map. -/
theorem mapText_membersText {es : VariantMap}
    (hes : ∀ e ∈ es, Member quiet fuel (genEntry compact (depth + 1) e) e) :
    MapText quiet fuel (membersText compact depth es) es := by
  cases es with
  | nil => exact Or.inl ⟨_, isSpace_getWhiteSpace compact depth, rfl, rfl⟩
  | cons e es =>
    exact Or.inr (members_tail (hes e List.mem_cons_self)
      fun e he => hes e (List.mem_cons_of_mem _ he))

/-- An element from its value. -/
theorem element_genElement {v : Variant} (hv : isWritten v)
    (h : ReadsAs quiet EndsWord fuel (genValue v compact depth) v) :
    Element quiet fuel (genElement compact depth v) v := by
  obtain ⟨s, hs⟩ := genValue_opener hv compact depth
  have hbegins := beginsValue_opener v
  have helement : Element quiet fuel (genValue v compact depth) v := by
    refine ⟨h, isValid_of_isWritten hv, opener v, s, ?_, hbegins.ne_bracket⟩
    rw [hs, skipSpace_cons_of_not hbegins.isSpace]
  exact helement.after (isSpace_getWhiteSpace compact depth)

/-- A member from its value. -/
theorem member_genEntry {e : Text × Variant} (hkey : Clean e.1 ∧ e.1.length + 1 < intLimit)
    (h : MemberValue quiet fuel (' ' :: genValue e.2 compact depth) e.2) :
    Member quiet fuel (genEntry compact depth e) e := by
  refine ⟨getWhiteSpace compact depth, [], ' ' :: genValue e.2 compact depth, ?_,
    isSpace_getWhiteSpace compact depth, List.forall_mem_nil _, hkey.1, hkey.2, h⟩
  simp [genEntry, genString_eq]

end

/-! ### Lengths -/

section
variable (compact : Bool) (depth : Nat)

/-- The values of a list are part of its text. -/
theorem length_le_elementsText {vs : VariantList} {v : Variant} (hv : v ∈ vs) :
    (genValue v compact (depth + 1)).length ≤ (elementsText compact depth vs).length := by
  have hle := ItemList.length_le_write (genElement compact (depth + 1)) [',', ' ']
    (closing compact depth ']') hv
  rw [genElement, List.length_append] at hle
  unfold elementsText
  omega

/-- Every element has a character. -/
theorem length_le_elements {vs : VariantList} (hvs : ∀ v ∈ vs, isWritten v) :
    vs.length ≤ (elementsText compact depth vs).length := by
  have hmany : 1 * vs.length ≤ (elementsText compact depth vs).length := by
    refine ItemList.mul_length_le_write _ _ _ fun v hv => ?_
    obtain ⟨s, hs⟩ := genValue_opener (hvs v hv) compact (depth + 1)
    rw [genElement, hs, List.length_append, List.length_cons]
    omega
  omega

/-- The keys and values of a map are part of its text. -/
theorem length_le_membersText {es : VariantMap} {e : Text × Variant} (he : e ∈ es) :
    e.1.length + 4 + (genValue e.2 compact (depth + 1)).length
      ≤ (membersText compact depth es).length := by
  have hle := ItemList.length_le_write (genEntry compact (depth + 1)) [',', ' ']
    (closing compact depth '}') he
  simp only [genEntry, genString_eq, List.length_append, List.length_cons, List.length_nil] at hle
  unfold membersText
  omega

/-- Every member has two characters. -/
theorem length_le_members (es : VariantMap) :
    2 * es.length ≤ (membersText compact depth es).length := by
  refine ItemList.mul_length_le_write _ _ _ fun e _ => ?_
  simp only [genEntry, genString_eq, List.length_append, List.length_cons]
  omega

end

/-! ### Variants -/

section
variable {quiet : Prop} {compact : Bool} {v : Variant} {vs : VariantList} {es : VariantMap}
  {fuel : Nat} {depth : Nat}

/-- `v` is read back when the fuel is above the length of its text. -/
def ReadsText (quiet : Prop) (compact : Bool) (depth fuel : Nat) (v : Variant) : Prop :=
  (genValue v compact depth).length < fuel →
    ReadsAs quiet EndsWord fuel (genValue v compact depth) v

/-- A list whose elements are read back. -/
theorem listText_of_reads (hempty : compact = false → vs ≠ []) (hvs : ∀ v ∈ vs, isWritten v)
    (hreads : ∀ v ∈ vs, ReadsText quiet compact (depth + 1) fuel v)
    (hfuel : (elementsText compact depth vs).length < fuel) :
    ListText quiet fuel (elementsText compact depth vs) vs ∧ vs.length < fuel := by
  have hmany := length_le_elements compact depth hvs
  refine ⟨listText_elementsText hempty fun v hv => ?_, by omega⟩
  have hle := length_le_elementsText compact depth hv
  exact element_genElement (hvs v hv) (hreads v hv (by omega))

/-- A map whose values are read back, as far as there are any. -/
theorem mapText_of_reads (hkeys : ∀ e ∈ es, Clean e.1 ∧ e.1.length + 1 < intLimit)
    (hvalues : ∀ e ∈ es, quiet → e.2 ≠ .invalid)
    (hreads : ∀ e ∈ es, e.2 ≠ .invalid → ReadsText quiet compact (depth + 1) fuel e.2)
    (hfuel : (membersText compact depth es).length < fuel) :
    MapText quiet fuel (membersText compact depth es) es ∧ 2 * es.length < fuel := by
  have hmany := length_le_members compact depth es
  refine ⟨mapText_membersText fun e he => member_genEntry (hkeys e he) ?_, by omega⟩
  have hspace : Blank [' '] := List.forall_mem_singleton.mpr rfl
  by_cases hvalue : e.2 = .invalid
  · -- nothing is written after the colon and the space
    have htext : genValue e.2 compact (depth + 1) = [] := by
      rw [hvalue]
      simp [genValue, Variant.isValid, Variant.isBool, Variant.isInt, Variant.isFloat,
        Variant.isDouble, Variant.isString]
    rw [htext]
    exact Or.inr ⟨hspace, hvalue, fun h => hvalues e he h hvalue⟩
  · have hle := length_le_membersText compact depth he
    exact Or.inl ((hreads e he hvalue (by omega)).after hspace)

/-- The values of a plain map are plain, so none of them is blank. -/
theorem Plain.values {quiet : Prop} (hquiet : quiet → Plain (.map es)) :
    ∀ e ∈ es, (quiet → Plain e.2) ∧ (quiet → e.2 ≠ .invalid) := by
  intro e he
  have hplain : quiet → Plain e.2 := fun h => by
    cases hquiet h with
    | map _ _ hvalues => exact hvalues e he
  refine ⟨hplain, fun h heq => ?_⟩
  have hinvalid := hplain h
  rw [heq] at hinvalid
  cases hinvalid

/-- The elements of a plain list are plain. -/
theorem Plain.elements {quiet : Prop} (hquiet : quiet → Plain (.list vs)) :
    ∀ v ∈ vs, quiet → Plain v := by
  intro v hv h
  cases hquiet h with
  | list _ helements => exact helements v hv

/-- A readable variant is read back from its text. Only a member without a value is not quiet. -/
theorem genValue_reads (hv : Readable compact v) (hquiet : quiet → Plain v) (depth fuel : Nat) :
    ReadsText quiet compact depth fuel v := by
  induction hv generalizing depth fuel with
  | bool b =>
    intro hfuel
    obtain ⟨fuel, rfl⟩ := Nat.exists_eq_succ_of_ne_zero (by omega : fuel ≠ 0)
    rw [genValue_bool]
    exact readsAs_bool fuel b
  | string s hclean hshort =>
    intro hfuel
    rw [genValue_string] at hfuel ⊢
    obtain ⟨fuel, rfl⟩ : ∃ n, fuel = n + 2 := by
      rw [genString_eq, List.length_append, List.length_cons, List.length_singleton] at hfuel
      exact ⟨fuel - 2, by omega⟩
    exact readsAs_string fuel hclean hshort
  | list vs hempty hvs ih =>
    intro hfuel
    obtain ⟨fuel, rfl⟩ := Nat.exists_eq_succ_of_ne_zero (by omega : fuel ≠ 0)
    rw [genValue_list, List.length_cons] at hfuel
    rw [genValue_list]
    obtain ⟨htext, hmany⟩ := listText_of_reads hempty (fun v hv => (hvs v hv).isWritten)
      (fun v hv => ih v hv (Plain.elements hquiet v hv) (depth + 1) fuel) (by omega)
    exact readsAs_list htext hmany
  | map es hsorted hkeys hes ih =>
    intro hfuel
    obtain ⟨fuel, rfl⟩ := Nat.exists_eq_succ_of_ne_zero (by omega : fuel ≠ 0)
    rw [genValue_map, List.length_cons] at hfuel
    rw [genValue_map]
    have hvalues := Plain.values hquiet
    obtain ⟨htext, hmany⟩ := mapText_of_reads hkeys (fun e he => (hvalues e he).2)
      (fun e he hne => ih e he hne (hvalues e he).1 (depth + 1) fuel) (by omega)
    have hmap : ReadsAs quiet EndsWord (fuel + 1) ('{' :: membersText compact depth es)
        (.map (assignAll [] es)) := readsAs_map htext hmany
    rwa [assignAll, SortedAssoc.foldl_insert [] es hsorted] at hmap

/-- Parsing undoes generating for a readable list or map, and nothing fails when it is plain. -/
theorem parse_generated (hroot : v.isMap ∨ v.isList) (hv : Readable compact v) {fuel : Nat}
    (hfuel : (generate v compact).length ≤ fuel) :
    ∃ failed, parse fuel (generate v compact) = .ok (v, failed) ∧ (Plain v → failed = []) := by
  unfold generate at hfuel ⊢
  cases hv with
  | bool b => exact absurd hroot (by simp [Variant.isMap, Variant.isList])
  | string s hclean hshort => exact absurd hroot (by simp [Variant.isMap, Variant.isList])
  | list vs hempty hvs =>
    rw [genValue_list, List.length_cons] at hfuel
    rw [genValue_list]
    obtain ⟨htext, hmany⟩ := listText_of_reads hempty (fun v hv => (hvs v hv).isWritten)
      (fun v hv => genValue_reads (hvs v hv) (Plain.elements id v hv) 1 fuel) (by omega)
    obtain ⟨failed, hout, hquiet⟩ := parseArray_gives htext hmany [] []
    rw [List.append_nil] at hout
    have hopen : ∀ s, skipSpace ('[' :: s) = '[' :: s := skipSpace_cons_of_not rfl
    exact ⟨failed, by simp [parse, parseRoot, hopen, hout], hquiet⟩
  | map es hsorted hkeys hes =>
    rw [genValue_map, List.length_cons] at hfuel
    rw [genValue_map]
    have hvalues := Plain.values (fun h => h : Plain (.map es) → Plain (.map es))
    obtain ⟨htext, hmany⟩ := mapText_of_reads hkeys (fun e he => (hvalues e he).2)
      (fun e he hne => genValue_reads (hes e he hne) (hvalues e he).1 1 fuel) (by omega)
    obtain ⟨rest, hrest, failed, hout, hquiet⟩ := parseObject_gives htext hmany [] []
    rw [List.append_nil, assignAll, SortedAssoc.foldl_insert [] es hsorted] at hout
    have hopen : ∀ s, skipSpace ('{' :: s) = '{' :: s := skipSpace_cons_of_not rfl
    exact ⟨failed, by simp [parse, parseRoot, hopen, hout, hrest], hquiet⟩

end

/-! ### A map with a list in it -/

/-- The list `["x", true]`. -/
def innerList : Variant := .list [.string ['x'], .bool true]

/-- The map `{"a": ["x", true]}`. -/
def outerMap : Variant := .map [(['a'], innerList)]

/-- What occurs in the map: itself, its list, and the two elements of that. -/
theorem occurs_outerMap {v : Variant} (h : Variant.Occurs v outerMap) :
    v = outerMap ∨ v = innerList ∨ v = .string ['x'] ∨ v = .bool true := by
  rcases Variant.occurs_map.mp h with heq | ⟨e, he, h⟩
  · exact Or.inl heq
  · rw [List.mem_singleton.mp he] at h
    rcases Variant.occurs_list.mp h with heq | ⟨w, hw, h⟩
    · exact Or.inr (Or.inl heq)
    · rcases List.mem_pair.mp hw with rfl | rfl
      · cases h
        exact Or.inr (Or.inr (Or.inl rfl))
      · cases h
        exact Or.inr (Or.inr (Or.inr rfl))

end Brutils.Proofs.Json
