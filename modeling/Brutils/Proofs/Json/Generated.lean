import Brutils.Json.Generator
import Brutils.Lib.ItemList

/-!
# `Brutils.Proofs.Json.Generated`: the texts that the generator writes

`genObject` and `genArray` put `", "` after each item and take the last one off again. What is
left is `ItemList.write` of the items (`genArray_eq`, `genObject_eq`), with `compact` or
without it. The texts of the leaves follow, and the character that a value begins with.
-/

set_option autoImplicit false

namespace Brutils.Proofs.Json

open Brutils.JsonGenerator

/-- A string that `genString` writes without loss. -/
def Clean (s : Text) : Prop := '"' ∉ s ∧ s.getLast? ≠ some '\\'

instance (s : Text) : Decidable (Clean s) := by
  unfold Clean
  infer_instance

/-- A variant whose leaves are booleans and clean strings. -/
inductive Plain : Variant → Prop
  | bool (val : Bool) : Plain (.bool val)
  | string (val : Text) (h : Clean val) : Plain (.string val)
  | list (val : VariantList) (h : ∀ v ∈ val, Plain v) : Plain (.list val)
  | map (val : VariantMap) (hkeys : ∀ e ∈ val, Clean e.1) (h : ∀ e ∈ val, Plain e.2) :
      Plain (.map val)

/-! ### Containers -/

/-- The text of an element of a list. -/
def genElement (compact : Bool) (depth : Nat) (v : Variant) : Text :=
  getWhiteSpace compact depth ++ genValue v compact depth

/-- The text of a member of a map. -/
def genEntry (compact : Bool) (depth : Nat) (e : Text × Variant) : Text :=
  getWhiteSpace compact depth ++ genString (.string e.1) ++ [':', ' '] ++
    genValue e.2 compact depth

/-- What a container writes after its last item. -/
def closing (compact : Bool) (depth : Nat) (bracket : Char) : Text :=
  getWhiteSpace compact depth ++ [bracket]

/-- The text of the items of a list, and of its closing bracket. -/
def elementsText (compact : Bool) (depth : Nat) (list : VariantList) : Text :=
  ItemList.write (genElement compact (depth + 1)) [',', ' '] (closing compact depth ']') list

/-- The text of the members of a map, and of its closing bracket. -/
def membersText (compact : Bool) (depth : Nat) (object : VariantMap) : Text :=
  ItemList.write (genEntry compact (depth + 1)) [',', ' '] (closing compact depth '}') object

section
variable (compact : Bool) (depth : Nat)

/-- What a container writes around its items. -/
theorem close_write {α : Type} (code : α → Text) (c bracket : Char) (as : List α) :
    close (c :: as.flatMap fun a => code a ++ [',', ' ']) compact depth bracket
      = c :: ItemList.write code [',', ' '] (closing compact depth bracket) as := by
  cases as with
  | nil => simp [close, closing]
  | cons a as =>
    obtain ⟨body, hflat, hwrite⟩ := ItemList.exists_body code [',', ' '] a as
    -- `close` erases the separator behind the last item
    rw [hflat, hwrite]
    simp [close, closing]

/-- The loop of `genArray` writes each element and a separator behind it. -/
theorem genElements_eq (list : VariantList) :
    genElements list compact depth
      = list.flatMap fun v => genElement compact (depth + 1) v ++ [',', ' '] := by
  induction list with
  | nil => simp [genElements]
  | cons v list ih => simp [genElements, genElement, ih]

/-- The loop of `genObject` writes each member and a separator behind it. -/
theorem genMembers_eq (object : VariantMap) :
    genMembers object compact depth
      = object.flatMap fun e => genEntry compact (depth + 1) e ++ [',', ' '] := by
  induction object with
  | nil => simp [genMembers]
  | cons e object ih =>
    obtain ⟨key, value⟩ := e
    simp [genMembers, genEntry, ih]

/-- The text of a list. -/
theorem genArray_eq (list : VariantList) :
    genArray list compact depth = '[' :: elementsText compact depth list := by
  rw [genArray, genElements_eq, close_write]
  rfl

/-- The text of a map. -/
theorem genObject_eq (object : VariantMap) :
    genObject object compact depth = '{' :: membersText compact depth object := by
  rw [genObject, genMembers_eq, close_write]
  rfl

/-- A list as a value. -/
theorem genValue_list (list : VariantList) :
    genValue (.list list) compact depth = '[' :: elementsText compact depth list := by
  rw [genValue, genArray_eq]

/-- A map as a value. -/
theorem genValue_map (object : VariantMap) :
    genValue (.map object) compact depth = '{' :: membersText compact depth object := by
  rw [genValue, genObject_eq]

/-! ### Leaves -/

/-- A truth value is written by `genLiteral`. -/
theorem genValue_bool (b : Bool) : genValue (.bool b) compact depth = genLiteral (.bool b) := by
  simp [genValue, Variant.isNull, Variant.isBool]

/-- A string is written by `genString`. -/
theorem genValue_string (s : Text) :
    genValue (.string s) compact depth = genString (.string s) := by
  simp [genValue, Variant.isNull, Variant.isBool, Variant.isInt, Variant.isFloat,
    Variant.isDouble, Variant.isString]

end

/-- `genString` puts quotes around the string, and escapes nothing. -/
theorem genString_eq (s : Text) : genString (.string s) = '"' :: s ++ ['"'] := rfl

/-! ### First characters -/

/-- A character that begins a value. -/
def BeginsValue (c : Char) : Prop := c = '"' ∨ c = 't' ∨ c = 'f' ∨ c = '[' ∨ c = '{'

/-- No value begins with white space. -/
theorem BeginsValue.isSpace {c : Char} (h : BeginsValue c) : isSpace c = false := by
  rcases h with rfl | rfl | rfl | rfl | rfl <;> rfl

/-- No value begins with the bracket that closes a list. -/
theorem BeginsValue.ne_bracket {c : Char} (h : BeginsValue c) : c ≠ ']' := by
  rintro rfl
  exact absurd h (by unfold BeginsValue; decide)

/-- The kinds of variants in a document with booleans and strings as leaves. -/
def isWritten (v : Variant) : Bool := v.isBool || v.isString || v.isList || v.isMap

/-- The first character of the text of such a variant. -/
def opener : Variant → Char
  | .bool true => 't'
  | .bool false => 'f'
  | .string _ => '"'
  | .list _ => '['
  | _ => '{'

/-- The character that a variant opens with begins a value. -/
theorem beginsValue_opener (v : Variant) : BeginsValue (opener v) := by
  unfold opener BeginsValue
  split <;> decide

/-- The text of a variant that is written begins with its `opener`, whatever the layout. -/
theorem genValue_opener {v : Variant} (hv : isWritten v) (compact : Bool) (depth : Nat) :
    ∃ s, genValue v compact depth = opener v :: s := by
  cases v with
  | bool b =>
    rw [genValue_bool]
    cases b with
    | true => exact ⟨"rue".toList, rfl⟩
    | false => exact ⟨"alse".toList, rfl⟩
  | string s => exact ⟨s ++ ['"'], genValue_string compact depth s⟩
  | list vs => exact ⟨_, genValue_list compact depth vs⟩
  | map es => exact ⟨_, genValue_map compact depth es⟩
  | invalid => cases hv
  | null => cases hv
  | int n => cases hv
  | float q => cases hv
  | double q => cases hv

/-- Only variants with a value are written. -/
theorem isValid_of_isWritten {v : Variant} (hv : isWritten v) : v.isValid = true := by
  cases v with
  | invalid => cases hv
  | _ => rfl

/-- Plain variants are written. -/
theorem Plain.isWritten {v : Variant} (hv : Plain v) : isWritten v := by
  cases hv <;> rfl

/-! ### White space -/

/-- The indentation is white space. -/
theorem isSpace_genTab (depth : Nat) : ∀ c ∈ genTab depth, isSpace c := by
  induction depth with
  | zero => exact fun c hc => absurd hc List.not_mem_nil
  | succ depth ih =>
    intro c hc
    rcases List.mem_append.mp hc with hc | hc
    · exact List.all_eq_true.mp (show ("    ".toList.all isSpace) = true from rfl) c hc
    · exact ih c hc

/-- What `getWhiteSpace` writes is white space, in both layouts. -/
theorem isSpace_getWhiteSpace (compact : Bool) (depth : Nat) :
    ∀ c ∈ getWhiteSpace compact depth, isSpace c := by
  intro c hc
  cases compact with
  | true => exact absurd hc List.not_mem_nil
  | false =>
    rcases List.mem_append.mp hc with hc | hc
    · exact List.all_eq_true.mp (show genLineFeed.all isSpace = true from rfl) c hc
    · exact isSpace_genTab depth c hc

end Brutils.Proofs.Json
