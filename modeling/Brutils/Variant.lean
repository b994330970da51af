import Brutils.Lib.SortedAssoc
import Brutils.Text
import Mathlib.Data.Rat.Defs

/-!
# `Brutils.Variant`: the `variant` class

A `Variant` is what a C++ `variant` holds: nothing (`variant()`), or a value of one of the
types its constructors take. A `variant_map` is a `std::map`, written as its pairs in
iteration order, and `Variant.Ordered` says that the order is the one a `std::map` has.
`float` and `double` values are exact rationals.

`isNull` follows the source: it asks whether the `std::any` is empty. So the variant
without a value is null, and `variant(nullptr)`, whose `std::any` holds a `nullptr_t`, is
not.
-/

set_option autoImplicit false

namespace Brutils

/-- The value of a C++ `variant`. -/
inductive Variant
  | invalid
  | null
  | bool (val : Bool)
  | int (val : Int)
  | float (val : ℚ)
  | double (val : ℚ)
  | string (val : Text)
  | list (val : List Variant)
  | map (val : List (Text × Variant))

/-- `variant_map`, in iteration order. -/
abbrev VariantMap := List (Text × Variant)

/-- `variant_list`. -/
abbrev VariantList := List Variant

namespace Variant

/-- `_valid`, which only the constructor without an argument leaves false. -/
def isValid : Variant → Bool
  | invalid => false
  | _ => true

/-- `!_value.has_value()`. -/
def isNull : Variant → Bool
  | invalid => true
  | _ => false

/-- The held type is `bool`. -/
def isBool : Variant → Bool
  | bool _ => true
  | _ => false

/-- The held type is `int`. -/
def isInt : Variant → Bool
  | int _ => true
  | _ => false

/-- The held type is `float`. -/
def isFloat : Variant → Bool
  | float _ => true
  | _ => false

/-- The held type is `double`. -/
def isDouble : Variant → Bool
  | double _ => true
  | _ => false

/-- The held type is `std::string`. -/
def isString : Variant → Bool
  | string _ => true
  | _ => false

/-- The held type is `variant_map`. -/
def isMap : Variant → Bool
  | map _ => true
  | _ => false

/-- The held type is `variant_list`. -/
def isList : Variant → Bool
  | list _ => true
  | _ => false

/-- `value<bool>()`: the held value, or `bool()` when the type differs. The calls in the
modelled functions are on valid variants, where `_type` is not null. -/
def toBool : Variant → Bool
  | bool val => val
  | _ => false

/-- `value<int>()`. -/
def toInt : Variant → Int
  | int val => val
  | _ => 0

/-- `value<float>()`. -/
def toFloat : Variant → ℚ
  | float val => val
  | _ => 0

/-- `value<double>()`. -/
def toDouble : Variant → ℚ
  | double val => val
  | _ => 0

/-- `value<std::string>()`. -/
def toText : Variant → Text
  | string val => val
  | _ => []

/-- Every map in the variant has strictly increasing keys, as a `std::map` has. -/
inductive Ordered : Variant → Prop
  | invalid : Ordered invalid
  | null : Ordered null
  | bool (val : Bool) : Ordered (bool val)
  | int (val : Int) : Ordered (int val)
  | float (val : ℚ) : Ordered (float val)
  | double (val : ℚ) : Ordered (double val)
  | string (val : Text) : Ordered (string val)
  | list (val : VariantList) (h : ∀ v ∈ val, Ordered v) : Ordered (list val)
  | map (val : VariantMap) (hkeys : SortedAssoc.Sorted val) (h : ∀ e ∈ val, Ordered e.2) :
      Ordered (map val)

/-- `w` is the variant, or in one of the lists and maps in it. -/
inductive Occurs (w : Variant) : Variant → Prop
  | here : Occurs w w
  | element {v : Variant} {vs : VariantList} (hv : v ∈ vs) (h : Occurs w v) : Occurs w (list vs)
  | value {e : Text × Variant} {es : VariantMap} (he : e ∈ es) (h : Occurs w e.2) :
      Occurs w (map es)

section
variable {w : Variant} {vs : VariantList} {es : VariantMap}

/-- What occurs in a list is the list, or occurs in an element. -/
theorem occurs_list : Occurs w (list vs) ↔ w = list vs ∨ ∃ v ∈ vs, Occurs w v := by
  constructor
  · intro h
    cases h with
    | here => exact Or.inl rfl
    | element hv h => exact Or.inr ⟨_, hv, h⟩
  · rintro (rfl | ⟨v, hv, h⟩)
    · exact .here
    · exact .element hv h

/-- What occurs in a map is the map, or occurs in a value. -/
theorem occurs_map : Occurs w (map es) ↔ w = map es ∨ ∃ e ∈ es, Occurs w e.2 := by
  constructor
  · intro h
    cases h with
    | here => exact Or.inl rfl
    | value he h => exact Or.inr ⟨_, he, h⟩
  · rintro (rfl | ⟨e, he, h⟩)
    · exact .here
    · exact .value he h

end

end Variant

end Brutils
