import Mathlib.Data.List.Basic

/-!
# Balanced brackets of several kinds

A text over any alphabet, whose characters open a bracket of some kind, close one, or do
neither. `check` reads a text with the stack of the open brackets, innermost first, and
returns the stack at the end. It fails on a closing bracket that does not match the
innermost open one. `Balanced` starts and ends with the empty stack.

The lemmas run `check` over one character and over a stretch without brackets. `Nested` is for a
stretch whose brackets match each other, whatever is open around it. Such stretches are put together
by `Nested.append` and `Nested.bracketed`, and `Nested.not_balanced` says that a text which ends
before the last bracket of one is not balanced.
-/

set_option autoImplicit false

namespace Brackets

/-- What a character does. -/
inductive Kind (β : Type)
  | opening (b : β)
  | closing (b : β)
  | neutral
  deriving DecidableEq

variable {α β : Type} [DecidableEq β]

/-- The open brackets after a text, or `none` when a closing bracket does not match. -/
def check (kind : α → Kind β) : List β → List α → Option (List β)
  | stack, [] => some stack
  | stack, a :: text =>
    match kind a with
    | .opening b => check kind (b :: stack) text
    | .neutral => check kind stack text
    | .closing b =>
      match stack with
      | [] => none
      | b' :: stack => if b = b' then check kind stack text else none

/-- The brackets of the text match and nest. -/
def Balanced (kind : α → Kind β) (text : List α) : Prop := check kind [] text = some []

instance (kind : α → Kind β) (text : List α) : Decidable (Balanced kind text) := by
  unfold Balanced
  infer_instance

variable {kind : α → Kind β} {stack : List β} {a : α} {b : β} {text : List α}

/-- An opening bracket is put on the stack. -/
theorem check_opening (h : kind a = .opening b) :
    check kind stack (a :: text) = check kind (b :: stack) text := by
  simp only [check, h]

/-- A closing bracket takes its partner off the stack. -/
theorem check_closing (h : kind a = .closing b) :
    check kind (b :: stack) (a :: text) = check kind stack text := by
  simp only [check, h, if_true]

/-- Other characters do not matter. -/
theorem check_neutral (h : kind a = .neutral) :
    check kind stack (a :: text) = check kind stack text := by
  simp only [check, h]

/-- Two stretches one after the other. -/
theorem check_append (s t : List α) :
    check kind stack (s ++ t) = (check kind stack s).bind fun stack => check kind stack t := by
  induction s generalizing stack with
  | nil => rfl
  | cons a s ih =>
    rw [List.cons_append]
    cases ha : kind a with
    | opening b => rw [check_opening ha, check_opening ha, ih]
    | neutral => rw [check_neutral ha, check_neutral ha, ih]
    | closing b =>
      cases stack with
      | nil => simp only [check, ha, Option.bind_none]
      | cons b' stack =>
        by_cases hb : b = b'
        · rw [hb] at ha
          rw [check_closing ha, check_closing ha, ih]
        · simp only [check, ha, if_neg hb, Option.bind_none]

/-- The brackets of the text match each other, and none of them closes one that was open before. -/
structure Nested (kind : α → Kind β) (text : List α) : Prop where
  check_eq : ∀ stack, check kind stack text = some stack
  prefix_eq : ∀ stack s, s <+: text → ∃ opened, check kind stack s = some (opened ++ stack)

/-- The empty text is nested. -/
theorem Nested.nil : Nested kind ([] : List α) where
  check_eq _ := rfl
  prefix_eq stack s hs := by
    rw [List.prefix_nil.mp hs]
    exact ⟨[], rfl⟩

/-- A stretch without brackets. -/
theorem nested_of_neutral (h : ∀ a ∈ text, kind a = .neutral) : Nested kind text := by
  induction text with
  | nil => exact .nil
  | cons a text ih =>
    have ha := h a List.mem_cons_self
    have htext := ih fun b hb => h b (List.mem_cons_of_mem a hb)
    refine ⟨fun stack => by rw [check_neutral ha, htext.check_eq], fun stack s hs => ?_⟩
    rcases List.prefix_cons_iff.mp hs with rfl | ⟨t, rfl, ht⟩
    · exact ⟨[], rfl⟩
    · rw [check_neutral ha]
      exact htext.prefix_eq stack t ht

/-- Two nested texts in a row. -/
theorem Nested.append {s t : List α} (hs : Nested kind s) (ht : Nested kind t) :
    Nested kind (s ++ t) where
  check_eq stack := by
    rw [check_append, hs.check_eq]
    exact ht.check_eq stack
  prefix_eq stack p hp := by
    rcases List.prefix_or_prefix_of_prefix hp (List.prefix_append s t) with hps | ⟨q, rfl⟩
    · exact hs.prefix_eq stack p hps
    · rw [check_append, hs.check_eq]
      exact ht.prefix_eq stack q ((List.prefix_append_right_inj s).mp hp)

/-- The brackets inside an open one. -/
theorem Nested.inside (h : Nested kind text) (ha : kind a = .opening b) {s : List α}
    (hs : s <+: a :: text) (hne : s ≠ []) (stack : List β) :
    ∃ opened, check kind stack s = some (opened ++ b :: stack) := by
  obtain ⟨t, rfl, ht⟩ := (List.prefix_cons_iff.mp hs).resolve_left hne
  rw [check_opening ha]
  exact h.prefix_eq (b :: stack) t ht

/-- A stretch between two brackets that match. -/
theorem Nested.bracketed (h : Nested kind text) (ha : kind a = .opening b) {z : α}
    (hz : kind z = .closing b) : Nested kind (a :: text ++ [z]) := by
  have hall : ∀ stack, check kind stack (a :: text ++ [z]) = some stack := by
    intro stack
    rw [check_append, check_opening ha, h.check_eq]
    exact check_closing hz
  refine ⟨hall, fun stack s hs => ?_⟩
  rcases List.prefix_concat_iff.mp hs with rfl | hs
  · exact ⟨[], hall stack⟩
  · by_cases hne : s = []
    · rw [hne]
      exact ⟨[], rfl⟩
    · obtain ⟨opened, hopened⟩ := h.inside ha hs hne stack
      exact ⟨opened ++ [b], by rw [hopened, List.append_assoc, List.singleton_append]⟩

/-- A text that ends before the last bracket, but not before the first one, is not balanced. -/
theorem Nested.not_balanced (h : Nested kind text) (ha : kind a = .opening b) {s t : List α}
    (hs : ∀ c ∈ s, kind c = .neutral) (ht : t <+: s ++ a :: text)
    (hbracket : ∃ c ∈ t, kind c ≠ .neutral) : ¬Balanced kind t := by
  obtain ⟨c, hc, hkind⟩ := hbracket
  rcases List.prefix_or_prefix_of_prefix ht (List.prefix_append s (a :: text)) with hts | ⟨q, rfl⟩
  · exact absurd (hs c (hts.subset hc)) hkind
  · have hq : q ≠ [] := by
      rintro rfl
      rw [List.append_nil] at hc
      exact hkind (hs c hc)
    have hinside := (List.prefix_append_right_inj s).mp ht
    obtain ⟨opened, hopened⟩ := h.inside ha hinside hq []
    rw [Balanced, check_append, (nested_of_neutral hs).check_eq]
    show check kind [] q ≠ some []
    rw [hopened]
    simp

end Brackets
