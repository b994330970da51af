import Mathlib.Data.List.Basic

/-!
# Tokens with white space around them

`Spaced blank ts s` says that `s` consists of the tokens `ts`, with any white space before, after and
between them. White space is given by the predicate `blank` on characters.

`exists_cons`, `exists_append` and `exists_separated` take a text apart along its tokens. `after` and
`before` add white space at the two ends.
-/

set_option autoImplicit false

/-- The text of some tokens with white space around them. -/
inductive Spaced {β : Type*} (blank : β → Prop) : List (List β) → List β → Prop
  | nil {b : List β} (hb : ∀ c ∈ b, blank c) : Spaced blank [] b
  | cons {a t s : List β} {ts : List (List β)} (ha : ∀ c ∈ a, blank c) (h : Spaced blank ts s) :
      Spaced blank (t :: ts) (a ++ t ++ s)

namespace Spaced

variable {β : Type*} {blank : β → Prop} {t a b s : List β} {ts us : List (List β)}

/-- White space in front. -/
theorem after (h : Spaced blank ts s) (ha : ∀ c ∈ a, blank c) : Spaced blank ts (a ++ s) := by
  cases h with
  | nil hb =>
    refine .nil fun c hc => ?_
    exact (List.mem_append.mp hc).elim (ha c) (hb c)
  | cons hb h =>
    rw [← List.append_assoc, ← List.append_assoc]
    refine .cons (fun c hc => ?_) h
    exact (List.mem_append.mp hc).elim (ha c) (hb c)

/-- White space behind. -/
theorem before (h : Spaced blank ts s) (hb : ∀ c ∈ b, blank c) : Spaced blank ts (s ++ b) := by
  induction h with
  | nil ha =>
    refine .nil fun c hc => ?_
    exact (List.mem_append.mp hc).elim (ha c) (hb c)
  | cons ha h ih =>
    rw [List.append_assoc]
    exact .cons ha ih

/-- No tokens. -/
theorem forall_mem (h : Spaced blank [] s) : ∀ c ∈ s, blank c := by
  cases h with
  | nil hb => exact hb

/-- The first token. -/
theorem exists_cons (h : Spaced blank (t :: ts) s) :
    ∃ a r, s = a ++ t ++ r ∧ (∀ c ∈ a, blank c) ∧ Spaced blank ts r := by
  cases h with
  | cons ha h => exact ⟨_, _, rfl, ha, h⟩

/-- The last token of one. -/
theorem exists_singleton (h : Spaced blank [t] s) :
    ∃ a b, s = a ++ t ++ b ∧ (∀ c ∈ a, blank c) ∧ ∀ c ∈ b, blank c := by
  obtain ⟨a, b, hs, ha, hb⟩ := h.exists_cons
  exact ⟨a, b, hs, ha, hb.forall_mem⟩

/-- A text of two lists of tokens is a text of the first one before a text of the second one. -/
theorem exists_append (h : Spaced blank (ts ++ us) s) :
    ∃ x y, s = x ++ y ∧ Spaced blank ts x ∧ Spaced blank us y := by
  induction ts generalizing s with
  | nil => exact ⟨[], s, rfl, .nil (by simp), h⟩
  | cons t ts ih =>
    obtain ⟨a, r, rfl, ha, hr⟩ := exists_cons h
    obtain ⟨x, y, rfl, hx, hy⟩ := ih hr
    exact ⟨a ++ t ++ x, y, by simp, .cons ha hx, hy⟩

/-- A token between two lists of tokens. The white space before it goes to the first list. -/
theorem exists_separated (h : Spaced blank (ts ++ t :: us) s) :
    ∃ x r, s = x ++ t ++ r ∧ Spaced blank ts x ∧ Spaced blank us r := by
  obtain ⟨x, y, rfl, hx, hy⟩ := h.exists_append
  obtain ⟨a, r, rfl, ha, hr⟩ := hy.exists_cons
  exact ⟨x ++ a, r, by simp, hx.before ha, hr⟩

end Spaced
