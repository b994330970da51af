import Mathlib.Data.List.AList
import Mathlib.Logic.Function.Basic
import Std.Data.ExtTreeMap

/-!
# Two maps that are inverse to each other

A relation that is one to one can be kept in two maps, one for each direction. `Partners` says
of two partial functions that they agree. Taking a pair out of both keeps it
(`Partners.erase`), and so does putting in a pair whose two sides are new
(`Partners.insert`).

The two kinds of maps are partial functions by their lookup. For tree maps `Inverse` is the
relation. When the left side of a new pair is not new, its old partner is left behind
(`Inverse.not_insert`). For association lists the relation is `InverseLists`.
-/

set_option autoImplicit false

namespace InverseMaps

/-! ### Partial functions -/

section
variable {α β : Type*}

/-- Each function has the pairs of the other, turned round. -/
def Partners (f : α → Option β) (g : β → Option α) : Prop :=
  ∀ (a : α) (b : β), f a = some b ↔ g b = some a

variable [DecidableEq α] [DecidableEq β] {f : α → Option β} {g : β → Option α} {a : α} {b : β}

/-- A pair that both functions have is taken out of both. -/
theorem Partners.erase (h : Partners f g) (hab : f a = some b) :
    Partners (Function.update f a none) (Function.update g b none) := by
  intro a' b'
  have hba := (h a b).mp hab
  by_cases ha : a' = a
  · subst ha
    rw [Function.update_self]
    refine iff_of_false (Option.some_ne_none b').symm fun hold => ?_
    by_cases hb : b' = b
    · subst hb
      rw [Function.update_self] at hold
      cases hold
    -- the left side has one partner only
    · rw [Function.update_of_ne hb] at hold
      exact hb (Option.some.inj (((h a' b').mpr hold).symm.trans hab))
  · rw [Function.update_of_ne ha]
    by_cases hb : b' = b
    · subst hb
      rw [Function.update_self]
      refine iff_of_false (fun hold => ha ?_) (Option.some_ne_none a').symm
      exact Option.some.inj (((h a' b').mp hold).symm.trans hba)
    · rw [Function.update_of_ne hb]
      exact h a' b'

/-- A pair of which neither side has a partner is put into both functions. -/
theorem Partners.insert (h : Partners f g) (ha : f a = none) (hb : g b = none) :
    Partners (Function.update f a (some b)) (Function.update g b (some a)) := by
  intro a' b'
  by_cases haa : a' = a
  · subst haa
    rw [Function.update_self]
    by_cases hbb : b' = b
    · subst hbb
      rw [Function.update_self]
      exact iff_of_true rfl rfl
    · rw [Function.update_of_ne hbb]
      refine iff_of_false (fun heq => hbb (Option.some.inj heq).symm) fun hold => ?_
      exact absurd (ha.symm.trans ((h a' b').mpr hold)) (Option.some_ne_none b').symm
  · rw [Function.update_of_ne haa]
    by_cases hbb : b' = b
    · subst hbb
      rw [Function.update_self]
      refine iff_of_false (fun hold => ?_) fun heq => haa (Option.some.inj heq).symm
      exact absurd (hb.symm.trans ((h a' b').mp hold)) (Option.some_ne_none a').symm
    · rw [Function.update_of_ne hbb]
      exact h a' b'

end

/-! ### Tree maps -/

section
variable {α β : Type*} [Ord α] [Std.TransOrd α] [Std.LawfulEqOrd α] (m : Std.ExtTreeMap α β)
  {a a' : α}

/-- The keys after a pair is put in. -/
theorem mem_insert_iff (b : β) : a' ∈ m.insert a b ↔ a = a' ∨ a' ∈ m := by
  rw [Std.ExtTreeMap.mem_insert, Std.LawfulEqCmp.compare_eq_iff_eq]

/-- The keys after a pair is taken out. -/
theorem mem_erase_iff : a' ∈ m.erase a ↔ a ≠ a' ∧ a' ∈ m := by
  rw [Std.ExtTreeMap.mem_erase, ne_eq, Std.LawfulEqCmp.compare_eq_iff_eq]

/-- Putting in a pair changes nothing under another key. -/
theorem getElem?_insert_ne (b : β) (h : a ≠ a') : (m.insert a b)[a']? = m[a']? := by
  rw [Std.ExtTreeMap.getElem?_insert, if_neg (mt Std.LawfulEqCmp.compare_eq_iff_eq.mp h)]

/-- Taking out a pair changes nothing under another key. -/
theorem getElem?_erase_ne (h : a ≠ a') : (m.erase a)[a']? = m[a']? := by
  rw [Std.ExtTreeMap.getElem?_erase, if_neg (mt Std.LawfulEqCmp.compare_eq_iff_eq.mp h)]

variable [DecidableEq α]

/-- Putting in a pair is an update of the lookup. -/
theorem getElem?_insert_eq_update (a : α) (b : β) :
    (fun a' => (m.insert a b)[a']?) = Function.update (fun a' => m[a']?) a (some b) := by
  funext a'
  by_cases h : a' = a
  · subst h
    rw [Function.update_self, Std.ExtTreeMap.getElem?_insert_self]
  · rw [Function.update_of_ne h, getElem?_insert_ne m b (Ne.symm h)]

/-- Taking out a pair is an update of the lookup. -/
theorem getElem?_erase_eq_update (a : α) :
    (fun a' => (m.erase a)[a']?) = Function.update (fun a' => m[a']?) a none := by
  funext a'
  by_cases h : a' = a
  · subst h
    rw [Function.update_self, Std.ExtTreeMap.getElem?_erase_self]
  · rw [Function.update_of_ne h, getElem?_erase_ne m (Ne.symm h)]

end

section
variable {α β : Type*} [Ord α] [Std.TransOrd α] [Ord β] [Std.TransOrd β]

/-- Each map holds the pairs of the other, turned round. -/
def Inverse (m : Std.ExtTreeMap α β) (m' : Std.ExtTreeMap β α) : Prop :=
  ∀ (a : α) (b : β), m[a]? = some b ↔ m'[b]? = some a

/-- Two empty tree maps are inverse to each other. -/
theorem inverse_empty : Inverse (∅ : Std.ExtTreeMap α β) (∅ : Std.ExtTreeMap β α) := by
  intro a b
  rw [Std.ExtTreeMap.getElem?_empty, Std.ExtTreeMap.getElem?_empty]
  exact iff_of_false (Option.some_ne_none b).symm (Option.some_ne_none a).symm

variable [Std.LawfulEqOrd β] {m : Std.ExtTreeMap α β} {m' : Std.ExtTreeMap β α} {a : α} {b : β}

/-- A left side gets another partner, and the map of the partners still holds the old one. -/
theorem Inverse.not_insert (h : Inverse m m') (hab : m[a]? = some b) {b' : β} (hne : b' ≠ b) :
    ¬Inverse (m.insert a b') (m'.insert b' a) := by
  intro hinsert
  have hold : (m'.insert b' a)[b]? = some a := by
    rw [getElem?_insert_ne m' a hne]
    exact (h a b).mp hab
  have hnew := (hinsert a b).mpr hold
  rw [Std.ExtTreeMap.getElem?_insert_self] at hnew
  exact hne (Option.some.inj hnew)

variable [Std.LawfulEqOrd α] [DecidableEq α] [DecidableEq β]

/-- A pair that both maps hold is taken out of both. -/
theorem Inverse.erase (h : Inverse m m') (hab : m[a]? = some b) :
    Inverse (m.erase a) (m'.erase b) := by
  have hpartners := Partners.erase h hab
  rwa [← getElem?_erase_eq_update, ← getElem?_erase_eq_update] at hpartners

/-- A pair of which neither side has a partner is put into both maps. -/
theorem Inverse.insert (h : Inverse m m') (ha : m[a]? = none) (hb : m'[b]? = none) :
    Inverse (m.insert a b) (m'.insert b a) := by
  have hpartners := Partners.insert h ha hb
  rwa [← getElem?_insert_eq_update, ← getElem?_insert_eq_update] at hpartners

end

/-! ### Association lists -/

section
variable {α β : Type*} [DecidableEq α]

/-- For an association list, putting in a pair is an update of the lookup. -/
theorem lookup_insert_eq_update (m : AList fun _ : α => β) (a : α) (b : β) :
    (fun a' => (m.insert a b).lookup a') = Function.update (fun a' => m.lookup a') a (some b) := by
  funext a'
  by_cases h : a' = a
  · subst h
    rw [Function.update_self, AList.lookup_insert]
  · rw [Function.update_of_ne h, AList.lookup_insert_ne h]

/-- For an association list, taking out a pair is an update of the lookup. -/
theorem lookup_erase_eq_update (m : AList fun _ : α => β) (a : α) :
    (fun a' => (m.erase a).lookup a') = Function.update (fun a' => m.lookup a') a none := by
  funext a'
  by_cases h : a' = a
  · subst h
    rw [Function.update_self, AList.lookup_erase]
  · rw [Function.update_of_ne h, AList.lookup_erase_ne h]

variable [DecidableEq β] {m : AList fun _ : α => β} {m' : AList fun _ : β => α} {a : α} {b : β}

/-- Each list holds the pairs of the other, turned round. -/
def InverseLists (m : AList fun _ : α => β) (m' : AList fun _ : β => α) : Prop :=
  ∀ (a : α) (b : β), m.lookup a = some b ↔ m'.lookup b = some a

/-- Two empty association lists are inverse to each other. -/
theorem inverseLists_empty :
    InverseLists (∅ : AList fun _ : α => β) (∅ : AList fun _ : β => α) := by
  intro a b
  rw [AList.lookup_empty, AList.lookup_empty]
  exact iff_of_false (Option.some_ne_none b).symm (Option.some_ne_none a).symm

/-- A pair that both lists hold is taken out of both. -/
theorem InverseLists.erase (h : InverseLists m m') (hab : m.lookup a = some b) :
    InverseLists (m.erase a) (m'.erase b) := by
  have hpartners := Partners.erase h hab
  rwa [← lookup_erase_eq_update, ← lookup_erase_eq_update] at hpartners

/-- A pair of which neither side has a partner is put into both lists. -/
theorem InverseLists.insert (h : InverseLists m m') (ha : a ∉ m) (hb : b ∉ m') :
    InverseLists (m.insert a b) (m'.insert b a) := by
  have hpartners := Partners.insert h (AList.lookup_eq_none.mpr ha) (AList.lookup_eq_none.mpr hb)
  rwa [← lookup_insert_eq_update, ← lookup_insert_eq_update] at hpartners

end

end InverseMaps
