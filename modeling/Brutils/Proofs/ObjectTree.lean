import Brutils.ObjectTree

/-!
# `Brutils.Proofs.ObjectTree`: the two forms of `addEvent`

What both forms do depends on the last object of the chain only, which is what `getRootObject`
gives. If that has no parent, one form throws and the other one sets `ec`. If it is a threaded
object, both put the event on its list. But the override with `ec` sets `ec` there too, although
nothing has failed. So the two forms agree on a chain exactly if it does not end in a threaded
object (`addEvent_forms_agree_iff`).

Each lemma about a form is an induction on the chain, and a step of it is one hand-over to the
parent.
-/

set_option autoImplicit false

namespace Brutils.Proofs.ObjectTree

open Brutils.BrObject

variable {T E : Type} {object : BrObject T E} {thread : T} {eventList : List E}

/-- A chain ends in an object without parent, or in a threaded object. -/
theorem getRootObject_cases (object : BrObject T E) :
    object.getRootObject = .root ∨
      ∃ thread eventList, object.getRootObject = .threaded thread eventList := by
  induction object with
  | root => exact Or.inl rfl
  | threaded thread eventList => exact Or.inr ⟨thread, eventList, rfl⟩
  | child parent ih => exact ih

/-- The last object of a chain is the last one of its own chain. -/
theorem getRootObject_getRootObject (object : BrObject T E) :
    object.getRootObject.getRootObject = object.getRootObject := by
  induction object with
  | root => rfl
  | threaded thread eventList => rfl
  | child parent ih => exact ih

/-- The thread of an object without a threaded object above it is that of the caller. -/
theorem getThreadId_of_root (h : object.getRootObject = .root) (caller : T) :
    object.getThreadId caller = caller := by
  induction object with
  | root => rfl
  | threaded thread eventList => cases h
  | child parent ih => exact ih h

/-! ### Without `ec` -/

/-- An object whose root is no thread rejects the event. -/
theorem addEvent_of_root (h : object.getRootObject = .root) (event : E) :
    object.addEvent event = .error ⟨"Object has not parent"⟩ := by
  induction object with
  | root => rfl
  | threaded thread eventList => cases h
  | child parent ih =>
    rw [addEvent, ih h]
    rfl

/-- The event goes to the end of the list of the thread at the root. -/
theorem addEvent_of_threaded (h : object.getRootObject = .threaded thread eventList) (event : E) :
    ∃ after, object.addEvent event = .ok after ∧
      after.getRootObject = .threaded thread (eventList ++ [event]) := by
  induction object with
  | root => cases h
  | threaded thread' eventList' =>
    cases h
    exact ⟨_, rfl, rfl⟩
  | child parent ih =>
    obtain ⟨after, hrun, hroot⟩ := ih h
    refine ⟨.child after, ?_, hroot⟩
    rw [addEvent, hrun]
    rfl

/-- The event is added if the chain ends in a threaded object, and only then. -/
theorem addEvent_ok_iff (event : E) : (∃ after, object.addEvent event = .ok after) ↔
    ∃ thread eventList, object.getRootObject = .threaded thread eventList := by
  constructor
  · rintro ⟨after, hrun⟩
    rcases getRootObject_cases object with hroot | hthreaded
    · rw [addEvent_of_root hroot] at hrun
      cases hrun
    · exact hthreaded
  · rintro ⟨thread, eventList, hroot⟩
    obtain ⟨after, hrun, -⟩ := addEvent_of_threaded hroot event
    exact ⟨after, hrun⟩

/-! ### With `ec` -/

/-- The overload with an error code sets it and leaves the object as it is. -/
theorem addEventEc_of_root (h : object.getRootObject = .root) (event : E) (ec : Bool) :
    object.addEventEc event ec = (object, true) := by
  induction object with
  | root => rfl
  | threaded thread eventList => cases h
  | child parent ih => rw [addEventEc, ih h]

/-- The overload with an error code sets it also when the event has been added. -/
theorem addEventEc_of_threaded (h : object.getRootObject = .threaded thread eventList) (event : E)
    (ec : Bool) : (object.addEventEc event ec).2 = true ∧
      (object.addEventEc event ec).1.getRootObject = .threaded thread (eventList ++ [event]) := by
  induction object with
  | root => cases h
  | threaded thread' eventList' =>
    cases h
    exact ⟨rfl, rfl⟩
  | child parent ih => exact ih h

/-! ### Both -/

/-- The two forms agree on an object: `ec` is set exactly if the form without `ec` throws, and if
that does not throw, both leave the event once more on the list of the threaded object at the end
of the chain. -/
structure FormsAgree (object : BrObject T E) (event : E) : Prop where
  reports : (object.addEventEc event false).2 = true ↔ ∃ e, object.addEvent event = .error e
  enqueues : ∀ after, object.addEvent event = .ok after → ∃ thread eventList,
    object.getRootObject = .threaded thread eventList ∧
    after.getRootObject = .threaded thread (eventList ++ [event]) ∧
    (object.addEventEc event false).1.getRootObject = .threaded thread (eventList ++ [event])

/-- On a chain with a threaded object at its end only one form reports a failure. -/
theorem not_formsAgree (h : object.getRootObject = .threaded thread eventList) (event : E) :
    ¬FormsAgree object event := by
  intro hagree
  obtain ⟨e, herror⟩ := hagree.reports.mp (addEventEc_of_threaded h event false).1
  obtain ⟨after, hrun, -⟩ := addEvent_of_threaded h event
  rw [hrun] at herror
  cases herror

/-- The two forms agree if the chain ends in an object without parent, and only then. -/
theorem addEvent_forms_agree_iff (object : BrObject T E) (event : E) :
    FormsAgree object event ↔ object.getRootObject = .root := by
  constructor
  · intro hagree
    rcases getRootObject_cases object with hroot | ⟨thread, eventList, hthreaded⟩
    · exact hroot
    · exact absurd hagree (not_formsAgree hthreaded event)
  · intro hroot
    have herror := addEvent_of_root hroot event
    refine ⟨?_, ?_⟩
    · rw [addEventEc_of_root hroot]
      exact iff_of_true rfl ⟨_, herror⟩
    · intro after hrun
      rw [herror] at hrun
      cases hrun

/-- An object whose parent is a threaded one. -/
theorem addEvent_forms_differ : ¬FormsAgree (.child (.threaded 1 []) : BrObject Nat Nat) 7 :=
  not_formsAgree rfl 7

end Brutils.Proofs.ObjectTree
