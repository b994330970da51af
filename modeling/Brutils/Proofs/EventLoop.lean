import Brutils.EventLoop
import Brutils.Lib.Transition
import Mathlib.Data.List.Infix

/-!
# `Brutils.Proofs.EventLoop`: when queued events deliver the arguments of their emits

`Delivers` is what should hold in every state: the slot of each connection has been called with
the arguments of the emits, in order and once for each, except for those whose events are
still in the lists.

An event reads its arguments when it is run, and a call that comes before may have used their
place again. `Careful` is the condition on an action that it changes no arguments that an
event still needs. `delivers_of_careful` is the result for every run of careful actions, and
`reuse_delivers_wrong` a run in which a thread emits twice from the same place.

The invariant is `Intact`: read through the stack, the events in the lists stand for the
arguments that have not been delivered yet.
-/

set_option autoImplicit false

namespace Brutils.Proofs.EventLoop

open Transition (Reachable)
open Brutils.EventLoop

variable {S T A : Type}

/-- Where the arguments of an event are. -/
def storageOf : Event T → T × Nat
  | .emit parameters => parameters
  | .call _ args => args

/-- Where the arguments are if the event is an emit. -/
def emitArgs : Event T → Option (T × Nat)
  | .emit parameters => some parameters
  | .call _ _ => none

/-- Where the arguments are if the event is a call for the queued connection with this index. -/
def callArgs (index : Nat) : Event T → Option (T × Nat)
  | .emit _ => none
  | .call i args => if i = index then some args else none

/-- Where the arguments are of the emits in a list of events. -/
def emits (events : List (Event T)) : List (T × Nat) := events.filterMap emitArgs

/-- Where the arguments are of the calls for a queued connection in a list of events. -/
def callsFor (index : Nat) (events : List (Event T)) : List (T × Nat) :=
  events.filterMap (callArgs index)

/-- The slots have been called with the arguments of the emits, in order, and what is missing is
still in the lists of events. -/
structure Delivers (signal : Signal S) (owner : T) (slotOwner : S → T) (s : State T A) : Prop where
  direct : ∀ i < signal.directConnections.length,
    s.calls (.direct i) <+: s.emitted ∧
    (s.calls (.direct i)).length + (emits (s.eventList owner)).length = s.emitted.length
  queued : ∀ i slot, signal.queuedConnections[i]? = some slot →
    s.calls (.queued i) <+: s.emitted ∧
    (s.calls (.queued i)).length + (callsFor i (s.eventList (slotOwner slot))).length
      + (emits (s.eventList owner)).length = s.emitted.length

/-- To write these arguments there changes nothing that an event in a list still needs. -/
def Undisturbed (s : State T A) (storage : T × Nat) (args : A) : Prop :=
  ∀ object, ∀ event ∈ s.eventList object, storageOf event = storage → s.stack storage = args

/-- The calls of an action do not change the arguments of events that are in a list. -/
def Careful (signal : Signal S) (owner : T) (s : State T A) : Action T A → Prop
  | .emit thread place parameters => Undisturbed s (thread, place) parameters
  | .run object places => ∀ parameters, (s.eventList object).head? = some (.emit parameters) →
    ∀ i < signal.queuedConnections.length,
      Undisturbed s (owner, places i) (s.stack parameters)
  | .reuse thread place args => Undisturbed s (thread, place) args

/-- A step whose calls are careful. -/
def CarefulNext [DecidableEq T] (signal : Signal S) (owner : T) (slotOwner : S → T)
    (s t : State T A) : Prop :=
  ∃ action, Allowed owner action ∧ Careful signal owner s action ∧
    perform signal owner slotOwner s action = some t

/-! ### Lists of events -/

/-- The arguments of an emit are its storage. -/
theorem storageOf_emitArgs {event : Event T} {storage : T × Nat}
    (h : emitArgs event = some storage) : storageOf event = storage := by
  cases event with
  | emit parameters => exact Option.some.inj h
  | call i args => cases h

/-- The arguments of a call are its storage. -/
theorem storageOf_callArgs {index : Nat} {event : Event T} {storage : T × Nat}
    (h : callArgs index event = some storage) : storageOf event = storage := by
  cases event with
  | emit parameters => cases h
  | call i args =>
    have h : (if i = index then some args else none) = some storage := h
    split at h
    · exact Option.some.inj h
    · cases h

/-! ### What the loops over the connections do -/

section
variable (parameters : A)

/-- `callDirectConnections` touches nothing but the calls. -/
theorem callDirectConnections_frame (i : Nat) (connections : List S) (s : State T A) :
    (callDirectConnections parameters i connections s).stack = s.stack ∧
      (callDirectConnections parameters i connections s).eventList = s.eventList ∧
      (callDirectConnections parameters i connections s).emitted = s.emitted := by
  induction connections generalizing i s with
  | nil => exact ⟨rfl, rfl, rfl⟩
  | cons slot connections ih => exact ih (i + 1) (call s (.direct i) parameters)

/-- A slot that is not in the list is not called. -/
theorem callDirectConnections_other {i : Nat} {connections : List S} {connection : Connection}
    (h : ∀ k < connections.length, connection ≠ .direct (i + k)) (s : State T A) :
    (callDirectConnections parameters i connections s).calls connection = s.calls connection := by
  induction connections generalizing i s with
  | nil => rfl
  | cons slot connections ih =>
    have hrest : ∀ k < connections.length, connection ≠ .direct (i + 1 + k) := by
      intro k hk
      rw [Nat.add_right_comm, Nat.add_assoc]
      exact h (k + 1) (Nat.succ_lt_succ hk)
    rw [callDirectConnections, ih hrest]
    exact Function.update_of_ne (h 0 (Nat.zero_lt_succ _)) _ _

/-- `callDirectConnections` calls each connection once. -/
theorem callDirectConnections_calls {i k : Nat} {connections : List S}
    (hk : k < connections.length) (s : State T A) :
    (callDirectConnections parameters i connections s).calls (.direct (i + k))
      = s.calls (.direct (i + k)) ++ [parameters] := by
  induction connections generalizing i k s with
  | nil => exact absurd hk (Nat.not_lt_zero k)
  | cons slot connections ih =>
    rw [callDirectConnections]
    cases k with
    | zero =>
      have hother : ∀ k < connections.length, Connection.direct (i + 0) ≠ .direct (i + 1 + k) := by
        intro k _ heq
        have hindex := Connection.direct.inj heq
        omega
      rw [callDirectConnections_other parameters hother]
      exact Function.update_self _ _ _
    | succ k =>
      have hrest := @ih (i + 1) k (Nat.lt_of_succ_lt_succ hk) (call s (.direct i) parameters)
      rw [Nat.add_right_comm, Nat.add_assoc] at hrest
      rw [hrest]
      refine congrArg (· ++ [parameters]) (Function.update_of_ne ?_ _ _)
      intro heq
      have hindex := Connection.direct.inj heq
      omega

variable [DecidableEq T] (owner : T) (slotOwner : S → T) (places : Nat → Nat)

/-- The events that `callQueuedConnections` adds to the list of an object. -/
def newEvents (object : T) :
    Nat → List S → List (Event T)
  | _, [] => []
  | i, slot :: connections =>
    if slotOwner slot = object then
      .call i (owner, places i) :: newEvents object (i + 1) connections
    else newEvents object (i + 1) connections

/-- The loop over the queued connections puts the `newEvents` at the end of each list. -/
theorem callQueuedConnections_eventList (i : Nat) (connections : List S) (s : State T A)
    (object : T) :
    (callQueuedConnections owner slotOwner places parameters i connections s).eventList object
      = s.eventList object ++ newEvents owner slotOwner places object i connections := by
  induction connections generalizing i s with
  | nil => exact (List.append_nil _).symm
  | cons slot connections ih =>
    rw [callQueuedConnections, ih, newEvents]
    show Function.update s.eventList (slotOwner slot) _ object ++ _ = _
    by_cases hobject : slotOwner slot = object
    · subst hobject
      rw [Function.update_self, if_pos rfl, List.append_assoc, List.singleton_append]
      rfl
    · rw [Function.update_of_ne (Ne.symm hobject), if_neg hobject]

/-- It calls no slot, and emits nothing. -/
theorem callQueuedConnections_frame (i : Nat) (connections : List S) (s : State T A) :
    (callQueuedConnections owner slotOwner places parameters i connections s).calls = s.calls ∧
      (callQueuedConnections owner slotOwner places parameters i connections s).emitted
        = s.emitted := by
  induction connections generalizing i s with
  | nil => exact ⟨rfl, rfl⟩
  | cons slot connections ih => exact ih (i + 1) _

/-- What `callQueuedConnections` writes: the arguments, to the places of its calls. -/
theorem callQueuedConnections_stack (i : Nat) (connections : List S) (s : State T A)
    (storage : T × Nat) :
    ((∃ k < connections.length, storage = (owner, places (i + k))) ∧
      (callQueuedConnections owner slotOwner places parameters i connections s).stack storage
        = parameters) ∨
    ((∀ k < connections.length, storage ≠ (owner, places (i + k))) ∧
      (callQueuedConnections owner slotOwner places parameters i connections s).stack storage
        = s.stack storage) := by
  induction connections generalizing i s with
  | nil => exact Or.inr ⟨fun k hk => absurd hk (Nat.not_lt_zero k), rfl⟩
  | cons slot connections ih =>
    rcases ih (i + 1) (addEventToParent owner slotOwner slot i (places i) parameters s) with
      ⟨⟨k, hk, hstorage⟩, hstack⟩ | ⟨hother, hstack⟩
    · refine Or.inl ⟨⟨k + 1, ?_, ?_⟩, hstack⟩
      · show k + 1 < connections.length + 1
        omega
      · rw [hstorage, Nat.add_right_comm, Nat.add_assoc]
    · have hhead : (addEventToParent owner slotOwner slot i (places i) parameters s).stack storage
          = Function.update s.stack (owner, places i) parameters storage := rfl
      by_cases hstorage : storage = (owner, places i)
      · refine Or.inl ⟨⟨0, Nat.zero_lt_succ _, hstorage⟩, hstack.trans ?_⟩
        rw [hhead, hstorage, Function.update_self]
      · refine Or.inr ⟨?_, hstack.trans ?_⟩
        · intro k hk
          cases k with
          | zero => exact hstorage
          | succ k =>
            have hlt : k < connections.length := Nat.lt_of_succ_lt_succ hk
            have hne := hother k hlt
            rwa [Nat.add_right_comm, Nat.add_assoc] at hne
        · rw [hhead, Function.update_of_ne hstorage]

variable {owner slotOwner places}

/-- The new events are calls for connections whose slot the object owns. -/
theorem mem_newEvents {object : T} {i : Nat} {connections : List S} {event : Event T}
    (h : event ∈ newEvents owner slotOwner places object i connections) :
    ∃ k slot, connections[k]? = some slot ∧ slotOwner slot = object ∧
      event = .call (i + k) (owner, places (i + k)) := by
  induction connections generalizing i with
  | nil => cases h
  | cons slot connections ih =>
    have hrest : event ∈ newEvents owner slotOwner places object (i + 1) connections →
        ∃ k slot', (slot :: connections)[k]? = some slot' ∧ slotOwner slot' = object ∧
          event = .call (i + k) (owner, places (i + k)) := by
      intro hmem
      obtain ⟨k, slot', hslot, howner, heq⟩ := ih hmem
      refine ⟨k + 1, slot', hslot, howner, ?_⟩
      rw [heq, Nat.add_right_comm, Nat.add_assoc]
    rw [newEvents] at h
    by_cases hobject : slotOwner slot = object
    · rw [if_pos hobject] at h
      rcases List.mem_cons.mp h with rfl | hmem
      · exact ⟨0, slot, rfl, hobject, rfl⟩
      · exact hrest hmem
    · rw [if_neg hobject] at h
      exact hrest h

/-- The new events are calls, not emits. -/
theorem emits_newEvents (object : T) (i : Nat) (connections : List S) :
    emits (newEvents owner slotOwner places object i connections) = [] := by
  rw [emits, List.filterMap_eq_nil_iff]
  intro event hmem
  obtain ⟨k, slot, -, -, rfl⟩ := mem_newEvents hmem
  rfl

/-- No new event is for a connection before the first. -/
theorem callsFor_newEvents_of_lt (object : T) {index i : Nat} (h : index < i)
    (connections : List S) :
    callsFor index (newEvents owner slotOwner places object i connections) = [] := by
  rw [callsFor, List.filterMap_eq_nil_iff]
  intro event hmem
  obtain ⟨k, slot, -, -, rfl⟩ := mem_newEvents hmem
  exact if_neg (by omega)

/-- Each connection gets one new event, in the list of the owner of its slot. -/
theorem callsFor_newEvents {i k : Nat} {connections : List S} {slot : S}
    (hslot : connections[k]? = some slot) :
    callsFor (i + k) (newEvents owner slotOwner places (slotOwner slot) i connections)
      = [(owner, places (i + k))] := by
  induction connections generalizing i k with
  | nil => cases hslot
  | cons slot' connections ih =>
    rw [newEvents]
    cases k with
    | zero =>
      obtain rfl : slot' = slot := Option.some.inj hslot
      have hhead : callArgs i (.call i (owner, places i)) = some (owner, places i) := if_pos rfl
      have hrest : callsFor i (newEvents owner slotOwner places (slotOwner slot') (i + 1)
          connections) = [] := callsFor_newEvents_of_lt _ (Nat.lt_succ_self i) connections
      rw [if_pos rfl, Nat.add_zero, callsFor, List.filterMap_cons_some hhead]
      exact congrArg _ hrest
    | succ k =>
      have hrest := @ih (i + 1) k hslot
      rw [Nat.add_right_comm, Nat.add_assoc] at hrest
      split
      · have hhead : callArgs (i + (k + 1)) (.call i (owner, places i)) = none := if_neg (by omega)
        rw [callsFor, List.filterMap_cons_none hhead]
        exact hrest
      · exact hrest

/-- What both loops do. -/
theorem callConnections_spec (signal : Signal S) (parameters : A) (owner : T) (slotOwner : S → T)
    (places : Nat → Nat) (s : State T A) :
    (∀ object, (callConnections signal owner slotOwner places parameters s).eventList object
      = s.eventList object
        ++ newEvents owner slotOwner places object 0 signal.queuedConnections) ∧
    (∀ i < signal.directConnections.length,
      (callConnections signal owner slotOwner places parameters s).calls (.direct i)
        = s.calls (.direct i) ++ [parameters]) ∧
    (∀ i, (callConnections signal owner slotOwner places parameters s).calls (.queued i)
      = s.calls (.queued i)) ∧
    (callConnections signal owner slotOwner places parameters s).emitted = s.emitted ∧
    ∀ i slot, signal.queuedConnections[i]? = some slot →
      (callConnections signal owner slotOwner places parameters s).stack (owner, places i)
        = parameters := by
  obtain ⟨-, hlist, hemitted⟩ :=
    callDirectConnections_frame parameters 0 signal.directConnections s
  obtain ⟨hcalls, hemitted'⟩ := callQueuedConnections_frame parameters owner slotOwner places 0
    signal.queuedConnections (callDirectConnections parameters 0 signal.directConnections s)
  unfold callConnections
  refine ⟨?_, ?_, ?_, hemitted'.trans hemitted, ?_⟩
  · intro object
    rw [callQueuedConnections_eventList, hlist]
  · intro i hi
    have hcall := callDirectConnections_calls parameters (i := 0) hi s
    rw [Nat.zero_add] at hcall
    rw [hcalls, hcall]
  · intro i
    rw [hcalls]
    refine callDirectConnections_other parameters ?_ s
    intro k _
    exact Connection.noConfusion
  · -- the loop has written the arguments to the place of this connection
    intro i slot hslot
    rcases callQueuedConnections_stack parameters owner slotOwner places 0 signal.queuedConnections
      (callDirectConnections parameters 0 signal.directConnections s) (owner, places i) with
      ⟨-, hargs⟩ | ⟨hother, -⟩
    · exact hargs
    · refine absurd ?_ (hother i (List.getElem?_eq_some_iff.mp hslot).1)
      rw [Nat.zero_add]

end

/-! ### The invariant -/

/-- Read through the stack, the events stand for what has not been delivered, and each is in the
list where it belongs. -/
structure Intact (signal : Signal S) (owner : T) (slotOwner : S → T) (s : State T A) : Prop where
  direct : ∀ i < signal.directConnections.length,
    s.calls (.direct i) ++ (emits (s.eventList owner)).map s.stack = s.emitted
  queued : ∀ i slot, signal.queuedConnections[i]? = some slot →
    s.calls (.queued i) ++ (callsFor i (s.eventList (slotOwner slot))).map s.stack
      ++ (emits (s.eventList owner)).map s.stack = s.emitted
  emitPlaced : ∀ object parameters, .emit parameters ∈ s.eventList object → object = owner
  callPlaced : ∀ object i args, .call i args ∈ s.eventList object →
    ∃ slot, signal.queuedConnections[i]? = some slot ∧ slotOwner slot = object

section
variable {signal : Signal S} {owner : T} {slotOwner : S → T} {s s' : State T A}

/-- The arguments of the events in the lists are the same. -/
def SameArgs (s s' : State T A) : Prop :=
  ∀ object, ∀ event ∈ s.eventList object, s'.stack (storageOf event) = s.stack (storageOf event)

/-- If the events read the same arguments as before, then so do the emits among them. -/
theorem SameArgs.emits (h : SameArgs s s') (object : T) :
    (emits (s.eventList object)).map s'.stack = (emits (s.eventList object)).map s.stack := by
  refine List.map_congr_left fun storage hmem => ?_
  obtain ⟨event, hevent, hargs⟩ := List.mem_filterMap.mp hmem
  rw [← storageOf_emitArgs hargs]
  exact h object event hevent

/-- The same for the calls of one connection. -/
theorem SameArgs.callsFor (h : SameArgs s s') (index : Nat) (object : T) :
    (callsFor index (s.eventList object)).map s'.stack
      = (callsFor index (s.eventList object)).map s.stack := by
  refine List.map_congr_left fun storage hmem => ?_
  obtain ⟨event, hevent, hargs⟩ := List.mem_filterMap.mp hmem
  rw [← storageOf_callArgs hargs]
  exact h object event hevent

/-- What is in order has been delivered but for the events in the lists. -/
theorem Intact.delivers (h : Intact signal owner slotOwner s) :
    Delivers signal owner slotOwner s := by
  constructor
  · intro i hi
    have heq := h.direct i hi
    have hlength := congrArg List.length heq
    rw [List.length_append, List.length_map] at hlength
    exact ⟨⟨_, heq⟩, hlength⟩
  · intro i slot hslot
    have heq := h.queued i slot hslot
    have hlength := congrArg List.length heq
    rw [List.length_append, List.length_append, List.length_map, List.length_map] at hlength
    rw [List.append_assoc] at heq
    exact ⟨⟨_, heq⟩, hlength⟩

/-- The arguments of the events may be anywhere, as long as they are the same. -/
theorem Intact.congr (h : Intact signal owner slotOwner s) (hargs : SameArgs s s')
    (hlist : s'.eventList = s.eventList) (hcalls : s'.calls = s.calls)
    (hemitted : s'.emitted = s.emitted) : Intact signal owner slotOwner s' := by
  constructor
  · intro i hi
    rw [hlist, hcalls, hemitted, hargs.emits]
    exact h.direct i hi
  · intro i slot hslot
    rw [hlist, hcalls, hemitted, hargs.emits, hargs.callsFor]
    exact h.queued i slot hslot
  · rw [hlist]
    exact h.emitPlaced
  · rw [hlist]
    exact h.callPlaced

/-- At the start nothing has been emitted, and nothing waits. -/
theorem initial_intact (h : Initial s) : Intact signal owner slotOwner s := by
  obtain ⟨hlist, hcalls, hemitted⟩ := h
  constructor
  · intro i _
    rw [hcalls, hlist, hemitted]
    rfl
  · intro i slot _
    rw [hcalls, hlist, hlist, hemitted]
    rfl
  · intro object parameters hmem
    rw [hlist] at hmem
    cases hmem
  · intro object i args hmem
    rw [hlist] at hmem
    cases hmem

variable [DecidableEq T]

/-- An event for an emit comes into the list of the owner, and its arguments to those that should
be delivered. -/
theorem Intact.extend (h : Intact signal owner slotOwner s) (hargs : SameArgs s s')
    (storage : T × Nat)
    (hlist : ∀ object, s'.eventList object
      = s.eventList object ++ if object = owner then [.emit storage] else [])
    (hcalls : s'.calls = s.calls) (hemitted : s'.emitted = s.emitted ++ [s'.stack storage]) :
    Intact signal owner slotOwner s' := by
  have hemits : (emits (s'.eventList owner)).map s'.stack
      = (emits (s.eventList owner)).map s.stack ++ [s'.stack storage] := by
    rw [hlist, if_pos rfl, emits, List.filterMap_append, List.map_append]
    exact congrArg (· ++ [s'.stack storage]) (hargs.emits owner)
  -- the new event is an emit, so the calls that wait are the same
  have hcallsFor : ∀ index object,
      EventLoop.callsFor index (s'.eventList object)
        = EventLoop.callsFor index (s.eventList object) := by
    intro index object
    rw [hlist, EventLoop.callsFor, List.filterMap_append]
    split
    · exact List.append_nil _
    · exact List.append_nil _
  constructor
  · intro i hi
    rw [hcalls, hemitted, hemits, ← List.append_assoc, h.direct i hi]
  · intro i slot hslot
    rw [hcalls, hemitted, hemits, hcallsFor, hargs.callsFor, ← List.append_assoc,
      h.queued i slot hslot]
  · intro object parameters' hmem
    rw [hlist] at hmem
    rcases List.mem_append.mp hmem with hold | hnew
    · exact h.emitPlaced object parameters' hold
    · split at hnew
      · assumption
      · cases hnew
  · intro object i args hmem
    rw [hlist] at hmem
    rcases List.mem_append.mp hmem with hold | hnew
    · exact h.callPlaced object i args hold
    · split at hnew
      · exact nomatch List.mem_singleton.mp hnew
      · cases hnew

/-! ### What the actions keep -/

/-- To write where no event reads other arguments changes none of them. -/
theorem sameArgs_write {storage : T × Nat} {args : A} (h : Undisturbed s storage args) :
    SameArgs s (write s storage args) := by
  intro object event hevent
  show Function.update s.stack storage args (storageOf event) = _
  by_cases hstorage : storageOf event = storage
  · rw [hstorage, Function.update_self, h object event hevent hstorage]
  · rw [Function.update_of_ne hstorage]

/-- Another call keeps the invariant if it changes no arguments that an event needs. -/
theorem write_intact (h : Intact signal owner slotOwner s) {storage : T × Nat} {args : A}
    (hcareful : Undisturbed s storage args) : Intact signal owner slotOwner (write s storage args) :=
  h.congr (sameArgs_write hcareful) rfl rfl rfl

/-- An emit from another thread leaves its arguments on that thread's stack and an event in the
owner's list, behind the ones that wait. -/
theorem emit_intact (h : Intact signal owner slotOwner s) (hparent : signal.hasParent = true)
    {thread : T} (hthread : thread ≠ owner) {place : Nat} {parameters : A}
    (hcareful : Undisturbed s (thread, place) parameters) (places : Nat → Nat) :
    Intact signal owner slotOwner
      (emit signal owner slotOwner thread place places parameters s) := by
  have hrun : emit signal owner slotOwner thread place places parameters s
      = addEvent (write { s with emitted := s.emitted ++ [parameters] } (thread, place) parameters)
        owner (.emit (thread, place)) := by
    rw [emit, hparent]
    exact if_neg hthread
  rw [hrun]
  refine h.extend (sameArgs_write hcareful) (thread, place) (fun object => ?_) rfl ?_
  · show Function.update s.eventList owner (s.eventList owner ++ _) object = _
    by_cases hobject : object = owner
    · rw [if_pos hobject, hobject, Function.update_self]
    · rw [if_neg hobject, Function.update_of_ne hobject, List.append_nil]
  · show s.emitted ++ [parameters]
      = s.emitted ++ [Function.update s.stack (thread, place) parameters (thread, place)]
    rw [Function.update_self]

/-- The list of an object after its front event has been run and popped. -/
theorem pop_eventList (s : State T A) (object object' : T) :
    (pop s object).eventList object'
      = if object' = object then (s.eventList object').tail else s.eventList object' := by
  show Function.update s.eventList object _ object' = _
  by_cases hobject : object' = object
  · rw [if_pos hobject, hobject, Function.update_self]
  · rw [if_neg hobject, Function.update_of_ne hobject]

/-- Popping adds no event. -/
theorem mem_pop {object object' : T} {event : Event T}
    (h : event ∈ (pop s object).eventList object') : event ∈ s.eventList object' := by
  rw [pop_eventList] at h
  split at h
  · exact List.mem_of_mem_tail h
  · exact h

/-- A front event that is no emit leaves the emits as they are. -/
theorem emits_pop {object : T} {event : Event T} {events : List (Event T)}
    (hlist : s.eventList object = event :: events) (hevent : emitArgs event = none) (object' : T) :
    emits ((pop s object).eventList object') = emits (s.eventList object') := by
  rw [pop_eventList]
  by_cases hobject : object' = object
  · rw [if_pos hobject, hobject, hlist]
    exact (List.filterMap_cons_none hevent).symm
  · rw [if_neg hobject]

/-- A front event that is no call for a connection leaves the calls for it as they are. -/
theorem callsFor_pop {object : T} {event : Event T} {events : List (Event T)} {index : Nat}
    (hlist : s.eventList object = event :: events) (hevent : callArgs index event = none)
    (object' : T) :
    callsFor index ((pop s object).eventList object') = callsFor index (s.eventList object') := by
  rw [pop_eventList]
  by_cases hobject : object' = object
  · rw [if_pos hobject, hobject, hlist]
    exact (List.filterMap_cons_none hevent).symm
  · rw [if_neg hobject]

/-- A call of a queued connection is run. -/
theorem runCall_intact (h : Intact signal owner slotOwner s) {object : T} {i : Nat} {args : T × Nat}
    {events : List (Event T)} (hlist : s.eventList object = .call i args :: events) :
    Intact signal owner slotOwner (pop (call s (.queued i) (s.stack args)) object) := by
  have hemits := emits_pop (s := call s (.queued i) (s.stack args)) hlist rfl owner
  constructor
  · -- a queued call is none of a direct connection
    intro j hj
    have hother : Connection.direct j ≠ .queued i := fun heq => nomatch heq
    rw [hemits]
    refine Eq.trans ?_ (h.direct j hj)
    show Function.update s.calls (.queued i) (s.calls (.queued i) ++ [s.stack args]) (.direct j) ++ _
      = _
    rw [Function.update_of_ne hother]
    rfl
  · intro j slot hslot
    rw [hemits]
    refine Eq.trans ?_ (h.queued j slot hslot)
    refine congrArg (· ++ _) ?_
    show Function.update s.calls (.queued i) (s.calls (.queued i) ++ [s.stack args]) (.queued j) ++ _
      = _
    by_cases hij : i = j
    · -- the argument goes from the list to the calls
      subst hij
      obtain ⟨slot', hslot', howner⟩ :=
        h.callPlaced object i args (by rw [hlist]; exact List.mem_cons_self)
      obtain rfl : slot' = slot := Option.some.inj (hslot'.symm.trans hslot)
      have hhead : callArgs i (.call i args) = some args := if_pos rfl
      rw [Function.update_self, howner, pop_eventList, if_pos rfl, List.append_assoc]
      refine congrArg (s.calls (.queued i) ++ ·) ?_
      show [s.stack args] ++ (callsFor i (s.eventList object).tail).map s.stack = _
      rw [hlist, callsFor, callsFor, List.filterMap_cons_some hhead]
      rfl
    · have hother : Connection.queued j ≠ .queued i :=
        fun heq => hij (Connection.queued.inj heq).symm
      rw [Function.update_of_ne hother, callsFor_pop (s := call s (.queued i) (s.stack args)) hlist
        (if_neg hij)]
      rfl
  · intro object' parameters hmem
    exact h.emitPlaced object' parameters (mem_pop hmem)
  · intro object' j args' hmem
    exact h.callPlaced object' j args' (mem_pop hmem)

/-- What the loops over the connections write leaves the arguments of the events alone. -/
theorem sameArgs_callConnections (slotOwner : S → T) {places : Nat → Nat} {parameters : A}
    (hcareful : ∀ i < signal.queuedConnections.length, Undisturbed s (owner, places i) parameters) :
    SameArgs s (callConnections signal owner slotOwner places parameters s) := by
  intro object event hevent
  obtain ⟨hstack, -, -⟩ := callDirectConnections_frame parameters 0 signal.directConnections s
  rcases callQueuedConnections_stack parameters owner slotOwner places 0 signal.queuedConnections
    (callDirectConnections parameters 0 signal.directConnections s) (storageOf event) with
    ⟨⟨k, hk, hstorage⟩, hargs⟩ | ⟨-, hargs⟩
  · rw [Nat.zero_add] at hstorage
    refine hargs.trans (Eq.symm ?_)
    rw [hstorage]
    exact hcareful k hk object event hevent hstorage
  · exact hargs.trans (congrFun hstack _)

/-- An emit is run, on the thread of the owner. -/
theorem runEmit_intact (h : Intact signal owner slotOwner s) {parameters : T × Nat}
    {events : List (Event T)} (hlist : s.eventList owner = .emit parameters :: events)
    {places : Nat → Nat} (hcareful : ∀ i < signal.queuedConnections.length,
      Undisturbed s (owner, places i) (s.stack parameters)) :
    Intact signal owner slotOwner
      (pop (callConnections signal owner slotOwner places (s.stack parameters) s) owner) := by
  have hargs := sameArgs_callConnections slotOwner hcareful
  obtain ⟨hlists, hdirect, hqueued, hemitted, hstack⟩ :=
    callConnections_spec signal (s.stack parameters) owner slotOwner places s
  generalize callConnections signal owner slotOwner places (s.stack parameters) s = s' at *
  -- the emit goes from the list of the owner, and the new events come to the lists
  have hfront : s'.eventList owner = .emit parameters ::
      (events ++ newEvents owner slotOwner places owner 0 signal.queuedConnections) := by
    rw [hlists, hlist, List.cons_append]
  have hemits : (emits ((pop s' owner).eventList owner)).map s'.stack
      = (emits events).map s.stack := by
    have hall := hargs.emits owner
    rw [hlist] at hall
    rw [pop_eventList, if_pos rfl, hfront, List.tail_cons, emits, List.filterMap_append]
    show (emits events ++ emits (newEvents _ _ _ _ _ _)).map s'.stack = _
    rw [emits_newEvents, List.append_nil]
    exact (List.cons.inj hall).2
  constructor
  · intro i hi
    have hold := h.direct i hi
    rw [hlist] at hold
    show s'.calls (.direct i) ++ (emits ((pop s' owner).eventList owner)).map s'.stack = s'.emitted
    rw [hemits, hdirect i hi, hemitted, ← hold, List.append_assoc]
    rfl
  · intro i slot hslot
    have hold := h.queued i slot hslot
    have hnew := @callsFor_newEvents S T _ owner slotOwner places 0 i _ slot hslot
    rw [Nat.zero_add] at hnew
    have hcalls : callsFor i ((pop s' owner).eventList (slotOwner slot)) = _ :=
      callsFor_pop hfront rfl (slotOwner slot)
    show s'.calls (.queued i) ++ (callsFor i ((pop s' owner).eventList (slotOwner slot))).map s'.stack
      ++ (emits ((pop s' owner).eventList owner)).map s'.stack = s'.emitted
    rw [hcalls, hlists, callsFor, List.filterMap_append]
    show s'.calls (.queued i) ++ (callsFor i _ ++ callsFor i (newEvents _ _ _ _ _ _)).map s'.stack
      ++ _ = _
    rw [hnew, List.map_append, hargs.callsFor, hqueued, hemits, hemitted, ← hold, hlist]
    show _ ++ (_ ++ [s'.stack (owner, places i)]) ++ _ = _ ++ _ ++ s.stack parameters :: _
    rw [hstack i slot hslot, ← List.append_assoc, List.append_assoc _ [s.stack parameters]]
    rfl
  · intro object parameters' hmem
    have hmem := mem_pop hmem
    rw [hlists] at hmem
    rcases List.mem_append.mp hmem with hold | hnew
    · exact h.emitPlaced object parameters' hold
    · obtain ⟨k, slot, -, -, heq⟩ := mem_newEvents hnew
      cases heq
  · intro object i args hmem
    have hmem := mem_pop hmem
    rw [hlists] at hmem
    rcases List.mem_append.mp hmem with hold | hnew
    · exact h.callPlaced object i args hold
    · obtain ⟨k, slot, hslot, howner, heq⟩ := mem_newEvents hnew
      obtain ⟨rfl, -⟩ := Event.call.inj heq
      exact ⟨slot, by rwa [Nat.zero_add], howner⟩

/-- The event that is run comes off the front of its list. An emit calls the direct slots and puts a
call into the list of each queued slot, a call reaches its slot, both with the arguments that were
meant. -/
theorem run_intact (h : Intact signal owner slotOwner s) {object : T} {places : Nat → Nat}
    (hcareful : Careful signal owner s (.run object places))
    (hrun : run signal owner slotOwner object places s = some s') :
    Intact signal owner slotOwner s' := by
  unfold run at hrun
  cases hlist : s.eventList object with
  | nil =>
    rw [hlist] at hrun
    cases hrun
  | cons event events =>
    rw [hlist] at hrun
    rw [← Option.some.inj hrun]
    cases event with
    | call i args => exact runCall_intact h hlist
    | emit parameters =>
      obtain rfl : object = owner :=
        h.emitPlaced object parameters (by rw [hlist]; exact List.mem_cons_self)
      exact runEmit_intact h hlist (hcareful parameters (by rw [hlist]; rfl))

/-- The step lemma: a careful action keeps `Intact`, whoever makes it. -/
theorem perform_intact (hparent : signal.hasParent = true) (h : Intact signal owner slotOwner s)
    {action : Action T A} (hallowed : Allowed owner action)
    (hcareful : Careful signal owner s action)
    (hperform : perform signal owner slotOwner s action = some s') :
    Intact signal owner slotOwner s' := by
  cases action with
  | emit thread place parameters =>
    rw [← Option.some.inj hperform]
    exact emit_intact h hparent hallowed hcareful _
  | run object places => exact run_intact h hcareful hperform
  | reuse thread place args =>
    rw [← Option.some.inj hperform]
    exact write_intact h hcareful

/-- In a run whose calls leave the arguments of queued events alone, each slot is called with the
arguments of the emits, in order and once for each. -/
theorem delivers_of_careful (hparent : signal.hasParent = true)
    (h : Reachable Initial (CarefulNext signal owner slotOwner) s) :
    Delivers signal owner slotOwner s := by
  refine Intact.delivers (h.invariant (fun _ => initial_intact) ?_)
  rintro s t - hs ⟨action, hallowed, hcareful, hperform⟩
  exact perform_intact hparent hs hallowed hcareful hperform

end

/-! ### A thread that emits twice -/

/-- A signal with one direct connection. -/
def oneConnection : Signal Unit := ⟨[()], [], true⟩

/-- Nothing has been emitted, and there are zeros on the stacks. -/
def start : State Bool Nat := ⟨fun _ => 0, fun _ => [], fun _ => [], []⟩

/-- `start` is an initial state. -/
theorem start_initial : Initial start := ⟨fun _ => rfl, fun _ => rfl, rfl⟩

/-- The result for a thread that emits 1 and then 2, with their arguments at different places. -/
theorem delivers_two_emits : ∃ s : State Bool Nat,
    Delivers oneConnection true (fun _ => true) s ∧ s.emitted = [1, 2] ∧
      s.calls (.direct 0) = [1, 2] := by
  have hstart : Reachable Initial (CarefulNext oneConnection true fun _ => true) start :=
    .start start_initial
  have hfirst := hstart.step ⟨.emit false 0 1, Bool.noConfusion,
    fun _ _ hmem => (nomatch hmem), rfl⟩
  have hcareful : Undisturbed (emit oneConnection true (fun _ => true) false 0 (fun _ => 0) 1 start)
      (false, 1) 2 := by
    intro object event hevent hstorage
    cases object with
    | false => cases hevent
    | true =>
      obtain rfl : event = .emit (false, 0) := List.mem_singleton.mp hevent
      exact absurd hstorage (by decide)
  have hsecond := hfirst.step ⟨.emit false 1 2, Bool.noConfusion, hcareful, rfl⟩
  have hrun := hsecond.step ⟨.run true id, trivial, fun _ _ i hi => absurd hi (Nat.not_lt_zero i), rfl⟩
  have hdone := hrun.step ⟨.run true id, trivial, fun _ _ i hi => absurd hi (Nat.not_lt_zero i), rfl⟩
  exact ⟨_, delivers_of_careful rfl hdone, rfl, rfl⟩

/-- A thread emits 1 and then 2 from the same place, and the slot is called with 2. -/
theorem reuse_delivers_wrong :
    ¬∀ s : State Bool Nat, Reachable Initial (Next oneConnection true fun _ => true) s →
      Delivers oneConnection true (fun _ => true) s := by
  intro h
  have hstart : Reachable Initial (Next oneConnection true fun _ => true) start :=
    .start start_initial
  have hfirst := hstart.step ⟨.emit false 0 1, Bool.noConfusion, rfl⟩
  have hsecond := hfirst.step ⟨.emit false 0 2, Bool.noConfusion, rfl⟩
  have hrun := hsecond.step ⟨.run true id, trivial, rfl⟩
  have hprefix : [2] <+: [1, 2] := ((h _ hrun).direct 0 (by decide)).1
  exact absurd hprefix (by decide)

end Brutils.Proofs.EventLoop
