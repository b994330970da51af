import Brutils.Proofs.Emitting
import Brutils.QueuedEvents

/-!
# `Brutils.Proofs.QueuedEvents`: what a move does

The two loops over the connections of a signal come to one state, `served`: the slots of the direct
connections have been called, and each queued connection has put an event on the list of the thread
of its slot. `Effect` lists what a move does that does not end the run (`step_effect`). What holds
of runs is a case analysis over it.
-/

set_option autoImplicit false

namespace Brutils.Proofs.QueuedEvents

open Brutils.Signal Brutils.QueuedEvents
open Brutils.Proofs.Signal
open Brutils.Proofs.ObjectTree
open Brutils.Proofs.Emitting (QueuedOwned Ready callConnections_spec)
open Brutils.Emitting (Closure Delivery Outcome Owners)

variable {G S T : Type} [DecidableEq T] {owners : Owners G S T} {s : State G S T}

/-! ### Deliveries -/

section
variable (owners)

/-- The events of the slots that go to a thread. -/
def arriving (thread : T) (slots : List S) : List (Closure G S) :=
  (slots.filter fun slot => threadOf (owners.slotParent slot) = some thread).map .call

/-- The connections of a signal have been served. -/
def served (s : State G S T) (g : G) (signal : Signal S) : State G S T where
  world := s.world
  events := fun thread => s.events thread ++ arriving owners thread signal.queuedConnections
  called := s.called ++ signal.directConnections
  performed := s.performed ++ [(g, signal)]
  stop := none

/-- The direct connections are called one after the other. -/
theorem foldl_calls (slots : List S) (s : State G S T) :
    (slots.map Delivery.call).foldl (deliver owners) s =
      { s with called := s.called ++ slots } := by
  induction slots generalizing s with
  | nil => simp
  | cons slot slots ih =>
    rw [List.map_cons, List.foldl_cons, ih]
    simp [deliver]

/-- An event goes to the end of one list. -/
theorem push_eq {owners : Owners G S T} {event : Closure G S} {home : T}
    (hhome : threadOf (parentOf owners event) = some home) (s : State G S T) :
    push owners s event =
      { s with events := Function.update s.events home (s.events home ++ [event]) } := by
  rw [push, hhome]

/-- One event for a slot arrives on the list of its thread, if it has one. -/
theorem push_call (slot : S) (s : State G S T) : push owners s (.call slot) =
    { s with events := fun thread => s.events thread ++ arriving owners thread [slot] } := by
  have hparent : parentOf owners (.call slot) = owners.slotParent slot := rfl
  cases hthread : threadOf (owners.slotParent slot) with
  | none => simp [push, hparent, hthread, arriving]
  | some home =>
    simp only [push, hparent, hthread]
    congr 1
    funext thread
    by_cases heq : thread = home
    · simp [heq, arriving, hthread]
    · simp [heq, arriving, hthread, Ne.symm heq]

/-- The events arrive in the order of the connections, each on the list of its own thread. -/
theorem foldl_events (slots : List S) (s : State G S T) :
    (slots.map Delivery.event).foldl (deliver owners) s =
      { s with events := fun thread => s.events thread ++ arriving owners thread slots } := by
  induction slots generalizing s with
  | nil => simp [arriving]
  | cons slot slots ih =>
    have hfirst : deliver owners s (.event slot) = push owners s (.call slot) := rfl
    have hcons : ∀ thread, arriving owners thread (slot :: slots) =
        arriving owners thread [slot] ++ arriving owners thread slots := by
      intro thread
      rw [arriving, ← List.singleton_append, List.filter_append, List.map_append]
      rfl
    rw [List.map_cons, List.foldl_cons, hfirst, push_call, ih]
    simp [hcons]

end

section
variable {g : G} {signal : Signal S} (hdangling : NoneDangling s.world)
  (howned : QueuedOwned s.world) (hg : s.world.signals g = some signal)
include hdangling howned hg

/-- When every slot can be served, the two loops come to `served`. -/
theorem callConnections_eq (hready : Ready owners signal) :
    callConnections owners s g signal = served owners s g signal := by
  obtain ⟨hnone, hdeliveries⟩ := callConnections_spec hdangling howned hg
  rw [callConnections, finish, hnone.mpr hready, hdeliveries hready, List.foldl_append, foldl_calls,
    foldl_events]
  rfl

/-- They are interrupted exactly when a slot cannot be served. -/
theorem callConnections_stop :
    (callConnections owners s g signal).stop = none ↔ Ready owners signal := by
  exact Option.map_eq_none_iff.trans (callConnections_spec hdangling howned hg).1

omit hdangling in
/-- An `emit` serves the connections, or it puts one event on the list of the signal's thread. -/
theorem emit_cases (owners : Owners G S T) (thread : T) :
    emit owners s thread g = callConnections owners s g signal ∨
    emit owners s thread g = push owners s (.emit g) ∧
      ∃ home, threadOf (parentOf owners (.emit g)) = some home := by
  cases hparent : signal.hasParent with
  | false =>
    have hqueued : signal.queuedConnections = [] := by
      rw [List.eq_nil_iff_forall_not_mem]
      intro slot hslot
      have htrue := (howned g signal hg slot hslot).1
      rw [hparent] at htrue
      cases htrue
    have hboth : Emitting.callConnections owners s.world signal =
        Emitting.callDirectConnections owners s.world signal.directConnections := by
      rw [Emitting.callConnections, hqueued]
      exact Outcome.andThen_nothing _
    left
    rw [callConnections, hboth]
    simp [emit, hg, hparent]
  | true =>
    by_cases hthread : thread = (owners.signalParent g).getThreadId thread
    · left
      simp only [emit, hg, hparent, if_pos hthread]
      rfl
    · right
      -- the root object has a thread of its own, so it takes the event
      rcases getRootObject_cases (owners.signalParent g) with hplain | ⟨home, eventList, hthreaded⟩
      · exact absurd (getThreadId_of_root hplain thread).symm hthread
      · have hroot := (getRootObject_getRootObject (owners.signalParent g)).trans hthreaded
        obtain ⟨after, hok, -⟩ := addEvent_of_threaded hroot (Closure.emit (S := S) g)
        refine ⟨?_, home, by simp [threadOf, parentOf, hthreaded]⟩
        simp only [emit, hg, hparent, if_neg hthread, hok]
        rfl

end

/-! ### What a move does -/

section
variable [DecidableEq G] [DecidableEq S]

/-- What a move does that does not end the run. -/
inductive Effect (owners : Owners G S T) (s : State G S T) : Move G S T → State G S T → Prop
  | op (op : Op G S) (w : World G S) (hrun : op.run s.world = some w) :
      Effect owners s (.op op) { s with world := w }
  | emitHere (thread : T) (g : G) (signal : Signal S) (hg : s.world.signals g = some signal)
      (hready : Ready owners signal) : Effect owners s (.emit thread g) (served owners s g signal)
  | emitThere (thread home : T) (g : G) (hlive : (s.world.signals g).isSome)
      (hhome : threadOf (parentOf owners (.emit g)) = some home) :
      Effect owners s (.emit thread g) (push owners s (.emit g))
  | wait (thread : T) (hnone : s.events thread = []) : Effect owners s (.run thread) s
  | runSignal (thread : T) (g : G) (signal : Signal S) (rest : List (Closure G S))
      (hfront : s.events thread = .emit g :: rest) (hg : s.world.signals g = some signal)
      (hready : Ready owners signal) :
      Effect owners s (.run thread) (pop (served owners s g signal) thread)
  | runSlot (thread : T) (slot : S) (rest : List (Closure G S))
      (hfront : s.events thread = .call slot :: rest) (hlive : (s.world.slots slot).isSome) :
      Effect owners s (.run thread) (pop { s with called := s.called ++ [slot] } thread)

section
variable (hgoing : s.stop = none)
include hgoing

/-- An operation on signals and slots changes the world only. -/
theorem step_op {op : Op G S} {w : World G S} (hrun : op.run s.world = some w) :
    step owners s (.op op) = { s with world := w } := by
  simp [step, hgoing, hrun]

/-- One that reaches through a dangling pointer ends the run. -/
theorem step_op_none {op : Op G S} (hrun : op.run s.world = none) :
    step owners s (.op op) = { s with stop := some .dangling } := by
  simp [step, hgoing, hrun]

/-- The move of an emit. -/
theorem step_emit (thread : T) (g : G) :
    step owners s (.emit thread g) = emit owners s thread g := by
  simp [step, hgoing]

/-- The move of a pass. -/
theorem step_run (thread : T) : step owners s (.run thread) = run owners s thread := by
  simp [step, hgoing]

end

/-- A pass of the loop. -/
theorem run_effect (hdangling : NoneDangling s.world) (howned : QueuedOwned s.world)
    (thread : T) (hstop : (run owners s thread).stop = none) :
    Effect owners s (.run thread) (run owners s thread) := by
  cases hevents : s.events thread with
  | nil =>
    have hrun : run owners s thread = s := by rw [run, hevents]
    rw [hrun]
    exact .wait thread hevents
  | cons event rest =>
    have hrun : run owners s thread = if (call owners s event).stop = none
        then pop (call owners s event) thread else call owners s event := by
      rw [run, hevents]
    -- the pass goes on to the pop, so the event has run without an interruption
    have hnone : (call owners s event).stop = none := by
      by_contra hne
      rw [hrun, if_neg hne] at hstop
      exact hne hstop
    rw [hrun, if_pos hnone]
    cases event with
    | emit g =>
      cases hg : s.world.signals g with
      | none => simp [call, hg] at hnone
      | some signal =>
        have hcall : call owners s (.emit g) = callConnections owners s g signal := by
          simp only [call, hg]
        rw [hcall] at hnone ⊢
        have hready := (callConnections_stop hdangling howned hg).mp hnone
        rw [callConnections_eq hdangling howned hg hready]
        exact .runSignal thread g signal rest hevents hg hready
    | call slot =>
      cases hslot : s.world.slots slot with
      | none => simp [call, hslot] at hnone
      | some members =>
        have hinit : owners.init slot = true := by
          by_contra hne
          simp [call, hslot, hne] at hnone
        have hcall : call owners s (.call slot) = { s with called := s.called ++ [slot] } := by
          simp only [call, hslot, if_pos hinit]
        rw [hcall]
        exact .runSlot thread slot rest hevents (by rw [hslot]; rfl)

/-- The case analysis for all later lemmas: a move that does not end the run has one of the listed
effects. -/
theorem step_effect (hdangling : NoneDangling s.world) (howned : QueuedOwned s.world)
    (hgoing : s.stop = none) (move : Move G S T) (hstop : (step owners s move).stop = none) :
    Effect owners s move (step owners s move) := by
  cases move with
  | op op =>
    cases hrun : op.run s.world with
    | none =>
      rw [step_op_none hgoing hrun] at hstop
      cases hstop
    | some w =>
      rw [step_op hgoing hrun]
      exact .op op w hrun
  | emit thread g =>
    rw [step_emit hgoing] at hstop ⊢
    cases hg : s.world.signals g with
    | none => simp [emit, hg] at hstop
    | some signal =>
      rcases emit_cases howned hg owners thread with hhere | ⟨hthere, home, hhome⟩
      · rw [hhere] at hstop ⊢
        have hready := (callConnections_stop hdangling howned hg).mp hstop
        rw [callConnections_eq hdangling howned hg hready]
        exact .emitHere thread g signal hg hready
      · rw [hthere]
        exact .emitThere thread home g (by rw [hg]; rfl) hhome
  | run thread =>
    rw [step_run hgoing] at hstop ⊢
    exact run_effect hdangling howned thread hstop

/-- An operation that follows no dangling pointer has been called on live objects. -/
theorem onLive_of_run {w w' : World G S} {op : Op G S} (h : op.run w = some w') : op.OnLive w := by
  cases op with
  | connect g s type sameThread =>
    have hrun : Signal.connect w g s type sameThread = some w' := h
    simp only [Signal.connect, signalConnected, Option.bind_eq_bind, Option.bind_eq_some_iff]
      at hrun
    obtain ⟨signal, hg, _, hslot, _⟩ := hrun
    exact ⟨by rw [hg]; rfl, by rw [hslot]; rfl⟩
  | disconnect g =>
    obtain ⟨signal, hg, _⟩ := Option.bind_eq_some_iff.mp h
    show (w.signals g).isSome
    rw [hg]
    rfl
  | disconnectSlot g s =>
    obtain ⟨signal, hg, _⟩ := Option.bind_eq_some_iff.mp h
    show (w.signals g).isSome
    rw [hg]
    rfl
  | destroySlot s =>
    obtain ⟨slot, hs, _⟩ := Option.bind_eq_some_iff.mp h
    show (w.slots s).isSome
    rw [hs]
    rfl
  | destroySignal g =>
    obtain ⟨_, hdisconnect, _⟩ := Option.bind_eq_some_iff.mp h
    obtain ⟨signal, hg, _⟩ := Option.bind_eq_some_iff.mp hdisconnect
    show (w.signals g).isSome
    rw [hg]
    rfl

/-- After its end a run stays as it is. -/
theorem going_of_foldl (moves : List (Move G S T))
    (hstop : (moves.foldl (step owners) s).stop = none) : s.stop = none := by
  induction moves generalizing s with
  | nil => exact hstop
  | cons move moves ih =>
    by_contra hne
    have hstep : step owners s move = s := by simp [step, hne]
    rw [List.foldl_cons, hstep] at hstop
    exact hne (ih hstop)

end

end Brutils.Proofs.QueuedEvents
