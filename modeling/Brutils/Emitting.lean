import Brutils.ObjectTree
import Brutils.Signal

/-!
# `Brutils.Emitting`: what an emit does with the connections of a world

`Brutils.EventLoop` follows the events of one signal whose connections stay as they are. Here the
signals and slots are those of a `World`, with the connections that they have made, and the
result of an emit is the list of its deliveries: the calls of slots, and the events that are put
on the lists of their root objects. An exception ends it. `Owners` says what a world does not know:
the parents, and whether a slot has been given its function. A parent is asked for only if there
is one.

On another thread than that of its parent, a signal puts one event on the list of its root
object, and that event does what `emit` does on the thread itself. Its deliveries are counted as
those of the emit. The functions of the slots are not followed.
-/

set_option autoImplicit false

namespace Brutils

namespace Emitting

/-- What an emit does for a slot: it calls its function, or puts an event on a list. -/
inductive Delivery (S : Type)
  | call (slot : S)
  | event (slot : S)
  deriving DecidableEq, Repr

/-- What ends an emit early: an exception, or a pointer to an object that does not live. -/
inductive Interruption
  | thrown (e : RuntimeError)
  | dangling
  deriving DecidableEq, Repr

/-- The deliveries of an emit, and what has ended it early. -/
structure Outcome (S : Type) where
  deliveries : List (Delivery S)
  interruption : Option Interruption
  deriving DecidableEq, Repr

/-- One outcome and then another, unless the first one ends early. -/
def Outcome.andThen {S : Type} (first second : Outcome S) : Outcome S :=
  match first.interruption with
  | some interruption => ⟨first.deliveries, some interruption⟩
  | none => ⟨first.deliveries ++ second.deliveries, second.interruption⟩

/-- Neither of the two ends early. -/
theorem Outcome.andThen_interruption {S : Type} (first second : Outcome S) :
    (first.andThen second).interruption = none ↔
      first.interruption = none ∧ second.interruption = none := by
  rw [Outcome.andThen]
  cases first.interruption with
  | none => simp
  | some interruption => simp

/-- Nothing more to do leaves an outcome as it is. -/
theorem Outcome.andThen_nothing {S : Type} (first : Outcome S) :
    first.andThen ⟨[], none⟩ = first := by
  obtain ⟨deliveries, interruption⟩ := first
  cases interruption with
  | none => simp [Outcome.andThen]
  | some interruption => rfl

/-- An event on the list of a threaded object: the closure of `emit`, or of `addEventToParent`. -/
inductive Closure (G S : Type)
  | emit (g : G)
  | call (slot : S)
  deriving DecidableEq, Repr

/-- The parents of signals and slots, and the slots that have a function. -/
structure Owners (G S T : Type) where
  signalParent : G → BrObject T (Closure G S)
  slotParent : S → BrObject T (Closure G S)
  init : S → Bool

variable {G S T : Type} (owners : Owners G S T) (w : World G S)

/-- `slot::call`. -/
def call (slot : S) : Outcome S :=
  match w.slots slot with
  | none => ⟨[], some .dangling⟩
  | some _ =>
    if owners.init slot then ⟨[.call slot], none⟩
    else ⟨[], some (.thrown ⟨"slot is not initialized with a function"⟩)⟩

/-- `slot::addEventToParent`. -/
def addEventToParent (slot : S) : Outcome S :=
  match w.slots slot with
  | none => ⟨[], some .dangling⟩
  | some members =>
    if !members.hasParent then ⟨[], none⟩
    else
      match (owners.slotParent slot).getRootObject.addEvent (.call slot) with
      | .error e => ⟨[], some (.thrown e)⟩
      | .ok _ => ⟨[.event slot], none⟩

/-- A loop over connections. No connection is a null pointer. -/
def forEach (f : S → Outcome S) : List S → Outcome S
  | [] => ⟨[], none⟩
  | slot :: connections => (f slot).andThen (forEach f connections)

/-- `callDirectConnections`. -/
def callDirectConnections (connections : List S) : Outcome S := forEach (call owners w) connections

/-- `callQueuedConnections`. -/
def callQueuedConnections (connections : List S) : Outcome S :=
  forEach (addEventToParent owners w) connections

/-- Both loops. -/
def callConnections (signal : Signal S) : Outcome S :=
  (callDirectConnections owners w signal.directConnections).andThen
    (callQueuedConnections owners w signal.queuedConnections)

/-- `signal::emit`, on a thread. -/
def emit [DecidableEq T] (thread : T) (g : G) : Outcome S :=
  match w.signals g with
  | none => ⟨[], some .dangling⟩
  | some signal =>
    if !signal.hasParent then callDirectConnections owners w signal.directConnections
    else if thread = (owners.signalParent g).getThreadId thread then
      callConnections owners w signal
    else
      match (owners.signalParent g).getRootObject.addEvent (.emit g) with
      | .error e => ⟨[], some (.thrown e)⟩
      | .ok _ => callConnections owners w signal

end Emitting

end Brutils
