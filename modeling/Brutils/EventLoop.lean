import Brutils.Signal
import Mathlib.Data.Prod.Basic

/-!
# `Brutils.EventLoop`: emitting a signal, and the loop of `br_threaded_object`

A threaded object has a list of events and a thread that runs them, and the object is its
thread here. `emit` on another thread than the owner's puts an event on the owner's list. That
event calls the slots of the direct connections, and puts an event on the list of the owner of
each slot of the queued ones.

The closures capture the parameters of `emit` and of `addEventToParent` by reference. So an
event holds not the arguments but where they are: the thread of the call, and a place on its
stack. The call writes them there, and the event reads what is there when it is run. A call
that comes after it may use the place again, and which place a call uses is open.

Adding an event is one step, and so is taking the front event, running it and popping it.
`calls` and `emitted` are ghosts that no step reads: the arguments with which the slot of each
connection has been called, and those of the emits, in the order of their events.
-/

set_option autoImplicit false

namespace Brutils

namespace EventLoop

/-- A connection of the signal, by its index in `_directConnections` or `_queuedConnections`. -/
inductive Connection
  | direct (index : Nat)
  | queued (index : Nat)
  deriving DecidableEq, Repr

/-- An event: the closure of `emit` or of `addEventToParent`, with where its arguments are. -/
inductive Event (T : Type)
  | emit (parameters : T × Nat)
  | call (index : Nat) (args : T × Nat)
  deriving DecidableEq, Repr

/-- The stacks of the threads, the event lists of the objects, and the ghosts. -/
structure State (T A : Type) where
  stack : T × Nat → A
  eventList : T → List (Event T)
  calls : Connection → List A
  emitted : List A

variable {S T A : Type} [DecidableEq T]

/-- A call writes its arguments to its place. -/
def write (s : State T A) (storage : T × Nat) (args : A) : State T A :=
  { s with stack := Function.update s.stack storage args }

/-- `addEvent`. -/
def addEvent (s : State T A) (object : T) (event : Event T) : State T A :=
  { s with eventList := Function.update s.eventList object (s.eventList object ++ [event]) }

/-- The call of the function of a slot. -/
def call (s : State T A) (connection : Connection) (args : A) : State T A :=
  { s with calls := Function.update s.calls connection (s.calls connection ++ [args]) }

/-- The loop of `callDirectConnections`, from the connection with the index `i`. -/
def callDirectConnections (parameters : A) : Nat → List S → State T A → State T A
  | _, [], s => s
  | i, _ :: connections, s =>
    callDirectConnections parameters (i + 1) connections (call s (.direct i) parameters)

section
variable (signal : Signal S) (owner : T) (slotOwner : S → T)

/-- `slot::addEventToParent`, called on the thread of the owner, for the connection with the
index `i`. -/
def addEventToParent (slot : S) (i : Nat) (place : Nat) (args : A) (s : State T A) : State T A :=
  addEvent (write s (owner, place) args) (slotOwner slot) (.call i (owner, place))

/-- The loop of `callQueuedConnections`, from the connection with the index `i`. `places` are
those of the calls of `addEventToParent`. -/
def callQueuedConnections (places : Nat → Nat) (parameters : A) :
    Nat → List S → State T A → State T A
  | _, [], s => s
  | i, slot :: connections, s =>
    callQueuedConnections places parameters (i + 1) connections
      (addEventToParent owner slotOwner slot i (places i) parameters s)

/-- Both loops. -/
def callConnections (places : Nat → Nat) (parameters : A) (s : State T A) : State T A :=
  callQueuedConnections owner slotOwner places parameters 0 signal.queuedConnections
    (callDirectConnections parameters 0 signal.directConnections s)

/-- `signal::emit`, on a thread. -/
def emit (thread : T) (place : Nat) (places : Nat → Nat) (parameters : A) (s : State T A) :
    State T A :=
  let s := write { s with emitted := s.emitted ++ [parameters] } (thread, place) parameters
  if !signal.hasParent then callDirectConnections parameters 0 signal.directConnections s
  else if thread = owner then callConnections signal owner slotOwner places parameters s
  else addEvent s owner (.emit (thread, place))

/-- An event is run. -/
def runEvent (places : Nat → Nat) (s : State T A) : Event T → State T A
  | .emit parameters => callConnections signal owner slotOwner places (s.stack parameters) s
  | .call i args => call s (.queued i) (s.stack args)

/-- `_eventList.pop`. -/
def pop (s : State T A) (object : T) : State T A :=
  { s with eventList := Function.update s.eventList object (s.eventList object).tail }

/-- One pass of the loop of `br_threaded_object::run`, with `none` while it waits. -/
def run (object : T) (places : Nat → Nat) (s : State T A) : Option (State T A) :=
  match s.eventList object with
  | [] => none
  | event :: _ => some (pop (runEvent signal owner slotOwner places s event) object)

/-- What a thread can do. -/
inductive Action (T A : Type)
  /-- `emit` -/
  | emit (thread : T) (place : Nat) (parameters : A)
  /-- a pass of the loop of an object -/
  | run (object : T) (places : Nat → Nat)
  /-- another call, which uses the place for its own arguments -/
  | reuse (thread : T) (place : Nat) (args : A)

/-- The state after an action. -/
def perform (s : State T A) : Action T A → Option (State T A)
  | .emit thread place parameters =>
    some (emit signal owner slotOwner thread place (fun _ => place) parameters s)
  | .run object places => run signal owner slotOwner object places s
  | .reuse thread place args => some (write s (thread, place) args)

/-- The signal is emitted on other threads than the owner's. -/
def Allowed : Action T A → Prop
  | .emit thread _ _ => thread ≠ owner
  | .run _ _ => True
  | .reuse _ _ _ => True

/-- One step. -/
def Next (s t : State T A) : Prop :=
  ∃ action, Allowed owner action ∧ perform signal owner slotOwner s action = some t

end

/-- Nothing has been emitted. -/
def Initial (s : State T A) : Prop :=
  (∀ object, s.eventList object = []) ∧ (∀ connection, s.calls connection = []) ∧ s.emitted = []

end EventLoop

end Brutils
