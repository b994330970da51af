import Brutils.Lib.Fairness
import Brutils.Lib.Transition

/-!
# `Brutils.ThreadedObject`: the thread of a `br_threaded_object`

A `br_threaded_object` runs the events that are added to it in a thread of its own. It ends that
thread when it is destroyed. `addEvent` and the destructor do not take `_condMutex`. Only the
thread takes it, around its wait and the event. So each read and each write of `_eventList` and
`_running` is a move here, and so is each notification. The moves of the callers of `addEvent`, of
the owner and of the thread follow one another in any order.

`_eventList` is an `std::queue` that no lock protects. A move takes each call on it, the `push` of
`addEvent` and the `empty`, `front` and `pop` of `run`, as a whole. What calls do to the queue that
overlap, the language does not say, and these moves leave it out.

A call of `addEvent` pushes its event and then notifies, and `notifying` counts the calls that
have done the first and not yet the second. A thread that waits on `_cond` goes on when it is
notified, or for no reason at all, and then tests the predicate again. An event only returns. It
may call `addEvent` as anybody may.

`added` and `called` are ghosts that no move reads: the events that have been added and those
whose call has begun, in order.
-/

set_option autoImplicit false

namespace Brutils.ThreadedObject

/-- Where the owner stands in the destructor. -/
inductive OwnerPc
  /-- the destructor has not been called -/
  | alive
  /-- behind the test of `_running` -/
  | clearing
  /-- `_running` has been cleared -/
  | notifying
  /-- before `_thread.join()` -/
  | joining
  /-- the thread has been joined -/
  | destroyed
  deriving DecidableEq

/-- Where the thread stands in `run`. -/
inductive ThreadPc
  /-- before the test of the loop -/
  | looping
  /-- in the predicate of `wait`, before `!_eventList.empty()` -/
  | testingEvents
  /-- in the predicate, before `!_running` -/
  | testingRunning
  /-- the predicate was false -/
  | decided
  /-- waiting -/
  | blocked
  /-- behind `wait` -/
  | woken
  /-- in the front event -/
  | calling
  /-- `run` has returned -/
  | finished
  deriving DecidableEq

/-- A `br_threaded_object`, those who use it and its thread. -/
structure State (E : Type) where
  running : Bool
  eventList : List E
  notifying : Nat
  owner : OwnerPc
  thread : ThreadPc
  added : List E
  called : List E

variable {E : Type}

/-- After the constructor. -/
def construct : State E where
  running := true
  eventList := []
  notifying := 0
  owner := .alive
  thread := .looping
  added := []
  called := []

/-- What a notification does to the thread. -/
def notify (pc : ThreadPc) : ThreadPc := if pc = .blocked then .testingEvents else pc

/-- A move of the owner in the destructor. -/
def ownerStep (s : State E) : State E :=
  match s.owner with
  | .alive => s
  | .clearing => { s with running := false, owner := .notifying }
  | .notifying => { s with thread := notify s.thread, owner := .joining }
  | .joining => if s.thread = .finished then { s with owner := .destroyed } else s
  | .destroyed => s

/-- A move of the thread. -/
def threadStep (spurious : Bool) (s : State E) : State E :=
  match s.thread with
  | .looping => { s with thread := if s.running then .testingEvents else .finished }
  | .testingEvents => { s with thread := if s.eventList.isEmpty then .testingRunning else .woken }
  | .testingRunning => { s with thread := if s.running then .decided else .woken }
  | .decided => { s with thread := .blocked }
  | .blocked => if spurious then { s with thread := .testingEvents } else s
  | .woken =>
    match s.eventList with
    | [] => { s with thread := .looping }
    | event :: _ => { s with thread := .calling, called := s.called ++ [event] }
  | .calling => { s with eventList := s.eventList.tail, thread := .looping }
  | .finished => s

/-- Who moves. -/
inductive Move (E : Type)
  /-- a call of `addEvent` pushes its event, and no other call on `_eventList` overlaps with this -/
  | push (event : E)
  /-- a call of `addEvent` that has pushed its event notifies -/
  | notify
  /-- the destructor is called -/
  | destroy
  | owner
  | thread (spurious : Bool)

/-- A move. The push of an event is one move, also when several callers are in `addEvent`. So the
runs are those in which the calls on `_eventList` do not overlap. -/
def step (s : State E) : Move E → State E
  | .push event =>
    { s with
      eventList := s.eventList ++ [event]
      notifying := s.notifying + 1
      added := s.added ++ [event] }
  | .notify =>
    if s.notifying = 0 then s
    else { s with notifying := s.notifying - 1, thread := notify s.thread }
  | .destroy =>
    if s.owner = .alive then
      { s with owner := if s.running then .clearing else .joining }
    else s
  | .owner => ownerStep s
  | .thread spurious => threadStep spurious s

end Brutils.ThreadedObject
