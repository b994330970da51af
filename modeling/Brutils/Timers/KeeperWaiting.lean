import Brutils.Timers.TimeKeeper

/-!
# `Brutils.Timers.KeeperWaiting`: how the thread of a `TimeKeeper` waits, and how it ends

In `Brutils.Timers.TimeKeeper` a pass of `run` is two steps, the part before the wait and the part
behind it. Here the wait itself is modelled, with the mutex and the condition variable, and so is
the destructor. `run` tests `_running` before it locks `_mutex`, and `stop` clears `_running` and
notifies without the mutex. So these are steps of their own.

A `State` has the members of the `TimeKeeper` as they are there, and a `Stage`, which says how far
the thread is. `keeper.thread` is the wait that it is in. The thread holds `_mutex` at the stages of
`Stage.holds`. Then no caller of `AddRecord` or `CancelRecord` can come in. At the other stages
such a call is one step, at the end of which it notifies. The calls are over when the destructor is
called.

`wait_until` comes back when its predicate holds, and also when the deadline has been reached, then
after one more test of the predicate whose result `run` does not use. A waiting thread may wake for
no reason. The clock only goes forward.
-/

set_option autoImplicit false

namespace Brutils.KeeperWaiting

open Brutils.TimeKeeper (TimeRecord RecordBook getClosestRecord addRecord cancelRecord afterWait)

/-- How far the thread is. -/
inductive Stage
  /-- before the test of the loop -/
  | looping
  /-- behind the test of the loop, before the book is looked at -/
  | entering
  /-- before the predicate of the wait -/
  | testing
  /-- the predicate was false -/
  | decided
  /-- waiting -/
  | asleep
  /-- before `_mutex` is locked again -/
  | woken (timedOut : Bool)
  /-- behind the wait -/
  | returned
  /-- `run` has returned -/
  | ended
  deriving DecidableEq

/-- The stages at which the thread holds `_mutex`. -/
def Stage.holds : Stage → Bool
  | .testing => true
  | .decided => true
  | .returned => true
  | _ => false

/-- What a notification does. -/
def Stage.notify : Stage → Stage
  | .asleep => .woken false
  | stage => stage

/-- Where the owner stands in the destructor. -/
inductive OwnerPc
  /-- the destructor has not been called -/
  | alive
  /-- before `_running` is cleared -/
  | clearing
  /-- before `_conditionVariable.notify_one()` -/
  | notifying
  /-- before `_thread.join()` -/
  | joining
  /-- the thread has been joined -/
  | destroyed
  deriving DecidableEq

/-- A `TimeKeeper`, its thread, its owner and the clock. -/
structure State where
  keeper : TimeKeeper.State
  stage : Stage
  owner : OwnerPc
  now : Int

/-- The choice of a wait in `run`. -/
def beginWait (keeper : TimeKeeper.State) : TimeKeeper.State :=
  if keeper.recordBook.entries.isEmpty then { keeper with thread := .waitingForAny }
  else
    match getClosestRecord keeper.recordBook with
    | .error _ => { keeper with thread := .terminated }
    | .ok (record, recordBook) =>
      { keeper with recordBook := recordBook, thread := .waiting record }

/-- The predicates of the two waits. -/
def predicate (now : Int) (keeper : TimeKeeper.State) : Bool :=
  !keeper.running || keeper.notification ||
    match keeper.thread with
    | .waiting record => record.interval.endTP < now
    | _ => false

/-- What `run` does behind a wait. -/
def endWait (now : Int) (keeper : TimeKeeper.State) : TimeKeeper.State :=
  match keeper.thread with
  | .waiting record => afterWait now record keeper
  | _ => { keeper with notification := false, thread := .loopHead }

/-- The deadline of the wait has been reached. -/
def deadlineReached (now : Int) (keeper : TimeKeeper.State) : Bool :=
  match keeper.thread with
  | .waiting record => record.interval.endTP ≤ now
  | _ => false

/-- One step of the thread. -/
def threadStep (s : State) : Option State :=
  match s.stage with
  | .looping =>
    some (if s.keeper.running then { s with stage := .entering }
      else { s with keeper := { s.keeper with thread := .finished }, stage := .ended })
  | .entering => some { s with keeper := beginWait s.keeper, stage := .testing }
  | .testing => some { s with stage := if predicate s.now s.keeper then .returned else .decided }
  | .decided => some { s with stage := .asleep }
  | .asleep => if deadlineReached s.now s.keeper then some { s with stage := .woken true } else none
  | .woken timedOut => some { s with stage := if timedOut then .returned else .testing }
  | .returned => some { s with keeper := endWait s.now s.keeper, stage := .looping }
  | .ended => none

/-- One step of the owner in the destructor, but for the notification. -/
def ownerStep (s : State) : Option State :=
  match s.owner with
  | .clearing =>
    some { s with keeper := { s.keeper with running := false }, owner := .notifying }
  | .joining => if s.stage = .ended then some { s with owner := .destroyed } else none
  | _ => none

/-- Who makes a step. -/
inductive Op
  | add (endTP : Int)
  | cancel (id : UInt16)
  | thread
  | spurious
  | destroy
  | owner
  /-- `stop` notifies -/
  | notify
  | tick

/-- One step of the whole. -/
inductive Step (s : State) : Op → State → Prop
  | add (endTP : Int) (record : TimeRecord) (t : TimeKeeper.State) (recordBook : RecordBook)
      (howner : s.owner = .alive) (hfree : s.stage.holds = false)
      (h : addRecord s.keeper s.now endTP = .ok (record, t))
      (horder : recordBook.entries.Perm t.recordBook.entries) :
      Step s (.add endTP)
        { s with keeper := { t with recordBook := recordBook }, stage := s.stage.notify }
  | cancel (id : UInt16) (t : TimeKeeper.State) (howner : s.owner = .alive)
      (hfree : s.stage.holds = false) (h : cancelRecord s.keeper id = .ok t) :
      Step s (.cancel id) { s with keeper := t, stage := s.stage.notify }
  | thread (t : State) (h : threadStep s = some t) : Step s .thread t
  | spurious (h : s.stage = .asleep) : Step s .spurious { s with stage := .woken false }
  | destroy (h : s.owner = .alive) : Step s .destroy { s with owner := .clearing }
  | owner (t : State) (h : ownerStep s = some t) : Step s .owner t
  | notify (h : s.owner = .notifying) :
      Step s .notify { s with stage := s.stage.notify, owner := .joining }
  | tick (elapsed : Nat) : Step s .tick { s with now := s.now + elapsed }

/-- Somebody makes a step. -/
def Next (s t : State) : Prop := ∃ op, Step s op t

/-- A new `TimeKeeper`. -/
def Initial (s : State) : Prop :=
  TimeKeeper.Initial s.keeper ∧ s.stage = .looping ∧ s.owner = .alive

end Brutils.KeeperWaiting
