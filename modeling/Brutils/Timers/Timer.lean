import Brutils.Lib.Fairness

/-!
# `Brutils.Timers.Timer`: the simple timer

`timer` runs a thread that waits for a deadline and calls a function. The owner of the timer and
the thread share `_running`, `_deadline` and `_periodic`. `_mutex` is only taken by the thread.
So here each read and each write of these, and each read of the clock, is a move, and the moves
of the owner and of the thread follow one another in any order.

The clock is `system_clock`, and it can be set. So a move of the clock can show any time. Times
are in nanoseconds, and durations in milliseconds. A thread in `wait_until` goes on when it is
notified, when the deadline has passed, or for no reason at all. The last is part of a move of
the thread.

`calls` and `iterations` are ghosts that no move reads: what the clock has shown at each call of
the function, and how many passes of the loop have begun. The function itself is only called.
-/

set_option autoImplicit false

namespace Brutils.Timer

/-- A call of the owner. -/
inductive Call
  | start (millisec : Int) (periodic : Bool)
  | stop

/-- The calls that `restart` makes. -/
def restart (millisec : Int) : List Call := [.stop, .start millisec false]

/-- Where the owner stands. -/
inductive OwnerPc
  /-- between two calls -/
  | idle
  /-- in `start`, which has written `_periodic` -/
  | starting (millisec : Int)
  /-- in `start`, which has written `_deadline` -/
  | launching
  /-- in `stop`, which has cleared `_running` -/
  | stopping
  /-- in `stop`, which has notified the thread -/
  | joining
  /-- `std::terminate` has ended the program -/
  | terminated
  deriving DecidableEq

/-- Where the thread stands in `run`. -/
inductive ThreadPc
  /-- at the beginning of the loop -/
  | entering
  /-- in the predicate of `wait_until` -/
  | testingDeadline
  /-- in the predicate, before the deadline -/
  | testingRunning
  /-- waiting -/
  | blocked
  /-- behind `wait_until` -/
  | woken
  /-- in the branch where `_running` is set -/
  | firing
  /-- before the call -/
  | calling
  /-- before the test of the loop -/
  | looping
  /-- `run` has returned -/
  | finished
  deriving DecidableEq

/-- A timer, its owner and its thread if there is one to join. -/
structure State where
  running : Bool
  periodic : Bool
  deadline : Int
  now : Int
  script : List Call
  owner : OwnerPc
  thread : Option ThreadPc
  calls : List Int
  iterations : Nat

/-- A timer that has been made, with the calls that its owner will make. The source leaves
`_periodic` without a value, and `_deadline` at the beginning of the clock. -/
def construct (periodic : Bool) (now : Int) (script : List Call) : State where
  running := false
  periodic := periodic
  deadline := 0
  now := now
  script := script
  owner := .idle
  thread := none
  calls := []
  iterations := 0

/-- A move of the owner. -/
def ownerStep (s : State) : State :=
  match s.owner with
  | .idle =>
    match s.script with
    | [] => s
    | .start millisec periodic :: script =>
      { s with script := script, periodic := periodic, owner := .starting millisec }
    | .stop :: script => { s with script := script, running := false, owner := .stopping }
  | .starting millisec =>
    { s with deadline := s.now + millisec * 1000000, owner := .launching }
  | .launching =>
    match s.thread with
    | none => { s with thread := some .entering, owner := .idle }
    | some _ => { s with thread := none, owner := .terminated }
  | .stopping =>
    { s with
      thread := s.thread.map fun pc => if pc = .blocked then .testingDeadline else pc
      owner := .joining }
  | .joining =>
    match s.thread with
    | none => { s with owner := .idle }
    | some .finished => { s with thread := none, owner := .idle }
    | some _ => s
  | .terminated => s

/-- A move of the thread that stands at `pc`. -/
def threadStep (spurious : Bool) (s : State) (pc : ThreadPc) : State :=
  match pc with
  | .entering =>
    { s with thread := some .testingDeadline, iterations := s.iterations + 1 }
  | .testingDeadline =>
    { s with thread := some (if s.deadline < s.now then .woken else .testingRunning) }
  | .testingRunning => { s with thread := some (if !s.running then .woken else .blocked) }
  | .blocked =>
    if s.deadline ≤ s.now then { s with thread := some .woken }
    else if spurious then { s with thread := some .testingDeadline }
    else s
  | .woken => { s with thread := some (if s.running then .firing else .looping) }
  | .firing =>
    { s with running := if !s.periodic then false else s.running, thread := some .calling }
  | .calling => { s with calls := s.calls ++ [s.now], thread := some .looping }
  | .looping => { s with thread := some (if s.periodic then .entering else .finished) }
  | .finished => s

/-- Who moves. -/
inductive Move
  | owner
  | thread (spurious : Bool)
  | clock (now : Int)

/-- A move. -/
def step (s : State) : Move → State
  | .owner => ownerStep s
  | .thread spurious => (s.thread.map (threadStep spurious s)).getD s
  | .clock now => { s with now := now }

end Brutils.Timer
