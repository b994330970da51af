import Brutils.Lib.Places
import Brutils.QueuePc

/-!
# `Brutils.QueueWaiting`: the producer-consumer queue with its mutex and its condition variable

`Brutils.QueuePc` takes each function of `queue_pc` for one step. Here `waitPop` and `push` are
written out, with `_mutexQ` and with the consumers that wait on `_cond`. `pop` and `stop` do not
take the mutex. `stop` is two steps: it sets `_stopped`, and then it notifies. `stopping` counts the
calls of `stop` that have done the first and not yet the second.

`pop` calls `front` and `pop` of the `std::queue`. Here the two are one step, and so is the push
that `push` makes under the mutex. What happens to an `std::queue` when such calls overlap, the
language does not say, and the steps leave it out: the runs are those in which they do not.

A thread in the wait gives up the mutex and sleeps at once. When it is notified, or for no reason
at all, it takes the mutex again and tests the predicate again.

A `pop` of an empty queue has no meaning in the language, and a run has no steps behind it. `pushed`
and `popped` are ghosts that no step reads.
-/

set_option autoImplicit false

namespace Brutils

namespace QueueWaiting

/-- Where a consumer stands in `waitPop` while it holds the mutex. -/
inductive Stage
  /-- in the predicate, before `!_queue.empty()` -/
  | testingQueue
  /-- in the predicate, before `_stopped` -/
  | testingStopped
  /-- the predicate was false -/
  | decided
  /-- behind the wait -/
  | returning
  deriving DecidableEq

/-- Where a consumer stands. -/
inductive Place
  /-- before `waitPop` -/
  | idle
  | inside (stage : Stage)
  /-- waiting on `_cond` -/
  | asleep
  /-- notified, before it has the mutex again -/
  | woken
  /-- `waitPop` has returned true, before `pop` -/
  | popping
  deriving DecidableEq

/-- Who holds the mutex. -/
inductive Holder (C : Type)
  | nobody
  /-- a call of `push`, which has pushed its item -/
  | producer
  | consumer (c : C)

/-- A queue and its consumers of type `C`. -/
structure State (C T : Type) where
  shared : QueuePc T
  holder : Holder C
  place : C → Place
  stopping : Nat
  pushed : List T
  popped : List (C × T)

/-- What a thread can do. -/
inductive Op (C T : Type)
  /-- `push` takes the mutex and pushes -/
  | push (item : T)
  /-- `push` notifies and returns -/
  | pushNotify
  /-- `waitPop` takes the mutex -/
  | enter (c : C)
  | testQueue (c : C)
  | testStopped (c : C)
  | sleep (c : C)
  /-- a consumer wakes for no reason -/
  | spurious (c : C)
  /-- a consumer that has been woken takes the mutex -/
  | resume (c : C)
  /-- `waitPop` returns -/
  | leave (c : C)
  /-- `front` and `pop` of the `std::queue`, as a whole -/
  | pop (c : C)
  /-- `stop` sets `_stopped` -/
  | stop
  /-- `stop` notifies and returns -/
  | stopNotify

section
variable {C T : Type} [DecidableEq C]

open Places (move NotifyOne)

/-- One step of a thread. `pop` takes no mutex, and is one step nevertheless: no other call on the
`std::queue` comes between its `front` and its `pop`. -/
inductive Step (s : State C T) : Op C T → State C T → Prop
  | push (item : T) (hfree : s.holder = .nobody) :
      Step s (.push item) { s with
        shared := s.shared.push item
        holder := .producer
        pushed := s.pushed ++ [item] }
  | pushNotify (hholder : s.holder = .producer) (place : C → Place)
      (hnotify : NotifyOne .asleep .woken s.place place) :
      Step s .pushNotify { s with holder := .nobody, place := place }
  | enter (c : C) (hplace : s.place c = .idle) (hfree : s.holder = .nobody) :
      Step s (.enter c) { s with
        holder := .consumer c
        place := move s.place c (.inside .testingQueue) }
  | testQueue (c : C) (hplace : s.place c = .inside .testingQueue) :
      Step s (.testQueue c) { s with
        place := move s.place c (.inside
          (if s.shared.queue.isEmpty then .testingStopped else .returning)) }
  | testStopped (c : C) (hplace : s.place c = .inside .testingStopped) :
      Step s (.testStopped c) { s with
        place := move s.place c (.inside (if s.shared.stopped then .returning else .decided)) }
  | sleep (c : C) (hplace : s.place c = .inside .decided) :
      Step s (.sleep c) { s with holder := .nobody, place := move s.place c .asleep }
  | spurious (c : C) (hplace : s.place c = .asleep) :
      Step s (.spurious c) { s with place := move s.place c .woken }
  | resume (c : C) (hplace : s.place c = .woken) (hfree : s.holder = .nobody) :
      Step s (.resume c) { s with
        holder := .consumer c
        place := move s.place c (.inside .testingQueue) }
  | leave (c : C) (hplace : s.place c = .inside .returning) :
      Step s (.leave c) { s with
        holder := .nobody
        place := move s.place c (if s.shared.stopped then .idle else .popping) }
  | pop (c : C) (hplace : s.place c = .popping) (item : T) (shared : QueuePc T)
      (h : s.shared.pop = some (item, shared)) :
      Step s (.pop c) { s with
        shared := shared
        place := move s.place c .idle
        popped := s.popped ++ [(c, item)] }
  | stop : Step s .stop { s with shared := s.shared.stop, stopping := s.stopping + 1 }
  | stopNotify (hstopping : 0 < s.stopping) (place : C → Place)
      (hnotify : NotifyOne .asleep .woken s.place place) :
      Step s .stopNotify { s with place := place, stopping := s.stopping - 1 }

/-- Before the first step. -/
def Initial (s : State C T) : Prop :=
  s.shared = QueuePc.create ∧ s.holder = .nobody ∧ (∀ c, s.place c = .idle) ∧ s.stopping = 0 ∧
    s.pushed = [] ∧ s.popped = []

/-- One step of any thread. -/
def Next (s t : State C T) : Prop := ∃ op, Step s op t

end

end QueueWaiting

end Brutils
