import Brutils.Lib.Transition
import Mathlib.Data.Finset.Card

/-!
# `Brutils.QueuePc`: the producer-consumer queue

`queue_pc` and the threads that use it. Each of its functions is one step, and so is the
return of `waitPop`: `waitPop` gives the mutex back when it returns, and `pop` does not take
it, so steps of other threads can come between the two. Inside of `pop` none can, though nothing in
the code prevents it: calls on the `std::queue` that overlap are left out.

A producer calls `push`. A consumer repeats `if (waitPop()) pop();`, and `popping` are the
consumers that are between the two calls. `pushed` and `popped` are ghosts that no step
reads: what has been pushed, and what has been popped by whom, in order.

`front` and `pop` of an empty `std::queue` have no meaning in the language. So a `pop` of an
empty queue can lead to any state (`Step.popEmpty`).
-/

set_option autoImplicit false

namespace Brutils

/-- The members of a `queue_pc`. -/
structure QueuePc (T : Type) where
  stopped : Bool
  queue : List T

namespace QueuePc

variable {T : Type}

/-- The constructor. -/
def create : QueuePc T := ⟨false, []⟩

/-- `push`. -/
def push (q : QueuePc T) (item : T) : QueuePc T := { q with queue := q.queue ++ [item] }

/-- `waitPop`, with `none` while it waits. -/
def waitPop (q : QueuePc T) : Option Bool :=
  if q.queue ≠ [] ∨ q.stopped then
    if q.stopped then some false else some true
  else none

/-- `pop`, with `none` when the queue is empty. -/
def pop (q : QueuePc T) : Option (T × QueuePc T) :=
  match q.queue with
  | [] => none
  | item :: queue => some (item, { q with queue := queue })

/-- `stop`. -/
def stop (q : QueuePc T) : QueuePc T := { q with stopped := true }

/-- A queue and its consumers of type `C`. -/
structure State (C T : Type) where
  shared : QueuePc T
  popping : Finset C
  pushed : List T
  popped : List (C × T)

/-- What a thread can do. -/
inductive Op (C T : Type)
  /-- a producer pushes -/
  | push (item : T)
  /-- `waitPop` returns true to a consumer -/
  | waitPop (c : C)
  /-- a consumer pops -/
  | pop (c : C)

section
variable {C : Type} [DecidableEq C]

/-- One step of a thread. -/
inductive Step (s : State C T) : Op C T → State C T → Prop
  | push (item : T) :
      Step s (.push item) { s with
        shared := s.shared.push item
        pushed := s.pushed ++ [item] }
  | waitPop (c : C) (hidle : c ∉ s.popping) (h : s.shared.waitPop = some true) :
      Step s (.waitPop c) { s with popping := insert c s.popping }
  | pop (c : C) (hc : c ∈ s.popping) (item : T) (shared : QueuePc T)
      (h : s.shared.pop = some (item, shared)) :
      Step s (.pop c) { s with
        shared := shared
        popping := s.popping.erase c
        popped := s.popped ++ [(c, item)] }
  | popEmpty (c : C) (hc : c ∈ s.popping) (h : s.shared.pop = none) (t : State C T) :
      Step s (.pop c) t

/-- Before the first step. -/
def Initial (s : State C T) : Prop :=
  s.shared = create ∧ s.popping = ∅ ∧ s.pushed = [] ∧ s.popped = []

/-- One step of any thread. -/
def Next (s t : State C T) : Prop := ∃ op, Step s op t

end

end QueuePc

end Brutils
