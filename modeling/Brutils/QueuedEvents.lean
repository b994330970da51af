import Brutils.Emitting

/-!
# `Brutils.QueuedEvents`: signals and slots, with the events that wait for them

An event on the list of a threaded object is a closure with a pointer in it: to the signal whose
`emit` put it there, or to the slot whose function it calls. Here is the system in which these
pointers are kept: the world of the signals and slots, and the list of each thread. A move is an
operation on the world, an `emit`, or a pass of the loop of `br_threaded_object::run` that finds an
event. The moves of all threads follow one another in any order.

An event reads the connections that its signal has when it is run. The event of a slot calls
`_function` and does not go through `slot::call`, so a slot without a function ends in an exception
here too. An exception ends a run, and so does a pointer to an object that does not live. The
function of a slot only returns. What it does to signals and slots can be told by the moves that
come after it. The threaded objects stay.

`called` and `performed` are ghosts that no move reads: the slots whose functions have been called,
and the signals whose connections have been served, each as it was then.
-/

set_option autoImplicit false

namespace Brutils

namespace QueuedEvents

open Emitting (Closure Delivery Interruption Outcome Owners)

/-- What ends a run. -/
inductive Stop
  | exception
  | dangling
  deriving DecidableEq, Repr

/-- The reason to stop that an interruption is. -/
def stopOf : Interruption → Stop
  | .thrown _ => .exception
  | .dangling => .dangling

/-- The objects, the lists of the threads, and the ghosts. -/
structure State (G S T : Type) where
  world : World G S
  events : T → List (Closure G S)
  called : List S
  performed : List (G × Signal S)
  stop : Option Stop

variable {G S T : Type}

/-- Nothing has happened yet. -/
def start (w : World G S) : State G S T where
  world := w
  events := fun _ => []
  called := []
  performed := []
  stop := none

/-- The thread of the root object, if that is a threaded one. -/
def threadOf {E : Type} (object : BrObject T E) : Option T :=
  match object.getRootObject with
  | .threaded thread _ => some thread
  | _ => none

variable (owners : Owners G S T)

/-- The parent whose root object takes an event. -/
def parentOf : Closure G S → BrObject T (Closure G S)
  | .emit g => owners.signalParent g
  | .call slot => owners.slotParent slot

variable [DecidableEq T]

/-- `_eventList.push`, on the list that the event goes to. The list is an `std::queue` that no lock
protects, and here the push takes effect as a whole, from whichever thread it comes. So a run is
one in which the calls on a list do not overlap. -/
def push (s : State G S T) (event : Closure G S) : State G S T :=
  match threadOf (parentOf owners event) with
  | some thread =>
    { s with events := Function.update s.events thread (s.events thread ++ [event]) }
  | none => s

/-- A delivery of an emit. -/
def deliver (s : State G S T) : Delivery S → State G S T
  | .call slot => { s with called := s.called ++ [slot] }
  | .event slot => push owners s (.call slot)

/-- The deliveries of an emit, and what has ended it early. -/
def finish (s : State G S T) (outcome : Outcome S) : State G S T :=
  { outcome.deliveries.foldl (deliver owners) s with stop := outcome.interruption.map stopOf }

/-- The signal is noted as served. -/
def note (s : State G S T) (g : G) (signal : Signal S) : State G S T :=
  { s with performed := s.performed ++ [(g, signal)] }

/-- Both loops over the connections of a signal. -/
def callConnections (s : State G S T) (g : G) (signal : Signal S) : State G S T :=
  finish owners (note s g signal) (Emitting.callConnections owners s.world signal)

/-- `signal::emit`, on a thread. -/
def emit (s : State G S T) (thread : T) (g : G) : State G S T :=
  match s.world.signals g with
  | none => { s with stop := some .dangling }
  | some signal =>
    if !signal.hasParent then
      finish owners (note s g signal)
        (Emitting.callDirectConnections owners s.world signal.directConnections)
    else if thread = (owners.signalParent g).getThreadId thread then
      callConnections owners s g signal
    else
      match (owners.signalParent g).getRootObject.addEvent (.emit g) with
      | .error _ => { s with stop := some .exception }
      | .ok _ => push owners s (.emit g)

/-- The call of an event. -/
def call (s : State G S T) : Closure G S → State G S T
  | .emit g =>
    match s.world.signals g with
    | none => { s with stop := some .dangling }
    | some signal => callConnections owners s g signal
  | .call slot =>
    match s.world.slots slot with
    | none => { s with stop := some .dangling }
    | some _ =>
      if owners.init slot then { s with called := s.called ++ [slot] }
      else { s with stop := some .exception }

/-- `_eventList.pop`, as a whole, too. -/
def pop (s : State G S T) (thread : T) : State G S T :=
  { s with events := Function.update s.events thread (s.events thread).tail }

/-- A pass of the loop of `run`. The thread waits if there is no event. -/
def run (s : State G S T) (thread : T) : State G S T :=
  match s.events thread with
  | [] => s
  | event :: _ =>
    let s := call owners s event
    if s.stop = none then pop s thread else s

/-- Who does something. -/
inductive Move (G S T : Type)
  | op (op : Signal.Op G S)
  | emit (thread : T) (g : G)
  | run (thread : T)

variable [DecidableEq G] [DecidableEq S]

/-- A move. Nothing follows the end of a run. -/
def step (s : State G S T) (move : Move G S T) : State G S T :=
  if s.stop ≠ none then s
  else
    match move with
    | .op op =>
      match op.run s.world with
      | none => { s with stop := some .dangling }
      | some w => { s with world := w }
    | .emit thread g => emit owners s thread g
    | .run thread => run owners s thread

end QueuedEvents

end Brutils
