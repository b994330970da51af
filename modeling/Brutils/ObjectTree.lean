/-!
# `Brutils.ObjectTree`: `br_object` and `br_threaded_object`

An object hands on to its parent what it is asked for, and so up to the last object of the
chain. That one has no parent, or it is a `br_threaded_object`, which overrides the functions
with its own. So an object is here with the chain of its parents. The base of a threaded object
has the object itself as its parent, and no function that is not overridden looks at it.

A threaded object has a thread and a list of events. What waits for an event is not told here,
and neither is the mutex, which `addEvent` does not lock.
-/

set_option autoImplicit false

namespace Brutils

/-- `std::runtime_error`, with what it says. -/
structure RuntimeError where
  what : String
  deriving DecidableEq, Repr

/-- An object and its parents. -/
inductive BrObject (T E : Type)
  | root
  | threaded (thread : T) (eventList : List E)
  | child (parent : BrObject T E)
  deriving DecidableEq, Repr

namespace BrObject

variable {T E : Type}

/-- `getThreadId`, on the thread `caller`. -/
def getThreadId (caller : T) : BrObject T E → T
  | .root => caller
  | .threaded thread _ => thread
  | .child parent => parent.getThreadId caller

/-- `getRootObject`. -/
def getRootObject : BrObject T E → BrObject T E
  | .root => .root
  | .threaded thread eventList => .threaded thread eventList
  | .child parent => parent.getRootObject

/-- `addEvent(event)`. The result is the object as the call leaves it. -/
def addEvent (event : E) : BrObject T E → Except RuntimeError (BrObject T E)
  | .root => .error ⟨"Object has not parent"⟩
  | .threaded thread eventList => .ok (.threaded thread (eventList ++ [event]))
  | .child parent => (parent.addEvent event).map .child

/-- `addEvent(event, ec)`, with `ec` as the call leaves it. -/
def addEventEc (event : E) (ec : Bool) : BrObject T E → BrObject T E × Bool
  | .root => (.root, true)
  | .threaded thread eventList => (.threaded thread (eventList ++ [event]), true)
  | .child parent => (.child (parent.addEventEc event ec).1, (parent.addEventEc event ec).2)

end BrObject

end Brutils
