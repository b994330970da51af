import Brutils.Lib.Mutex
import Brutils.Timers.TimeKeeper

/-!
# `Brutils.Timers.Locking`: the methods of `TimeKeeper` with their mutex

`Brutils.Timers.TimeKeeper` takes a whole critical section for a step. Here the public methods
are written out, statement by statement, with the `std::unique_lock` on `_mutex` that each of
them begins with. `_mutex` is a `std::mutex`, which is not recursive. A method that throws
leaves what it has changed until then.

`AddRecord(milliseconds)` and `AddRecord(time_point)` both read the clock. Durations are in
milliseconds, and times are in nanoseconds.
-/

set_option autoImplicit false

namespace Brutils

namespace TimeKeeper

open Mutex (Guarded Op access locked)

/-- Code on the members of a `TimeKeeper`. -/
abbrev Code (α : Type) := ExceptT Failure (StateM State) α

/-- What `AddRecord(time_point)` does with the id that its loop has come to. -/
def storeRecord (now endTP : Int) : Option UInt16 → Code TimeRecord
  | none => throw .endless
  | some id => do
    let record : TimeRecord := ⟨id, (endTP - now).tdiv 1000000, ⟨now, endTP⟩⟩
    modify fun s => { s with recordBook := s.recordBook.insert record.id record }
    modify fun s => { s with notification := true }
    modify fun s => { s with issued := record :: s.issued }
    return record

/-- `AddRecord(time_point)`, behind its lock. -/
def addRecordBody (now endTP : Int) : Code TimeRecord := do
  if endTP < now then
    throw (.invalid_argument "Given time point is in the past!")
  if 65535 = (← get).recordBook.entries.length then
    throw (.runtime_error "TimeKeeper is full!")
  let id := (← get).lastRecordId
  modify fun s => { s with lastRecordId := s.lastRecordId + 1 }
  storeRecord now endTP (findId (← get).recordBook 65536 id)

/-- `AddRecord(time_point)`. -/
def addRecordAt (now endTP : Int) : Op State Failure TimeRecord :=
  locked (access (addRecordBody now endTP))

/-- The tests of `AddRecord(milliseconds)`. -/
def testDuration (duration : Int) : Code Unit := do
  if duration = 0 then
    throw (.invalid_argument "Zero is not a valid argument!")
  if 65535 = (← get).recordBook.entries.length then
    throw (.runtime_error "TimeKeeper is full!")

/-- `AddRecord(milliseconds)`. The clock reads `now` here, and `later` in the method it calls. -/
def addRecordFor (duration now later : Int) : Op State Failure TimeRecord :=
  locked do
    access (testDuration duration)
    addRecordAt later (now + duration * 1000000)

/-- `CancelRecord(uint16_t)`, behind its lock. -/
def cancelRecordBody (id : UInt16) : Code Unit := do
  if id ∈ (← get).recordBook then
    modify fun s => { s with recordBook := s.recordBook.erase id }
    modify fun s => { s with notification := true }
  else
    throw (.invalid_argument "Could not find id in record book!")

/-- `CancelRecord(uint16_t)`. -/
def cancelRecordId (id : UInt16) : Op State Failure Unit := locked (access (cancelRecordBody id))

/-- `CancelRecord(TimeRecord)`. -/
def cancelRecordOf (record : TimeRecord) : Op State Failure Unit := cancelRecordId record.id

/-- `Size`. -/
def size : Op State Failure Nat :=
  locked (access (do return (← get).recordBook.entries.length))

/-- `Empty`. -/
def empty : Op State Failure Bool :=
  locked (access (do return (← get).recordBook.entries.isEmpty))

/-- A call of a public method, with what the clock reads in it. -/
inductive Call
  | addRecordFor (duration now later : Int)
  | addRecordAt (now endTP : Int)
  | cancelRecordId (id : UInt16)
  | cancelRecordOf (record : TimeRecord)
  | size
  | empty

/-- The call makes its thread wait for the mutex that it holds. -/
def Call.Relocks (g : Guarded State) : Call → Prop
  | .addRecordFor duration now later =>
    (TimeKeeper.addRecordFor duration now later g).1 = .error .relock
  | .addRecordAt now endTP => (TimeKeeper.addRecordAt now endTP g).1 = .error .relock
  | .cancelRecordId id => (TimeKeeper.cancelRecordId id g).1 = .error .relock
  | .cancelRecordOf record => (TimeKeeper.cancelRecordOf record g).1 = .error .relock
  | .size => (TimeKeeper.size g).1 = .error .relock
  | .empty => (TimeKeeper.empty g).1 = .error .relock

end TimeKeeper

end Brutils
