import Mathlib.Data.List.AList

/-!
# `Brutils.Timers.TimeKeeper`: the `TimeKeeper` class

`TimeKeeper::run` runs in a thread of its own, and `AddRecord` and `CancelRecord` are called
from others. All of them hold `_mutex`, which `run` gives up only in its two waits, so a
step is a critical section: a whole call, or the part of one pass of `run` before the wait or
after it. `threadStep` is `none` where the wait goes on.

* `_recordBook` is an `std::unordered_map`, an `AList` whose entries are in iteration order.
  An insertion may leave them in any order, and nothing else changes the order.
* `getClosestRecord` works through a reference to the record of the first entry. The
  assignment `closestRecord = std::ref(record)` does not make the reference refer to
  another record: it copies that record over the first one.
* Every reading of the clock is an argument. Times are in nanoseconds.

`issued` and `emitted` are ghosts that no step reads: the records that `AddRecord` has
returned and those that `timeout` has been emitted with, last first.
-/

set_option autoImplicit false

namespace Brutils

namespace TimeKeeper

/-- `Interval`. -/
structure Interval where
  start : Int
  endTP : Int
  deriving DecidableEq, Repr

/-- `TimeRecord`. The duration is in milliseconds. -/
structure TimeRecord where
  id : UInt16
  duration : Int
  interval : Interval
  deriving DecidableEq, Repr

/-- `_recordBook`. -/
abbrev RecordBook := AList fun _ : UInt16 => TimeRecord

/-- How a call can end without a result. -/
inductive Failure
  | invalid_argument (what : String)
  | runtime_error (what : String)
  /-- the search for a free id does not end -/
  | endless
  deriving DecidableEq, Repr

/-- Where the thread is in `run`. -/
inductive Thread
  /-- before the test of the loop -/
  | loopHead
  /-- in the wait for a first record -/
  | waitingForAny
  /-- in the wait for the end of a record, of which it has a copy -/
  | waiting (record : TimeRecord)
  /-- returned from `run` -/
  | finished
  /-- `getClosestRecord` has thrown -/
  | terminated
  deriving DecidableEq

/-- The members of a `TimeKeeper`, its thread and the ghosts. -/
structure State where
  lastRecordId : UInt16
  recordBook : RecordBook
  notification : Bool
  running : Bool
  thread : Thread
  issued : List TimeRecord
  emitted : List TimeRecord

/-- The loop of `AddRecord` over the ids. It has seen every id after 65536 passes. -/
def findId (recordBook : RecordBook) : Nat → UInt16 → Option UInt16
  | 0, _ => none
  | fuel + 1, id => if id ∈ recordBook then findId recordBook fuel (id + 1) else some id

/-- `AddRecord(time_point)`. -/
def addRecord (s : State) (now endTP : Int) : Except Failure (TimeRecord × State) :=
  if endTP < now then .error (.invalid_argument "Given time point is in the past!")
  else if 65535 = s.recordBook.entries.length then
    .error (.runtime_error "TimeKeeper is full!")
  else
    match findId s.recordBook 65536 s.lastRecordId with
    | none => .error .endless
    | some id =>
      let record : TimeRecord := ⟨id, (endTP - now).tdiv 1000000, ⟨now, endTP⟩⟩
      .ok (record, { s with
        lastRecordId := s.lastRecordId + 1
        recordBook := s.recordBook.insert record.id record
        notification := true
        issued := record :: s.issued })

/-- `CancelRecord(id)`. -/
def cancelRecord (s : State) (id : UInt16) : Except Failure State :=
  if id ∈ s.recordBook then
    .ok { s with recordBook := s.recordBook.erase id, notification := true }
  else .error (.invalid_argument "Could not find id in record book!")

/-- One pass of the loop of `getClosestRecord`. -/
def assignCloser (closestRecord : TimeRecord) (it : Σ _ : UInt16, TimeRecord) : TimeRecord :=
  if it.2.interval.endTP < closestRecord.interval.endTP then it.2 else closestRecord

/-- `getClosestRecord`: the record that the returned reference refers to, which is that of the
first entry, and the book that the assignments leave. -/
def getClosestRecord (recordBook : RecordBook) : Except Failure (TimeRecord × RecordBook) :=
  match recordBook.entries with
  | [] => .error (.runtime_error "Record book is empty in getClosestRecord!")
  | first :: rest =>
    let closestRecord := (first :: rest).foldl assignCloser first.2
    .ok (closestRecord, recordBook.replace first.1 closestRecord)

/-- What `run` does after the wait for the end of a record. -/
def afterWait (now : Int) (record : TimeRecord) (s : State) : State :=
  if record.interval.endTP < now ∧ record.id ∈ s.recordBook then
    { s with
      recordBook := s.recordBook.erase record.id
      notification := false
      thread := .loopHead
      emitted := record :: s.emitted }
  else { s with notification := false, thread := .loopHead }

/-- One critical section of `run`. The clock reads `woken` when the wait ends, and then `now`. -/
def threadStep (woken now : Int) (s : State) : Option State :=
  match s.thread with
  | .loopHead =>
    if s.running then
      if s.recordBook.entries.isEmpty then some { s with thread := .waitingForAny }
      else
        match getClosestRecord s.recordBook with
        | .error _ => some { s with thread := .terminated }
        | .ok (record, recordBook) =>
          some { s with recordBook := recordBook, thread := .waiting record }
    else some { s with thread := .finished }
  | .waitingForAny =>
    if ¬s.running ∨ s.notification then
      some { s with notification := false, thread := .loopHead }
    else none
  | .waiting record =>
    if ¬s.running ∨ s.notification ∨ record.interval.endTP ≤ woken then
      some (afterWait now record s)
    else none
  | .finished => none
  | .terminated => none

/-- A call of `AddRecord` that returns a record. The entries may get any order. -/
inductive Add (s : State) : State → Prop
  | addRecord (now endTP : Int) (record : TimeRecord) (t : State) (recordBook : RecordBook)
      (h : addRecord s now endTP = .ok (record, t))
      (horder : recordBook.entries.Perm t.recordBook.entries) :
      Add s { t with recordBook := recordBook }

/-- One step of the whole. -/
inductive Next (s : State) : State → Prop
  | add (t : State) (h : Add s t) : Next s t
  | cancel (id : UInt16) (t : State) (h : cancelRecord s id = .ok t) : Next s t
  | thread (woken now : Int) (t : State) (h : threadStep woken now s = some t) : Next s t
  | stop : Next s { s with running := false }

/-- A new `TimeKeeper`. -/
def Initial (s : State) : Prop :=
  s = ⟨0, ∅, false, true, .loopHead, [], []⟩

/-- The body of `run`, when no other thread comes in. -/
def runBody (woken now : Int) (s : State) : Option State :=
  threadStep woken now s >>= threadStep woken now

/-- A number of passes of `run`. `clock` says what the clock reads in each of them. -/
def passes (clock : Nat → Int × Int) : Nat → State → Option State
  | 0, s => some s
  | n + 1, s => passes clock n s >>= runBody (clock n).1 (clock n).2

end TimeKeeper

end Brutils
