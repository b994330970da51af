import Mathlib.Data.List.AList

/-!
# `Brutils.Timers.CombinedTimer`: the `combined_timer` class

Two threads work on a `combined_timer`: the timer thread, which runs `run`, and the owner,
whose calls of `addTimer` and `stopTimer` come one after the other and not from a handler of
`timeout`. A `State` holds the members, the clock, and for each of the two threads where it
is. `threadStep` and `ownerStep` make one step of one of them, and `none` says that it has
to wait. `Next` is one step of the whole: a call begins, a thread goes on, the clock
advances, or the map changes its order.

* `_timeKeeperMap` is an `std::unordered_map`, an `AList` whose entries are in iteration
  order. The order may be any, and may change at any time.
* `_dataMutex` is held at certain places of the two threads (`holdsData`), and a thread that
  wants it waits until the other is at none of them.
* `wait_until` returns when its predicate holds or the deadline has been reached. The first
  may be noticed late or not at all: nothing forces a step.
* Times are in nanoseconds, and no sum of a time and a duration overflows.

`history` is a ghost that no step reads: the insertions, the calls of `stopTimer` that
returned true, and the emissions of `timeout`, last first.
-/

set_option autoImplicit false

namespace Brutils

namespace CombinedTimer

/-- `TimerData_s`. -/
structure TimerData where
  periodic : Bool
  id : Int16
  duration : Nat
  expirationDate : Int

/-- `_timeKeeperMap`. -/
abbrev TimerMap := AList fun _ : Int16 => TimerData

/-- What the history records. -/
inductive Event
  /-- `addTimer` has stored a timer under this id -/
  | inserted (id : Int16)
  /-- `stopTimer` has returned true for this id -/
  | stopped (id : Int16)
  /-- `timeout` has been emitted with this id, for a timer that is periodic or not -/
  | timeout (id : Int16) (periodic : Bool)
  deriving DecidableEq, Repr

/-- Where the timer thread is in `run`. The variables that are live there are its arguments:
`closestTimerId` and `closestTimer`. -/
inductive Thread
  /-- there is no thread to join -/
  | absent
  /-- before the test of the loop -/
  | loopHead
  /-- before `getClosestTimerId` -/
  | choosing
  /-- in `wait_until` -/
  | waiting (closestTimerId : Int16) (closestTimer : TimerData)
  /-- before `_dataMutex` is locked -/
  | woken (closestTimerId : Int16) (closestTimer : TimerData)
  /-- before the second test of `_stopped` -/
  | locked (closestTimerId : Int16) (closestTimer : TimerData)
  /-- before `timeout.emit` -/
  | emitting (closestTimerId : Int16) (closestTimer : TimerData)
  /-- after `timeout.emit`, before the map is updated -/
  | emitted (closestTimerId : Int16) (closestTimer : TimerData)
  /-- returned from `run` -/
  | finished
  /-- `_timeKeeperMap.at` has thrown -/
  | terminated

/-- A call of the owner. -/
inductive Call
  | addTimer (duration_ms : Nat) (periodic : Bool)
  | stopTimer (timerId : Int16)

/-- Where the owner is. -/
inductive Owner
  | idle
  /-- at the beginning of `stop()` -/
  | stopping (call : Call)
  /-- in `_timerThread.join()` -/
  | joining (call : Call)
  /-- after `stop()`, before the map is changed -/
  | changing (call : Call)
  /-- before `start()` -/
  | starting (call : Call)
  /-- after `start()` -/
  | returning (call : Call)

/-- The members of a `combined_timer`, the clock, the two threads and the history. -/
structure State where
  lastTimerId : Int16
  timeKeeperMap : TimerMap
  stopped : Bool
  now : Int
  thread : Thread
  owner : Owner
  history : List Event

/-- A duration in milliseconds, as nanoseconds. -/
def milliseconds (duration_ms : Nat) : Int := duration_ms * 1000000

/-- One pass of the loop of `getClosestTimerId`. -/
def closer (closest : Int16 × Int) (it : Σ _ : Int16, TimerData) : Int16 × Int :=
  if it.2.expirationDate < closest.2 then (it.1, it.2.expirationDate) else closest

/-- `getClosestTimerId`. -/
def getClosestTimerId (timeKeeperMap : TimerMap) : Int16 :=
  match timeKeeperMap.entries with
  | [] => -1
  | it :: rest => (rest.foldl closer (it.2.id, it.2.expirationDate)).1

/-- The timer thread holds `_dataMutex`. -/
def Thread.holdsData : Thread → Bool
  | .locked _ _ => true
  | .emitting _ _ => true
  | .emitted _ _ => true
  | _ => false

/-- The owner holds `_dataMutex`: in `stopTimer`, except while it calls `stop()`. -/
def Owner.holdsData : Owner → Bool
  | .changing (.stopTimer _) => true
  | .starting (.stopTimer _) => true
  | .returning (.stopTimer _) => true
  | _ => false

/-- What the timer thread does to the map after an emission. `operator[]` puts a default entry
where there is none. -/
def update (timeKeeperMap : TimerMap) (now : Int) (closestTimerId : Int16)
    (closestTimer : TimerData) : TimerMap :=
  if closestTimer.periodic then
    let entry := (timeKeeperMap.lookup closestTimerId).getD ⟨false, -1, 0, 0⟩
    timeKeeperMap.insert closestTimerId
      { entry with expirationDate := now + milliseconds closestTimer.duration }
  else timeKeeperMap.erase closestTimer.id

/-- One step of `run`. -/
def threadStep (s : State) : Option State :=
  match s.thread with
  | .absent => none
  | .loopHead => some { s with thread := if s.stopped then .finished else .choosing }
  | .choosing =>
    let closestTimerId := getClosestTimerId s.timeKeeperMap
    if closestTimerId = -1 then some { s with stopped := true, thread := .finished }
    else
      match s.timeKeeperMap.lookup closestTimerId with
      | none => some { s with thread := .terminated }
      | some closestTimer => some { s with thread := .waiting closestTimerId closestTimer }
  | .waiting closestTimerId closestTimer =>
    if closestTimer.expirationDate < s.now ∨ s.stopped ∨ closestTimer.expirationDate ≤ s.now then
      some { s with thread := .woken closestTimerId closestTimer }
    else none
  | .woken closestTimerId closestTimer =>
    if s.owner.holdsData then none
    else some { s with thread := .locked closestTimerId closestTimer }
  | .locked closestTimerId closestTimer =>
    some { s with thread :=
      if s.stopped then .loopHead else .emitting closestTimerId closestTimer }
  | .emitting closestTimerId closestTimer =>
    some { s with
      thread := .emitted closestTimerId closestTimer
      history := .timeout closestTimer.id closestTimer.periodic :: s.history }
  | .emitted closestTimerId closestTimer =>
    some { s with
      timeKeeperMap := update s.timeKeeperMap s.now closestTimerId closestTimer
      thread := .loopHead }
  | .finished => none
  | .terminated => none

/-- The owner begins a call. `stopTimer` returns false at once when there is no such timer. -/
def begin (s : State) (call : Call) : Option State :=
  match s.owner with
  | .idle =>
    match call with
    | .addTimer _ _ => some { s with owner := .stopping call }
    | .stopTimer timerId =>
      if s.thread.holdsData then none
      else if timerId ∈ s.timeKeeperMap then some { s with owner := .stopping call }
      else some s
  | _ => none

/-- One step of the owner in a call. -/
def ownerStep (s : State) : Option State :=
  match s.owner with
  | .idle => none
  | .stopping call => some { s with stopped := true, owner := .joining call }
  | .joining call =>
    match s.thread with
    | .absent => some { s with owner := .changing call }
    | .finished => some { s with thread := .absent, owner := .changing call }
    | _ => none
  | .changing (.addTimer duration_ms periodic) =>
    let timerStruct : TimerData :=
      ⟨periodic, s.lastTimerId, duration_ms, s.now + milliseconds duration_ms⟩
    some { s with
      lastTimerId := s.lastTimerId + 1
      timeKeeperMap := s.timeKeeperMap.insert timerStruct.id timerStruct
      owner := .starting (.addTimer duration_ms periodic)
      history := .inserted timerStruct.id :: s.history }
  | .changing (.stopTimer timerId) =>
    some { s with
      timeKeeperMap := s.timeKeeperMap.erase timerId
      owner := .starting (.stopTimer timerId) }
  | .starting call =>
    some { s with stopped := false, thread := .loopHead, owner := .returning call }
  | .returning (.addTimer _ _) => some { s with owner := .idle }
  | .returning (.stopTimer timerId) =>
    some { s with owner := .idle, history := .stopped timerId :: s.history }

/-- One step of the whole. -/
inductive Next (s : State) : State → Prop
  | begin (call : Call) (t : State) (h : begin s call = some t) : Next s t
  | owner (t : State) (h : ownerStep s = some t) : Next s t
  | thread (t : State) (h : threadStep s = some t) : Next s t
  | tick (elapsed : Nat) : Next s { s with now := s.now + elapsed }
  | reorder (timeKeeperMap : TimerMap)
      (h : timeKeeperMap.entries.Perm s.timeKeeperMap.entries) :
      Next s { s with timeKeeperMap := timeKeeperMap }

/-- A new `combined_timer`. -/
def Initial (s : State) : Prop :=
  s.lastTimerId = 0 ∧ s.timeKeeperMap = ∅ ∧ s.stopped = true ∧ s.thread = .absent ∧
    s.owner = .idle ∧ s.history = []

end CombinedTimer

end Brutils
