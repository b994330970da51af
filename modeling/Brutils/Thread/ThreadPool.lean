import Mathlib.Data.List.AList

/-!
# `Brutils.Thread.ThreadPool`: the `Thread` and `ThreadPool` classes

A `Thread` runs the functions that its `execute` is called with, in its own event loop. Here its
event list holds these functions, and a step begins with the front one or ends the one that
runs. A `ThreadPool` keeps its threads in two maps, those that work and those that are idle.
Its slots are called with the id of a thread and of a timer, and they may be called with any id
at any time.

* The maps are `std::unordered_map`s, that is `AList`s with the entries in iteration order. After
  an insertion into the map of the idle threads, the order may be any.
* `execute` uses `idleThread`, a reference into an entry that it has erased, and
  `executionFinished_slotFunc` uses `f`, a reference to a function that it has popped. The
  language does not say what follows. The model goes on as if the object were still there, and
  `dangling` says that this has happened.
* The timer answers with an id, and so does the system when a thread is made.

`submitted`, `handed`, `handedOut`, `emitted` and `dangling` are ghosts that no step reads: the
functions of the calls of `ThreadPool::execute`, those of the calls of `Thread::execute` with the
thread, those among them that come from the buffer, and the errors that `errorOccured` has been
emitted with.
-/

set_option autoImplicit false

namespace Brutils

namespace ThreadPool

/-- The members of a `Thread`, its event list and the function that it runs. -/
structure Thread (F : Type) where
  busy : Bool
  eventList : List F
  running : Option F
  deriving DecidableEq

namespace Thread

variable {F : Type}

/-- The constructor. -/
def create : Thread F := ⟨true, [], none⟩

/-- `isBusy`. -/
def isBusy (thread : Thread F) : Bool := thread.busy

/-- `execute`, with the way of the signal to the event list. -/
def execute (thread : Thread F) (function : F) : Thread F :=
  { thread with eventList := thread.eventList ++ [function] }

/-- `executor_slot` up to the call of the function. -/
def executorBegins (thread : Thread F) : Option (Thread F) :=
  match thread.running, thread.eventList with
  | none, executee :: eventList => some ⟨true, eventList, some executee⟩
  | _, _ => none

/-- `executor_slot` from there on. -/
def executorEnds (thread : Thread F) : Option (Thread F) :=
  match thread.running with
  | some _ => some { thread with busy := false, running := none }
  | none => none

end Thread

/-- `ThreadPoolErrorCode`. -/
inductive ThreadPoolErrorCode
  | NoError
  | UnknownThreadId
  | UnknownTimerId
  | BusyThreadResource
  deriving DecidableEq, Repr

/-- `ThreadPoolError`. -/
structure ThreadPoolError where
  errorCode : ThreadPoolErrorCode
  errorStr : String
  deriving DecidableEq, Repr

end ThreadPool

open ThreadPool in
/-- The members of a `ThreadPool`, and the ghosts. -/
structure ThreadPool (T F : Type) where
  maxThreadCount : Nat
  functionBuffer : List F
  threadIdTimerIdMap : AList fun _ : T => Int
  timerIdThreadIdMap : AList fun _ : Int => T
  busyThreadMap : AList fun _ : T => Thread F
  idleThreadMap : AList fun _ : T => Thread F
  error : ThreadPoolError
  submitted : List F
  handed : List (T × F)
  handedOut : List F
  emitted : List ThreadPoolError
  dangling : Bool

namespace ThreadPool

variable {T F : Type} [DecidableEq T]

/-- The constructor. -/
def create (maxThreadSize : Nat) : ThreadPool T F where
  maxThreadCount := maxThreadSize
  functionBuffer := []
  threadIdTimerIdMap := ∅
  timerIdThreadIdMap := ∅
  busyThreadMap := ∅
  idleThreadMap := ∅
  error := ⟨.NoError, ""⟩
  submitted := []
  handed := []
  handedOut := []
  emitted := []
  dangling := false

/-- `_error = error; errorOccured.emit(_error)`. -/
def emitError (error : ThreadPoolError) (pool : ThreadPool T F) : ThreadPool T F :=
  { pool with error := error, emitted := pool.emitted ++ [error] }

/-- `startTimerByThreadId`, where `newTimerId` is what the timer answers. -/
def startTimerByThreadId (newTimerId : Int) (threadId : T) (pool : ThreadPool T F) :
    ThreadPool T F :=
  { pool with
    timerIdThreadIdMap := pool.timerIdThreadIdMap.insert newTimerId threadId
    threadIdTimerIdMap := pool.threadIdTimerIdMap.insert threadId newTimerId }

/-- `stopTimerByThreadId`. -/
def stopTimerByThreadId (threadId : T) (pool : ThreadPool T F) : ThreadPool T F :=
  match pool.threadIdTimerIdMap.lookup threadId with
  | none => pool
  | some timerId =>
    if timerId ∈ pool.timerIdThreadIdMap then
      { pool with
        threadIdTimerIdMap := pool.threadIdTimerIdMap.erase threadId
        timerIdThreadIdMap := pool.timerIdThreadIdMap.erase timerId }
    else pool

/-- The branch of `execute` for an idle thread. `idleThread` refers to the entry that is erased. -/
def giveToIdleThread (idleThreadId : T) (idleThread : Thread F) (function : F)
    (pool : ThreadPool T F) : ThreadPool T F :=
  let pool := stopTimerByThreadId idleThreadId pool
  { pool with
    idleThreadMap := pool.idleThreadMap.erase idleThreadId
    dangling := true
    handed := pool.handed ++ [(idleThreadId, function)]
    busyThreadMap := pool.busyThreadMap.insert idleThreadId (idleThread.execute function) }

/-- The branch of `execute` that makes a thread. It does not give it the function. -/
def makeThread (newThreadId : T) (pool : ThreadPool T F) : ThreadPool T F :=
  { pool with busyThreadMap := pool.busyThreadMap.insert newThreadId .create }

/-- `execute`, where `newThreadId` is the id of the thread that may be made. -/
def execute (newThreadId : T) (function : F) (pool : ThreadPool T F) : ThreadPool T F :=
  let submitted := pool.submitted ++ [function]
  match pool.idleThreadMap.entries with
  | ⟨idleThreadId, idleThread⟩ :: _ =>
    giveToIdleThread idleThreadId idleThread function { pool with submitted := submitted }
  | [] =>
    if pool.busyThreadMap.entries.length < pool.maxThreadCount then
      makeThread newThreadId { pool with submitted := submitted }
    else { pool with submitted := submitted, functionBuffer := pool.functionBuffer ++ [function] }

/-- `timerTimeout_slotFunc`. -/
def timerTimeoutSlotFunc (timerId : Int) (pool : ThreadPool T F) : ThreadPool T F :=
  match pool.timerIdThreadIdMap.lookup timerId with
  | none =>
    emitError ⟨.UnknownTimerId,
      "Timer id received from timeout timer is not known. Timer id: " ++ toString timerId⟩ pool
  | some timedOutThreadId =>
    { pool with
      timerIdThreadIdMap := pool.timerIdThreadIdMap.erase timerId
      threadIdTimerIdMap := pool.threadIdTimerIdMap.erase timedOutThreadId
      idleThreadMap := pool.idleThreadMap.erase timedOutThreadId }

/-- The branch of `executionFinished_slotFunc` for a buffer that is not empty. `f` refers to the
function that is popped. -/
def giveFromBuffer (finishedThreadId : T) (finishedThread : Thread F) (f : F)
    (functionBuffer : List F) (pool : ThreadPool T F) : ThreadPool T F :=
  { pool with
    functionBuffer := functionBuffer
    dangling := true
    handed := pool.handed ++ [(finishedThreadId, f)]
    handedOut := pool.handedOut ++ [f]
    busyThreadMap := pool.busyThreadMap.insert finishedThreadId (finishedThread.execute f) }

/-- `executionFinished_slotFunc`, where `newTimerId` is what the timer may answer. -/
def executionFinishedSlotFunc (threadIdToStr : T → String) (newTimerId : Int)
    (finishedThreadId : T) (pool : ThreadPool T F) : ThreadPool T F :=
  match pool.busyThreadMap.lookup finishedThreadId with
  | none =>
    emitError ⟨.UnknownThreadId, "Thread id received in execution finished slot is not known"⟩ pool
  | some finishedThread =>
    if finishedThread.isBusy then
      emitError ⟨.BusyThreadResource, "Thread that finished execution is busy. Check Thread " ++
        "resource for bugs. Thread Id: " ++ threadIdToStr finishedThreadId⟩ pool
    else
      match pool.functionBuffer with
      | f :: functionBuffer =>
        giveFromBuffer finishedThreadId finishedThread f functionBuffer pool
      | [] =>
        startTimerByThreadId newTimerId finishedThreadId
          { pool with
            idleThreadMap := pool.idleThreadMap.insert finishedThreadId finishedThread
            busyThreadMap := pool.busyThreadMap.erase finishedThreadId }

/-- A step of the thread with the given id, which is in one of the two maps. -/
def threadStep (step : Thread F → Option (Thread F)) (threadId : T) (pool : ThreadPool T F) :
    Option (ThreadPool T F) :=
  match pool.busyThreadMap.lookup threadId, pool.idleThreadMap.lookup threadId with
  | some thread, _ => (step thread).map fun thread =>
      { pool with busyThreadMap := pool.busyThreadMap.replace threadId thread }
  | none, some thread => (step thread).map fun thread =>
      { pool with idleThreadMap := pool.idleThreadMap.replace threadId thread }
  | none, none => none

/-- The id is that of no thread of the pool. -/
def NewId (threadId : T) (pool : ThreadPool T F) : Prop :=
  threadId ∉ pool.busyThreadMap ∧ threadId ∉ pool.idleThreadMap

/-- One step of the whole. -/
inductive Next (threadIdToStr : T → String) (pool : ThreadPool T F) : ThreadPool T F → Prop
  | execute (newThreadId : T) (function : F) (hnew : NewId newThreadId pool) :
      Next threadIdToStr pool (execute newThreadId function pool)
  | executionFinished (newTimerId : Int) (finishedThreadId : T)
      (idleThreadMap : AList fun _ : T => Thread F)
      (horder : idleThreadMap.entries.Perm (executionFinishedSlotFunc threadIdToStr newTimerId
        finishedThreadId pool).idleThreadMap.entries) :
      Next threadIdToStr pool
        { executionFinishedSlotFunc threadIdToStr newTimerId finishedThreadId pool with
          idleThreadMap := idleThreadMap }
  | timerTimeout (timerId : Int) : Next threadIdToStr pool (timerTimeoutSlotFunc timerId pool)
  | executorBegins (threadId : T) (t : ThreadPool T F)
      (h : threadStep Thread.executorBegins threadId pool = some t) : Next threadIdToStr pool t
  | executorEnds (threadId : T) (t : ThreadPool T F)
      (h : threadStep Thread.executorEnds threadId pool = some t) : Next threadIdToStr pool t

/-- A new pool. -/
def Initial (maxThreadSize : Nat) (pool : ThreadPool T F) : Prop := pool = create maxThreadSize

end ThreadPool

end Brutils
