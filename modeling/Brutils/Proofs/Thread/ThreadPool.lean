import Brutils.Lib.Transition
import Brutils.Thread.ThreadPool
import Mathlib.Data.List.Perm.Basic

/-!
# `Brutils.Proofs.Thread.ThreadPool`: what becomes of the functions given to a pool

`execute` makes a thread when none is idle and fewer than `_maxThreadCount` are busy, and then it
does not give the function to anyone. `losesNoWork_of_careful` says that this is the only place
where a function is lost: a run in which no call of `execute` comes to it keeps every function, and
hands those of the buffer out in order.

But the first call of every run comes to it. A new thread counts as busy until it has run a function,
so it never becomes idle, and no function is ever handed to a thread (`AllBusy`): the first
`_maxThreadCount` functions are lost, and the others stay in the buffer. `loses_no_work_iff` is what
this means for a pool that may have a thread.
-/

set_option autoImplicit false

namespace Brutils.Proofs.Thread

open Transition (Reachable)
open ThreadPool

variable {T F : Type} [DecidableEq T]

/-- Every submitted function has been handed to a thread or waits in the buffer, each of them once,
and the functions of the buffer are handed out in the order of their submission. -/
structure LosesNoWork (pool : ThreadPool T F) : Prop where
  conserved : (pool.handed.map Prod.snd ++ pool.functionBuffer).Perm pool.submitted
  inOrder : (pool.handedOut ++ pool.functionBuffer).Sublist pool.submitted

/-- A call of `execute` would make a thread. -/
def MakesThread (pool : ThreadPool T F) : Prop :=
  pool.idleThreadMap.entries = [] ∧ pool.busyThreadMap.entries.length < pool.maxThreadCount

/-! ### Runs that make no thread -/

section
variable {pool t : ThreadPool T F} {threadIdToStr : T → String}

omit [DecidableEq T] in
/-- Only the submitted functions and where they are matter. -/
theorem LosesNoWork.congr (h : LosesNoWork pool) (hsubmitted : t.submitted = pool.submitted)
    (hhanded : t.handed = pool.handed) (hhandedOut : t.handedOut = pool.handedOut)
    (hbuffer : t.functionBuffer = pool.functionBuffer) : LosesNoWork t := by
  refine ⟨?_, ?_⟩
  · rw [hhanded, hbuffer, hsubmitted]
    exact h.conserved
  · rw [hhandedOut, hbuffer, hsubmitted]
    exact h.inOrder

/-- `stopTimerByThreadId` changes the two maps of the timers only. -/
theorem stopTimerByThreadId_keeps (threadId : T) (pool : ThreadPool T F) :
    (stopTimerByThreadId threadId pool).submitted = pool.submitted ∧
      (stopTimerByThreadId threadId pool).handed = pool.handed ∧
      (stopTimerByThreadId threadId pool).handedOut = pool.handedOut ∧
      (stopTimerByThreadId threadId pool).functionBuffer = pool.functionBuffer := by
  unfold stopTimerByThreadId
  split
  · simp
  · split <;> simp

/-- What a call of `execute` does with the function. -/
theorem execute_cases (newThreadId : T) (function : F) (pool : ThreadPool T F) :
    (∃ idleThreadId idleThread, ⟨idleThreadId, idleThread⟩ ∈ pool.idleThreadMap.entries ∧
      execute newThreadId function pool = giveToIdleThread idleThreadId idleThread function
        { pool with submitted := pool.submitted ++ [function] }) ∨
    (MakesThread pool ∧ execute newThreadId function pool
      = makeThread newThreadId { pool with submitted := pool.submitted ++ [function] }) ∨
    (¬MakesThread pool ∧ execute newThreadId function pool
      = { pool with
          submitted := pool.submitted ++ [function]
          functionBuffer := pool.functionBuffer ++ [function] }) := by
  unfold execute MakesThread
  cases hidle : pool.idleThreadMap.entries with
  | cons e entries => exact Or.inl ⟨e.1, e.2, List.mem_cons_self, rfl⟩
  | nil =>
    by_cases hroom : pool.busyThreadMap.entries.length < pool.maxThreadCount
    · exact Or.inr (Or.inl ⟨⟨rfl, hroom⟩, if_pos hroom⟩)
    · exact Or.inr (Or.inr ⟨fun h => hroom h.2, if_neg hroom⟩)

/-- Every call of `execute` is recorded. -/
theorem execute_submitted (newThreadId : T) (function : F) (pool : ThreadPool T F) :
    (execute newThreadId function pool).submitted = pool.submitted ++ [function] := by
  rcases execute_cases newThreadId function pool with ⟨idleThreadId, _, -, h⟩ | ⟨-, h⟩ | ⟨-, h⟩
  · rw [h]
    exact (stopTimerByThreadId_keeps idleThreadId _).1
  · rw [h]
    rfl
  · rw [h]

/-- The idle thread takes the function. -/
theorem giveToIdleThread_losesNoWork (h : LosesNoWork pool) (idleThreadId : T)
    (idleThread : Thread F) (function : F) :
    LosesNoWork (giveToIdleThread idleThreadId idleThread function
      { pool with submitted := pool.submitted ++ [function] }) := by
  obtain ⟨hsubmitted, hhanded, hhandedOut, hbuffer⟩ := stopTimerByThreadId_keeps idleThreadId
    { pool with submitted := pool.submitted ++ [function] }
  refine ⟨?_, ?_⟩
  · -- the function goes past those that wait
    have hmoved : (pool.handed.map Prod.snd ++ [function] ++ pool.functionBuffer).Perm
        (pool.handed.map Prod.snd ++ pool.functionBuffer ++ [function]) := by
      rw [List.append_assoc, List.append_assoc]
      exact List.perm_append_comm.append_left _
    simp only [giveToIdleThread, hsubmitted, hhanded, hbuffer, List.map_append, List.map_cons,
      List.map_nil]
    exact hmoved.trans (h.conserved.append_right [function])
  · simp only [giveToIdleThread, hsubmitted, hhandedOut, hbuffer]
    exact h.inOrder.trans (List.sublist_append_left _ _)

/-- A call of `execute` that finds an idle thread, or no place for another one. -/
theorem execute_losesNoWork (h : LosesNoWork pool) (hmakes : ¬MakesThread pool) (newThreadId : T)
    (function : F) : LosesNoWork (execute newThreadId function pool) := by
  rcases execute_cases newThreadId function pool with
    ⟨idleThreadId, idleThread, -, hexecute⟩ | ⟨hmakes', -⟩ | ⟨-, hexecute⟩
  · rw [hexecute]
    exact giveToIdleThread_losesNoWork h idleThreadId idleThread function
  · exact absurd hmakes' hmakes
  · rw [hexecute]
    refine ⟨?_, ?_⟩
    · show (pool.handed.map Prod.snd ++ (pool.functionBuffer ++ [function])).Perm _
      rw [← List.append_assoc]
      exact h.conserved.append_right [function]
    · show (pool.handedOut ++ (pool.functionBuffer ++ [function])).Sublist _
      rw [← List.append_assoc]
      exact h.inOrder.append_right [function]

/-- A thread that has finished takes the function that has waited longest. -/
theorem executionFinished_losesNoWork (h : LosesNoWork pool) (newTimerId : Int)
    (finishedThreadId : T) :
    LosesNoWork (executionFinishedSlotFunc threadIdToStr newTimerId finishedThreadId pool) := by
  unfold executionFinishedSlotFunc
  split
  · exact h.congr rfl rfl rfl rfl
  · split
    · exact h.congr rfl rfl rfl rfl
    · cases hbuffer : pool.functionBuffer with
      | nil => exact h.congr rfl rfl rfl hbuffer.symm
      | cons f functionBuffer =>
        -- the front of the buffer comes behind what has been handed out
        obtain ⟨hconserved, hinOrder⟩ := h
        rw [hbuffer] at hconserved hinOrder
        refine ⟨?_, ?_⟩
        · show ((pool.handed ++ [(finishedThreadId, f)]).map Prod.snd ++ functionBuffer).Perm _
          rw [List.map_append, List.append_assoc]
          exact hconserved
        · show (pool.handedOut ++ [f] ++ functionBuffer).Sublist _
          rw [List.append_assoc]
          exact hinOrder

/-- An idle thread that is removed had no function. -/
theorem timerTimeout_losesNoWork (h : LosesNoWork pool) (timerId : Int) :
    LosesNoWork (timerTimeoutSlotFunc timerId pool) := by
  unfold timerTimeoutSlotFunc
  split
  · exact h.congr rfl rfl rfl rfl
  · exact h.congr rfl rfl rfl rfl

/-- A step of a thread does not touch the buffer, nor what has been handed out. -/
theorem threadStep_losesNoWork {step : Thread F → Option (Thread F)} {threadId : T}
    (h : LosesNoWork pool) (hstep : threadStep step threadId pool = some t) : LosesNoWork t := by
  unfold threadStep at hstep
  split at hstep
  · obtain ⟨thread, -, rfl⟩ := Option.map_eq_some_iff.mp hstep
    exact h.congr rfl rfl rfl rfl
  · obtain ⟨thread, -, rfl⟩ := Option.map_eq_some_iff.mp hstep
    exact h.congr rfl rfl rfl rfl
  · cases hstep

/-- A step that submits no function, or submits it to a pool that makes no thread for it. -/
def Careful (pool t : ThreadPool T F) : Prop :=
  t.submitted = pool.submitted ∨ ¬MakesThread pool

/-- One step. -/
theorem next_losesNoWork (h : LosesNoWork pool) (hcareful : Careful pool t)
    (hnext : Next threadIdToStr pool t) : LosesNoWork t := by
  cases hnext with
  | execute newThreadId function hnew =>
    refine execute_losesNoWork h (hcareful.resolve_left fun hsame => ?_) newThreadId function
    rw [execute_submitted] at hsame
    exact absurd hsame (by simp)
  | executionFinished newTimerId finishedThreadId idleThreadMap horder =>
    exact (executionFinished_losesNoWork h newTimerId finishedThreadId).congr rfl rfl rfl rfl
  | timerTimeout timerId => exact timerTimeout_losesNoWork h timerId
  | executorBegins threadId t hstep => exact threadStep_losesNoWork h hstep
  | executorEnds threadId t hstep => exact threadStep_losesNoWork h hstep

/-- A run in which no call of `execute` makes a thread loses nothing. -/
theorem losesNoWork_of_careful (h : LosesNoWork pool)
    (hrun : Relation.ReflTransGen (fun s t => Next threadIdToStr s t ∧ Careful s t) pool t) :
    LosesNoWork t := by
  induction hrun with
  | refl => exact h
  | tail _ hstep ih => exact next_losesNoWork ih hstep.2 hstep.1

end

/-! ### Runs of a new pool -/

/-- Every thread is as it was made, and no function has been handed to one: the first
`maxThreadSize` functions are lost, and the others wait. -/
structure AllBusy (maxThreadSize : Nat) (pool : ThreadPool T F) : Prop where
  maxThreadCount : pool.maxThreadCount = maxThreadSize
  threads : ∀ threadId thread, pool.busyThreadMap.lookup threadId = some thread → thread = .create
  busy : pool.busyThreadMap.entries.length = min pool.submitted.length maxThreadSize
  idle : pool.idleThreadMap = ∅
  timers : pool.timerIdThreadIdMap = ∅
  buffer : pool.functionBuffer = pool.submitted.drop maxThreadSize
  handed : pool.handed = []
  handedOut : pool.handedOut = []
  dangling : pool.dangling = false

section
variable {pool t : ThreadPool T F} {threadIdToStr : T → String} {maxThreadSize : Nat}

/-- A new pool has no thread, and none is idle. -/
theorem create_allBusy (maxThreadSize : Nat) :
    AllBusy maxThreadSize (ThreadPool.create maxThreadSize : ThreadPool T F) where
  maxThreadCount := rfl
  threads threadId thread h := by simp [ThreadPool.create] at h
  busy := by simp [ThreadPool.create]
  idle := rfl
  timers := rfl
  buffer := by simp [ThreadPool.create]
  handed := rfl
  handedOut := rfl
  dangling := rfl

/-- An error changes nothing of this. -/
theorem emitError_allBusy (h : AllBusy maxThreadSize pool) (error : ThreadPoolError) :
    AllBusy maxThreadSize (emitError error pool) :=
  ⟨h.maxThreadCount, h.threads, h.busy, h.idle, h.timers, h.buffer, h.handed, h.handedOut, h.dangling⟩

/-- A call of `execute` makes a thread or puts the function into the buffer. -/
theorem execute_allBusy (h : AllBusy maxThreadSize pool) {newThreadId : T}
    (hnew : NewId newThreadId pool) (function : F) :
    AllBusy maxThreadSize (execute newThreadId function pool) := by
  have hbusy := h.busy
  have hmax := h.maxThreadCount
  have hidle : pool.idleThreadMap.entries = [] := by
    rw [h.idle]
    rfl
  rcases execute_cases newThreadId function pool with
    ⟨idleThreadId, idleThread, hmem, -⟩ | ⟨⟨-, hroom⟩, hexecute⟩ | ⟨hmakes, hexecute⟩
  · rw [hidle] at hmem
    exact absurd hmem List.not_mem_nil
  · -- there is room, so fewer than `maxThreadSize` functions have been submitted and none waits
    rw [hexecute]
    refine ⟨hmax, ?_, ?_, h.idle, h.timers, ?_, h.handed, h.handedOut, h.dangling⟩
    · intro threadId thread hlookup
      change (pool.busyThreadMap.insert newThreadId .create).lookup threadId = some thread at hlookup
      by_cases hid : threadId = newThreadId
      · rw [hid, AList.lookup_insert] at hlookup
        exact (Option.some.inj hlookup).symm
      · rw [AList.lookup_insert_ne hid] at hlookup
        exact h.threads threadId thread hlookup
    · show (pool.busyThreadMap.insert newThreadId .create).entries.length
        = min (pool.submitted ++ [function]).length maxThreadSize
      rw [AList.entries_insert_of_notMem hnew.1, List.length_cons, List.length_append,
        List.length_singleton]
      omega
    · show pool.functionBuffer = (pool.submitted ++ [function]).drop maxThreadSize
      rw [h.buffer, List.drop_eq_nil_of_le (by omega), List.drop_eq_nil_of_le]
      rw [List.length_append, List.length_singleton]
      omega
  · rw [hexecute]
    -- the pool is full, and the function goes to the end of the buffer
    have hfull : ¬pool.busyThreadMap.entries.length < pool.maxThreadCount :=
      fun hroom => hmakes ⟨hidle, hroom⟩
    refine ⟨hmax, h.threads, ?_, h.idle, h.timers, ?_, h.handed, h.handedOut, h.dangling⟩
    · show pool.busyThreadMap.entries.length = min (pool.submitted ++ [function]).length maxThreadSize
      rw [List.length_append, List.length_singleton]
      omega
    · show pool.functionBuffer ++ [function] = (pool.submitted ++ [function]).drop maxThreadSize
      rw [h.buffer, List.drop_append_of_le_length (by omega)]

/-- A thread that has never run a function is busy. -/
theorem executionFinished_allBusy (h : AllBusy maxThreadSize pool) (newTimerId : Int)
    (finishedThreadId : T) :
    AllBusy maxThreadSize
      (executionFinishedSlotFunc threadIdToStr newTimerId finishedThreadId pool) := by
  unfold executionFinishedSlotFunc
  split
  · exact emitError_allBusy h _
  · rename_i finishedThread hlookup
    rw [h.threads finishedThreadId finishedThread hlookup]
    exact emitError_allBusy h _

/-- With no idle thread a timeout finds nothing to remove. -/
theorem timerTimeout_allBusy (h : AllBusy maxThreadSize pool) (timerId : Int) :
    AllBusy maxThreadSize (timerTimeoutSlotFunc timerId pool) := by
  unfold timerTimeoutSlotFunc
  rw [h.timers, AList.lookup_empty]
  exact emitError_allBusy h _

/-- A thread without a function makes no step. -/
theorem threadStep_allBusy (h : AllBusy maxThreadSize pool) {step : Thread F → Option (Thread F)}
    (hcreate : step .create = none) (threadId : T) : threadStep step threadId pool = none := by
  unfold threadStep
  split
  · rename_i thread hlookup
    rw [h.threads threadId thread hlookup, hcreate]
    rfl
  · rename_i thread _ hlookup
    rw [h.idle, AList.lookup_empty] at hlookup
    cases hlookup
  · rfl

/-- The step lemma: no thread becomes idle, whatever is called. -/
theorem next_allBusy (h : AllBusy maxThreadSize pool) (hnext : Next threadIdToStr pool t) :
    AllBusy maxThreadSize t := by
  cases hnext with
  | execute newThreadId function hnew => exact execute_allBusy h hnew function
  | executionFinished newTimerId finishedThreadId idleThreadMap horder =>
    have hfinished : AllBusy maxThreadSize
        (executionFinishedSlotFunc threadIdToStr newTimerId finishedThreadId pool) :=
      executionFinished_allBusy h newTimerId finishedThreadId
    have hempty : idleThreadMap = ∅ := by
      rw [hfinished.idle] at horder
      exact AList.ext horder.eq_nil
    exact ⟨hfinished.maxThreadCount, hfinished.threads, hfinished.busy, hempty, hfinished.timers,
      hfinished.buffer, hfinished.handed, hfinished.handedOut, hfinished.dangling⟩
  | timerTimeout timerId => exact timerTimeout_allBusy h timerId
  | executorBegins threadId t hstep =>
    rw [threadStep_allBusy h rfl] at hstep
    cases hstep
  | executorEnds threadId t hstep =>
    rw [threadStep_allBusy h rfl] at hstep
    cases hstep

/-- So no thread of a pool is ever idle. -/
theorem allBusy_of_reachable
    (h : Reachable (Initial maxThreadSize) (Next threadIdToStr) pool) :
    AllBusy maxThreadSize pool := by
  refine h.invariant (fun s hs => ?_) fun s t _ hs hnext => next_allBusy hs hnext
  rw [hs]
  exact create_allBusy maxThreadSize

/-- In a run of a pool that may have a thread, no work is lost exactly as long as none is given
to it. -/
theorem loses_no_work_iff (hmax : 1 ≤ maxThreadSize)
    (h : Reachable (Initial maxThreadSize) (Next threadIdToStr) pool) :
    LosesNoWork pool ↔ pool.submitted = [] := by
  have hbusy := allBusy_of_reachable h
  constructor
  · intro hloses
    -- of the submitted functions, `maxThreadSize` are neither handed nor in the buffer
    have hlength := hloses.conserved.length_eq
    rw [hbusy.handed, hbusy.buffer, List.map_nil, List.nil_append, List.length_drop] at hlength
    exact List.length_eq_zero_iff.mp (by omega)
  · intro hnone
    have hbuffer : pool.functionBuffer = [] := by
      rw [hbusy.buffer, hnone, List.drop_nil]
    refine ⟨?_, ?_⟩
    · rw [hbusy.handed, hbuffer, hnone]
      rfl
    · rw [hbusy.handedOut, hbuffer]
      exact List.nil_sublist _

end

/-- The result for two runs of a pool of one thread: one in which it is given nothing, and one in
which it is given two functions. The first function is lost and the second one waits. -/
theorem loses_no_work_iff_two :
    LosesNoWork (timerTimeoutSlotFunc 3 (ThreadPool.create 1 : ThreadPool Nat Nat)) ∧
      ¬LosesNoWork (execute 1 8 (execute 0 7 (ThreadPool.create 1 : ThreadPool Nat Nat))) := by
  have hstart : Reachable (Initial 1) (Next toString) (ThreadPool.create 1 : ThreadPool Nat Nat) :=
    Reachable.start rfl
  have hfirst := hstart.step
    (.execute 0 7 ⟨AList.notMem_empty (0 : Nat), AList.notMem_empty (0 : Nat)⟩)
  have hsecond := hfirst.step (.execute 1 8 ⟨by decide, by decide⟩)
  refine ⟨(loses_no_work_iff (by decide) (hstart.step (.timerTimeout 3))).mpr rfl, fun h => ?_⟩
  exact nomatch (loses_no_work_iff (by decide) hsecond).mp h

/-- The first function that is given to a pool of one thread is lost. -/
theorem first_function_lost :
    ∃ pool : ThreadPool Nat Nat, Reachable (Initial 1) (Next toString) pool ∧
      pool.submitted = [7] ∧ pool.handed = [] ∧ pool.functionBuffer = [] ∧ ¬LosesNoWork pool := by
  have hstart : Reachable (Initial 1) (Next toString) (ThreadPool.create 1 : ThreadPool Nat Nat) :=
    Reachable.start rfl
  have hnew : NewId 0 (ThreadPool.create 1 : ThreadPool Nat Nat) :=
    ⟨AList.notMem_empty 0, AList.notMem_empty 0⟩
  refine ⟨execute 0 7 (ThreadPool.create 1), hstart.step (.execute 0 7 hnew), rfl, rfl, rfl, ?_⟩
  intro h
  exact absurd h.conserved.length_eq (by decide)

end Brutils.Proofs.Thread
