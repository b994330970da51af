import Brutils.Lib.InverseMaps
import Brutils.Lib.Transition
import Brutils.Thread.ThreadPool

/-!
# `Brutils.Proofs.Thread.PoolMaps`: the four maps of a pool agree

A `ThreadPool` keeps its threads in two maps, one for those that work and one for those that are
idle. An idle thread has a timer, and two more maps say which. `MapsAgree` is what the keys of
the four maps have to do with each other.

There are three moves. An idle thread leaves together with its timer (`MapsAgree.withdraw`),
which is what a timeout does, and makes room for one thread. A thread comes to those that work
when there is room (`MapsAgree.addBusy`). A thread that has finished becomes idle and gets a
timer (`MapsAgree.retire`). Each path through the functions of the pool is made of these, or
leaves the keys alone (`MapsAgree.congr`). `maps_agree` is the result for every run.

A run is any sequence of calls, also with ids that the pool does not know. What the threads do
between the calls is left open (`Call.threadsGoOn`): any of them may be busy or not.
-/

set_option autoImplicit false

namespace Brutils.Proofs.Thread

open InverseMaps
open Transition (Reachable)
open ThreadPool

variable {T F : Type} [DecidableEq T]

/-- The keys of the maps of a pool with up to `maxThreadSize` threads. -/
structure MapsAgree (maxThreadSize : Nat) (pool : ThreadPool T F) : Prop where
  maxThreadCount : pool.maxThreadCount = maxThreadSize
  disjoint : ∀ threadId ∈ pool.busyThreadMap, threadId ∉ pool.idleThreadMap
  bounded : pool.busyThreadMap.keys.length + pool.idleThreadMap.keys.length ≤ maxThreadSize
  timed : ∀ threadId, threadId ∈ pool.threadIdTimerIdMap ↔ threadId ∈ pool.idleThreadMap
  inverse : InverseLists pool.threadIdTimerIdMap pool.timerIdThreadIdMap

/-- A call of one of the functions, with a new id for a thread that is made and a timer's id that
is not in use, or a time in which the threads go on and the maps keep their keys. -/
inductive Call (threadIdToStr : T → String) (pool : ThreadPool T F) : ThreadPool T F → Prop
  | execute (newThreadId : T) (function : F) (hnew : NewId newThreadId pool) :
      Call threadIdToStr pool (execute newThreadId function pool)
  | executionFinished (newTimerId : Int) (hfresh : newTimerId ∉ pool.timerIdThreadIdMap)
      (finishedThreadId : T) :
      Call threadIdToStr pool
        (executionFinishedSlotFunc threadIdToStr newTimerId finishedThreadId pool)
  | timerTimeout (timerId : Int) : Call threadIdToStr pool (timerTimeoutSlotFunc timerId pool)
  | threadsGoOn (busyThreadMap idleThreadMap : AList fun _ : T => Thread F)
      (hbusy : busyThreadMap.keys.Perm pool.busyThreadMap.keys)
      (hidle : idleThreadMap.keys.Perm pool.idleThreadMap.keys) :
      Call threadIdToStr pool
        { pool with busyThreadMap := busyThreadMap, idleThreadMap := idleThreadMap }

section
variable {maxThreadSize : Nat} {pool t : ThreadPool T F} {threadId : T} {timerId : Int}

/-- Only the keys matter, and not their order. -/
theorem MapsAgree.congr (h : MapsAgree maxThreadSize pool)
    (hmax : t.maxThreadCount = pool.maxThreadCount)
    (hbusy : t.busyThreadMap.keys.Perm pool.busyThreadMap.keys)
    (hidle : t.idleThreadMap.keys.Perm pool.idleThreadMap.keys)
    (htimers : t.threadIdTimerIdMap = pool.threadIdTimerIdMap)
    (hthreads : t.timerIdThreadIdMap = pool.timerIdThreadIdMap) : MapsAgree maxThreadSize t := by
  have hmemIdle : ∀ threadId, threadId ∈ t.idleThreadMap ↔ threadId ∈ pool.idleThreadMap :=
    fun _ => hidle.mem_iff
  constructor
  · rw [hmax, h.maxThreadCount]
  · intro threadId hmem
    rw [hmemIdle]
    exact h.disjoint threadId (hbusy.mem_iff.mp hmem)
  · rw [hbusy.length_eq, hidle.length_eq]
    exact h.bounded
  · intro threadId
    rw [hmemIdle, htimers]
    exact h.timed threadId
  · rw [htimers, hthreads]
    exact h.inverse

/-! ### The three moves -/

/-- An idle thread leaves with its timer. -/
theorem MapsAgree.withdraw (h : MapsAgree maxThreadSize pool)
    (htimer : pool.threadIdTimerIdMap.lookup threadId = some timerId) :
    MapsAgree maxThreadSize { pool with
      timerIdThreadIdMap := pool.timerIdThreadIdMap.erase timerId
      threadIdTimerIdMap := pool.threadIdTimerIdMap.erase threadId
      idleThreadMap := pool.idleThreadMap.erase threadId } := by
  refine ⟨h.maxThreadCount, ?_, ?_, ?_, h.inverse.erase htimer⟩
  · intro threadId' hbusy hidle
    exact h.disjoint threadId' hbusy (AList.mem_erase.mp hidle).2
  · have hbounded := h.bounded
    have hshorter : (pool.idleThreadMap.keys.erase threadId).length
        ≤ pool.idleThreadMap.keys.length := List.length_erase_le
    show pool.busyThreadMap.keys.length + (pool.idleThreadMap.erase threadId).keys.length ≤ _
    rw [AList.keys_erase]
    omega
  · intro threadId'
    show threadId' ∈ pool.threadIdTimerIdMap.erase threadId ↔
      threadId' ∈ pool.idleThreadMap.erase threadId
    rw [AList.mem_erase, AList.mem_erase, h.timed]

/-- Its place is free then. -/
theorem MapsAgree.withdraw_room (h : MapsAgree maxThreadSize pool)
    (hidle : threadId ∈ pool.idleThreadMap) :
    pool.busyThreadMap.keys.length + (pool.idleThreadMap.erase threadId).keys.length
      < maxThreadSize := by
  have hbounded := h.bounded
  -- one of the idle threads is the one that leaves
  have hpos := List.length_pos_of_mem (AList.mem_keys.mp hidle)
  rw [AList.keys_erase, List.length_erase_of_mem (AList.mem_keys.mp hidle)]
  omega

/-- The keys after a new one has come. -/
theorem keys_insert_new {m : AList fun _ : T => Thread F} (hnew : threadId ∉ m)
    (thread : Thread F) : (m.insert threadId thread).keys = threadId :: m.keys := by
  rw [AList.keys_insert, List.erase_of_not_mem (mt AList.mem_keys.mpr hnew)]

/-- A thread comes to those that work. -/
theorem MapsAgree.addBusy (h : MapsAgree maxThreadSize pool) (hnew : NewId threadId pool)
    (hroom : pool.busyThreadMap.keys.length + pool.idleThreadMap.keys.length < maxThreadSize)
    (thread : Thread F) :
    MapsAgree maxThreadSize
      { pool with busyThreadMap := pool.busyThreadMap.insert threadId thread } := by
  refine ⟨h.maxThreadCount, ?_, ?_, h.timed, h.inverse⟩
  · intro threadId' hbusy
    rcases (AList.mem_insert _).mp hbusy with rfl | hbusy
    · exact hnew.2
    · exact h.disjoint threadId' hbusy
  · show (pool.busyThreadMap.insert threadId thread).keys.length
      + pool.idleThreadMap.keys.length ≤ _
    rw [keys_insert_new hnew.1, List.length_cons]
    omega

/-- A thread that has finished becomes idle and gets a timer. -/
theorem MapsAgree.retire (h : MapsAgree maxThreadSize pool) (hbusy : threadId ∈ pool.busyThreadMap)
    (hfresh : timerId ∉ pool.timerIdThreadIdMap) (thread : Thread F) :
    MapsAgree maxThreadSize (startTimerByThreadId timerId threadId { pool with
      idleThreadMap := pool.idleThreadMap.insert threadId thread
      busyThreadMap := pool.busyThreadMap.erase threadId }) := by
  have hidle : threadId ∉ pool.idleThreadMap := h.disjoint threadId hbusy
  -- it has worked, so it has no timer
  have htimer : threadId ∉ pool.threadIdTimerIdMap := mt (h.timed threadId).mp hidle
  refine ⟨h.maxThreadCount, ?_, ?_, ?_, h.inverse.insert htimer hfresh⟩
  · intro threadId' hbusy' hidle'
    obtain ⟨hne, hbusy'⟩ := AList.mem_erase.mp hbusy'
    rcases (AList.mem_insert _).mp hidle' with heq | hidle'
    · exact hne heq
    · exact h.disjoint threadId' hbusy' hidle'
  -- one less works, and one more is idle
  · have hbounded := h.bounded
    have hpos := List.length_pos_of_mem (AList.mem_keys.mp hbusy)
    show (pool.busyThreadMap.erase threadId).keys.length
      + (pool.idleThreadMap.insert threadId thread).keys.length ≤ _
    rw [keys_insert_new hidle, AList.keys_erase, List.length_cons,
      List.length_erase_of_mem (AList.mem_keys.mp hbusy)]
    omega
  · intro threadId'
    show threadId' ∈ pool.threadIdTimerIdMap.insert threadId timerId ↔
      threadId' ∈ pool.idleThreadMap.insert threadId thread
    rw [AList.mem_insert, AList.mem_insert, h.timed]

/-! ### The functions of the pool -/

/-- The timer of an idle thread is in both maps, so it is stopped. -/
theorem stopTimerByThreadId_of_idle (h : MapsAgree maxThreadSize pool)
    (hidle : threadId ∈ pool.idleThreadMap) :
    ∃ timerId, pool.threadIdTimerIdMap.lookup threadId = some timerId ∧
      stopTimerByThreadId threadId pool = { pool with
        threadIdTimerIdMap := pool.threadIdTimerIdMap.erase threadId
        timerIdThreadIdMap := pool.timerIdThreadIdMap.erase timerId } := by
  obtain ⟨timerId, htimer⟩ :=
    Option.isSome_iff_exists.mp (AList.lookup_isSome.mpr ((h.timed threadId).mpr hidle))
  have hmem : timerId ∈ pool.timerIdThreadIdMap := by
    rw [← AList.lookup_isSome, (h.inverse threadId timerId).mp htimer]
    rfl
  refine ⟨timerId, htimer, ?_⟩
  unfold stopTimerByThreadId
  rw [htimer]
  exact if_pos hmem

/-- An idle thread gets a function: it leaves with its timer, and comes to those that work. -/
theorem giveToIdleThread_agree (h : MapsAgree maxThreadSize pool)
    (hidle : threadId ∈ pool.idleThreadMap) (idleThread : Thread F) (function : F) :
    MapsAgree maxThreadSize (giveToIdleThread threadId idleThread function pool) := by
  obtain ⟨timerId, htimer, hstop⟩ := stopTimerByThreadId_of_idle h hidle
  -- the two maps share no thread, so it is new to those that work
  have hbusy : threadId ∉ pool.busyThreadMap := fun hbusy => h.disjoint threadId hbusy hidle
  have hnew : NewId threadId { pool with
      timerIdThreadIdMap := pool.timerIdThreadIdMap.erase timerId
      threadIdTimerIdMap := pool.threadIdTimerIdMap.erase threadId
      idleThreadMap := pool.idleThreadMap.erase threadId } :=
    ⟨hbusy, fun herased => (AList.mem_erase.mp herased).1 rfl⟩
  have hadded := (h.withdraw htimer).addBusy hnew (h.withdraw_room hidle)
    (idleThread.execute function)
  unfold giveToIdleThread
  rw [hstop]
  exact hadded.congr rfl (.refl _) (.refl _) rfl rfl

/-- `execute` takes an idle thread out of both maps, or leaves them alone. -/
theorem execute_agree (h : MapsAgree maxThreadSize pool) {newThreadId : T}
    (hnew : NewId newThreadId pool) (function : F) :
    MapsAgree maxThreadSize (execute newThreadId function pool) := by
  have hsubmitted : MapsAgree maxThreadSize
      { pool with submitted := pool.submitted ++ [function] } :=
    h.congr rfl (.refl _) (.refl _) rfl rfl
  unfold execute
  cases hentries : pool.idleThreadMap.entries with
  | cons entry entries =>
    have hidle : entry.1 ∈ pool.idleThreadMap := by
      rw [AList.mem_keys, AList.keys, hentries]
      exact List.mem_cons_self
    exact giveToIdleThread_agree hsubmitted hidle entry.2 function
  | nil =>
    simp only
    split
    · rename_i hroom
      refine hsubmitted.addBusy hnew ?_ .create
      -- no thread is idle, so those that work are all
      show pool.busyThreadMap.keys.length + pool.idleThreadMap.keys.length < _
      rw [AList.keys, AList.keys, hentries, List.keys, List.length_map, ← h.maxThreadCount]
      exact hroom
    · exact h.congr rfl (.refl _) (.refl _) rfl rfl

/-- A timeout takes a thread out of both maps. -/
theorem timerTimeout_agree (h : MapsAgree maxThreadSize pool) (timerId : Int) :
    MapsAgree maxThreadSize (timerTimeoutSlotFunc timerId pool) := by
  unfold timerTimeoutSlotFunc
  cases hthread : pool.timerIdThreadIdMap.lookup timerId with
  | none => exact h.congr rfl (.refl _) (.refl _) rfl rfl
  | some timedOutThreadId =>
    exact h.withdraw ((h.inverse timedOutThreadId timerId).mpr hthread)

/-- A thread that has finished and gets no other function gets a timer in both maps. -/
theorem executionFinished_agree {threadIdToStr : T → String} (h : MapsAgree maxThreadSize pool)
    {newTimerId : Int} (hfresh : newTimerId ∉ pool.timerIdThreadIdMap) (finishedThreadId : T) :
    MapsAgree maxThreadSize
      (executionFinishedSlotFunc threadIdToStr newTimerId finishedThreadId pool) := by
  unfold executionFinishedSlotFunc
  cases hlookup : pool.busyThreadMap.lookup finishedThreadId with
  | none => exact h.congr rfl (.refl _) (.refl _) rfl rfl
  | some finishedThread =>
    have hbusy : finishedThreadId ∈ pool.busyThreadMap := by
      rw [← AList.lookup_isSome, hlookup]
      rfl
    simp only
    split
    · exact h.congr rfl (.refl _) (.refl _) rfl rfl
    · cases pool.functionBuffer with
      | nil =>
        exact (h.retire hbusy hfresh finishedThread).congr rfl (.refl _) (.refl _) rfl rfl
      | cons f functionBuffer =>
        -- the thread stays where it is
        refine h.congr rfl ?_ (.refl _) rfl rfl
        show (pool.busyThreadMap.insert finishedThreadId (finishedThread.execute f)).keys.Perm _
        rw [AList.keys_insert]
        exact (List.perm_cons_erase (AList.mem_keys.mp hbusy)).symm

/-- What a thread does is covered by `Call.threadsGoOn`. -/
theorem call_of_threadStep {threadIdToStr : T → String} {step : Thread F → Option (Thread F)}
    (h : threadStep step threadId pool = some t) : Call threadIdToStr pool t := by
  unfold threadStep at h
  split at h
  · obtain ⟨thread, -, rfl⟩ := Option.map_eq_some_iff.mp h
    refine .threadsGoOn _ pool.idleThreadMap ?_ (.refl _)
    rw [AList.keys_replace]
  · obtain ⟨thread, -, rfl⟩ := Option.map_eq_some_iff.mp h
    refine .threadsGoOn pool.busyThreadMap _ (.refl _) ?_
    rw [AList.keys_replace]
  · cases h

/-- Every call keeps the invariant. -/
theorem call_agree {threadIdToStr : T → String} (h : MapsAgree maxThreadSize pool)
    (hcall : Call threadIdToStr pool t) : MapsAgree maxThreadSize t := by
  cases hcall with
  | execute newThreadId function hnew => exact execute_agree h hnew function
  | executionFinished newTimerId hfresh finishedThreadId =>
    exact executionFinished_agree h hfresh finishedThreadId
  | timerTimeout timerId => exact timerTimeout_agree h timerId
  | threadsGoOn busyThreadMap idleThreadMap hbusy hidle => exact h.congr rfl hbusy hidle rfl rfl

/-- In every run of a new pool, the maps agree. -/
theorem maps_agree {threadIdToStr : T → String}
    (h : Reachable (Initial maxThreadSize) (Call threadIdToStr) pool) :
    MapsAgree maxThreadSize pool := by
  refine h.invariant ?_ fun s t _ hs hcall => call_agree hs hcall
  rintro s rfl
  exact ⟨rfl, fun threadId hbusy => absurd hbusy (AList.notMem_empty threadId), Nat.zero_le _,
    fun threadId => Iff.rfl, inverseLists_empty⟩

end

/-- The result for a thread that has been made, has come to rest, and has become idle with the
timer 5. -/
theorem maps_agree_one_idle :
    MapsAgree 1 (executionFinishedSlotFunc toString 5 0
      { execute 0 7 (ThreadPool.create 1 : ThreadPool Nat Nat) with
        busyThreadMap := AList.singleton 0 ⟨false, [], none⟩ }) := by
  have hstart : Reachable (Initial 1) (Call toString) (ThreadPool.create 1 : ThreadPool Nat Nat) :=
    Reachable.start rfl
  have hmade := hstart.step (.execute 0 7 ⟨AList.notMem_empty 0, AList.notMem_empty 0⟩)
  have hrests := hmade.step
    (.threadsGoOn (AList.singleton 0 ⟨false, [], none⟩) ∅ (.refl _) (.refl _))
  exact maps_agree (hrests.step (.executionFinished 5 (AList.notMem_empty 5) 0))

end Brutils.Proofs.Thread
