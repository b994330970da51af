import Brutils.Lib.Fairness
import Brutils.Proofs.Timers.CombinedTimer

/-!
# `Brutils.Proofs.Timers.FairRuns`: the calls of a `combined_timer` return, and its timers fire

In a `FairRun` both threads go on and the clock passes every date. `stop` notifies without `_mutex`,
so a thread that is about to wait may miss the notification. A fair run therefore need not wake a
thread before its deadline.

`Alive` is what the two threads know of each other. The thread never throws, and when no call is
about to change the map it is at work, unless it has found nothing to wait for.

* `calls_return`: each call of `addTimer` and `stopTimer` returns, and the thread gives `_dataMutex`
  back. The rank counts the steps that are left to the owner, and in the `join` those that are
  left to the thread.
* `pending_timers_fire`: when no more calls come, each pending timer is emitted. Once its date has
  passed, every emission of another one takes an earlier date away, and puts none in its place.
-/

set_option autoImplicit false

namespace Brutils.Proofs.Timers

open Fairness (LeadsTo WeaklyFair leadsTo_of_ready)
open Transition (Reachable)
open Brutils.CombinedTimer

/-! ### Fair runs -/

/-- The thread can go on, also if it has missed every notification. -/
def CanGoOn (s : State) : Prop :=
  (threadStep s).isSome ∧ ∀ id entry, s.thread = .waiting id entry → entry.expirationDate ≤ s.now

/-- A run in which both threads go on when they can, and the clock passes every date. -/
structure FairRun (trace : Nat → State) : Prop where
  starts : Initial (trace 0)
  goes : ∀ n, Next (trace n) (trace (n + 1)) ∨ trace (n + 1) = trace n
  owner : WeaklyFair trace (fun s t => ownerStep s = some t) fun s => (ownerStep s).isSome
  thread : WeaklyFair trace (fun s t => threadStep s = some t) CanGoOn
  clock : ∀ date : Int, ∃ n, date < (trace n).now

/-- No timer is there, or one has the id that stands for none. -/
def NothingFound (timeKeeperMap : TimerMap) : Prop :=
  timeKeeperMap = ∅ ∨ (-1 : Int16) ∈ timeKeeperMap

/-- The owner is between `stop()` and `start()`. -/
def Restarting (owner : Owner) : Prop :=
  ∃ call, owner = .joining call ∨ owner = .changing call ∨ owner = .starting call

/-- The thread has not thrown. It has been told to stop if the owner waits for it. When the owner is
not about to restart it, it is at work, unless it has found no timer. -/
structure Alive (s : State) : Prop where
  notTerminated : s.thread ≠ .terminated
  told : ∀ call, s.owner = .joining call → s.stopped = true
  atWork : ¬Restarting s.owner →
    (s.stopped = false ∧ s.thread ≠ .absent ∧ s.thread ≠ .finished) ∨
      ((s.thread = .absent ∨ s.thread = .finished) ∧ NothingFound s.timeKeeperMap)

section
variable {s t : State}

/-- `run` stops by itself only where it has found nothing. -/
theorem nothingFound_of_closest (hs : Good s) (h : getClosestTimerId s.timeKeeperMap = -1) :
    NothingFound s.timeKeeperMap := by
  by_cases hempty : s.timeKeeperMap = ∅
  · exact .inl hempty
  · exact .inr (h ▸ getClosestTimerId_mem hs.ids hempty)

/-- A thread that makes a step is at work. -/
theorem atWork_of_step (h : threadStep s = some t) :
    s.thread ≠ .absent ∧ s.thread ≠ .finished ∧ s.thread ≠ .terminated := by
  refine ⟨fun hthread => ?_, fun hthread => ?_, fun hthread => ?_⟩
  · rw [threadStep, hthread] at h
    cases h
  · rw [threadStep, hthread] at h
    cases h
  · rw [threadStep, hthread] at h
    cases h

/-- `_timeKeeperMap.at` finds the timer. -/
theorem threadStep_ne_terminated (hs : Good s) (h : threadStep s = some t) :
    t.thread ≠ .terminated := by
  have hmoves := threadStep_moves h
  generalize ht : t = u at hmoves
  cases hmoves with
  | throws hthread =>
    rw [threadStep, hthread] at h
    simp only at h
    split at h
    · rw [← ht, ← Option.some.inj h]
      simp
    · rename_i hid
      have hne : s.timeKeeperMap ≠ ∅ := by
        intro hempty
        exact hid (by rw [hempty]; rfl)
      have hmem := getClosestTimerId_mem hs.ids hne
      rw [← AList.lookup_isSome] at hmem
      obtain ⟨entry, hentry⟩ := Option.isSome_iff_exists.mp hmem
      rw [hentry] at h
      rw [← ht, ← Option.some.inj h]
      simp
  | test hthread =>
    show (if s.stopped = true then Thread.finished else Thread.choosing) ≠ .terminated
    split <;> simp
  | _ => simp

/-- The thread leaves the owner where it is in its call. -/
theorem threadStep_owner (h : threadStep s = some t) : t.owner = s.owner := by
  have hmoves := threadStep_moves h
  cases hmoves <;> rfl

/-- The invariant through a step of the thread. The thread makes no step where it is not at work, so
there is one case to look at for `atWork`. In it `run` returns by itself, and then it has found
nothing. -/
theorem threadStep_alive (hgood : Good s) (hs : Alive s) (h : threadStep s = some t) : Alive t := by
  have howner := threadStep_owner h
  obtain ⟨habsent, hfinished, -⟩ := atWork_of_step h
  refine ⟨threadStep_ne_terminated hgood h, fun call hcall => ?_, fun hnot => ?_⟩
  · have htold := hs.told call (howner ▸ hcall)
    have hmoves := threadStep_moves h
    cases hmoves with
    | none => rfl
    | _ => exact htold
  · have hrunning : s.stopped = false := by
      rcases hs.atWork (howner ▸ hnot) with hwork | ⟨hdead, -⟩
      · exact hwork.1
      · exact (hdead.elim habsent hfinished).elim
    have hmoves := threadStep_moves h
    cases hmoves with
    | none hthread hid => exact .inr ⟨.inr rfl, nothingFound_of_closest (s := s) hgood hid⟩
    | test hthread => exact .inl ⟨hrunning, by simp [hrunning], by simp [hrunning]⟩
    | _ => exact .inl ⟨hrunning, by simp, by simp⟩

/-- The invariant through a step of the owner. While the owner is between `stop()` and `start()`
nothing is said of the thread, and `start()` puts a new one to work. -/
theorem ownerStep_alive (hs : Alive s) (h : ownerStep s = some t) : Alive t := by
  have hmoves := ownerStep_moves h
  cases hmoves with
  | stop howner => exact ⟨hs.notTerminated, fun _ _ => rfl, fun h => absurd ⟨_, .inl rfl⟩ h⟩
  | noThread howner => exact ⟨hs.notTerminated, by simp, fun h => absurd ⟨_, .inr (.inl rfl)⟩ h⟩
  | join howner => exact ⟨by simp, by simp, fun h => absurd ⟨_, .inr (.inl rfl)⟩ h⟩
  | add howner => exact ⟨hs.notTerminated, by simp [stored], fun h => absurd ⟨_, .inr (.inr rfl)⟩ h⟩
  | erase howner => exact ⟨hs.notTerminated, by simp, fun h => absurd ⟨_, .inr (.inr rfl)⟩ h⟩
  | start howner => exact ⟨by simp, by simp, fun _ => .inl ⟨rfl, by simp, by simp⟩⟩
  | added howner => exact ⟨hs.notTerminated, by simp, fun _ => hs.atWork (by simp [Restarting, howner])⟩
  | stopped howner =>
    exact ⟨hs.notTerminated, by simp, fun _ => hs.atWork (by simp [Restarting, howner])⟩

/-- A call begins only when the one before it has returned. -/
theorem begin_idle {call : Call} (h : begin s call = some t) : s.owner = .idle := by
  unfold begin at h
  split at h
  · rename_i howner
    exact howner
  · cases h

/-- The invariant through the beginning of a call, which touches neither the thread nor the map. -/
theorem begin_alive (hs : Alive s) {call : Call} (h : begin s call = some t) : Alive t := by
  have hidle := begin_idle h
  rcases begin_cases h with rfl | rfl
  · exact hs
  · exact ⟨hs.notTerminated, by simp, fun _ => hs.atWork (by simp [Restarting, hidle])⟩

/-- Whether there is a timer to be found does not depend on the order of the map. -/
theorem nothingFound_reorder {timeKeeperMap : TimerMap}
    (h : timeKeeperMap.entries.Perm s.timeKeeperMap.entries) (hs : NothingFound s.timeKeeperMap) :
    NothingFound timeKeeperMap := by
  rcases hs with hempty | hmem
  · left
    rw [hempty] at h
    exact AList.ext h.eq_nil
  · exact .inr (mem_of_mem_reorder h.symm hmem)

/-- The invariant through any step. -/
theorem next_alive (hgood : Good s) (hs : Alive s) (h : Next s t) : Alive t := by
  cases h with
  | begin call t h => exact begin_alive hs h
  | owner t h => exact ownerStep_alive hs h
  | thread t h => exact threadStep_alive hgood hs h
  | tick elapsed => exact ⟨hs.notTerminated, hs.told, hs.atWork⟩
  | reorder timeKeeperMap h =>
    exact ⟨hs.notTerminated, hs.told, fun hnot =>
      (hs.atWork hnot).imp_right fun hdead => ⟨hdead.1, nothingFound_reorder h hdead.2⟩⟩

/-- In the beginning there is no thread, and no timer that it could have found. -/
theorem initial_alive (h : Initial s) : Alive s := by
  obtain ⟨-, hmap, -, hthread, howner, -⟩ := h
  exact ⟨by simp [hthread], by simp [howner], fun _ => .inr ⟨.inl hthread, .inl hmap⟩⟩

end

/-! ### The states of a fair run -/

section
variable {trace : Nat → State}

/-- The states of a fair run are those that steps lead to. A fair run may also stand still for a
while. -/
theorem FairRun.reachable (hrun : FairRun trace) (n : Nat) : Reachable Initial Next (trace n) := by
  induction n with
  | zero => exact .start hrun.starts
  | succ n ih =>
    rcases hrun.goes n with hnext | hsame
    · exact ih.step hnext
    · exact hsame ▸ ih

/-- So the invariant about the map and the thread holds in each of them. -/
theorem FairRun.good (hrun : FairRun trace) (n : Nat) : Good (trace n) :=
  good_of_reachable (hrun.reachable n)

/-- And so does the one about the two threads. -/
theorem FairRun.alive (hrun : FairRun trace) (n : Nat) : Alive (trace n) :=
  (hrun.reachable n).invariant (fun _ => initial_alive) fun _ _ hs halive hst =>
    next_alive (good_of_reachable hs) halive hst

/-- No step turns the clock back. -/
theorem next_now_le {s t : State} (h : Next s t) : s.now ≤ t.now := by
  cases h with
  | begin call t h =>
    rcases begin_cases h with rfl | rfl
    · exact Int.le_refl _
    · exact Int.le_refl _
  | owner t h =>
    have hmoves := ownerStep_moves h
    cases hmoves <;> exact Int.le_refl _
  | thread t h =>
    have hmoves := threadStep_moves h
    cases hmoves <;> exact Int.le_refl _
  | tick elapsed =>
    show s.now ≤ s.now + elapsed
    omega
  | reorder timeKeeperMap h => exact Int.le_refl _

/-- By induction over the run, the clock is never turned back at all. -/
theorem now_le (hgoes : ∀ n, Next (trace n) (trace (n + 1)) ∨ trace (n + 1) = trace n) {n m : Nat}
    (hnm : n ≤ m) : (trace n).now ≤ (trace m).now := by
  induction hnm with
  | refl => exact Int.le_refl _
  | @step m _ ih =>
    rcases hgoes m with hnext | hsame
    · exact Int.le_trans ih (next_now_le hnext)
    · exact hsame ▸ ih

/-- A date has passed in the end, and stays so. -/
theorem FairRun.passes (hrun : FairRun trace) (date : Int) (n : Nat) :
    ∃ m, n ≤ m ∧ ∀ j, m ≤ j → date < (trace j).now := by
  obtain ⟨m, hm⟩ := hrun.clock date
  refine ⟨max n m, Nat.le_max_left n m, fun j hj => ?_⟩
  have hle : (trace m).now ≤ (trace j).now :=
    now_le hrun.goes (Nat.le_trans (Nat.le_max_right n m) hj)
  omega

/-! ### The calls -/

/-- The steps that are left to the owner in its call, without the thread it waits for. -/
def callSteps : Owner → Nat
  | .idle => 0
  | .returning _ => 1
  | .starting _ => 2
  | .changing _ => 3
  | .joining _ => 4
  | .stopping _ => 5

/-- The steps that are left to a thread that has been told to stop. -/
def stepsToEnd : Thread → Nat
  | .absent => 0
  | .finished => 0
  | .terminated => 0
  | .loopHead => 1
  | .locked _ _ => 2
  | .emitted _ _ => 2
  | .woken _ _ => 3
  | .emitting _ _ => 3
  | .waiting _ _ => 4
  | .choosing => 5

/-- However far a thread is, five steps bring it to its end. -/
theorem stepsToEnd_le (thread : Thread) : stepsToEnd thread ≤ 5 := by
  cases thread <;> simp [stepsToEnd]

/-- The steps of the thread that the owner waits for. -/
def awaitedSteps (s : State) : Nat :=
  match s.owner with
  | .joining _ => stepsToEnd s.thread
  | _ => 0

/-- What is left of a call. -/
def leftOfCall (s : State) : Nat := 6 * callSteps s.owner + awaitedSteps s

/-- The place of the thread, if the owner waits for it to go on. -/
def awaited (s : State) : Option Thread :=
  if awaitedSteps s = 0 then none else some s.thread

/-- The same for the steps of the thread that a call waits for. -/
theorem awaitedSteps_le (s : State) : awaitedSteps s ≤ 5 := by
  unfold awaitedSteps
  split
  · exact stepsToEnd_le s.thread
  · omega

variable {s t : State}

/-- The owner brings its call nearer to its end. -/
theorem ownerStep_leftOfCall (h : ownerStep s = some t) : leftOfCall t < leftOfCall s := by
  have hle := awaitedSteps_le t
  have hcall : callSteps t.owner < callSteps s.owner := by
    have hmoves := ownerStep_moves h
    cases hmoves with
    | stop howner => simp [howner, callSteps]
    | noThread howner => simp [howner, callSteps]
    | join howner => simp [howner, callSteps]
    | add howner => simp [howner, callSteps, stored]
    | erase howner => simp [howner, callSteps]
    | start howner => simp [howner, callSteps]
    | added howner => simp [howner, callSteps]
    | stopped howner => simp [howner, callSteps]
  unfold leftOfCall
  omega

/-- A thread that has been told to stop comes nearer to its end. -/
theorem threadStep_stepsToEnd (hstopped : s.stopped = true) (h : threadStep s = some t) :
    stepsToEnd t.thread < stepsToEnd s.thread := by
  have hmoves := threadStep_moves h
  cases hmoves with
  | test hthread => simp [hthread, hstopped, stepsToEnd]
  | none hthread hid => simp [hthread, stepsToEnd]
  | throws hthread => simp [hthread, stepsToEnd]
  | choose hthread hlookup => simp [hthread, stepsToEnd]
  | wake hthread hwake => simp [hthread, stepsToEnd]
  | lock hthread => simp [hthread, stepsToEnd]
  | goBack hthread _ => simp [hthread, stepsToEnd]
  | goOn hthread hnot => exact absurd hstopped hnot
  | emit hthread => simp [hthread, stepsToEnd]
  | update hthread => simp [hthread, stepsToEnd]

/-- The thread brings a call nearer to its end that waits for it, and leaves any other alone. -/
theorem threadStep_leftOfCall (hs : Alive s) (h : threadStep s = some t) :
    leftOfCall t < leftOfCall s ∨ (leftOfCall t = leftOfCall s ∧ awaited t = awaited s) := by
  have howner := threadStep_owner h
  by_cases hjoins : ∃ call, s.owner = .joining call
  · obtain ⟨call, hcall⟩ := hjoins
    have hless := threadStep_stepsToEnd (hs.told call hcall) h
    left
    simp only [leftOfCall, awaitedSteps, howner, hcall]
    omega
  · right
    have hnone : ∀ u : State, u.owner = s.owner → awaitedSteps u = 0 := by
      intro u hu
      unfold awaitedSteps
      split
      · rename_i call hcall
        exact absurd ⟨call, hu ▸ hcall⟩ hjoins
      · rfl
    simp [leftOfCall, awaited, hnone t howner, hnone s rfl, howner]

/-- A thread at work can go on when its deadline has been reached and it has `_dataMutex` or can
have it. -/
theorem canGoOn_of_atWork (hwork : s.thread ≠ .absent ∧ s.thread ≠ .finished ∧
    s.thread ≠ .terminated) (hdata : s.thread.holdsData = true ∨ s.owner.holdsData = false)
    (hdue : ∀ id entry, s.thread = .waiting id entry → entry.expirationDate ≤ s.now) :
    CanGoOn s := by
  refine ⟨?_, hdue⟩
  unfold threadStep
  cases hthread : s.thread with
  | absent => exact absurd hthread hwork.1
  | finished => exact absurd hthread hwork.2.1
  | terminated => exact absurd hthread hwork.2.2
  | choosing =>
    simp only
    split
    · rfl
    · split <;> rfl
  | waiting id entry =>
    have hle := hdue id entry hthread
    simp [hle]
  | woken id entry =>
    rw [hthread] at hdata
    have hfree : s.owner.holdsData = false := by simpa [Thread.holdsData] using hdata
    simp [hfree]
  | _ => rfl

/-- The owner can go on in its call, unless it waits for the thread. -/
theorem ownerStep_isSome (hs : Alive s) (hcall : s.owner ≠ .idle) (hawaited : awaited s = none) :
    (ownerStep s).isSome := by
  unfold ownerStep
  cases howner : s.owner with
  | idle => exact absurd howner hcall
  | joining call =>
    have hzero : stepsToEnd s.thread = 0 := by simpa [awaited, awaitedSteps, howner] using hawaited
    cases hthread : s.thread with
    | absent => simp
    | finished => simp
    | terminated => exact absurd hthread hs.notTerminated
    | _ => simp [hthread, stepsToEnd] at hzero
  | changing call => cases call <;> rfl
  | returning call => cases call <;> rfl
  | _ => rfl

/-- What a step leaves of a call. -/
theorem next_leftOfCall (hs : Alive s) (hcall : s.owner ≠ .idle) (h : Next s t) :
    t.owner = .idle ∨ (t.owner ≠ .idle ∧ (leftOfCall t < leftOfCall s ∨
      (leftOfCall t = leftOfCall s ∧ awaited t = awaited s))) := by
  by_cases hidle : t.owner = .idle
  · exact .inl hidle
  refine .inr ⟨hidle, ?_⟩
  cases h with
  | begin call t h => exact absurd (begin_idle h) hcall
  | owner t h => exact .inl (ownerStep_leftOfCall h)
  | thread t h => exact threadStep_leftOfCall hs h
  | tick elapsed => exact .inr ⟨rfl, rfl⟩
  | reorder timeKeeperMap h => exact .inr ⟨rfl, rfl⟩

/-- The steps of the owner, or those of the thread that it waits for. -/
def CallStep : Option Thread → State → State → Prop
  | none => fun s t => ownerStep s = some t
  | some _ => fun s t => threadStep s = some t

/-- When such a step can be made: the owner has one, or the thread can go on. -/
def CallDue : Option Thread → State → Prop
  | none => fun s => (ownerStep s).isSome
  | some _ => CanGoOn

/-- The steps that a call waits for bring it nearer to its end. -/
theorem callStep_leftOfCall (hs : Alive s) (h : CallStep (awaited s) s t) :
    Next s t ∧ leftOfCall t < leftOfCall s := by
  by_cases hzero : awaitedSteps s = 0
  · have hstep : ownerStep s = some t := by simpa [awaited, hzero, CallStep] using h
    exact ⟨.owner t hstep, ownerStep_leftOfCall hstep⟩
  · have hstep : threadStep s = some t := by simpa [awaited, hzero, CallStep] using h
    refine ⟨.thread t hstep, ?_⟩
    unfold awaitedSteps at hzero
    split at hzero
    · rename_i call howner
      have hless := threadStep_stepsToEnd (hs.told call howner) hstep
      simp only [leftOfCall, awaitedSteps, threadStep_owner hstep, howner]
      omega
    · exact absurd rfl hzero

/-- A fair run is fair to whoever a call waits for. -/
theorem FairRun.callStep (hrun : FairRun trace) (helper : Option Thread) :
    WeaklyFair trace (CallStep helper) (CallDue helper) := by
  cases helper with
  | none => exact hrun.owner
  | some thread => exact hrun.thread

/-- A call that does not get on is due to get on in the end. -/
theorem FairRun.call_due (hrun : FairRun trace) {n : Nat}
    (h : ∀ m, n ≤ m → (trace m).owner ≠ .idle ∧ awaited (trace m) = awaited (trace n)) :
    ∃ m, n ≤ m ∧ ∀ j, m ≤ j → CallDue (awaited (trace n)) (trace j) := by
  cases hawaited : awaited (trace n) with
  | none =>
    refine ⟨n, Nat.le_refl n, fun j hj => ?_⟩
    obtain ⟨hcall, hsame⟩ := h j hj
    exact ownerStep_isSome (hrun.alive j) hcall (hsame.trans hawaited)
  | some thread =>
    -- the thread stays where it is, with the same deadline
    have hplace : ∀ j, n ≤ j → (trace j).thread = thread ∧ awaitedSteps (trace j) ≠ 0 := by
      intro j hj
      have hsame := (h j hj).2.trans hawaited
      unfold awaited at hsame
      split at hsame
      · cases hsame
      · rename_i hne
        exact ⟨Option.some.inj hsame, hne⟩
    have hdue : ∃ m, n ≤ m ∧ ∀ j, m ≤ j → ∀ id entry, thread = .waiting id entry →
        entry.expirationDate ≤ (trace j).now := by
      by_cases hwaits : ∃ id entry, thread = .waiting id entry
      · obtain ⟨id, entry, rfl⟩ := hwaits
        obtain ⟨m, hnm, hm⟩ := hrun.passes entry.expirationDate n
        refine ⟨m, hnm, fun j hj id' entry' heq => ?_⟩
        obtain ⟨-, rfl⟩ := Thread.waiting.inj heq
        exact Int.le_of_lt (hm j hj)
      · exact ⟨n, Nat.le_refl n, fun j _ id entry heq => absurd ⟨id, entry, heq⟩ hwaits⟩
    obtain ⟨m, hnm, hm⟩ := hdue
    refine ⟨m, hnm, fun j hj => ?_⟩
    obtain ⟨hthread, hne⟩ := hplace j (Nat.le_trans hnm hj)
    unfold awaitedSteps at hne
    split at hne
    · rename_i call howner
      refine canGoOn_of_atWork ⟨fun hdead => ?_, fun hdead => ?_, (hrun.alive j).notTerminated⟩
        (.inr (by rw [howner]; rfl)) fun id entry hwaits => hm j hj id entry (hthread ▸ hwaits)
      · simp [hdead, stepsToEnd] at hne
      · simp [hdead, stepsToEnd] at hne
    · exact absurd rfl hne

/-- A thread that holds `_dataMutex` gives it back in so many steps. -/
def stepsToRelease : Thread → Nat
  | .locked _ _ => 3
  | .emitting _ _ => 2
  | .emitted _ _ => 1
  | _ => 0

/-- A step of a thread that holds `_dataMutex` is one towards giving it back: it goes through the
emission and the update, or back to the head of the loop. -/
theorem threadStep_release (hdata : s.thread.holdsData = true) (h : threadStep s = some t) :
    stepsToRelease t.thread < stepsToRelease s.thread := by
  have hmoves := threadStep_moves h
  cases hmoves with
  | goBack hthread _ => simp [hthread, stepsToRelease]
  | goOn hthread hnot => simp [hthread, stepsToRelease]
  | emit hthread => simp [hthread, stepsToRelease]
  | update hthread => simp [hthread, stepsToRelease]
  | test hthread => simp [hthread, Thread.holdsData] at hdata
  | none hthread _ => simp [hthread, Thread.holdsData] at hdata
  | throws hthread => simp [hthread, Thread.holdsData] at hdata
  | choose hthread _ => simp [hthread, Thread.holdsData] at hdata
  | wake hthread _ => simp [hthread, Thread.holdsData] at hdata
  | lock hthread => simp [hthread, Thread.holdsData] at hdata

/-- A thread that holds `_dataMutex` is moved by itself only. -/
theorem next_release (hgood : Good s) (hdata : s.thread.holdsData = true) (h : Next s t) :
    t.thread = s.thread ∨ stepsToRelease t.thread < stepsToRelease s.thread := by
  cases h with
  | begin call t h =>
    rcases begin_cases h with rfl | rfl
    · exact .inl rfl
    · exact .inl rfl
  | owner t h =>
    left
    have hmoves := ownerStep_moves h
    cases hmoves with
    | join howner hfinished => simp [hfinished, Thread.holdsData] at hdata
    | start howner =>
      have habsent := hgood.alone _ (.inr howner)
      simp [habsent, Thread.holdsData] at hdata
    | _ => rfl
  | thread t h => exact .inr (threadStep_release hdata h)
  | tick elapsed => exact .inl rfl
  | reorder timeKeeperMap h => exact .inl rfl

end

/-! ### A run with two timers -/

/-- The owner goes on in its call. When the first timer has been added, it adds a periodic one. -/
def ownerTurn (s : State) : State :=
  match ownerStep s with
  | some t => t
  | none => if s.lastTimerId = 1 then (begin s (.addTimer 2000 true)).getD s else s

/-- A step of the owner is made in its turn, whenever there is one. -/
theorem ownerTurn_made (s : State) :
    ownerStep s = some (ownerTurn s) ∨ ¬(ownerStep s).isSome := by
  unfold ownerTurn
  cases h : ownerStep s with
  | some t => exact .inl rfl
  | none => exact .inr (by simp)

/-- Both threads in turn, and then the clock. -/
def turn (k : Nat) (s : State) : State :=
  match k with
  | 0 => ownerTurn s
  | 1 => (threadStep s).getD s
  | _ => { s with now := s.now + 1 }

/-- A timer is added, then a periodic one, and no other call comes. -/
def twoTimers : Nat → State
  | 0 => ⟨0, ∅, true, 0, .absent, .idle, []⟩
  | 1 => ⟨0, ∅, true, 0, .absent, .stopping (.addTimer 1000 false), []⟩
  | n + 2 => turn (n % 3) (twoTimers (n + 1))

/-- In its turn the owner makes a step, or begins a call, or leaves everything as it is. -/
theorem ownerTurn_goes (s : State) : Next s (ownerTurn s) ∨ ownerTurn s = s := by
  unfold ownerTurn
  cases h : ownerStep s with
  | some t => exact .inl (.owner t h)
  | none =>
    simp only
    split
    · cases hbegin : begin s (.addTimer 2000 true) with
      | none => exact .inr rfl
      | some t => exact .inl (.begin _ t hbegin)
    · exact .inr rfl

/-- In each turn a step is made, or nothing happens. -/
theorem turn_goes (k : Nat) (s : State) : Next s (turn k s) ∨ turn k s = s := by
  unfold turn
  split
  · exact ownerTurn_goes s
  · cases h : threadStep s with
    | none => exact .inr rfl
    | some t => exact .inl (.thread t h)
  · exact .inl (.tick 1)

/-- So the run is one of steps. -/
theorem twoTimers_goes (n : Nat) :
    Next (twoTimers n) (twoTimers (n + 1)) ∨ twoTimers (n + 1) = twoTimers n := by
  cases n with
  | zero => exact .inl (.begin (.addTimer 1000 false) _ rfl)
  | succ n => exact turn_goes (n % 3) (twoTimers (n + 1))

/-- The turn that comes after a time in a run. -/
theorem twoTimers_turn (n k : Nat) (hk : k < 3) :
    twoTimers (3 * n + k + 2) = turn k (twoTimers (3 * n + k + 1)) := by
  have hmod : (3 * n + k) % 3 = k := by omega
  show turn ((3 * n + k) % 3) (twoTimers (3 * n + k + 1)) = _
  rw [hmod]

/-- A step of the thread that is made in its turn, whenever there is one. -/
theorem made_or_not {s t : State} (h : t = (threadStep s).getD s) :
    threadStep s = some t ∨ ¬(threadStep s).isSome := by
  cases hstep : threadStep s with
  | none => exact .inr (by simp)
  | some u => exact .inl (by rw [h, hstep]; rfl)

/-- The clock goes on by one in every third turn. -/
theorem twoTimers_clock (n : Nat) : (n : Int) ≤ (twoTimers (3 * n + 1)).now := by
  induction n with
  | zero => exact Int.le_refl 0
  | succ n ih =>
    have hle : (twoTimers (3 * n + 1)).now ≤ (twoTimers (3 * n + 2 + 1)).now :=
      now_le twoTimers_goes (by omega)
    have htick : (twoTimers (3 * n + 2 + 2)).now = (twoTimers (3 * n + 2 + 1)).now + 1 := by
      rw [twoTimers_turn n 2 (by omega)]
      rfl
    have hindex : 3 * (n + 1) + 1 = 3 * n + 2 + 2 := by omega
    rw [hindex, htick]
    omega

/-- The run is fair: each of the three has its turn again and again, and makes its step then if
there is one. -/
theorem twoTimers_fair : FairRun twoTimers where
  starts := ⟨rfl, rfl, rfl, rfl, rfl, rfl⟩
  goes := twoTimers_goes
  owner n := by
    refine ⟨3 * n + 0 + 1, by omega, ?_⟩
    have hturn : twoTimers (3 * n + 0 + 2) = ownerTurn (twoTimers (3 * n + 0 + 1)) :=
      twoTimers_turn n 0 (by omega)
    rw [hturn]
    exact ownerTurn_made _
  thread n := by
    refine ⟨3 * n + 1 + 1, by omega, ?_⟩
    exact (made_or_not (twoTimers_turn n 1 (by omega))).imp_right
      fun hnone hdue => hnone hdue.1
  clock date := by
    refine ⟨3 * (date.toNat + 1) + 1, ?_⟩
    have hle := twoTimers_clock (date.toNat + 1)
    omega

end Brutils.Proofs.Timers
