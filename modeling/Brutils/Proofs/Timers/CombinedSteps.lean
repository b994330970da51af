import Brutils.Timers.CombinedTimer

/-!
# `Brutils.Proofs.Timers.CombinedSteps`: what one step of a `combined_timer` does

`ThreadMoves` and `OwnerMoves` list the steps of the two threads, each with the place it begins at,
what it has found there and the state it leads to. `threadStep_moves`, `ownerStep_moves` and
`begin_cases` say that there are no others.
-/

set_option autoImplicit false

namespace Brutils.Proofs.Timers

open Brutils.CombinedTimer

/-- A step of the timer thread. -/
inductive ThreadMoves (s : State) : State → Prop
  /-- the test of the loop -/
  | test (h : s.thread = .loopHead) :
      ThreadMoves s { s with thread := if s.stopped then .finished else .choosing }
  /-- no timer is found -/
  | none (h : s.thread = .choosing) (hid : getClosestTimerId s.timeKeeperMap = -1) :
      ThreadMoves s { s with stopped := true, thread := .finished }
  /-- the id that is found is not in the map -/
  | throws (h : s.thread = .choosing) : ThreadMoves s { s with thread := .terminated }
  | choose {entry : TimerData} (h : s.thread = .choosing)
      (hlookup : s.timeKeeperMap.lookup (getClosestTimerId s.timeKeeperMap) = some entry) :
      ThreadMoves s { s with thread := .waiting (getClosestTimerId s.timeKeeperMap) entry }
  /-- `wait_until` returns -/
  | wake {id : Int16} {entry : TimerData} (h : s.thread = .waiting id entry)
      (hwake : entry.expirationDate ≤ s.now ∨ s.stopped = true) :
      ThreadMoves s { s with thread := .woken id entry }
  | lock {id : Int16} {entry : TimerData} (h : s.thread = .woken id entry) :
      ThreadMoves s { s with thread := .locked id entry }
  /-- the thread has been woken to stop -/
  | goBack {id : Int16} {entry : TimerData} (h : s.thread = .locked id entry)
      (hstopped : s.stopped = true) : ThreadMoves s { s with thread := .loopHead }
  | goOn {id : Int16} {entry : TimerData} (h : s.thread = .locked id entry)
      (hstopped : ¬s.stopped = true) : ThreadMoves s { s with thread := .emitting id entry }
  | emit {id : Int16} {entry : TimerData} (h : s.thread = .emitting id entry) :
      ThreadMoves s { s with
        thread := .emitted id entry
        history := .timeout entry.id entry.periodic :: s.history }
  | update {id : Int16} {entry : TimerData} (h : s.thread = .emitted id entry) :
      ThreadMoves s { s with
        timeKeeperMap := update s.timeKeeperMap s.now id entry
        thread := .loopHead }

/-- The state after `addTimer` has stored its timer. -/
def stored (s : State) (duration_ms : Nat) (periodic : Bool) : State :=
  { s with
    lastTimerId := s.lastTimerId + 1
    timeKeeperMap := s.timeKeeperMap.insert s.lastTimerId
      ⟨periodic, s.lastTimerId, duration_ms, s.now + milliseconds duration_ms⟩
    owner := .starting (.addTimer duration_ms periodic)
    history := .inserted s.lastTimerId :: s.history }

/-- A step of the owner in a call. -/
inductive OwnerMoves (s : State) : State → Prop
  | stop {call : Call} (h : s.owner = .stopping call) :
      OwnerMoves s { s with stopped := true, owner := .joining call }
  /-- there is no thread to join -/
  | noThread {call : Call} (h : s.owner = .joining call) (hthread : s.thread = .absent) :
      OwnerMoves s { s with owner := .changing call }
  | join {call : Call} (h : s.owner = .joining call) (hthread : s.thread = .finished) :
      OwnerMoves s { s with thread := .absent, owner := .changing call }
  | add {duration_ms : Nat} {periodic : Bool}
      (h : s.owner = .changing (.addTimer duration_ms periodic)) :
      OwnerMoves s (stored s duration_ms periodic)
  | erase {timerId : Int16} (h : s.owner = .changing (.stopTimer timerId)) :
      OwnerMoves s { s with
        timeKeeperMap := s.timeKeeperMap.erase timerId
        owner := .starting (.stopTimer timerId) }
  | start {call : Call} (h : s.owner = .starting call) :
      OwnerMoves s { s with stopped := false, thread := .loopHead, owner := .returning call }
  | added {duration_ms : Nat} {periodic : Bool}
      (h : s.owner = .returning (.addTimer duration_ms periodic)) :
      OwnerMoves s { s with owner := .idle }
  | stopped {timerId : Int16} (h : s.owner = .returning (.stopTimer timerId)) :
      OwnerMoves s { s with owner := .idle, history := .stopped timerId :: s.history }

section
variable {s t : State}

/-- The inversion of `threadStep`: what it does is one of the moves listed. -/
theorem threadStep_moves (hstep : threadStep s = some t) : ThreadMoves s t := by
  unfold threadStep at hstep
  cases hthread : s.thread with
  | absent => rw [hthread] at hstep; cases hstep
  | finished => rw [hthread] at hstep; cases hstep
  | terminated => rw [hthread] at hstep; cases hstep
  | loopHead =>
    rw [hthread] at hstep
    rw [← Option.some.inj hstep]
    exact .test hthread
  | choosing =>
    rw [hthread] at hstep
    simp only at hstep
    split at hstep
    · rename_i hid
      rw [← Option.some.inj hstep]
      exact .none hthread hid
    · split at hstep
      · rw [← Option.some.inj hstep]
        exact .throws hthread
      · rename_i entry hlookup
        rw [← Option.some.inj hstep]
        exact .choose hthread hlookup
  -- the wait ends when its time has come, or when the thread has been told to stop
  | waiting id entry =>
    rw [hthread] at hstep
    simp only at hstep
    split at hstep
    · rename_i hwake
      rw [← Option.some.inj hstep]
      refine .wake hthread ?_
      rcases hwake with hlt | hstopped | hle
      · exact Or.inl (Int.le_of_lt hlt)
      · exact Or.inr hstopped
      · exact Or.inl hle
    · cases hstep
  | woken id entry =>
    rw [hthread] at hstep
    simp only at hstep
    split at hstep
    · cases hstep
    · rw [← Option.some.inj hstep]
      exact .lock hthread
  -- the branch of `run` behind the wait
  | locked id entry =>
    rw [hthread] at hstep
    simp only at hstep
    rw [← Option.some.inj hstep]
    by_cases hstopped : s.stopped = true
    · rw [if_pos hstopped]
      exact .goBack hthread hstopped
    · rw [if_neg hstopped]
      exact .goOn hthread hstopped
  | emitting id entry =>
    rw [hthread] at hstep
    rw [← Option.some.inj hstep]
    exact .emit hthread
  | emitted id entry =>
    rw [hthread] at hstep
    rw [← Option.some.inj hstep]
    exact .update hthread

/-- The inversion of `ownerStep`: what it does is one of the moves listed. -/
theorem ownerStep_moves (hstep : ownerStep s = some t) : OwnerMoves s t := by
  unfold ownerStep at hstep
  cases howner : s.owner with
  | idle => rw [howner] at hstep; cases hstep
  | stopping call =>
    rw [howner] at hstep
    rw [← Option.some.inj hstep]
    exact .stop howner
  -- `join` goes on where there is no thread or it has finished
  | joining call =>
    rw [howner] at hstep
    simp only at hstep
    split at hstep
    · rename_i habsent
      rw [← Option.some.inj hstep]
      exact .noThread howner habsent
    · rename_i hfinished
      rw [← Option.some.inj hstep]
      exact .join howner hfinished
    · cases hstep
  | changing call =>
    rw [howner] at hstep
    cases call with
    | addTimer duration_ms periodic =>
      rw [← Option.some.inj hstep]
      exact .add howner
    | stopTimer timerId =>
      rw [← Option.some.inj hstep]
      exact .erase howner
  | starting call =>
    rw [howner] at hstep
    rw [← Option.some.inj hstep]
    exact .start howner
  | returning call =>
    rw [howner] at hstep
    cases call with
    | addTimer duration_ms periodic =>
      rw [← Option.some.inj hstep]
      exact .added howner
    | stopTimer timerId =>
      rw [← Option.some.inj hstep]
      exact .stopped howner

/-- A call that begins is on its way, or it has returned false at once. -/
theorem begin_cases {call : Call} (hstep : begin s call = some t) :
    t = s ∨ t = { s with owner := .stopping call } := by
  unfold begin at hstep
  split at hstep
  · split at hstep
    · exact Or.inr (Option.some.inj hstep).symm
    · split at hstep
      · cases hstep
      · split at hstep
        · exact Or.inr (Option.some.inj hstep).symm
        · exact Or.inl (Option.some.inj hstep).symm
  · cases hstep

end

end Brutils.Proofs.Timers
