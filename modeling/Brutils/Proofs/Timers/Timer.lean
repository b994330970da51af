import Brutils.Timers.Timer

/-!
# `Brutils.Proofs.Timers.Timer`: when the simple timer does what it should

`_running` is false when the timer is made, and nothing ever sets it. So the predicate of
`wait_until` holds at once, and the call of the function is never reached (`never_called`). A
one-shot timer ends without a call. A periodic timer goes round its loop for ever, since the
loop tests `_periodic` only, and a `stop` that joins it never returns.

That leaves two ways of using it that come out as they should: a one-shot timer that is stopped,
and a periodic one that is not (`fires_and_stops_iff`). `Quiet` and `Phase` are the invariants,
`Goes` says what a move of the thread can do, and the lemmas on progress follow the owner through
`start` and `stop`.
-/

set_option autoImplicit false

namespace Brutils.Proofs.Timers.Timer

open Fairness (run Fair LeadsTo run_stays run_invariant leadsTo_of_rank leadsTo_of_move)
open Brutils.Timer

/-- The calls of an owner that starts the timer, and perhaps stops it. -/
def script (millisec : Int) (periodic stops : Bool) : List Call :=
  .start millisec periodic :: if stops then [.stop] else []

/-- The schedule comes back to the owner and to the thread again and again. -/
def FairToBoth (schedule : Nat → Move) : Prop :=
  Fair schedule (fun move => move = .owner) ∧
    Fair schedule (fun move => ∃ spurious, move = .thread spurious)

/-- What is asked of a run. -/
structure Meets (millisec : Int) (periodic stops : Bool) (trace : Nat → State) : Prop where
  /-- A one-shot timer that is not stopped ends, and it has called the function once, not before
  the deadline. -/
  fires : stops = false → periodic = false → ∃ n, (trace n).thread = some .finished ∧
    ∀ m, n ≤ m → ∃ time, (trace m).calls = [time] ∧ (trace m).deadline ≤ time
  /-- A periodic timer does not call the function before the next deadline. -/
  waits : periodic = true → ∀ (n k : Nat) (time : Int), (trace n).calls[k]? = some time →
    (trace n).deadline + k * (millisec * 1000000) ≤ time
  /-- From where `stop` has cleared `_running`, the function is not called, at most one more pass
  of the loop begins, and the thread is joined and `stop` returns. -/
  ends : ∀ n, (trace n).owner = .stopping →
    (∀ m, n ≤ m → (trace m).calls = (trace n).calls ∧
      (trace m).iterations ≤ (trace n).iterations + 1) ∧
    ∃ m, n ≤ m ∧ (trace m).owner = .idle ∧ (trace m).thread = none

/-! ### The function is never called -/

/-- `_running` is not set, the function has not been called, and the thread does not come to
where it would be. -/
structure Quiet (s : State) : Prop where
  running : s.running = false
  calls : s.calls = []
  thread : s.thread ≠ some .blocked ∧ s.thread ≠ some .firing ∧ s.thread ≠ some .calling

/-- The constructor leaves `_running` false and makes no thread. -/
theorem construct_quiet (periodic : Bool) (now : Int) (script : List Call) :
    Quiet (construct periodic now script) :=
  ⟨rfl, rfl, nofun, nofun, nofun⟩

/-- There is no thread to wake. -/
theorem notify_quiet {s : State} (hs : Quiet s) :
    s.thread.map (fun pc => if pc = .blocked then .testingDeadline else pc) = s.thread := by
  cases hpc : s.thread with
  | none => rfl
  | some pc =>
    have hblocked : pc ≠ .blocked := fun h => hs.thread.1 (h ▸ hpc)
    simp only [Option.map_some, if_neg hblocked]

/-- No call of the owner sets `_running`: `start` leaves it alone and `stop` clears it. -/
theorem ownerStep_quiet {s : State} (hs : Quiet s) : Quiet (ownerStep s) := by
  have hnotify := notify_quiet hs
  obtain ⟨hrunning, hcalls, hthread⟩ := hs
  unfold ownerStep
  split
  · -- between two calls: `start` does not touch `_running`, and `stop` clears it
    split
    · exact ⟨hrunning, hcalls, hthread⟩
    · exact ⟨hrunning, hcalls, hthread⟩
    · exact ⟨rfl, hcalls, hthread⟩
  · exact ⟨hrunning, hcalls, hthread⟩
  · split
    · exact ⟨hrunning, hcalls, by simp⟩
    · exact ⟨hrunning, hcalls, by simp⟩
  · rw [hnotify]
    exact ⟨hrunning, hcalls, hthread⟩
  · split
    · exact ⟨hrunning, hcalls, hthread⟩
    · exact ⟨hrunning, hcalls, by simp⟩
    · exact ⟨hrunning, hcalls, hthread⟩
  · exact ⟨hrunning, hcalls, hthread⟩

/-! ### The moves of the thread -/

/-- A move of the thread of a quiet timer, and how many passes of the loop it begins. -/
inductive Goes (periodic : Bool) : ThreadPc → ThreadPc → Nat → Prop
  | enter : Goes periodic .entering .testingDeadline 1
  | due : Goes periodic .testingDeadline .woken 0
  | early : Goes periodic .testingDeadline .testingRunning 0
  | notRunning : Goes periodic .testingRunning .woken 0
  | skip : Goes periodic .woken .looping 0
  | again (h : periodic = true) : Goes periodic .looping .entering 0
  | leave (h : periodic = false) : Goes periodic .looping .finished 0
  | stay : Goes periodic .finished .finished 0

/-- A quiet timer's thread makes one of the moves of `Goes`, and nothing else changes but the count
of the passes. -/
theorem threadStep_goes {s : State} (hs : Quiet s) (spurious : Bool) {pc : ThreadPc}
    (hpc : s.thread = some pc) : ∃ pc' n, Goes s.periodic pc pc' n ∧
      threadStep spurious s pc = { s with thread := some pc', iterations := s.iterations + n } := by
  obtain ⟨hrunning, -, hthread⟩ := hs
  cases pc with
  | entering => exact ⟨_, _, .enter, rfl⟩
  | testingDeadline =>
    by_cases hdue : s.deadline < s.now
    · exact ⟨_, _, .due, by simp only [threadStep, if_pos hdue, Nat.add_zero]⟩
    · exact ⟨_, _, .early, by simp only [threadStep, if_neg hdue, Nat.add_zero]⟩
  | testingRunning => exact ⟨_, _, .notRunning, by simp [threadStep, hrunning]⟩
  -- `_running` is not set, so the thread does not wait
  | blocked => exact absurd hpc hthread.1
  | woken => exact ⟨_, _, .skip, by simp [threadStep, hrunning]⟩
  | firing => exact absurd hpc hthread.2.1
  | calling => exact absurd hpc hthread.2.2
  | looping =>
    cases hperiodic : s.periodic with
    | true => exact ⟨_, _, .again rfl, by simp [threadStep, hperiodic]⟩
    | false => exact ⟨_, _, .leave rfl, by simp [threadStep, hperiodic]⟩
  | finished => exact ⟨_, _, .stay, by rw [← hpc]; rfl⟩

/-- The thread of a quiet timer neither sleeps nor comes to the call. -/
theorem threadStep_quiet {s : State} (hs : Quiet s) (spurious : Bool) {pc : ThreadPc}
    (hpc : s.thread = some pc) : Quiet (threadStep spurious s pc) := by
  obtain ⟨pc', n, hgoes, hstep⟩ := threadStep_goes hs spurious hpc
  rw [hstep]
  refine ⟨hs.running, hs.calls, ?_⟩
  cases hgoes <;> simp

/-- So every move of a run keeps the timer quiet. -/
theorem step_quiet (s : State) (move : Move) (hs : Quiet s) : Quiet (step s move) := by
  cases move with
  | owner => exact ownerStep_quiet hs
  | thread spurious =>
    show Quiet ((s.thread.map (threadStep spurious s)).getD s)
    cases hpc : s.thread with
    | none => exact hs
    | some pc => exact threadStep_quiet hs spurious hpc
  | clock now => exact ⟨hs.running, hs.calls, hs.thread⟩

/-- Whatever the owner calls, and in whatever order the moves come, the function is never
called. -/
theorem never_called (before : Bool) (now : Int) (script : List Call) (schedule : Nat → Move)
    (n : Nat) : (run step schedule (construct before now script) n).calls = [] :=
  (run_invariant (construct_quiet before now script) step_quiet n).calls

/-! ### Where the owner and the thread can stand -/

/-- The thread of a one-shot timer gets closer to its end with each move. -/
def toGo : ThreadPc → Nat
  | .entering => 5
  | .testingDeadline => 4
  | .testingRunning => 3
  | .woken => 2
  | .looping => 1
  | _ => 0

/-- The pass that a thread is about to begin. -/
def nextPass (pc : ThreadPc) : Nat := if pc = .entering then 1 else 0

/-- Without `_periodic` each move brings the thread nearer to its end. -/
theorem Goes.toGo_lt {pc pc' : ThreadPc} {n : Nat} (h : Goes false pc pc' n)
    (hpc : pc ≠ .finished) : toGo pc' < toGo pc := by
  cases h <;> simp_all [toGo]

/-- Without `_periodic` no second pass of the loop is begun. -/
theorem Goes.passes_le {pc pc' : ThreadPc} {n : Nat} (h : Goes false pc pc' n) :
    n + nextPass pc' ≤ nextPass pc := by
  cases h <;> simp_all [nextPass]

/-- Only a one-shot timer ends. -/
theorem Goes.finished {periodic : Bool} {pc pc' : ThreadPc} {n : Nat}
    (h : Goes periodic pc pc' n) (hpc' : pc' = .finished) :
    pc = .finished ∨ periodic = false := by
  cases h <;> simp_all

/-- The owner's program, and what it has come to. -/
inductive Phase (millisec : Int) (periodic stops : Bool) (s : State) : Prop
  /-- before `start` -/
  | before (hscript : s.script = script millisec periodic stops) (howner : s.owner = .idle)
      (hthread : s.thread = none) (hpasses : s.iterations = 0)
  /-- in `start` -/
  | starting (hscript : s.script = if stops then [.stop] else []) (hperiodic : s.periodic = periodic)
      (howner : s.owner = .starting millisec ∨ s.owner = .launching)
      (hthread : s.thread = none) (hpasses : s.iterations = 0)
  /-- behind `start`, and perhaps in `stop` -/
  | started (pc : ThreadPc) (hthread : s.thread = some pc) (hperiodic : s.periodic = periodic)
      (hfinished : pc = .finished → periodic = false)
      (hpasses : periodic = false → s.iterations + nextPass pc ≤ 1)
      (howner : (s.owner = .idle ∧ s.script = if stops then [.stop] else []) ∨
        (s.script = [] ∧ stops = true ∧ (s.owner = .stopping ∨ s.owner = .joining)))
  /-- behind `stop` -/
  | joined (hscript : s.script = []) (howner : s.owner = .idle) (hthread : s.thread = none)
      (hperiodic : periodic = false) (hpasses : s.iterations ≤ 1)

section
variable {millisec : Int} {periodic stops : Bool} {s : State}

/-- The thread's move does not change where the owner is in its script, and keeps the bound on the
passes. -/
theorem threadStep_phase (hs : Phase millisec periodic stops s) (hquiet : Quiet s)
    (spurious : Bool) {pc : ThreadPc} (hpc : s.thread = some pc) :
    Phase millisec periodic stops (threadStep spurious s pc) := by
  obtain ⟨pc', n, hgoes, hstep⟩ := threadStep_goes hquiet spurious hpc
  rw [hstep]
  cases hs with
  | before hscript howner hthread hpasses => rw [hthread] at hpc; cases hpc
  | starting hscript hperiodic howner hthread hpasses => rw [hthread] at hpc; cases hpc
  | joined hscript howner hthread hperiodic hpasses => rw [hthread] at hpc; cases hpc
  | started pc₀ hthread hperiodic hfinished hpasses howner =>
    obtain rfl : pc₀ = pc := Option.some.inj (hthread.symm.trans hpc)
    rw [hperiodic] at hgoes
    refine .started pc' rfl hperiodic (fun h => ?_) (fun h => ?_) howner
    · rcases hgoes.finished h with hbefore | honeShot
      · exact hfinished hbefore
      · exact honeShot
    · subst h
      show s.iterations + n + nextPass pc' ≤ 1
      have hle := hgoes.passes_le
      have hbefore := hpasses rfl
      omega

/-- `stop` goes on to the `join`, and finds nobody asleep. -/
theorem ownerStep_stopping (hquiet : Quiet s) (howner : s.owner = .stopping) :
    ownerStep s = { s with owner := .joining } := by
  simp only [ownerStep, howner, notify_quiet hquiet]

/-- The `join` waits for a thread that has not ended. -/
theorem ownerStep_joining {pc : ThreadPc} (howner : s.owner = .joining)
    (hthread : s.thread = some pc) (hpc : pc ≠ .finished) : ownerStep s = s := by
  cases pc <;> simp_all [ownerStep]

/-- Once the thread has ended `stop` returns. -/
theorem ownerStep_joined (howner : s.owner = .joining) (hthread : s.thread = some .finished) :
    ownerStep s = { s with thread := none, owner := .idle } := by
  simp only [ownerStep, howner, hthread]

/-- The owner's move takes the script one place further, or leaves it where it is. -/
theorem ownerStep_phase (hs : Phase millisec periodic stops s) (hquiet : Quiet s) :
    Phase millisec periodic stops (ownerStep s) := by
  cases hs with
  | before hscript howner hthread hpasses =>
    simp only [ownerStep, howner, hscript, script]
    exact .starting rfl rfl (.inl rfl) hthread hpasses
  | starting hscript hperiodic howner hthread hpasses =>
    rcases howner with howner | howner
    · simp only [ownerStep, howner]
      exact .starting hscript hperiodic (.inr rfl) hthread hpasses
    · simp only [ownerStep, howner, hthread]
      refine .started .entering rfl hperiodic nofun (fun _ => ?_) (.inl ⟨rfl, hscript⟩)
      show s.iterations + 1 ≤ 1
      omega
  -- the owner has no call left, or it is on its way through `stop`
  | started pc hthread hperiodic hfinished hpasses howner =>
    rcases howner with ⟨howner, hscript⟩ | ⟨hscript, hstops, howner | howner⟩
    · cases stops with
      | false =>
        simp only [ownerStep, howner, hscript, Bool.false_eq_true, if_false]
        exact .started pc hthread hperiodic hfinished hpasses (.inl ⟨howner, hscript⟩)
      | true =>
        simp only [ownerStep, howner, hscript, if_true]
        exact .started pc hthread hperiodic hfinished hpasses (.inr ⟨rfl, rfl, .inl rfl⟩)
    · rw [ownerStep_stopping hquiet howner]
      exact .started pc hthread hperiodic hfinished hpasses (.inr ⟨hscript, hstops, .inr rfl⟩)
    · by_cases hpc : pc = .finished
      · -- only the thread of a one-shot timer gets there
        rw [ownerStep_joined howner (hpc ▸ hthread)]
        have honeShot := hfinished hpc
        exact .joined hscript rfl rfl honeShot (Nat.le_of_add_right_le (hpasses honeShot))
      · rw [ownerStep_joining howner hthread hpc]
        exact .started pc hthread hperiodic hfinished hpasses
          (.inr ⟨hscript, hstops, .inr howner⟩)
  | joined hscript howner hthread hperiodic hpasses =>
    simp only [ownerStep, howner, hscript]
    exact .joined hscript howner hthread hperiodic hpasses

/-- One move of a run. -/
theorem step_phase (move : Move) (hs : Phase millisec periodic stops s) (hquiet : Quiet s) :
    Phase millisec periodic stops (step s move) := by
  cases move with
  | owner => exact ownerStep_phase hs hquiet
  | thread spurious =>
    show Phase _ _ _ ((s.thread.map (threadStep spurious s)).getD s)
    cases hpc : s.thread with
    | none => exact hs
    | some pc => exact threadStep_phase hs hquiet spurious hpc
  | clock now =>
    cases hs with
    | before hscript howner hthread hpasses => exact .before hscript howner hthread hpasses
    | starting hscript hperiodic howner hthread hpasses =>
      exact .starting hscript hperiodic howner hthread hpasses
    | started pc hthread hperiodic hfinished hpasses howner =>
      exact .started pc hthread hperiodic hfinished hpasses howner
    | joined hscript howner hthread hperiodic hpasses =>
      exact .joined hscript howner hthread hperiodic hpasses

end

/-- What every state of a run is like. -/
structure Usual (millisec : Int) (periodic stops : Bool) (s : State) : Prop where
  quiet : Quiet s
  phase : Phase millisec periodic stops s

/-- A timer that has just been made is before the first call of its script. -/
theorem construct_usual (millisec : Int) (periodic stops before : Bool) (now : Int) :
    Usual millisec periodic stops (construct before now (script millisec periodic stops)) :=
  ⟨construct_quiet before now _, .before rfl rfl rfl rfl⟩

/-- Both invariants are kept together. This is the step that the run lemmas repeat. -/
theorem step_usual {millisec : Int} {periodic stops : Bool} (s : State) (move : Move)
    (hs : Usual millisec periodic stops s) : Usual millisec periodic stops (step s move) :=
  ⟨step_quiet s move hs.quiet, step_phase move hs.phase hs.quiet⟩

/-! ### Progress -/

section
variable {millisec : Int} {periodic stops : Bool} {s : State}

/-- The thread and the clock leave the owner alone. -/
theorem step_owner (hquiet : Quiet s) {move : Move} (hmove : move ≠ .owner) :
    (step s move).owner = s.owner ∧ (step s move).script = s.script := by
  cases move with
  | owner => exact absurd rfl hmove
  | thread spurious =>
    cases hpc : s.thread with
    | none => simp [step, hpc]
    | some pc =>
      obtain ⟨pc', n, -, hstep⟩ := threadStep_goes hquiet spurious hpc
      simp [step, hpc, hstep]
  | clock now => exact ⟨rfl, rfl⟩

/-- An owner that has made its calls makes no more. -/
theorem step_script_nil (hquiet : Quiet s) (move : Move) (hs : s.script = []) :
    (step s move).script = [] := by
  by_cases hmove : move = .owner
  · subst hmove
    show (ownerStep s).script = []
    unfold ownerStep
    split
    · rw [hs]
      exact hs
    · exact hs
    · split <;> exact hs
    · exact hs
    · split <;> exact hs
    · exact hs
  · rw [(step_owner hquiet hmove).2, hs]

/-- While the owner is in `stop`, there is a thread, and the owner has no more calls to make. -/
theorem Usual.stopping (hs : Usual millisec periodic stops s)
    (howner : s.owner = .stopping ∨ s.owner = .joining) :
    stops = true ∧ s.script = [] ∧ s.periodic = periodic ∧ ∃ pc, s.thread = some pc := by
  cases hs.phase with
  | before _ hidle => simp [hidle] at howner
  | starting _ _ hstart => rcases hstart with hstart | hstart <;> simp [hstart] at howner
  | started pc hthread hperiodic _ _ hplace =>
    rcases hplace with ⟨hidle, -⟩ | ⟨hscript, hstops, -⟩
    · simp [hidle] at howner
    · exact ⟨hstops, hscript, hperiodic, pc, hthread⟩
  | joined _ hidle => simp [hidle] at howner

/-- A periodic timer that has been stopped is not joined. -/
theorem Usual.not_joined (hs : Usual millisec true stops s) (hscript : s.script = []) :
    s.thread ≠ none ∨ s.owner ≠ .idle := by
  cases hs.phase with
  | before hcalls => simp [hcalls, script] at hscript
  | starting _ _ hstart => rcases hstart with hstart | hstart <;> simp [hstart]
  | started pc hthread => exact .inl (hthread ▸ nofun)
  | joined _ _ _ hperiodic => cases hperiodic

/-- A one-shot timer begins one pass of its loop at most. -/
theorem Usual.passes_le (hs : Usual millisec false stops s) : s.iterations ≤ 1 := by
  cases hs.phase with
  | before _ _ _ hpasses => omega
  | starting _ _ _ _ hpasses => omega
  | started pc _ _ _ hpasses _ => exact Nat.le_of_add_right_le (hpasses rfl)
  | joined _ _ _ _ hpasses => exact hpasses

end

section
variable {millisec : Int} {schedule : Nat → Move} {s : State}

/-- `stop` comes to its join. -/
theorem stopping_leadsTo (hfair : FairToBoth schedule) {periodic stops : Bool} :
    LeadsTo (run step schedule s)
      (fun s => Usual millisec periodic stops s ∧ s.owner = .stopping)
      (fun s => Usual millisec periodic stops s ∧ s.owner = .joining) := by
  refine leadsTo_of_move hfair.1 ?_ ?_
  · rintro s move rfl ⟨hs, howner⟩
    exact ⟨step_usual s _ hs, congrArg State.owner (ownerStep_stopping hs.quiet howner)⟩
  · rintro s move hmove ⟨hs, howner⟩
    exact ⟨step_usual s move hs, (step_owner hs.quiet hmove).1.trans howner⟩

/-- The thread of a one-shot timer ends. -/
theorem joining_leadsTo (hfair : FairToBoth schedule) {stops : Bool} :
    LeadsTo (run step schedule s)
      (fun s => Usual millisec false stops s ∧ s.owner = .joining)
      (fun s => s.owner = .joining ∧ s.thread = some .finished) := by
  refine leadsTo_of_rank hfair.2 (fun s => (s.thread.map toGo).getD 0) ?_ ?_
  · rintro s move ⟨spurious, rfl⟩ ⟨hs, howner⟩ hunfinished
    have hother : Move.thread spurious ≠ .owner := nofun
    refine .inr ⟨⟨step_usual s _ hs, ?_⟩, ?_⟩
    · rw [(step_owner hs.quiet hother).1, howner]
    · obtain ⟨-, -, hperiodic, pc, hpc⟩ := hs.stopping (.inr howner)
      obtain ⟨pc', n, hgoes, hstep⟩ := threadStep_goes hs.quiet spurious hpc
      rw [hperiodic] at hgoes
      have hlt := hgoes.toGo_lt fun h => hunfinished ⟨howner, h ▸ hpc⟩
      simpa [step, hpc, hstep] using hlt
  · rintro s move hmove ⟨hs, howner⟩ hunfinished
    obtain ⟨-, -, -, pc, hpc⟩ := hs.stopping (.inr howner)
    cases move with
    | owner =>
      have hsame : step s .owner = s :=
        ownerStep_joining howner hpc fun h => hunfinished ⟨howner, h ▸ hpc⟩
      rw [hsame]
      exact .inr ⟨⟨hs, howner⟩, Nat.le_refl _⟩
    | thread spurious => exact absurd ⟨spurious, rfl⟩ hmove
    | clock now => exact .inr ⟨⟨step_usual s _ hs, howner⟩, Nat.le_refl _⟩

/-- And the join returns. -/
theorem finished_leadsTo (hfair : FairToBoth schedule) :
    LeadsTo (run step schedule s)
      (fun s => s.owner = .joining ∧ s.thread = some .finished)
      (fun s => s.owner = .idle ∧ s.thread = none) := by
  refine leadsTo_of_move hfair.1 ?_ ?_
  · rintro s move rfl ⟨howner, hthread⟩
    show (ownerStep s).owner = .idle ∧ (ownerStep s).thread = none
    rw [ownerStep_joined howner hthread]
    exact ⟨rfl, rfl⟩
  · rintro s move hmove ⟨howner, hthread⟩
    cases move with
    | owner => exact absurd rfl hmove
    | thread spurious => simp [step, threadStep, howner, hthread]
    | clock now => exact ⟨howner, hthread⟩

/-- How far the owner is from `stop`. -/
def toStop (s : State) : Nat :=
  3 * s.script.length + if s.owner = .launching then 1 else if s.owner = .idle then 0 else 2

/-- The owner comes to clear `_running`. -/
theorem script_leadsTo (hfair : FairToBoth schedule) {periodic : Bool} :
    LeadsTo (run step schedule s)
      (fun s => Usual millisec periodic true s ∧ s.script ≠ [])
      (fun s => Usual millisec periodic true s ∧ s.owner = .stopping) := by
  refine leadsTo_of_rank hfair.1 toStop ?_ ?_
  · rintro s move rfl ⟨hs, hscript⟩ -
    have husual := step_usual s .owner hs
    show (_ ∧ (ownerStep s).owner = .stopping) ∨
      (_ ∧ (ownerStep s).script ≠ []) ∧ toStop (ownerStep s) < toStop s
    cases hs.phase with
    | before hcalls howner hthread hpasses =>
      refine .inr ⟨⟨husual, ?_⟩, ?_⟩
      · simp [ownerStep, howner, hcalls, script]
      · simp [toStop, ownerStep, howner, hcalls, script]
    | starting hcalls hperiodic howner hthread hpasses =>
      rcases howner with howner | howner
      · refine .inr ⟨⟨husual, ?_⟩, ?_⟩
        · simp [ownerStep, howner, hcalls]
        · simp [toStop, ownerStep, howner]
      · refine .inr ⟨⟨husual, ?_⟩, ?_⟩
        · simp [ownerStep, howner, hthread, hcalls]
        · simp [toStop, ownerStep, howner, hthread]
    | started pc hthread hperiodic hfinished hpasses hplace =>
      rcases hplace with ⟨howner, hcalls⟩ | ⟨hnil, -⟩
      · -- the call that is left is `stop`
        refine .inl ⟨husual, ?_⟩
        simp [ownerStep, howner, hcalls]
      · exact absurd hnil hscript
    | joined hnil => exact absurd hnil hscript
  · rintro s move hmove ⟨hs, hscript⟩ -
    obtain ⟨howner, hsame⟩ := step_owner hs.quiet hmove
    have hfar : toStop (step s move) = toStop s := by
      rw [toStop, toStop, howner, hsame]
    exact .inr ⟨⟨step_usual s move hs, hsame ▸ hscript⟩, Nat.le_of_eq hfar⟩

end

/-! ### The result -/

section
variable {millisec : Int} {schedule : Nat → Move} {s : State}

/-- A one-shot timer that is stopped ends. -/
theorem stop_returns (hfair : FairToBoth schedule) {stops : Bool} :
    LeadsTo (run step schedule s)
      (fun s => Usual millisec false stops s ∧ s.owner = .stopping)
      (fun s => s.owner = .idle ∧ s.thread = none) :=
  ((stopping_leadsTo hfair).trans (joining_leadsTo hfair)).trans (finished_leadsTo hfair)

end

/-- In every run in which the owner and the thread move again and again, whatever the clock shows,
the timer does what is asked exactly if it is a one-shot timer that is stopped, or a periodic
timer that is not. -/
theorem fires_and_stops_iff (millisec : Int) (periodic stops before : Bool) (now : Int)
    {schedule : Nat → Move} (hfair : FairToBoth schedule) :
    Meets millisec periodic stops
        (run step schedule (construct before now (script millisec periodic stops))) ↔
      (periodic = true ↔ stops = false) := by
  have husual : ∀ n, Usual millisec periodic stops
      (run step schedule (construct before now (script millisec periodic stops)) n) :=
    run_invariant (construct_usual millisec periodic stops before now) step_usual
  have hnever := never_called before now (script millisec periodic stops) schedule
  cases periodic with
  | false =>
    cases stops with
    | false =>
      -- it ends, but without a call
      refine iff_of_false (fun hmeets => ?_) (by simp)
      obtain ⟨n, -, hcalled⟩ := hmeets.fires rfl rfl
      obtain ⟨time, htime, -⟩ := hcalled n (Nat.le_refl n)
      rw [hnever n] at htime
      cases htime
    | true =>
      -- it ends, and that is all that is asked
      refine iff_of_true ⟨nofun, nofun, fun n howner => ⟨fun m _ => ⟨?_, ?_⟩, ?_⟩⟩ (by simp)
      · rw [hnever n, hnever m]
      · have hpasses := (husual m).passes_le
        omega
      · exact stop_returns hfair n ⟨husual n, howner⟩
  | true =>
    cases stops with
    | false =>
      -- there is no call that could be too early
      refine iff_of_true ⟨nofun, fun _ n k time hcalled => ?_, fun n howner => ?_⟩ (by simp)
      · rw [hnever n] at hcalled
        cases hcalled
      · have hstops := ((husual n).stopping (.inl howner)).1
        cases hstops
    | true =>
      -- `stop` does not come back from its join
      refine iff_of_false (fun hmeets => ?_) (by simp)
      obtain ⟨n, -, -, howner⟩ := script_leadsTo hfair 0 ⟨husual 0, nofun⟩
      obtain ⟨m, hnm, hidle, hnone⟩ := (hmeets.ends n howner).2
      have hnil := run_stays (P := fun s => Usual millisec true true s ∧ s.script = [])
        (fun s move h => ⟨step_usual s move h.1, step_script_nil h.1.quiet move h.2⟩) hnm
        ⟨husual n, ((husual n).stopping (.inl howner)).2.1⟩
      rcases hnil.1.not_joined hnil.2 with hthread | hbusy
      · exact hthread hnone
      · exact hbusy hidle

/-- The owner, the thread and the clock in turn. -/
def inTurn (n : Nat) : Move :=
  if n % 3 = 0 then .owner
  else if n % 3 = 1 then .thread false
  else .clock (n * 1000000000)

/-- A schedule that takes turns comes back to both. -/
theorem inTurn_fair : FairToBoth inTurn := by
  refine ⟨fun n => ⟨3 * n, by omega, ?_⟩, fun n => ⟨3 * n + 1, by omega, false, ?_⟩⟩
  · have hmod : 3 * n % 3 = 0 := by omega
    rw [inTurn, if_pos hmod]
  · have hmod : (3 * n + 1) % 3 = 1 := by omega
    rw [inTurn, if_neg (by omega), if_pos hmod]

/-- The result for a one-shot timer that is stopped. -/
theorem fires_and_stops_iff_one_shot :
    Meets 100 false true (run step inTurn (construct false 0 (script 100 false true))) :=
  (fires_and_stops_iff 100 false true false 0 inTurn_fair).mpr (by simp)

/-- A one-shot timer of 100 ms that is not stopped. Its loop has ended behind the deadline, and
the function has not been called. -/
theorem one_shot_never_fires :
    ∃ trace, trace = run step inTurn (construct false 0 (script 100 false false)) ∧
      FairToBoth inTurn ∧ (trace 17).thread = some .finished ∧ (trace 17).deadline < (trace 17).now ∧
      (trace 17).calls = [] ∧ ¬Meets 100 false false trace := by
  refine ⟨_, rfl, inTurn_fair, by decide, by decide, by decide, fun hmeets => ?_⟩
  obtain ⟨n, -, hcalled⟩ := hmeets.fires rfl rfl
  obtain ⟨time, htime, -⟩ := hcalled n (Nat.le_refl n)
  rw [never_called] at htime
  cases htime

end Brutils.Proofs.Timers.Timer
