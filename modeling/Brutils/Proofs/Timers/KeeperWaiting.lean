import Brutils.Lib.Transition
import Brutils.Proofs.Timers.Wakeups
import Brutils.Timers.KeeperWaiting

/-!
# `Brutils.Proofs.Timers.KeeperWaiting`: no call of `AddRecord` goes unnoticed

A run with the mutex, the condition variable and the destructor is a run of the `TimeKeeper` whose
passes are two steps (`keeper_refines`). There is one difference between the two. `run` may have
tested `_running` already when `stop` clears it, and then it looks at the book once more. In the
view of such a state `_running` is still set, and the step of `stop` comes behind the look.

`AddRecord` and `CancelRecord` hold `_mutex` when they notify. So the thread is not between its test
and its sleep, and the notification wakes it (`Sound.quiet`). With what is known of the two-step
runs, a thread that sleeps waits for a record that ends first, or the book is empty
(`sleeps_on_closest`).
-/

set_option autoImplicit false

namespace Brutils.Proofs.Timers.KeeperWaiting

open Transition (Reachable)
open Brutils.TimeKeeper (TimeRecord RecordBook Thread getClosestRecord addRecord cancelRecord afterWait)
open Brutils.KeeperWaiting

/-! ### The steps of the thread -/

/-- A step of the thread. -/
inductive ThreadMoves (s : State) : State → Prop
  | goesOn (h : s.stage = .looping) (hrunning : s.keeper.running = true) :
      ThreadMoves s { s with stage := .entering }
  | ends (h : s.stage = .looping) (hrunning : s.keeper.running = false) :
      ThreadMoves s { s with keeper := { s.keeper with thread := .finished }, stage := .ended }
  | begins (h : s.stage = .entering) :
      ThreadMoves s { s with keeper := beginWait s.keeper, stage := .testing }
  | passes (h : s.stage = .testing) (hpredicate : predicate s.now s.keeper = true) :
      ThreadMoves s { s with stage := .returned }
  | decides (h : s.stage = .testing) (hpredicate : predicate s.now s.keeper = false) :
      ThreadMoves s { s with stage := .decided }
  | sleeps (h : s.stage = .decided) : ThreadMoves s { s with stage := .asleep }
  | timesOut (h : s.stage = .asleep) (hdeadline : deadlineReached s.now s.keeper = true) :
      ThreadMoves s { s with stage := .woken true }
  | tests (h : s.stage = .woken false) : ThreadMoves s { s with stage := .testing }
  | returns (h : s.stage = .woken true) : ThreadMoves s { s with stage := .returned }
  | comesBack (h : s.stage = .returned) :
      ThreadMoves s { s with keeper := endWait s.now s.keeper, stage := .looping }

/-- All that a step of the thread can do, stage by stage. -/
theorem threadStep_moves {s t : State} (h : threadStep s = some t) : ThreadMoves s t := by
  unfold threadStep at h
  cases hstage : s.stage with
  | looping =>
    rw [hstage] at h
    cases hrunning : s.keeper.running with
    | true =>
      rw [← Option.some.inj h, hrunning]
      exact .goesOn hstage hrunning
    | false =>
      rw [← Option.some.inj h, hrunning]
      exact .ends hstage hrunning
  | entering =>
    rw [hstage] at h
    rw [← Option.some.inj h]
    exact .begins hstage
  | testing =>
    rw [hstage] at h
    cases hpredicate : predicate s.now s.keeper with
    | true =>
      rw [← Option.some.inj h, hpredicate]
      exact .passes hstage hpredicate
    | false =>
      rw [← Option.some.inj h, hpredicate]
      exact .decides hstage hpredicate
  | decided =>
    rw [hstage] at h
    rw [← Option.some.inj h]
    exact .sleeps hstage
  | asleep =>
    rw [hstage] at h
    simp only at h
    split at h
    · rename_i hdeadline
      rw [← Option.some.inj h]
      exact .timesOut hstage hdeadline
    · cases h
  -- behind a timeout `wait_until` returns, and otherwise it tests again
  | woken timedOut =>
    rw [hstage] at h
    rw [← Option.some.inj h]
    cases timedOut with
    | true => exact .returns hstage
    | false => exact .tests hstage
  | returned =>
    rw [hstage] at h
    rw [← Option.some.inj h]
    exact .comesBack hstage
  | ended =>
    rw [hstage] at h
    cases h

/-! ### The invariant -/

/-- The thread is in one of its waits. -/
def InWait (thread : Thread) : Prop := thread = .waitingForAny ∨ ∃ record, thread = .waiting record

/-- The wait that the thread is in at a stage. -/
def Fits : Stage → Thread → Prop
  | .looping, thread => thread = .loopHead
  | .entering, thread => thread = .loopHead
  | .ended, thread => thread = .finished
  | _, thread => InWait thread

/-- The invariant. -/
structure Sound (s : State) : Prop where
  fits : Fits s.stage s.keeper.thread
  quiet : s.stage = .decided ∨ s.stage = .asleep → s.keeper.notification = false
  timedOut : s.stage = .woken true → deadlineReached s.now s.keeper = true
  due : s.stage = .returned →
    s.keeper.running = false ∨ s.keeper.notification = true ∨
      deadlineReached s.now s.keeper = true
  running : s.keeper.running = true ↔ s.owner = .alive ∨ s.owner = .clearing
  joined : s.owner = .destroyed → s.stage = .ended

section
variable {s t : State}

/-- A new `TimeKeeper` stands before its loop, with `_running` set and without a notification. -/
theorem initial_sound (h : Initial s) : Sound s := by
  obtain ⟨hkeeper, hstage, howner⟩ := h
  rw [TimeKeeper.Initial] at hkeeper
  constructor <;> simp [hkeeper, hstage, howner, Fits]

/-- The choice of a wait does nothing else but what `getClosestRecord` does to the book. -/
theorem beginWait_frame (keeper : TimeKeeper.State) :
    InWait (beginWait keeper).thread ∧ (beginWait keeper).running = keeper.running ∧
      (beginWait keeper).notification = keeper.notification ∧
      (beginWait keeper).emitted = keeper.emitted := by
  unfold beginWait
  split
  · exact ⟨.inl rfl, rfl, rfl, rfl⟩
  · rename_i hne
    cases hentries : keeper.recordBook.entries with
    | nil => simp [hentries] at hne
    | cons first rest =>
      obtain ⟨record, hcall, -⟩ := getClosestRecord_spec hentries
      rw [hcall]
      exact ⟨.inr ⟨record, rfl⟩, rfl, rfl, rfl⟩

/-- Behind a wait the thread goes back to its loop, with one more timeout emitted at most.
`_running` is not touched. -/
theorem endWait_frame (now : Int) (keeper : TimeKeeper.State) :
    (endWait now keeper).thread = .loopHead ∧ (endWait now keeper).running = keeper.running ∧
      (endWait now keeper).emitted.length ≤ keeper.emitted.length + 1 := by
  unfold endWait
  split
  · refine ⟨afterWait_thread _ _ _, ?_, ?_⟩
    · unfold afterWait
      split <;> rfl
    · unfold afterWait
      split <;> simp
  · exact ⟨rfl, rfl, Nat.le_succ _⟩

/-! #### What a notification does to a stage -/

/-- After a notification the thread does not sleep. -/
@[simp] theorem notify_eq_asleep (stage : Stage) : stage.notify = .asleep ↔ False := by
  cases stage <;> simp [Stage.notify]

/-- A thread that is about to sleep misses a notification. -/
@[simp] theorem notify_eq_decided (stage : Stage) : stage.notify = .decided ↔ stage = .decided := by
  cases stage <;> simp [Stage.notify]

/-- A notification is not taken for the deadline. -/
@[simp] theorem notify_eq_timedOut (stage : Stage) :
    stage.notify = .woken true ↔ stage = .woken true := by
  cases stage <;> simp [Stage.notify]

/-- A thread that has come back from its wait does not notice a notification. -/
@[simp] theorem notify_eq_returned (stage : Stage) :
    stage.notify = .returned ↔ stage = .returned := by
  cases stage <;> simp [Stage.notify]

/-- Neither does one that has returned from `run`. -/
@[simp] theorem notify_eq_ended (stage : Stage) : stage.notify = .ended ↔ stage = .ended := by
  cases stage <;> simp [Stage.notify]

/-- A thread that is notified is still in the same wait. -/
theorem Fits.notify {stage : Stage} {thread : Thread} (h : Fits stage thread) :
    Fits stage.notify thread := by
  cases stage <;> exact h

/-- A call that has changed the book wakes a thread that sleeps. -/
theorem called_sound (hs : Sound s) (hfree : s.stage.holds = false) {keeper : TimeKeeper.State}
    (hthread : keeper.thread = s.keeper.thread) (hrunning : keeper.running = s.keeper.running) :
    Sound { s with keeper := keeper, stage := s.stage.notify } := by
  refine ⟨?_, fun hquiet => ?_, fun htimedOut => ?_, fun hreturned => ?_, ?_, fun hdestroyed => ?_⟩
  · rw [hthread]
    exact hs.fits.notify
  · have hdecided : s.stage = .decided := by simpa using hquiet
    simp [hdecided, Stage.holds] at hfree
  · have hdeadline := hs.timedOut (by simpa using htimedOut)
    rwa [deadlineReached, hthread]
  · have hstage : s.stage = .returned := by simpa using hreturned
    simp [hstage, Stage.holds] at hfree
  · rw [hrunning]
    exact hs.running
  · simpa using hs.joined hdestroyed

/-- What the predicate has found. -/
theorem predicate_true (h : predicate s.now s.keeper = true) :
    s.keeper.running = false ∨ s.keeper.notification = true ∨
      deadlineReached s.now s.keeper = true := by
  unfold predicate at h
  rw [Bool.or_eq_true, Bool.or_eq_true] at h
  rcases h with (hrunning | hnotification) | hdeadline
  · exact .inl (by simpa using hrunning)
  · exact .inr (.inl hnotification)
  · refine .inr (.inr ?_)
    unfold deadlineReached
    cases hthread : s.keeper.thread with
    | waiting record =>
      have hlt : record.interval.endTP < s.now := by simpa [hthread] using hdeadline
      simpa using Int.le_of_lt hlt
    | _ => simp [hthread] at hdeadline

/-- Where the predicate was false, `_running` was set and there was no notification to see. -/
theorem predicate_false (h : predicate s.now s.keeper = false) :
    s.keeper.running = true ∧ s.keeper.notification = false := by
  unfold predicate at h
  rw [Bool.or_eq_false_iff, Bool.or_eq_false_iff] at h
  exact ⟨by simpa using h.1.1, h.1.2⟩

/-- The invariant through a step of the thread. A thread sleeps only where its predicate was false,
with the mutex held from the test to the sleep. It comes back from the wait only where the predicate
was true, or behind the deadline. -/
theorem threadStep_sound (hs : Sound s) (h : threadStep s = some t) : Sound t := by
  have hfits := hs.fits
  have hnot : s.owner ≠ .destroyed := by
    intro hdestroyed
    rw [threadStep, hs.joined hdestroyed] at h
    cases h
  have hmoves := threadStep_moves h
  cases hmoves with
  | goesOn hstage hrunning =>
    rw [hstage] at hfits
    exact ⟨hfits, by simp, by simp, by simp, hs.running, fun hdestroyed => absurd hdestroyed hnot⟩
  | ends hstage hrunning => exact ⟨rfl, by simp, by simp, by simp, hs.running, fun _ => rfl⟩
  | begins hstage =>
    obtain ⟨hwait, hrunning, -⟩ := beginWait_frame s.keeper
    exact ⟨hwait, by simp, by simp, by simp, by rw [← hs.running, hrunning], fun hdestroyed =>
      absurd hdestroyed hnot⟩
  -- the predicate has been tested under the mutex, so what it says still holds
  | passes hstage hpredicate =>
    rw [hstage] at hfits
    exact ⟨hfits, by simp, by simp, fun _ => predicate_true hpredicate, hs.running,
      fun hdestroyed => absurd hdestroyed hnot⟩
  | decides hstage hpredicate =>
    rw [hstage] at hfits
    exact ⟨hfits, fun _ => (predicate_false hpredicate).2, by simp, by simp, hs.running,
      fun hdestroyed => absurd hdestroyed hnot⟩
  -- nothing has changed since the test, as `quiet` says of this stage
  | sleeps hstage =>
    rw [hstage] at hfits
    exact ⟨hfits, fun _ => hs.quiet (.inl hstage), by simp, by simp, hs.running,
      fun hdestroyed => absurd hdestroyed hnot⟩
  | timesOut hstage hdeadline =>
    rw [hstage] at hfits
    exact ⟨hfits, by simp, fun _ => hdeadline, by simp, hs.running,
      fun hdestroyed => absurd hdestroyed hnot⟩
  | tests hstage =>
    rw [hstage] at hfits
    exact ⟨hfits, by simp, by simp, by simp, hs.running, fun hdestroyed => absurd hdestroyed hnot⟩
  | returns hstage =>
    rw [hstage] at hfits
    exact ⟨hfits, by simp, by simp, fun _ => .inr (.inr (hs.timedOut hstage)), hs.running,
      fun hdestroyed => absurd hdestroyed hnot⟩
  | comesBack hstage =>
    obtain ⟨hthread, hrunning, -⟩ := endWait_frame s.now s.keeper
    exact ⟨hthread, by simp, by simp, by simp, by rw [← hs.running, hrunning], fun hdestroyed =>
      absurd hdestroyed hnot⟩

/-- A deadline that has been reached stays so when the clock goes on. -/
theorem deadlineReached_mono {keeper : TimeKeeper.State} {now elapsed : Int} (h : 0 ≤ elapsed)
    (hdeadline : deadlineReached now keeper = true) :
    deadlineReached (now + elapsed) keeper = true := by
  unfold deadlineReached at hdeadline ⊢
  cases hthread : keeper.thread with
  | waiting record =>
    have hle : record.interval.endTP ≤ now := by simpa [hthread] using hdeadline
    simp only [decide_eq_true_eq]
    omega
  | _ => simp [hthread] at hdeadline

/-- The invariant through a step of the owner: `_running` is cleared by the destructor only, and the
join waits until `run` has returned. -/
theorem ownerStep_sound (hs : Sound s) (h : ownerStep s = some t) : Sound t := by
  unfold ownerStep at h
  cases howner : s.owner with
  | clearing =>
    rw [howner] at h
    rw [← Option.some.inj h]
    exact ⟨hs.fits, hs.quiet, hs.timedOut, fun _ => .inl rfl, by simp, by simp⟩
  | joining =>
    rw [howner] at h
    simp only at h
    split at h
    · rename_i hstage
      rw [← Option.some.inj h]
      have hrunning := hs.running
      rw [howner] at hrunning
      exact ⟨hs.fits, hs.quiet, hs.timedOut, hs.due, by simpa using hrunning, fun _ => hstage⟩
    · cases h
  | _ =>
    rw [howner] at h
    cases h

/-- The invariant through any step. A call of `AddRecord` or `CancelRecord` sets the notification
and wakes the thread in the same step, since it holds the mutex to its end. -/
theorem step_sound {op : Op} (hs : Sound s) (h : Step s op t) : Sound t := by
  cases h with
  | add endTP record t recordBook howner hfree h horder =>
    obtain ⟨-, -, -, -, rfl⟩ := addRecord_cases h
    exact called_sound hs hfree rfl rfl
  | cancel id t howner hfree h =>
    unfold cancelRecord at h
    split at h
    · obtain rfl := Except.ok.inj h
      exact called_sound hs hfree rfl rfl
    · cases h
  | thread t h => exact threadStep_sound hs h
  | spurious hstage =>
    have hfits := hs.fits
    rw [hstage] at hfits
    refine ⟨hfits, by simp, by simp, by simp, hs.running, fun hdestroyed => ?_⟩
    have hended := hs.joined hdestroyed
    simp [hstage] at hended
  | destroy howner =>
    have hrunning := hs.running
    rw [howner] at hrunning
    exact ⟨hs.fits, hs.quiet, hs.timedOut, hs.due, by simpa using hrunning, by simp⟩
  | owner t h => exact ownerStep_sound hs h
  | notify howner =>
    have hrunning := hs.running
    rw [howner] at hrunning
    exact ⟨hs.fits.notify, fun hquiet => hs.quiet (.inl (by simpa using hquiet)),
      fun htimedOut => hs.timedOut (by simpa using htimedOut),
      fun hreturned => hs.due (by simpa using hreturned), by simpa using hrunning, by simp⟩
  | tick elapsed =>
    have hnonneg : (0 : Int) ≤ elapsed := Int.natCast_nonneg elapsed
    exact ⟨hs.fits, hs.quiet, fun hstage => deadlineReached_mono hnonneg (hs.timedOut hstage),
      fun hstage => (hs.due hstage).imp_right fun h =>
        h.imp_right fun hdeadline => deadlineReached_mono hnonneg hdeadline, hs.running, hs.joined⟩

/-- So it holds in every run. -/
theorem sound_of_reachable (h : Reachable Initial Next s) : Sound s :=
  h.invariant (fun _ => initial_sound) fun _ _ _ hs hst => hst.elim fun _ => step_sound hs

/-! ### The two-step runs -/

/-- The `TimeKeeper` of the two-step runs. A thread that has tested `_running` and has not yet looked
at the book sees it as it was. -/
def view (s : State) : TimeKeeper.State :=
  { s.keeper with running := s.keeper.running || s.stage == .entering }

/-- As long as `_running` is set, the thread of the two-step runs sees what is there. -/
theorem view_of_running (h : s.keeper.running = true) : view s = s.keeper := by
  unfold view
  rw [h]
  exact congrArg (fun running => { s.keeper with running := running }) h.symm

/-- So it does at every stage but the one behind the test of the loop. -/
theorem view_of_stage (h : s.stage ≠ .entering) : view s = s.keeper := by
  have hstage : (s.stage == .entering) = false := by simpa using h
  unfold view
  rw [hstage, Bool.or_false]

/-- The first step of a pass. -/
theorem begin_step (keeper : TimeKeeper.State) (hthread : keeper.thread = .loopHead)
    (hrunning : keeper.running = true) (woken now : Int) :
    TimeKeeper.threadStep woken now keeper = some (beginWait keeper) := by
  unfold TimeKeeper.threadStep beginWait
  rw [hthread]
  simp only [hrunning, if_true]
  split
  · rfl
  · cases getClosestRecord keeper.recordBook with
    | error failure => rfl
    | ok found => rfl

/-- The second step of a pass. -/
theorem end_step {keeper : TimeKeeper.State} {now : Int} (hwait : InWait keeper.thread)
    (hdue : keeper.running = false ∨ keeper.notification = true ∨
      deadlineReached now keeper = true) :
    TimeKeeper.threadStep now now keeper = some (endWait now keeper) := by
  unfold TimeKeeper.threadStep endWait
  rcases hwait with hany | ⟨record, hrecord⟩
  · rw [hany]
    simp only [deadlineReached, hany, Bool.false_eq_true, or_false] at hdue
    exact if_pos (by simpa using hdue)
  · rw [hrecord]
    simp only [deadlineReached, hrecord, decide_eq_true_eq] at hdue
    exact if_pos (by simpa using hdue)

/-- The look at the book, and the step of `stop` behind it. -/
theorem begins_simulated (hs : Sound s) (hstage : s.stage = .entering) :
    Relation.ReflTransGen TimeKeeper.Next (view s) (beginWait s.keeper) := by
  have hthread : s.keeper.thread = .loopHead := by
    have hfits := hs.fits
    rwa [hstage] at hfits
  have hview : view s = { s.keeper with running := true } := by
    unfold view
    rw [hstage]
    simp
  have hbegin : TimeKeeper.Next (view s) (beginWait { s.keeper with running := true }) := by
    rw [hview]
    exact .thread 0 0 _ (begin_step { s.keeper with running := true } hthread rfl 0 0)
  have hcommutes : beginWait s.keeper =
      { beginWait { s.keeper with running := true } with running := s.keeper.running } := by
    unfold beginWait
    simp only
    split
    · rfl
    · cases getClosestRecord s.keeper.recordBook with
      | error failure => rfl
      | ok found => rfl
  have hset := (beginWait_frame { s.keeper with running := true }).2.1
  rw [hcommutes]
  cases hrunning : s.keeper.running with
  | true =>
    have hsame : { beginWait { s.keeper with running := true } with running := true } =
        beginWait { s.keeper with running := true } :=
      congrArg (fun running => { beginWait { s.keeper with running := true } with
        running := running }) hset.symm
    rw [hsame]
    exact .single hbegin
  | false => exact (Relation.ReflTransGen.single hbegin).tail .stop

/-- A step of the thread is a step of the two-step run, or it changes nothing there. The part before
a wait is made when the book is looked at, and the part behind it when the wait has come back. -/
theorem threadStep_simulated (hs : Sound s) (h : threadStep s = some t) :
    Relation.ReflTransGen TimeKeeper.Next (view s) (view t) := by
  have hfits := hs.fits
  have hmoves := threadStep_moves h
  cases hmoves with
  | goesOn hstage hrunning =>
    have hentering : view { s with stage := .entering } = s.keeper := view_of_running hrunning
    rw [view_of_running hrunning, hentering]
  | ends hstage hrunning =>
    rw [hstage] at hfits
    rw [view_of_stage (by simp [hstage]), view_of_stage (by simp)]
    refine .single (.thread 0 0 _ ?_)
    unfold TimeKeeper.threadStep
    rw [show s.keeper.thread = .loopHead from hfits]
    simp [hrunning]
  | begins hstage =>
    rw [view_of_stage (s := { s with keeper := beginWait s.keeper, stage := .testing }) (by simp)]
    exact begins_simulated hs hstage
  | comesBack hstage =>
    rw [hstage] at hfits
    rw [view_of_stage (by simp [hstage]), view_of_stage (by simp)]
    exact .single (.thread s.now s.now _ (end_step hfits (hs.due hstage)))
  | passes hstage _ => rw [view_of_stage (by simp [hstage]), view_of_stage (by simp)]
  | decides hstage _ => rw [view_of_stage (by simp [hstage]), view_of_stage (by simp)]
  | sleeps hstage => rw [view_of_stage (by simp [hstage]), view_of_stage (by simp)]
  | timesOut hstage _ => rw [view_of_stage (by simp [hstage]), view_of_stage (by simp)]
  | tests hstage => rw [view_of_stage (by simp [hstage]), view_of_stage (by simp)]
  | returns hstage => rw [view_of_stage (by simp [hstage]), view_of_stage (by simp)]

/-- With the stages left out, a notification changes nothing. -/
theorem view_notify (keeper : TimeKeeper.State) (stage : Stage) (owner owner' : OwnerPc)
    (now : Int) : view ⟨keeper, stage.notify, owner, now⟩ = view ⟨keeper, stage, owner', now⟩ := by
  cases stage <;> rfl

/-- Each step is a run of such steps: none for the clock, a wake-up and the moves of the destructor
that are not seen, and otherwise one. -/
theorem step_simulated {op : Op} (hs : Sound s) (h : Step s op t) :
    Relation.ReflTransGen TimeKeeper.Next (view s) (view t) := by
  cases h with
  | add endTP record t recordBook howner hfree h horder =>
    have hrunning := hs.running.mpr (.inl howner)
    have hadd : TimeKeeper.Add s.keeper { t with recordBook := recordBook } :=
      .addRecord s.now endTP record t recordBook h horder
    obtain ⟨-, -, -, -, rfl⟩ := addRecord_cases h
    rw [view_of_running hrunning, view_of_running (by exact hrunning)]
    exact .single (.add _ hadd)
  | cancel id t howner hfree h =>
    have hrunning := hs.running.mpr (.inl howner)
    have hcancel : TimeKeeper.Next s.keeper t := .cancel id t h
    unfold cancelRecord at h
    split at h
    · obtain rfl := Except.ok.inj h
      rw [view_of_running hrunning, view_of_running (by exact hrunning)]
      exact .single hcancel
    · cases h
  | thread t h => exact threadStep_simulated hs h
  -- a wake-up for no reason is none of the steps that are seen
  | spurious hstage => rw [view_of_stage (by simp [hstage]), view_of_stage (by simp)]
  | destroy howner => exact .refl
  -- of the destructor only the clearing of `_running` is seen
  | owner t h =>
    unfold ownerStep at h
    cases howner : s.owner with
    | clearing =>
      rw [howner] at h
      rw [← Option.some.inj h]
      by_cases hstage : s.stage = .entering
      · -- the thread will look at the book first
        have hrunning := hs.running.mpr (.inr howner)
        have hsame :
            view s = view ⟨{ s.keeper with running := false }, s.stage, .notifying, s.now⟩ := by
          unfold view
          rw [hrunning, hstage]
          rfl
        rw [hsame]
      · rw [view_of_stage hstage, view_of_stage (by exact hstage)]
        exact .single .stop
    | joining =>
      rw [howner] at h
      simp only at h
      split at h
      · rw [← Option.some.inj h]
        exact .refl
      · cases h
    | _ =>
      rw [howner] at h
      cases h
  | notify howner =>
    rw [view_notify s.keeper s.stage .joining s.owner s.now]
  | tick elapsed => exact .refl

/-- A new `TimeKeeper` is one of the two-step runs. -/
theorem initial_view (h : Initial s) : TimeKeeper.Initial (view s) := by
  rw [view_of_stage (by simp [h.2.1])]
  exact h.1

/-- A run with the mutex, the condition variable and the destructor is a run of the `TimeKeeper`
whose passes are two steps. -/
theorem keeper_refines (h : Reachable Initial Next s) :
    Reachable TimeKeeper.Initial TimeKeeper.Next (view s) :=
  h.simulated view (fun _ => initial_view) fun _ _ hs hst =>
    hst.elim fun _ => step_simulated (sound_of_reachable hs)

/-- In every run: while the thread sleeps, or is about to, it waits for a record and no record of
the book ends before that one, or the book is empty. -/
theorem sleeps_on_closest (h : Reachable Initial Next s)
    (hasleep : s.stage = .decided ∨ s.stage = .asleep) :
    (∃ record, s.keeper.thread = .waiting record ∧
      ∀ it ∈ s.keeper.recordBook.entries, record.interval.endTP ≤ it.2.interval.endTP) ∨
    (s.keeper.thread = .waitingForAny ∧ s.keeper.recordBook = ∅) := by
  have hs := sound_of_reachable h
  have hquiet := hs.quiet hasleep
  have hmissed : NothingMissed s.keeper := by
    have hview : view s = s.keeper :=
      view_of_stage (by rcases hasleep with hstage | hstage <;> simp [hstage])
    rw [← hview]
    exact (keeper_refines h).invariant (fun _ => initial_nothingMissed)
      fun _ _ _ hs hst => next_nothingMissed hs hst
  have hwait : InWait s.keeper.thread := by
    have hfits := hs.fits
    rcases hasleep with hstage | hstage
    · rwa [hstage] at hfits
    · rwa [hstage] at hfits
  rcases hwait with hany | ⟨record, hrecord⟩
  · exact .inr ⟨hany, AList.ext (hmissed.waitingForAny hany hquiet)⟩
  · exact .inl ⟨record, hrecord, hmissed.waiting record hrecord hquiet⟩

end

/-- A new `TimeKeeper` at the time 0. -/
def start : State := ⟨⟨0, ∅, false, true, .loopHead, [], []⟩, .looping, .alive, 0⟩

/-- The `TimeKeeper` of the run below is new. -/
theorem start_initial : Initial start := ⟨rfl, rfl, rfl⟩

/-- A `TimeKeeper` with one record, whose thread sleeps until that one ends. -/
def sleeping : State where
  keeper :=
    { lastRecordId := 1
      recordBook := AList.singleton 0 ⟨0, 0, ⟨0, 10⟩⟩
      notification := false
      running := true
      thread := .waiting ⟨0, 0, ⟨0, 10⟩⟩
      issued := [⟨0, 0, ⟨0, 10⟩⟩]
      emitted := [] }
  stage := .asleep
  owner := .alive
  now := 0

/-- The thread sleeps without a record, is woken for the first one, and sleeps on it. -/
theorem sleeping_reachable : Reachable Initial Next sleeping := by
  have h : Reachable Initial Next start := .start start_initial
  have h := h.step ⟨_, .thread _ rfl⟩
  have h := h.step ⟨_, .thread _ rfl⟩
  have h := h.step ⟨_, .thread _ rfl⟩
  have h := h.step ⟨_, .thread _ rfl⟩
  have h := h.step ⟨_, .add 10 _ _ _ rfl rfl rfl (.refl _)⟩
  have h := h.step ⟨_, .thread _ rfl⟩
  have h := h.step ⟨_, .thread _ rfl⟩
  have h := h.step ⟨_, .thread _ rfl⟩
  have h := h.step ⟨_, .thread _ rfl⟩
  have h := h.step ⟨_, .thread _ rfl⟩
  have h := h.step ⟨_, .thread _ rfl⟩
  exact h.step ⟨_, .thread _ rfl⟩

/-- The result for this `TimeKeeper`. -/
theorem keeper_refines_one : Reachable TimeKeeper.Initial TimeKeeper.Next (view sleeping) :=
  keeper_refines sleeping_reachable

/-- The result for its thread. -/
theorem sleeps_on_closest_one :
    (∃ record, sleeping.keeper.thread = .waiting record ∧
      ∀ it ∈ sleeping.keeper.recordBook.entries,
        record.interval.endTP ≤ it.2.interval.endTP) ∨
    (sleeping.keeper.thread = .waitingForAny ∧ sleeping.keeper.recordBook = ∅) :=
  sleeps_on_closest sleeping_reachable (.inr rfl)

end Brutils.Proofs.Timers.KeeperWaiting
