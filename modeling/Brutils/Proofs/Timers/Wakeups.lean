import Brutils.Proofs.Timers.RecordBook

/-!
# `Brutils.Proofs.Timers.Wakeups`: what the waiting thread of a `TimeKeeper` may miss

While `run` waits for the end of a record, it has a copy of one that ended first when the wait
began. `NothingMissed` says that this is still so unless `_notification` is set, and that the
thread waits without an end only for a book that is empty.

A caller that changes the book sets `_notification` (`add_notifies`, `cancelRecord_notifies`),
and the thread clears it only when it goes back to the head of the loop. There it looks at
the whole book again before it waits (`threadStep_nothingMissed`). So `never_sleeps_past`
holds in every run, also after `getClosestRecord` has overwritten a record, since that puts no
earlier end into the book.
-/

set_option autoImplicit false

namespace Brutils.Proofs.Timers

open Transition (Reachable)
open Brutils.TimeKeeper

/-- If the thread waits and nobody has set `_notification`, no record ends before the one it
waits for, and the book is empty if it waits for none. -/
structure NothingMissed (s : State) : Prop where
  waiting : ∀ record, s.thread = .waiting record → s.notification = false →
    ∀ it ∈ s.recordBook.entries, record.interval.endTP ≤ endOf it
  waitingForAny : s.thread = .waitingForAny → s.notification = false → s.recordBook.entries = []

section
variable {s t : State}

/-- A thread that has been notified misses nothing. -/
theorem nothingMissed_of_notification (h : t.notification = true) : NothingMissed t where
  waiting record _ hquiet := by
    rw [h] at hquiet
    cases hquiet
  waitingForAny _ hquiet := by
    rw [h] at hquiet
    cases hquiet

/-- A thread that is in none of its waits misses nothing. -/
theorem nothingMissed_of_awake (h : ∀ record, t.thread ≠ .waiting record)
    (hany : t.thread ≠ .waitingForAny) : NothingMissed t where
  waiting record hwaiting _ := absurd hwaiting (h record)
  waitingForAny hwaiting _ := absurd hwaiting hany

/-- A new record is notified of. -/
theorem add_notifies (h : Add s t) : t.notification = true := by
  obtain ⟨now, endTP, record, t', recordBook, hadd, -⟩ := h
  obtain ⟨-, -, -, -, rfl⟩ := addRecord_cases hadd
  rfl

/-- A cancelled record is notified of. -/
theorem cancelRecord_notifies {id : UInt16} (h : cancelRecord s id = .ok t) :
    t.notification = true := by
  unfold cancelRecord at h
  split at h
  · obtain rfl := Except.ok.inj h
    rfl
  · cases h

/-- `getClosestRecord` leaves no record in the book that ends before the one it returns. -/
theorem getClosestRecord_leaves {recordBook recordBook' : RecordBook} {record : TimeRecord}
    (h : getClosestRecord recordBook = .ok (record, recordBook')) :
    ∀ it ∈ recordBook'.entries, record.interval.endTP ≤ endOf it := by
  cases hentries : recordBook.entries with
  | nil =>
    rw [getClosestRecord, hentries] at h
    cases h
  | cons first rest =>
    obtain ⟨record', hcall, -, hleast, -⟩ := getClosestRecord_spec hentries
    rw [hcall] at h
    obtain ⟨rfl, rfl⟩ := Prod.mk.inj (Except.ok.inj h)
    rw [entries_replace hentries]
    intro it hit
    rcases List.mem_cons.mp hit with rfl | hold
    -- the first entry holds the record itself, and the others what they held before
    · exact le_refl _
    · exact hleast it (by rw [hentries]; exact List.mem_cons_of_mem _ hold)

/-- A step of the thread ends a wait, or begins one after a look at the whole book. -/
theorem threadStep_nothingMissed {woken now : Int} (h : threadStep woken now s = some t) :
    NothingMissed t := by
  rcases threadStep_cases h with ⟨record, recordBook, -, hcall, rfl⟩ | ⟨record, -, rfl⟩ |
    ⟨hbook, -, hwaiting, hany⟩
  · refine ⟨fun record' hrecord _ => ?_, fun hany _ => nomatch hany⟩
    obtain rfl := Thread.waiting.inj hrecord
    exact getClosestRecord_leaves hcall
  · refine nothingMissed_of_awake (fun record' => ?_) ?_
    · rw [afterWait_thread]
      exact Thread.noConfusion
    · rw [afterWait_thread]
      exact Thread.noConfusion
  · refine ⟨fun record hrecord _ => absurd hrecord (hwaiting record), fun hthread _ => ?_⟩
    rw [hbook]
    exact hany hthread

/-- The step lemma: whatever changes the book notifies the thread. -/
theorem next_nothingMissed (hs : NothingMissed s) (h : Next s t) : NothingMissed t := by
  cases h with
  | add t h => exact nothingMissed_of_notification (add_notifies h)
  | cancel id t h => exact nothingMissed_of_notification (cancelRecord_notifies h)
  | thread woken now t h => exact threadStep_nothingMissed h
  | stop => exact ⟨hs.waiting, hs.waitingForAny⟩

end

/-- At the start there is nothing to miss. -/
theorem initial_nothingMissed {s : State} (h : Initial s) : NothingMissed s := by
  rw [Initial] at h
  subst h
  exact nothingMissed_of_awake (fun _ => Thread.noConfusion) Thread.noConfusion

/-- In every run: while the thread waits for the end of a record and `_notification` is not set,
no record of the book ends earlier. While it waits without an end and `_notification` is not
set, the book is empty. -/
theorem never_sleeps_past {s : State} (h : Reachable Initial Next s) :
    (∀ record, s.thread = .waiting record → s.notification = false →
      ∀ it ∈ s.recordBook.entries, record.interval.endTP ≤ it.2.interval.endTP) ∧
    (s.thread = .waitingForAny → s.notification = false → s.recordBook = ∅) := by
  have hmissed : NothingMissed s := h.invariant (fun _ => initial_nothingMissed)
    fun _ _ _ hs hst => next_nothingMissed hs hst
  exact ⟨hmissed.waiting, fun hany hquiet => AList.ext (hmissed.waitingForAny hany hquiet)⟩

/-- The result for a run that waits for the earlier of two records: the first notification is
cleared, and the thread waits again. -/
theorem never_sleeps_past_two_records :
    ∃ s : State, s.thread = .waiting ⟨0, 0, ⟨0, 10⟩⟩ ∧ s.notification = false ∧
      s.recordBook.entries.length = 2 ∧
      ∀ it ∈ s.recordBook.entries, 10 ≤ it.2.interval.endTP := by
  have hstarted : Reachable Initial Next _ := .start rfl
  have hadded := ((hstarted.step (.add _ (.addRecord 0 10 _ _ _ rfl (.refl _)))).step
    (.add _ (.addRecord 0 20 _ _ _ rfl (.refl _))))
  have hwaits := ((hadded.step (.thread 0 0 _ rfl)).step (.thread 0 0 _ rfl)).step
    (.thread 0 0 _ rfl)
  exact ⟨_, rfl, rfl, rfl, (never_sleeps_past hwaits).1 _ rfl rfl⟩

end Brutils.Proofs.Timers
