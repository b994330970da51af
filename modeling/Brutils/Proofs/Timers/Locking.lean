import Brutils.Proofs.Timers.RecordBook
import Brutils.Timers.Locking
import Mathlib.Data.List.Nodup

/-!
# `Brutils.Proofs.Timers.Locking`: `AddRecord` and its mutex

`AddRecord(time_point)` looks for a free id from `_lastRecordId` on, and the ids wrap around. If
it found none it would have seen all 65536 of them in the book (`mem_of_findId_none`). A book
that is not full has fewer entries, so the loop ends (`findId_some`). The test for a full book
comes before anything is changed, and so does that for a time in the past. So the method adds
exactly one entry, under a new id, or throws and changes nothing (`add_record_fresh`).

`AddRecord(milliseconds)` calls that method in its own critical section. The mutex does not let
the thread in a second time. So it comes back only if it throws before the call, and it agrees
with the other method only where that throws the same: `overloads_agree_iff`.
-/

set_option autoImplicit false

namespace Brutils.Proofs.Timers

open Transition (Reachable)
open Brutils.TimeKeeper
open Mutex (Guarded Stop access locked)

/-! ### A free id -/

section
variable {recordBook : RecordBook} {id : UInt16}

/-- If the search ends without an id, every id that it has come to is in the book. -/
theorem mem_of_findId_none {fuel : Nat} (h : findId recordBook fuel id = none) {k : Nat}
    (hk : k < fuel) : id + UInt16.ofNat k ∈ recordBook := by
  induction fuel generalizing id k with
  | zero => exact absurd hk (Nat.not_lt_zero k)
  | succ fuel ih =>
    rw [findId] at h
    split at h
    · rename_i hmem
      cases k with
      | zero => simpa using hmem
      | succ k =>
        have hnext := ih h (Nat.lt_of_succ_lt_succ hk)
        rw [UInt16.ofNat_add, UInt16.add_comm (UInt16.ofNat k), ← UInt16.add_assoc]
        exact hnext
    · cases h

/-- All ids are that many. -/
theorem card_of_forall_mem (h : ∀ x : UInt16, x ∈ recordBook) : 65536 ≤ recordBook.entries.length := by
  have hnodup : ((List.range 65536).map UInt16.ofNat).Nodup := by
    refine List.Nodup.map_on (fun a ha b hb heq => ?_) List.nodup_range
    have hmod := congrArg UInt16.toNat heq
    rw [UInt16.toNat_ofNat', UInt16.toNat_ofNat', Nat.mod_eq_of_lt (List.mem_range.mp ha),
      Nat.mod_eq_of_lt (List.mem_range.mp hb)] at hmod
    exact hmod
  have hsub : (List.range 65536).map UInt16.ofNat ⊆ recordBook.keys := fun x _ => h x
  have hlength := (List.subperm_of_subset hnodup hsub).length_le
  rw [List.length_map, List.length_range] at hlength
  exact hlength.trans_eq (List.length_map Sigma.fst)

/-- The search ends in a book that is not full. -/
theorem findId_some (hsize : recordBook.entries.length < 65536) (id : UInt16) :
    ∃ id', findId recordBook 65536 id = some id' := by
  cases hfind : findId recordBook 65536 id with
  | some id' => exact ⟨id', rfl⟩
  | none =>
    have hall : ∀ x : UInt16, x ∈ recordBook := by
      intro x
      have hmem := mem_of_findId_none hfind (k := (x - id).toNat) (x - id).toNat_lt
      rwa [UInt16.ofNat_toNat, UInt16.add_comm, UInt16.sub_add_cancel] at hmem
    exact absurd (card_of_forall_mem hall) (not_le.mpr hsize)

end

/-! ### `AddRecord(time_point)` -/

section
variable {s t : State} {now endTP : Int} {record : TimeRecord}

/-- A time point in the past: nothing is changed. -/
theorem addRecordBody_past (h : endTP < now) : addRecordBody now endTP s
    = (.error (.invalid_argument "Given time point is in the past!"), s) := by
  rw [addRecordBody, if_pos h]
  rfl

/-- A full book: nothing is changed. -/
theorem addRecordBody_full (h : ¬endTP < now) (hfull : 65535 = s.recordBook.entries.length) :
    addRecordBody now endTP s = (.error (.runtime_error "TimeKeeper is full!"), s) := by
  rw [addRecordBody, if_neg h]
  show (if 65535 = s.recordBook.entries.length then _ else _ : Code TimeRecord) s = _
  rw [if_pos hfull]
  rfl

/-- So it throws in these two cases. -/
theorem addRecordBody_throws (h : endTP < now ∨ s.recordBook.entries.length = 65535) :
    ∃ failure, failure ≠ .endless ∧ addRecordBody now endTP s = (.error failure, s) := by
  by_cases hpast : endTP < now
  · exact ⟨_, by decide, addRecordBody_past hpast⟩
  · exact ⟨_, by decide, addRecordBody_full hpast (h.resolve_left hpast).symm⟩

/-- Otherwise the search decides. -/
theorem addRecordBody_search (h : ¬endTP < now) (hfull : 65535 ≠ s.recordBook.entries.length) :
    addRecordBody now endTP s = storeRecord now endTP
      (findId s.recordBook 65536 s.lastRecordId) { s with lastRecordId := s.lastRecordId + 1 } := by
  rw [addRecordBody, if_neg h]
  show (if 65535 = s.recordBook.entries.length then _ else _ : Code TimeRecord) s = _
  rw [if_neg hfull]
  rfl

/-- The code returns a record where `addRecord` does, and leaves the same members. -/
theorem addRecordBody_eq (h : addRecord s now endTP = .ok (record, t)) :
    addRecordBody now endTP s = (.ok record, t) := by
  obtain ⟨hpast, hfull, hid, hrecord, rfl⟩ := addRecord_cases h
  rw [addRecordBody_search hpast.not_gt hfull.symm, hid]
  conv_rhs => rw [hrecord]
  rfl

/-- `addRecord` returns a record in a book that is not full. -/
theorem addRecord_ok (hnow : now ≤ endTP) (hsize : s.recordBook.entries.length < 65535) :
    ∃ record t, addRecord s now endTP = .ok (record, t) := by
  obtain ⟨id, hid⟩ := findId_some (hsize.trans (by decide)) s.lastRecordId
  rw [addRecord, if_neg hnow.not_gt, if_neg hsize.ne', hid]
  exact ⟨_, _, rfl⟩

end

/-! ### The size of the book -/

section
variable {s t : State}

/-- `AddRecord` puts a record into a book that is not full. -/
theorem length_add (hs : s.recordBook.entries.length ≤ 65535) (h : Add s t) :
    t.recordBook.entries.length ≤ 65535 := by
  obtain ⟨now, endTP, record, t', recordBook, hadd, horder⟩ := h
  obtain ⟨-, hfull, hid, -, rfl⟩ := addRecord_cases hadd
  have hlength := horder.length_eq
  rw [AList.entries_insert_of_notMem (findId_not_mem hid), List.length_cons] at hlength
  show recordBook.entries.length ≤ 65535
  omega

/-- The assignments of `getClosestRecord` add no entry. -/
theorem length_getClosestRecord {record : TimeRecord} {recordBook recordBook' : RecordBook}
    (h : getClosestRecord recordBook = .ok (record, recordBook')) :
    recordBook'.entries.length = recordBook.entries.length := by
  cases hentries : recordBook.entries with
  | nil =>
    rw [getClosestRecord, hentries] at h
    cases h
  | cons first rest =>
    obtain ⟨record', hcall, -⟩ := getClosestRecord_spec hentries
    rw [hcall] at h
    obtain ⟨-, rfl⟩ := Prod.mk.inj (Except.ok.inj h)
    rw [entries_replace hentries]
    rfl

/-- Erasing does not make the book longer. -/
theorem length_erase_le (recordBook : RecordBook) (id : UInt16) :
    (recordBook.erase id).entries.length ≤ recordBook.entries.length :=
  (List.kerase_sublist id recordBook.entries).length_le

/-- The thread puts in no record. -/
theorem length_afterWait_le (now : Int) (record : TimeRecord) (s : State) :
    (afterWait now record s).recordBook.entries.length ≤ s.recordBook.entries.length := by
  unfold afterWait
  split
  · exact length_erase_le _ _
  · exact le_refl _

/-- Every step keeps the book at 65535 entries at most. -/
theorem length_next (hs : s.recordBook.entries.length ≤ 65535) (h : Next s t) :
    t.recordBook.entries.length ≤ 65535 := by
  cases h with
  | add t h => exact length_add hs h
  | cancel id t h =>
    unfold cancelRecord at h
    split at h
    · obtain rfl := Except.ok.inj h
      exact (length_erase_le _ _).trans hs
    · cases h
  | stop => exact hs
  | thread woken now t h =>
    rcases threadStep_cases h with ⟨record, recordBook, -, hcall, rfl⟩ | ⟨record, -, rfl⟩ |
      ⟨hbook, -⟩
    · exact (length_getClosestRecord hcall).trans_le hs
    · exact (length_afterWait_le now record s).trans hs
    · rw [hbook]
      exact hs

/-- So the book never has more records than there are ids. -/
theorem length_of_reachable (h : Reachable Initial Next s) :
    s.recordBook.entries.length ≤ 65535 := by
  refine Reachable.invariant (P := fun s => s.recordBook.entries.length ≤ 65535) (fun s hs => ?_)
    (fun _ _ _ hs hst => length_next hs hst) h
  rw [hs]
  exact Nat.zero_le _

end

/-- `AddRecord(time_point)` comes back. If the time is not in the past and the book is not full, it
returns a record with a new id and adds just that one. Otherwise it throws, and changes nothing. -/
structure AddsFresh (g : Guarded State) (now endTP : Int) : Prop where
  adds : now ≤ endTP → g.state.recordBook.entries.length < 65535 →
    ∃ record t, addRecordAt now endTP g = (.ok record, ⟨t, false⟩) ∧
      record.id ∉ g.state.recordBook ∧ t.recordBook = g.state.recordBook.insert record.id record
  throws : endTP < now ∨ g.state.recordBook.entries.length = 65535 →
    ∃ failure, failure ≠ .endless ∧ addRecordAt now endTP g = (.error (.threw failure), g)

/-- This is so whenever the mutex is free, whatever the book and `_lastRecordId` are, and no book
that steps lead to has more than 65535 entries. -/
theorem add_record_fresh {g : Guarded State} (hfree : g.held = false) (now endTP : Int) :
    AddsFresh g now endTP ∧
      (Reachable Initial Next g.state → g.state.recordBook.entries.length ≤ 65535) := by
  obtain ⟨s, held⟩ := g
  obtain rfl : held = false := hfree
  have hcode : addRecordAt now endTP ⟨s, false⟩ = access (addRecordBody now endTP) ⟨s, false⟩ :=
    Mutex.locked_access _ rfl
  refine ⟨⟨fun hnow hsize => ?_, fun hthrows => ?_⟩, length_of_reachable⟩
  · obtain ⟨record, t, hadd⟩ := addRecord_ok hnow hsize
    obtain ⟨-, -, hid, -, ht⟩ := addRecord_cases hadd
    refine ⟨record, t, ?_, findId_not_mem hid, ?_⟩
    · rw [hcode, access, addRecordBody_eq hadd]
      rfl
    · rw [ht]
  · obtain ⟨failure, hne, hbody⟩ := addRecordBody_throws hthrows
    refine ⟨failure, hne, ?_⟩
    rw [hcode, access, hbody]
    rfl

/-- A new `TimeKeeper`. -/
def newKeeper : State := ⟨0, ∅, false, true, .loopHead, [], []⟩

/-- A `TimeKeeper` whose counter is at 0 again, with the first record still in its book. -/
def wrappedKeeper : State :=
  { newKeeper with recordBook := AList.insert 0 ⟨0, 0, ⟨0, 5⟩⟩ ∅ }

/-- The result where `_lastRecordId` is taken: the search goes on to the next id. -/
theorem add_record_fresh_wrapped : ∃ record t,
    wrappedKeeper.lastRecordId ∈ wrappedKeeper.recordBook ∧
      addRecordAt 0 10 ⟨wrappedKeeper, false⟩ = (.ok record, ⟨t, false⟩) ∧
      record.id ∉ wrappedKeeper.recordBook ∧ t.recordBook.entries.length = 2 := by
  obtain ⟨⟨hadds, -⟩, -⟩ := add_record_fresh (g := ⟨wrappedKeeper, false⟩) rfl 0 10
  obtain ⟨record, t, hcall, hnew, hbook⟩ := hadds (by decide) (by decide)
  refine ⟨record, t, by decide, hcall, hnew, ?_⟩
  rw [hbook, AList.entries_insert_of_notMem hnew]
  rfl

/-! ### `AddRecord(milliseconds)` -/

section
variable {s : State} {duration : Int}

/-- The tests with a duration that is not zero. -/
theorem testDuration_full (hduration : duration ≠ 0) (hfull : s.recordBook.entries.length = 65535) :
    testDuration duration s = (.error (.runtime_error "TimeKeeper is full!"), s) := by
  rw [testDuration, if_neg hduration]
  show (if 65535 = s.recordBook.entries.length then _ else _ : Code Unit) s = _
  rw [if_pos hfull.symm]
  rfl

/-- The tests in front of `AddRecord` pass when the duration is not zero and there is room in the
book. -/
theorem testDuration_ok (hduration : duration ≠ 0) (hfull : s.recordBook.entries.length ≠ 65535) :
    testDuration duration s = (.ok (), s) := by
  rw [testDuration, if_neg hduration]
  show (if 65535 = s.recordBook.entries.length then _ else _ : Code Unit) s = _
  rw [if_neg hfull.symm]
  rfl

/-- A duration of zero is rejected, and nothing has changed. -/
theorem testDuration_zero : testDuration 0 s
    = (.error (.invalid_argument "Zero is not a valid argument!"), s) := rfl

end

section
variable {g : Guarded State} {duration : Int}

/-- The body of `AddRecord(milliseconds)` when a test throws. -/
theorem addRecordFor_throws (hfree : g.held = false) {failure : Failure}
    (h : testDuration duration g.state = (.error failure, g.state)) (now later : Int) :
    addRecordFor duration now later g = (.error (.threw failure), g) := by
  obtain ⟨s, held⟩ := g
  obtain rfl : held = false := hfree
  rw [addRecordFor, Mutex.locked_free, Mutex.access_bind_error (g := ⟨s, true⟩) h]
  rfl

/-- When no test throws, the thread comes to the mutex again. -/
theorem addRecordFor_relocks (hfree : g.held = false)
    (h : testDuration duration g.state = (.ok (), g.state)) (now later : Int) :
    (addRecordFor duration now later g).1 = .error .relock := by
  obtain ⟨s, held⟩ := g
  obtain rfl : held = false := hfree
  rw [addRecordFor, Mutex.locked_free, Mutex.access_bind_ok (g := ⟨s, true⟩) h, addRecordAt,
    Mutex.locked_held _ rfl]
  rfl

/-- `AddRecord(milliseconds)` comes to its own lock exactly if the duration is not zero and the book
is not full. -/
theorem addRecordFor_relocks_iff (hfree : g.held = false) (now later : Int) :
    (addRecordFor duration now later g).1 = .error .relock ↔
      duration ≠ 0 ∧ g.state.recordBook.entries.length ≠ 65535 := by
  by_cases hduration : duration = 0
  · subst hduration
    rw [addRecordFor_throws hfree testDuration_zero]
    exact iff_of_false nofun fun h => h.1 rfl
  · by_cases hfull : g.state.recordBook.entries.length = 65535
    · rw [addRecordFor_throws hfree (testDuration_full hduration hfull)]
      exact iff_of_false nofun fun h => h.2 hfull
    · exact iff_of_true (addRecordFor_relocks hfree (testDuration_ok hduration hfull) now later)
        ⟨hduration, hfull⟩

/-- A critical section that leaves the mutex alone does not come to it again. -/
theorem locked_access_ne_relock {α : Type} (hfree : g.held = false) (code : Code α) :
    (locked (access code) g).1 ≠ .error .relock := by
  rw [Mutex.locked_access code hfree]
  exact Mutex.access_ne_relock code g

/-- A call comes to its own lock exactly if it is one of `AddRecord(milliseconds)` with a duration
that is not zero, and the book is not full. -/
theorem relocks_iff (hfree : g.held = false) (call : Call) :
    call.Relocks g ↔ g.state.recordBook.entries.length ≠ 65535 ∧
      ∃ duration now later, call = .addRecordFor duration now later ∧ duration ≠ 0 := by
  cases call with
  | addRecordFor duration now later =>
    refine (addRecordFor_relocks_iff hfree now later).trans ⟨?_, ?_⟩
    · rintro ⟨hduration, hfull⟩
      exact ⟨hfull, duration, now, later, rfl, hduration⟩
    · rintro ⟨hfull, _, _, _, ⟨⟩, hduration⟩
      exact ⟨hduration, hfull⟩
  | addRecordAt now endTP =>
    exact iff_of_false (locked_access_ne_relock hfree _) (by rintro ⟨-, _, _, _, ⟨⟩, -⟩)
  | cancelRecordId id =>
    exact iff_of_false (locked_access_ne_relock hfree _) (by rintro ⟨-, _, _, _, ⟨⟩, -⟩)
  | cancelRecordOf record =>
    exact iff_of_false (locked_access_ne_relock hfree _) (by rintro ⟨-, _, _, _, ⟨⟩, -⟩)
  | size => exact iff_of_false (locked_access_ne_relock hfree _) (by rintro ⟨-, _, _, _, ⟨⟩, -⟩)
  | empty => exact iff_of_false (locked_access_ne_relock hfree _) (by rintro ⟨-, _, _, _, ⟨⟩, -⟩)

/-- `AddRecord(milliseconds)` does the same as `AddRecord(time_point)` with the end of the duration,
and leaves the mutex free. -/
def OverloadsAgree (g : Guarded State) (duration now later : Int) : Prop :=
  addRecordFor duration now later g = addRecordAt later (now + duration * 1000000) g ∧
    (addRecordFor duration now later g).2.held = false

/-- What `AddRecord(time_point)` does with a full book. -/
theorem addRecordAt_full (hfree : g.held = false) (hfull : g.state.recordBook.entries.length = 65535)
    (now endTP : Int) : addRecordAt now endTP g = (.error (.threw (if endTP < now then
      .invalid_argument "Given time point is in the past!"
    else .runtime_error "TimeKeeper is full!")), g) := by
  rw [addRecordAt, Mutex.locked_access _ hfree, access]
  by_cases hpast : endTP < now
  · rw [addRecordBody_past hpast, if_pos hpast]
    rfl
  · rw [addRecordBody_full hpast hfull.symm, if_neg hpast]
    rfl

/-- With a full book the two do the same exactly if the end is not in the past. -/
theorem overloadsAgree_full (hfree : g.held = false) (hduration : duration ≠ 0)
    (hfull : g.state.recordBook.entries.length = 65535) (now later : Int) :
    OverloadsAgree g duration now later ↔ later ≤ now + duration * 1000000 := by
  rw [OverloadsAgree, addRecordFor_throws hfree (testDuration_full hduration hfull),
    addRecordAt_full hfree hfull, and_iff_left hfree]
  by_cases hpast : now + duration * 1000000 < later
  · rw [if_pos hpast]
    refine iff_of_false (fun h => ?_) (not_le.mpr hpast)
    cases (Prod.mk.inj h).1
  · rw [if_neg hpast]
    exact iff_of_true rfl (not_lt.mp hpast)

end

/-- Wherever the mutex is free, `AddRecord(milliseconds)` does the same as `AddRecord(time_point)`
exactly if the book is full and the end is not in the past. A call comes to a lock that its own
thread holds exactly if it is one of `AddRecord(milliseconds)` and the book is not full. -/
theorem overloads_agree_iff {g : Guarded State} (hfree : g.held = false) {duration : Int}
    (hduration : duration ≠ 0) (now later : Int) :
    (OverloadsAgree g duration now later ↔
      g.state.recordBook.entries.length = 65535 ∧ later ≤ now + duration * 1000000) ∧
    ∀ call : Call, ¬call.Relocks g ↔ (g.state.recordBook.entries.length = 65535 ∨
      ∀ duration now later, call = .addRecordFor duration now later → duration = 0) := by
  refine ⟨?_, fun call => ?_⟩
  · by_cases hfull : g.state.recordBook.entries.length = 65535
    · rw [overloadsAgree_full hfree hduration hfull, and_iff_right hfull]
    · refine iff_of_false (fun hagree => ?_) fun h => hfull h.1
      -- the one comes to the mutex again, the other does not
      have hrelocks := (addRecordFor_relocks_iff hfree now later).mpr ⟨hduration, hfull⟩
      rw [hagree.1] at hrelocks
      exact locked_access_ne_relock hfree _ hrelocks
  · rw [relocks_iff hfree]
    constructor
    · intro h
      by_contra hnone
      obtain ⟨hfull, hcall⟩ := not_or.mp hnone
      refine hcall fun duration now later heq => ?_
      by_contra hduration
      exact h ⟨hfull, duration, now, later, heq, hduration⟩
    · rintro (hfull | hcall) ⟨hfull', duration, now, later, heq, hduration⟩
      · exact hfull' hfull
      · exact hduration (hcall duration now later heq)

/-- The first record with a duration: the thread comes to its own lock. -/
theorem first_duration_relocks : ¬OverloadsAgree ⟨newKeeper, false⟩ 10 0 0 ∧
    (Call.addRecordFor 10 0 0).Relocks ⟨newKeeper, false⟩ := by
  have hrelocks : (addRecordFor 10 0 0 ⟨newKeeper, false⟩).1 = .error .relock := rfl
  refine ⟨fun hagree => ?_, hrelocks⟩
  rw [hagree.1] at hrelocks
  exact locked_access_ne_relock rfl _ hrelocks

/-- The result for a new `TimeKeeper`. -/
theorem overloads_agree_iff_new : ¬OverloadsAgree ⟨newKeeper, false⟩ 10 0 0 ∧
    ¬Call.size.Relocks ⟨newKeeper, false⟩ := by
  obtain ⟨hagree, hcalls⟩ := overloads_agree_iff (g := ⟨newKeeper, false⟩) rfl
    (show (10 : Int) ≠ 0 by decide) 0 0
  refine ⟨fun h => absurd (hagree.mp h).1 (by decide), (hcalls .size).mpr (Or.inr ?_)⟩
  rintro _ _ _ ⟨⟩

end Brutils.Proofs.Timers
