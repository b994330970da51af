import Brutils.Lib.Least
import Brutils.Lib.Transition
import Brutils.Timers.TimeKeeper

/-!
# `Brutils.Proofs.Timers.RecordBook`: when `_recordBook` keeps its records

`getClosestRecord` finds a record that ends first, but it finds it by copying every closer
record over the record of the first entry. So it leaves the book as it is exactly if no record
ends before that of the first entry (`getClosestRecord_keeps_iff`). Otherwise the first entry
loses its record for good, and holds one with the id of another entry.

`RepOk` is the invariant that such a call breaks: every entry holds the record that
`AddRecord` has returned for its key. All other steps keep it (`add_repOk`,
`cancelRecord_repOk`, `afterWait_repOk`). `record_book_kept` is the result for every run in
which `getClosestRecord` is called only when the first entry ends first.
-/

set_option autoImplicit false

namespace Brutils.Proofs.Timers

open Transition (Reachable)
open Brutils.TimeKeeper

/-- The end of the record of an entry. -/
def endOf (it : Σ _ : UInt16, TimeRecord) : Int := it.2.interval.endTP

/-- No record ends before that of the first entry. -/
def FirstEndsFirst (recordBook : RecordBook) : Prop :=
  ∀ first ∈ recordBook.entries.head?, ∀ it ∈ recordBook.entries, endOf first ≤ endOf it

/-- Every entry holds the record that `AddRecord` has returned last for its key, and the id of
that record is the key. -/
def RepOk (s : State) : Prop :=
  ∀ it ∈ s.recordBook.entries,
    it.2.id = it.1 ∧ s.issued.find? (fun record => record.id = it.1) = some it.2

/-! ### `getClosestRecord` -/

section
variable {recordBook : RecordBook} {first : Σ _ : UInt16, TimeRecord}
  {rest : List (Σ _ : UInt16, TimeRecord)}

/-- Two entries with one key are one entry. -/
theorem entry_eq {it it' : Σ _ : UInt16, TimeRecord} (hit : it ∈ recordBook.entries)
    (hit' : it' ∈ recordBook.entries) (hkey : it.1 = it'.1) : it = it' :=
  recordBook.nodupKeys.eq_of_fst_eq hit hit' hkey

/-- An assignment through the reference changes the record of the first entry only. -/
theorem entries_replace (hentries : recordBook.entries = first :: rest) (record : TimeRecord) :
    (recordBook.replace first.1 record).entries = ⟨first.1, record⟩ :: rest := by
  show List.kreplace first.1 record recordBook.entries = _
  rw [hentries, List.kreplace]
  exact List.lookmap_cons_some _ rest (if_pos rfl)

/-- The book stays as it is when the record of the first entry is assigned to itself. -/
theorem replace_self (hentries : recordBook.entries = first :: rest) :
    recordBook.replace first.1 first.2 = recordBook :=
  AList.ext (by rw [entries_replace hentries, hentries])

/-- The loop of `getClosestRecord` keeps the record that ends first. -/
theorem foldl_assignCloser (record : TimeRecord) (its : List (Σ _ : UInt16, TimeRecord)) :
    its.foldl assignCloser record
      = (its.map Sigma.snd).foldl (Least.keepLeast fun r => r.interval.endTP) record := by
  rw [List.foldl_map]
  rfl

/-- What a call of `getClosestRecord` does: the record that it returns is one of the book's that
ends first, and it is now the record of the first entry. -/
theorem getClosestRecord_spec (hentries : recordBook.entries = first :: rest) :
    ∃ record, getClosestRecord recordBook = .ok (record, recordBook.replace first.1 record) ∧
      (∃ it ∈ recordBook.entries, it.2 = record) ∧
      (∀ it ∈ recordBook.entries, record.interval.endTP ≤ endOf it) ∧
      (FirstEndsFirst recordBook → record = first.2) := by
  let least := (first :: rest).foldl assignCloser first.2
  have hleast : least = ((first :: rest).map Sigma.snd).foldl
      (Least.keepLeast fun r => r.interval.endTP) first.2 := foldl_assignCloser _ _
  refine ⟨least, ?_, ?_, fun it hit => ?_, fun hfirst => ?_⟩
  · rw [getClosestRecord, hentries]
  · have hmem := Least.foldl_keepLeast_mem (fun r : TimeRecord => r.interval.endTP) first.2
      ((first :: rest).map Sigma.snd)
    rw [← hleast] at hmem
    rw [hentries]
    rcases List.mem_cons.mp hmem with heq | hmem
    · exact ⟨first, List.mem_cons_self, heq.symm⟩
    · exact List.mem_map.mp hmem
  · rw [hleast]
    rw [hentries] at hit
    have hmem : it.2 ∈ (first :: rest).map Sigma.snd := List.mem_map_of_mem hit
    exact Least.foldl_keepLeast_le (fun r : TimeRecord => r.interval.endTP) first.2 _
      (List.mem_cons_of_mem first.2 hmem)
  · rw [hleast]
    refine Least.foldl_keepLeast_eq_self _ _ _ fun record hrecord => ?_
    obtain ⟨it, hit, rfl⟩ := List.mem_map.mp hrecord
    rw [FirstEndsFirst, hentries] at hfirst
    exact hfirst first rfl it hit

/-- `getClosestRecord` returns a record that ends first. It changes no entry exactly if that of
the first entry is one. -/
theorem getClosestRecord_keeps_iff {record : TimeRecord} {recordBook' : RecordBook}
    (h : getClosestRecord recordBook = .ok (record, recordBook')) :
    (∀ it ∈ recordBook.entries, record.interval.endTP ≤ endOf it) ∧
      (recordBook' = recordBook ↔ FirstEndsFirst recordBook) := by
  cases hentries : recordBook.entries with
  | nil =>
    rw [getClosestRecord, hentries] at h
    cases h
  | cons first rest =>
    obtain ⟨record', hcall, -, hleast, hsame⟩ := getClosestRecord_spec hentries
    rw [hcall] at h
    obtain ⟨rfl, rfl⟩ := Prod.mk.inj (Except.ok.inj h)
    rw [← hentries]
    -- the entry holds what it is assigned, so it is unchanged only if that is its own record
    refine ⟨hleast, fun hkept => ?_, fun hfirst => ?_⟩
    · have hrecord : record' = first.2 := by
        have hboth := entries_replace hentries record'
        rw [hkept, hentries] at hboth
        have hhead := (List.cons.inj hboth).1
        rw [hhead]
      intro first' hfirst' it hit
      rw [hentries] at hfirst'
      obtain rfl := Option.some.inj hfirst'
      rw [hrecord] at hleast
      exact hleast it hit
    · rw [hsame hfirst]
      exact replace_self hentries

end

/-! ### The steps -/

/-- The search for an id ends at one that is free. -/
theorem findId_not_mem {recordBook : RecordBook} {fuel : Nat} {start id : UInt16}
    (h : findId recordBook fuel start = some id) : id ∉ recordBook := by
  induction fuel generalizing start with
  | zero => cases h
  | succ fuel ih =>
    rw [findId] at h
    split at h
    · exact ih h
    · rename_i hfree
      rw [← Option.some.inj h]
      exact hfree

section
variable {s t : State}

/-- What a call of `AddRecord` that returns a record does. -/
theorem addRecord_cases {now endTP : Int} {record : TimeRecord}
    (h : addRecord s now endTP = .ok (record, t)) :
    now ≤ endTP ∧ s.recordBook.entries.length ≠ 65535 ∧
      findId s.recordBook 65536 s.lastRecordId = some record.id ∧
      record = ⟨record.id, (endTP - now).tdiv 1000000, ⟨now, endTP⟩⟩ ∧
      t = { s with
        lastRecordId := s.lastRecordId + 1
        recordBook := s.recordBook.insert record.id record
        notification := true
        issued := record :: s.issued } := by
  unfold addRecord at h
  split at h
  · cases h
  · rename_i hpast
    split at h
    · cases h
    · rename_i hfull
      split at h
      · cases h
      · rename_i id hid
        obtain ⟨rfl, rfl⟩ := Prod.mk.inj (Except.ok.inj h)
        exact ⟨not_lt.mp hpast, fun heq => hfull heq.symm, hid, rfl, rfl⟩

/-- `AddRecord` puts its record into the book, and leaves the thread where it is. -/
theorem add_entries (h : Add s t) :
    ∃ record, record.id ∉ s.recordBook ∧ t.issued = record :: s.issued ∧
      t.recordBook.entries.Perm (⟨record.id, record⟩ :: s.recordBook.entries) ∧
      t.thread = s.thread ∧ t.running = s.running ∧ t.emitted = s.emitted := by
  obtain ⟨now, endTP, record, t', recordBook, hadd, horder⟩ := h
  obtain ⟨-, -, hid, -, rfl⟩ := addRecord_cases hadd
  have hfree := findId_not_mem hid
  refine ⟨record, hfree, rfl, ?_, rfl, rfl, rfl⟩
  rw [AList.entries_insert_of_notMem hfree] at horder
  exact horder

/-- The invariant looks at the book and at the records issued, and holds of a smaller book. -/
theorem RepOk.of_subset (hs : RepOk s) (hissued : t.issued = s.issued)
    (hbook : ∀ it ∈ t.recordBook.entries, it ∈ s.recordBook.entries) : RepOk t := by
  intro it hit
  rw [hissued]
  exact hs it (hbook it hit)

/-- The entries that are left after an erasure were there before. -/
theorem mem_of_mem_erase {recordBook : RecordBook} {id : UInt16}
    {it : Σ _ : UInt16, TimeRecord} (h : it ∈ (recordBook.erase id).entries) :
    it ∈ recordBook.entries :=
  (List.kerase_sublist id recordBook.entries).subset h

/-- `AddRecord` puts in one record under a new id. -/
theorem add_repOk (hs : RepOk s) (h : Add s t) : RepOk t := by
  obtain ⟨record, hfree, hissued, hentries, -⟩ := add_entries h
  intro it hit
  rw [hissued]
  rcases List.mem_cons.mp (hentries.mem_iff.mp hit) with rfl | hold
  · exact ⟨rfl, List.find?_cons_of_pos (by simp)⟩
  · obtain ⟨hid, hfind⟩ := hs it hold
    refine ⟨hid, ?_⟩
    -- the new record has another id, since its id was free
    have hne : record.id ≠ it.1 := by
      rintro heq
      rw [heq] at hfree
      exact hfree (List.mem_map_of_mem hold)
    rw [List.find?_cons_of_neg (by simpa using hne)]
    exact hfind

/-- `CancelRecord` takes out one record, and does not touch the thread. -/
theorem cancelRecord_repOk (hs : RepOk s) {id : UInt16} (h : cancelRecord s id = .ok t) :
    RepOk t ∧ t.thread = s.thread := by
  unfold cancelRecord at h
  split at h
  · obtain rfl := Except.ok.inj h
    exact ⟨hs.of_subset rfl fun it => mem_of_mem_erase, rfl⟩
  · cases h

/-- The thread erases the record that has ended. -/
theorem afterWait_repOk (hs : RepOk s) (now : Int) (record : TimeRecord) :
    RepOk (afterWait now record s) := by
  unfold afterWait
  split
  · exact hs.of_subset rfl fun it => mem_of_mem_erase
  · exact hs.of_subset rfl fun it hit => hit

/-- What a step of the thread does: it calls `getClosestRecord`, or it goes on after the wait
for the end of a record, or it leaves the book alone and has no record to wait for. In the last
case it waits for a first record only if the book is empty. -/
theorem threadStep_cases {woken now : Int} (h : threadStep woken now s = some t) :
    (∃ record recordBook, s.thread = .loopHead ∧
      getClosestRecord s.recordBook = .ok (record, recordBook) ∧
      t = { s with recordBook := recordBook, thread := .waiting record }) ∨
    (∃ record, s.thread = .waiting record ∧ t = afterWait now record s) ∨
    (t.recordBook = s.recordBook ∧ t.issued = s.issued ∧ (∀ record, t.thread ≠ .waiting record) ∧
      (t.thread = .waitingForAny → s.recordBook.entries = [])) := by
  unfold threadStep at h
  cases hthread : s.thread with
  | loopHead =>
    rw [hthread] at h
    simp only at h
    split at h
    · split at h
      · rename_i hempty
        obtain rfl := Option.some.inj h
        exact Or.inr (Or.inr ⟨rfl, rfl, fun _ => Thread.noConfusion,
          fun _ => List.isEmpty_iff.mp hempty⟩)
      · split at h
        · obtain rfl := Option.some.inj h
          exact Or.inr (Or.inr ⟨rfl, rfl, fun _ => Thread.noConfusion, Thread.noConfusion⟩)
        · rename_i record recordBook hcall
          exact Or.inl ⟨record, recordBook, rfl, hcall, (Option.some.inj h).symm⟩
    · obtain rfl := Option.some.inj h
      exact Or.inr (Or.inr ⟨rfl, rfl, fun _ => Thread.noConfusion, Thread.noConfusion⟩)
  | waitingForAny =>
    rw [hthread] at h
    simp only at h
    split at h
    · obtain rfl := Option.some.inj h
      exact Or.inr (Or.inr ⟨rfl, rfl, fun _ => Thread.noConfusion, Thread.noConfusion⟩)
    · cases h
  | waiting record =>
    rw [hthread] at h
    simp only at h
    split at h
    · exact Or.inr (Or.inl ⟨record, rfl, (Option.some.inj h).symm⟩)
    · cases h
  | finished => rw [hthread] at h; cases h
  | terminated => rw [hthread] at h; cases h

/-- After the wait the thread is at the head of the loop. -/
theorem afterWait_thread (now : Int) (record : TimeRecord) (s : State) :
    (afterWait now record s).thread = .loopHead := by
  unfold afterWait
  split
  · rfl
  · rfl

/-- If this step is a call of `getClosestRecord`, no record ends before that of the first entry. -/
def CallsInOrder (s t : State) : Prop :=
  ∀ record, s.thread = .loopHead → t.thread = .waiting record → FirstEndsFirst s.recordBook

/-- A step that leaves the thread where it is makes no call. -/
theorem callsInOrder_of_thread_eq (h : t.thread = s.thread) : CallsInOrder s t := by
  intro record hloop hwaiting
  rw [h, hloop] at hwaiting
  cases hwaiting

/-- A call of `getClosestRecord` keeps the invariant exactly if the first entry ends first. -/
theorem getClosestRecord_repOk_iff (hs : RepOk s) {record : TimeRecord}
    {recordBook : RecordBook} (hcall : getClosestRecord s.recordBook = .ok (record, recordBook)) :
    RepOk { s with recordBook := recordBook, thread := .waiting record } ↔
      FirstEndsFirst s.recordBook := by
  rw [← (getClosestRecord_keeps_iff hcall).2]
  refine ⟨fun ht => ?_, fun hsame => hs.of_subset rfl (by rw [hsame]; exact fun _ hit => hit)⟩
  cases hentries : s.recordBook.entries with
  | nil =>
    rw [getClosestRecord, hentries] at hcall
    cases hcall
  | cons first rest =>
    obtain ⟨record', hcall', ⟨it, hit, hitRecord⟩, -, -⟩ := getClosestRecord_spec hentries
    rw [hcall'] at hcall
    obtain ⟨rfl, rfl⟩ := Prod.mk.inj (Except.ok.inj hcall)
    have hfirst : first ∈ s.recordBook.entries := by
      rw [hentries]
      exact List.mem_cons_self
    -- the record of the first entry has the id of the entry that it was copied from
    have hid : record'.id = first.1 := by
      refine (ht ⟨first.1, record'⟩ ?_).1
      rw [entries_replace hentries]
      exact List.mem_cons_self
    rw [← hitRecord, (hs it hit).1] at hid
    -- so the two are one entry, and the assignment was to itself
    have heq := entry_eq hit hfirst hid
    rw [← hitRecord, heq]
    exact replace_self hentries

/-- One step of the whole keeps the invariant exactly if it is no call of `getClosestRecord`
with a first entry that another ends before. -/
theorem next_repOk_iff (hs : RepOk s) (h : Next s t) : RepOk t ↔ CallsInOrder s t := by
  cases h with
  -- the steps of the callers make no call of `getClosestRecord`
  | add t h =>
    obtain ⟨-, -, -, -, hthread, -⟩ := add_entries h
    exact iff_of_true (add_repOk hs h) (callsInOrder_of_thread_eq hthread)
  | cancel id t h =>
    obtain ⟨hrep, hthread⟩ := cancelRecord_repOk hs h
    exact iff_of_true hrep (callsInOrder_of_thread_eq hthread)
  | stop => exact iff_of_true hs (callsInOrder_of_thread_eq rfl)
  | thread woken now t h =>
    rcases threadStep_cases h with ⟨record, recordBook, hloop, hcall, rfl⟩ |
      ⟨record, hwaiting, rfl⟩ | ⟨hbook, hissued, hthread, -⟩
    · rw [getClosestRecord_repOk_iff hs hcall]
      exact ⟨fun hfirst _ _ _ => hfirst, fun horder => horder record hloop rfl⟩
    · refine iff_of_true (afterWait_repOk hs now record) fun record' _ hwaiting' => ?_
      rw [afterWait_thread] at hwaiting'
      cases hwaiting'
    · refine iff_of_true (hs.of_subset hissued (by rw [hbook]; exact fun _ hit => hit)) ?_
      exact fun record _ hwaiting => absurd hwaiting (hthread record)

end

/-! ### The result -/

/-- One step, and if it is a call of `getClosestRecord`, the first entry ends first. -/
def NextInOrder (s t : State) : Prop := Next s t ∧ CallsInOrder s t

/-- A new book is empty. -/
theorem initial_repOk {s : State} (h : Initial s) : RepOk s := by
  rw [Initial] at h
  subst h
  exact fun it hit => absurd hit List.not_mem_nil

/-- Two records are enough to break the invariant: the first entry in the order of the book is
that of the second record, which ends later. -/
theorem first_record_overwritten : ∃ s, Reachable Initial Next s ∧ ¬RepOk s := by
  have hstarted : Reachable Initial Next _ := .start rfl
  have hcalled := ((hstarted.step (.add _ (.addRecord 0 10 _ _ _ rfl (.refl _)))).step
    (.add _ (.addRecord 0 20 _ _ _ rfl (.refl _)))).step (.thread 0 0 _ rfl)
  refine ⟨_, hcalled, fun hrep => ?_⟩
  have hid := (hrep ⟨1, ⟨0, 0, ⟨0, 10⟩⟩⟩ List.mem_cons_self).1
  exact absurd hid (by decide)

/-- In every run in which `getClosestRecord` is called only when no record ends before that of
the first entry:

* every entry holds the record that `AddRecord` has returned last for its key, with that id;
* `getClosestRecord` returns a record that ends first, and changes no entry exactly if the
  first entry ends first;
* the next step keeps the first of these exactly if it is no call of `getClosestRecord` with
  a first entry that another ends before. -/
theorem record_book_kept {s : State} (h : Reachable Initial NextInOrder s) :
    RepOk s ∧
    (∀ record recordBook, getClosestRecord s.recordBook = .ok (record, recordBook) →
      (∀ it ∈ s.recordBook.entries, record.interval.endTP ≤ endOf it) ∧
        (recordBook = s.recordBook ↔ FirstEndsFirst s.recordBook)) ∧
    ∀ t, Next s t → (RepOk t ↔ CallsInOrder s t) := by
  have hrep : RepOk s := h.invariant (fun _ => initial_repOk) fun _ _ _ hs hst =>
    (next_repOk_iff hs hst.1).mpr hst.2
  exact ⟨hrep, fun _ _ hcall => getClosestRecord_keeps_iff hcall, fun _ => next_repOk_iff hrep⟩

/-- The result for two records, behind the call of `getClosestRecord` that compares them. The
first entry is that of the second record, and it ends first, so the call is in order. -/
theorem record_book_kept_two_records :
    ∃ s : State, s.recordBook.entries = [⟨1, ⟨1, 0, ⟨0, 10⟩⟩⟩, ⟨0, ⟨0, 0, ⟨0, 20⟩⟩⟩] ∧
      s.thread = .waiting ⟨1, 0, ⟨0, 10⟩⟩ ∧ RepOk s := by
  have hstarted : Reachable Initial NextInOrder _ := .start rfl
  have hadded := (hstarted.step
    ⟨.add _ (.addRecord 0 20 _ _ _ rfl (.refl _)), callsInOrder_of_thread_eq rfl⟩).step
    ⟨.add _ (.addRecord 0 10 _ _ _ rfl (.refl _)), callsInOrder_of_thread_eq rfl⟩
  have hcalled := hadded.step ⟨.thread 0 0 _ rfl, fun _ _ _ first hfirst it hit => ?_⟩
  · exact ⟨_, rfl, rfl, (record_book_kept hcalled).1⟩
  · obtain rfl := Option.some.inj hfirst
    rcases List.mem_cons.mp hit with rfl | hit
    · exact le_refl _
    · obtain rfl := List.mem_singleton.mp hit
      decide

end Brutils.Proofs.Timers
