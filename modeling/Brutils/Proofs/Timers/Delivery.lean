import Brutils.Proofs.Timers.RecordBook

/-!
# `Brutils.Proofs.Timers.Delivery`: when `TimeKeeper` delivers every record

A book is filled by `AddRecord`, all its records have ended, and `run` goes on alone. One pass
emits the record of the first entry and erases that entry, if no record ends before it
(`runBody_emits`). If one does, the pass emits that other record, and what is left of the
first entry is a copy of it, whose id is no longer in the book (`runBody_loses`). Such an
entry is `Stuck`: it ends first in every later pass, and no pass finds its id
(`runBody_stuck`).

So every record is emitted exactly once, and the book is empty in the end, exactly if the
order of the book is an order by end (`delivers_iff`).
-/

set_option autoImplicit false

namespace Brutils.Proofs.Timers

open Transition (Reachable)
open Brutils.TimeKeeper

/-- The thread is at the head of the loop, and whenever the clock is read all records have
ended. -/
structure AtLoop (clock : Nat → Int × Int) (s : State) : Prop where
  thread : s.thread = .loopHead
  running : s.running = true
  past : ∀ n, ∀ it ∈ s.recordBook.entries, endOf it < (clock n).1 ∧ endOf it < (clock n).2

/-- The id of every record is its key. -/
def Ids (s : State) : Prop := ∀ it ∈ s.recordBook.entries, it.2.id = it.1

/-- The order of the book is an order by end. -/
def InOrder (s : State) : Prop :=
  s.recordBook.entries.Pairwise fun it it' => endOf it ≤ endOf it'

/-- The first entry ends first, and the id of its record is not in the book. -/
def Stuck (s : State) : Prop :=
  FirstEndsFirst s.recordBook ∧ ∃ first ∈ s.recordBook.entries.head?, first.2.id ∉ s.recordBook

section
variable {clock : Nat → Int × Int} {s t : State} {first : Σ _ : UInt16, TimeRecord}
  {rest : List (Σ _ : UInt16, TimeRecord)}

/-- The first entry of a list ends first if it is the first in an order by end. -/
theorem firstEndsFirst_of_inOrder (hentries : s.recordBook.entries = first :: rest)
    (h : InOrder s) : FirstEndsFirst s.recordBook := by
  rw [InOrder, hentries] at h
  rw [FirstEndsFirst, hentries]
  intro first' hfirst it hit
  obtain rfl := Option.some.inj hfirst
  rcases List.mem_cons.mp hit with rfl | hrest
  · exact le_refl _
  · exact (List.pairwise_cons.mp h).1 it hrest

/-! ### One pass -/

/-- A pass of `run` with records whose first to end has ended. -/
theorem runBody_of_call {woken now : Int} (hthread : s.thread = .loopHead)
    (hrunning : s.running = true) {record : TimeRecord} {recordBook : RecordBook}
    (hcall : getClosestRecord s.recordBook = .ok (record, recordBook))
    (hended : record.interval.endTP ≤ woken) :
    runBody woken now s = some
      (afterWait now record { s with recordBook := recordBook, thread := .waiting record }) := by
  -- `getClosestRecord` throws on an empty book
  have hsome : s.recordBook.entries.isEmpty = false := by
    cases hentries : s.recordBook.entries with
    | nil =>
      rw [getClosestRecord, hentries] at hcall
      cases hcall
    | cons first rest => rfl
  have hfirst : threadStep woken now s
      = some { s with recordBook := recordBook, thread := .waiting record } := by
    unfold threadStep
    rw [hthread]
    simp only [hrunning, hsome, hcall, if_true, Bool.false_eq_true, if_false]
  rw [runBody, hfirst]
  show (if _ then _ else _) = _
  rw [if_pos (Or.inr (Or.inr hended))]

/-- A pass with an empty book leaves it empty. -/
theorem runBody_empty (hs : AtLoop clock s) (hentries : s.recordBook.entries = []) {n : Nat}
    (h : runBody (clock n).1 (clock n).2 s = some t) :
    AtLoop clock t ∧ t.recordBook.entries = [] := by
  have hfirst : threadStep (clock n).1 (clock n).2 s = some { s with thread := .waitingForAny } := by
    unfold threadStep
    rw [hs.thread]
    simp only [hs.running, hentries, List.isEmpty_nil, if_true]
  rw [runBody, hfirst] at h
  simp only [threadStep, Option.bind_eq_bind, Option.bind_some] at h
  split at h
  · obtain rfl := Option.some.inj h
    exact ⟨⟨rfl, hs.running, hs.past⟩, hentries⟩
  · cases h

/-- A pass that emits the record of the first entry, which ends first, and erases the entry. -/
theorem runBody_emits (hs : AtLoop clock s) (hids : Ids s)
    (hentries : s.recordBook.entries = first :: rest) (hfirst : FirstEndsFirst s.recordBook)
    (n : Nat) :
    ∃ t, runBody (clock n).1 (clock n).2 s = some t ∧ AtLoop clock t ∧ Ids t ∧
      t.recordBook.entries = rest ∧ t.emitted = first.2 :: s.emitted := by
  obtain ⟨record, hcall, -, -, hsame⟩ := getClosestRecord_spec hentries
  -- the assignments have no effect
  obtain rfl := hsame hfirst
  rw [replace_self hentries] at hcall
  have hmem : first ∈ s.recordBook.entries := by
    rw [hentries]
    exact List.mem_cons_self
  obtain ⟨hwoken, hnow⟩ := hs.past n first hmem
  have hid : first.2.id = first.1 := hids first hmem
  have hfound : first.2.id ∈ s.recordBook := by
    rw [hid]
    exact List.mem_map_of_mem hmem
  have hrest : (s.recordBook.erase first.2.id).entries = rest := by
    show s.recordBook.entries.kerase first.2.id = rest
    rw [hentries, List.kerase_cons_eq hid]
  have hsub : ∀ it ∈ (s.recordBook.erase first.2.id).entries, it ∈ s.recordBook.entries :=
    fun it => mem_of_mem_erase
  refine ⟨_, runBody_of_call hs.thread hs.running hcall (le_of_lt hwoken), ?_⟩
  rw [afterWait, if_pos ⟨hnow, hfound⟩]
  exact ⟨⟨rfl, hs.running, fun n it hit => hs.past n it (hsub it hit)⟩,
    fun it hit => hids it (hsub it hit), hrest, rfl⟩

/-- A pass that loses the record of the first entry, because another one ends before. -/
theorem runBody_loses (hs : AtLoop clock s) (hids : Ids s)
    (hentries : s.recordBook.entries = first :: rest) (hfirst : ¬FirstEndsFirst s.recordBook)
    (n : Nat) :
    ∃ t, runBody (clock n).1 (clock n).2 s = some t ∧ AtLoop clock t ∧ Stuck t := by
  obtain ⟨record, hcall, ⟨it, hit, rfl⟩, hleast, -⟩ := getClosestRecord_spec hentries
  obtain ⟨hwoken, hnow⟩ := hs.past n it hit
  have hid : it.2.id = it.1 := hids it hit
  have hmem : first ∈ s.recordBook.entries := by
    rw [hentries]
    exact List.mem_cons_self
  -- the record that ends first is not that of the first entry
  have hne : it.1 ≠ first.1 := by
    intro hkey
    have heq := entry_eq hit hmem hkey
    refine hfirst ((getClosestRecord_keeps_iff hcall).2.mp ?_)
    rw [heq]
    exact replace_self hentries
  have hfound : it.2.id ∈ s.recordBook.replace first.1 it.2 := by
    rw [hid, AList.mem_replace]
    exact List.mem_map_of_mem hit
  -- the entry of the emitted record goes, and its copy stays in the first entry
  have hleft : ((s.recordBook.replace first.1 it.2).erase it.2.id).entries
      = ⟨first.1, it.2⟩ :: rest.kerase it.1 := by
    show (s.recordBook.replace first.1 it.2).entries.kerase it.2.id = _
    rw [entries_replace hentries, hid]
    exact List.kerase_cons_ne hne
  have hold : ∀ it' ∈ rest.kerase it.1, it' ∈ s.recordBook.entries := by
    intro it' hit'
    rw [hentries]
    exact List.mem_cons_of_mem first ((List.kerase_sublist it.1 rest).subset hit')
  refine ⟨_, runBody_of_call hs.thread hs.running hcall (le_of_lt hwoken), ?_⟩
  rw [afterWait, if_pos ⟨hnow, hfound⟩]
  refine ⟨⟨rfl, hs.running, fun n it' hit' => ?_⟩, fun first' hfirst' it' hit' => ?_,
    ⟨first.1, it.2⟩, ?_, fun hkey => (AList.mem_erase.mp hkey).1 rfl⟩
  · simp only [hleft] at hit'
    rcases List.mem_cons.mp hit' with rfl | hrest
    · exact hs.past n it hit
    · exact hs.past n it' (hold it' hrest)
  · simp only [hleft] at hfirst' hit'
    obtain rfl := Option.some.inj hfirst'
    rcases List.mem_cons.mp hit' with rfl | hrest
    · exact le_refl _
    · exact hleast it' (hold it' hrest)
  · simp only [hleft]
    rfl

/-- A pass with a stuck book emits nothing and erases nothing. -/
theorem runBody_stuck (hs : AtLoop clock s) (hstuck : Stuck s) (n : Nat) :
    ∃ t, runBody (clock n).1 (clock n).2 s = some t ∧ AtLoop clock t ∧ Stuck t := by
  obtain ⟨hfirst, first, hhead, hgone⟩ := hstuck
  obtain ⟨rest, hentries⟩ : ∃ rest, s.recordBook.entries = first :: rest := by
    cases hentries : s.recordBook.entries with
    | nil =>
      rw [hentries] at hhead
      cases hhead
    | cons first' rest =>
      rw [hentries] at hhead
      obtain rfl := Option.some.inj hhead
      exact ⟨rest, rfl⟩
  obtain ⟨record, hcall, -, -, hsame⟩ := getClosestRecord_spec hentries
  obtain rfl := hsame hfirst
  rw [replace_self hentries] at hcall
  have hmem : first ∈ s.recordBook.entries := by
    rw [hentries]
    exact List.mem_cons_self
  refine ⟨_, runBody_of_call hs.thread hs.running hcall (le_of_lt (hs.past n first hmem).1), ?_⟩
  rw [afterWait, if_neg fun hfound => hgone hfound.2]
  exact ⟨⟨rfl, hs.running, hs.past⟩, hfirst, first, hhead, hgone⟩

/-! ### All passes -/

/-- One more pass. -/
theorem passes_succ {n : Nat} (h : passes clock n s = some t) :
    passes clock (n + 1) s = runBody (clock n).1 (clock n).2 t := by
  rw [passes, h]
  rfl

/-- A book that is not in order is never emptied. -/
theorem passes_nonempty (hs : AtLoop clock s) (hids : Ids s) (horder : ¬InOrder s) (n : Nat) :
    ∃ t, passes clock n s = some t ∧ AtLoop clock t ∧ (Stuck t ∨ Ids t ∧ ¬InOrder t) := by
  induction n with
  | zero => exact ⟨s, rfl, hs, Or.inr ⟨hids, horder⟩⟩
  | succ n ih =>
    obtain ⟨t, hpasses, ht, hstuck | ⟨hids, horder⟩⟩ := ih
    · obtain ⟨u, hbody, hu, hstuck⟩ := runBody_stuck ht hstuck n
      exact ⟨u, (passes_succ hpasses).trans hbody, hu, Or.inl hstuck⟩
    · cases hentries : t.recordBook.entries with
      | nil =>
        rw [InOrder, hentries] at horder
        exact absurd List.Pairwise.nil horder
      | cons first rest =>
        by_cases hfirst : FirstEndsFirst t.recordBook
        · obtain ⟨u, hbody, hu, huids, hrest, -⟩ := runBody_emits ht hids hentries hfirst n
          refine ⟨u, (passes_succ hpasses).trans hbody, hu, Or.inr ⟨huids, fun hin => horder ?_⟩⟩
          -- with a first entry that ends first the disorder is in the rest
          rw [InOrder, hentries, List.pairwise_cons]
          rw [InOrder, hrest] at hin
          rw [FirstEndsFirst, hentries] at hfirst
          exact ⟨fun it hit => hfirst first rfl it (List.mem_cons_of_mem first hit), hin⟩
        · obtain ⟨u, hbody, hu, hstuck⟩ := runBody_loses ht hids hentries hfirst n
          exact ⟨u, (passes_succ hpasses).trans hbody, hu, Or.inl hstuck⟩

/-- A book in order stays in order, and every pass emits the next record. -/
theorem passes_emit (hs : AtLoop clock s) (hids : Ids s) (horder : InOrder s) (n : Nat)
    (hn : n ≤ s.recordBook.entries.length) :
    ∃ t, passes clock n s = some t ∧ t.recordBook.entries = s.recordBook.entries.drop n ∧
      t.emitted = ((s.recordBook.entries.take n).map Sigma.snd).reverse ++ s.emitted ∧
      AtLoop clock t ∧ Ids t ∧ InOrder t := by
  induction n with
  | zero => exact ⟨s, rfl, rfl, rfl, hs, hids, horder⟩
  | succ n ih =>
    obtain ⟨t, hpasses, hentries, hemitted, ht, htids, htorder⟩ := ih (by omega)
    rw [List.drop_eq_getElem_cons hn] at hentries
    obtain ⟨u, hbody, hu, huids, hrest, hnext⟩ := runBody_emits ht htids hentries
      (firstEndsFirst_of_inOrder hentries htorder) n
    refine ⟨u, (passes_succ hpasses).trans hbody, hrest, ?_, hu, huids, ?_⟩
    · rw [hnext, hemitted, List.take_succ_eq_append_getElem hn, List.map_append, List.reverse_append]
      rfl
    · rw [InOrder, hentries] at htorder
      rw [InOrder, hrest]
      exact htorder.of_cons

/-- A state that passes lead to from a book in order has its book in order. -/
theorem passes_inOrder (hs : AtLoop clock s) (hids : Ids s) (horder : InOrder s) {n : Nat}
    (h : passes clock n s = some t) : AtLoop clock t ∧ Ids t ∧ InOrder t := by
  induction n generalizing t with
  | zero =>
    obtain rfl := Option.some.inj h
    exact ⟨hs, hids, horder⟩
  | succ n ih =>
    obtain ⟨r, hpasses, hbody⟩ := Option.bind_eq_some_iff.mp h
    obtain ⟨hr, hrids, hrorder⟩ := ih hpasses
    cases hentries : r.recordBook.entries with
    | nil =>
      obtain ⟨ht, hempty⟩ := runBody_empty hr hentries hbody
      -- an empty book is in order
      refine ⟨ht, fun it hit => ?_, ?_⟩
      · rw [hempty] at hit
        exact absurd hit List.not_mem_nil
      · rw [InOrder, hempty]
        exact List.Pairwise.nil
    | cons first rest =>
      obtain ⟨u, hbody', hu, huids, hrest, -⟩ := runBody_emits hr hrids hentries
        (firstEndsFirst_of_inOrder hentries hrorder) n
      rw [hbody'] at hbody
      obtain rfl := Option.some.inj hbody
      rw [InOrder, hentries] at hrorder
      refine ⟨hu, huids, ?_⟩
      rw [InOrder, hrest]
      exact hrorder.of_cons

/-! ### A book that `AddRecord` has filled -/

/-- What calls of `AddRecord` build: the book holds the records issued, each under its id. -/
theorem adds_spec (h : Reachable Initial Add s) :
    s.thread = .loopHead ∧ s.running = true ∧ s.emitted = [] ∧ RepOk s ∧
      (s.recordBook.entries.map Sigma.snd).Perm s.issued := by
  refine Reachable.invariant (P := fun s => s.thread = .loopHead ∧ s.running = true ∧
    s.emitted = [] ∧ RepOk s ∧ (s.recordBook.entries.map Sigma.snd).Perm s.issued) ?_ ?_ h
  · rintro s rfl
    exact ⟨rfl, rfl, rfl, initial_repOk rfl, .nil⟩
  · rintro s t - ⟨hthread, hrunning, hemitted, hrep, hperm⟩ hadd
    refine ⟨?_, ?_, ?_, add_repOk hrep hadd, ?_⟩
    all_goals obtain ⟨record, -, hissued, hentries, hthread', hrunning', hemitted'⟩ := add_entries hadd
    · rw [hthread', hthread]
    · rw [hrunning', hrunning]
    · rw [hemitted', hemitted]
    · rw [hissued]
      have hmap := hentries.map Sigma.snd
      exact hmap.trans (hperm.cons record)

end

/-- Passes of `run` emit every record issued exactly once and then find the book empty, and no
pass goes through a book with records without an emission and an erasure. -/
def Delivers (clock : Nat → Int × Int) (s : State) : Prop :=
  (∃ n t, passes clock n s = some t ∧ t.recordBook.entries = [] ∧ t.emitted.Perm s.issued) ∧
  ∀ n t, passes clock n s = some t → t.recordBook.entries ≠ [] →
    ∃ u record, passes clock (n + 1) s = some u ∧ u.emitted = record :: t.emitted ∧
      u.recordBook.entries.length < t.recordBook.entries.length

section
variable {clock : Nat → Int × Int} {s : State}

/-- If the book is not in order, no number of passes empties it. -/
theorem not_delivers (hs : AtLoop clock s) (hids : Ids s) (horder : ¬InOrder s) :
    ¬Delivers clock s := by
  rintro ⟨⟨n, t, hpasses, hempty, -⟩, -⟩
  obtain ⟨t', hpasses', -, hleft⟩ := passes_nonempty hs hids horder n
  rw [hpasses] at hpasses'
  obtain rfl := Option.some.inj hpasses'
  rcases hleft with ⟨-, first, hfirst, -⟩ | ⟨-, horder⟩
  · rw [hempty] at hfirst
    cases hfirst
  · rw [InOrder, hempty] at horder
    exact horder List.Pairwise.nil

/-- If it is, each pass emits the first record and erases it, until none is left. -/
theorem delivers (hs : AtLoop clock s) (hids : Ids s) (horder : InOrder s)
    (hemitted : s.emitted = []) (hissued : (s.recordBook.entries.map Sigma.snd).Perm s.issued) :
    Delivers clock s := by
  refine ⟨?_, fun n t hpasses hsome => ?_⟩
  · obtain ⟨t, hpasses, hentries, hall, -⟩ := passes_emit hs hids horder _ (le_refl _)
    refine ⟨_, t, hpasses, by rw [hentries, List.drop_length], ?_⟩
    rw [hall, hemitted, List.take_length, List.append_nil]
    exact (List.reverse_perm _).trans hissued
  · obtain ⟨ht, htids, htorder⟩ := passes_inOrder hs hids horder hpasses
    obtain ⟨first, rest, hentries⟩ := List.exists_cons_of_ne_nil hsome
    obtain ⟨u, hbody, -, -, hrest, hnext⟩ := runBody_emits ht htids hentries
      (firstEndsFirst_of_inOrder hentries htorder) n
    refine ⟨u, first.2, (passes_succ hpasses).trans hbody, hnext, ?_⟩
    rw [hrest, hentries, List.length_cons]
    omega

/-- The thread has not begun yet, and all records issued have ended. -/
theorem atLoop_of_adds (h : Reachable Initial Add s)
    (hclock : ∀ n, ∀ record ∈ s.issued,
      record.interval.endTP < (clock n).1 ∧ record.interval.endTP < (clock n).2) :
    AtLoop clock s := by
  obtain ⟨hthread, hrunning, -, -, hissued⟩ := adds_spec h
  refine ⟨hthread, hrunning, fun n it hit => hclock n it.2 ?_⟩
  exact hissued.mem_iff.mp (List.mem_map_of_mem hit)

/-- Two records in a book whose order is not by end. -/
theorem two_records_not_delivered :
    ∃ (s : State) (clock : Nat → Int × Int), Reachable Initial Add s ∧
      (∀ n, ∀ record ∈ s.issued,
        record.interval.endTP < (clock n).1 ∧ record.interval.endTP < (clock n).2) ∧
      ¬Delivers clock s := by
  have hstarted : Reachable Initial Add _ := .start rfl
  have hadded := (hstarted.step (.addRecord 0 10 _ _ _ rfl (.refl _))).step
    (.addRecord 0 20 _ _ _ rfl (.refl _))
  have hclock : ∀ n : Nat, ∀ record ∈ [(⟨1, 0, ⟨0, 20⟩⟩ : TimeRecord), ⟨0, 0, ⟨0, 10⟩⟩],
      record.interval.endTP < ((fun _ => (30, 30)) n : Int × Int).1 ∧
        record.interval.endTP < ((fun _ => (30, 30)) n : Int × Int).2 := by
    intro n record hrecord
    rcases List.mem_pair.mp hrecord with rfl | rfl
    · exact ⟨(by decide : (20 : Int) < 30), (by decide : (20 : Int) < 30)⟩
    · exact ⟨(by decide : (10 : Int) < 30), (by decide : (10 : Int) < 30)⟩
  refine ⟨_, _, hadded, hclock, not_delivers (atLoop_of_adds hadded hclock) ?_ fun horder => ?_⟩
  · exact fun it hit => ((adds_spec hadded).2.2.2.1 it hit).1
  · have hle := (List.pairwise_cons.mp horder).1 _ List.mem_cons_self
    exact absurd hle (by decide)

/-- A book that `AddRecord` has filled is delivered exactly if its order is an order by end. -/
theorem delivers_iff (h : Reachable Initial Add s)
    (hclock : ∀ n, ∀ record ∈ s.issued,
      record.interval.endTP < (clock n).1 ∧ record.interval.endTP < (clock n).2) :
    Delivers clock s ↔
      s.recordBook.entries.Pairwise fun it it' => it.2.interval.endTP ≤ it'.2.interval.endTP := by
  have hs := atLoop_of_adds h hclock
  obtain ⟨-, -, hemitted, hrep, hissued⟩ := adds_spec h
  have hids : Ids s := fun it hit => (hrep it hit).1
  refine ⟨fun hdelivers => ?_, fun horder => delivers hs hids horder hemitted hissued⟩
  by_contra horder
  exact not_delivers hs hids horder hdelivers

end

/-- The result for two records in a book whose order is by end. -/
theorem delivers_two_records : ∃ s : State, Delivers (fun _ => (30, 30)) s ∧
    s.issued = [⟨1, 0, ⟨0, 10⟩⟩, ⟨0, 0, ⟨0, 20⟩⟩] := by
  have hstarted : Reachable Initial Add _ := .start rfl
  have hadded := (hstarted.step (.addRecord 0 20 _ _ _ rfl (.refl _))).step
    (.addRecord 0 10 _ _ _ rfl (.refl _))
  refine ⟨_, (delivers_iff hadded fun _ record hrecord => ?_).mpr ?_, rfl⟩
  · rcases List.mem_pair.mp hrecord with rfl | rfl
    · exact ⟨(by decide : (10 : Int) < 30), (by decide : (10 : Int) < 30)⟩
    · exact ⟨(by decide : (20 : Int) < 30), (by decide : (20 : Int) < 30)⟩
  · exact List.pairwise_pair.mpr (by decide)

end Brutils.Proofs.Timers
