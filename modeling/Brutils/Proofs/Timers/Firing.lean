import Brutils.Proofs.Timers.FairRuns

/-!
# `Brutils.Proofs.Timers.Firing`: the timers of a `combined_timer` fire

A timer that is pending is emitted in the end, when no more calls come. The thread takes a timer
that expires first. Once the date of the pending one has passed, every emission of another one
takes an earlier date away, and puts none in its place: a one-shot timer is erased, and a periodic
one gets a date that is still to come. So the number of earlier dates is the rank
(`leftBefore`), together with the steps that are left of the pass.

* `early_update`: what an emission does to the number of earlier dates.
* `next_pends`: nothing but its own emission touches a timer that pends.
* `pending_timers_fire` is the result.
-/

set_option autoImplicit false

namespace Brutils.Proofs.Timers

open Fairness (LeadsTo leadsTo_of_ready)
open Brutils.CombinedTimer

/-! ### Early timers -/

/-- The timer is in the map, and is not about to be erased. -/
def Pending (id : Int16) (s : State) : Prop :=
  id ∈ s.timeKeeperMap ∧ ¬JustEmitted s.thread id

/-- No call is on its way, and the thread is not about to update this timer. -/
structure Pends (id : Int16) (entry : TimerData) (s : State) : Prop where
  idle : s.owner = .idle
  found : s.timeKeeperMap.lookup id = some entry
  untouched : ∀ id' entry', s.thread = .emitted id' entry' → id' ≠ id
  noOther : (-1 : Int16) ∉ s.timeKeeperMap

/-- The number of timers with a date up to this one. -/
def early (date : Int) (timeKeeperMap : TimerMap) : Nat :=
  timeKeeperMap.entries.countP fun it => it.2.expirationDate ≤ date

/-- The steps of a pass that are left to the thread. -/
def stepsOfPass : Thread → Nat
  | .loopHead => 7
  | .choosing => 6
  | .waiting _ _ => 5
  | .woken _ _ => 4
  | .locked _ _ => 3
  | .emitting _ _ => 2
  | .emitted _ _ => 1
  | _ => 0

/-- What is left to be done before a timer with this date is emitted. -/
def leftBefore (date : Int) (s : State) : Nat :=
  8 * early date s.timeKeeperMap + stepsOfPass s.thread

section
variable {timeKeeperMap : TimerMap} {id : Int16} {entry : TimerData} {date : Int}

/-- An early timer that is erased is one less. -/
theorem early_erase (h : timeKeeperMap.lookup id = some entry) (hearly : entry.expirationDate ≤ date) :
    early date (timeKeeperMap.erase id) + 1 = early date timeKeeperMap := by
  have hmem : id ∈ timeKeeperMap.entries.keys := by
    show id ∈ timeKeeperMap
    rw [← AList.lookup_isSome, h]
    rfl
  obtain ⟨entry', front, back, -, hentries, herase⟩ := List.exists_of_kerase hmem
  have hentry : entry' = entry := by
    have hlookup : timeKeeperMap.lookup id = some entry' :=
      AList.mem_lookup_iff.mpr (by rw [hentries]; simp)
    exact Option.some.inj (hlookup.symm.trans h)
  show (timeKeeperMap.entries.kerase id).countP _ + 1 = timeKeeperMap.entries.countP _
  rw [herase, hentries, List.countP_append, List.countP_append, List.countP_cons_of_pos]
  · omega
  · simpa [hentry] using hearly

/-- The update after the emission of an early timer leaves one less. -/
theorem early_update {now : Int} (h : timeKeeperMap.lookup id = some entry) (hid : entry.id = id)
    (hearly : entry.expirationDate ≤ date) (hnow : date < now) :
    early date (update timeKeeperMap now id entry) + 1 = early date timeKeeperMap := by
  rw [← early_erase h hearly]
  unfold update
  cases entry.periodic with
  | false => simp [hid]
  | true =>
    -- the new date is not early
    have hlate : ¬(now + milliseconds entry.duration ≤ date) := by
      have hnonneg : (0 : Int) ≤ milliseconds entry.duration := by
        unfold milliseconds
        omega
      omega
    simp only [if_true, h, Option.getD_some]
    show (List.countP _ (⟨id, _⟩ :: timeKeeperMap.entries.kerase id)) + 1 = _
    rw [List.countP_cons_of_neg (by simpa using hlate)]
    rfl

/-- The timers with other ids stay as they are. -/
theorem lookup_update_ne {now : Int} {id' : Int16} (hid : entry.id = id) (hne : id ≠ id') :
    (update timeKeeperMap now id entry).lookup id' = timeKeeperMap.lookup id' := by
  unfold update
  split
  · exact AList.lookup_insert_ne hne.symm
  · exact AList.lookup_erase_ne (hid ▸ hne.symm)

/-- The order of the entries does not matter to what is early. -/
theorem early_reorder {timeKeeperMap' : TimerMap}
    (h : timeKeeperMap'.entries.Perm timeKeeperMap.entries) :
    early date timeKeeperMap' = early date timeKeeperMap :=
  h.countP_eq _

end

section
variable {s t : State} {id : Int16} {entry : TimerData}

/-- The timer that the thread has chosen is no later than any that pends. -/
theorem copy_le (hgood : Good s) (hs : Pends id entry s) {id' : Int16} {entry' : TimerData}
    (hcopy : copyOf s.thread = some (id', entry')) :
    entry'.expirationDate ≤ entry.expirationDate :=
  (hgood.copy id' entry' hcopy).2 id entry hs.found

/-- Where a timer pends, the thread is at work. -/
theorem Pends.atWork (hs : Pends id entry s) (halive : Alive s) :
    s.stopped = false ∧ s.thread ≠ .absent ∧ s.thread ≠ .finished := by
  rcases halive.atWork (by simp [Restarting, hs.idle]) with hwork | ⟨-, hempty | hmem⟩
  · exact hwork
  · have hfound := hs.found
    rw [hempty, AList.lookup_empty] at hfound
    cases hfound
  · exact absurd hmem hs.noOther

/-- A step leaves a timer that pends in the map, until it is emitted. -/
theorem next_pends (hgood : Good s) (hs : Pends id entry s)
    (hnot : ∀ entry', s.thread ≠ .emitting id entry') (h : Next s t) (hidle : t.owner = .idle) :
    Pends id entry t := by
  cases h with
  | begin call t h =>
    rcases begin_cases h with rfl | rfl
    · exact hs
    · cases hidle
  | owner t h =>
    rw [ownerStep, hs.idle] at h
    cases h
  | thread t h =>
    have hmoves := threadStep_moves h
    cases hmoves with
    | @emit id' entry' hthread =>
      refine ⟨hidle, hs.found, fun id'' entry'' heq => ?_, hs.noOther⟩
      obtain ⟨rfl, rfl⟩ := Thread.emitted.inj heq
      intro hsame
      exact hnot entry' (hsame ▸ hthread)
    -- the timer that is rescheduled or erased is another one
    | @update id' entry' hthread =>
      obtain ⟨hlookup, -⟩ := hgood.copy id' entry' (by rw [hthread]; rfl)
      have hid := hgood.ids id' entry' hlookup
      refine ⟨hidle, ?_, by simp, fun hmem => hs.noOther (mem_of_mem_update hlookup hmem).1⟩
      exact (lookup_update_ne hid (hs.untouched id' entry' hthread)).trans hs.found
    | test hthread =>
      refine ⟨hidle, hs.found, fun id' entry' heq => ?_, hs.noOther⟩
      have hcases : (if s.stopped = true then Thread.finished else Thread.choosing) =
        .emitted id' entry' := heq
      split at hcases
      · cases hcases
      · cases hcases
    | _ => exact ⟨hidle, hs.found, by simp, hs.noOther⟩
  | tick elapsed => exact ⟨hidle, hs.found, hs.untouched, hs.noOther⟩
  | reorder timeKeeperMap h =>
    exact ⟨hidle, (AList.perm_lookup h).trans hs.found, hs.untouched, fun hmem =>
      hs.noOther (mem_of_mem_reorder h hmem)⟩

/-- When the date of the timer has passed, each step of the thread leaves less to be done before
it. -/
theorem threadStep_leftBefore (hgood : Good s) (halive : Alive s) (hs : Pends id entry s)
    (hnow : entry.expirationDate < s.now) (h : threadStep s = some t) :
    leftBefore entry.expirationDate t < leftBefore entry.expirationDate s := by
  have hstopped := (hs.atWork halive).1
  have hmoves := threadStep_moves h
  cases hmoves with
  | @update id' entry' hthread =>
    have hcopy : copyOf s.thread = some (id', entry') := by rw [hthread]; rfl
    obtain ⟨hlookup, -⟩ := hgood.copy id' entry' hcopy
    have hless := early_update hlookup (hgood.ids id' entry' hlookup) (copy_le hgood hs hcopy) hnow
    simp only [leftBefore, hthread, stepsOfPass]
    omega
  | test hthread => simp [leftBefore, hthread, stepsOfPass, hstopped]
  | none hthread hid => simp [leftBefore, hthread, stepsOfPass]
  | throws hthread => simp [leftBefore, hthread, stepsOfPass]
  | choose hthread hlookup => simp [leftBefore, hthread, stepsOfPass]
  | wake hthread hwake => simp [leftBefore, hthread, stepsOfPass]
  | lock hthread => simp [leftBefore, hthread, stepsOfPass]
  | goBack hthread htrue => simp [hstopped] at htrue
  | goOn hthread hnot => simp [leftBefore, hthread, stepsOfPass]
  | emit hthread => simp [leftBefore, hthread, stepsOfPass]

/-- The other steps leave as much. -/
theorem next_leftBefore (hgood : Good s) (halive : Alive s) (hs : Pends id entry s)
    (hnow : entry.expirationDate < s.now) (h : Next s t) (hidle : t.owner = .idle) :
    leftBefore entry.expirationDate t < leftBefore entry.expirationDate s ∨
      leftBefore entry.expirationDate t = leftBefore entry.expirationDate s := by
  cases h with
  | begin call t h =>
    rcases begin_cases h with rfl | rfl
    · exact .inr rfl
    · cases hidle
  | owner t h =>
    rw [ownerStep, hs.idle] at h
    cases h
  | thread t h => exact .inl (threadStep_leftBefore hgood halive hs hnow h)
  | tick elapsed => exact .inr rfl
  | reorder timeKeeperMap h =>
    right
    simp only [leftBefore, early_reorder h]

end

section
variable {trace : Nat → State} {n : Nat} {id : Int16} {entry : TimerData}

/-- A timer that is pending stays so, as long as nobody calls and it does not expire. -/
theorem FairRun.pends (hrun : FairRun trace) (hquiet : ∀ m, n ≤ m → (trace m).owner = .idle)
    (hn : Pends id entry (trace n)) (hnever : ∀ m, n ≤ m → ∀ entry', (trace m).thread ≠
      .emitting id entry') {m : Nat} (hnm : n ≤ m) : Pends id entry (trace m) := by
  induction hnm with
  | refl => exact hn
  | @step m hnm ih =>
    rcases hrun.goes m with hnext | hsame
    · exact next_pends (hrun.good m) ih (hnever m hnm) hnext (hquiet (m + 1) (Nat.le_succ_of_le hnm))
    · exact hsame ▸ ih

/-- The thread comes to the emission of a timer that pends. -/
theorem FairRun.reaches_emission (hrun : FairRun trace)
    (hquiet : ∀ m, n ≤ m → (trace m).owner = .idle) (hn : Pends id entry (trace n)) :
    ∃ m, n ≤ m ∧ ∃ entry', (trace m).thread = .emitting id entry' := by
  by_contra hnot
  have hnever : ∀ m, n ≤ m → ∀ entry', (trace m).thread ≠ .emitting id entry' :=
    fun m hnm entry' h => hnot ⟨m, hnm, entry', h⟩
  -- the run from where the date has passed
  obtain ⟨m, hnm, hpassed⟩ := hrun.passes entry.expirationDate n
  have hpends : ∀ k, Pends id entry (trace (m + k)) :=
    fun k => hrun.pends hquiet hn hnever (Nat.le_trans hnm (Nat.le_add_right m k))
  have hdate : ∀ k, entry.expirationDate < (trace (m + k)).now :=
    fun k => hpassed _ (Nat.le_add_right m k)
  have hleads : LeadsTo (fun k => trace (m + k)) (fun _ => True) fun _ => False := by
    refine leadsTo_of_ready _ _ (fun _ : Unit => hrun.thread.drop m) (fun _ => ())
      (leftBefore entry.expirationDate) ?_ ?_ ?_
    · intro k _ _ hstep
      exact .inr ⟨trivial, threadStep_leftBefore (hrun.good _) (hrun.alive _) (hpends k) (hdate k)
        hstep⟩
    · intro k _ _
      rcases hrun.goes (m + k) with hnext | hsame
      · have hless := next_leftBefore (hrun.good _) (hrun.alive _) (hpends k) (hdate k) hnext
          (hquiet _ (by omega))
        exact .inr ⟨trivial, hless.imp_right fun h => ⟨h, rfl⟩⟩
      · refine .inr ⟨trivial, .inr ⟨?_, rfl⟩⟩
        show leftBefore _ (trace (m + k + 1)) = _
        rw [hsame]
    · intro k _
      refine ⟨k, Nat.le_refl k, fun j _ => ?_⟩
      obtain ⟨-, habsent, hfinished⟩ := (hpends j).atWork (hrun.alive _)
      refine canGoOn_of_atWork ⟨habsent, hfinished, (hrun.alive _).notTerminated⟩
        (.inr (by rw [(hpends j).idle]; rfl)) fun id' entry' hwaits => ?_
      have hle := copy_le (hrun.good _) (hpends j) (by rw [hwaits]; rfl)
      exact Int.le_trans hle (Int.le_of_lt (hdate j))
  obtain ⟨k, -, hfalse⟩ := hleads 0 trivial
  exact hfalse

/-- A thread that holds `_dataMutex` makes its next step, and nothing changes before, when no call
comes. -/
theorem FairRun.next_step (hrun : FairRun trace) (hquiet : ∀ m, n ≤ m → (trace m).owner = .idle)
    (hdata : (trace n).thread.holdsData = true) :
    ∃ m, n ≤ m ∧ threadStep (trace m) = some (trace (m + 1)) ∧
      (trace m).thread = (trace n).thread ∧
      ∀ id, (trace m).timeKeeperMap.lookup id = (trace n).timeKeeperMap.lookup id := by
  by_contra hnot
  -- until the thread moves, nobody touches the timers: the owner is idle
  have hsame : ∀ m, n ≤ m → (trace m).thread = (trace n).thread ∧
      ∀ id, (trace m).timeKeeperMap.lookup id = (trace n).timeKeeperMap.lookup id := by
    intro m hnm
    induction hnm with
    | refl => exact ⟨rfl, fun _ => rfl⟩
    | @step m hnm ih =>
      have hidle := hquiet m hnm
      have hidle' := hquiet (m + 1) (Nat.le_succ_of_le hnm)
      rcases hrun.goes m with hnext | hstutter
      · generalize hs : trace m = s at hnext
        generalize ht : trace (m + 1) = t at hnext
        rw [hs] at ih hidle
        rw [ht] at hidle'
        cases hnext with
        | begin call t h =>
          rcases begin_cases h with rfl | rfl
          · exact ih
          · cases hidle'
        | owner t h =>
          rw [ownerStep, hidle] at h
          cases h
        | thread t h => exact absurd ⟨m, hnm, by rw [hs, ht, h], by rw [hs]; exact ih.1, by
            rw [hs]; exact ih.2⟩ hnot
        | tick elapsed => exact ih
        | reorder timeKeeperMap h => exact ⟨ih.1, fun id => (AList.perm_lookup h).trans (ih.2 id)⟩
      · rw [hstutter]
        exact ih
  -- the run is fair to the thread, which can always go on here
  obtain ⟨m, hnm, hstep | hnotDue⟩ := hrun.thread n
  · exact hnot ⟨m, hnm, hstep, hsame m hnm⟩
  · rw [← (hsame m hnm).1] at hdata
    refine hnotDue (canGoOn_of_atWork ⟨fun hdead => ?_, fun hdead => ?_,
      (hrun.alive m).notTerminated⟩ (.inl hdata) fun id entry hwaits => ?_)
    · simp [hdead, Thread.holdsData] at hdata
    · simp [hdead, Thread.holdsData] at hdata
    · simp [hwaits, Thread.holdsData] at hdata

/-- The update after an emission keeps a timer that is pending. -/
theorem mem_update_of_pending {s : State} (hs : Good s) {id' : Int16} {entry' : TimerData}
    (hthread : s.thread = .emitted id' entry') (hpending : Pending id s) :
    id ∈ update s.timeKeeperMap s.now id' entry' := by
  obtain ⟨hlookup, -⟩ := hs.copy id' entry' (by rw [hthread]; rfl)
  have hid := hs.ids id' entry' hlookup
  by_cases hsame : id' = id
  · have hperiodic : entry'.periodic = true := by
      by_contra hnot
      exact hpending.2 ⟨id', entry', hthread, hid.trans hsame, by simpa using hnot⟩
    rw [update, if_pos hperiodic, hsame, AList.mem_insert]
    exact .inl rfl
  · rw [← AList.lookup_isSome, lookup_update_ne hid hsame, AList.lookup_isSome]
    exact hpending.1

/-- The update that may be under way is made first. -/
theorem FairRun.pends_of_pending (hrun : FairRun trace)
    (hquiet : ∀ m, n ≤ m → (trace m).owner = .idle)
    (hids : (-1 : Int16) ∉ (trace n).timeKeeperMap) (hpending : Pending id (trace n)) :
    ∃ k, n ≤ k ∧ ∃ entry, Pends id entry (trace k) := by
  by_cases hemitted : ∃ id' entry', (trace n).thread = .emitted id' entry'
  · obtain ⟨id', entry', hthread⟩ := hemitted
    obtain ⟨m, hnm, hstep, hsame, hlookup⟩ := hrun.next_step hquiet (by rw [hthread]; rfl)
    rw [hthread] at hsame
    have hgood := hrun.good m
    have hmem : ∀ id, id ∈ (trace m).timeKeeperMap ↔ id ∈ (trace n).timeKeeperMap := by
      intro id
      rw [← AList.lookup_isSome, hlookup, AList.lookup_isSome]
    have hpending' : Pending id (trace m) := by
      refine ⟨(hmem id).mpr hpending.1, ?_⟩
      rw [JustEmitted, hsame, ← hthread]
      exact hpending.2
    have hupdated := mem_update_of_pending hgood hsame hpending'
    rw [← AList.lookup_isSome] at hupdated
    obtain ⟨entry, hentry⟩ := Option.isSome_iff_exists.mp hupdated
    have hidle := hquiet m hnm
    rw [threadStep, hsame] at hstep
    refine ⟨m + 1, Nat.le_succ_of_le hnm, entry, ?_⟩
    rw [← Option.some.inj hstep]
    refine ⟨hidle, hentry, by simp, fun hother => hids ((hmem (-1)).mp ?_)⟩
    exact (mem_of_mem_update (hgood.copy id' entry' (by rw [hsame]; rfl)).1 hother).1
  · have hmem := hpending.1
    rw [← AList.lookup_isSome] at hmem
    obtain ⟨entry, hentry⟩ := Option.isSome_iff_exists.mp hmem
    exact ⟨n, Nat.le_refl n, entry, hquiet n (Nat.le_refl n), hentry, fun id' entry' h =>
      absurd ⟨id', entry', h⟩ hemitted, hids⟩

/-- In a fair run in which no more calls come, each timer that is pending is emitted, unless a timer
has the id -1. A periodic one is emitted again and again. -/
theorem pending_timers_fire (hrun : FairRun trace) (hquiet : ∀ m, n ≤ m → (trace m).owner = .idle)
    (hids : (-1 : Int16) ∉ (trace n).timeKeeperMap) (hpending : Pending id (trace n)) :
    ∃ m, n ≤ m ∧ ∃ periodic, (trace (m + 1)).history = .timeout id periodic :: (trace m).history := by
  obtain ⟨k, hnk, entry, hk⟩ := hrun.pends_of_pending hquiet hids hpending
  obtain ⟨m, hkm, entry', hemitting⟩ :=
    hrun.reaches_emission (fun m hkm => hquiet m (Nat.le_trans hnk hkm)) hk
  obtain ⟨j, hmj, hstep, hthread, -⟩ := hrun.next_step
    (fun m hkm => hquiet m (by omega)) (n := m) (by rw [hemitting]; rfl)
  refine ⟨j, by omega, entry'.periodic, ?_⟩
  rw [hemitting] at hthread
  have hid : entry'.id = id := by
    obtain ⟨hlookup, -⟩ := (hrun.good j).copy id entry' (by rw [hthread]; rfl)
    exact (hrun.good j).ids id entry' hlookup
  rw [threadStep, hthread] at hstep
  rw [← Option.some.inj hstep, ← hid]

end

/-! ### The run with two timers -/

/-- When the second timer has been added, the owner stays idle. -/
theorem twoTimers_quiet {m : Nat} (hm : 41 ≤ m) :
    (twoTimers m).owner = .idle ∧ (twoTimers m).lastTimerId = 2 := by
  induction hm with
  | refl => exact ⟨rfl, rfl⟩
  | @step m hm ih =>
    obtain ⟨k, rfl⟩ := Nat.exists_eq_add_of_le' (Nat.le_trans (by omega : 1 ≤ 41) hm)
    obtain ⟨hidle, hlast⟩ := ih
    show (turn (k % 3) (twoTimers (k + 1))).owner = .idle ∧
      (turn (k % 3) (twoTimers (k + 1))).lastTimerId = 2
    unfold turn
    split
    · have hstays : ownerTurn (twoTimers (k + 1)) = twoTimers (k + 1) := by
        simp [ownerTurn, ownerStep, hidle, hlast]
      rw [hstays]
      exact ⟨hidle, hlast⟩
    · cases h : threadStep (twoTimers (k + 1)) with
      | none => exact ⟨hidle, hlast⟩
      | some t =>
        have hmoves := threadStep_moves h
        refine ⟨(threadStep_owner h).trans hidle, ?_⟩
        cases hmoves <;> exact hlast
    · exact ⟨hidle, hlast⟩

/-- Both timers of this run are emitted, the periodic one and the other. -/
theorem pending_timers_fire_two :
    (∃ m, 41 ≤ m ∧ ∃ periodic,
      (twoTimers (m + 1)).history = .timeout 1 periodic :: (twoTimers m).history) ∧
    ∃ m, 41 ≤ m ∧ ∃ periodic,
      (twoTimers (m + 1)).history = .timeout 0 periodic :: (twoTimers m).history := by
  have hmap : (twoTimers 41).timeKeeperMap = AList.insert 1 ⟨true, 1, 2000, 2000000011⟩
      (AList.insert 0 ⟨false, 0, 1000, 1000000002⟩ ∅) := rfl
  have hthread : (twoTimers 41).thread = .choosing := rfl
  have hids : (-1 : Int16) ∉ (twoTimers 41).timeKeeperMap := by
    rw [hmap, AList.mem_insert, AList.mem_insert]
    simp
  have hpending : ∀ id : Int16, id = 1 ∨ id = 0 → Pending id (twoTimers 41) := by
    intro id hid
    constructor
    · rw [hmap, AList.mem_insert, AList.mem_insert]
      exact hid.imp_right .inl
    · rintro ⟨id', entry', hemitted, -⟩
      rw [hthread] at hemitted
      cases hemitted
  exact ⟨pending_timers_fire twoTimers_fair (fun _ hm => (twoTimers_quiet hm).1) hids
      (hpending 1 (.inl rfl)),
    pending_timers_fire twoTimers_fair (fun _ hm => (twoTimers_quiet hm).1) hids
      (hpending 0 (.inr rfl))⟩

end Brutils.Proofs.Timers
