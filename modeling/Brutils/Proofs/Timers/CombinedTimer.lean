import Brutils.Lib.Least
import Brutils.Lib.Transition
import Brutils.Proofs.Timers.CombinedSteps

/-!
# `Brutils.Proofs.Timers.CombinedTimer`: the emissions of `combined_timer` are sound

The timer thread works with a copy of the timer it has chosen. The copy is good for as long
as it is used, because the map does not change meanwhile: the owner changes it only after it
has joined the thread, and the thread itself changes it only when it is done with the copy.
`Good` says this, for every place of the two threads: where there is a copy, the map holds
it, and no timer of the map expires earlier (`copy`); where the owner is about to change the
map, there is no thread (`alone`).

Whether an id may be emitted at all can be read off the history: `Armed` is true after an
insertion and false after a one-shot emission and after a call of `stopTimer` that returned
true. An id that is not armed is not in the map (`armed`).

* `getClosestTimerId_spec`: the loop over the map finds a timer that expires first.
* `threadStep_good`, `ownerStep_good`, `begin_good`: the steps, one case for each place.
* `timeouts_sound` is the result for every run.
-/

set_option autoImplicit false

namespace Brutils.Proofs.Timers

open Transition (Reachable)
open Brutils.CombinedTimer

/-- The last event that concerns `id` is an insertion. An emission of a periodic timer
concerns no id. -/
def Armed (id : Int16) : List Event → Prop
  | [] => False
  | .inserted id' :: past => id = id' ∨ Armed id past
  | .stopped id' :: past => id ≠ id' ∧ Armed id past
  | .timeout id' periodic :: past => ¬(id = id' ∧ periodic = false) ∧ Armed id past

/-- Every emission in a history was of an id that was armed. -/
def Justified : List Event → Prop
  | [] => True
  | .timeout id _ :: past => Armed id past ∧ Justified past
  | _ :: past => Justified past

/-- No timer of the map expires before `date`. -/
def NoneBefore (timeKeeperMap : TimerMap) (date : Int) : Prop :=
  ∀ id entry, timeKeeperMap.lookup id = some entry → date ≤ entry.expirationDate

/-! ### The choice of a timer -/

/-- The id and the expiration date of an entry. -/
def dated (it : Σ _ : Int16, TimerData) : Int16 × Int := (it.1, it.2.expirationDate)

/-- The loop of `getClosestTimerId` keeps the entry that expires first. -/
theorem foldl_closer (rest : List (Σ _ : Int16, TimerData)) (closest : Int16 × Int) :
    rest.foldl closer closest = (rest.map dated).foldl (Least.keepLeast Prod.snd) closest := by
  rw [List.foldl_map]
  rfl

section
variable {timeKeeperMap : TimerMap}
  (hids : ∀ id entry, timeKeeperMap.lookup id = some entry → entry.id = id)
include hids

/-- The loop of `getClosestTimerId` ends at an entry of the map that expires first. -/
theorem getClosestTimerId_entry (hne : timeKeeperMap ≠ ∅) :
    ∃ it ∈ timeKeeperMap.entries, getClosestTimerId timeKeeperMap = it.1 ∧
      ∀ it' ∈ timeKeeperMap.entries, it.2.expirationDate ≤ it'.2.expirationDate := by
  cases hentries : timeKeeperMap.entries with
  | nil => exact absurd (AList.ext hentries) hne
  | cons it rest =>
    have hit : timeKeeperMap.lookup it.1 = some it.2 :=
      AList.mem_lookup_iff.mpr (by rw [hentries]; exact List.mem_cons_self)
    -- the loop begins with the id in the first record, and then takes keys
    have hfirst : (it.2.id, it.2.expirationDate) = dated it :=
      congrArg (·, it.2.expirationDate) (hids it.1 it.2 hit)
    have hclosest : getClosestTimerId timeKeeperMap
        = ((rest.map dated).foldl (Least.keepLeast Prod.snd) (dated it)).1 := by
      rw [getClosestTimerId, hentries, ← foldl_closer, ← hfirst]
    have hfrom := Least.foldl_keepLeast_mem Prod.snd (dated it) (rest.map dated)
    rw [← List.map_cons] at hfrom
    obtain ⟨found, hfound, hdated⟩ := List.mem_map.mp hfrom
    refine ⟨found, hfound, by rw [hclosest, ← hdated]; rfl, ?_⟩
    intro it' hit'
    have hle : (dated found).2 ≤ (dated it').2 := by
      rw [hdated]
      refine Least.foldl_keepLeast_le Prod.snd (dated it) (rest.map dated) ?_
      rw [← List.map_cons]
      exact List.mem_map_of_mem hit'
    exact hle

/-- `getClosestTimerId` finds a timer when there is one. -/
theorem getClosestTimerId_mem (hne : timeKeeperMap ≠ ∅) :
    getClosestTimerId timeKeeperMap ∈ timeKeeperMap := by
  obtain ⟨it, hit, hclosest, -⟩ := getClosestTimerId_entry hids hne
  rw [hclosest, ← AList.lookup_isSome, Option.mem_def.mp (AList.mem_lookup_iff.mpr hit)]
  rfl

/-- The timer that `getClosestTimerId` finds is in the map, and none expires earlier. -/
theorem getClosestTimerId_spec {closestTimer : TimerData}
    (hlookup : timeKeeperMap.lookup (getClosestTimerId timeKeeperMap) = some closestTimer) :
    NoneBefore timeKeeperMap closestTimer.expirationDate := by
  have hne : timeKeeperMap ≠ ∅ := by
    rintro rfl
    exact nomatch (AList.lookup_empty _).symm.trans hlookup
  obtain ⟨it, hit, hclosest, hfirst⟩ := getClosestTimerId_entry hids hne
  rw [hclosest, Option.mem_def.mp (AList.mem_lookup_iff.mpr hit)] at hlookup
  intro id entry hentry
  rw [← Option.some.inj hlookup]
  exact hfirst ⟨id, entry⟩ (AList.mem_lookup_iff.mp hentry)

end

/-! ### The invariant -/

/-- The copy that the timer thread works with. -/
def copyOf : Thread → Option (Int16 × TimerData)
  | .waiting id entry => some (id, entry)
  | .woken id entry => some (id, entry)
  | .locked id entry => some (id, entry)
  | .emitting id entry => some (id, entry)
  | .emitted id entry => some (id, entry)
  | _ => none

/-- The timer thread has emitted `id` for the last time and is about to erase it. -/
def JustEmitted (thread : Thread) (id : Int16) : Prop :=
  ∃ id' entry, thread = .emitted id' entry ∧ entry.id = id ∧ entry.periodic = false

/-- What the timer thread knows about the deadline of its copy. Before the second test of
`_stopped` it may have been woken to stop. -/
def DueIn (s : State) : Prop :=
  match s.thread with
  | .woken _ entry => entry.expirationDate ≤ s.now ∨ s.stopped = true
  | .locked _ entry => entry.expirationDate ≤ s.now ∨ s.stopped = true
  | .emitting _ entry => entry.expirationDate ≤ s.now
  | _ => True

/-- The invariant of a `combined_timer`. -/
structure Good (s : State) : Prop where
  ids : ∀ id entry, s.timeKeeperMap.lookup id = some entry → entry.id = id
  copy : ∀ id entry, copyOf s.thread = some (id, entry) →
    s.timeKeeperMap.lookup id = some entry ∧ NoneBefore s.timeKeeperMap entry.expirationDate
  due : DueIn s
  alone : ∀ call, s.owner = .changing call ∨ s.owner = .starting call → s.thread = .absent
  armed : ∀ id, ¬Armed id s.history → id ∈ s.timeKeeperMap → JustEmitted s.thread id
  erased : ∀ id, s.owner = .starting (.stopTimer id) ∨ s.owner = .returning (.stopTimer id) →
    id ∉ s.timeKeeperMap
  justified : Justified s.history

section
variable {s t : State}

/-- An id that is in the map is armed, but for the one that is about to be erased. -/
theorem Good.armed_of_mem (h : Good s) (hemitted : ∀ id, ¬JustEmitted s.thread id) {id : Int16}
    (hmem : id ∈ s.timeKeeperMap) : Armed id s.history := by
  -- the invariant allows an id that is not armed in one place only
  by_contra hgone
  exact hemitted id (h.armed id hgone hmem)

/-- At a place without a copy less is to be shown. -/
theorem good_of_noCopy (hcopy : copyOf s.thread = none)
    (ids : ∀ id entry, s.timeKeeperMap.lookup id = some entry → entry.id = id)
    (alone : ∀ call, s.owner = .changing call ∨ s.owner = .starting call → s.thread = .absent)
    (armed : ∀ id ∈ s.timeKeeperMap, Armed id s.history)
    (erased : ∀ id, s.owner = .starting (.stopTimer id) ∨ s.owner = .returning (.stopTimer id) →
      id ∉ s.timeKeeperMap)
    (justified : Justified s.history) : Good s where
  ids := ids
  copy id entry hid := by
    rw [hcopy] at hid
    cases hid
  due := by
    unfold DueIn
    cases hthread : s.thread with
    | woken id entry => rw [hthread] at hcopy; cases hcopy
    | locked id entry => rw [hthread] at hcopy; cases hcopy
    | emitting id entry => rw [hthread] at hcopy; cases hcopy
    | _ => trivial
  alone := alone
  armed id hgone hmem := absurd (armed id hmem) hgone
  erased := erased
  justified := justified

/-- The thread goes to a place without a copy, and the map stays as it is. -/
theorem Good.moveThread (h : Good s) (thread : Thread) (stopped : Bool)
    (hcopy : copyOf thread = none) (habsent : s.thread ≠ .absent)
    (hemitted : ∀ id, ¬JustEmitted s.thread id) :
    Good { s with thread := thread, stopped := stopped } :=
  good_of_noCopy hcopy h.ids (fun call hcall => absurd (h.alone call hcall) habsent)
    (fun _ hmem => h.armed_of_mem hemitted hmem) h.erased h.justified

/-- The thread goes on with its copy. -/
theorem Good.keepCopy (h : Good s) {thread : Thread} (hcopy : copyOf thread = copyOf s.thread)
    (hsome : copyOf s.thread ≠ none) (hdue : DueIn { s with thread := thread })
    (hemitted : ∀ id, ¬JustEmitted s.thread id) : Good { s with thread := thread } where
  ids := h.ids
  copy id entry hid := h.copy id entry (by rw [← hcopy]; exact hid)
  due := hdue
  alone call hcall := by
    rw [h.alone call hcall] at hsome
    exact absurd rfl hsome
  armed id hgone hmem := absurd (h.armed id hgone hmem) (hemitted id)
  erased := h.erased
  justified := h.justified

/-- A thread at another place has not just emitted. -/
theorem not_justEmitted {thread : Thread} (h : ∀ id entry, thread ≠ .emitted id entry)
    (id : Int16) : ¬JustEmitted thread id := by
  rintro ⟨id', entry, heq, -⟩
  exact h id' entry heq

/-- The same for the thread of a state. -/
theorem not_justEmitted_at {thread : Thread} (hthread : s.thread = thread)
    (h : ∀ id entry, thread ≠ .emitted id entry) (id : Int16) : ¬JustEmitted s.thread id := by
  rw [hthread]
  exact not_justEmitted h id

/-- The thread has chosen a timer. -/
theorem Good.choose (h : Good s) (hthread : s.thread = .choosing) {entry : TimerData}
    (hlookup : s.timeKeeperMap.lookup (getClosestTimerId s.timeKeeperMap) = some entry) :
    Good { s with thread := .waiting (getClosestTimerId s.timeKeeperMap) entry } where
  ids := h.ids
  copy id' entry' hid := by
    obtain ⟨rfl, rfl⟩ := Prod.mk.inj (Option.some.inj hid)
    exact ⟨hlookup, getClosestTimerId_spec h.ids hlookup⟩
  due := trivial
  alone call hcall := by
    have habsent := h.alone call hcall
    rw [hthread] at habsent
    cases habsent
  armed id hgone hmem := by
    obtain ⟨id', entry', heq, -⟩ := h.armed id hgone hmem
    rw [hthread] at heq
    cases heq
  erased := h.erased
  justified := h.justified

/-- The thread has emitted `timeout`. The id was armed, because the map holds it. -/
theorem Good.emit (h : Good s) {id : Int16} {entry : TimerData}
    (hthread : s.thread = .emitting id entry) :
    Good { s with
      thread := .emitted id entry
      history := .timeout entry.id entry.periodic :: s.history } where
  ids := h.ids
  copy id' entry' hid := h.copy id' entry' (by rw [hthread]; exact hid)
  due := trivial
  alone call hcall := by
    have habsent := h.alone call hcall
    rw [hthread] at habsent
    cases habsent
  armed id' hgone hmem := by
    by_cases hlast : id' = entry.id ∧ entry.periodic = false
    · exact ⟨id, entry, rfl, hlast.1.symm, hlast.2⟩
    · have hgone' : ¬Armed id' s.history := fun harmed => hgone ⟨hlast, harmed⟩
      obtain ⟨id'', entry', heq, -⟩ := h.armed id' hgone' hmem
      rw [hthread] at heq
      cases heq
  erased := h.erased
  justified := by
    refine ⟨?_, h.justified⟩
    -- the copy is in the map, and at this place the map holds only armed ids
    by_contra hgone
    obtain ⟨hlookup, -⟩ := h.copy id entry (by rw [hthread]; rfl)
    have hmem : entry.id ∈ s.timeKeeperMap := by
      rw [h.ids id entry hlookup, ← AList.lookup_isSome, hlookup]
      rfl
    obtain ⟨id', entry', heq, -⟩ := h.armed entry.id hgone hmem
    rw [hthread] at heq
    cases heq

/-- The update after an emission brings no new id, because `operator[]` finds the entry it looks
for, and it erases that of a one-shot timer. -/
theorem mem_of_mem_update {timeKeeperMap : TimerMap} {now : Int} {id id' : Int16}
    {entry : TimerData} (hlookup : timeKeeperMap.lookup id = some entry)
    (hid' : id' ∈ CombinedTimer.update timeKeeperMap now id entry) :
    id' ∈ timeKeeperMap ∧ (entry.periodic = false → id' ≠ entry.id) := by
  unfold CombinedTimer.update at hid'
  cases hperiodic : entry.periodic with
  | true =>
    rw [if_pos hperiodic, AList.mem_insert] at hid'
    refine ⟨?_, fun hfalse => nomatch hfalse⟩
    rcases hid' with rfl | hid'
    · rw [← AList.lookup_isSome, hlookup]
      rfl
    · exact hid'
  | false =>
    rw [if_neg (by simp [hperiodic]), AList.mem_erase] at hid'
    exact ⟨hid'.2, fun _ => hid'.1⟩

/-- The thread has updated the map after an emission. -/
theorem Good.update (h : Good s) {id : Int16} {entry : TimerData}
    (hthread : s.thread = .emitted id entry) :
    Good { s with
      timeKeeperMap := CombinedTimer.update s.timeKeeperMap s.now id entry
      thread := .loopHead } := by
  obtain ⟨hlookup, -⟩ := h.copy id entry (by rw [hthread]; rfl)
  have hid := h.ids id entry hlookup
  refine good_of_noCopy rfl ?_ ?_ ?_ ?_ h.justified
  · intro id' entry' hlookup'
    simp only [CombinedTimer.update] at hlookup'
    split at hlookup'
    · by_cases heq : id' = id
      · subst heq
        rw [AList.lookup_insert, hlookup] at hlookup'
        obtain rfl := Option.some.inj hlookup'
        exact hid
      · rw [AList.lookup_insert_ne heq] at hlookup'
        exact h.ids id' entry' hlookup'
    · by_cases heq : id' = entry.id
      · rw [heq, AList.lookup_erase] at hlookup'
        cases hlookup'
      · rw [AList.lookup_erase_ne heq] at hlookup'
        exact h.ids id' entry' hlookup'
  · intro call hcall
    have habsent := h.alone call hcall
    rw [hthread] at habsent
    cases habsent
  · intro id' hid'
    obtain ⟨hold, hne⟩ := mem_of_mem_update hlookup hid'
    by_contra hgone
    -- the one id that is in the map and not armed is the one that has just been erased
    obtain ⟨id'', entry', heq, hlast, hperiodic⟩ := h.armed id' hgone hold
    rw [hthread] at heq
    obtain ⟨-, rfl⟩ := Thread.emitted.inj heq
    exact absurd hlast.symm (hne hperiodic)
  · intro id' hcall hid'
    exact h.erased id' hcall (mem_of_mem_update hlookup hid').1

/-- One step of the timer thread. -/
theorem threadStep_good (h : Good s) (hstep : threadStep s = some t) : Good t := by
  have hdue := h.due
  unfold DueIn at hdue
  cases threadStep_moves hstep with
  | test hthread =>
    refine h.moveThread _ s.stopped ?_ (hthread ▸ Thread.noConfusion)
      (not_justEmitted_at hthread fun _ _ => Thread.noConfusion)
    split <;> rfl
  | none hthread =>
    exact h.moveThread .finished true rfl (hthread ▸ Thread.noConfusion)
      (not_justEmitted_at hthread fun _ _ => Thread.noConfusion)
  | throws hthread =>
    exact h.moveThread .terminated s.stopped rfl (hthread ▸ Thread.noConfusion)
      (not_justEmitted_at hthread fun _ _ => Thread.noConfusion)
  | choose hthread hlookup => exact h.choose hthread hlookup
  | wake hthread hwake =>
    exact h.keepCopy (by rw [hthread]; rfl) (by rw [hthread]; exact Option.some_ne_none _) hwake
      (not_justEmitted_at hthread fun _ _ => Thread.noConfusion)
  | lock hthread =>
    rw [hthread] at hdue
    exact h.keepCopy (by rw [hthread]; rfl) (by rw [hthread]; exact Option.some_ne_none _) hdue
      (not_justEmitted_at hthread fun _ _ => Thread.noConfusion)
  | goBack hthread hstopped =>
    exact h.moveThread .loopHead s.stopped rfl (hthread ▸ Thread.noConfusion)
      (not_justEmitted_at hthread fun _ _ => Thread.noConfusion)
  | goOn hthread hstopped =>
    rw [hthread] at hdue
    -- the thread has not been woken to stop, so the deadline has been reached
    exact h.keepCopy (by rw [hthread]; rfl) (by rw [hthread]; exact Option.some_ne_none _)
      (hdue.resolve_right hstopped) (not_justEmitted_at hthread fun _ _ => Thread.noConfusion)
  | emit hthread => exact h.emit hthread
  | update hthread => exact h.update hthread

/-- The owner moves to a place where the thread may run, and perhaps tells it to stop. -/
theorem Good.moveOwner (h : Good s) (owner : Owner) (stopped : Bool)
    (hstopped : stopped = s.stopped ∨ stopped = true)
    (hplace : ∀ call, owner ≠ .changing call ∧ owner ≠ .starting call ∧ owner ≠ .returning call) :
    Good { s with stopped := stopped, owner := owner } where
  ids := h.ids
  copy := h.copy
  due := by
    have hdue := h.due
    -- a thread that has been woken only to stop stays so
    have hmono : ∀ date, date ≤ s.now ∨ s.stopped = true → date ≤ s.now ∨ stopped = true := by
      rintro date (hle | hold)
      · exact Or.inl hle
      · rcases hstopped with rfl | rfl
        · exact Or.inr hold
        · exact Or.inr rfl
    unfold DueIn at hdue ⊢
    cases hthread : s.thread with
    | woken id entry => rw [hthread] at hdue; exact hmono _ hdue
    | locked id entry => rw [hthread] at hdue; exact hmono _ hdue
    | emitting id entry => rw [hthread] at hdue; exact hdue
    | _ => trivial
  alone call hcall := absurd hcall (not_or.mpr ⟨(hplace call).1, (hplace call).2.1⟩)
  armed := h.armed
  erased id hcall := absurd hcall (not_or.mpr ⟨(hplace _).2.1, (hplace _).2.2⟩)
  justified := h.justified

/-- The owner has joined the thread. -/
theorem Good.join (h : Good s) (call : Call)
    (hthread : s.thread = .absent ∨ s.thread = .finished) :
    Good { s with thread := .absent, owner := .changing call } := by
  refine good_of_noCopy rfl h.ids (fun _ _ => rfl) ?_ ?_ h.justified
  · intro id hmem
    refine h.armed_of_mem (not_justEmitted fun id' entry heq => ?_) hmem
    rcases hthread with habsent | hfinished
    · rw [habsent] at heq
      cases heq
    · rw [hfinished] at heq
      cases heq
  · rintro id (hcall | hcall)
    · cases hcall
    · cases hcall

/-- While there is no thread, every id of the map is armed. -/
theorem Good.armed_of_absent (h : Good s) (habsent : s.thread = .absent) (id : Int16)
    (hmem : id ∈ s.timeKeeperMap) : Armed id s.history :=
  h.armed_of_mem (not_justEmitted (by rw [habsent]; exact fun _ _ => Thread.noConfusion)) hmem

/-- `addTimer` has stored the new timer, over one that had the same id, if any. -/
theorem Good.addTimer (h : Good s) (habsent : s.thread = .absent) (lastTimerId : Int16)
    (call : Call) (hcall : ∀ id, call ≠ .stopTimer id) (entry : TimerData) :
    Good { s with
      lastTimerId := lastTimerId
      timeKeeperMap := s.timeKeeperMap.insert entry.id entry
      owner := .starting call
      history := .inserted entry.id :: s.history } := by
  refine good_of_noCopy (by rw [habsent]; rfl) ?_ (fun _ _ => habsent) ?_ ?_ h.justified
  · intro id entry' hlookup
    by_cases heq : id = entry.id
    · subst heq
      rw [AList.lookup_insert] at hlookup
      rw [← Option.some.inj hlookup]
    · rw [AList.lookup_insert_ne heq] at hlookup
      exact h.ids id entry' hlookup
  · intro id hmem
    rcases AList.mem_insert _ |>.mp hmem with heq | hold
    · exact Or.inl heq
    · exact Or.inr (h.armed_of_absent habsent id hold)
  · rintro id (hstarting | hreturning)
    · exact absurd (Owner.starting.inj hstarting) (hcall id)
    · cases hreturning

/-- `stopTimer` has erased the timer. -/
theorem Good.stopTimer (h : Good s) (habsent : s.thread = .absent) (timerId : Int16) :
    Good { s with
      timeKeeperMap := s.timeKeeperMap.erase timerId
      owner := .starting (.stopTimer timerId) } := by
  refine good_of_noCopy (by rw [habsent]; rfl) ?_ (fun _ _ => habsent) ?_ ?_ h.justified
  · intro id entry hlookup
    by_cases heq : id = timerId
    · rw [heq, AList.lookup_erase] at hlookup
      cases hlookup
    · rw [AList.lookup_erase_ne heq] at hlookup
      exact h.ids id entry hlookup
  · intro id hmem
    exact h.armed_of_absent habsent id (AList.mem_erase.mp hmem).2
  · rintro id (hstarting | hreturning)
    · obtain rfl := Call.stopTimer.inj (Owner.starting.inj hstarting)
      exact fun hmem => (AList.mem_erase.mp hmem).1 rfl
    · cases hreturning

/-- The new thread has been started. -/
theorem Good.start (h : Good s) {call : Call} (howner : s.owner = .starting call) :
    Good { s with stopped := false, thread := .loopHead, owner := .returning call } := by
  have habsent := h.alone call (Or.inr howner)
  refine good_of_noCopy rfl h.ids ?_ (h.armed_of_absent habsent) ?_ h.justified
  · rintro call' (hcall | hcall)
    · cases hcall
    · cases hcall
  · rintro id (hstarting | hreturning)
    · cases hstarting
    · rw [Owner.returning.inj hreturning] at howner
      exact h.erased id (Or.inl howner)

/-- `stopTimer` has returned true. Its timer is no longer in the map, so an id of the map is as
armed as before. -/
theorem Good.stopped (h : Good s) {timerId : Int16}
    (howner : s.owner = .returning (.stopTimer timerId)) :
    Good { s with owner := .idle, history := .stopped timerId :: s.history } where
  ids := h.ids
  copy := h.copy
  due := h.due
  alone := by
    rintro call (hcall | hcall)
    · cases hcall
    · cases hcall
  armed id hgone hmem := by
    -- the one id that the event disarms has been erased before the thread was started again
    refine h.armed id (fun harmed => hgone ⟨?_, harmed⟩) hmem
    rintro rfl
    exact h.erased id (Or.inr howner) hmem
  erased := by
    rintro id (hcall | hcall)
    · cases hcall
    · cases hcall
  justified := h.justified

/-- One step of the owner. -/
theorem ownerStep_good (h : Good s) (hstep : ownerStep s = some t) : Good t := by
  cases ownerStep_moves hstep with
  | stop =>
    exact h.moveOwner (.joining _) true (Or.inr rfl) fun _ =>
      ⟨Owner.noConfusion, Owner.noConfusion, Owner.noConfusion⟩
  | @noThread call howner habsent =>
    -- the thread has never been started
    have hjoin := h.join call (Or.inl habsent)
    rwa [← habsent] at hjoin
  | join howner hfinished => exact h.join _ (Or.inr hfinished)
  | @add duration_ms periodic howner =>
    exact h.addTimer (h.alone _ (Or.inl howner)) (s.lastTimerId + 1)
      (.addTimer duration_ms periodic) (fun _ => Call.noConfusion)
      ⟨periodic, s.lastTimerId, duration_ms, s.now + milliseconds duration_ms⟩
  | erase howner => exact h.stopTimer (h.alone _ (Or.inl howner)) _
  | start howner => exact h.start howner
  | added howner =>
    exact h.moveOwner .idle s.stopped (Or.inl rfl) fun _ =>
      ⟨Owner.noConfusion, Owner.noConfusion, Owner.noConfusion⟩
  | stopped howner => exact h.stopped howner

/-- A call begins. -/
theorem begin_good (h : Good s) {call : Call} (hstep : begin s call = some t) : Good t := by
  rcases begin_cases hstep with rfl | rfl
  · exact h
  · exact h.moveOwner (.stopping call) s.stopped (Or.inl rfl) fun _ =>
      ⟨Owner.noConfusion, Owner.noConfusion, Owner.noConfusion⟩

/-- The clock advances. -/
theorem tick_good (h : Good s) (elapsed : Nat) : Good { s with now := s.now + elapsed } where
  ids := h.ids
  copy := h.copy
  due := by
    have hdue := h.due
    unfold DueIn at hdue ⊢
    cases hthread : s.thread with
    | woken id entry => rw [hthread] at hdue; exact hdue.imp_left (by intro hle; simp only; omega)
    | locked id entry => rw [hthread] at hdue; exact hdue.imp_left (by intro hle; simp only; omega)
    | emitting id entry => rw [hthread] at hdue; simp only at hdue ⊢; omega
    | _ => trivial
  alone := h.alone
  armed := h.armed
  erased := h.erased
  justified := h.justified

/-- A map in another order holds the same timers. -/
theorem mem_of_mem_reorder {timeKeeperMap timeKeeperMap' : TimerMap}
    (hperm : timeKeeperMap.entries.Perm timeKeeperMap'.entries) {id : Int16}
    (hid : id ∈ timeKeeperMap) : id ∈ timeKeeperMap' := by
  rw [← AList.lookup_isSome, AList.perm_lookup hperm, AList.lookup_isSome] at hid
  exact hid

/-- The map changes its order. -/
theorem reorder_good (h : Good s) {timeKeeperMap : TimerMap}
    (hperm : timeKeeperMap.entries.Perm s.timeKeeperMap.entries) :
    Good { s with timeKeeperMap := timeKeeperMap } := by
  -- the invariant looks at the map through `lookup` only
  have hlookup : ∀ id, timeKeeperMap.lookup id = s.timeKeeperMap.lookup id :=
    fun id => AList.perm_lookup hperm
  constructor
  · intro id entry hid
    exact h.ids id entry (by rw [← hlookup]; exact hid)
  · intro id entry hid
    obtain ⟨hold, hnone⟩ := h.copy id entry hid
    refine ⟨by rw [← hold]; exact hlookup id, fun id' entry' hid' => ?_⟩
    exact hnone id' entry' (by rw [← hlookup]; exact hid')
  · exact h.due
  · exact h.alone
  · exact fun id hgone hid => h.armed id hgone (mem_of_mem_reorder hperm hid)
  · exact fun id hcall hid => h.erased id hcall (mem_of_mem_reorder hperm hid)
  · exact h.justified

/-- A new `combined_timer` is good. -/
theorem initial_good (h : Initial s) : Good s := by
  obtain ⟨-, hmap, -, hthread, howner, hhistory⟩ := h
  refine good_of_noCopy (by rw [hthread]; rfl) ?_ (fun _ _ => hthread) ?_ ?_ ?_
  · intro id entry hlookup
    rw [hmap, AList.lookup_empty] at hlookup
    cases hlookup
  · intro id hmem
    rw [hmap] at hmem
    exact absurd hmem (AList.notMem_empty id)
  · intro id _ hmem
    rw [hmap] at hmem
    exact AList.notMem_empty id hmem
  · rw [hhistory]
    trivial

/-- One step of the whole. -/
theorem next_good (h : Good s) (hstep : Next s t) : Good t := by
  cases hstep with
  | begin call t hbegin => exact begin_good h hbegin
  | owner t howner => exact ownerStep_good h howner
  | thread t hthread => exact threadStep_good h hthread
  | tick elapsed => exact tick_good h elapsed
  | reorder timeKeeperMap hperm => exact reorder_good h hperm

/-- Every state that a `combined_timer` reaches is good. -/
theorem good_of_reachable (h : Reachable Initial Next s) : Good s :=
  h.invariant (fun _ => initial_good) fun _ _ _ hs hst => next_good hs hst

/-! ### What the steps add to the history -/

/-- The owner adds no emission. -/
theorem ownerStep_history (hstep : ownerStep s = some t) :
    t.history = s.history ∨ (∃ id, t.history = .inserted id :: s.history) ∨
      ∃ id, t.history = .stopped id :: s.history := by
  cases ownerStep_moves hstep with
  | add => exact Or.inr (Or.inl ⟨_, rfl⟩)
  | stopped => exact Or.inr (Or.inr ⟨_, rfl⟩)
  | _ => exact Or.inl rfl

/-- The thread adds an emission at one place. -/
theorem threadStep_history (hstep : threadStep s = some t) :
    t.history = s.history ∨ ∃ id entry, s.thread = .emitting id entry ∧
      t.history = .timeout entry.id entry.periodic :: s.history := by
  cases threadStep_moves hstep with
  | emit hthread => exact Or.inr ⟨_, _, hthread, rfl⟩
  | _ => exact Or.inl rfl

/-- A step that emits `timeout` is the thread's, at the place before the emission. -/
theorem next_timeout (hstep : Next s t) {id : Int16} {periodic : Bool}
    (hhistory : t.history = .timeout id periodic :: s.history) :
    ∃ closestTimerId entry, s.thread = .emitting closestTimerId entry ∧ entry.id = id := by
  have hgrown : t.history ≠ s.history := by
    rw [hhistory]
    exact List.cons_ne_self _ _
  cases hstep with
  | begin call t hbegin => rcases begin_cases hbegin with rfl | rfl <;> exact absurd rfl hgrown
  | owner t howner =>
    rcases ownerStep_history howner with hsame | ⟨id', hadded⟩ | ⟨id', hadded⟩
    · exact absurd hsame hgrown
    · rw [hadded] at hhistory
      exact nomatch (List.cons.inj hhistory).1
    · rw [hadded] at hhistory
      exact nomatch (List.cons.inj hhistory).1
  | thread t hthread =>
    rcases threadStep_history hthread with hsame | ⟨closestTimerId, entry, hemitting, hadded⟩
    · exact absurd hsame hgrown
    · rw [hadded] at hhistory
      exact ⟨closestTimerId, entry, hemitting, (Event.timeout.inj (List.cons.inj hhistory).1).1⟩
  | tick elapsed => exact absurd rfl hgrown
  | reorder timeKeeperMap hperm => exact absurd rfl hgrown

end

/-! ### The result -/

/-- `id` has been inserted and since then neither emitted for the last time nor stopped. -/
def InsertedSince (id : Int16) (history : List Event) : Prop :=
  ∃ newer older, history = newer ++ .inserted id :: older ∧
    .timeout id false ∉ newer ∧ .stopped id ∉ newer

/-- An event that leaves `id` alone may be added. -/
theorem InsertedSince.cons {id : Int16} {history : List Event} (h : InsertedSince id history)
    {event : Event} (htimeout : event ≠ .timeout id false) (hstopped : event ≠ .stopped id) :
    InsertedSince id (event :: history) := by
  obtain ⟨newer, older, rfl, htimeout', hstopped'⟩ := h
  refine ⟨event :: newer, older, rfl, ?_, ?_⟩
  · exact List.not_mem_cons_of_ne_of_not_mem htimeout.symm htimeout'
  · exact List.not_mem_cons_of_ne_of_not_mem hstopped.symm hstopped'

/-- What `Armed` says, in terms of the places of the events. -/
theorem insertedSince_of_armed {id : Int16} {history : List Event} (h : Armed id history) :
    InsertedSince id history := by
  induction history with
  | nil => exact h.elim
  | cons event past ih =>
    cases event with
    | inserted id' =>
      by_cases heq : id = id'
      · subst heq
        exact ⟨[], past, rfl, List.not_mem_nil, List.not_mem_nil⟩
      · exact (ih (h.resolve_left heq)).cons Event.noConfusion Event.noConfusion
    | stopped id' =>
      refine (ih h.2).cons Event.noConfusion fun heq => h.1 ?_
      exact (Event.stopped.inj heq).symm
    | timeout id' periodic =>
      refine (ih h.2).cons (fun heq => h.1 ?_) Event.noConfusion
      obtain ⟨rfl, rfl⟩ := Event.timeout.inj heq
      exact ⟨rfl, rfl⟩

/-- At every emission of a justified history the id was armed. -/
theorem armed_of_justified {newer past : List Event} {id : Int16} {periodic : Bool}
    (h : Justified (newer ++ .timeout id periodic :: past)) : Armed id past := by
  induction newer with
  | nil => exact h.1
  | cons event newer ih =>
    cases event with
    | inserted id' => exact ih h
    | stopped id' => exact ih h
    | timeout id' periodic' => exact ih h.2

/-- In every state that a `combined_timer` reaches:

* an emission of `timeout(id)` can happen only while the map holds a timer with that id that has
  expired, and that expires no later than any other;
* each emission so far was of an id that had been inserted, and since then neither emitted for
  the last time nor stopped;
* the same holds for each id in the map, but for one that has just been emitted for the last
  time by a thread that goes on to erase it. -/
theorem timeouts_sound {s : State} (h : Reachable Initial Next s) :
    (∀ t id periodic, Next s t → t.history = .timeout id periodic :: s.history →
      ∃ entry, s.timeKeeperMap.lookup id = some entry ∧ entry.expirationDate ≤ s.now ∧
        ∀ id' entry', s.timeKeeperMap.lookup id' = some entry' →
          entry.expirationDate ≤ entry'.expirationDate) ∧
    (∀ newer id periodic past, s.history = newer ++ .timeout id periodic :: past →
      InsertedSince id past) ∧
    ∀ id ∈ s.timeKeeperMap, InsertedSince id s.history ∨ JustEmitted s.thread id := by
  have hgood := good_of_reachable h
  refine ⟨fun t id periodic hstep hhistory => ?_, fun newer id periodic past hhistory => ?_,
    fun id hmem => ?_⟩
  · obtain ⟨closestTimerId, entry, hthread, rfl⟩ := next_timeout hstep hhistory
    obtain ⟨hlookup, hnone⟩ := hgood.copy closestTimerId entry (by rw [hthread]; rfl)
    have hdue := hgood.due
    rw [DueIn, hthread] at hdue
    refine ⟨entry, ?_, hdue, hnone⟩
    rw [hgood.ids closestTimerId entry hlookup]
    exact hlookup
  · have hjustified := hgood.justified
    rw [hhistory] at hjustified
    exact insertedSince_of_armed (armed_of_justified hjustified)
  · by_cases harmed : Armed id s.history
    · exact Or.inl (insertedSince_of_armed harmed)
    · exact Or.inr (hgood.armed id harmed hmem)

/-- The result after the only emission of a one-shot timer. -/
theorem timeouts_sound_one_shot :
    ∃ s : State, s.history = [.timeout 0 false, .inserted 0] ∧ InsertedSince 0 [.inserted 0] ∧
      (InsertedSince 0 s.history ∨ JustEmitted s.thread 0) := by
  have hfresh : Initial ⟨0, ∅, true, 0, .absent, .idle, []⟩ := ⟨rfl, rfl, rfl, rfl, rfl, rfl⟩
  have hstarted : Reachable Initial Next _ := .start hfresh
  have hadded := ((((hstarted.step (Next.begin (.addTimer 1 false) _ rfl)).step
    (Next.owner _ rfl)).step (Next.owner _ rfl)).step (Next.owner _ rfl)).step (Next.owner _ rfl)
  have hwaiting := (((hadded.step (Next.owner _ rfl)).step (Next.thread _ rfl)).step
    (Next.thread _ rfl)).step (Next.tick 1000000)
  have hemitted := (((hwaiting.step (Next.thread _ rfl)).step (Next.thread _ rfl)).step
    (Next.thread _ rfl)).step (Next.thread _ rfl)
  have hsound := timeouts_sound hemitted
  exact ⟨_, rfl, hsound.2.1 [] 0 false _ rfl, hsound.2.2 0 (AList.lookup_isSome.mp rfl)⟩

end Brutils.Proofs.Timers
