import Brutils.Proofs.Timers.CombinedTimer

/-!
# `Brutils.Proofs.Timers.TimerIds`: what the ids of a `combined_timer` identify

`addTimer` takes its id from a counter of 16 bits and does not ask whether the id is in use.
So the ids repeat after 65536 calls, and the 65536th call gets the id -1, which `run` takes for
"no timer".

Calls are numbered here from 0, in the order in which they store their timers. `adds` is the
number of calls so far, and `addedAt` the number of the call that has stored the timer under
an id. `Apart` is the condition under which the next call gets a good id, in terms of
these numbers. `timer_ids_identify` is the result for every run whose calls meet it, and
`minus_one_is_issued` the run of 65536 calls.
-/

set_option autoImplicit false

namespace Brutils.Proofs.Timers

open Transition (Reachable)
open Brutils.CombinedTimer

/-- The number of calls that have stored a timer. -/
def adds : List Event → Nat
  | [] => 0
  | .inserted _ :: past => adds past + 1
  | .stopped _ :: past => adds past
  | .timeout _ _ :: past => adds past

/-- The number of the call that has stored the timer under `id`. -/
def addedAt (id : Int16) : List Event → Option Nat
  | [] => none
  | .inserted id' :: past => if id = id' then some (adds past) else addedAt id past
  | .stopped _ :: past => addedAt id past
  | .timeout _ _ :: past => addedAt id past

/-- A step in which `addTimer` stores a timer. -/
def Adds (s t : State) : Prop := ∃ id, t.history = .inserted id :: s.history

/-- The number of the next call is not one less than a multiple of 65536, and no timer is pending
that a call has added whose number differs from it by a multiple of 65536. -/
def Apart (s : State) : Prop :=
  adds s.history % 65536 ≠ 65535 ∧ ∀ id ∈ s.timeKeeperMap, ∀ n,
    addedAt id s.history = some n → n % 65536 ≠ adds s.history % 65536

/-- What a step must do for ids to identify timers: a new id is that of no pending timer, and
not -1, so that no pending timer is overwritten, and the thread does not declare itself stopped
while a timer is pending. -/
structure Identifies (s t : State) : Prop where
  fresh : ∀ id, t.history = .inserted id :: s.history → id ∉ s.timeKeeperMap ∧ id ≠ -1 ∧
    ∀ id' entry, s.timeKeeperMap.lookup id' = some entry →
      t.timeKeeperMap.lookup id' = some entry
  stops : s.thread = .choosing → t.thread = .finished → s.timeKeeperMap = ∅

/-! ### What a step changes -/

/-- A step that stores no timer. -/
structure Quiet (s t : State) : Prop where
  lastTimerId : t.lastTimerId = s.lastTimerId
  timeKeeperMap : ∀ id ∈ t.timeKeeperMap, id ∈ s.timeKeeperMap
  history : t.history = s.history ∨ ∃ event, t.history = event :: s.history ∧
    ∀ id, event ≠ .inserted id

section
variable {s t : State}

/-- A quiet step is no call that stores a timer. -/
theorem Quiet.adds_eq (h : Quiet s t) : adds t.history = adds s.history := by
  rcases h.history with hsame | ⟨event, hadded, hevent⟩
  · rw [hsame]
  · rw [hadded]
    cases event with
    | inserted id => exact absurd rfl (hevent id)
    | stopped id => rfl
    | timeout id periodic => rfl

/-- So the numbers of the calls behind the ids stay the same. -/
theorem Quiet.addedAt_eq (h : Quiet s t) (id : Int16) :
    addedAt id t.history = addedAt id s.history := by
  rcases h.history with hsame | ⟨event, hadded, hevent⟩
  · rw [hsame]
  · rw [hadded]
    cases event with
    | inserted id' => exact absurd rfl (hevent id')
    | stopped id' => rfl
    | timeout id' periodic => rfl

/-- A quiet step stores no timer. -/
theorem Quiet.not_adds (h : Quiet s t) : ¬Adds s t := by
  rintro ⟨id, hid⟩
  rcases h.history with hsame | ⟨event, hadded, hevent⟩
  · exact List.cons_ne_self _ _ (hid.symm.trans hsame)
  · rw [hadded] at hid
    exact hevent id (List.cons.inj hid).1

/-- The map and the counter stay as they are. -/
theorem quiet_of_same (hid : t.lastTimerId = s.lastTimerId)
    (hmap : t.timeKeeperMap = s.timeKeeperMap) (hhistory : t.history = s.history) : Quiet s t :=
  ⟨hid, fun id hmem => by rwa [hmap] at hmem, Or.inl hhistory⟩

/-- A call that begins has stored nothing yet. -/
theorem begin_quiet {call : Call} (h : begin s call = some t) : Quiet s t := by
  rcases begin_cases h with rfl | rfl
  · exact quiet_of_same rfl rfl rfl
  · exact quiet_of_same rfl rfl rfl

/-- The owner stores a timer at one place. -/
theorem ownerStep_cases (h : ownerStep s = some t) :
    Quiet s t ∨ ∃ duration_ms periodic,
      s.owner = .changing (.addTimer duration_ms periodic) ∧ t = stored s duration_ms periodic := by
  cases ownerStep_moves h with
  | add howner => exact Or.inr ⟨_, _, howner, rfl⟩
  | erase => exact Or.inl ⟨rfl, fun id hmem => (AList.mem_erase.mp hmem).2, Or.inl rfl⟩
  | stopped =>
    exact Or.inl ⟨rfl, fun _ hmem => hmem, Or.inr ⟨_, rfl, fun _ => Event.noConfusion⟩⟩
  | _ => exact Or.inl (quiet_of_same rfl rfl rfl)

/-- The thread stores no new timer. It reschedules and erases those that are there. -/
theorem threadStep_quiet (hgood : Good s) (h : threadStep s = some t) : Quiet s t := by
  cases threadStep_moves h with
  | emit => exact ⟨rfl, fun _ hmem => hmem, Or.inr ⟨_, rfl, fun _ => Event.noConfusion⟩⟩
  | update hthread =>
    obtain ⟨hlookup, -⟩ := hgood.copy _ _ (by rw [hthread]; rfl)
    exact ⟨rfl, fun id' hmem => (mem_of_mem_update hlookup hmem).1, Or.inl rfl⟩
  | _ => exact quiet_of_same rfl rfl rfl

/-- A step of the whole is quiet, or it is the one that stores a timer. -/
theorem next_cases (hgood : Good s) (h : Next s t) :
    Quiet s t ∨ ∃ duration_ms periodic,
      s.owner = .changing (.addTimer duration_ms periodic) ∧ t = stored s duration_ms periodic := by
  cases h with
  | begin call t hbegin => exact Or.inl (begin_quiet hbegin)
  | owner t howner => exact ownerStep_cases howner
  | thread t hthread => exact Or.inl (threadStep_quiet hgood hthread)
  | tick elapsed => exact Or.inl (quiet_of_same rfl rfl rfl)
  | reorder timeKeeperMap hperm =>
    exact Or.inl ⟨rfl, fun id hmem => mem_of_mem_reorder hperm hmem, Or.inl rfl⟩

/-! ### The counter and the numbers of the calls -/

/-- Ids and numbers of calls correspond. -/
structure Numbered (s : State) : Prop where
  counter : s.lastTimerId = Int16.ofNat (adds s.history)
  pending : ∀ id ∈ s.timeKeeperMap, ∃ n, addedAt id s.history = some n ∧ id = Int16.ofNat n
  noMinusOne : -1 ∉ s.timeKeeperMap

/-- Two numbers of calls give the same id when they differ by a multiple of 65536. -/
theorem ofNat_eq_iff {m n : Nat} : Int16.ofNat m = Int16.ofNat n ↔ m % 65536 = n % 65536 := by
  constructor
  · intro h
    have hbits : BitVec.ofNat 16 m = BitVec.ofNat 16 n := congrArg Int16.toBitVec h
    have hnat := congrArg BitVec.toNat hbits
    rwa [BitVec.toNat_ofNat, BitVec.toNat_ofNat] at hnat
  · intro h
    have hbits : BitVec.ofNat 16 m = BitVec.ofNat 16 n := by
      apply BitVec.eq_of_toNat_eq
      rwa [BitVec.toNat_ofNat, BitVec.toNat_ofNat]
    exact congrArg (fun bits => Int16.ofUInt16 ⟨bits⟩) hbits

/-- The id -1 is that of every 65536th call. -/
theorem ofNat_eq_neg_one_iff {n : Nat} : Int16.ofNat n = -1 ↔ n % 65536 = 65535 := by
  have hminus : (-1 : Int16) = Int16.ofNat 65535 := by decide
  rw [hminus, ofNat_eq_iff]

/-- The next id is good exactly when the next call is apart. -/
theorem apart_iff (h : Numbered s) :
    Apart s ↔ s.lastTimerId ∉ s.timeKeeperMap ∧ s.lastTimerId ≠ -1 := by
  rw [h.counter, ne_eq, ofNat_eq_neg_one_iff]
  constructor
  · rintro ⟨hminus, hpending⟩
    refine ⟨?_, hminus⟩
    intro hmem
    obtain ⟨n, hadded, hid⟩ := h.pending _ hmem
    exact hpending _ hmem n hadded (ofNat_eq_iff.mp hid).symm
  · rintro ⟨hfresh, hminus⟩
    refine ⟨hminus, ?_⟩
    intro id hmem n hadded heq
    obtain ⟨n', hadded', hid⟩ := h.pending id hmem
    obtain rfl := Option.some.inj (hadded.symm.trans hadded')
    exact hfresh (by rwa [← ofNat_eq_iff.mpr heq, ← hid])

/-- At the start there are no calls and no timers. -/
theorem numbered_initial (h : Initial s) : Numbered s := by
  obtain ⟨hid, hmap, -, -, -, hhistory⟩ := h
  refine ⟨?_, ?_, ?_⟩
  · rw [hid, hhistory]
    rfl
  · intro id hmem
    rw [hmap] at hmem
    exact absurd hmem (AList.notMem_empty id)
  · rw [hmap]
    exact AList.notMem_empty (-1)

/-- A quiet step keeps the numbering. -/
theorem Quiet.numbered (hquiet : Quiet s t) (h : Numbered s) : Numbered t where
  counter := by rw [hquiet.lastTimerId, hquiet.adds_eq, h.counter]
  pending id hmem := by
    rw [hquiet.addedAt_eq]
    exact h.pending id (hquiet.timeKeeperMap id hmem)
  noMinusOne hmem := h.noMinusOne (hquiet.timeKeeperMap (-1) hmem)

/-- A call that is apart keeps the correspondence. -/
theorem numbered_stored (h : Numbered s) (hapart : Apart s) (duration_ms : Nat) (periodic : Bool) :
    Numbered (stored s duration_ms periodic) where
  counter := by
    show s.lastTimerId + 1 = Int16.ofNat (adds s.history + 1)
    rw [h.counter, Int16.ofNat_add]
    rfl
  pending id hmem := by
    show ∃ n, (if id = s.lastTimerId then _ else _) = some n ∧ _
    by_cases heq : id = s.lastTimerId
    · exact ⟨adds s.history, if_pos heq, heq.trans h.counter⟩
    · rw [if_neg heq]
      exact h.pending id ((AList.mem_insert _).mp hmem |>.resolve_left heq)
  noMinusOne hmem := by
    rcases (AList.mem_insert _).mp hmem with heq | hold
    · exact ((apart_iff h).mp hapart).2 heq.symm
    · exact h.noMinusOne hold

/-! ### What a step does -/

/-- The owner brings no thread to its end. -/
theorem ownerStep_thread (h : ownerStep s = some t) :
    t.thread = s.thread ∨ t.thread = .absent ∨ t.thread = .loopHead := by
  cases ownerStep_moves h with
  | join => exact Or.inr (Or.inl rfl)
  | start => exact Or.inr (Or.inr rfl)
  | _ => exact Or.inl rfl

/-- The thread goes from the choice to the end only when it finds no timer. -/
theorem getClosestTimerId_of_finished (h : Next s t) (hchoosing : s.thread = .choosing)
    (hfinished : t.thread = .finished) : getClosestTimerId s.timeKeeperMap = -1 := by
  -- every other step leaves the thread where it is, or brings it to another place
  have hsame : t.thread ≠ s.thread := by
    rw [hchoosing, hfinished]
    exact Thread.noConfusion
  cases h with
  | begin call t hbegin => rcases begin_cases hbegin with rfl | rfl <;> exact absurd rfl hsame
  | owner t howner =>
    rcases ownerStep_thread howner with hthread | hthread | hthread
    · exact absurd hthread hsame
    · exact nomatch hfinished.symm.trans hthread
    · exact nomatch hfinished.symm.trans hthread
  | thread t hthread =>
    cases threadStep_moves hthread with
    | test h => exact nomatch hchoosing.symm.trans h
    | none _ hid => exact hid
    | throws => cases hfinished
    | choose => cases hfinished
    | wake => cases hfinished
    | lock => cases hfinished
    | goBack => cases hfinished
    | goOn => cases hfinished
    | emit => cases hfinished
    | update => cases hfinished
  | tick elapsed => exact absurd rfl hsame
  | reorder timeKeeperMap hperm => exact absurd rfl hsame

/-- The thread declares itself stopped only when no timer is pending. -/
theorem stops_of_numbered (hgood : Good s) (hnumbered : Numbered s) (h : Next s t)
    (hchoosing : s.thread = .choosing) (hfinished : t.thread = .finished) :
    s.timeKeeperMap = ∅ := by
  by_contra hne
  have hmem := getClosestTimerId_mem hgood.ids hne
  rw [getClosestTimerId_of_finished h hchoosing hfinished] at hmem
  exact hnumbered.noMinusOne hmem

/-- A step does what ids need exactly when it stores no timer or the call is apart. -/
theorem identifies_iff (hgood : Good s) (hnumbered : Numbered s) (h : Next s t) :
    Identifies s t ↔ (Adds s t → Apart s) := by
  have hstops := stops_of_numbered hgood hnumbered h
  rcases next_cases hgood h with hquiet | ⟨duration_ms, periodic, howner, rfl⟩
  · refine iff_of_true ⟨?_, hstops⟩ fun hadds => absurd hadds hquiet.not_adds
    intro id hid
    exact absurd ⟨id, hid⟩ hquiet.not_adds
  · constructor
    · intro hidentifies hadds
      obtain ⟨hfresh, hminus, -⟩ := hidentifies.fresh s.lastTimerId rfl
      exact (apart_iff hnumbered).mpr ⟨hfresh, hminus⟩
    · intro hapart
      obtain ⟨hfresh, hminus⟩ := (apart_iff hnumbered).mp (hapart ⟨s.lastTimerId, rfl⟩)
      refine ⟨?_, hstops⟩
      intro id hid
      obtain rfl : s.lastTimerId = id := Event.inserted.inj (List.cons.inj hid).1
      refine ⟨hfresh, hminus, ?_⟩
      intro id' entry hlookup
      -- an entry under another id stays
      have hne : id' ≠ s.lastTimerId := by
        rintro rfl
        rw [← AList.lookup_isSome, hlookup] at hfresh
        exact hfresh rfl
      exact (AList.lookup_insert_ne hne).trans hlookup

/-! ### Runs -/

/-- A step that stores no timer, or whose call is apart. -/
def ApartNext (s t : State) : Prop := Next s t ∧ (Adds s t → Apart s)

/-- So ids and numbers correspond in every state of a run whose calls are apart. -/
theorem numbered_of_reachable (h : Reachable Initial ApartNext s) : Numbered s := by
  refine h.invariant (fun _ => numbered_initial) ?_
  rintro s t hs hnumbered ⟨hnext, hapart⟩
  have hgood := good_of_reachable (hs.mono (fun _ => id) fun _ _ => And.left)
  rcases next_cases hgood hnext with hquiet | ⟨duration_ms, periodic, howner, rfl⟩
  · exact hquiet.numbered hnumbered
  · exact numbered_stored hnumbered (hapart ⟨s.lastTimerId, rfl⟩) duration_ms periodic

/-- In a run whose calls of `addTimer` are all apart, each step does what ids need exactly when it
stores no timer or its call is apart. -/
theorem timer_ids_identify (h : Reachable Initial ApartNext s) (hstep : Next s t) :
    Identifies s t ↔ (Adds s t → Apart s) :=
  identifies_iff (good_of_reachable (h.mono (fun _ => id) fun _ _ => And.left))
    (numbered_of_reachable h) hstep

end

/-- The owner stores the first timer in a run of a new object. -/
theorem first_stored :
    Reachable Initial ApartNext
      (stored ⟨0, ∅, true, 0, .absent, .changing (.addTimer 1 true), []⟩ 1 true) := by
  have hstart : Reachable Initial ApartNext ⟨0, ∅, true, 0, .absent, .idle, []⟩ :=
    .start ⟨rfl, rfl, rfl, rfl, rfl, rfl⟩
  -- the steps before the timer is stored add nothing to the history
  have hbegun := hstart.step ⟨.begin (.addTimer 1 true) _ rfl,
    fun hadds => nomatch hadds⟩
  have hjoining := hbegun.step ⟨.owner _ rfl, fun hadds => nomatch hadds⟩
  have hchanging := hjoining.step ⟨.owner _ rfl, fun hadds => nomatch hadds⟩
  exact hchanging.step ⟨.owner _ rfl,
    fun _ => ⟨by decide, fun id hmem => absurd hmem (AList.notMem_empty id)⟩⟩

/-- The result for the second call of `addTimer`, which is made while the timer of the first one,
a periodic one, is pending. -/
theorem timer_ids_identify_second : ∃ s t : State,
    Next s t ∧ Adds s t ∧ (0 : Int16) ∈ s.timeKeeperMap ∧ Identifies s t := by
  have hsame : ∀ {s t : State}, t.history = s.history → Adds s t → Apart s := by
    rintro s t heq ⟨id, hid⟩
    exact absurd (heq.symm.trans hid).symm (List.cons_ne_self _ _)
  -- the first call ends with a new thread, which the second one waits for
  have hstarted := first_stored.step ⟨.owner _ rfl, hsame rfl⟩
  have hidle := hstarted.step ⟨.owner _ rfl, hsame rfl⟩
  have hbegun := hidle.step ⟨.begin (.addTimer 2 false) _ rfl, hsame rfl⟩
  have hjoining := hbegun.step ⟨.owner _ rfl, hsame rfl⟩
  have hfinished := hjoining.step ⟨.thread _ rfl, hsame rfl⟩
  have hchanging := hfinished.step ⟨.owner _ rfl, hsame rfl⟩
  refine ⟨_, _, .owner _ rfl, ⟨1, rfl⟩, AList.mem_keys.mpr List.mem_cons_self,
    (timer_ids_identify hchanging (.owner _ rfl)).mpr fun _ => ⟨by decide, fun id hmem n hn => ?_⟩⟩
  -- the pending timer is that of call 0, and this is call 1
  obtain rfl : id = 0 := (AList.mem_insert _).mp hmem |>.resolve_right (AList.notMem_empty id)
  obtain rfl : 0 = n := Option.some.inj hn
  decide

/-! ### The id -1 -/

/-- The owner is about to store a timer, `n` calls have done so before, and nothing has expired. -/
def afterCalls : Nat → State
  | 0 => ⟨0, ∅, true, 0, .absent, .changing (.addTimer 1 false), []⟩
  | n + 1 => { stored (afterCalls n) 1 false with owner := .changing (.addTimer 1 false) }

/-- The owner is about to store a timer and there is no timer thread. -/
structure Storing (s : State) : Prop where
  owner : s.owner = .changing (.addTimer 1 false)
  thread : s.thread = .absent
  stopped : s.stopped = true

/-- From one insertion to the next: the thread that is started finds out that it is stopped. -/
theorem next_insertion {s : State} (h : Reachable Initial Next s) (hs : Storing s) :
    Reachable Initial Next
      { stored s 1 false with owner := .changing (.addTimer 1 false) } := by
  have hstored : Reachable Initial Next (stored s 1 false) :=
    h.step (.owner _ (by rw [ownerStep, hs.owner]; rfl))
  have hstarted := hstored.step (.owner _ rfl)
  have hidle := hstarted.step (.owner _ rfl)
  have hbegun := hidle.step (.begin (.addTimer 1 false) _ rfl)
  have hjoining := hbegun.step (.owner _ rfl)
  have hfinished := hjoining.step (.thread _ rfl)
  have hchanging := hfinished.step (.owner _ rfl)
  show Reachable Initial Next
    { stored s 1 false with owner := .changing (.addTimer 1 false) }
  convert hchanging using 2
  · exact hs.stopped
  · exact hs.thread

/-- In each state of `afterCalls` the next timer is about to be stored. -/
theorem afterCalls_storing (n : Nat) : Storing (afterCalls n) := by
  induction n with
  | zero => exact ⟨rfl, rfl, rfl⟩
  | succ n ih => exact ⟨rfl, ih.thread, ih.stopped⟩

/-- The counter has been advanced once for each call. -/
theorem afterCalls_lastTimerId (n : Nat) : (afterCalls n).lastTimerId = Int16.ofNat n := by
  induction n with
  | zero => rfl
  | succ n ih =>
    show (afterCalls n).lastTimerId + 1 = Int16.ofNat (n + 1)
    rw [ih, Int16.ofNat_add]
    rfl

/-- The states of `afterCalls` belong to one run, by induction on the number of calls. -/
theorem afterCalls_reachable (n : Nat) : Reachable Initial Next (afterCalls n) := by
  induction n with
  | zero =>
    have hstart : Reachable Initial Next ⟨0, ∅, true, 0, .absent, .idle, []⟩ :=
      .start ⟨rfl, rfl, rfl, rfl, rfl, rfl⟩
    have hbegun := hstart.step (.begin (.addTimer 1 false) _ rfl)
    have hjoining := hbegun.step (.owner _ rfl)
    exact hjoining.step (.owner _ rfl)
  | succ n ih => exact next_insertion ih (afterCalls_storing n)

/-- The 65536th call gets the id -1. -/
theorem minus_one_is_issued :
    ¬∀ s t : State, Reachable Initial Next s → Next s t → Identifies s t := by
  intro h
  have hnext : Next (afterCalls 65535) (stored (afterCalls 65535) 1 false) :=
    .owner _ (by rw [ownerStep, (afterCalls_storing 65535).owner]; rfl)
  have hidentifies := h _ _ (afterCalls_reachable 65535) hnext
  have hminus : (afterCalls 65535).lastTimerId = -1 := by
    rw [afterCalls_lastTimerId, ofNat_eq_neg_one_iff]
  exact (hidentifies.fresh _ rfl).2.1 hminus

end Brutils.Proofs.Timers
