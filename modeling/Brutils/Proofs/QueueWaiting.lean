import Brutils.Proofs.QueuePc
import Brutils.QueueWaiting

/-!
# `Brutils.Proofs.QueueWaiting`: who wakes, and who does not

`push` holds the mutex until it has notified, and a consumer holds it from its tests to its sleep.
So a consumer that goes to sleep has seen an empty queue that is still empty, and each item that
comes later wakes somebody. `Minds` is the invariant. It counts the consumers that are on the way to
an item, and says that they are enough for all the items as long as anybody sleeps
(`sleeps_on_nothing`).

`stop` is different. It notifies one consumer only, so the other ones that sleep do so for ever, and
what is left in the queue is not handed out (`stop_abandons`).

With the mutex and the sleep left out, a run is a run of the queue whose `waitPop` is one step, as
long as nobody calls `stop` (`refines`). The step is the test of the queue that succeeds. So what is
known of that queue holds here too, and with one consumer each item is popped once, in order
(`one_consumer_in_order`).
-/

set_option autoImplicit false

namespace Brutils.Proofs.QueueWaiting

open Brutils.QueueWaiting
open Transition (Reachable)
open Places (move move_self move_of_ne forall_move exists_of_move NotifyOne total total_move
  weight_le_total)

section
variable {C T : Type} {s t : State C T}

/-- Whether a consumer at this place looks at the queue again before it sleeps, or pops. -/
def onTheWay : Place → Nat
  | .inside .testingQueue => 1
  | .inside .returning => 1
  | .woken => 1
  | .popping => 1
  | _ => 0

/-- A producer that holds the mutex is going to notify. -/
def toNotify : Holder C → Nat
  | .producer => 1
  | _ => 0

/-- A consumer in the critical section holds the mutex. -/
def Owns (holder : Holder C) (c : C) (p : Place) : Prop :=
  ∀ stage, p = .inside stage → holder = .consumer c

/-- A consumer at this place has seen the queue empty. -/
def SeenEmpty (p : Place) : Prop := p = .inside .testingStopped ∨ p = .inside .decided

variable [Fintype C]

/-- The consumers that are on the way to an item, or are going to be woken by a producer. -/
def coming (s : State C T) : Nat := total onTheWay s.place + toNotify s.holder

/-- A consumer in the critical section holds the mutex, one that has seen the queue empty finds it
still empty when it sleeps, and nobody sleeps on an item. -/
structure Minds (s : State C T) : Prop where
  owns : ∀ c, Owns s.holder c (s.place c)
  empty : ∀ c, SeenEmpty (s.place c) → s.shared.queue = []
  covered : s.shared.stopped = false → (∃ c, s.place c = .asleep) →
    s.shared.queue.length ≤ coming s

/-- At the start nobody is in the critical section and nobody sleeps. -/
theorem initial_minds (h : Initial s) : Minds s := by
  obtain ⟨-, -, hplace, -⟩ := h
  refine ⟨fun c stage hc => ?_, fun c hc => ?_, fun _ hasleep => ?_⟩
  · simp [hplace c] at hc
  · simp [SeenEmpty, hplace c] at hc
  · obtain ⟨c, hc⟩ := hasleep
    simp [hplace c] at hc

variable [DecidableEq C]

/-! ### One consumer moves -/

omit [Fintype C] [DecidableEq C] in
/-- `pop` leaves the flag alone. -/
theorem pop_stopped {q q' : QueuePc T} {item : T} (h : q.pop = some (item, q')) :
    q'.stopped = q.stopped := by
  unfold QueuePc.pop at h
  split at h
  · cases h
  · obtain ⟨-, rfl⟩ := Prod.mk.inj (Option.some.inj h)
    rfl

omit [Fintype C] [DecidableEq C] in
/-- A consumer outside the critical section has nothing to hold. -/
theorem owns_outside (holder : Holder C) (c : C) {p : Place} (hp : ∀ stage, p ≠ .inside stage) :
    Owns holder c p :=
  fun stage hstage => absurd hstage (hp stage)

omit [Fintype C] [DecidableEq C] in
/-- When the mutex is not with a consumer, none is inside. -/
theorem not_inside (howns : ∀ c, Owns s.holder c (s.place c))
    (hholder : ∀ c, s.holder ≠ .consumer c) (c : C) (stage : Stage) : s.place c ≠ .inside stage :=
  fun hc => hholder c (howns c stage hc)

omit [Fintype C] [DecidableEq C] in
/-- When the mutex is with one consumer, no other is inside. -/
theorem other_not_inside (howns : ∀ c, Owns s.holder c (s.place c)) {c d : C}
    (hholder : s.holder = .consumer c) (hd : d ≠ c) (stage : Stage) :
    s.place d ≠ .inside stage := by
  intro hplace
  have hholder' := howns d stage hplace
  rw [hholder] at hholder'
  exact hd (Holder.consumer.inj hholder').symm

/-- A move of a consumer that does not go to sleep keeps the count if its weight makes up for the
change of the queue and of the holder. -/
theorem covered_move {place : C → Place} {c : C} {p : Place} {n m k j : Nat}
    (hcovered : (∃ d, place d = .asleep) → n ≤ total onTheWay place + k) (hp : p ≠ .asleep)
    (hweight : m + onTheWay (place c) + k ≤ n + onTheWay p + j)
    (hasleep : ∃ d, move place c p d = .asleep) : m ≤ total onTheWay (move place c p) + j := by
  have hbefore := hcovered (exists_of_move hp hasleep)
  have htotal := total_move onTheWay place c p
  omega

/-- A notification puts somebody on the way, unless nobody sleeps. -/
theorem covered_notify {place place' : C → Place} {n k k' : Nat}
    (hnotify : NotifyOne .asleep .woken place place')
    (hcovered : (∃ d, place d = .asleep) → n ≤ total onTheWay place + k) (hk : k ≤ k' + 1)
    (hasleep : ∃ d, place' d = .asleep) : n ≤ total onTheWay place' + k' := by
  cases hnotify with
  | none hnone =>
    obtain ⟨d, hd⟩ := hasleep
    exact absurd hd (hnone d)
  | one c hc =>
    have hbefore := hcovered ⟨c, hc⟩
    have htotal := total_move onTheWay place c .woken
    rw [hc] at htotal
    simp only [onTheWay] at htotal
    omega

/-! ### Nobody sleeps on an item -/

/-- A consumer takes the mutex. -/
theorem minds_take (hs : Minds s) (hfree : s.holder = .nobody) {c : C}
    (hplace : s.place c = .idle ∨ s.place c = .woken) :
    Minds { s with holder := .consumer c, place := move s.place c (.inside .testingQueue) } := by
  have hnobody := not_inside hs.owns (by simp [hfree])
  refine ⟨?_, ?_, fun hrunning => ?_⟩
  · exact forall_move (fun _ _ => rfl) fun d _ => owns_outside _ d (hnobody d)
  · exact forall_move (Q := fun _ p => SeenEmpty p → s.shared.queue = []) (by simp [SeenEmpty])
      fun d _ => hs.empty d
  · refine covered_move (j := 0) (hs.covered hrunning) (by simp) ?_
    rcases hplace with hplace | hplace <;> simp [hplace, hfree, onTheWay, toNotify]

/-- A consumer gives the mutex back. -/
theorem minds_give (hs : Minds s) {c : C} {stage : Stage} (hplace : s.place c = .inside stage)
    {p : Place} (hp : ∀ stage, p ≠ .inside stage)
    (hcovered : s.shared.stopped = false → (∃ d, move s.place c p d = .asleep) →
      s.shared.queue.length ≤ total onTheWay (move s.place c p)) :
    Minds { s with holder := .nobody, place := move s.place c p } := by
  have hothers := fun d hd => other_not_inside (d := d) hs.owns (hs.owns c stage hplace) hd
  refine ⟨?_, ?_, hcovered⟩
  · exact forall_move (owns_outside _ c hp) fun d hd => owns_outside _ d (hothers d hd)
  · exact forall_move (Q := fun _ p => SeenEmpty p → s.shared.queue = [])
      (fun hseen => (hseen.elim (hp _) (hp _)).elim) fun d _ => hs.empty d

/-- A consumer goes on inside. -/
theorem minds_inside (hs : Minds s) {c : C} {stage stage' : Stage}
    (hplace : s.place c = .inside stage) (hseen : SeenEmpty (.inside stage') → s.shared.queue = [])
    (hcovered : s.shared.stopped = false → (∃ d, move s.place c (.inside stage') d = .asleep) →
      s.shared.queue.length ≤ total onTheWay (move s.place c (.inside stage')) +
        toNotify s.holder) :
    Minds { s with place := move s.place c (.inside stage') } := by
  refine ⟨?_, ?_, hcovered⟩
  · exact forall_move (fun _ _ => hs.owns c stage hplace) fun d _ => hs.owns d
  · exact forall_move (Q := fun _ p => SeenEmpty p → s.shared.queue = []) hseen
      fun d _ => hs.empty d

/-- A notification wakes one of those that sleep, if there is one. So the notification that was to
come is made up for by a consumer on its way. -/
theorem minds_notify (hs : Minds s) {place : C → Place} {holder : Holder C}
    (hnotify : NotifyOne .asleep .woken s.place place)
    (hholder : ∀ c, s.holder = .consumer c → holder = .consumer c)
    (hk : toNotify s.holder ≤ toNotify holder + 1) :
    Minds { s with holder := holder, place := place } := by
  refine ⟨?_, ?_, fun hrunning => covered_notify hnotify (hs.covered hrunning) hk⟩
  · exact hnotify.forall (fun c stage hc => hholder c (hs.owns c stage hc))
      fun c stage hc => by cases hc
  · exact hnotify.forall (Q := fun _ p => SeenEmpty p → s.shared.queue = []) hs.empty
      fun c => by simp [SeenEmpty]

/-- The step lemma: every move keeps `Minds`. -/
theorem step_minds {op : Op C T} (hs : Minds s) (h : Step s op t) : Minds t := by
  cases h with
  -- a producer takes the mutex, so nobody is in the critical section, and one item comes
  | push item hfree =>
    have hnobody := not_inside hs.owns (by simp [hfree])
    refine ⟨fun c stage hc => absurd hc (hnobody c stage), fun c hc => ?_, ?_⟩
    · exact (hc.elim (hnobody c _) (hnobody c _)).elim
    · intro hrunning hasleep
      have hcovered := hs.covered hrunning hasleep
      -- the item is covered by the notification that the producer now owes
      show (s.shared.queue ++ [item]).length ≤ total onTheWay s.place + 1
      simp only [coming, hfree, toNotify] at hcovered
      rw [List.length_append, List.length_singleton]
      omega
  | pushNotify hholder place hnotify =>
    exact minds_notify hs hnotify (by simp [hholder]) (by simp [hholder, toNotify])
  | stopNotify hstopping place hnotify =>
    have hminds := minds_notify hs hnotify (fun _ h => h) (Nat.le_succ _)
    exact ⟨hminds.owns, hminds.empty, hminds.covered⟩
  | enter c hplace hfree => exact minds_take hs hfree (.inl hplace)
  | resume c hplace hfree => exact minds_take hs hfree (.inr hplace)
  -- what a consumer sees of the queue under the mutex stays so until it lets the mutex go
  | testQueue c hplace =>
    cases hqueue : s.shared.queue.isEmpty with
    | true =>
      have hempty : s.shared.queue = [] := by simpa using hqueue
      exact minds_inside hs hplace (fun _ => hempty) (by simp [hempty])
    | false =>
      refine minds_inside hs hplace (by simp [SeenEmpty]) fun hrunning => ?_
      exact covered_move (hs.covered hrunning) (by simp) (by simp [hplace, onTheWay])
  | testStopped c hplace =>
    have hempty := hs.empty c (.inl hplace)
    exact minds_inside hs hplace (fun _ => hempty) (by simp [hempty])
  | sleep c hplace =>
    have hempty := hs.empty c (.inr hplace)
    exact minds_give hs hplace (by simp) (by simp [hempty])
  -- a consumer that leaves without an item has read `_stopped`
  | leave c hplace =>
    have hholder := hs.owns c _ hplace
    cases hstopped : s.shared.stopped with
    | true => exact minds_give hs hplace (by simp) (by simp [hstopped])
    | false =>
      refine minds_give hs hplace (by simp) fun hrunning => ?_
      exact covered_move (j := 0) (hs.covered hrunning) (by simp)
        (by simp [hplace, hholder, onTheWay, toNotify])
  | spurious c hplace =>
    refine ⟨?_, ?_, fun hrunning => ?_⟩
    · exact forall_move (owns_outside _ c (by simp)) fun d _ => hs.owns d
    · exact forall_move (Q := fun _ p => SeenEmpty p → s.shared.queue = []) (by simp [SeenEmpty])
        fun d _ => hs.empty d
    · exact covered_move (hs.covered hrunning) (by simp) (by simp [hplace, onTheWay])
  -- nobody has seen the queue empty, and with the item a consumer on its way is gone
  | pop c hplace item shared hpop =>
    have hqueue := QueuePc.pop_eq_some hpop
    have hstopped := pop_stopped hpop
    refine ⟨?_, ?_, fun hrunning => ?_⟩
    · exact forall_move (owns_outside _ c (by simp)) fun d _ => hs.owns d
    · refine forall_move (Q := fun _ p => SeenEmpty p → shared.queue = []) (by simp [SeenEmpty])
        fun d _ hseen => ?_
      have hempty := hs.empty d hseen
      rw [hqueue] at hempty
      cases hempty
    · refine covered_move (hs.covered (hstopped ▸ hrunning)) (by simp) ?_
      rw [hqueue]
      simp only [hplace, onTheWay, List.length_cons]
      omega
  | stop =>
    refine ⟨hs.owns, hs.empty, fun hrunning => ?_⟩
    cases hrunning

/-- So it holds in every reachable state. -/
theorem minds_of_reachable (h : Reachable Initial Next s) : Minds s :=
  h.invariant (fun _ => initial_minds) fun _ _ _ hs hst => hst.elim fun _ => step_minds hs

/-- In every run in which nobody has called `stop`: as long as a consumer sleeps, there are not more
items in the queue than consumers on their way to one. A producer that holds the mutex counts as
one of these, since it is going to notify. -/
theorem sleeps_on_nothing (h : Reachable Initial Next s) (hrunning : s.shared.stopped = false)
    {c : C} (hasleep : s.place c = .asleep) : s.shared.queue.length ≤ coming s :=
  (minds_of_reachable h).covered hrunning ⟨c, hasleep⟩

/-! ### What `stop` leaves behind -/

/-- What a run behind `stop` has popped. Each of these pops is by a consumer of its own, and
`waitPop` had let that consumer through in the first state. Those that are before `pop` in the
last state are such consumers too, and they have not popped yet. -/
structure OnlyLetThrough (s t : State C T) (later : List (C × T)) : Prop where
  popped : t.popped = s.popped ++ later
  once : (later.map Prod.fst).Nodup
  before : ∀ c ∈ later.map Prod.fst, s.place c = .popping
  left : ∀ c, t.place c = .popping → s.place c = .popping ∧ c ∉ later.map Prod.fst

omit [Fintype C] in
/-- A move to a place that is not before `pop` lets nobody through. The consumers that are before
`pop` after it were there already, whoever moves. -/
theorem onlyLetThrough_move {s t u : State C T} {later : List (C × T)}
    (h : OnlyLetThrough s t later) {c : C} {p : Place} (hp : p ≠ .popping)
    (hpopped : u.popped = t.popped) (hplace : u.place = move t.place c p) :
    OnlyLetThrough s u later := by
  refine ⟨hpopped.trans h.popped, h.once, h.before, fun d hd => ?_⟩
  rw [hplace] at hd
  by_cases hdc : d = c
  · rw [hdc, move_self] at hd
    exact absurd hd hp
  · rw [move_of_ne hdc] at hd
    exact h.left d hd

omit [Fintype C] in
/-- Once `_stopped` is set, `waitPop` lets nobody through: it reads `_stopped` again when it
returns. So a step pops for a consumer that was let through before, or it pops nothing. -/
theorem stopped_step {s t u : State C T} {later : List (C × T)}
    (hstopped : t.shared.stopped = true) (h : OnlyLetThrough s t later) (hstep : Next t u) :
    u.shared.stopped = true ∧ ∃ later', OnlyLetThrough s u later' := by
  -- a notification wakes a consumer, and lets nobody through
  have hnotify : ∀ {v : State C T}, v.popped = t.popped →
      NotifyOne .asleep .woken t.place v.place → OnlyLetThrough s v later := by
    intro v hpopped hplace
    generalize hv : v.place = place at hplace
    cases hplace with
    | none hnone => exact ⟨hpopped.trans h.popped, h.once, h.before, fun d hd => h.left d (hv ▸ hd)⟩
    | one c hc => exact onlyLetThrough_move h (by simp) hpopped hv
  obtain ⟨op, hstep⟩ := hstep
  cases hstep with
  | push item hfree => exact ⟨hstopped, later, h.popped, h.once, h.before, h.left⟩
  | pushNotify hholder place hplace => exact ⟨hstopped, later, hnotify rfl hplace⟩
  | stopNotify hpos place hplace => exact ⟨hstopped, later, hnotify rfl hplace⟩
  | enter c hplace hfree => exact ⟨hstopped, later, onlyLetThrough_move h (by simp) rfl rfl⟩
  | resume c hplace hfree => exact ⟨hstopped, later, onlyLetThrough_move h (by simp) rfl rfl⟩
  | testQueue c hplace => exact ⟨hstopped, later, onlyLetThrough_move h (by simp) rfl rfl⟩
  | testStopped c hplace => exact ⟨hstopped, later, onlyLetThrough_move h (by simp) rfl rfl⟩
  | sleep c hplace => exact ⟨hstopped, later, onlyLetThrough_move h (by simp) rfl rfl⟩
  | spurious c hplace => exact ⟨hstopped, later, onlyLetThrough_move h (by simp) rfl rfl⟩
  -- here the predicate is read again, and `_stopped` is set
  | leave c hplace => exact ⟨hstopped, later, onlyLetThrough_move h (by simp [hstopped]) rfl rfl⟩
  -- the consumer that pops was let through before, and does not come back
  | pop c hplace item shared hpop =>
    obtain ⟨hbefore, hnew⟩ := h.left c hplace
    refine ⟨(pop_stopped hpop).trans hstopped, later ++ [(c, item)], ?_, ?_, ?_, fun d hd => ?_⟩
    · rw [← List.append_assoc, ← h.popped]
    · rw [List.map_append, List.map_singleton, List.nodup_append]
      refine ⟨h.once, List.nodup_singleton c, fun d hd e he => ?_⟩
      rw [List.mem_singleton.mp he]
      intro hdc
      rw [hdc] at hd
      exact hnew hd
    · intro d hd
      rw [List.map_append, List.mem_append, List.map_singleton, List.mem_singleton] at hd
      rcases hd with hd | rfl
      · exact h.before d hd
      · exact hbefore
    · by_cases hdc : d = c
      · rw [hdc] at hd
        simp at hd
      · have hthere : t.place d = .popping := by simpa [hdc] using hd
        obtain ⟨hwas, hnot⟩ := h.left d hthere
        refine ⟨hwas, fun hmem => ?_⟩
        rw [List.map_append, List.mem_append, List.map_singleton, List.mem_singleton] at hmem
        exact hmem.elim hnot hdc
  | stop => exact ⟨rfl, later, h.popped, h.once, h.before, h.left⟩

omit [Fintype C] in
/-- By induction over the run: at first nobody has popped, and each step keeps to those that were
let through. -/
theorem stopped_run (hstopped : s.shared.stopped = true) (h : Relation.ReflTransGen Next s t) :
    t.shared.stopped = true ∧ ∃ later, OnlyLetThrough s t later := by
  induction h with
  | refl => exact ⟨hstopped, [], by simp, by simp, by simp, by simp⟩
  | tail _ hstep ih =>
    obtain ⟨hstopped', later, hlater⟩ := ih
    exact stopped_step hstopped' hlater hstep

/-- The consumers that sleep. -/
def sleepers (s : State C T) : Finset C := Finset.univ.filter fun c => s.place c = .asleep

/-- The notifications that are still to come when nobody pushes any more or calls `stop` again. -/
def toCome (s : State C T) : Nat := s.stopping + toNotify s.holder

/-- Nobody pushes or calls `stop`, and nobody wakes for no reason. -/
def Quiet : Op C T → Prop
  | .push _ => False
  | .spurious _ => False
  | .stop => False
  | _ => True

/-- A step of such a run. -/
def QuietNext (s t : State C T) : Prop := ∃ op, Quiet op ∧ Step s op t

omit [Fintype C] [DecidableEq C] in
/-- The members of `sleepers`. -/
theorem mem_sleepers [Fintype C] {c : C} : c ∈ sleepers s ↔ s.place c = .asleep := by
  simp [sleepers]

/-- A consumer that leaves another place than the sleep wakes nobody. -/
theorem sleepers_move {c : C} {p q : Place} (hplace : s.place c = q) (hq : q ≠ .asleep)
    (ht : t.place = move s.place c p) : sleepers s ⊆ sleepers t := by
  intro d hd
  rw [mem_sleepers] at hd ⊢
  have hdc : d ≠ c := by
    intro hdc
    rw [hdc, hplace] at hd
    exact hq hd
  rw [ht, move_of_ne hdc]
  exact hd

/-- A notification wakes one consumer at most. -/
theorem sleepers_notify (h : NotifyOne .asleep .woken s.place t.place) (before : Finset C) :
    (before \ sleepers t).card ≤ (before \ sleepers s).card + 1 := by
  generalize hplace : t.place = place at h
  cases h with
  | none hnone =>
    have hsame : sleepers t = sleepers s := by rw [sleepers, sleepers, hplace]
    rw [hsame]
    exact Nat.le_succ _
  | one c hc =>
    have hsub : before \ sleepers t ⊆ insert c (before \ sleepers s) := by
      intro d hd
      rw [Finset.mem_sdiff, mem_sleepers] at hd
      rw [Finset.mem_insert, Finset.mem_sdiff, mem_sleepers]
      by_cases hdc : d = c
      · exact .inl hdc
      · rw [hplace, move_of_ne hdc] at hd
        exact .inr hd
    exact Nat.le_trans (Finset.card_le_card hsub) (Finset.card_insert_le _ _)

/-- A consumer that moves wakes nobody, if it does not move from the sleep. -/
theorem quiet_move {c : C} {p q : Place} (hplace : s.place c = q) (hq : q ≠ .asleep)
    (ht : t.place = move s.place c p) (hcome : toCome t ≤ toCome s) (before : Finset C) :
    (before \ sleepers t).card + toCome t ≤ (before \ sleepers s).card + toCome s := by
  have hsub : before \ sleepers t ⊆ before \ sleepers s :=
    Finset.sdiff_subset_sdiff (Finset.Subset.refl _) (sleepers_move hplace hq ht)
  exact Nat.add_le_add (Finset.card_le_card hsub) hcome

/-- A quiet step that wakes somebody uses up a notification. -/
theorem quiet_step (h : QuietNext s t) (before : Finset C) :
    (before \ sleepers t).card + toCome t ≤ (before \ sleepers s).card + toCome s := by
  obtain ⟨op, hquiet, hstep⟩ := h
  cases hstep with
  | push item hfree => exact hquiet.elim
  | spurious c hplace => exact hquiet.elim
  | stop => exact hquiet.elim
  | pushNotify hholder place hnotify =>
    have hone := sleepers_notify (t := { s with holder := .nobody, place := place }) hnotify before
    simp only [toCome, hholder, toNotify]
    omega
  | stopNotify hpos place hnotify =>
    have hone := sleepers_notify
      (t := { s with place := place, stopping := s.stopping - 1 }) hnotify before
    simp only [toCome]
    omega
  | enter c hplace hfree =>
    exact quiet_move hplace (by simp) rfl (by simp [toCome, toNotify]) before
  | resume c hplace hfree =>
    exact quiet_move hplace (by simp) rfl (by simp [toCome, toNotify]) before
  | testQueue c hplace => exact quiet_move hplace (by simp) rfl (by simp [toCome]) before
  | testStopped c hplace => exact quiet_move hplace (by simp) rfl (by simp [toCome]) before
  | sleep c hplace =>
    exact quiet_move hplace (by simp) rfl (by simp [toCome, toNotify]) before
  | leave c hplace =>
    exact quiet_move hplace (by simp) rfl (by simp [toCome, toNotify]) before
  | pop c hplace item shared hpop => exact quiet_move hplace (by simp) rfl (by simp [toCome]) before

/-- In a quiet run each consumer that wakes has used up a notification that was to come. -/
theorem quiet_run (h : Relation.ReflTransGen QuietNext s t) :
    (sleepers s \ sleepers t).card + toCome t ≤ toCome s := by
  have hall : (sleepers s \ sleepers t).card + toCome t ≤
      (sleepers s \ sleepers s).card + toCome s := by
    induction h with
    | refl => exact Nat.le_refl _
    | tail _ hstep ih => exact Nat.le_trans (quiet_step hstep (sleepers s)) ih
  rwa [Finset.sdiff_self, Finset.card_empty, Nat.zero_add] at hall

/-- Once `_stopped` is set, only those pop whom `waitPop` has let through before, and each of them
once, whatever is left in the queue and whatever is pushed. And as long as nobody pushes or calls
`stop` again, and nobody wakes for no reason, no more of the consumers that sleep wake than there
are notifications to come. Each call of `stop` gives one. -/
theorem stop_abandons (hstopped : s.shared.stopped = true) :
    (∀ t, Relation.ReflTransGen Next s t → ∃ later, t.popped = s.popped ++ later ∧
      (later.map Prod.fst).Nodup ∧ ∀ c ∈ later.map Prod.fst, s.place c = .popping) ∧
    ∀ t, Relation.ReflTransGen QuietNext s t → (sleepers s \ sleepers t).card ≤ toCome s := by
  refine ⟨fun t ht => ?_, fun t ht => ?_⟩
  · obtain ⟨-, later, hlater⟩ := stopped_run hstopped ht
    exact ⟨later, hlater.popped, hlater.once, hlater.before⟩
  · have hle := quiet_run ht
    omega

/-! ### The queue whose `waitPop` is one step -/

/-- A consumer for which the predicate was true. -/
def LetThrough (p : Place) : Prop := p = .popping ∨ p = .inside .returning

instance (p : Place) : Decidable (LetThrough p) := inferInstanceAs (Decidable (_ ∨ _))

/-- The state with the mutex and the sleep left out. -/
def abstract (s : State C T) : QueuePc.State C T where
  shared := s.shared
  popping := Finset.univ.filter fun c => LetThrough (s.place c)
  pushed := s.pushed
  popped := s.popped

omit [DecidableEq C] in
/-- The consumers that pop in the abstract state are those that were let through. -/
theorem mem_popping {c : C} : c ∈ (abstract s).popping ↔ LetThrough (s.place c) := by
  simp [abstract]

/-- A move between two places on the same side of the test. -/
theorem popping_move (place : C → Place) (c : C) (p : Place)
    (h : LetThrough p ↔ LetThrough (place c)) :
    (Finset.univ.filter fun d => LetThrough (move place c p d)) =
      Finset.univ.filter fun d => LetThrough (place d) := by
  refine Finset.filter_congr fun d _ => ?_
  by_cases hd : d = c
  · rw [hd, move_self]
    exact h
  · rw [move_of_ne hd]

/-- A consumer for which the predicate is true now. -/
theorem popping_insert (c : C) :
    (Finset.univ.filter fun d => LetThrough (move s.place c (.inside .returning) d)) =
      insert c (abstract s).popping := by
  ext d
  rw [Finset.mem_insert, mem_popping, Finset.mem_filter]
  by_cases hd : d = c
  · simp [hd, LetThrough]
  · simp [hd]

/-- A consumer that has popped. -/
theorem popping_erase (c : C) :
    (Finset.univ.filter fun d => LetThrough (move s.place c .idle d)) =
      (abstract s).popping.erase c := by
  ext d
  rw [Finset.mem_erase, mem_popping, Finset.mem_filter]
  by_cases hd : d = c
  · simp [hd, LetThrough]
  · simp [hd]

/-- A notification lets nobody through. Whoever wakes tests the predicate again. -/
theorem popping_notify {place place' : C → Place}
    (h : NotifyOne .asleep .woken place place') :
    (Finset.univ.filter fun d => LetThrough (place' d)) =
      Finset.univ.filter fun d => LetThrough (place d) := by
  cases h with
  | none hnone => rfl
  | one c hc => exact popping_move place c .woken (by simp [LetThrough, hc])

/-- With the sleep left out, such a move changes nothing. -/
theorem abstract_move {c : C} {p q : Place} {holder : Holder C} (hplace : s.place c = q)
    (hsame : LetThrough p ↔ LetThrough q) :
    abstract { s with holder := holder, place := move s.place c p } = abstract s := by
  have hpopping := popping_move s.place c p (by rw [hplace]; exact hsame)
  simp only [abstract, hpopping]

/-- A step is a step of the queue, or it changes nothing there. -/
theorem abstract_step (h : Next s t) (hrunning : t.shared.stopped = false) :
    s.shared.stopped = false ∧
      (abstract t = abstract s ∨ QueuePc.Next (abstract s) (abstract t)) := by
  obtain ⟨op, hstep⟩ := h
  cases hstep with
  | push item hfree => exact ⟨hrunning, .inr ⟨_, .push item⟩⟩
  | pushNotify hholder place hnotify =>
    exact ⟨hrunning, .inl (by simp only [abstract, popping_notify hnotify])⟩
  | stopNotify hpos place hnotify =>
    exact ⟨hrunning, .inl (by simp only [abstract, popping_notify hnotify])⟩
  | enter c hplace hfree =>
    exact ⟨hrunning, .inl (abstract_move hplace (by simp [LetThrough]))⟩
  | resume c hplace hfree =>
    exact ⟨hrunning, .inl (abstract_move hplace (by simp [LetThrough]))⟩
  | testQueue c hplace =>
    refine ⟨hrunning, ?_⟩
    cases hqueue : s.shared.queue.isEmpty with
    | true => exact .inl (abstract_move hplace (by simp [LetThrough]))
    | false =>
      -- here `waitPop` returns in the queue
      right
      have hne : s.shared.queue ≠ [] := by simpa using hqueue
      have hrunning' : s.shared.stopped = false := hrunning
      have hwait : (abstract s).shared.waitPop = some true := by
        show s.shared.waitPop = some true
        simp [QueuePc.waitPop, hne, hrunning']
      have hidle : c ∉ (abstract s).popping := by
        rw [mem_popping]
        simp [LetThrough, hplace]
      have hstep := QueuePc.Step.waitPop c hidle hwait
      rw [← popping_insert] at hstep
      exact ⟨_, hstep⟩
  | testStopped c hplace =>
    have hrunning' : s.shared.stopped = false := hrunning
    exact ⟨hrunning, .inl (abstract_move hplace (by simp [LetThrough, hrunning']))⟩
  | sleep c hplace => exact ⟨hrunning, .inl (abstract_move hplace (by simp [LetThrough]))⟩
  | spurious c hplace => exact ⟨hrunning, .inl (abstract_move hplace (by simp [LetThrough]))⟩
  | leave c hplace =>
    have hrunning' : s.shared.stopped = false := hrunning
    exact ⟨hrunning, .inl (abstract_move hplace (by simp [LetThrough, hrunning']))⟩
  | pop c hplace item shared hpop =>
    have hmem : c ∈ (abstract s).popping := mem_popping.mpr (.inl hplace)
    have hstep := QueuePc.Step.pop c hmem item shared hpop
    rw [← popping_erase] at hstep
    exact ⟨(pop_stopped hpop).symm.trans hrunning, .inr ⟨_, hstep⟩⟩
  | stop => cases hrunning

omit [DecidableEq C] in
/-- An initial state is one of the queue whose `waitPop` is one step. -/
theorem abstract_initial (h : Initial s) : QueuePc.Initial (abstract s) := by
  obtain ⟨hshared, -, hplace, -, hpushed, hpopped⟩ := h
  refine ⟨hshared, ?_, hpushed, hpopped⟩
  simp [abstract, LetThrough, hplace]

/-- As long as nobody has called `stop`, a run of the queue with its mutex and its sleeping
consumers is a run of the queue whose `waitPop` is one step. -/
theorem refines (h : Reachable Initial Next s) (hrunning : s.shared.stopped = false) :
    Reachable QueuePc.Initial QueuePc.Next (abstract s) := by
  revert hrunning
  refine h.invariant
    (P := fun s => s.shared.stopped = false → Reachable QueuePc.Initial QueuePc.Next (abstract s))
    (fun s hs _ => .start (abstract_initial hs)) ?_
  intro s t _ ih hst hrunning
  obtain ⟨hbefore, hsame | hnext⟩ := abstract_step hst hrunning
  · rw [hsame]
    exact ih hbefore
  · exact (ih hbefore).step hnext

/-- With one consumer each item is popped once, in the order in which they were pushed, and the
consumer finds one whenever `waitPop` has let it through. -/
theorem one_consumer_in_order [Subsingleton C] (h : Reachable Initial Next s)
    (hrunning : s.shared.stopped = false) :
    s.popped.map Prod.snd ++ s.shared.queue = s.pushed ∧
      ∀ c, LetThrough (s.place c) → s.shared.queue ≠ [] := by
  have hspares : Reachable QueuePc.Initial QueuePc.SparingNext (abstract s) := by
    refine (refines h hrunning).mono (fun _ h => h) fun u v huv => ?_
    obtain ⟨op, hstep⟩ := huv
    exact ⟨op, QueuePc.spares_of_one_consumer hstep, hstep⟩
  have hhandsOut := (QueuePc.provided_of_reachable hspares).handsOut
  exact ⟨hhandsOut.2, fun c hc => hhandsOut.1 c (mem_popping.mpr hc)⟩

end

/-! ### Two queues -/

/-- A new queue. -/
def start (C : Type) : State C Nat := ⟨QueuePc.create, .nobody, fun _ => .idle, 0, [], []⟩

/-- `start` is an initial state. -/
theorem start_reachable (C : Type) [DecidableEq C] : Reachable Initial Next (start C) :=
  .start ⟨rfl, rfl, fun _ => rfl, rfl, rfl, rfl⟩

/-- A consumer goes to sleep, an item is pushed, and the consumer is woken and let through. -/
theorem letThrough_reachable : ∃ s : State Unit Nat, Reachable Initial Next s ∧
    s.shared = ⟨false, [7]⟩ ∧ s.place () = .inside .returning := by
  have h := start_reachable Unit
  have h := h.step ⟨_, .enter () rfl rfl⟩
  have h := h.step ⟨_, .testQueue () rfl⟩
  have h := h.step ⟨_, .testStopped () rfl⟩
  have h := h.step ⟨_, .sleep () rfl⟩
  have h := h.step ⟨_, .push 7 rfl⟩
  have h := h.step ⟨_, .pushNotify rfl _ (.one () rfl)⟩
  have h := h.step ⟨_, .resume () rfl rfl⟩
  have h := h.step ⟨_, .testQueue () rfl⟩
  exact ⟨_, h, rfl, rfl⟩

/-- The result for two consumers that sleep, one of which has been woken for an item. -/
theorem sleeps_on_nothing_two : ∃ s : State Bool Nat, s.shared.queue = [7] ∧
    s.place true = .asleep ∧ s.shared.queue.length ≤ coming s := by
  have h := start_reachable Bool
  have h := h.step ⟨_, .enter true rfl rfl⟩
  have h := h.step ⟨_, .testQueue true rfl⟩
  have h := h.step ⟨_, .testStopped true rfl⟩
  have h := h.step ⟨_, .sleep true rfl⟩
  have h := h.step ⟨_, .enter false rfl rfl⟩
  have h := h.step ⟨_, .testQueue false rfl⟩
  have h := h.step ⟨_, .testStopped false rfl⟩
  have h := h.step ⟨_, .sleep false rfl⟩
  have h := h.step ⟨_, .push 7 rfl⟩
  have h := h.step ⟨_, .pushNotify rfl _ (.one false rfl)⟩
  exact ⟨_, rfl, rfl, sleeps_on_nothing h rfl (c := true) rfl⟩

/-- One consumer has been let through for an item and two others sleep, when a call of `stop` has
set `_stopped`. -/
def stopping : State (Fin 3) Nat :=
  ⟨⟨true, [7]⟩, .nobody, fun c => if c = 0 then .popping else .asleep, 1, [7], []⟩

/-- Only that consumer can pop, and one of the other two wakes at most. -/
theorem stop_abandons_three :
    (∀ t, Relation.ReflTransGen Next stopping t → ∃ later, t.popped = [] ++ later ∧
      (later.map Prod.fst).Nodup ∧ ∀ c ∈ later.map Prod.fst, stopping.place c = .popping) ∧
    ∀ t, Relation.ReflTransGen QuietNext stopping t →
      (sleepers stopping \ sleepers t).card ≤ 1 :=
  stop_abandons (s := stopping) rfl

/-- The result for a consumer that has been let through. -/
theorem refines_one : ∃ s : State Unit Nat, s.place () = .inside .returning ∧
    Reachable QueuePc.Initial QueuePc.Next (abstract s) := by
  obtain ⟨s, hs, hshared, hplace⟩ := letThrough_reachable
  exact ⟨s, hplace, refines hs (by rw [hshared])⟩

/-- The result for that consumer. -/
theorem one_consumer_in_order_one : ∃ s : State Unit Nat, s.place () = .inside .returning ∧
    s.popped.map Prod.snd ++ s.shared.queue = s.pushed ∧
      ∀ c, LetThrough (s.place c) → s.shared.queue ≠ [] := by
  obtain ⟨s, hs, hshared, hplace⟩ := letThrough_reachable
  exact ⟨s, hplace, one_consumer_in_order hs (by rw [hshared])⟩

end Brutils.Proofs.QueueWaiting
