import Brutils.Proofs.ThreadedObject

/-!
# `Brutils.Proofs.ThreadedObject.Progress`: when a threaded object gets on

In a run in which everybody goes on, the thread still depends on the others while it waits. Then
the next notification gets it on, and there is one to come as long as the thread does not
oversleep. So `leadsTo_of_helpful` applies, with the callers as the ones who help while the thread
waits, and the thread otherwise.

The destructor returns exactly if all the notifications from then on are timely
(`destructor_returns_iff`). If they always are, every event is called in the end
(`every_event_called`).
-/

set_option autoImplicit false

namespace Brutils.Proofs.ThreadedObject

open Brutils.ThreadedObject
open Fairness (run Fair LeadsTo run_stays leadsTo_of_helpful always_iff_everyMove roundRobin
  roundRobin_fair roundRobin_mem)

section
variable {E : Type} {s : State E}

/-! ### Who moves -/

/-- Those whose moves a run goes on with: a call of `addEvent` that has pushed its event, the owner
in the destructor, and the thread. -/
inductive Mover
  | caller
  | owner
  | thread
  deriving DecidableEq

/-- The moves of each. -/
def Mover.moves : Mover → Move E → Prop
  | .caller, move => move = .notify
  | .owner, move => move = .owner
  | .thread, move => ∃ spurious, move = .thread spurious

/-- The schedule comes back to each of them again and again. -/
def FairToAll (schedule : Nat → Move E) : Prop := ∀ mover, Fair schedule (Mover.moves mover)

/-- Who gets a thread on. -/
def Mover.ofThread (pc : ThreadPc) : Mover := if pc = .blocked then .caller else .thread

/-- A notification wakes a thread that waits. -/
theorem step_notify (h : 0 < s.notifying) :
    step s .notify = { s with notifying := s.notifying - 1, thread := notify s.thread } :=
  if_neg (Nat.ne_of_gt h)

/-- The invariant holds in every state of a run. -/
theorem run_sound {schedule : Nat → Move E} (hs : Sound s) (n : Nat) :
    Sound (run step schedule s n) :=
  Fairness.run_invariant hs step_sound n

/-! ### The destructor -/

/-- The destructor has been called, and has not returned. -/
def Ending (s : State E) : Prop :=
  s.owner = .clearing ∨ s.owner = .notifying ∨ s.owner = .joining

/-- The thread of an object that ends gets closer to its end with each move. -/
def toGo : ThreadPc → Nat
  | .decided => 7
  | .blocked => 6
  | .testingEvents => 5
  | .testingRunning => 4
  | .woken => 3
  | .calling => 2
  | .looping => 1
  | .finished => 0

/-- What is left of the destructor. -/
def toEnd (s : State E) : Nat :=
  match s.owner with
  | .clearing => 10
  | .notifying => 9
  | .joining => toGo s.thread
  | _ => 0

/-- Who gets the destructor on. -/
def ender (s : State E) : Mover :=
  if s.owner = .joining ∧ s.thread ≠ .finished then .ofThread s.thread else .owner

/-- A notification brings a waiting thread nearer to its end, and does nothing to another. -/
theorem toGo_notify (pc : ThreadPc) : notify pc = pc ∨ toGo (notify pc) < toGo pc := by
  cases pc <;> decide

/-- The thread of an object that ends has seven moves to go at most. -/
theorem toGo_le (pc : ThreadPc) : toGo pc ≤ 7 := by
  cases pc <;> decide

/-- Once `_running` is cleared, a thread that moves gets nearer to its end. Only one that sleeps or
has ended stays where it is. -/
theorem Goes.toGo_lt {pc pc' : ThreadPc} (h : Goes s pc pc') (hrun : s.running = false) :
    toGo pc' < toGo pc ∨ pc' = pc ∧ (pc = .blocked ∨ pc = .finished) := by
  cases h <;> simp_all [toGo]

/-- The thread gets on, or waits, or has returned. -/
theorem ThreadMoves.toGo_lt {t : State E} (h : ThreadMoves s t) (hrun : s.running = false) :
    toGo t.thread < toGo s.thread ∨ t.thread = s.thread ∧
      (s.thread = .blocked ∨ s.thread = .finished) := by
  cases h with
  | goes pc hgoes => exact hgoes.toGo_lt hrun
  | call event rest hpc hlist => simp [hpc, toGo]
  | finish hpc => simp [hpc, toGo]

/-- The destructor has cleared `_running` before it joins. -/
theorem Sound.not_running (hs : Sound s) (howner : s.owner = .joining) : s.running = false := by
  have hrunning := hs.running
  simpa [howner] using hrunning

/-- Only a joined thread makes a move of the owner end the destructor. -/
theorem ending_step (hs : Sound s) (hending : Ending s) (move : Move E) :
    (step s move).owner = .destroyed ∨ (Ending (step s move) ∧
      (toEnd (step s move) < toEnd s ∨
        (toEnd (step s move) = toEnd s ∧ ender (step s move) = ender s))) := by
  -- a move that leaves the owner where he is, and perhaps gets the thread on
  have hstays : ∀ t : State E, t.owner = s.owner →
      (s.owner = .joining → toGo t.thread < toGo s.thread ∨ t.thread = s.thread) →
      t.owner = .destroyed ∨ (Ending t ∧ (toEnd t < toEnd s ∨
        (toEnd t = toEnd s ∧ ender t = ender s))) := by
    intro t howner hthread
    refine .inr ⟨by simpa [Ending, howner] using hending, ?_⟩
    by_cases hjoining : s.owner = .joining
    · rcases hthread hjoining with hless | hsame
      · left
        simpa [toEnd, howner, hjoining] using hless
      · right
        simp [toEnd, ender, howner, hsame]
    · right
      simp only [toEnd, ender, howner, hjoining, false_and, if_false, and_true]
      split <;> first | rfl | exact absurd ‹_› hjoining
  cases move with
  | push event => exact hstays _ rfl fun _ => .inr rfl
  | notify =>
    rcases Nat.eq_zero_or_pos s.notifying with hzero | hpos
    · rw [show step s .notify = s from if_pos hzero]
      exact hstays s rfl fun _ => .inr rfl
    · rw [step_notify hpos]
      exact hstays _ rfl fun _ => (toGo_notify s.thread).symm
  | destroy =>
    have halive : s.owner ≠ .alive := by
      rcases hending with h | h | h <;> simp [h]
    rw [show step s .destroy = s from if_neg halive]
    exact hstays s rfl fun _ => .inr rfl
  | owner =>
    have hmoves : OwnerMoves s (step s .owner) := ownerStep_moves s
    generalize step s .owner = t at hmoves ⊢
    cases hmoves with
    | clear howner => exact .inr ⟨.inr (.inl rfl), .inl (by simp [toEnd, howner])⟩
    | notify howner =>
      refine .inr ⟨.inr (.inr rfl), .inl ?_⟩
      have hle := toGo_le (notify s.thread)
      simp only [toEnd, howner]
      omega
    | join howner hthread => exact .inl rfl
    | wait howner => exact hstays s rfl fun _ => .inr rfl
  | thread spurious =>
    have hmoves := threadStep_moves s spurious
    refine hstays _ hmoves.frame.2.2.1 fun hjoining => ?_
    exact (hmoves.toGo_lt (hs.not_running hjoining)).imp_right And.left

/-- The one who is asked for gets the destructor on. -/
theorem ender_step (hs : Sound s) (hending : Ending s) (hawake : ¬Oversleeps s) (move : Move E)
    (hmove : (ender s).moves move) :
    (step s move).owner = .destroyed ∨ toEnd (step s move) < toEnd s := by
  rcases hending with howner | howner | howner
  · have hender : ender s = .owner := by simp [ender, howner]
    rw [hender] at hmove
    obtain rfl : move = .owner := hmove
    right
    simp [step, ownerStep, toEnd, howner]
  · have hender : ender s = .owner := by simp [ender, howner]
    rw [hender] at hmove
    obtain rfl : move = .owner := hmove
    right
    have hle := toGo_le (notify s.thread)
    simp only [step, ownerStep, toEnd, howner]
    omega
  · have hrun := hs.not_running howner
    by_cases hfinished : s.thread = .finished
    · have hender : ender s = .owner := by simp [ender, hfinished]
      rw [hender] at hmove
      obtain rfl : move = .owner := hmove
      left
      simp [step, ownerStep, howner, hfinished]
    by_cases hblocked : s.thread = .blocked
    · have hender : ender s = .caller := by simp [ender, howner, hblocked, Mover.ofThread]
      rw [hender] at hmove
      obtain rfl : move = .notify := hmove
      right
      -- it is not overslept, so there is a notification to come
      have hpos : 0 < s.notifying := by
        have hunseen : Unseen s := by simp [Unseen, hblocked, hrun]
        have hpending : Pending s := by
          by_contra hnone
          exact hawake ⟨hunseen, hnone⟩
        simpa [Pending, howner] using hpending
      rw [step_notify hpos]
      simp only [toEnd, howner, hblocked]
      decide
    · have hender : ender s = .thread := by
        simp [ender, howner, hfinished, hblocked, Mover.ofThread]
      rw [hender] at hmove
      obtain ⟨spurious, rfl⟩ := hmove
      right
      have hmoves := threadStep_moves s spurious
      have hsame : (step s (.thread spurious)).owner = .joining :=
        hmoves.frame.2.2.1.trans howner
      rw [toEnd, toEnd, hsame, howner]
      rcases hmoves.toGo_lt hrun with hless | hstays
      · exact hless
      · exact (hstays.2.elim hblocked hfinished).elim

/-- A destructor whose thread does not oversleep returns. -/
theorem returns_of_awake {schedule : Nat → Move E} (hs : Sound s) (hending : Ending s)
    (hfair : FairToAll schedule) (hawake : ∀ n, ¬Oversleeps (run step schedule s n)) :
    ∃ n, (run step schedule s n).owner = .destroyed := by
  have hleads : LeadsTo (run step schedule s) Ending fun s => s.owner = .destroyed := by
    refine leadsTo_of_helpful hfair ender toEnd ?_ ?_
    · intro n hn _ hmove
      have hsound : Sound (run step schedule s n) := run_sound hs n
      have hless := ender_step hsound hn (hawake n) _ hmove
      rcases ending_step hsound hn (schedule n) with hend | ⟨hstill, -⟩
      · exact .inl hend
      · exact hless.imp_right fun h => ⟨hstill, h⟩
    · intro n hn _
      exact ending_step (run_sound hs n) hn (schedule n)
  obtain ⟨n, -, hn⟩ := hleads 0 hending
  exact ⟨n, hn⟩

/-- When nobody adds an event and the thread does not wake for no reason, a thread that
oversleeps sleeps on. -/
theorem oversleeps_step (hs : Sound s) (hover : Oversleeps s) (hending : Ending s) (move : Move E)
    (hpush : ∀ event, move ≠ .push event) (hspurious : move ≠ .thread true) :
    Oversleeps (step s move) ∧ Ending (step s move) := by
  obtain ⟨hunseen, hpending⟩ := hover
  have hnone := hpending
  simp only [Pending, not_or] at hnone
  obtain ⟨hnotifying, hclearing, hnotifyingOwner⟩ := hnone
  have hjoining : s.owner = .joining := by
    rcases hending with h | h | h
    · exact absurd h hclearing
    · exact absurd h hnotifyingOwner
    · exact h
  have hself : Oversleeps s ∧ Ending s := ⟨⟨hunseen, hpending⟩, hending⟩
  cases move with
  | push event => exact absurd rfl (hpush event)
  | notify =>
    rw [show step s .notify = s from if_pos (by omega)]
    exact hself
  | destroy =>
    rw [show step s .destroy = s from if_neg (by simp [hjoining])]
    exact hself
  | owner =>
    have hfinished : s.thread ≠ .finished := by
      intro hpc
      simp [Unseen, hpc] at hunseen
    rw [show step s .owner = s by simp only [step, ownerStep, hjoining, if_neg hfinished]]
    exact hself
  | thread spurious =>
    obtain rfl : spurious = false := by
      cases spurious with
      | true => exact absurd rfl hspurious
      | false => rfl
    have hrun := hs.not_running hjoining
    -- it stands before its sleep, or in it
    cases hpc : s.thread with
    | decided =>
      have hstep : step s (.thread false) = { s with thread := .blocked } := by
        simp only [step, threadStep, hpc]
      rw [hstep]
      exact ⟨⟨.inr hrun, hpending⟩, hending⟩
    | blocked =>
      have hstep : step s (.thread false) = s := by
        simp [step, threadStep, hpc]
      rw [hstep]
      exact hself
    | testingRunning => simp [Unseen, hpc, hrun] at hunseen
    | looping => simp [Unseen, hpc] at hunseen
    | testingEvents => simp [Unseen, hpc] at hunseen
    | woken => simp [Unseen, hpc] at hunseen
    | calling => simp [Unseen, hpc] at hunseen
    | finished => simp [Unseen, hpc] at hunseen

/-- No move brings an object back. -/
theorem destroyed_stays (s : State E) (move : Move E) (h : s.owner = .destroyed) :
    (step s move).owner = .destroyed := by
  cases move with
  | push event => exact h
  | notify =>
    show State.owner (if s.notifying = 0 then s else _) = .destroyed
    split <;> exact h
  | destroy => rwa [show step s .destroy = s from if_neg (by simp [h])]
  | owner =>
    show (ownerStep s).owner = .destroyed
    simp only [ownerStep, h]
  | thread spurious => exact (threadStep_moves s spurious).frame.2.2.1.trans h

/-- A destructor whose thread oversleeps never returns. -/
theorem never_returns {schedule : Nat → Move E} (hs : Sound s) (hending : Ending s)
    (hpush : ∀ n event, schedule n ≠ .push event) (hspurious : ∀ n, schedule n ≠ .thread true)
    {m : Nat} (hover : Oversleeps (run step schedule s m)) (n : Nat) :
    (run step schedule s n).owner ≠ .destroyed := by
  intro hn
  have hnot : ∀ k, Oversleeps (run step schedule s k) →
      (run step schedule s k).owner ≠ .destroyed := by
    intro k hk howner
    have hunseen := hk.1
    simp [Unseen, (run_sound hs k).joined howner] at hunseen
  have hbegun : ∀ k, Ending (run step schedule s k) ∨
      (run step schedule s k).owner = .destroyed := by
    intro k
    induction k with
    | zero => exact .inl hending
    | succ k ih =>
      rcases ih with hk | hk
      · rcases ending_step (run_sound hs k) hk (schedule k) with hend | hstill
        · exact .inr hend
        · exact .inl hstill.1
      · exact .inr (destroyed_stays _ _ hk)
  -- it oversleeps for ever, and it has not been joined before
  have hforever : ∀ k, m ≤ k → Oversleeps (run step schedule s k) ∧
      Ending (run step schedule s k) := by
    intro k hk
    induction hk with
    | refl => exact ⟨hover, (hbegun m).resolve_right (hnot m hover)⟩
    | step hk ih =>
      exact oversleeps_step (run_sound hs _) ih.1 ih.2 _ (hpush _) (hspurious _)
  rcases Nat.le_total m n with hmn | hnm
  · exact hnot n (hforever n hmn).1 hn
  · exact hnot m hover (run_stays destroyed_stays hnm hn)

/-- The destructor of an object is called in some state of a run. From then on nobody adds an
event, the thread does not wake for no reason, and everybody goes on. Then the destructor returns
exactly if each notification from then on is timely. -/
theorem destructor_returns_iff (moves : List (Move E)) (schedule : Nat → Move E)
    (hstart : (moves.foldl step construct).owner = .clearing) (hfair : FairToAll schedule)
    (hpush : ∀ n event, schedule n ≠ .push event) (hspurious : ∀ n, schedule n ≠ .thread true) :
    (∃ n, (run step schedule (moves.foldl step construct) n).owner = .destroyed) ↔
      ∀ n, Timely (run step schedule (moves.foldl step construct) n) (schedule n) := by
  have hs : Sound (moves.foldl step construct) := foldl_sound moves construct_sound
  generalize moves.foldl step construct = s at hstart hs ⊢
  have hawake : Awake s := ⟨hs, fun h => h.2 (.inr (.inl hstart))⟩
  rw [← always_iff_everyMove (P := fun s => ¬Oversleeps s) hawake (fun _ h => h.2) step_awake
    fun s move _ htimely h => h (step_oversleeps s move htimely)]
  constructor
  · intro hreturns m hover
    obtain ⟨n, hn⟩ := hreturns
    exact never_returns hs (.inl hstart) hpush hspurious hover n hn
  · exact returns_of_awake hs (.inl hstart) hfair

/-! ### The events -/

/-- The object is in use. -/
structure InUse (s : State E) : Prop where
  awake : Awake s
  owner : s.owner = .alive

/-- The event with the index `k` has been added, and its call has not begun. -/
def Waits (k : Nat) (s : State E) : Prop := k < s.added.length ∧ s.called.length ≤ k

/-- The thread goes round its loop, past the sleep that it may have decided on. -/
def turn : ThreadPc → Nat
  | .testingRunning => 6
  | .decided => 5
  | .blocked => 4
  | .calling => 3
  | .looping => 2
  | .testingEvents => 1
  | .woken => 0
  | .finished => 0

/-- What is left until the call of the event with the index `k`. -/
def toCall (k : Nat) (s : State E) : Nat := (k + 1 - s.called.length) * 7 + turn s.thread

/-- `_running` is set as long as the object is in use. -/
theorem InUse.running (hs : InUse s) : s.running = true :=
  hs.awake.1.running.mpr (.inl hs.owner)

/-- There is an event on the list until the last one has been called. -/
theorem eventList_ne_nil {k : Nat} (hs : Sound s) (hwaits : Waits k s)
    (hpc : s.thread ≠ .calling) : s.eventList ≠ [] := by
  intro hempty
  have hinOrder := hs.inOrder
  obtain ⟨hadded, hcalled⟩ := hwaits
  rw [waiting_of_ne hpc, hempty, List.append_nil] at hinOrder
  rw [← hinOrder] at hadded
  omega

/-- A notification gets a waiting thread further on its way round the loop, and does nothing to
another. -/
theorem turn_notify (pc : ThreadPc) : notify pc = pc ∨ turn (notify pc) < turn pc := by
  cases pc <;> decide

/-- While events wait, a thread that moves gets further on its way to the next call. Only one that
sleeps stays where it is. -/
theorem Goes.turn_lt {pc pc' : ThreadPc} (h : Goes s pc pc') (hrun : s.running = true)
    (hlist : s.eventList ≠ []) (hpc : pc ≠ .finished) :
    turn pc' < turn pc ∨ pc' = pc ∧ pc = .blocked := by
  cases h <;> simp_all [turn]

/-- A move of the thread brings an event nearer to its call, unless the thread waits. -/
theorem ThreadMoves.toCall_lt {k : Nat} {t : State E} (h : ThreadMoves s t) (hs : InUse s)
    (hwaits : Waits k s) :
    k < t.called.length ∨ (Waits k t ∧ (toCall k t < toCall k s ∨
      (toCall k t = toCall k s ∧ t.thread = s.thread ∧ s.thread = .blocked))) := by
  have hwaits' := hwaits
  obtain ⟨hadded, hcalled⟩ := hwaits'
  cases h with
  | goes pc hgoes =>
    refine .inr ⟨⟨hadded, hcalled⟩, ?_⟩
    have hfinished : s.thread ≠ .finished := by
      intro hpc
      have hstopped := hs.awake.1.finished hpc
      simp [hs.running] at hstopped
    have hlist := eventList_ne_nil hs.awake.1 hwaits hgoes.ne_calling.1
    rcases hgoes.turn_lt hs.running hlist hfinished with hless | ⟨hsame, hblocked⟩
    · left
      simpa [toCall] using hless
    · right
      exact ⟨by simp [toCall, hsame], hsame, hblocked⟩
  | call event rest hpc hlist =>
    by_cases hlast : s.called.length = k
    · left
      simp [hlast]
    · refine .inr ⟨⟨hadded, ?_⟩, .inl ?_⟩
      · simp only [List.length_append, List.length_singleton]
        omega
      · simp only [toCall, List.length_append, List.length_singleton, hpc, turn]
        omega
  | finish hpc =>
    refine .inr ⟨⟨hadded, hcalled⟩, .inl ?_⟩
    simp only [toCall, hpc, turn]
    omega

/-- After each move an event that waits has been called, or it is nearer to its call, or it is
where it was. -/
theorem waits_step {k : Nat} (hs : InUse s) (hwaits : Waits k s) (move : Move E)
    (hdestroy : move ≠ .destroy) :
    k < (step s move).called.length ∨ (Waits k (step s move) ∧
      (toCall k (step s move) < toCall k s ∨ (toCall k (step s move) = toCall k s ∧
        Mover.ofThread (step s move).thread = Mover.ofThread s.thread))) := by
  obtain ⟨hadded, hcalled⟩ := hwaits
  cases move with
  | push event =>
    refine .inr ⟨⟨?_, hcalled⟩, .inr ⟨rfl, rfl⟩⟩
    show k < (s.added ++ [event]).length
    rw [List.length_append]
    omega
  | notify =>
    rcases Nat.eq_zero_or_pos s.notifying with hzero | hpos
    · rw [show step s .notify = s from if_pos hzero]
      exact .inr ⟨⟨hadded, hcalled⟩, .inr ⟨rfl, rfl⟩⟩
    · rw [step_notify hpos]
      refine .inr ⟨⟨hadded, hcalled⟩, ?_⟩
      rcases turn_notify s.thread with hsame | hless
      · right
        simp [toCall, hsame]
      · left
        simpa [toCall] using hless
  | destroy => exact absurd rfl hdestroy
  | owner =>
    rw [show step s .owner = s by simp only [step, ownerStep, hs.owner]]
    exact .inr ⟨⟨hadded, hcalled⟩, .inr ⟨rfl, rfl⟩⟩
  | thread spurious =>
    rcases (threadStep_moves s spurious).toCall_lt hs ⟨hadded, hcalled⟩ with hcall | ⟨hstill, hrank⟩
    · exact .inl hcall
    · exact .inr ⟨hstill, hrank.imp_right fun h => ⟨h.1, congrArg Mover.ofThread h.2.1⟩⟩

/-- The one who is asked for brings an event nearer to its call. -/
theorem helper_step {k : Nat} (hs : InUse s) (hwaits : Waits k s) (move : Move E)
    (hmove : (Mover.ofThread s.thread).moves move) :
    k < (step s move).called.length ∨ toCall k (step s move) < toCall k s := by
  by_cases hblocked : s.thread = .blocked
  · rw [Mover.ofThread, if_pos hblocked] at hmove
    obtain rfl : move = .notify := hmove
    right
    -- there is an event on the list, so there is a notification to come
    have hpos : 0 < s.notifying := by
      have hlist := eventList_ne_nil hs.awake.1 hwaits (by simp [hblocked])
      have hunseen : Unseen s := by simp [Unseen, hblocked, hlist]
      have hpending : Pending s := by
        by_contra hnone
        exact hs.awake.2 ⟨hunseen, hnone⟩
      simpa [Pending, hs.owner] using hpending
    rw [step_notify hpos]
    simp only [toCall, hblocked, Nat.add_lt_add_iff_left]
    decide
  · rw [Mover.ofThread, if_neg hblocked] at hmove
    obtain ⟨spurious, rfl⟩ := hmove
    rcases (threadStep_moves s spurious).toCall_lt hs hwaits with hcall | ⟨-, hless | hsame⟩
    · exact .inl hcall
    · exact .inr hless
    · exact absurd hsame.2.2 hblocked

/-- The object stays in use while nobody calls the destructor and the notifications are timely. -/
theorem step_inUse (move : Move E) (hs : InUse s) (hdestroy : move ≠ .destroy)
    (htimely : Timely s move) : InUse (step s move) := by
  refine ⟨step_awake s move hs.awake htimely, ?_⟩
  cases move with
  | push event => exact hs.owner
  | notify =>
    show State.owner (if s.notifying = 0 then s else _) = .alive
    split <;> exact hs.owner
  | destroy => exact absurd rfl hdestroy
  | owner =>
    show (ownerStep s).owner = .alive
    simp only [ownerStep, hs.owner]
  | thread spurious => exact (threadStep_moves s spurious).frame.2.2.1.trans hs.owner

/-- The object is in use, all its notifications are timely, and everybody goes on. Then the call
of each event that is added begins in the end. -/
theorem every_event_called (schedule : Nat → Move E) (hfair : FairToAll schedule)
    (hdestroy : ∀ n, schedule n ≠ .destroy)
    (htimely : ∀ n, Timely (run step schedule construct n) (schedule n)) (k : Nat) :
    LeadsTo (run step schedule construct) (fun s => k < s.added.length)
      fun s => k < s.called.length := by
  have hinUse : ∀ n, InUse (run step schedule construct n) := by
    intro n
    induction n with
    | zero => exact ⟨construct_awake, rfl⟩
    | succ n ih => exact step_inUse _ ih (hdestroy n) (htimely n)
  have hleads : LeadsTo (run step schedule construct) (Waits k) fun s => k < s.called.length := by
    refine leadsTo_of_helpful hfair (fun s => .ofThread s.thread) (toCall k) ?_ ?_
    · intro n hn _ hmove
      have hless := helper_step (hinUse n) hn _ hmove
      rcases waits_step (hinUse n) hn (schedule n) (hdestroy n) with hcall | ⟨hstill, -⟩
      · exact .inl hcall
      · exact hless.imp_right fun h => ⟨hstill, h⟩
    · intro n hn _
      exact waits_step (hinUse n) hn (schedule n) (hdestroy n)
  intro n hn
  rcases Nat.lt_or_ge k (run step schedule construct n).called.length with hcalled | hwaits
  · exact ⟨n, Nat.le_refl n, hcalled⟩
  · exact hleads n ⟨hn, hwaits⟩

end

/-! ### Two runs -/

/-- The owner, the callers and the thread in turn. -/
def everybody : Nat → Move Nat := roundRobin .owner [.notify, .thread false]

/-- A schedule that takes turns comes back to everybody. -/
theorem everybody_fair : FairToAll everybody := by
  intro mover
  cases mover with
  | caller => exact roundRobin_fair ⟨.notify, by simp, rfl⟩
  | owner => exact roundRobin_fair ⟨.owner, by simp, rfl⟩
  | thread => exact roundRobin_fair ⟨.thread false, by simp, false, rfl⟩

/-- It consists of these three moves. -/
theorem everybody_mem (n : Nat) :
    everybody n = .owner ∨ everybody n = .notify ∨ everybody n = .thread false := by
  simpa [everybody] using roundRobin_mem Move.owner [.notify, .thread false] n

/-- The thread has found the list empty, then two events are added, and the destructor is called. -/
def withEvents : List (Move Nat) :=
  [.thread false, .thread false, .push 7, .push 8, .destroy]

/-- The result for an object that is destroyed with these events on its list, and with the two
notifications still to come. -/
theorem destructor_returns_iff_pending : (withEvents.foldl step construct).eventList = [7, 8] ∧
    ((∃ n, (run step everybody (withEvents.foldl step construct) n).owner = .destroyed) ↔
      ∀ n, Timely (run step everybody (withEvents.foldl step construct) n) (everybody n)) := by
  refine ⟨rfl, destructor_returns_iff withEvents everybody rfl everybody_fair ?_ ?_⟩
  · intro n event
    rcases everybody_mem n with h | h | h <;> simp [h]
  · intro n
    rcases everybody_mem n with h | h | h <;> simp [h]

/-- An event is added, and then everybody moves in turn. -/
def addOne : Nat → Move Nat
  | 0 => .push 7
  | n + 1 => everybody (n + 1)

/-- One move in front of a fair schedule leaves it fair. -/
theorem addOne_fair : FairToAll addOne := by
  intro mover n
  obtain ⟨m, hnm, hm⟩ := everybody_fair mover (n + 1)
  obtain ⟨k, rfl⟩ : ∃ k, m = k + 1 := ⟨m - 1, by omega⟩
  exact ⟨k + 1, by omega, hm⟩

/-- The notification comes before the thread has looked. -/
theorem addOne_timely (n : Nat) : Timely (run step addOne construct n) (addOne n) := by
  have hquiet : ∀ m, (run step addOne construct (m + 2)).notifying = 0 ∧
      (run step addOne construct (m + 2)).owner = .alive := by
    intro m
    induction m with
    | zero => exact ⟨rfl, rfl⟩
    | succ m ih =>
      show (step _ (addOne (m + 2))).notifying = 0 ∧ (step _ (addOne (m + 2))).owner = .alive
      generalize run step addOne construct (m + 2) = s at ih
      obtain ⟨hnotifying, howner⟩ := ih
      have hmove : addOne (m + 2) = everybody (m + 2) := rfl
      rw [hmove]
      rcases everybody_mem (m + 2) with h | h | h
      · simp [h, step, ownerStep, hnotifying, howner]
      · simp [h, step, hnotifying, howner]
      · have hframe := (threadStep_moves s false).frame
        rw [h]
        exact ⟨hframe.2.1.trans hnotifying, hframe.2.2.1.trans howner⟩
  cases n with
  | zero => trivial
  | succ n =>
    cases n with
    | zero => exact fun _ _ _ hunseen => hunseen.elim
    | succ m =>
      obtain ⟨hnotifying, howner⟩ := hquiet m
      have hmove : addOne (m + 2) = everybody (m + 2) := rfl
      rw [hmove]
      rcases everybody_mem (m + 2) with h | h | h
      · simp [h, Timely, howner]
      · simp [h, Timely, hnotifying]
      · simp [h, Timely]

/-- The result for the first event that is added. -/
theorem every_event_called_first :
    LeadsTo (run step addOne construct) (fun s => 0 < s.added.length)
      fun s => 0 < s.called.length := by
  refine every_event_called addOne addOne_fair ?_ addOne_timely 0
  intro n
  cases n with
  | zero => simp [addOne]
  | succ n => rcases everybody_mem (n + 1) with h | h | h <;> simp [addOne, h]

end Brutils.Proofs.ThreadedObject
