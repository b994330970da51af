import Brutils.Proofs.QueuedEvents
import Mathlib.Algebra.GroupWithZero.Nat

/-!
# `Brutils.Proofs.QueuedEvents.Accounts`: no delivery is lost or made twice

`Accounted` is the invariant. What has been asked for has been done, or it waits: each `emit` of a
signal has been performed, or one event waits for it, and each connection of each signal that has
been performed has called its slot, or one event waits for that. An event is on the list of one
thread only, so the pass that takes it from there takes one from what waits (`waiting_pop`).

A pass runs the front event and then pops it. In between the event has been dealt with and still
waits, which is what `plus` is for: the event is asked for once more, until it is popped.
-/

set_option autoImplicit false

namespace Brutils.Proofs.QueuedEvents

open Brutils.Signal Brutils.QueuedEvents
open Brutils.Proofs.Signal
open Brutils.Proofs.Emitting (QueuedOwned Ready queuedOwned_run newWorld twoThreads fresh_newWorld)
open Brutils.Emitting (Closure Owners)

variable {G S T : Type} [DecidableEq T] {owners : Owners G S T} {s : State G S T}
variable [DecidableEq G] [DecidableEq S]

/-! ### What waits -/

section
variable (owners)

/-- How many events of a kind wait. -/
def waiting (s : State G S T) (event : Closure G S) : Nat :=
  match threadOf (parentOf owners event) with
  | some thread => (s.events thread).count event
  | none => 0

end

omit [DecidableEq T] in
/-- What waits of a kind is on the list of its one thread. -/
theorem waiting_eq {event : Closure G S} {thread : T}
    (h : threadOf (parentOf owners event) = some thread) :
    waiting owners s event = (s.events thread).count event := by
  rw [waiting, h]

/-- One more event waits. -/
theorem waiting_push {event : Closure G S} {home : T}
    (hhome : threadOf (parentOf owners event) = some home) (event' : Closure G S) :
    waiting owners (push owners s event) event' =
      waiting owners s event' + if event' = event then 1 else 0 := by
  rw [push_eq hhome, waiting, waiting]
  split
  · rename_i thread hthread
    show (Function.update s.events home _ thread).count event' = _
    by_cases heq : thread = home
    · rw [heq, Function.update_self, count_concat_ite]
    · have hne : event' ≠ event := by
        rintro rfl
        exact heq (Option.some.inj (hthread.symm.trans hhome))
      rw [Function.update_of_ne heq, if_neg hne, Nat.add_zero]
  · rename_i hthread
    have hne : event' ≠ event := by
      rintro rfl
      rw [hhome] at hthread
      cases hthread
    rw [if_neg hne]

/-- The thread takes an event that has come to it. -/
theorem waiting_pop {event : Closure G S} {thread : T} {rest : List (Closure G S)}
    (hhome : threadOf (parentOf owners event) = some thread)
    (hfront : s.events thread = event :: rest) (event' : Closure G S) :
    waiting owners (pop s thread) event' + (if event' = event then 1 else 0) =
      waiting owners s event' := by
  rw [waiting, waiting]
  split
  · rename_i thread' hthread'
    show (Function.update s.events thread _ thread').count event' + _ = _
    by_cases heq : thread' = thread
    · rw [heq, Function.update_self, hfront, List.tail_cons, count_cons_ite]
    · have hne : event' ≠ event := by
        rintro rfl
        exact heq (Option.some.inj (hthread'.symm.trans hhome))
      rw [Function.update_of_ne heq, if_neg hne, Nat.add_zero]
  · rename_i hthread'
    have hne : event' ≠ event := by
      rintro rfl
      rw [hhome] at hthread'
      cases hthread'
    rw [if_neg hne]

section
variable {thread thread' : T} {event event' : Closure G S} {slots : List S}

omit [DecidableEq G] [DecidableEq S] in
/-- An event goes to the list of its thread only. -/
theorem mem_push (h : event' ∈ (push owners s event).events thread) :
    event' ∈ s.events thread ∨
      event' = event ∧ threadOf (parentOf owners event) = some thread := by
  unfold push at h
  split at h
  · rename_i home hhome
    have hmem : event' ∈ Function.update s.events home (s.events home ++ [event]) thread := h
    by_cases heq : thread = home
    · rw [heq, Function.update_self] at hmem
      rcases List.mem_append.mp hmem with hold | hnew
      · exact .inl (heq ▸ hold)
      · exact .inr ⟨List.mem_singleton.mp hnew, heq ▸ hhome⟩
    · rw [Function.update_of_ne heq] at hmem
      exact .inl hmem
  · exact .inl h

omit [DecidableEq G] [DecidableEq S] in
/-- Popping brings no new event. -/
theorem mem_pop (h : event ∈ (pop s thread).events thread') : event ∈ s.events thread' := by
  have hmem : event ∈ Function.update s.events thread (s.events thread).tail thread' := h
  by_cases heq : thread' = thread
  · rw [heq, Function.update_self] at hmem
    exact heq ▸ List.mem_of_mem_tail hmem
  · rwa [Function.update_of_ne heq] at hmem

omit [DecidableEq G] [DecidableEq S] in
/-- What arrives on a list are events of slots of that thread. -/
theorem mem_arriving (h : event ∈ arriving owners thread slots) :
    ∃ slot ∈ slots, event = .call slot ∧ threadOf (owners.slotParent slot) = some thread := by
  obtain ⟨slot, hslot, rfl⟩ := List.mem_map.mp h
  obtain ⟨hmem, hthread⟩ := List.mem_filter.mp hslot
  exact ⟨slot, hmem, rfl, of_decide_eq_true hthread⟩

/-- On the list of its thread a slot gets one event for each connection. -/
theorem count_arriving {slot : S} (h : threadOf (owners.slotParent slot) = some thread) :
    (arriving owners thread slots).count (.call slot) = slots.count slot := by
  have hinjective : Function.Injective (Closure.call (G := G) (S := S)) :=
    fun _ _ heq => Closure.call.inj heq
  rw [arriving, List.count_map_of_injective _ _ hinjective, List.count_filter]
  exact decide_eq_true h

end

section
variable {g : G} {signal : Signal S} (hready : Ready owners signal)

/-- Serving the connections brings no event for an emit. -/
theorem waiting_served_emit (g' : G) :
    waiting owners (served owners s g signal) (.emit g') = waiting owners s (.emit g') := by
  rw [waiting, waiting]
  split
  · rename_i thread _
    have hnone : (arriving owners thread signal.queuedConnections).count (.emit g') = 0 := by
      refine List.count_eq_zero_of_not_mem fun hmem => ?_
      obtain ⟨slot, _, heq, _⟩ := mem_arriving hmem
      cases heq
    show (s.events thread ++ _).count _ = _
    rw [List.count_append, hnone, Nat.add_zero]
  · rfl

include hready

/-- It brings one event for each queued connection of the slot. -/
theorem waiting_served_call (slot : S) :
    waiting owners (served owners s g signal) (.call slot) =
      waiting owners s (.call slot) + signal.queuedConnections.count slot := by
  have hparent : parentOf owners (.call slot) = owners.slotParent slot := rfl
  cases hthread : threadOf (owners.slotParent slot) with
  | some thread =>
    have hhome : threadOf (parentOf owners (.call slot)) = some thread := hthread
    rw [waiting_eq hhome, waiting_eq hhome]
    show (s.events thread ++ _).count _ = _
    rw [List.count_append, count_arriving hthread]
  | none =>
    have hnot : slot ∉ signal.queuedConnections := by
      intro hmem
      obtain ⟨thread, eventList, hroot⟩ := hready.2 slot hmem
      simp [threadOf, hroot] at hthread
    rw [waiting, waiting, hparent, hthread, List.count_eq_zero_of_not_mem hnot]

end

/-! ### The accounts -/

section
variable (owners)

/-- How often the slot was connected to the signals that have been performed, each as it then was. -/
def owed (s : State G S T) (slot : S) : Nat :=
  (s.performed.map fun entry => linkCount entry.2 slot).sum

/-- How often the signal has been performed. -/
def performances (s : State G S T) (g : G) : Nat := s.performed.countP fun entry => entry.1 = g

/-- Every event is on the list of its thread. What has been asked for has been done, or it waits:
the performances of a signal, and the calls of a slot with those that are owed to it. -/
structure Accounted (s : State G S T) (asked : Closure G S → Nat) : Prop where
  agrees : Agrees s.world
  owned : QueuedOwned s.world
  home : ∀ thread event, event ∈ s.events thread → threadOf (parentOf owners event) = some thread
  performed : ∀ g, performances s g + waiting owners s (.emit g) = asked (.emit g)
  called : ∀ slot,
    s.called.count slot + waiting owners s (.call slot) = owed s slot + asked (.call slot)

end

/-- One more has been asked for. -/
def plus (asked : Closure G S → Nat) (event event' : Closure G S) : Nat :=
  asked event' + if event' = event then 1 else 0

/-- What a move asks for. No move asks for a call of a slot. -/
def askedBy (asked : Closure G S → Nat) : Move G S T → Closure G S → Nat
  | .emit _ g => plus asked (.emit g)
  | _ => asked

omit [DecidableEq T] in
/-- At the start nothing has been asked for. -/
theorem accounted_start (owners : Owners G S T) {w : World G S} (hfresh : Fresh w) :
    Accounted owners (start w) fun _ => 0 := by
  have hnone : ∀ event, waiting owners (start w) event = 0 := by
    intro event
    unfold waiting
    split
    · exact List.count_nil
    · rfl
  refine ⟨fresh_agrees hfresh, ?_, ?_, fun g => ?_, fun slot => ?_⟩
  · intro g signal hg slot hslot
    rw [(hfresh.1 g signal hg).2] at hslot
    exact absurd hslot List.not_mem_nil
  · intro thread event hevent
    exact absurd hevent List.not_mem_nil
  · rw [hnone]
    rfl
  · rw [hnone]
    rfl

section
variable {asked : Closure G S → Nat} (h : Accounted owners s asked)
include h

omit [DecidableEq T] in
/-- An operation on signals and slots that keeps their invariants keeps the accounts. -/
theorem Accounted.world {w : World G S} (hagrees : Agrees w) (howned : QueuedOwned w) :
    Accounted owners { s with world := w } asked :=
  ⟨hagrees, howned, h.home, h.performed, h.called⟩

/-- A signal is performed. -/
theorem Accounted.served {g : G} {signal : Signal S} (hready : Ready owners signal) :
    Accounted owners (served owners s g signal) (plus asked (.emit g)) := by
  refine ⟨h.agrees, h.owned, ?_, ?_, ?_⟩
  · intro thread event hevent
    rcases List.mem_append.mp hevent with hold | hnew
    · exact h.home thread event hold
    · obtain ⟨slot, _, rfl, hthread⟩ := mem_arriving hnew
      exact hthread
  · intro g'
    have hold := h.performed g'
    have hperformed : performances (QueuedEvents.served owners s g signal) g' =
        performances s g' + if Closure.emit (S := S) g' = .emit g then 1 else 0 := by
      show (s.performed ++ [(g, signal)]).countP _ = _
      by_cases heq : g' = g
      · simp [performances, heq]
      · simp [performances, heq, Ne.symm heq]
    rw [waiting_served_emit, hperformed, plus]
    omega
  · intro slot
    have hold := h.called slot
    have hcalled : (QueuedEvents.served owners s g signal).called.count slot =
        s.called.count slot + signal.directConnections.count slot := List.count_append
    have howed : owed (QueuedEvents.served owners s g signal) slot =
        owed s slot + linkCount signal slot := by
      show ((s.performed ++ [(g, signal)]).map _).sum = _
      simp [owed]
    have hasked : plus asked (.emit g) (.call slot) = asked (.call slot) := by simp [plus]
    rw [waiting_served_call hready, hcalled, howed, linkCount, hasked]
    omega

/-- An event waits for a signal. -/
theorem Accounted.push {g : G} {home : T}
    (hhome : threadOf (parentOf owners (.emit g)) = some home) :
    Accounted owners (push owners s (.emit g)) (plus asked (.emit g)) := by
  have hhomes : ∀ thread event, event ∈ (QueuedEvents.push owners s (.emit g)).events thread →
      threadOf (parentOf owners event) = some thread := by
    intro thread event hevent
    rcases mem_push hevent with hold | ⟨rfl, hnew⟩
    · exact h.home thread event hold
    · exact hnew
  have hwaiting := waiting_push (s := s) hhome
  rw [push_eq hhome] at hwaiting hhomes ⊢
  refine ⟨h.agrees, h.owned, hhomes, ?_, ?_⟩
  · intro g'
    have hold := h.performed g'
    rw [hwaiting, plus, ← hold]
    exact (Nat.add_assoc _ _ _).symm
  · intro slot
    have hold := h.called slot
    rw [hwaiting, plus]
    show s.called.count slot + _ = owed s slot + _
    omega

omit [DecidableEq T] in
/-- The function of a slot is called. -/
theorem Accounted.call (slot : S) :
    Accounted owners { s with called := s.called ++ [slot] } (plus asked (.call slot)) := by
  refine ⟨h.agrees, h.owned, h.home, fun g => ?_, fun slot' => ?_⟩
  · have hasked : plus asked (.call slot) (.emit g) = asked (.emit g) := by simp [plus]
    rw [hasked]
    exact h.performed g
  · have hold := h.called slot'
    have hasked : plus asked (.call slot) (.call slot') =
        asked (.call slot') + if slot' = slot then 1 else 0 := by simp [plus]
    show (s.called ++ [slot]).count slot' + waiting owners s _ = owed s slot' + _
    rw [count_concat_ite, hasked]
    omega

end

/-- The event whose turn it was has been dealt with, and goes. -/
theorem Accounted.pop {asked : Closure G S → Nat} {event : Closure G S} {thread : T}
    {rest : List (Closure G S)} (hfront : s.events thread = event :: rest)
    (h : Accounted owners s (plus asked event)) : Accounted owners (pop s thread) asked := by
  have hmem : event ∈ s.events thread := by simp [hfront]
  have hwaiting := waiting_pop (h.home thread event hmem) hfront
  refine ⟨h.agrees, h.owned, fun thread' event' hevent' => h.home _ _ (mem_pop hevent'), ?_, ?_⟩
  · intro g
    have hold := h.performed g
    have hless := hwaiting (.emit g)
    rw [plus] at hold
    show performances s g + _ = _
    omega
  · intro slot
    have hold := h.called slot
    have hless := hwaiting (.call slot)
    rw [plus] at hold
    show s.called.count slot + _ = owed s slot + _
    omega

/-- A move that does not end the run keeps the accounts. -/
theorem Accounted.effect {asked : Closure G S → Nat} (h : Accounted owners s asked)
    {move : Move G S T} {s' : State G S T} (heffect : Effect owners s move s') :
    Accounted owners s' (askedBy asked move) := by
  cases heffect with
  | op op w hrun =>
    obtain ⟨w', hrun', hagrees⟩ := run_agrees op h.agrees (onLive_of_run hrun)
    obtain rfl := Option.some.inj (hrun.symm.trans hrun')
    exact h.world hagrees (queuedOwned_run op h.owned hrun)
  | emitHere thread g signal hg hready => exact h.served hready
  | emitThere thread home g hlive hhome => exact h.push hhome
  | wait thread hnone => exact h
  | runSignal thread g signal rest hfront hg hready =>
    -- what the event has put on the same list stands behind it
    have hstill : (QueuedEvents.served owners s g signal).events thread =
        .emit g :: (rest ++ arriving owners thread signal.queuedConnections) := by
      show s.events thread ++ _ = _
      rw [hfront, List.cons_append]
    exact .pop hstill (h.served hready)
  | runSlot thread slot rest hfront hlive => exact .pop hfront (h.call slot)

/-! ### Runs -/

/-- A run that has not ended has kept the accounts. -/
theorem accounted_run (moves : List (Move G S T)) : ∀ (s : State G S T) (asked : Closure G S → Nat),
    Accounted owners s asked → (moves.foldl (step owners) s).stop = none →
    Accounted owners (moves.foldl (step owners) s) (moves.foldl askedBy asked) := by
  induction moves with
  | nil =>
    intro s asked h _
    exact h
  | cons move moves ih =>
    intro s asked h hstop
    have hgoing : s.stop = none := going_of_foldl (move :: moves) hstop
    have hnext : (step owners s move).stop = none := going_of_foldl moves hstop
    have heffect := step_effect (noneDangling_of_agrees h.agrees) h.owned hgoing move hnext
    exact ih _ _ (h.effect heffect) hstop

/-- The move emits the signal. -/
def emits (g : G) : Move G S T → Bool
  | .emit _ g' => g = g'
  | _ => false

omit [DecidableEq T] in
/-- What a run has asked for. -/
theorem foldl_askedBy (moves : List (Move G S T)) (asked : Closure G S → Nat) :
    (∀ g, moves.foldl askedBy asked (.emit g) = asked (.emit g) + moves.countP (emits g)) ∧
      ∀ slot, moves.foldl askedBy asked (.call slot) = asked (.call slot) := by
  induction moves generalizing asked with
  | nil => exact ⟨fun _ => rfl, fun _ => rfl⟩
  | cons move moves ih =>
    obtain ⟨hemits, hcalls⟩ := ih (askedBy asked move)
    refine ⟨fun g => ?_, fun slot => ?_⟩
    · rw [List.foldl_cons, hemits, List.countP_cons]
      cases move with
      | emit thread g' =>
        simp [askedBy, plus, emits]
        omega
      | op op => simp [askedBy, emits]
      | run thread => simp [askedBy, emits]
    · rw [List.foldl_cons, hcalls]
      cases move with
      | emit thread g' => simp [askedBy, plus]
      | op op => rfl
      | run thread => rfl

/-- A slot is connected, an event is put on the list of its thread, and it is disconnected. -/
def waitingRun : List (Move Unit Unit Nat) :=
  [.op (.connect () () .auto false), .emit 0 (), .op (.disconnect ())]

end Brutils.Proofs.QueuedEvents
