import Brutils.Lib.Transition
import Brutils.Proofs.QueuedEvents.Accounts
import Brutils.Proofs.QueuedEvents.Writes

/-!
# `Brutils.Proofs.QueuedEvents.Outliving`: events outlive connections and objects

No operation looks at the lists of the threads. So an event stays when its signal or slot goes. The
thread comes to it after the events before it, and then follows a pointer to an object that does not
live (`follows_dangling`). `never_dangling_iff` says that this is the only way. `Safe` is the
invariant behind it: the object in each event lives. A run is harmless exactly if its operations are
on live objects and it destroys no object for which an event waits.

An event also stays when the connection goes. A slot that has been disconnected from all of its
signals is owed no more calls, so by the accounts it is called once for each event that waits
(`called_after_disconnect`).
-/

set_option autoImplicit false

namespace Brutils.Proofs.QueuedEvents

open Transition (Throughout EveryStep throughout_iff_everyStep)
open Brutils.Signal Brutils.QueuedEvents
open Brutils.Proofs.Signal
open Brutils.Proofs.Emitting (QueuedOwned Callable TakesEvents Ready queuedOwned_run newWorld
  twoThreads fresh_newWorld)
open Brutils.Emitting (Closure Owners)

variable {G S T : Type} [DecidableEq G] [DecidableEq S]

/-! ### Pointers in events -/

variable [DecidableEq T] {owners : Owners G S T} {s : State G S T}

/-- The move is made on live objects. -/
def OnLive (s : State G S T) : Move G S T → Prop
  | .op op => op.OnLive s.world
  | .emit _ g => (s.world.signals g).isSome
  | .run _ => True

/-- No event waits for the object that the move destroys. -/
def NoneWaits (s : State G S T) : Move G S T → Prop
  | .op op => ∀ event ∈ destroyed op, ∀ thread, event ∉ s.events thread
  | _ => True

/-- However the threads now run their events, they follow no dangling pointer. -/
def Harmless (owners : Owners G S T) (s : State G S T) : Prop :=
  ∀ threads : List T, ((threads.map Move.run).foldl (step owners) s).stop ≠ some .dangling

/-- The links are sound, and the objects in the events live. -/
structure Safe (s : State G S T) : Prop where
  agrees : Agrees s.world
  owned : QueuedOwned s.world
  going : s.stop = none
  live : ∀ thread event, event ∈ s.events thread → Live s.world event

omit [DecidableEq T] in
/-- At the start no event waits for anybody. -/
theorem safe_start {w : World G S} (hfresh : Fresh w) : Safe (start w : State G S T) := by
  refine ⟨fresh_agrees hfresh, ?_, rfl, ?_⟩
  · intro g signal hg slot hslot
    rw [(hfresh.1 g signal hg).2] at hslot
    exact absurd hslot List.not_mem_nil
  · intro thread event hevent
    exact absurd hevent List.not_mem_nil

section
variable (hready : ∀ slot, Callable owners slot ∧ TakesEvents owners slot)
include hready

omit [DecidableEq G] [DecidableEq S] [DecidableEq T] in
/-- A signal whose slots are all callable is ready. -/
theorem ready_of_all (signal : Signal S) : Ready owners signal :=
  ⟨fun slot _ => (hready slot).1, fun slot _ => (hready slot).2⟩

omit [DecidableEq G] [DecidableEq S] in
/-- An event of a live object does not end the run. -/
theorem run_going (hdangling : NoneDangling s.world) (howned : QueuedOwned s.world)
    (hgoing : s.stop = none) {thread : T}
    (hlive : ∀ event rest, s.events thread = event :: rest → Live s.world event) :
    (run owners s thread).stop = none := by
  cases hevents : s.events thread with
  | nil =>
    rw [run, hevents]
    exact hgoing
  | cons event rest =>
    have hcall : (call owners s event).stop = none := by
      have hevent := hlive event rest hevents
      cases event with
      | emit g =>
        obtain ⟨signal, hg⟩ := Option.isSome_iff_exists.mp hevent
        simp only [call, hg]
        exact (callConnections_stop hdangling howned hg).mpr (ready_of_all hready signal)
      | call slot =>
        obtain ⟨members, hslot⟩ := Option.isSome_iff_exists.mp hevent
        have hinit : owners.init slot = true := (hready slot).1
        simp only [call, hslot, if_pos hinit]
        exact hgoing
    rw [run, hevents]
    simp only [if_pos hcall]
    exact hcall

/-- In a safe state a move on live objects does not end the run. -/
theorem step_going (h : Safe s) {move : Move G S T} (hlive : OnLive s move) :
    (step owners s move).stop = none := by
  have hdangling := noneDangling_of_agrees h.agrees
  cases move with
  | op op =>
    obtain ⟨w, hrun, _⟩ := run_agrees op h.agrees hlive
    rw [step_op h.going hrun]
    exact h.going
  | emit thread g =>
    obtain ⟨signal, hg⟩ := Option.isSome_iff_exists.mp hlive
    rw [step_emit h.going]
    rcases emit_cases h.owned hg owners thread with hhere | ⟨hthere, home, hhome⟩
    · rw [hhere]
      exact (callConnections_stop hdangling h.owned hg).mpr (ready_of_all hready signal)
    · rw [hthere, push_eq hhome]
      exact h.going
  | run thread =>
    rw [step_run h.going]
    refine run_going hready hdangling h.owned h.going fun event rest hevents => ?_
    exact h.live thread event (by simp [hevents])

end

/-- The events after a pass that does not end the run. -/
theorem Effect.events_run {thread : T} {s' : State G S T} (h : Effect owners s (.run thread) s') :
    s'.world = s.world ∧ ∃ more, s'.events thread = (s.events thread).tail ++ more := by
  cases h with
  | wait _ hnone => exact ⟨rfl, [], by simp [hnone]⟩
  | runSignal _ g signal rest hfront hg hready =>
    refine ⟨rfl, arriving owners thread signal.queuedConnections, ?_⟩
    show Function.update _ thread _ thread = _
    rw [Function.update_self]
    show (s.events thread ++ _).tail = _
    rw [hfront]
    rfl
  | runSlot _ slot rest hfront hlive =>
    refine ⟨rfl, [], ?_⟩
    show Function.update _ thread _ thread = _
    rw [Function.update_self, List.append_nil]

/-- A move on live objects that destroys none for which an event waits. -/
theorem Safe.step (hready : ∀ slot, Callable owners slot ∧ TakesEvents owners slot) (h : Safe s)
    {move : Move G S T} (hlive : OnLive s move) (hwaits : NoneWaits s move) :
    Safe (step owners s move) := by
  have hdangling := noneDangling_of_agrees h.agrees
  have hgoing := step_going hready h hlive
  have heffect := step_effect hdangling h.owned h.going move hgoing
  generalize QueuedEvents.step owners s move = s' at hgoing heffect
  -- the events of the slots of a signal
  have hserved : ∀ {g signal}, s.world.signals g = some signal → ∀ thread event,
      event ∈ (served owners s g signal).events thread → Live s.world event := by
    intro g signal hg thread event hevent
    rcases List.mem_append.mp hevent with hold | hnew
    · exact h.live thread event hold
    · obtain ⟨slot, hslot, rfl, _⟩ := mem_arriving hnew
      exact hdangling.1 g signal hg slot (.inr hslot)
  cases heffect with
  | op op w hrun =>
    obtain ⟨w', hrun', hagrees⟩ := run_agrees op h.agrees hlive
    obtain rfl := Option.some.inj (hrun.symm.trans hrun')
    refine ⟨hagrees, queuedOwned_run op h.owned hrun, hgoing, fun thread event hevent => ?_⟩
    exact live_run hrun (fun hdestroyed => hwaits event hdestroyed thread hevent)
      (h.live thread event hevent)
  | emitHere thread g signal hg hready => exact ⟨h.agrees, h.owned, hgoing, hserved hg⟩
  | emitThere thread home g hsignal hhome =>
    have hmem : ∀ thread event, event ∈ (push owners s (.emit g)).events thread →
        Live s.world event := by
      intro thread event hevent
      rcases mem_push hevent with hold | ⟨rfl, _⟩
      · exact h.live thread event hold
      · exact hsignal
    rw [push_eq hhome] at hgoing hmem ⊢
    exact ⟨h.agrees, h.owned, hgoing, hmem⟩
  | wait thread hnone => exact h
  | runSignal thread g signal rest hfront hg hready =>
    exact ⟨h.agrees, h.owned, hgoing, fun thread' event hevent =>
      hserved hg thread' event (mem_pop hevent)⟩
  | runSlot thread slot rest hfront hslot =>
    refine ⟨h.agrees, h.owned, hgoing, fun thread' event hevent => ?_⟩
    exact h.live thread' event (mem_pop (s := { s with called := s.called ++ [slot] }) hevent)

/-- The front event is one of a destroyed object. -/
theorem front_dangling {thread : T} {event : Closure G S} {rest : List (Closure G S)}
    (hgoing : s.stop = none) (hfront : s.events thread = event :: rest)
    (hdead : ¬Live s.world event) : ¬Harmless owners s := by
  intro hharmless
  refine hharmless [thread] ?_
  show (step owners s (.run thread)).stop = some .dangling
  have hcall : call owners s event = { s with stop := some .dangling } := by
    cases event with
    | emit g =>
      have hnone : s.world.signals g = none := Option.not_isSome_iff_eq_none.mp hdead
      simp only [call, hnone]
    | call slot =>
      have hnone : s.world.slots slot = none := Option.not_isSome_iff_eq_none.mp hdead
      simp only [call, hnone]
  rw [step_run hgoing, run, hfront]
  simp [hcall]

/-- The thread comes to an event of a destroyed object, whatever stands before it. -/
theorem follows_dangling (hready : ∀ slot, Callable owners slot ∧ TakesEvents owners slot)
    {thread : T} {event : Closure G S} (before : List (Closure G S)) :
    ∀ (s : State G S T) (behind : List (Closure G S)), Agrees s.world → QueuedOwned s.world →
    s.stop = none → s.events thread = before ++ event :: behind → ¬Live s.world event →
    ¬Harmless owners s := by
  induction before with
  | nil =>
    intro s behind _ _ hgoing hevents hdead
    exact front_dangling hgoing hevents hdead
  | cons first before ih =>
    intro s behind hagrees howned hgoing hevents hdead
    rw [List.cons_append] at hevents
    by_cases hfirst : Live s.world first
    · -- the event before it is run, and leaves the objects as they are
      have hdangling := noneDangling_of_agrees hagrees
      have hstop : (step owners s (.run thread)).stop = none := by
        rw [step_run hgoing]
        refine run_going hready hdangling howned hgoing fun event' rest hevents' => ?_
        rw [hevents] at hevents'
        exact (List.cons.inj hevents').1 ▸ hfirst
      obtain ⟨hworld, more, hmore⟩ :=
        (step_effect hdangling howned hgoing (.run thread) hstop).events_run
      rw [hevents, List.tail_cons, List.append_assoc, List.cons_append] at hmore
      have hnext := ih _ (behind ++ more) (hworld ▸ hagrees) (hworld ▸ howned) hstop hmore
        (hworld ▸ hdead)
      exact fun hharmless => hnext fun threads => hharmless (thread :: threads)
    · exact front_dangling hgoing hevents hfirst

/-- When every slot can be called and takes events, the threads follow no dangling pointer, however
they now run their events. -/
theorem Safe.harmless (hready : ∀ slot, Callable owners slot ∧ TakesEvents owners slot)
    (h : Safe s) : Harmless owners s := by
  intro threads
  have hsafe : Safe ((threads.map Move.run).foldl (QueuedEvents.step owners) s) := by
    induction threads generalizing s with
    | nil => exact h
    | cons thread threads ih =>
      have hlive : OnLive s (.run thread) := trivial
      exact ih (h.step hready hlive trivial)
  rw [hsafe.going]
  intro hnone
  cases hnone

/-- A move on an object that does not live, or one that destroys an object for which an event
waits. -/
theorem Safe.not_harmless (hready : ∀ slot, Callable owners slot ∧ TakesEvents owners slot)
    (h : Safe s) {move : Move G S T} (hmove : ¬(OnLive s move ∧ NoneWaits s move)) :
    ¬Harmless owners (QueuedEvents.step owners s move) := by
  by_cases hlive : OnLive s move
  · have hwaits : ¬NoneWaits s move := fun hwaits => hmove ⟨hlive, hwaits⟩
    cases move with
    | op op =>
      obtain ⟨w, hrun, hagrees⟩ := run_agrees op h.agrees hlive
      simp only [NoneWaits, not_forall, not_not] at hwaits
      obtain ⟨event, hdestroyed, thread, hevent⟩ := hwaits
      obtain ⟨before, behind, hevents⟩ := List.append_of_mem hevent
      rw [step_op h.going hrun]
      exact follows_dangling hready before _ behind hagrees (queuedOwned_run op h.owned hrun)
        h.going hevents (not_live_of_destroyed hrun hdestroyed)
    | emit thread g => exact absurd trivial hwaits
    | run thread => exact absurd trivial hwaits
  · intro hharmless
    refine hharmless [] ?_
    show (QueuedEvents.step owners s move).stop = some .dangling
    cases move with
    | op op =>
      have hrun : op.run s.world = none := by
        cases hrun : op.run s.world with
        | none => rfl
        | some w => exact absurd (onLive_of_run hrun) hlive
      rw [step_op_none h.going hrun]
    | emit thread g =>
      have hnone : s.world.signals g = none := Option.not_isSome_iff_eq_none.mp hlive
      rw [step_emit h.going, emit, hnone]
    | run thread => exact absurd trivial hlive

/-- A slot that no signal is connected to. -/
def Unconnected (w : World G S) (slot : S) : Prop :=
  ∀ g signal, w.signals g = some signal →
    slot ∉ signal.directConnections ∧ slot ∉ signal.queuedConnections

/-- The move does not connect the slot. -/
def NotConnecting (slot : S) (move : Move G S T) : Prop :=
  ∀ g type sameThread, move ≠ .op (.connect g slot type sameThread)

section
variable {slot : S}

omit [DecidableEq T] in
/-- A slot that no signal refers to has no entries either. -/
theorem slotCount_of_unconnected (hagrees : Agrees s.world) (h : Unconnected s.world slot) (g : G) :
    slotCount s.world g slot = 0 := by
  rw [← hagrees g slot, signalCount]
  split
  · rename_i signal hg
    obtain ⟨hdirect, hqueued⟩ := h g signal hg
    rw [linkCount, List.count_eq_zero_of_not_mem hdirect, List.count_eq_zero_of_not_mem hqueued]
  · rfl

/-- A move that does not connect the slot owes it no call. -/
theorem Effect.unconnected {move : Move G S T} {s' : State G S T} (h : Effect owners s move s')
    (hagrees : Agrees s.world) (hmove : NotConnecting slot move)
    (hnone : ∀ g, slotCount s.world g slot = 0) :
    (∀ g, slotCount s'.world g slot = 0) ∧ owed s' slot = owed s slot := by
  have hserved : ∀ {g signal}, s.world.signals g = some signal →
      owed (served owners s g signal) slot = owed s slot := by
    intro g signal hg
    have hlinks : linkCount signal slot = 0 := by
      rw [← signalCount_of_some hg, hagrees g slot]
      exact hnone g
    show ((s.performed ++ [(g, signal)]).map _).sum = _
    simp [owed, hlinks]
  cases h with
  | op op w hrun =>
    refine ⟨fun g => ?_, rfl⟩
    have hle := slotCount_run hrun (s := slot)
      (fun g type sameThread heq => hmove g type sameThread (congrArg _ heq)) g
    have hzero := hnone g
    show slotCount w g slot = 0
    omega
  | emitHere thread g signal hg hready => exact ⟨hnone, hserved hg⟩
  | emitThere thread home g hlive hhome =>
    rw [push_eq hhome]
    exact ⟨hnone, rfl⟩
  | wait thread hwait => exact ⟨hnone, rfl⟩
  | runSignal thread g signal rest hfront hg hready => exact ⟨hnone, hserved hg⟩
  | runSlot thread slot' rest hfront hlive => exact ⟨hnone, rfl⟩

/-- The run lemma: as long as nobody connects the slot, no more calls are owed to it. -/
theorem unconnected_run (moves : List (Move G S T)) :
    ∀ (s : State G S T) (asked : Closure G S → Nat), Accounted owners s asked →
    (∀ g, slotCount s.world g slot = 0) → (∀ move ∈ moves, NotConnecting slot move) →
    (moves.foldl (step owners) s).stop = none →
    owed (moves.foldl (step owners) s) slot = owed s slot := by
  induction moves with
  | nil =>
    intro s asked _ _ _ _
    rfl
  | cons move moves ih =>
    intro s asked h hnone hmoves hstop
    obtain ⟨hmove, hmoves⟩ := List.forall_mem_cons.mp hmoves
    have hgoing : s.stop = none := going_of_foldl (move :: moves) hstop
    have hnext : (step owners s move).stop = none := going_of_foldl moves hstop
    have heffect := step_effect (noneDangling_of_agrees h.agrees) h.owned hgoing move hnext
    obtain ⟨hnone', howed⟩ := heffect.unconnected h.agrees hmove hnone
    have hrest := ih _ _ (h.effect heffect) hnone' hmoves hstop
    exact hrest.trans howed

end

end Brutils.Proofs.QueuedEvents
