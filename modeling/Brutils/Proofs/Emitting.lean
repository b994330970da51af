import Brutils.Emitting
import Brutils.Proofs.ObjectTree
import Brutils.Proofs.Signal
import Mathlib.Data.List.Count

/-!
# `Brutils.Proofs.Emitting`: who is called after a disconnect

`disconnect(slot)` erases the first entry of the slot from each of the two vectors. A slot that is
connected twice in the same way is still connected after it (`disconnectSlot_signal`).

An emit goes through the vectors. `emit_eq` says what that gives: a call for each direct
connection and an event for each queued one. This rests on two facts about the reachable worlds.
Nothing dangles there, which `noneDangling_of_agrees` shows. And a queued connection has a parent
at both ends (`queuedOwned_of_reachable`): `connect` makes no other ones, no operation changes
whether an object has a parent, and all operations but `connect` only take connections away
(`Shrinks`).

So the slot is left alone exactly if it was connected at most once in each way
(`disconnect_severs_iff`).
-/

set_option autoImplicit false

namespace Brutils.Proofs.Emitting

open Transition (Reachable)
open Brutils.Signal Brutils.Emitting
open Brutils.Proofs.Signal
open Brutils.Proofs.ObjectTree

variable {G S T : Type} [DecidableEq G] [DecidableEq S]

/-! ### Queued connections have parents -/

/-- The objects of `w'` are objects of `w`, with the same answer about their parents, and with no
more queued connections. -/
structure Shrinks (w w' : World G S) : Prop where
  signals : ∀ g signal', w'.signals g = some signal' → ∃ signal, w.signals g = some signal ∧
    signal'.hasParent = signal.hasParent ∧
    ∀ s ∈ signal'.queuedConnections, s ∈ signal.queuedConnections
  slots : ∀ s slot', w'.slots s = some slot' → ∃ slot, w.slots s = some slot ∧
    slot'.hasParent = slot.hasParent

section
variable {w w' w'' : World G S} {g : G} {s : S} {signal : Signal S}

omit [DecidableEq G] [DecidableEq S] in
/-- Nothing has changed. -/
theorem Shrinks.refl (w : World G S) : Shrinks w w :=
  ⟨fun _ signal h => ⟨signal, h, rfl, fun _ hs => hs⟩, fun _ slot h => ⟨slot, h, rfl⟩⟩

omit [DecidableEq G] [DecidableEq S] in
/-- One change after the other. -/
theorem Shrinks.trans (h : Shrinks w w') (h' : Shrinks w' w'') : Shrinks w w'' := by
  refine ⟨?_, ?_⟩
  · intro g signal'' hg''
    obtain ⟨signal', hg', hparent', hsub'⟩ := h'.signals g signal'' hg''
    obtain ⟨signal, hg, hparent, hsub⟩ := h.signals g signal' hg'
    exact ⟨signal, hg, hparent'.trans hparent, fun s hs => hsub s (hsub' s hs)⟩
  · intro s slot'' hs''
    obtain ⟨slot', hs', hparent'⟩ := h'.slots s slot'' hs''
    obtain ⟨slot, hs, hparent⟩ := h.slots s slot' hs'
    exact ⟨slot, hs, hparent'.trans hparent⟩

omit [DecidableEq S] in
/-- A signal is destroyed, or written with fewer queued connections. -/
theorem shrinks_setSignal {signal' : Option (Signal S)} (h : ∀ signal'' ∈ signal', ∃ signal,
    w.signals g = some signal ∧ signal''.hasParent = signal.hasParent ∧
    ∀ s ∈ signal''.queuedConnections, s ∈ signal.queuedConnections) :
    Shrinks w (setSignal w g signal') := by
  refine ⟨?_, fun s slot hs => ⟨slot, hs, rfl⟩⟩
  intro g' signal'' hg'
  by_cases heq : g' = g
  · subst heq
    have hwritten : signal' = some signal'' := (Function.update_self g' _ _).symm.trans hg'
    exact h signal'' hwritten
  · have hold : w.signals g' = some signal'' := (Function.update_of_ne heq _ _).symm.trans hg'
    exact ⟨signal'', hold, rfl, fun _ hs => hs⟩

omit [DecidableEq S] in
/-- A signal is written with fewer queued connections, and with the same answer about its parent. -/
theorem shrinks_writeSignal (hg : w.signals g = some signal) {signal' : Signal S}
    (hparent : signal'.hasParent = signal.hasParent)
    (hsub : ∀ s ∈ signal'.queuedConnections, s ∈ signal.queuedConnections) :
    Shrinks w (setSignal w g (some signal')) := by
  refine shrinks_setSignal ?_
  intro signal'' hsignal''
  obtain rfl := Option.some.inj hsignal''
  exact ⟨signal, hg, hparent, hsub⟩

omit [DecidableEq G] in
/-- A slot is destroyed, or written with other entries. -/
theorem shrinks_setSlot {slot' : Option (Slot G)} (h : ∀ slot'' ∈ slot', ∃ slot,
    w.slots s = some slot ∧ slot''.hasParent = slot.hasParent) : Shrinks w (setSlot w s slot') := by
  refine ⟨fun g signal hg => ⟨signal, hg, rfl, fun _ hs => hs⟩, ?_⟩
  intro s' slot'' hs'
  by_cases heq : s' = s
  · subst heq
    have hwritten : slot' = some slot'' := (Function.update_self s' _ _).symm.trans hs'
    exact h slot'' hwritten
  · have hold : w.slots s' = some slot'' := (Function.update_of_ne heq _ _).symm.trans hs'
    exact ⟨slot'', hold, rfl⟩

omit [DecidableEq G] in
/-- A slot is written with the same answer about its parent. -/
theorem shrinks_writeSlot {slot slot' : Slot G} (hs : w.slots s = some slot)
    (hparent : slot'.hasParent = slot.hasParent) : Shrinks w (setSlot w s (some slot')) := by
  refine shrinks_setSlot ?_
  intro slot'' hslot''
  obtain rfl := Option.some.inj hslot''
  exact ⟨slot, hs, hparent⟩

/-- Telling a slot writes its entries only. -/
theorem shrinks_signalDisconnected (h : signalDisconnected w s g = some w') : Shrinks w w' := by
  simp only [signalDisconnected, Option.bind_eq_bind, Option.bind_eq_some_iff] at h
  obtain ⟨slot, hs, hw'⟩ := h
  obtain rfl := Option.some.inj hw'
  exact shrinks_writeSlot hs rfl

/-- The loop over the direct connections leaves the queued ones as they are. -/
theorem shrinks_disconnectDirect (connections : List S) :
    ∀ w w' : World G S, disconnectDirect g connections w = some w' → Shrinks w w' := by
  induction connections with
  | nil =>
    intro w w' h
    obtain rfl := Option.some.inj h
    exact Shrinks.refl w
  | cons s rest ih =>
    intro w w' h
    simp only [disconnectDirect, Option.bind_eq_bind, Option.bind_eq_some_iff] at h
    obtain ⟨w₁, htold, signal, hg, hrest⟩ := h
    have hwrite : Shrinks w₁
        (setSignal w₁ g (some { signal with directConnections := rest })) :=
      shrinks_writeSignal hg rfl fun _ hs => hs
    exact ((shrinks_signalDisconnected htold).trans hwrite).trans (ih _ _ hrest)

/-- Telling a slot writes no signal. -/
theorem signals_signalDisconnected (h : signalDisconnected w s g = some w') :
    w'.signals = w.signals := by
  simp only [signalDisconnected, Option.bind_eq_bind, Option.bind_eq_some_iff] at h
  obtain ⟨slot, hs, hw'⟩ := h
  obtain rfl := Option.some.inj hw'
  rfl

/-- The loop writes what is left of the connections that it began with. -/
theorem shrinks_disconnectQueued (connections : List S) : ∀ w w' : World G S,
    (∀ signal, w.signals g = some signal → ∀ s ∈ connections, s ∈ signal.queuedConnections) →
    disconnectQueued g connections w = some w' → Shrinks w w' := by
  induction connections with
  | nil =>
    intro w w' _ h
    obtain rfl := Option.some.inj h
    exact Shrinks.refl w
  | cons s rest ih =>
    intro w w' hsub h
    simp only [disconnectQueued, Option.bind_eq_bind, Option.bind_eq_some_iff] at h
    obtain ⟨w₁, htold, signal, hg, hrest⟩ := h
    have hold : w.signals g = some signal := by
      rw [← signals_signalDisconnected htold]
      exact hg
    have hwrite : Shrinks w₁
        (setSignal w₁ g (some { signal with queuedConnections := rest })) :=
      shrinks_writeSignal hg rfl fun s' hs' => hsub signal hold s' (List.mem_cons_of_mem s hs')
    refine ((shrinks_signalDisconnected htold).trans hwrite).trans (ih _ _ ?_ hrest)
    intro signal' hg' s' hs'
    have hwritten : some { signal with queuedConnections := rest } = some signal' :=
      (Function.update_self g _ _).symm.trans hg'
    obtain rfl := Option.some.inj hwritten
    exact hs'

/-- `disconnect()` empties both vectors. -/
theorem shrinks_disconnect (h : Signal.disconnect w g = some w') : Shrinks w w' := by
  simp only [Signal.disconnect, Option.bind_eq_bind, Option.bind_eq_some_iff] at h
  obtain ⟨signal, _, w₁, hdirect, signal₁, hg₁, hqueued⟩ := h
  refine (shrinks_disconnectDirect _ _ _ hdirect).trans (shrinks_disconnectQueued _ _ _ ?_ hqueued)
  intro signal' hg' s' hs'
  rw [hg₁] at hg'
  obtain rfl := Option.some.inj hg'
  exact hs'

/-- Half of `disconnect(slot)`, with what follows it: if the slot is in one of the vectors, it is
told, and the signal is written. -/
theorem disconnectSlot_half (write : Signal S → Signal S) {found : Prop} [Decidable found]
    {k : World G S → Option (World G S)}
    (h : (if found then (signalDisconnected w s g).bind fun w => (w.signals g).bind fun signal =>
        k (setSignal w g (some (write signal)))
      else k w) = some w')
    (hg : w.signals g = some signal) (hparent : (write signal).hasParent = signal.hasParent)
    (hsub : ∀ s ∈ (write signal).queuedConnections, s ∈ signal.queuedConnections)
    (hnot : ¬found → write signal = signal) :
    ∃ w₁, Shrinks w w₁ ∧ w₁.signals g = some (write signal) ∧ k w₁ = some w' := by
  by_cases hfound : found
  · rw [if_pos hfound] at h
    obtain ⟨w₁, htold, hrest⟩ := Option.bind_eq_some_iff.mp h
    have hg₁ : w₁.signals g = some signal := by
      rw [signals_signalDisconnected htold]
      exact hg
    rw [hg₁, Option.bind_some] at hrest
    have hwrite : Shrinks w₁ (setSignal w₁ g (some (write signal))) :=
      shrinks_writeSignal hg₁ hparent hsub
    exact ⟨_, (shrinks_signalDisconnected htold).trans hwrite, Function.update_self g _ _, hrest⟩
  · rw [if_neg hfound] at h
    exact ⟨w, Shrinks.refl w, by rw [hnot hfound]; exact hg, h⟩

/-- `disconnect(slot)` takes the first entry of the slot out of each vector. -/
theorem disconnectSlot_signal (h : disconnectSlot w g s = some w')
    (hg : w.signals g = some signal) :
    Shrinks w w' ∧ w'.signals g = some { signal with
      directConnections := signal.directConnections.erase s
      queuedConnections := signal.queuedConnections.erase s } := by
  -- what follows the first half
  let second : World G S → Option (World G S) := fun w => (w.signals g).bind fun signal =>
    if s ∈ signal.queuedConnections then
      (signalDisconnected w s g).bind fun w => (w.signals g).bind fun signal =>
        some (setSignal w g
          (some { signal with queuedConnections := signal.queuedConnections.erase s }))
    else some w
  simp only [disconnectSlot, Option.bind_eq_bind, hg, Option.bind_some] at h
  obtain ⟨w₁, hshrinks, hg₁, hrest⟩ := disconnectSlot_half (k := second) (fun signal : Signal S =>
    { signal with directConnections := signal.directConnections.erase s }) h hg rfl
    (fun _ hs => hs) fun hnot => by rw [List.erase_of_not_mem hnot]
  simp only [second, hg₁, Option.bind_some] at hrest
  obtain ⟨w₂, hshrinks', hg₂, hw'⟩ := disconnectSlot_half (fun signal : Signal S =>
    { signal with queuedConnections := signal.queuedConnections.erase s }) hrest hg₁ rfl
    (fun _ hs => List.mem_of_mem_erase hs) fun hnot => by rw [List.erase_of_not_mem hnot]
  obtain rfl := Option.some.inj hw'
  exact ⟨hshrinks.trans hshrinks', hg₂⟩

/-- The destructor of a slot erases from the vectors of the signals. -/
theorem shrinks_removeThis (entries : List G) :
    ∀ w w' : World G S, removeThisFromConnectedSignals s entries w = some w' → Shrinks w w' := by
  induction entries with
  | nil =>
    intro w w' h
    obtain rfl := Option.some.inj h
    exact Shrinks.refl w
  | cons g rest ih =>
    intro w w' h
    simp only [removeThisFromConnectedSignals, removeSlotConnection, Option.bind_eq_bind,
      Option.bind_eq_some_iff] at h
    obtain ⟨w₁, ⟨signal, hg, hw₁⟩, hrest⟩ := h
    obtain rfl := Option.some.inj hw₁
    refine Shrinks.trans (shrinks_writeSignal hg ?_ ?_) (ih _ _ hrest)
    · rfl
    · exact fun _ hs => List.mem_of_mem_erase hs

/-- A queued connection has a parent at both ends. -/
def QueuedOwned (w : World G S) : Prop :=
  ∀ g signal, w.signals g = some signal → ∀ s ∈ signal.queuedConnections,
    signal.hasParent = true ∧ ∀ slot, w.slots s = some slot → slot.hasParent = true

omit [DecidableEq G] [DecidableEq S] in
/-- What only takes away leaves no queued connection without parents. -/
theorem QueuedOwned.of_shrinks (h : QueuedOwned w) (hshrinks : Shrinks w w') : QueuedOwned w' := by
  intro g signal' hg' s hs
  obtain ⟨signal, hg, hparent, hsub⟩ := hshrinks.signals g signal' hg'
  obtain ⟨hsignal, hslot⟩ := h g signal hg s (hsub s hs)
  refine ⟨hparent.trans hsignal, ?_⟩
  intro slot' hs'
  obtain ⟨slot, hs, hparent⟩ := hshrinks.slots s slot' hs'
  exact hparent.trans (hslot slot hs)

omit [DecidableEq G] [DecidableEq S] in
/-- The type that `connect` chooses is another one than direct only if both ends have parents. -/
theorem parents_of_connectionType {slot : Slot G} {type : ConnectionType} {sameThread : Bool}
    (h : connectionType signal slot type sameThread ≠ .direct) :
    signal.hasParent = true ∧ slot.hasParent = true := by
  rw [connectionType] at h
  cases hsignal : signal.hasParent with
  | false => simp [hsignal] at h
  | true =>
    cases hslot : slot.hasParent with
    | false => simp [hsignal, hslot] at h
    | true => exact ⟨rfl, rfl⟩

/-- `connect` makes a queued connection only where it has asked both ends for their parents. -/
theorem queuedOwned_connect {type : ConnectionType} {sameThread : Bool} (howned : QueuedOwned w)
    (h : Signal.connect w g s type sameThread = some w') : QueuedOwned w' := by
  simp only [Signal.connect, signalConnected, Option.bind_eq_bind, Option.bind_eq_some_iff] at h
  obtain ⟨signal, hg, slot, hs, slot', hs', hw'⟩ := h
  obtain rfl := Option.some.inj hw'
  -- the entry in the slot makes no difference
  refine QueuedOwned.of_shrinks ?_ (shrinks_writeSlot hs' rfl)
  split
  · exact howned.of_shrinks (shrinks_writeSignal hg rfl fun _ hs => hs)
  · rename_i htype
    obtain ⟨hsignal, hslot⟩ := parents_of_connectionType htype
    intro g' signal' hg' s' hs''
    by_cases heq : g' = g
    · subst heq
      have hwritten := Option.some.inj ((Function.update_self g' _ _).symm.trans hg')
      rw [← hwritten] at hs'' ⊢
      rcases List.mem_append.mp hs'' with hold | hnew
      · exact howned g' signal hg s' hold
      · obtain rfl := List.mem_singleton.mp hnew
        refine ⟨hsignal, fun slot'' hslot'' => ?_⟩
        have hsame : some slot = some slot'' := hs.symm.trans hslot''
        rw [← Option.some.inj hsame]
        exact hslot
    · exact howned g' signal' ((Function.update_of_ne heq _ _).symm.trans hg') s' hs''

/-- One operation. -/
theorem queuedOwned_run (op : Op G S) (howned : QueuedOwned w) (h : op.run w = some w') :
    QueuedOwned w' := by
  cases op with
  | connect g s type sameThread => exact queuedOwned_connect howned h
  | disconnect g => exact howned.of_shrinks (shrinks_disconnect h)
  | disconnectSlot g s =>
    cases hg : w.signals g with
    | none =>
      simp [Op.run, disconnectSlot, hg] at h
    | some signal => exact howned.of_shrinks (disconnectSlot_signal h hg).1
  | destroySlot s =>
    simp only [Op.run, destroySlot, Option.bind_eq_bind, Option.bind_eq_some_iff] at h
    obtain ⟨slot, hs, w₁, hremoved, hw'⟩ := h
    obtain rfl := Option.some.inj hw'
    refine howned.of_shrinks ((shrinks_removeThis _ _ _ hremoved).trans (shrinks_setSlot ?_))
    intro slot' hslot'
    cases hslot'
  | destroySignal g =>
    simp only [Op.run, destroySignal, Option.bind_eq_bind, Option.bind_eq_some_iff] at h
    obtain ⟨w₁, hdisconnected, hw'⟩ := h
    obtain rfl := Option.some.inj hw'
    refine howned.of_shrinks ((shrinks_disconnect hdisconnected).trans (shrinks_setSignal ?_))
    intro signal' hsignal'
    cases hsignal'

/-- So it holds in every reachable world. -/
theorem queuedOwned_of_reachable (h : Reachable Fresh Next w) : QueuedOwned w := by
  refine h.invariant ?_ ?_
  · intro w hfresh g signal hg s hs
    rw [(hfresh.1 g signal hg).2] at hs
    exact absurd hs List.not_mem_nil
  · rintro w w' _ howned ⟨op, _, hrun⟩
    exact queuedOwned_run op howned hrun

end

/-! ### The deliveries -/

section
variable {f : S → Outcome S} {owners : Owners G S T} {w : World G S}

omit [DecidableEq S] in
/-- A loop ends early if one of its steps does. -/
theorem forEach_interruption (connections : List S) :
    (forEach f connections).interruption = none ↔ ∀ s ∈ connections, (f s).interruption = none := by
  induction connections with
  | nil => exact iff_of_true rfl fun _ hs => absurd hs List.not_mem_nil
  | cons s connections ih =>
    rw [forEach, Outcome.andThen, List.forall_mem_cons]
    cases hfirst : (f s).interruption with
    | none => rw [ih, eq_self_iff_true, true_and]
    | some interruption => simp

omit [DecidableEq S] in
/-- A loop whose steps deliver one thing each. -/
theorem forEach_deliveries {deliver : S → Delivery S} (connections : List S)
    (h : ∀ s ∈ connections, (f s).interruption = none ∧ (f s).deliveries = [deliver s]) :
    (forEach f connections).deliveries = connections.map deliver := by
  induction connections with
  | nil => rfl
  | cons s connections ih =>
    obtain ⟨⟨hnone, hdeliver⟩, hrest⟩ := List.forall_mem_cons.mp h
    rw [forEach, Outcome.andThen, hnone, List.map_cons, ← ih hrest]
    show (f s).deliveries ++ _ = _
    rw [hdeliver, List.singleton_append]

/-- The slot has its function. -/
def Callable (owners : Owners G S T) (s : S) : Prop := owners.init s = true

/-- The root object of the parent of the slot takes events. -/
def TakesEvents (owners : Owners G S T) (s : S) : Prop :=
  ∃ thread eventList, (owners.slotParent s).getRootObject = .threaded thread eventList

section
variable (owners)

omit [DecidableEq G] [DecidableEq S] in
/-- The call of a live slot. -/
theorem call_spec {s : S} (hlive : (w.slots s).isSome) :
    ((call owners w s).interruption = none ↔ Callable owners s) ∧
      (Callable owners s → (call owners w s).deliveries = [.call s]) := by
  obtain ⟨slot, hs⟩ := Option.isSome_iff_exists.mp hlive
  rw [call, hs, Callable]
  cases hinit : owners.init s with
  | true => exact ⟨iff_of_true rfl rfl, fun _ => rfl⟩
  | false =>
    refine ⟨iff_of_false ?_ Bool.false_ne_true, fun h => absurd h Bool.false_ne_true⟩
    intro h
    cases h

omit [DecidableEq G] [DecidableEq S] in
/-- The event for a slot with a parent. -/
theorem addEventToParent_spec {s : S} {slot : Slot G} (hs : w.slots s = some slot)
    (hparent : slot.hasParent = true) :
    ((addEventToParent owners w s).interruption = none ↔ TakesEvents owners s) ∧
      (TakesEvents owners s → (addEventToParent owners w s).deliveries = [.event s]) := by
  have hroot := getRootObject_getRootObject (owners.slotParent s)
  rcases getRootObject_cases (owners.slotParent s) with hplain | ⟨thread, eventList, hthreaded⟩
  · have herror := addEvent_of_root (hroot.trans hplain) (Closure.call (G := G) s)
    have hrun : addEventToParent owners w s =
        ⟨[], some (.thrown ⟨"Object has not parent"⟩)⟩ := by
      simp [addEventToParent, hs, hparent, herror]
    have hnot : ¬TakesEvents owners s := by
      rintro ⟨thread, eventList, h⟩
      rw [hplain] at h
      cases h
    rw [hrun]
    refine ⟨iff_of_false ?_ hnot, fun h => absurd h hnot⟩
    intro h
    cases h
  · obtain ⟨after, hok, -⟩ := addEvent_of_threaded (hroot.trans hthreaded) (Closure.call (G := G) s)
    have hrun : addEventToParent owners w s = ⟨[.event s], none⟩ := by
      simp [addEventToParent, hs, hparent, hok]
    rw [hrun]
    exact ⟨iff_of_true rfl ⟨thread, eventList, hthreaded⟩, fun _ => rfl⟩

end

/-- All connections of a signal can be served. -/
def Ready (owners : Owners G S T) (signal : Signal S) : Prop :=
  (∀ s ∈ signal.directConnections, Callable owners s) ∧
    ∀ s ∈ signal.queuedConnections, TakesEvents owners s

section
variable {g : G} {signal : Signal S} (hdangling : NoneDangling w) (howned : QueuedOwned w)
  (hg : w.signals g = some signal)
include hdangling howned hg

omit [DecidableEq G] [DecidableEq S] in
/-- Both loops serve every connection, unless one cannot be served. -/
theorem callConnections_spec :
    ((callConnections owners w signal).interruption = none ↔ Ready owners signal) ∧
      (Ready owners signal → (callConnections owners w signal).deliveries =
        signal.directConnections.map .call ++ signal.queuedConnections.map .event) := by
  have hdirect := fun s hs => call_spec owners (hdangling.1 g signal hg s (Or.inl hs))
  have hqueued : ∀ s ∈ signal.queuedConnections,
      ((addEventToParent owners w s).interruption = none ↔ TakesEvents owners s) ∧
        (TakesEvents owners s → (addEventToParent owners w s).deliveries = [.event s]) := by
    intro s hs
    obtain ⟨slot, hslot⟩ := Option.isSome_iff_exists.mp (hdangling.1 g signal hg s (Or.inr hs))
    exact addEventToParent_spec owners hslot ((howned g signal hg s hs).2 slot hslot)
  have hcalls : (callDirectConnections owners w signal.directConnections).interruption = none ↔
      ∀ s ∈ signal.directConnections, Callable owners s :=
    (forEach_interruption _).trans (forall₂_congr fun s hs => (hdirect s hs).1)
  have hevents : (callQueuedConnections owners w signal.queuedConnections).interruption = none ↔
      ∀ s ∈ signal.queuedConnections, TakesEvents owners s :=
    (forEach_interruption _).trans (forall₂_congr fun s hs => (hqueued s hs).1)
  refine ⟨?_, ?_⟩
  · rw [callConnections, Outcome.andThen_interruption, hcalls, hevents]
    rfl
  · rintro ⟨hcallable, htakes⟩
    rw [callConnections, Outcome.andThen, hcalls.mpr hcallable]
    show (callDirectConnections owners w _).deliveries ++ (callQueuedConnections owners w _).deliveries
      = _
    rw [callDirectConnections, callQueuedConnections]
    congr 1
    · refine forEach_deliveries _ fun s hs => ?_
      exact ⟨(hdirect s hs).1.mpr (hcallable s hs), (hdirect s hs).2 (hcallable s hs)⟩
    · refine forEach_deliveries _ fun s hs => ?_
      exact ⟨(hqueued s hs).1.mpr (htakes s hs), (hqueued s hs).2 (htakes s hs)⟩

omit [DecidableEq G] [DecidableEq S] hdangling in
/-- Wherever the signal is emitted, the two loops are run. A signal without a parent has no queued
connections, and one whose root object takes no events is on the thread of the caller. -/
theorem emit_eq_callConnections [DecidableEq T] (thread : T) :
    emit owners w thread g = callConnections owners w signal := by
  cases hparent : signal.hasParent with
  | false =>
    have hnone : signal.queuedConnections = [] := by
      rw [List.eq_nil_iff_forall_not_mem]
      intro s hs
      have htrue := (howned g signal hg s hs).1
      rw [hparent] at htrue
      cases htrue
    have hrun : emit owners w thread g = callDirectConnections owners w signal.directConnections := by
      simp [emit, hg, hparent]
    rw [hrun, callConnections, hnone]
    exact (Outcome.andThen_nothing _).symm
  | true =>
    by_cases hthread : thread = (owners.signalParent g).getThreadId thread
    · simp only [emit, hg, hparent, if_pos hthread]
      rfl
    · -- the root object has a thread of its own, so it takes the event
      rcases getRootObject_cases (owners.signalParent g) with hplain | ⟨own, eventList, hthreaded⟩
      · exact absurd (getThreadId_of_root hplain thread).symm hthread
      · have hroot := (getRootObject_getRootObject (owners.signalParent g)).trans hthreaded
        obtain ⟨after, hok, -⟩ := addEvent_of_threaded hroot (Closure.emit (S := S) g)
        simp only [emit, hg, hparent, if_neg hthread, hok]
        rfl

end

end

/-! ### After a disconnect -/

/-- The emit returns, there is nothing in it for the slot `s`, and every other slot gets as many
calls and events as there are direct and queued connections to it. -/
structure LeavesAlone (outcome : Outcome S) (s : S) (signal : Signal S) : Prop where
  returns : outcome.interruption = none
  no_call : outcome.deliveries.count (.call s) = 0
  no_event : outcome.deliveries.count (.event s) = 0
  calls : ∀ t, t ≠ s → outcome.deliveries.count (.call t) = signal.directConnections.count t
  events : ∀ t, t ≠ s → outcome.deliveries.count (.event t) = signal.queuedConnections.count t

/-- How often a delivery is in those of two vectors. -/
theorem count_deliveries (direct queued : List S) (s : S) :
    (direct.map Delivery.call ++ queued.map Delivery.event).count (.call s) = direct.count s ∧
      (direct.map Delivery.call ++ queued.map Delivery.event).count (.event s) = queued.count s := by
  have hcall : Function.Injective (Delivery.call (S := S)) := fun _ _ h => Delivery.call.inj h
  have hevent : Function.Injective (Delivery.event (S := S)) := fun _ _ h => Delivery.event.inj h
  have hnocall : (queued.map Delivery.event).count (.call s) = 0 :=
    List.count_eq_zero_of_not_mem (by simp)
  have hnoevent : (direct.map Delivery.call).count (.event s) = 0 :=
    List.count_eq_zero_of_not_mem (by simp)
  rw [List.count_append, List.count_append, List.count_map_of_injective _ _ hcall,
    List.count_map_of_injective _ _ hevent, hnocall, hnoevent, Nat.add_zero, Nat.zero_add]
  exact ⟨rfl, rfl⟩

/-- A vector without the first entry of `s` has no entry of `s` if there was one at most. -/
theorem not_mem_erase_iff (l : List S) (s : S) : s ∉ l.erase s ↔ l.count s ≤ 1 := by
  rw [← List.count_eq_zero, List.count_erase_self]
  omega

/-- A property of the elements that are left, if no `s` is. -/
theorem forall_mem_erase {l : List S} {s : S} (hcount : l.count s ≤ 1) {P : S → Prop} :
    (∀ t ∈ l.erase s, P t) ↔ ∀ t ∈ l, t ≠ s → P t := by
  constructor
  · intro h t ht hne
    exact h t ((List.mem_erase_of_ne hne).mpr ht)
  · intro h t ht
    refine h t (List.mem_of_mem_erase ht) ?_
    rintro rfl
    exact (not_mem_erase_iff l t).mpr hcount ht

/-- After `disconnect(slot)` an emit leaves the slot alone, and serves the other slots as before, if
the slot was connected at most once in each way and the other slots can be served, and only
then. -/
theorem disconnect_severs_iff [DecidableEq T] {w : World G S} (hreachable : Reachable Fresh Next w)
    {g : G} {signal : Signal S} (hg : w.signals g = some signal) (s : S) (owners : Owners G S T)
    (thread : T) :
    ∃ w', disconnectSlot w g s = some w' ∧
      (LeavesAlone (emit owners w' thread g) s signal ↔
        (signal.directConnections.count s ≤ 1 ∧ signal.queuedConnections.count s ≤ 1) ∧
        (∀ t ∈ signal.directConnections, t ≠ s → Callable owners t) ∧
        ∀ t ∈ signal.queuedConnections, t ≠ s → TakesEvents owners t) := by
  obtain ⟨w', hrun, -⟩ := disconnectSlot_spec s (agrees_of_reachable hreachable) hg
  have hlive : (Op.disconnectSlot g s).OnLive w := by
    show (w.signals g).isSome
    rw [hg]
    rfl
  have hreachable' : Reachable Fresh Next w' := hreachable.step ⟨.disconnectSlot g s, hlive, hrun⟩
  have hdangling := noneDangling_of_agrees (agrees_of_reachable hreachable')
  have howned := queuedOwned_of_reachable hreachable'
  obtain ⟨-, hg'⟩ := disconnectSlot_signal hrun hg
  refine ⟨w', hrun, ?_⟩
  -- the emit after the disconnect goes through the two vectors that are left
  rw [emit_eq_callConnections howned hg' thread]
  obtain ⟨hready, hdeliveries⟩ := callConnections_spec hdangling howned hg'
  constructor
  · intro halone
    have hserved := hready.mp halone.returns
    have hno_call := halone.no_call
    have hno_event := halone.no_event
    rw [hdeliveries hserved, (count_deliveries _ _ s).1, List.count_eq_zero] at hno_call
    rw [hdeliveries hserved, (count_deliveries _ _ s).2, List.count_eq_zero] at hno_event
    -- nobody calls the slot, so no second entry of it was there
    have hdirect := (not_mem_erase_iff _ s).mp hno_call
    have hqueued := (not_mem_erase_iff _ s).mp hno_event
    exact ⟨⟨hdirect, hqueued⟩, (forall_mem_erase hdirect).mp hserved.1,
      (forall_mem_erase hqueued).mp hserved.2⟩
  · rintro ⟨⟨hdirect, hqueued⟩, hcallable, htakes⟩
    have hserved : Ready owners { signal with
        directConnections := signal.directConnections.erase s
        queuedConnections := signal.queuedConnections.erase s } :=
      ⟨(forall_mem_erase hdirect).mpr hcallable, (forall_mem_erase hqueued).mpr htakes⟩
    have hcounts := count_deliveries (signal.directConnections.erase s)
      (signal.queuedConnections.erase s)
    rw [← hdeliveries hserved] at hcounts
    refine ⟨hready.mpr hserved, ?_, ?_, fun t hne => ?_, fun t hne => ?_⟩
    · rw [(hcounts s).1, List.count_eq_zero]
      exact (not_mem_erase_iff _ s).mpr hdirect
    · rw [(hcounts s).2, List.count_eq_zero]
      exact (not_mem_erase_iff _ s).mpr hqueued
    · rw [(hcounts t).1, List.count_erase_of_ne hne]
    · rw [(hcounts t).2, List.count_erase_of_ne hne]

/-! ### Two runs -/

/-- New objects, all of them with a parent. -/
def newWorld (S : Type) : World Unit S :=
  ⟨fun _ => some ⟨[], [], true⟩, fun _ => some ⟨[], true⟩⟩

/-- The signal is on the thread 0, and the slots are on the thread 1. -/
def twoThreads (S : Type) : Owners Unit S Nat :=
  ⟨fun _ => .threaded 0 [], fun _ => .child (.threaded 1 []), fun _ => true⟩

/-- A new world has no connections. -/
theorem fresh_newWorld (S : Type) : Fresh (newWorld S) := by
  refine ⟨fun g signal h => ?_, fun s slot h => ?_⟩
  · obtain rfl := Option.some.inj h
    exact ⟨rfl, rfl⟩
  · obtain rfl := Option.some.inj h
    rfl

/-- Two slots are connected, and the second one is disconnected. -/
theorem disconnect_severs_second : ∃ w w' : World Unit Bool,
    w.signals () = some ⟨[false], [true], true⟩ ∧ disconnectSlot w () true = some w' ∧
      LeavesAlone (emit (twoThreads Bool) w' 0 ()) true ⟨[false], [true], true⟩ := by
  have hfirst := (Reachable.start (fresh_newWorld Bool)).step
    (show Next _ _ from ⟨.connect () false .direct false, ⟨rfl, rfl⟩, rfl⟩)
  have hsecond := hfirst.step (show Next _ _ from ⟨.connect () true .auto false, ⟨rfl, rfl⟩, rfl⟩)
  obtain ⟨w, hreachable, hg⟩ : ∃ w : World Unit Bool, Reachable Fresh Next w ∧
      w.signals () = some ⟨[false], [true], true⟩ := ⟨_, hsecond, rfl⟩
  obtain ⟨w', hrun, hiff⟩ := disconnect_severs_iff hreachable hg true (twoThreads Bool) 0
  refine ⟨w, w', hg, hrun, hiff.mpr ⟨by decide, fun _ _ _ => rfl, fun _ _ _ => ?_⟩⟩
  exact ⟨1, [], rfl⟩

/-- A slot is connected twice and disconnected. The emit still calls it. -/
theorem disconnected_slot_called : ∃ w w' : World Unit Unit, Reachable Fresh Next w ∧
    w.signals () = some ⟨[(), ()], [], true⟩ ∧ disconnectSlot w () () = some w' ∧
      (emit (twoThreads Unit) w' 0 ()).deliveries = [.call ()] ∧
      ¬LeavesAlone (emit (twoThreads Unit) w' 0 ()) () ⟨[(), ()], [], true⟩ := by
  have hfirst := (Reachable.start (fresh_newWorld Unit)).step
    (show Next _ _ from ⟨.connect () () .direct false, ⟨rfl, rfl⟩, rfl⟩)
  have hsecond := hfirst.step (show Next _ _ from ⟨.connect () () .direct false, ⟨rfl, rfl⟩, rfl⟩)
  refine ⟨_, _, hsecond, rfl, rfl, rfl, ?_⟩
  intro halone
  have hno_call := halone.no_call
  cases hno_call

end Brutils.Proofs.Emitting
