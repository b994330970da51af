import Brutils.Lib.Transition
import Brutils.Signal
import Mathlib.Data.List.Count
import Mathlib.Logic.Function.Iterate

/-!
# `Brutils.Proofs.Signal`: links between signals and slots do not dangle

A link is stored twice. `signalCount` counts it in the two vectors of the signal and
`slotCount` in the vector of the slot, and both are zero where no object lives. So the one
equation `Agrees` says two things: the two ends of a link know it equally often, and no live
object points to a dead one.

* `unlink_spec` is what every way of disconnecting does for one link. `disconnect_spec` and
  `disconnectSlot_spec` are assembled from it.
* `removeThisFromConnectedSignals_spec`: the destructor of a slot takes one direct and one
  queued connection away for each entry it has. It has as many entries as there are
  connections of the two kinds together, so none is left.
* `run_agrees` is the step and `links_never_dangle` the result for every run.
-/

set_option autoImplicit false

namespace Brutils.Proofs.Signal

open Transition (Reachable)
open Brutils.Signal

variable {G S : Type} [DecidableEq G] [DecidableEq S]

/-- How often a signal refers to the slot at `s`. -/
def linkCount (signal : Signal S) (s : S) : Nat :=
  signal.directConnections.count s + signal.queuedConnections.count s

/-- How often the signal at `g` refers to the slot at `s`. -/
def signalCount (w : World G S) (g : G) (s : S) : Nat :=
  match w.signals g with
  | some signal => linkCount signal s
  | none => 0

/-- How often the slot at `s` refers to the signal at `g`. -/
def slotCount (w : World G S) (g : G) (s : S) : Nat :=
  match w.slots s with
  | some slot => slot.connectedSignals.count g
  | none => 0

/-- Both ends of every link know it equally often. -/
def Agrees (w : World G S) : Prop := ∀ g s, signalCount w g s = slotCount w g s

/-! ### Counting -/

section
variable {w : World G S} {g g' : G} {s s' : S} {signal : Signal S} {slot : Slot G}

omit [DecidableEq G] in
/-- The count where a signal lives. -/
theorem signalCount_of_some (h : w.signals g = some signal) :
    signalCount w g s = linkCount signal s := by
  simp only [signalCount, h]

omit [DecidableEq S] in
/-- The count where a slot lives. -/
theorem slotCount_of_some (h : w.slots s = some slot) :
    slotCount w g s = slot.connectedSignals.count g := by
  simp only [slotCount, h]

omit [DecidableEq S] in
/-- Writing a signal changes no slot's count. -/
@[simp] theorem slotCount_setSignal (signal : Option (Signal S)) :
    slotCount (setSignal w g' signal) g s = slotCount w g s := rfl

omit [DecidableEq G] in
/-- Writing a slot changes no signal's count. -/
@[simp] theorem signalCount_setSlot (slot : Option (Slot G)) :
    signalCount (setSlot w s' slot) g s = signalCount w g s := rfl

/-- Writing a signal changes its own count only. -/
theorem signalCount_setSignal (signal : Signal S) :
    signalCount (setSignal w g' (some signal)) g s
      = if g = g' then linkCount signal s else signalCount w g s := by
  by_cases hg : g = g'
  · subst hg
    simp [signalCount, setSignal]
  · simp [signalCount, setSignal, hg]

/-- Writing a slot changes its own count only. -/
theorem slotCount_setSlot (slot : Slot G) :
    slotCount (setSlot w s' (some slot)) g s
      = if s = s' then slot.connectedSignals.count g else slotCount w g s := by
  by_cases hs : s = s'
  · subst hs
    simp [slotCount, setSlot]
  · simp [slotCount, setSlot, hs]

omit [DecidableEq S] in
/-- A slot that refers to a signal lives. -/
theorem exists_slot_of_slotCount (h : 0 < slotCount w g s) : ∃ slot, w.slots s = some slot := by
  cases hs : w.slots s with
  | none =>
    rw [slotCount, hs] at h
    exact absurd h (Nat.lt_irrefl 0)
  | some slot => exact ⟨slot, rfl⟩

end

/-- The count after an entry is added in front, as a case split on that entry. -/
theorem count_cons_ite {α : Type} [DecidableEq α] (l : List α) (a b : α) :
    (b :: l).count a = l.count a + if a = b then 1 else 0 := by
  rw [List.count_cons]
  by_cases h : a = b
  · simp [h]
  · simp [h, Ne.symm h]

/-- The count after an entry is added at the end. -/
theorem count_concat_ite {α : Type} [DecidableEq α] (l : List α) (a b : α) :
    (l ++ [b]).count a = l.count a + if a = b then 1 else 0 := by
  rw [List.count_append, count_cons_ite, List.count_nil, Nat.zero_add]

/-- The count after an entry is erased. -/
theorem count_erase_ite {α : Type} [DecidableEq α] (l : List α) (a b : α) :
    (l.erase b).count a = l.count a - if a = b then 1 else 0 := by
  rw [List.count_erase]
  by_cases h : a = b
  · simp [h]
  · simp [h, Ne.symm h]

/-- Erasing an element `n` times takes `n` of its occurrences, or all of them. -/
theorem count_iterate_erase {α : Type} [DecidableEq α] (n : Nat) (l : List α) (a b : α) :
    ((fun l : List α => l.erase b)^[n] l).count a = l.count a - if a = b then n else 0 := by
  induction n generalizing l with
  | zero => simp
  | succ n ih =>
    rw [Function.iterate_succ_apply, ih, count_erase_ite]
    split <;> omega

/-! ### Taking a link away -/

section
variable {w : World G S} {g : G} {s : S} {signal signal' : Signal S}

/-- The slot is told, and the signal is written with one reference less. -/
theorem unlink_spec (hagrees : Agrees w) (hg : w.signals g = some signal)
    (hless : ∀ s', linkCount signal s' = linkCount signal' s' + if s' = s then 1 else 0) :
    ∃ w', signalDisconnected w s g = some w' ∧ w'.signals g = some signal ∧
      Agrees (setSignal w' g (some signal')) := by
  have hcount := hagrees g s
  have hpos := hless s
  rw [signalCount_of_some hg] at hcount
  rw [if_pos rfl] at hpos
  -- the signal refers to the slot, so the slot refers to the signal and lives
  obtain ⟨slot, hs⟩ := exists_slot_of_slotCount (w := w) (g := g) (s := s) (by omega)
  have hrun : signalDisconnected w s g = some (setSlot w s
      (some { slot with connectedSignals := slot.connectedSignals.erase g })) := by
    simp [signalDisconnected, hs]
  refine ⟨_, hrun, hg, fun g' s' => ?_⟩
  have hold := hagrees g' s'
  rw [signalCount_setSignal, slotCount_setSignal, slotCount_setSlot, signalCount_setSlot,
    count_erase_ite]
  -- the equation changes at one pair only, and there by one on both sides
  have hdiff := hless s'
  by_cases hg' : g' = g
  · subst hg'
    rw [signalCount_of_some hg] at hold
    by_cases hs' : s' = s
    · subst hs'
      rw [slotCount_of_some hs] at hold
      simp only [if_true] at hdiff ⊢
      omega
    · simp only [if_neg hs', if_true] at hdiff ⊢
      omega
  · by_cases hs' : s' = s
    · subst hs'
      rw [slotCount_of_some hs] at hold
      simp only [if_neg hg', if_true]
      omega
    · simp only [if_neg hg', if_neg hs']
      exact hold

/-- The loop over the direct connections. -/
theorem disconnectDirect_spec (connections : List S) (hagrees : Agrees w)
    (hg : w.signals g = some signal) (hconnections : signal.directConnections = connections) :
    ∃ w', disconnectDirect g connections w = some w' ∧ Agrees w' ∧
      w'.signals g = some { signal with directConnections := [] } := by
  induction connections generalizing w signal with
  | nil => exact ⟨w, rfl, hagrees, by rw [hg, ← hconnections]⟩
  | cons s rest ih =>
    have hless : ∀ s', linkCount signal s' = linkCount { signal with directConnections := rest } s'
        + if s' = s then 1 else 0 := by
      intro s'
      simp only [linkCount, hconnections, count_cons_ite]
      omega
    obtain ⟨w', hrun, hg', hagrees'⟩ := unlink_spec hagrees hg hless
    -- the rest of the loop starts from a signal whose first connection is gone
    obtain ⟨w'', hrun', hend⟩ := ih hagrees' (Function.update_self g _ _) rfl
    refine ⟨w'', ?_, hend⟩
    simp only [disconnectDirect, hrun, Option.bind_eq_bind, Option.bind_some, hg']
    exact hrun'

/-- The loop over the queued connections. -/
theorem disconnectQueued_spec (connections : List S) (hagrees : Agrees w)
    (hg : w.signals g = some signal) (hconnections : signal.queuedConnections = connections) :
    ∃ w', disconnectQueued g connections w = some w' ∧ Agrees w' ∧
      w'.signals g = some { signal with queuedConnections := [] } := by
  induction connections generalizing w signal with
  | nil => exact ⟨w, rfl, hagrees, by rw [hg, ← hconnections]⟩
  | cons s rest ih =>
    have hless : ∀ s', linkCount signal s' = linkCount { signal with queuedConnections := rest } s'
        + if s' = s then 1 else 0 := by
      intro s'
      simp only [linkCount, hconnections, count_cons_ite]
      omega
    obtain ⟨w', hrun, hg', hagrees'⟩ := unlink_spec hagrees hg hless
    obtain ⟨w'', hrun', hend⟩ := ih hagrees' (Function.update_self g _ _) rfl
    refine ⟨w'', ?_, hend⟩
    simp only [disconnectQueued, hrun, Option.bind_eq_bind, Option.bind_some, hg']
    exact hrun'

/-- `signal::disconnect()` leaves the signal without connections. -/
theorem disconnect_spec (hagrees : Agrees w) (hg : w.signals g = some signal) :
    ∃ w', Signal.disconnect w g = some w' ∧ Agrees w' ∧
      w'.signals g = some { signal with directConnections := [], queuedConnections := [] } := by
  obtain ⟨w', hdirect, hagrees', hg'⟩ := disconnectDirect_spec _ hagrees hg rfl
  obtain ⟨w'', hqueued, hend⟩ := disconnectQueued_spec _ hagrees' hg' rfl
  refine ⟨w'', ?_, hend⟩
  simp only [Signal.disconnect, hg, Option.bind_eq_bind, Option.bind_some, hdirect, hg']
  exact hqueued

omit [DecidableEq G] in
/-- The counts of a vector and of what is left of it without one `s`. -/
theorem count_of_mem {l : List S} (hmem : s ∈ l) (s' : S) :
    l.count s' = (l.erase s).count s' + if s' = s then 1 else 0 := by
  rw [count_erase_ite]
  split
  · rename_i hs
    have hpos : 0 < l.count s' := List.count_pos_iff.mpr (hs ▸ hmem)
    omega
  · omega

/-- `signal::disconnect(slot)`. -/
theorem disconnectSlot_spec (s : S) (hagrees : Agrees w) (hg : w.signals g = some signal) :
    ∃ w', disconnectSlot w g s = some w' ∧ Agrees w' := by
  -- the queued connection, in the world after the direct one
  have hqueued : ∀ (w : World G S) (signal : Signal S), Agrees w → w.signals g = some signal →
      ∃ w', (if s ∈ signal.queuedConnections then do
          let w ← signalDisconnected w s g
          let signal ← w.signals g
          pure (setSignal w g
            (some { signal with queuedConnections := signal.queuedConnections.erase s }))
        else pure w) = some w' ∧ Agrees w' := by
    intro w signal hagrees hg
    by_cases hmem : s ∈ signal.queuedConnections
    · have hless : ∀ s', linkCount signal s' = linkCount
          { signal with queuedConnections := signal.queuedConnections.erase s } s'
          + if s' = s then 1 else 0 := by
        intro s'
        have hcount := count_of_mem hmem s'
        simp only [linkCount]
        omega
      obtain ⟨w', hrun, hg', hagrees'⟩ := unlink_spec hagrees hg hless
      exact ⟨_, by simp [hmem, hrun, hg'], hagrees'⟩
    · exact ⟨w, by simp [hmem], hagrees⟩
  by_cases hmem : s ∈ signal.directConnections
  · have hless : ∀ s', linkCount signal s' = linkCount
        { signal with directConnections := signal.directConnections.erase s } s'
        + if s' = s then 1 else 0 := by
      intro s'
      have hcount := count_of_mem hmem s'
      simp only [linkCount]
      omega
    obtain ⟨w', hrun, hg', hagrees'⟩ := unlink_spec hagrees hg hless
    -- the second half of the function looks at the signal as the first half has left it
    obtain ⟨w'', hrun', hend⟩ := hqueued _ _ hagrees' (Function.update_self g _ _)
    refine ⟨w'', ?_, hend⟩
    simp only [disconnectSlot, hg, Option.bind_eq_bind, Option.bind_some, if_pos hmem, hrun, hg',
      Option.pure_def]
    rw [show (setSignal w' g _).signals g = _ from Function.update_self g _ _]
    exact hrun'
  · obtain ⟨w', hrun', hend⟩ := hqueued w signal hagrees hg
    refine ⟨w', ?_, hend⟩
    simp only [disconnectSlot, hg, Option.bind_eq_bind, Option.bind_some, if_neg hmem,
      Option.pure_def]
    exact hrun'

end

/-! ### The other operations -/

section
variable {w : World G S} {g : G} {s : S} {signal : Signal S} {slot : Slot G}

/-- A world with one more reference at each end. -/
theorem link_agrees {signal' : Signal S} (hagrees : Agrees w) (hg : w.signals g = some signal)
    (hs : w.slots s = some slot)
    (hmore : ∀ s', linkCount signal' s' = linkCount signal s' + if s' = s then 1 else 0) :
    Agrees (setSlot (setSignal w g (some signal')) s
      (some { slot with connectedSignals := slot.connectedSignals ++ [g] })) := by
  intro g' s'
  have hold := hagrees g' s'
  have hcount := hmore s'
  rw [signalCount_setSlot, signalCount_setSignal, slotCount_setSlot, slotCount_setSignal,
    count_concat_ite]
  by_cases hg' : g' = g
  · subst hg'
    rw [signalCount_of_some hg] at hold
    by_cases hs' : s' = s
    · subst hs'
      rw [slotCount_of_some hs] at hold
      simp only [if_true] at hcount ⊢
      omega
    · simp only [if_neg hs', if_true] at hcount ⊢
      omega
  · by_cases hs' : s' = s
    · subst hs'
      rw [slotCount_of_some hs] at hold
      simp only [if_neg hg', if_true]
      exact hold
    · simp only [if_neg hg', if_neg hs']
      exact hold

/-- `signal::connect` adds one reference at each end. -/
theorem connect_spec (type : ConnectionType) (sameThread : Bool) (hagrees : Agrees w)
    (hg : w.signals g = some signal) (hs : w.slots s = some slot) :
    ∃ w', Signal.connect w g s type sameThread = some w' ∧ Agrees w' := by
  have hrun : Signal.connect w g s type sameThread
      = some (setSlot (setSignal w g (some
          (if connectionType signal slot type sameThread = .direct then
            { signal with directConnections := signal.directConnections ++ [s] }
          else { signal with queuedConnections := signal.queuedConnections ++ [s] }))) s
          (some { slot with connectedSignals := slot.connectedSignals ++ [g] })) := by
    have hs' : ∀ signal, (setSignal w g signal).slots s = some slot := fun _ => hs
    simp [Signal.connect, signalConnected, hg, hs, hs']
  refine ⟨_, hrun, link_agrees hagrees hg hs fun s' => ?_⟩
  split
  · simp only [linkCount, count_concat_ite]
    omega
  · simp only [linkCount, count_concat_ite]
    omega

/-- What the destructor of the slot at `s` leaves of a signal that it has `n` entries for. -/
def withoutSlot (s : S) (n : Nat) (signal : Signal S) : Signal S :=
  { signal with
    directConnections := (fun l : List S => l.erase s)^[n] signal.directConnections
    queuedConnections := (fun l : List S => l.erase s)^[n] signal.queuedConnections }

/-- The loop in the destructor of a slot: for each of its entries, the signal there loses one
direct and one queued connection. -/
theorem removeThisFromConnectedSignals_spec (entries : List G)
    (hlive : ∀ g ∈ entries, ∃ signal, w.signals g = some signal) :
    ∃ w', removeThisFromConnectedSignals s entries w = some w' ∧ w'.slots = w.slots ∧
      ∀ g, w'.signals g = (w.signals g).map (withoutSlot s (entries.count g)) := by
  induction entries generalizing w with
  | nil =>
    refine ⟨w, rfl, rfl, fun g => ?_⟩
    cases w.signals g <;> rfl
  | cons g rest ih =>
    obtain ⟨signal, hg⟩ := hlive g List.mem_cons_self
    have hrun : removeSlotConnection w g s
        = some (setSignal w g (some (withoutSlot s 1 signal))) := by
      simp [removeSlotConnection, hg, withoutSlot]
    -- no signal dies in the loop
    have hlive' : ∀ g' ∈ rest, ∃ signal',
        (setSignal w g (some (withoutSlot s 1 signal))).signals g' = some signal' := by
      intro g' hmem
      by_cases hg' : g' = g
      · subst hg'
        exact ⟨_, Function.update_self g' _ _⟩
      · obtain ⟨signal', hsignal'⟩ := hlive g' (List.mem_cons_of_mem g hmem)
        exact ⟨signal', (Function.update_of_ne hg' _ _).trans hsignal'⟩
    obtain ⟨w', hrest, hslots, hsignals⟩ := ih (w := setSignal w g _) hlive'
    refine ⟨w', ?_, hslots, fun g' => ?_⟩
    · simp only [removeThisFromConnectedSignals, hrun, Option.bind_eq_bind, Option.bind_some]
      exact hrest
    · rw [hsignals, count_cons_ite]
      by_cases hg' : g' = g
      · subst hg'
        rw [show (setSignal w g' _).signals g' = _ from Function.update_self g' _ _, hg, if_pos rfl]
        simp only [Option.map_some, withoutSlot, Function.iterate_succ_apply]
        rfl
      · rw [show (setSignal w g _).signals g' = _ from Function.update_of_ne hg' _ _, if_neg hg']
        rfl

/-- `slot::~slot`. Of a signal with `a` direct and `b` queued connections to the slot there
are `a + b` entries in the slot, which is enough to take all of both kinds away. -/
theorem destroySlot_spec (hagrees : Agrees w) (hs : w.slots s = some slot) :
    ∃ w', Signal.destroySlot w s = some w' ∧ Agrees w' := by
  have hlive : ∀ g ∈ slot.connectedSignals, ∃ signal, w.signals g = some signal := by
    intro g hmem
    have hpos : 0 < slotCount w g s := by
      rw [slotCount_of_some hs]
      exact List.count_pos_iff.mpr hmem
    rw [← hagrees g s] at hpos
    cases hg : w.signals g with
    | none =>
      rw [signalCount, hg] at hpos
      exact absurd hpos (Nat.lt_irrefl 0)
    | some signal => exact ⟨signal, rfl⟩
  obtain ⟨w', hrun, hslots, hsignals⟩ :=
    removeThisFromConnectedSignals_spec (s := s) slot.connectedSignals hlive
  refine ⟨setSlot w' s none, by simp [Signal.destroySlot, hs, hrun], fun g' s' => ?_⟩
  have hold := hagrees g' s'
  have hslot' : slotCount (setSlot w' s none) g' s' = if s' = s then 0 else slotCount w g' s' := by
    by_cases hs' : s' = s
    · subst hs'
      simp [slotCount, setSlot]
    · simp [slotCount, setSlot, hslots, hs']
  rw [signalCount_setSlot, hslot']
  cases hg : w.signals g' with
  | none =>
    have hzero : signalCount w g' s' = 0 := by simp only [signalCount, hg]
    have hzero' : signalCount w' g' s' = 0 := by simp only [signalCount, hsignals, hg, Option.map_none]
    rw [hzero']
    split
    · rfl
    · rw [← hold, hzero]
  | some signal =>
    rw [signalCount_of_some hg] at hold
    have hcount : signalCount w' g' s'
        = linkCount (withoutSlot s (slot.connectedSignals.count g') signal) s' := by
      rw [signalCount_of_some (by rw [hsignals, hg]; rfl)]
    rw [hcount]
    -- the number of entries is at least that of either kind, so both counts become zero
    simp only [linkCount, withoutSlot, count_iterate_erase] at hold ⊢
    by_cases hs' : s' = s
    · subst hs'
      rw [slotCount_of_some hs] at hold
      simp only [if_true]
      omega
    · simp only [if_neg hs']
      omega

/-- `signal::~signal`. -/
theorem destroySignal_spec (hagrees : Agrees w) (hg : w.signals g = some signal) :
    ∃ w', Signal.destroySignal w g = some w' ∧ Agrees w' := by
  obtain ⟨w', hrun, hagrees', hg'⟩ := disconnect_spec hagrees hg
  refine ⟨setSignal w' g none, by simp [Signal.destroySignal, hrun], fun g' s' => ?_⟩
  have hold := hagrees' g' s'
  rw [slotCount_setSignal]
  -- after `disconnect` nothing refers to the signal, so it can go
  by_cases hne : g' = g
  · subst hne
    rw [signalCount_of_some hg'] at hold
    simpa [signalCount, setSignal, linkCount] using hold
  · simpa [signalCount, setSignal, hne] using hold

end

/-! ### Runs -/

/-- One operation on live objects follows no dangling pointer, and keeps both ends of every
link equal. -/
theorem run_agrees {w : World G S} (op : Op G S) (hagrees : Agrees w) (hlive : op.OnLive w) :
    ∃ w', op.run w = some w' ∧ Agrees w' := by
  cases op with
  | connect g s type sameThread =>
    obtain ⟨signal, hg⟩ := Option.isSome_iff_exists.mp hlive.1
    obtain ⟨slot, hs⟩ := Option.isSome_iff_exists.mp hlive.2
    exact connect_spec type sameThread hagrees hg hs
  | disconnect g =>
    obtain ⟨signal, hg⟩ := Option.isSome_iff_exists.mp hlive
    obtain ⟨w', hrun, hagrees', -⟩ := disconnect_spec hagrees hg
    exact ⟨w', hrun, hagrees'⟩
  | disconnectSlot g s =>
    obtain ⟨signal, hg⟩ := Option.isSome_iff_exists.mp hlive
    exact disconnectSlot_spec s hagrees hg
  | destroySlot s =>
    obtain ⟨slot, hs⟩ := Option.isSome_iff_exists.mp hlive
    exact destroySlot_spec hagrees hs
  | destroySignal g =>
    obtain ⟨signal, hg⟩ := Option.isSome_iff_exists.mp hlive
    exact destroySignal_spec hagrees hg

/-- Without connections there is nothing to disagree about. -/
theorem fresh_agrees {w : World G S} (h : Fresh w) : Agrees w := by
  intro g s
  have hsignal : signalCount w g s = 0 := by
    unfold signalCount
    split
    · rename_i signal hg
      obtain ⟨hdirect, hqueued⟩ := h.1 g signal hg
      simp [linkCount, hdirect, hqueued]
    · rfl
  have hslot : slotCount w g s = 0 := by
    unfold slotCount
    split
    · rename_i slot hs
      simp [h.2 s slot hs]
    · rfl
  rw [hsignal, hslot]

/-- The run lemma: both ends agree in every reachable world. -/
theorem agrees_of_reachable {w : World G S} (h : Reachable Fresh Next w) : Agrees w := by
  refine h.invariant (fun _ => fresh_agrees) fun w w' _ hagrees hnext => ?_
  obtain ⟨op, hlive, hrun⟩ := hnext
  obtain ⟨w'', hrun', hagrees'⟩ := run_agrees op hagrees hlive
  rw [hrun] at hrun'
  rwa [Option.some.inj hrun']

/-- No live object holds a pointer to a destroyed one. -/
def NoneDangling (w : World G S) : Prop :=
  (∀ g signal, w.signals g = some signal → ∀ s,
    s ∈ signal.directConnections ∨ s ∈ signal.queuedConnections → (w.slots s).isSome) ∧
  ∀ s slot, w.slots s = some slot → ∀ g ∈ slot.connectedSignals, (w.signals g).isSome

/-- Two ends that agree both live: the count of a dead one is zero. -/
theorem noneDangling_of_agrees {w : World G S} (h : Agrees w) : NoneDangling w := by
  constructor
  · intro g signal hg s hmem
    have hcount := h g s
    rw [signalCount_of_some hg, linkCount] at hcount
    have hpos : 0 < slotCount w g s := by
      rcases hmem with hmem | hmem
      · have hdirect := List.count_pos_iff.mpr hmem
        omega
      · have hqueued := List.count_pos_iff.mpr hmem
        omega
    obtain ⟨slot, hs⟩ := exists_slot_of_slotCount hpos
    rw [hs]
    rfl
  · intro s slot hs g hmem
    have hcount := h g s
    rw [slotCount_of_some hs] at hcount
    have hpos := List.count_pos_iff.mpr hmem
    cases hg : w.signals g with
    | none =>
      have hzero : signalCount w g s = 0 := by simp only [signalCount, hg]
      omega
    | some signal => rfl

/-- In every reachable state every operation on live objects succeeds, the two ends of every
link between live objects know it equally often, and nothing dangles. -/
theorem links_never_dangle {w : World G S} (h : Reachable Fresh Next w) :
    (∀ op : Op G S, op.OnLive w → (op.run w).isSome) ∧
    (∀ g s signal slot, w.signals g = some signal → w.slots s = some slot →
      signal.directConnections.count s + signal.queuedConnections.count s
        = slot.connectedSignals.count g) ∧
    NoneDangling w := by
  have hagrees := agrees_of_reachable h
  refine ⟨fun op hlive => ?_, fun g s signal slot hg hs => ?_, noneDangling_of_agrees hagrees⟩
  · obtain ⟨w', hrun, -⟩ := run_agrees op hagrees hlive
    rw [hrun]
    rfl
  · have hcount := hagrees g s
    rwa [signalCount_of_some hg, slotCount_of_some hs] at hcount

/-- The result after a queued connection and the destruction of the slot. -/
theorem links_never_dangle_slot_destroyed :
    ∃ w w' : World Unit Unit,
      (Op.connect () () .queued false).run
        ⟨fun _ => some ⟨[], [], true⟩, fun _ => some ⟨[], true⟩⟩ = some w ∧
      (Op.destroySlot ()).run w = some w' ∧ NoneDangling w' := by
  have hfresh : Fresh (⟨fun _ => some ⟨[], [], true⟩, fun _ => some ⟨[], true⟩⟩ : World Unit Unit) := by
    refine ⟨fun g signal h => ?_, fun s slot h => ?_⟩
    · obtain rfl := Option.some.inj h
      exact ⟨rfl, rfl⟩
    · obtain rfl := Option.some.inj h
      rfl
  have hconnected := (Reachable.start hfresh).step
    (show Next _ _ from ⟨.connect () () .queued false, ⟨rfl, rfl⟩, rfl⟩)
  have hdestroyed := hconnected.step (show Next _ _ from ⟨.destroySlot (), rfl, rfl⟩)
  exact ⟨_, _, rfl, rfl, (links_never_dangle hdestroyed).2.2⟩

end Brutils.Proofs.Signal
