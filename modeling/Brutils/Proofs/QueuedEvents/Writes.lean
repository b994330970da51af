import Brutils.Emitting
import Brutils.Proofs.Signal

/-!
# `Brutils.Proofs.QueuedEvents.Writes`: what the operations write

All that `disconnect` and the destructors do to other objects is to write signals that live and to
take entries out of slots that live. `Unlink` is one such write. An operation is some number of them
and a last write of its own (`run_unlinks`): the entry that `connect` adds, or the object that a
destructor ends. So what an operation keeps of the objects and of the connections is looked at for
one write.
-/

set_option autoImplicit false

namespace Brutils.Proofs.QueuedEvents

open Brutils.Signal
open Brutils.Proofs.Signal
open Brutils.Emitting (Closure)
open Relation (ReflTransGen)

variable {G S : Type} [DecidableEq G] [DecidableEq S]

/-! ### The writes -/

/-- A live signal is written, or an entry is taken out of a live slot. -/
inductive Unlink (w : World G S) : World G S → Prop
  | signal (g : G) (signal signal' : Signal S) (hg : w.signals g = some signal) :
      Unlink w (setSignal w g (some signal'))
  | slot (s : S) (g : G) (slot : Slot G) (hs : w.slots s = some slot) :
      Unlink w (setSlot w s (some { slot with connectedSignals := slot.connectedSignals.erase g }))

/-- Some number of writes. -/
def Unlinks (w w' : World G S) : Prop := ReflTransGen Unlink w w'

section
variable {w w' : World G S} {g : G} {s : S}

/-- Telling a slot takes the signal out of it. -/
theorem unlinks_signalDisconnected (h : signalDisconnected w s g = some w') : Unlinks w w' := by
  simp only [signalDisconnected, Option.bind_eq_bind, Option.bind_eq_some_iff] at h
  obtain ⟨slot, hs, hw'⟩ := h
  obtain rfl := Option.some.inj hw'
  exact .single (.slot s g slot hs)

/-- The slot is told, the signal is written, and more follows. -/
theorem unlinks_told {w₁ : World G S} {signal signal' : Signal S}
    (htold : signalDisconnected w s g = some w₁) (hg : w₁.signals g = some signal)
    (hrest : Unlinks (setSignal w₁ g (some signal')) w') : Unlinks w w' := by
  have hwrite : Unlinks w₁ w' := .head (.signal g signal signal' hg) hrest
  exact ReflTransGen.trans (unlinks_signalDisconnected htold) hwrite

/-- A loop over connections whose passes tell the slot and write the signal. -/
theorem unlinks_loop (write : List S → Signal S → Signal S)
    {loop : List S → World G S → Option (World G S)} (hnil : ∀ w, loop [] w = some w)
    (hcons : ∀ s rest w, loop (s :: rest) w = (signalDisconnected w s g).bind fun w =>
      (w.signals g).bind fun signal => loop rest (setSignal w g (some (write rest signal))))
    (connections : List S) :
    ∀ w w' : World G S, loop connections w = some w' → Unlinks w w' := by
  induction connections with
  | nil =>
    intro w w' h
    rw [hnil] at h
    obtain rfl := Option.some.inj h
    exact .refl
  | cons s rest ih =>
    intro w w' h
    simp only [hcons, Option.bind_eq_some_iff] at h
    obtain ⟨w₁, htold, signal, hg, hrest⟩ := h
    exact unlinks_told htold hg (ih _ _ hrest)

/-- The loop over the direct connections tells each slot and drops it from the signal. -/
theorem unlinks_disconnectDirect (connections : List S)
    (h : disconnectDirect g connections w = some w') : Unlinks w w' :=
  unlinks_loop (fun rest signal => { signal with directConnections := rest }) (fun _ => rfl)
    (fun _ _ _ => rfl) connections w w' h

/-- The loop over the queued connections does the same with the other list. -/
theorem unlinks_disconnectQueued (connections : List S)
    (h : disconnectQueued g connections w = some w') : Unlinks w w' :=
  unlinks_loop (fun rest signal => { signal with queuedConnections := rest }) (fun _ => rfl)
    (fun _ _ _ => rfl) connections w w' h

/-- `disconnect()` is the two loops. -/
theorem unlinks_disconnect (h : Signal.disconnect w g = some w') : Unlinks w w' := by
  simp only [Signal.disconnect, Option.bind_eq_bind, Option.bind_eq_some_iff] at h
  obtain ⟨_, _, w₁, hdirect, _, _, hqueued⟩ := h
  exact ReflTransGen.trans (unlinks_disconnectDirect _ hdirect) (unlinks_disconnectQueued _ hqueued)

/-- One of the two halves of `disconnect(slot)`, and what follows it. -/
theorem unlinks_half (write : Signal S → Signal S) {found : Prop} [Decidable found]
    {k : World G S → Option (World G S)}
    (h : (if found then (signalDisconnected w s g).bind fun w => (w.signals g).bind fun signal =>
        k (setSignal w g (some (write signal)))
      else k w) = some w') (hk : ∀ w₁, k w₁ = some w' → Unlinks w₁ w') : Unlinks w w' := by
  split at h
  · simp only [Option.bind_eq_some_iff] at h
    obtain ⟨w₁, htold, signal, hg, hrest⟩ := h
    exact unlinks_told htold hg (hk _ hrest)
  · exact hk w h

/-- `disconnect(slot)` does it for one slot, in each of the two lists that has it. -/
theorem unlinks_disconnectSlot (h : disconnectSlot w g s = some w') : Unlinks w w' := by
  -- what follows the first half
  let second : World G S → Option (World G S) := fun w => (w.signals g).bind fun signal =>
    if s ∈ signal.queuedConnections then
      (signalDisconnected w s g).bind fun w => (w.signals g).bind fun signal =>
        some (setSignal w g
          (some { signal with queuedConnections := signal.queuedConnections.erase s }))
    else some w
  have hsecond : ∀ w₁, second w₁ = some w' → Unlinks w₁ w' := by
    intro w₁ h₁
    obtain ⟨signal, hg, h₁⟩ := Option.bind_eq_some_iff.mp h₁
    refine unlinks_half (k := some) (fun signal : Signal S =>
      { signal with queuedConnections := signal.queuedConnections.erase s }) h₁ fun w₂ h₂ => ?_
    obtain rfl := Option.some.inj h₂
    exact .refl
  obtain ⟨signal, hg, h⟩ := Option.bind_eq_some_iff.mp h
  exact unlinks_half (k := second) (fun signal : Signal S =>
    { signal with directConnections := signal.directConnections.erase s }) h hsecond

/-- The destructor of a slot calls `disconnect(slot)` of each signal that it is connected to. -/
theorem unlinks_removeThis (entries : List G) : ∀ w w' : World G S,
    removeThisFromConnectedSignals s entries w = some w' → Unlinks w w' := by
  induction entries with
  | nil =>
    intro w w' h
    obtain rfl := Option.some.inj h
    exact .refl
  | cons g rest ih =>
    intro w w' h
    simp only [removeThisFromConnectedSignals, removeSlotConnection, Option.bind_eq_bind,
      Option.bind_eq_some_iff] at h
    obtain ⟨w₁, ⟨signal, hg, hw₁⟩, hrest⟩ := h
    obtain rfl := Option.some.inj hw₁
    exact .head (.signal g signal _ hg) (ih _ _ hrest)

end

/-! ### What the writes keep -/

/-- The object in the closure of an event lives. -/
def Live (w : World G S) : Closure G S → Prop
  | .emit g => (w.signals g).isSome
  | .call slot => (w.slots slot).isSome

/-- The object that an operation destroys, as it stands in an event. -/
def destroyed : Op G S → Option (Closure G S)
  | .destroySlot slot => some (.call slot)
  | .destroySignal g => some (.emit g)
  | _ => none

section
variable {w w' : World G S} {g : G} {s : S} {event : Closure G S}

omit [DecidableEq S] in
/-- The event of an emit is alive when its signal has been written as alive. -/
theorem live_setSignal_self (signal : Option (Signal S)) :
    Live (setSignal w g signal) (.emit g) ↔ signal.isSome := by
  show (Function.update w.signals g signal g).isSome ↔ _
  rw [Function.update_self]

omit [DecidableEq S] in
/-- Writing a signal does not matter to another event. -/
theorem live_setSignal_of_ne (signal : Option (Signal S)) (hne : event ≠ .emit g) :
    Live (setSignal w g signal) event ↔ Live w event := by
  cases event with
  | emit g' =>
    have hg : g' ≠ g := fun heq => hne (congrArg _ heq)
    show (Function.update w.signals g signal g').isSome ↔ _
    rw [Function.update_of_ne hg]
    rfl
  | call slot => rfl

omit [DecidableEq G] in
/-- The event of a call is alive when its slot has been written as alive. -/
theorem live_setSlot_self (slot : Option (Slot G)) :
    Live (setSlot w s slot) (.call s) ↔ slot.isSome := by
  show (Function.update w.slots s slot s).isSome ↔ _
  rw [Function.update_self]

omit [DecidableEq G] in
/-- Writing a slot does not matter to another event. -/
theorem live_setSlot_of_ne (slot : Option (Slot G)) (hne : event ≠ .call s) :
    Live (setSlot w s slot) event ↔ Live w event := by
  cases event with
  | emit g => rfl
  | call s' =>
    have hs : s' ≠ s := fun heq => hne (congrArg _ heq)
    show (Function.update w.slots s slot s').isSome ↔ _
    rw [Function.update_of_ne hs]
    rfl

omit [DecidableEq S] in
/-- Writing a signal that lives ends nobody. -/
theorem live_writeSignal (signal : Signal S) (hlive : Live w event) :
    Live (setSignal w g (some signal)) event := by
  by_cases heq : event = .emit g
  · rw [heq, live_setSignal_self]
    rfl
  · exact (live_setSignal_of_ne _ heq).mpr hlive

omit [DecidableEq G] in
/-- Writing a slot that lives ends nobody. -/
theorem live_writeSlot (slot : Slot G) (hlive : Live w event) :
    Live (setSlot w s (some slot)) event := by
  by_cases heq : event = .call s
  · rw [heq, live_setSlot_self]
    rfl
  · exact (live_setSlot_of_ne _ heq).mpr hlive

/-- The writes keep every object. -/
theorem Unlinks.live (h : Unlinks w w') (hlive : Live w event) : Live w' event := by
  induction h with
  | refl => exact hlive
  | tail _ hstep ih =>
    cases hstep with
    | signal g signal signal' hg => exact live_writeSignal signal' ih
    | slot s g slot hs => exact live_writeSlot _ ih

/-- The writes make no connection. -/
theorem Unlinks.slotCount_le (h : Unlinks w w') (g : G) (s : S) :
    slotCount w' g s ≤ slotCount w g s := by
  induction h with
  | refl => exact Nat.le_refl _
  | tail _ hstep ih =>
    refine Nat.le_trans ?_ ih
    cases hstep with
    | signal g' signal signal' hg => exact Nat.le_refl _
    | slot s' g' slot hs =>
      rw [slotCount_setSlot]
      split
      · rename_i heq
        rw [heq, slotCount_of_some hs, count_erase_ite]
        exact Nat.sub_le _ _
      · exact Nat.le_refl _

/-- What an operation does last: it adds the entry of a connection, or destroys an object, or does
nothing. -/
inductive LastWrite (w : World G S) : Op G S → World G S → Prop
  | connect (g : G) (s : S) (type : ConnectionType) (sameThread : Bool) (slot : Slot G)
      (hs : w.slots s = some slot) : LastWrite w (.connect g s type sameThread)
        (setSlot w s (some { slot with connectedSignals := slot.connectedSignals ++ [g] }))
  | disconnect (g : G) : LastWrite w (.disconnect g) w
  | disconnectSlot (g : G) (s : S) : LastWrite w (.disconnectSlot g s) w
  | destroySlot (s : S) : LastWrite w (.destroySlot s) (setSlot w s none)
  | destroySignal (g : G) : LastWrite w (.destroySignal g) (setSignal w g none)

/-- Each operation is some number of such writes and a last one of its own. -/
theorem run_unlinks {op : Op G S} (hrun : op.run w = some w') :
    ∃ w₁, Unlinks w w₁ ∧ LastWrite w₁ op w' := by
  cases op with
  | connect g s type sameThread =>
    have hconnect : Signal.connect w g s type sameThread = some w' := hrun
    simp only [Signal.connect, signalConnected, Option.bind_eq_bind, Option.bind_eq_some_iff]
      at hconnect
    obtain ⟨signal, hg, _, _, slot, hs, hw'⟩ := hconnect
    obtain rfl := Option.some.inj hw'
    exact ⟨_, .single (.signal g signal _ hg), .connect g s type sameThread slot hs⟩
  | disconnect g => exact ⟨w', unlinks_disconnect hrun, .disconnect g⟩
  | disconnectSlot g s => exact ⟨w', unlinks_disconnectSlot hrun, .disconnectSlot g s⟩
  | destroySlot s =>
    obtain ⟨slot, _, hrun⟩ := Option.bind_eq_some_iff.mp hrun
    obtain ⟨w₁, hremove, hw'⟩ := Option.bind_eq_some_iff.mp hrun
    obtain rfl := Option.some.inj hw'
    exact ⟨w₁, unlinks_removeThis _ _ _ hremove, .destroySlot s⟩
  | destroySignal g =>
    obtain ⟨w₁, hdisconnect, hw'⟩ := Option.bind_eq_some_iff.mp hrun
    obtain rfl := Option.some.inj hw'
    exact ⟨w₁, unlinks_disconnect hdisconnect, .destroySignal g⟩

/-- An operation keeps the objects that it does not destroy. -/
theorem live_run {op : Op G S} (hrun : op.run w = some w') (hne : event ∉ destroyed op)
    (hlive : Live w event) : Live w' event := by
  obtain ⟨w₁, hunlinks, hlast⟩ := run_unlinks hrun
  have hlive₁ := hunlinks.live hlive
  cases hlast with
  | connect g s type sameThread slot hs => exact live_writeSlot _ hlive₁
  | disconnect g => exact hlive₁
  | disconnectSlot g s => exact hlive₁
  | destroySlot s =>
    have hevent : event ≠ .call s := fun heq => hne (by simp [destroyed, heq])
    exact (live_setSlot_of_ne _ hevent).mpr hlive₁
  | destroySignal g =>
    have hevent : event ≠ .emit g := fun heq => hne (by simp [destroyed, heq])
    exact (live_setSignal_of_ne _ hevent).mpr hlive₁

/-- The event of an object that an operation destroys is not alive afterwards. -/
theorem not_live_of_destroyed {op : Op G S} (hrun : op.run w = some w')
    (hdestroyed : event ∈ destroyed op) : ¬Live w' event := by
  obtain ⟨w₁, _, hlast⟩ := run_unlinks hrun
  cases hlast with
  | connect g s type sameThread slot hs => cases hdestroyed
  | disconnect g => cases hdestroyed
  | disconnectSlot g s => cases hdestroyed
  | destroySlot s =>
    obtain rfl := Option.some.inj hdestroyed
    rw [live_setSlot_self]
    exact Bool.false_ne_true
  | destroySignal g =>
    obtain rfl := Option.some.inj hdestroyed
    rw [live_setSignal_self]
    exact Bool.false_ne_true

/-- Only `connect` connects a slot. -/
theorem slotCount_run {op : Op G S} (hrun : op.run w = some w')
    (hne : ∀ g type sameThread, op ≠ .connect g s type sameThread) (g : G) :
    slotCount w' g s ≤ slotCount w g s := by
  obtain ⟨w₁, hunlinks, hlast⟩ := run_unlinks hrun
  have hle := hunlinks.slotCount_le g s
  cases hlast with
  | connect g' s' type sameThread slot hs =>
    have hs' : s ≠ s' := by
      rintro rfl
      exact hne g' type sameThread rfl
    have hsame : slotCount (setSlot w₁ s' (some { slot with
        connectedSignals := slot.connectedSignals ++ [g'] })) g s = slotCount w₁ g s := by
      rw [slotCount_setSlot, if_neg hs']
    omega
  | disconnect g' => exact hle
  | disconnectSlot g' s' => exact hle
  | destroySlot s' =>
    by_cases heq : s = s'
    · simp [slotCount, setSlot, heq]
    · have hsame : slotCount (setSlot w₁ s' none) g s = slotCount w₁ g s := by
        simp [slotCount, setSlot, heq]
      omega
  | destroySignal g' => exact hle

end

end Brutils.Proofs.QueuedEvents
