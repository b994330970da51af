import Mathlib.Logic.Function.Basic

/-!
# `Brutils.Signal`: the `signal` and `slot` classes

Signals and slots refer to each other through pointers: a signal to the slots it calls, and
a slot to the signals it is connected to, once for each connection. A `World` holds the
objects of one argument type by their addresses, with `none` for an address where no object
lives. An operation gives `none` when it follows a pointer to such an address.

The pointers are kept in vectors, in the order of `push_back`. `std::find` and `erase` take
the first occurrence out, which is `List.erase`. Of a parent the operations ask only whether
there is one, and, for an automatic connection, whether two threads are the same. That
answer is an argument of `connect`.
-/

set_option autoImplicit false

namespace Brutils

/-- `ConnectionType`. -/
inductive ConnectionType
  | auto
  | direct
  | queued
  deriving DecidableEq, Repr

/-- The connections of a `signal`, and whether it has a parent. -/
structure Signal (S : Type) where
  directConnections : List S
  queuedConnections : List S
  hasParent : Bool

/-- The connections of a `slot`, and whether it has a parent. -/
structure Slot (G : Type) where
  connectedSignals : List G
  hasParent : Bool

/-- The live signals and slots, by address. -/
structure World (G S : Type) where
  signals : G → Option (Signal S)
  slots : S → Option (Slot G)

namespace Signal

variable {G S : Type} [DecidableEq G] [DecidableEq S]

/-- Write the signal at `g`. -/
def setSignal (w : World G S) (g : G) (signal : Option (Signal S)) : World G S :=
  { w with signals := Function.update w.signals g signal }

/-- Write the slot at `s`. -/
def setSlot (w : World G S) (s : S) (slot : Option (Slot G)) : World G S :=
  { w with slots := Function.update w.slots s slot }

/-- `slot::signalConnected`. -/
def signalConnected (w : World G S) (s : S) (g : G) : Option (World G S) := do
  let slot ← w.slots s
  pure (setSlot w s (some { slot with connectedSignals := slot.connectedSignals ++ [g] }))

/-- `slot::signalDisconnected`. -/
def signalDisconnected (w : World G S) (s : S) (g : G) : Option (World G S) := do
  let slot ← w.slots s
  pure (setSlot w s (some { slot with connectedSignals := slot.connectedSignals.erase g }))

/-- The type `connect` chooses. `sameThread` is the answer to
`getThreadId() == slot.getThreadId()`. -/
def connectionType (signal : Signal S) (slot : Slot G) (type : ConnectionType)
    (sameThread : Bool) : ConnectionType :=
  if !signal.hasParent || !slot.hasParent then .direct
  else if type = .auto then if sameThread then .direct else .queued
  else type

/-- `signal::connect`. -/
def connect (w : World G S) (g : G) (s : S) (type : ConnectionType) (sameThread : Bool) :
    Option (World G S) := do
  let signal ← w.signals g
  let slot ← w.slots s
  let signal :=
    if connectionType signal slot type sameThread = .direct then
      { signal with directConnections := signal.directConnections ++ [s] }
    else { signal with queuedConnections := signal.queuedConnections ++ [s] }
  signalConnected (setSignal w g (some signal)) s g

/-- The loop of `signal::disconnect()` over `_directConnections`, by the connections that are
left. -/
def disconnectDirect (g : G) : List S → World G S → Option (World G S)
  | [], w => some w
  | s :: rest, w => do
    let w ← signalDisconnected w s g
    let signal ← w.signals g
    disconnectDirect g rest (setSignal w g (some { signal with directConnections := rest }))

/-- The loop of `signal::disconnect()` over `_queuedConnections`. -/
def disconnectQueued (g : G) : List S → World G S → Option (World G S)
  | [], w => some w
  | s :: rest, w => do
    let w ← signalDisconnected w s g
    let signal ← w.signals g
    disconnectQueued g rest (setSignal w g (some { signal with queuedConnections := rest }))

/-- `signal::disconnect()`. -/
def disconnect (w : World G S) (g : G) : Option (World G S) := do
  let signal ← w.signals g
  let w ← disconnectDirect g signal.directConnections w
  let signal ← w.signals g
  disconnectQueued g signal.queuedConnections w

/-- `signal::disconnect(slot)`. -/
def disconnectSlot (w : World G S) (g : G) (s : S) : Option (World G S) := do
  let signal ← w.signals g
  let w ←
    if s ∈ signal.directConnections then do
      let w ← signalDisconnected w s g
      let signal ← w.signals g
      pure (setSignal w g
        (some { signal with directConnections := signal.directConnections.erase s }))
    else pure w
  let signal ← w.signals g
  if s ∈ signal.queuedConnections then do
    let w ← signalDisconnected w s g
    let signal ← w.signals g
    pure (setSignal w g
      (some { signal with queuedConnections := signal.queuedConnections.erase s }))
  else pure w

/-- `signal::removeSlotConnection`. -/
def removeSlotConnection (w : World G S) (g : G) (s : S) : Option (World G S) := do
  let signal ← w.signals g
  pure (setSignal w g (some { signal with
    directConnections := signal.directConnections.erase s
    queuedConnections := signal.queuedConnections.erase s }))

/-- `slot::removeThisFromConnectedSignals`, by the signals that are left. -/
def removeThisFromConnectedSignals (s : S) : List G → World G S → Option (World G S)
  | [], w => some w
  | g :: rest, w => do
    let w ← removeSlotConnection w g s
    removeThisFromConnectedSignals s rest w

/-- `slot::~slot`. -/
def destroySlot (w : World G S) (s : S) : Option (World G S) := do
  let slot ← w.slots s
  let w ← removeThisFromConnectedSignals s slot.connectedSignals w
  pure (setSlot w s none)

/-- `signal::~signal`. -/
def destroySignal (w : World G S) (g : G) : Option (World G S) := do
  let w ← disconnect w g
  pure (setSignal w g none)

/-- The operations on the objects. -/
inductive Op (G S : Type)
  | connect (g : G) (s : S) (type : ConnectionType) (sameThread : Bool)
  | disconnect (g : G)
  | disconnectSlot (g : G) (s : S)
  | destroySlot (s : S)
  | destroySignal (g : G)

/-- The operation is called on a live object. `connect` takes a reference, to a live slot.
`disconnect(slot)` takes a pointer, to any slot. -/
def Op.OnLive (w : World G S) : Op G S → Prop
  | .connect g s _ _ => (w.signals g).isSome ∧ (w.slots s).isSome
  | .disconnect g => (w.signals g).isSome
  | .disconnectSlot g _ => (w.signals g).isSome
  | .destroySlot s => (w.slots s).isSome
  | .destroySignal g => (w.signals g).isSome

/-- What an operation makes of the world, or `none` when it follows a dangling pointer. -/
def Op.run (w : World G S) : Op G S → Option (World G S)
  | .connect g s type sameThread => Signal.connect w g s type sameThread
  | .disconnect g => Signal.disconnect w g
  | .disconnectSlot g s => Signal.disconnectSlot w g s
  | .destroySlot s => Signal.destroySlot w s
  | .destroySignal g => Signal.destroySignal w g

/-- Newly constructed objects. -/
def Fresh (w : World G S) : Prop :=
  (∀ g signal, w.signals g = some signal →
    signal.directConnections = [] ∧ signal.queuedConnections = []) ∧
  ∀ s slot, w.slots s = some slot → slot.connectedSignals = []

/-- One operation on live objects. -/
def Next (w w' : World G S) : Prop := ∃ op : Op G S, op.OnLive w ∧ op.run w = some w'

end Signal

end Brutils
