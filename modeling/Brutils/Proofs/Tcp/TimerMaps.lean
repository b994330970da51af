import Brutils.Lib.InverseMaps
import Brutils.Proofs.Tcp.Tables
import Mathlib.Data.Finset.Basic

/-!
# `Brutils.Proofs.Tcp.TimerMaps`: when the two timer maps are inverse to each other

The header calls `_socketFdTimerIdMap` and `_timerIdSocketFdMap` complementary
(`Complementary`). `stopTimeoutTimer` returns early when the timer has expired, and leaves
both entries behind. Then `newIncomingData` gives the descriptor a new timer, and the old id
still points to it, and `connectionClosed` leaves a descriptor in the maps that is no
connection.

A `Watched` is a server with the timers that are pending in its `combined_timer`. `Timely` is
the condition on an operation: the timer of the client has not expired.
`complementary_iff` is the result for every run of timely operations and one more
operation.
-/

set_option autoImplicit false

namespace Brutils.Proofs.Tcp

open InverseMaps
open Transition (Reachable)
open Brutils.TcpServer

/-- A server, and the ids of the timers that are pending. -/
structure Watched where
  server : TcpServer
  pending : Finset UInt16

/-- An operation on the server, or the end of a timer. With `addNewConnection` and
`newIncomingData` comes the id that `addTimer` returns. -/
inductive Operation
  | addNewConnection (system : System) (fd : Int) (id : UInt16)
  | newIncomingData (system : System) (fd : Int) (id : UInt16)
  | connectionClosed (fd : Int)
  | expire (id : UInt16)

/-- The timer of the server: `stopTimer` returns true for a pending timer. -/
def Watched.timer (s : Watched) (id : UInt16) : Timer :=
  ⟨fun _ => id, fun id' => decide (id' ∈ s.pending)⟩

/-- The timers that are pending after `stopTimeoutTimer`. -/
def Watched.stopped (s : Watched) (fd : Int) : Finset UInt16 :=
  match s.server.socketFdTimerIdMap[fd]? with
  | none => s.pending
  | some id => s.pending.erase id

/-- What an operation does. -/
def Watched.apply (s : Watched) : Operation → Watched
  | .addNewConnection system fd id =>
    let run := s.server.addNewConnection (s.timer id) system fd
    ⟨run.2, if run.1 then insert id s.pending else s.pending⟩
  | .newIncomingData system fd id =>
    let run := s.server.newIncomingData (s.timer id) system fd
    ⟨run.2, if run.1 then insert id (s.stopped fd) else s.pending⟩
  | .connectionClosed fd => ⟨(s.server.connectionClosed (s.timer 0) fd).2, s.stopped fd⟩
  | .expire id => ⟨s.server, s.pending.erase id⟩

/-- The id is in use in neither map. -/
def Unused (server : TcpServer) (id : UInt16) : Prop :=
  (∀ fd : Int, server.socketFdTimerIdMap[fd]? ≠ some id) ∧ server.timerIdSocketFdMap[id]? = none

/-- When `addTimer` is called, the id that it returns is not in use. -/
def Watched.Allowed (s : Watched) : Operation → Prop
  | .addNewConnection system fd id =>
    (s.server.addNewConnection (s.timer id) system fd).1 = true → Unused s.server id
  | .newIncomingData system fd id =>
    (s.server.newIncomingData (s.timer id) system fd).1 = true →
      Unused (s.server.stopTimeoutTimer (s.timer id) fd).2 id
  | .connectionClosed _ => True
  | .expire _ => True

/-- The timer of the descriptor has not expired. -/
def Watched.StillPending (s : Watched) (fd : Int) : Prop :=
  ∀ id, s.server.socketFdTimerIdMap[fd]? = some id → id ∈ s.pending

/-- Data come, or a connection is closed, before the timer of the client has expired. -/
def Watched.Timely (s : Watched) : Operation → Prop
  | .addNewConnection _ _ _ => True
  | .newIncomingData _ fd _ => fd ∈ s.server.activeConnections → s.StillPending fd
  | .connectionClosed fd => fd ∈ s.server.activeConnections → s.StillPending fd
  | .expire _ => True

/-- The maps are inverse to each other, and every descriptor in them is a connection. -/
structure Complementary (server : TcpServer) : Prop where
  inverse : Inverse server.socketFdTimerIdMap server.timerIdSocketFdMap
  connected : ∀ (fd : Int) (id : UInt16), server.socketFdTimerIdMap[fd]? = some id →
    fd ∈ server.activeConnections

/-- A timely operation. -/
def TimelyStep (s t : Watched) : Prop :=
  ∃ operation, s.Allowed operation ∧ s.Timely operation ∧ t = s.apply operation

section
variable {s : Watched} {fd : Int} {id : UInt16}

/-! ### What the operations do to the maps -/

/-- A descriptor that is no connection has no timer. -/
theorem Complementary.no_timer {server : TcpServer} (h : Complementary server)
    (hinactive : fd ∉ server.activeConnections) : server.socketFdTimerIdMap[fd]? = none := by
  cases hid : server.socketFdTimerIdMap[fd]? with
  | none => rfl
  | some id => exact absurd (h.connected fd id hid) hinactive

/-- `Complementary` depends on the two maps, and of the sockets on their keys. -/
theorem Complementary.congr {server server' : TcpServer} (h : Complementary server)
    (hids : server'.socketFdTimerIdMap = server.socketFdTimerIdMap)
    (hfds : server'.timerIdSocketFdMap = server.timerIdSocketFdMap)
    (hkeys : ∀ fd : Int, fd ∈ server.activeConnections → fd ∈ server'.activeConnections) :
    Complementary server' := by
  refine ⟨?_, ?_⟩
  · rw [hids, hfds]
    exact h.inverse
  · intro fd id hid
    rw [hids] at hid
    exact hkeys fd (h.connected fd id hid)

/-- What `stopTimeoutTimer` does: it takes a pending timer out of both maps. -/
theorem stopTimeoutTimer_spec (s : Watched) (fd : Int) (id' : UInt16) :
    (s.StillPending fd ∧ s.server.socketFdTimerIdMap[fd]? = none ∧
      s.server.stopTimeoutTimer (s.timer id') fd = (false, s.server)) ∨
    (∃ id, s.StillPending fd ∧ s.server.socketFdTimerIdMap[fd]? = some id ∧
      s.server.stopTimeoutTimer (s.timer id') fd = (true, { s.server with
        socketFdTimerIdMap := s.server.socketFdTimerIdMap.erase fd
        timerIdSocketFdMap := s.server.timerIdSocketFdMap.erase id })) ∨
    ∃ id, ¬s.StillPending fd ∧ s.server.socketFdTimerIdMap[fd]? = some id ∧
      s.server.stopTimeoutTimer (s.timer id') fd = (false, s.server) := by
  unfold stopTimeoutTimer Watched.StillPending
  cases hid : s.server.socketFdTimerIdMap[fd]? with
  | none => exact Or.inl ⟨fun id heq => (nomatch heq), rfl, rfl⟩
  | some id =>
    by_cases hpending : id ∈ s.pending
    · refine Or.inr (Or.inl ⟨id, ?_, rfl, ?_⟩)
      · rintro id'' heq
        rwa [← Option.some.inj heq]
      · exact if_pos (decide_eq_true hpending)
    · refine Or.inr (Or.inr ⟨id, fun hall => hpending (hall id rfl), rfl, ?_⟩)
      exact if_neg (by simpa [Watched.timer] using hpending)

/-- `stopTimeoutTimer` takes no id into use. -/
theorem Unused.stop (h : Unused s.server id) (fd : Int) (id' : UInt16) :
    Unused (s.server.stopTimeoutTimer (s.timer id') fd).2 id := by
  rcases stopTimeoutTimer_spec s fd id' with ⟨-, -, hstop⟩ | ⟨id'', -, hid'', hstop⟩ |
    ⟨id'', -, -, hstop⟩
  · rw [hstop]
    exact h
  · rw [hstop]
    constructor
    · intro fd' hfd'
      have hfd' : (s.server.socketFdTimerIdMap.erase fd)[fd']? = some id := hfd'
      rw [Std.ExtTreeMap.getElem?_erase] at hfd'
      split at hfd'
      · cases hfd'
      · exact h.1 fd' hfd'
    · have hne : id'' ≠ id := by
        rintro rfl
        exact h.1 fd hid''
      exact (getElem?_erase_ne _ hne).trans h.2
  · rw [hstop]
    exact h

/-- `removeFromSocketList` leaves the timers and the sockets as they are. -/
theorem removeFromSocketList_cases (server : TcpServer) (fd : Int) :
    ∃ socketList indexSet indexMap, (server.removeFromSocketList fd).2 = { server with
      socketList := socketList
      socketListEmptyIndexSet := indexSet
      socketFdIndexMap := indexMap } := by
  unfold removeFromSocketList
  split
  · exact ⟨_, _, _, rfl⟩
  · exact ⟨_, _, _, rfl⟩

/-- `connectionClosed` does to the timers what `stopTimeoutTimer` does, and takes the socket out. -/
theorem connectionClosed_maps (timer : Timer) (server : TcpServer) (fd : Int) :
    (server.connectionClosed timer fd).2.socketFdTimerIdMap
        = (server.stopTimeoutTimer timer fd).2.socketFdTimerIdMap ∧
      (server.connectionClosed timer fd).2.timerIdSocketFdMap
        = (server.stopTimeoutTimer timer fd).2.timerIdSocketFdMap ∧
      ∀ fd' : Int, fd' ∈ (server.connectionClosed timer fd).2.activeConnections ↔
        fd ≠ fd' ∧ fd' ∈ server.activeConnections := by
  obtain ⟨socketList, indexSet, indexMap, hremoved⟩ := removeFromSocketList_cases server fd
  have hkeys : ∀ fd' : Int, fd' ∈ server.activeConnections.erase fd ↔
      fd ≠ fd' ∧ fd' ∈ server.activeConnections := by
    intro fd'
    rw [mem_erase_iff]
  -- a descriptor without a socket: nothing is erased
  have hinactive : fd ∉ server.activeConnections → ∀ fd' : Int, fd' ∈ server.activeConnections ↔
      fd ≠ fd' ∧ fd' ∈ server.activeConnections := by
    intro hnot fd'
    refine ⟨fun hmem => ⟨?_, hmem⟩, And.right⟩
    rintro rfl
    exact hnot hmem
  unfold connectionClosed
  rw [hremoved]
  unfold stopTimeoutTimer removeFromActiveConnections
  cases hid : server.socketFdTimerIdMap[fd]? with
  | none =>
    simp only [hid, Std.ExtTreeMap.contains_iff_mem]
    split
    · exact ⟨rfl, rfl, hkeys⟩
    · rename_i hnot
      exact ⟨rfl, rfl, hinactive hnot⟩
  | some id =>
    simp only [hid, Std.ExtTreeMap.contains_iff_mem]
    split
    · split
      · exact ⟨rfl, rfl, hkeys⟩
      · rename_i hnot
        exact ⟨rfl, rfl, hinactive hnot⟩
    · split
      · exact ⟨rfl, rfl, hkeys⟩
      · rename_i hnot
        exact ⟨rfl, rfl, hinactive hnot⟩

/-! ### The operations -/

/-- A connection without a timer gets one with an id that is not in use. -/
theorem startTimeoutTimer_complementary (timer : Timer) {server : TcpServer}
    (h : Complementary server) (hactive : fd ∈ server.activeConnections)
    (hnone : server.socketFdTimerIdMap[fd]? = none)
    (hunused : Unused server (timer.addTimer server.connectionTimeout)) :
    Complementary (server.startTimeoutTimer timer fd) := by
  refine ⟨h.inverse.insert hnone hunused.2, ?_⟩
  intro fd' id hid
  by_cases hfd : fd = fd'
  · rwa [← hfd]
  · refine h.connected fd' id ?_
    rw [← getElem?_insert_ne server.socketFdTimerIdMap (timer.addTimer server.connectionTimeout) hfd]
    exact hid

/-- `addNewConnection` puts a pair of unused ids into both maps, or changes neither. -/
theorem addNewConnection_complementary (h : Complementary s.server) (system : System)
    (hallowed : s.Allowed (.addNewConnection system fd id)) :
    Complementary (s.apply (.addNewConnection system fd id)).server := by
  show Complementary (s.server.addNewConnection (s.timer id) system fd).2
  have hallowed : (s.server.addNewConnection (s.timer id) system fd).1 = true →
    Unused s.server id := hallowed
  rcases addNewConnection_cases (s.timer id) system s.server fd with
    ⟨-, hrun⟩ | ⟨i, -, ⟨-, hrun⟩ | ⟨hinactive, readBufferSize, hrun⟩⟩
  · rw [hrun]
    exact h
  · rw [hrun]
    exact h.congr rfl rfl fun _ hmem => hmem
  · rw [hrun] at hallowed ⊢
    refine startTimeoutTimer_complementary _ ?_ ?_ (h.no_timer hinactive) (hallowed rfl)
    · refine h.congr rfl rfl fun fd' hmem => ?_
      exact Std.ExtTreeMap.mem_insert.mpr (Or.inr hmem)
    · exact Std.ExtTreeMap.mem_insert_self

/-- `newIncomingData` keeps the maps inverse exactly if the client's timer is pending. Otherwise the
old id is left behind and still points to the descriptor. -/
theorem newIncomingData_complementary_iff (h : Complementary s.server) (system : System)
    (hallowed : s.Allowed (.newIncomingData system fd id)) :
    Complementary (s.apply (.newIncomingData system fd id)).server ↔
      s.Timely (.newIncomingData system fd id) := by
  show Complementary (s.server.newIncomingData (s.timer id) system fd).2 ↔
    (fd ∈ s.server.activeConnections → s.StillPending fd)
  have hallowed : (s.server.newIncomingData (s.timer id) system fd).1 = true →
    Unused (s.server.stopTimeoutTimer (s.timer id) fd).2 id := hallowed
  rcases newIncomingData_cases (s.timer id) system s.server fd with
    ⟨hnone, hrun⟩ | ⟨connection, hconnection, hrun⟩
  · have hinactive : fd ∉ s.server.activeConnections := by
      rw [Std.ExtTreeMap.mem_iff_isSome_getElem?, hnone]
      exact Bool.false_ne_true
    rw [hrun]
    exact iff_of_true h fun hactive => absurd hactive hinactive
  · have hactive : fd ∈ s.server.activeConnections :=
      Std.ExtTreeMap.mem_iff_isSome_getElem?.mpr (by rw [hconnection]; rfl)
    rw [hrun] at hallowed ⊢
    have hunused := hallowed rfl
    have hkeep : ∀ socket (fd' : Int), fd' ∈ s.server.activeConnections →
        fd' ∈ s.server.activeConnections.insert fd socket :=
      fun _ _ hmem => Std.ExtTreeMap.mem_insert.mpr (Or.inr hmem)
    rcases stopTimeoutTimer_spec s fd id with
      ⟨hpending, hid, hstop⟩ | ⟨id', hpending, hid, hstop⟩ | ⟨id', hexpired, hid, hstop⟩
    · rw [hstop] at hunused ⊢
      refine iff_of_true (startTimeoutTimer_complementary _ ?_ Std.ExtTreeMap.mem_insert_self
        hid hunused) fun _ => hpending
      exact h.congr rfl rfl (hkeep _)
    · rw [hstop] at hunused ⊢
      refine iff_of_true (startTimeoutTimer_complementary _ ⟨h.inverse.erase hid, ?_⟩
        Std.ExtTreeMap.mem_insert_self Std.ExtTreeMap.getElem?_erase_self hunused) fun _ => hpending
      intro fd' id'' hid'
      have hne : fd ≠ fd' := by
        rintro rfl
        exact nomatch Std.ExtTreeMap.getElem?_erase_self.symm.trans hid'
      refine hkeep _ fd' (h.connected fd' id'' ?_)
      rw [← getElem?_erase_ne s.server.socketFdTimerIdMap hne]
      exact hid'
    -- the entry of the old timer stays in the map of the ids
    · rw [hstop] at hunused ⊢
      refine iff_of_false (fun hcomplementary => ?_) fun htimely => hexpired (htimely hactive)
      refine h.inverse.not_insert hid ?_ hcomplementary.inverse
      rintro rfl
      exact hunused.1 fd hid

/-- `connectionClosed` keeps the maps inverse exactly if the client's timer is pending. Otherwise a
descriptor that is no connection stays in them. -/
theorem connectionClosed_complementary_iff (h : Complementary s.server) :
    Complementary (s.apply (.connectionClosed fd)).server ↔ s.Timely (.connectionClosed fd) := by
  show Complementary (s.server.connectionClosed (s.timer 0) fd).2 ↔
    (fd ∈ s.server.activeConnections → s.StillPending fd)
  obtain ⟨hids, hfds, hkeys⟩ := connectionClosed_maps (s.timer 0) s.server fd
  have hkeep : ∀ fd' id', fd ≠ fd' → s.server.socketFdTimerIdMap[fd']? = some id' →
      fd' ∈ (s.server.connectionClosed (s.timer 0) fd).2.activeConnections :=
    fun fd' id' hne hid => (hkeys fd').mpr ⟨hne, h.connected fd' id' hid⟩
  rcases stopTimeoutTimer_spec s fd 0 with
    ⟨hpending, hid, hstop⟩ | ⟨id', hpending, hid, hstop⟩ | ⟨id', hexpired, hid, hstop⟩
  · rw [hstop] at hids hfds
    refine iff_of_true ⟨?_, ?_⟩ fun _ => hpending
    · rw [hids, hfds]
      exact h.inverse
    · intro fd' id' hid'
      rw [hids] at hid'
      refine hkeep fd' id' ?_ hid'
      rintro rfl
      exact nomatch hid.symm.trans hid'
  · rw [hstop] at hids hfds
    refine iff_of_true ⟨?_, ?_⟩ fun _ => hpending
    · rw [hids, hfds]
      exact h.inverse.erase hid
    · intro fd' id'' hid'
      rw [hids] at hid'
      have hne : fd ≠ fd' := by
        rintro rfl
        exact nomatch Std.ExtTreeMap.getElem?_erase_self.symm.trans hid'
      refine hkeep fd' id'' hne ?_
      rw [← getElem?_erase_ne s.server.socketFdTimerIdMap hne]
      exact hid'
  -- the descriptor stays in the maps and is no connection any more
  · rw [hstop] at hids
    refine iff_of_false (fun hcomplementary => ?_) fun htimely =>
      hexpired (htimely (h.connected fd id' hid))
    have hmem := hcomplementary.connected fd id' (by rw [hids]; exact hid)
    exact ((hkeys fd).mp hmem).1 rfl

/-- An operation keeps the maps complementary exactly if it is timely. -/
theorem apply_complementary_iff (h : Complementary s.server) {operation : Operation}
    (hallowed : s.Allowed operation) :
    Complementary (s.apply operation).server ↔ s.Timely operation := by
  cases operation with
  | addNewConnection system fd id =>
    exact iff_of_true (addNewConnection_complementary h system hallowed) trivial
  | newIncomingData system fd id => exact newIncomingData_complementary_iff h system hallowed
  | connectionClosed fd => exact connectionClosed_complementary_iff h
  | expire id => exact iff_of_true h trivial

/-! ### Runs -/

/-- The server before the loop of `run`. -/
def Starts (s : Watched) : Prop :=
  ∃ serverSD n connectionTimeout readBufferSize,
    s = ⟨setUp serverSD n connectionTimeout readBufferSize, ∅⟩

/-- A server without clients has no timers. -/
theorem starts_complementary (h : Starts s) : Complementary s.server := by
  obtain ⟨serverSD, n, connectionTimeout, readBufferSize, rfl⟩ := h
  refine ⟨inverse_empty, fun fd id hid => ?_⟩
  exact nomatch Std.ExtTreeMap.getElem?_empty.symm.trans hid

/-- The run lemma: timely operations keep the two maps inverse. -/
theorem complementary_of_reachable (h : Reachable Starts TimelyStep s) :
    Complementary s.server := by
  refine h.invariant (P := fun s => Complementary s.server) (fun _ => starts_complementary) ?_
  rintro s t - hs ⟨operation, hallowed, htimely, rfl⟩
  exact (apply_complementary_iff hs hallowed).mpr htimely

/-- In a run of timely operations, one more operation leaves the maps complementary exactly if it
is timely. -/
theorem complementary_iff (h : Reachable Starts TimelyStep s) {operation : Operation}
    (hallowed : s.Allowed operation) :
    Complementary (s.apply operation).server ↔ s.Timely operation :=
  apply_complementary_iff (complementary_of_reachable h) hallowed

end

/-! ### A timer that expires -/

/-- A server with two places, on which nothing has happened yet. -/
def fresh : Watched := ⟨setUp 3 2 1000 0, ∅⟩

/-- `fresh` is a server without clients. -/
theorem fresh_starts : Starts fresh := ⟨3, 2, 1000, 0, rfl⟩

/-- The first connection, with the descriptor 7 and the timer 0. -/
def firstConnection : Operation :=
  .addNewConnection ⟨fun _ => [], 1024, ⟨true, none⟩, []⟩ 7 0

/-- The first connection gets an id that is not in use. -/
theorem firstConnection_allowed : fresh.Allowed firstConnection := by
  intro _
  refine ⟨fun fd hid => ?_, Std.ExtTreeMap.getElem?_empty⟩
  exact nomatch Std.ExtTreeMap.getElem?_empty.symm.trans hid

/-- What the first connection puts into the tables. -/
theorem firstConnection_spec :
    (fresh.apply firstConnection).server.socketFdTimerIdMap
        = (∅ : Std.ExtTreeMap Int UInt16).insert 7 0 ∧
      (fresh.apply firstConnection).server.timerIdSocketFdMap
        = (∅ : Std.ExtTreeMap UInt16 Int).insert 0 7 ∧
      (7 : Int) ∈ (fresh.apply firstConnection).server.activeConnections := by
  rcases addNewConnection_cases (fresh.timer 0) ⟨fun _ => [], 1024, ⟨true, none⟩, []⟩
    fresh.server 7 with ⟨hempty, -⟩ | ⟨i, -, ⟨hactive, -⟩ | ⟨-, readBufferSize, hrun⟩⟩
  · have hnot := Std.ExtTreeSet.eq_empty_iff_forall_not_mem.mp hempty 1
    exact absurd (by simp [fresh, setUp]) hnot
  · exact absurd hactive Std.ExtTreeMap.not_mem_empty
  · have hserver : (fresh.apply firstConnection).server = (fresh.server.addNewConnection
      (fresh.timer 0) ⟨fun _ => [], 1024, ⟨true, none⟩, []⟩ 7).2 := rfl
    rw [hserver, hrun]
    exact ⟨rfl, rfl, Std.ExtTreeMap.mem_insert_self⟩

/-- The timer of the first connection is pending, and no other one. -/
theorem firstConnection_pending_eq : (fresh.apply firstConnection).pending = insert 0 ∅ := by
  have hpending : (fresh.apply firstConnection).pending = if (fresh.server.addNewConnection
      (fresh.timer 0) ⟨fun _ => [], 1024, ⟨true, none⟩, []⟩ 7).1 then insert 0 ∅ else ∅ := rfl
  rcases addNewConnection_cases (fresh.timer 0) ⟨fun _ => [], 1024, ⟨true, none⟩, []⟩
    fresh.server 7 with ⟨hempty, -⟩ | ⟨i, -, ⟨hactive, -⟩ | ⟨-, readBufferSize, hrun⟩⟩
  · have hnot := Std.ExtTreeSet.eq_empty_iff_forall_not_mem.mp hempty 1
    exact absurd (by simp [fresh, setUp]) hnot
  · exact absurd hactive Std.ExtTreeMap.not_mem_empty
  · rw [hpending, hrun, if_pos rfl]

/-- The timer of the first connection is pending. -/
theorem firstConnection_pending : (0 : UInt16) ∈ (fresh.apply firstConnection).pending := by
  rw [firstConnection_pending_eq]
  exact Finset.mem_insert_self 0 ∅

/-- Other ids are not in use. -/
theorem firstConnection_unused {id : UInt16} (hid : id ≠ 0) :
    Unused (fresh.apply firstConnection).server id := by
  obtain ⟨hids, hfds, -⟩ := firstConnection_spec
  constructor
  · intro fd hfd
    rw [hids, Std.ExtTreeMap.getElem?_insert] at hfd
    split at hfd
    · exact hid (Option.some.inj hfd).symm
    · exact nomatch Std.ExtTreeMap.getElem?_empty.symm.trans hfd
  · rw [hfds, getElem?_insert_ne _ _ (Ne.symm hid)]
    exact Std.ExtTreeMap.getElem?_empty

/-- Five bytes of the first connection, and the timer 1. -/
def firstData : Operation :=
  .newIncomingData ⟨fun _ => [], 1024, ⟨true, none⟩, [.data hello]⟩ 7 1

/-- So the client's timer has not expired. -/
theorem firstConnection_stillPending : (fresh.apply firstConnection).StillPending 7 := by
  intro id hid
  rw [firstConnection_spec.1, Std.ExtTreeMap.getElem?_insert_self] at hid
  rw [← Option.some.inj hid]
  exact firstConnection_pending

/-- The result for data that come while the timer of their client is pending. -/
theorem complementary_firstData : (0 : UInt16) ∈ (fresh.apply firstConnection).pending ∧
    Complementary ((fresh.apply firstConnection).apply firstData).server := by
  have hadded : Reachable Starts TimelyStep (fresh.apply firstConnection) :=
    .step (.start fresh_starts) ⟨firstConnection, firstConnection_allowed, trivial, rfl⟩
  have hallowed : (fresh.apply firstConnection).Allowed firstData :=
    fun _ => (firstConnection_unused (by decide)).stop 7 1
  exact ⟨firstConnection_pending,
    (complementary_iff hadded hallowed).mpr fun _ => firstConnection_stillPending⟩

/-- The timer of a client expires and then its data come: the old id still points to it. -/
theorem expired_timer_leaves_entry :
    ¬∀ s operation, Reachable Starts (fun s t => ∃ operation, s.Allowed operation ∧
        t = s.apply operation) s →
      s.Allowed operation → Complementary (s.apply operation).server := by
  intro h
  obtain ⟨hids, -, hactive⟩ := firstConnection_spec
  have hunused : Unused (fresh.apply firstConnection).server 1 := firstConnection_unused (by decide)
  have hadded : Reachable Starts (fun s t => ∃ operation, s.Allowed operation ∧
      t = s.apply operation) (fresh.apply firstConnection) :=
    .step (.start fresh_starts) ⟨firstConnection, firstConnection_allowed, rfl⟩
  have hexpired := hadded.step ⟨.expire 0, trivial, rfl⟩
  have hcomplementary := h _ (.expire 0) hadded trivial
  generalize (fresh.apply firstConnection) = s at *
  have hid : (s.apply (.expire 0)).server.socketFdTimerIdMap[(7 : Int)]? = some 0 := by
    show s.server.socketFdTimerIdMap[(7 : Int)]? = some 0
    rw [hids]
    exact Std.ExtTreeMap.getElem?_insert_self
  have hlate : ¬(s.apply (.expire 0)).StillPending 7 := by
    intro hpending
    exact Finset.notMem_erase 0 s.pending (hpending 0 hid)
  -- the id 1 is in use nowhere
  have hallowed : (s.apply (.expire 0)).Allowed
      (.newIncomingData ⟨fun _ => [], 1024, ⟨true, none⟩, []⟩ 7 1) :=
    fun _ => Unused.stop (s := s.apply (.expire 0)) hunused 7 1
  exact hlate ((newIncomingData_complementary_iff hcomplementary _ hallowed).mp
    (h _ _ hexpired hallowed) hactive)

end Brutils.Proofs.Tcp
