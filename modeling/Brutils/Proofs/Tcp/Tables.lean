import Brutils.Lib.InverseMaps
import Brutils.Lib.Transition
import Brutils.Tcp.Server

/-!
# `Brutils.Proofs.Tcp.Tables`: the socket tables of the server agree

The place of a descriptor is stored in `socketFdIndexMap` and once more in the array for
`::poll`, and the free places are stored in `socketListEmptyIndexSet` and once more as `-1`
in that array. `Consistent` ties the four tables together. It asks of every pair of the map
and of every free place what the array holds there, and from that the rest follows: the map
is injective because the array holds one descriptor at each place, and no place is both free
and used.

The invariant is kept by taking a place (`addNewConnection_consistent`) and by giving one
back (`connectionClosed_consistent`). The timer maps and the sockets themselves do not
matter to it (`Consistent.congr`). `tables_agree` is the result for every run.
-/

set_option autoImplicit false

namespace Brutils.Proofs.Tcp

open InverseMaps
open Transition (Reachable)
open Brutils.TcpServer

/-- The descriptor at a place of the array. -/
def fdAt (server : TcpServer) (i : Nat) : Option Int := server.socketList[i]?.map PollFd.fd

/-- The invariant of the tables of a server with `n` places. -/
structure Consistent (n : Nat) (serverSD : Int) (server : TcpServer) : Prop where
  size : server.socketList.length = n
  first : fdAt server 0 = some serverSD
  free : ∀ i ∈ server.socketListEmptyIndexSet, 1 ≤ i ∧ i < n ∧ fdAt server i = some (-1)
  used : ∀ (fd : Int) (i : Nat), server.socketFdIndexMap[fd]? = some i →
    1 ≤ i ∧ i < n ∧ 0 < fd ∧ fdAt server i = some fd
  covered : ∀ i, 1 ≤ i → i < n → i ∈ server.socketListEmptyIndexSet ∨
    ∃ fd : Int, server.socketFdIndexMap[fd]? = some i
  keys : ∀ fd : Int, fd ∈ server.activeConnections ↔ fd ∈ server.socketFdIndexMap

section
variable {n : Nat} {serverSD : Int} {server server' : TcpServer}

/-- The invariant depends on the four tables only, and of the sockets on their keys. -/
theorem Consistent.congr (h : Consistent n serverSD server)
    (hlist : server'.socketList = server.socketList)
    (hempty : server'.socketListEmptyIndexSet = server.socketListEmptyIndexSet)
    (hindex : server'.socketFdIndexMap = server.socketFdIndexMap)
    (hkeys : ∀ fd : Int, fd ∈ server'.activeConnections ↔ fd ∈ server.activeConnections) :
    Consistent n serverSD server' := by
  have hfd : ∀ i, fdAt server' i = fdAt server i := by
    intro i
    rw [fdAt, fdAt, hlist]
  constructor
  · rw [hlist]
    exact h.size
  · rw [hfd]
    exact h.first
  · intro i hi
    rw [hempty] at hi
    rw [hfd]
    exact h.free i hi
  · intro fd i hi
    rw [hindex] at hi
    rw [hfd]
    exact h.used fd i hi
  · intro i hpos hlt
    rw [hempty, hindex]
    exact h.covered i hpos hlt
  · intro fd
    rw [hkeys, hindex]
    exact h.keys fd

/-- Two descriptors do not share a place. -/
theorem Consistent.injective (h : Consistent n serverSD server) {fd fd' : Int} {i : Nat}
    (hfd : server.socketFdIndexMap[fd]? = some i) (hfd' : server.socketFdIndexMap[fd']? = some i) :
    fd = fd' := by
  obtain ⟨-, -, -, hat⟩ := h.used fd i hfd
  obtain ⟨-, -, -, hat'⟩ := h.used fd' i hfd'
  rw [hat] at hat'
  exact Option.some.inj hat'

/-- A used place is not free. -/
theorem Consistent.not_free (h : Consistent n serverSD server) {fd : Int} {i : Nat}
    (hfd : server.socketFdIndexMap[fd]? = some i) : i ∉ server.socketListEmptyIndexSet := by
  intro hfree
  obtain ⟨-, -, hpos, hat⟩ := h.used fd i hfd
  obtain ⟨-, -, hat'⟩ := h.free i hfree
  -- a free place holds `-1`, and a used one a positive descriptor
  rw [hat] at hat'
  have hfd := Option.some.inj hat'
  omega

/-- The array after a write at the place `i`. -/
theorem fdAt_modify {i : Nat} (f : PollFd → PollFd) (hi : i < server.socketList.length)
    (hlist : server'.socketList = server.socketList.modify i f) (j : Nat) :
    fdAt server' j = if i = j then some (f server.socketList[i]).fd else fdAt server j := by
  rw [fdAt, hlist, List.getElem?_modify]
  by_cases hij : i = j
  · subst hij
    simp [hi]
  · simp [hij, fdAt]

/-- A free place is taken. -/
theorem Consistent.take (h : Consistent n serverSD server) {fd : Int} {i : Nat}
    (hpos : 0 < fd) (hnew : fd ∉ server.socketFdIndexMap)
    (hfree : i ∈ server.socketListEmptyIndexSet)
    (hlist : server'.socketList = server.socketList.modify i fun _ => ⟨fd, pollIn⟩)
    (hempty : server'.socketListEmptyIndexSet = server.socketListEmptyIndexSet.erase i)
    (hindex : server'.socketFdIndexMap = server.socketFdIndexMap.insert fd i)
    (hkeys : ∀ fd' : Int, fd' ∈ server'.activeConnections ↔ fd' = fd ∨ fd' ∈ server.activeConnections) :
    Consistent n serverSD server' := by
  obtain ⟨hi, hin, -⟩ := h.free i hfree
  have hfd := fdAt_modify (fun _ => ⟨fd, pollIn⟩) (by rw [h.size]; exact hin) hlist
  have hmap : ∀ fd' : Int, server'.socketFdIndexMap[fd']?
      = if fd = fd' then some i else server.socketFdIndexMap[fd']? := by
    intro fd'
    rw [hindex]
    simp [Std.ExtTreeMap.getElem?_insert]
  have hset : ∀ j, j ∈ server'.socketListEmptyIndexSet ↔
      i ≠ j ∧ j ∈ server.socketListEmptyIndexSet := by
    intro j
    rw [hempty]
    simp [Std.ExtTreeSet.mem_erase]
  constructor
  · rw [hlist, List.length_modify]
    exact h.size
  -- the place is not 0, because no free place is
  · rw [hfd, if_neg (by omega)]
    exact h.first
  · intro j hj
    obtain ⟨hij, hj⟩ := (hset j).mp hj
    rw [hfd, if_neg hij]
    exact h.free j hj
  · intro fd' j hj
    rw [hmap] at hj
    by_cases hfd' : fd = fd'
    · subst hfd'
      rw [if_pos rfl] at hj
      obtain rfl := Option.some.inj hj
      rw [hfd, if_pos rfl]
      exact ⟨hi, hin, hpos, rfl⟩
    · rw [if_neg hfd'] at hj
      obtain ⟨hj1, hjn, hpos', hat⟩ := h.used fd' j hj
      -- the other used places are not the one that was free
      have hij : i ≠ j := fun hij => h.not_free hj (hij ▸ hfree)
      rw [hfd, if_neg hij]
      exact ⟨hj1, hjn, hpos', hat⟩
  · intro j hj1 hjn
    by_cases hij : i = j
    · exact Or.inr ⟨fd, by rw [hmap, if_pos rfl, hij]⟩
    · rcases h.covered j hj1 hjn with hj | ⟨fd', hfd'⟩
      · exact Or.inl ((hset j).mpr ⟨hij, hj⟩)
      · have hne : fd ≠ fd' := by
          rintro rfl
          exact hnew (Std.ExtTreeMap.mem_iff_isSome_getElem?.mpr (by rw [hfd']; rfl))
        exact Or.inr ⟨fd', by rw [hmap, if_neg hne]; exact hfd'⟩
  · intro fd'
    rw [hkeys, h.keys, hindex, mem_insert_iff, eq_comm]

/-- A used place is given back. -/
theorem Consistent.giveBack (h : Consistent n serverSD server) {fd : Int} {i : Nat}
    (hused : server.socketFdIndexMap[fd]? = some i)
    (hlist : server'.socketList = server.socketList.modify i fun entry => { entry with fd := -1 })
    (hempty : server'.socketListEmptyIndexSet = server.socketListEmptyIndexSet.insert i)
    (hindex : server'.socketFdIndexMap = server.socketFdIndexMap.erase fd)
    (hkeys : ∀ fd' : Int, fd' ∈ server'.activeConnections ↔
      fd ≠ fd' ∧ fd' ∈ server.activeConnections) :
    Consistent n serverSD server' := by
  obtain ⟨hi, hin, -⟩ := h.used fd i hused
  have hfd := fdAt_modify (fun entry => { entry with fd := -1 }) (by rw [h.size]; exact hin) hlist
  have hmap : ∀ fd' : Int, server'.socketFdIndexMap[fd']?
      = if fd = fd' then none else server.socketFdIndexMap[fd']? := by
    intro fd'
    rw [hindex]
    simp [Std.ExtTreeMap.getElem?_erase]
  have hset : ∀ j, j ∈ server'.socketListEmptyIndexSet ↔
      i = j ∨ j ∈ server.socketListEmptyIndexSet := by
    intro j
    rw [hempty, Std.ExtTreeSet.mem_insert, Std.LawfulEqCmp.compare_eq_iff_eq]
  constructor
  · rw [hlist, List.length_modify]
    exact h.size
  · rw [hfd, if_neg (by omega)]
    exact h.first
  · intro j hj
    rcases (hset j).mp hj with rfl | hj
    · rw [hfd, if_pos rfl]
      exact ⟨hi, hin, rfl⟩
    · have hij : i ≠ j := fun hij => h.not_free hused (hij ▸ hj)
      rw [hfd, if_neg hij]
      exact h.free j hj
  · intro fd' j hj
    rw [hmap] at hj
    by_cases hfd' : fd = fd'
    · rw [if_pos hfd'] at hj
      cases hj
    · rw [if_neg hfd'] at hj
      -- another descriptor has another place
      have hij : i ≠ j := by
        rintro rfl
        exact hfd' (h.injective hused hj)
      rw [hfd, if_neg hij]
      exact h.used fd' j hj
  · intro j hj1 hjn
    by_cases hij : i = j
    · exact Or.inl ((hset j).mpr (Or.inl hij))
    · rcases h.covered j hj1 hjn with hj | ⟨fd', hfd'⟩
      · exact Or.inl ((hset j).mpr (Or.inr hj))
      · have hne : fd ≠ fd' := by
          rintro rfl
          rw [hused] at hfd'
          exact hij (Option.some.inj hfd')
        exact Or.inr ⟨fd', by rw [hmap, if_neg hne]; exact hfd'⟩
  · intro fd'
    rw [hkeys, h.keys, hindex, mem_erase_iff, ne_eq]

/-! ### The operations -/

variable (timer : Timer) (system : System)

/-- A timer is no part of the tables of the connections. -/
theorem startTimeoutTimer_consistent (h : Consistent n serverSD server) (fd : Int) :
    Consistent n serverSD (server.startTimeoutTimer timer fd) :=
  h.congr rfl rfl rfl fun _ => Iff.rfl

/-- `stopTimeoutTimer` writes the two timer maps only. -/
theorem stopTimeoutTimer_cases (server : TcpServer) (fd : Int) :
    ∃ timerIds fds, (server.stopTimeoutTimer timer fd).2
      = { server with socketFdTimerIdMap := timerIds, timerIdSocketFdMap := fds } := by
  unfold stopTimeoutTimer
  split
  · exact ⟨_, _, rfl⟩
  · split
    · exact ⟨_, _, rfl⟩
    · exact ⟨_, _, rfl⟩

/-- A socket is made with the descriptor that it is given. -/
theorem create_socketD (maxSize : Nat) (fd : Int) (status : ConnectionStatus)
    (readBufferSize : Nat) :
    (TcpSocket.create maxSize fd status readBufferSize).socketD = fd := rfl

/-- The server after `addToSocketList` has given the place `i` to `fd`. -/
def withPlace (server : TcpServer) (i : Nat) (fd : Int) : TcpServer :=
  { server with
    socketList := server.socketList.modify i fun _ => ⟨fd, pollIn⟩
    socketFdIndexMap := server.socketFdIndexMap.insert fd i
    socketListEmptyIndexSet := server.socketListEmptyIndexSet.erase i }

/-- A set with a least element is not empty. -/
theorem ne_empty_of_least {indexSet : Std.ExtTreeSet Nat} {i : Nat}
    (hmin : indexSet.min? = some i) : indexSet ≠ ∅ := by
  rintro rfl
  exact Std.ExtTreeSet.not_mem_empty (Std.ExtTreeSet.min?_mem hmin)

/-- What `addNewConnection` does: nothing on a full server. Otherwise the descriptor gets the
first free place, and unless there is a connection under its number it also gets a socket and
a timer. -/
theorem addNewConnection_cases (server : TcpServer) (fd : Int) :
    (server.socketListEmptyIndexSet = ∅ ∧
      server.addNewConnection timer system fd = (false, server)) ∨
    ∃ i, server.socketListEmptyIndexSet.min? = some i ∧
      ((fd ∈ server.activeConnections ∧
        server.addNewConnection timer system fd = (false, withPlace server i fd)) ∨
      (fd ∉ server.activeConnections ∧ ∃ readBufferSize,
        server.addNewConnection timer system fd = (true, startTimeoutTimer timer
          { withPlace server i fd with
            activeConnections := server.activeConnections.insert fd
              (TcpSocket.create system.maxSize fd .connected readBufferSize) } fd))) := by
  by_cases hempty : server.socketListEmptyIndexSet = ∅
  · refine Or.inl ⟨hempty, ?_⟩
    rw [addNewConnection, if_pos (Std.ExtTreeSet.isEmpty_iff.mpr hempty)]
  · obtain ⟨i, hmin⟩ : ∃ i, server.socketListEmptyIndexSet.min? = some i := by
      rw [← Option.ne_none_iff_exists', ne_eq, Std.ExtTreeSet.min?_eq_none_iff]
      exact hempty
    refine Or.inr ⟨i, hmin, ?_⟩
    rw [addNewConnection, if_neg (by rwa [Std.ExtTreeSet.isEmpty_iff])]
    by_cases hactive : fd ∈ server.activeConnections
    · refine Or.inl ⟨hactive, ?_⟩
      simp only [addToSocketList, hmin, addToActiveConnections, create_socketD,
        Std.ExtTreeMap.contains_iff_mem, if_pos hactive, withPlace]
    · refine Or.inr ⟨hactive, if server.readBufferSize > 0 then server.readBufferSize
        else TcpSocket.defaultReadBufferSize, ?_⟩
      simp only [addToSocketList, hmin, addToActiveConnections, create_socketD,
        Std.ExtTreeMap.contains_iff_mem, if_neg hactive, withPlace]

/-- `addNewConnection` on a new descriptor: a server with a free place takes the first one, and
a full server does nothing. -/
theorem addNewConnection_spec (h : Consistent n serverSD server) {fd : Int} (hpos : 0 < fd)
    (hnew : fd ∉ server.socketFdIndexMap) :
    Consistent n serverSD (server.addNewConnection timer system fd).2 ∧
      ((server.addNewConnection timer system fd).1 = false ↔
        server.socketListEmptyIndexSet = ∅) := by
  rcases addNewConnection_cases timer system server fd with
    ⟨hempty, hrun⟩ | ⟨i, hmin, ⟨hactive, -⟩ | ⟨-, readBufferSize, hrun⟩⟩
  · rw [hrun]
    exact ⟨h, iff_of_true rfl hempty⟩
  · exact absurd ((h.keys fd).mp hactive) hnew
  -- the place taken is the least free one
  · have hfree : i ∈ server.socketListEmptyIndexSet := Std.ExtTreeSet.min?_mem hmin
    rw [hrun]
    refine ⟨startTimeoutTimer_consistent timer (h.take hpos hnew hfree rfl rfl rfl ?_) fd,
      iff_of_false (by simp) (ne_empty_of_least hmin)⟩
    intro fd'
    rw [mem_insert_iff, eq_comm]

/-- What `newIncomingData` does: nothing without a connection. Otherwise the timer is stopped, the
socket reads, and the timer is started. -/
theorem newIncomingData_cases (server : TcpServer) (fd : Int) :
    (server.activeConnections[fd]? = none ∧
      server.newIncomingData timer system fd = (false, server)) ∨
    ∃ connection, server.activeConnections[fd]? = some connection ∧
      server.newIncomingData timer system fd = (true, startTimeoutTimer timer
        { (server.stopTimeoutTimer timer fd).2 with
          activeConnections := server.activeConnections.insert fd
            (connection.readFromSocket system.strerror system.closeAnswer system.outcomes).2 } fd) := by
  obtain ⟨timerIds, fds, hstop⟩ := stopTimeoutTimer_cases timer server fd
  unfold newIncomingData
  cases hconnection : server.activeConnections[fd]? with
  | none => exact Or.inl ⟨rfl, rfl⟩
  | some connection =>
    refine Or.inr ⟨connection, rfl, ?_⟩
    simp only [hstop]

/-- `newIncomingData` writes the timer maps, and the socket under a key that is there. -/
theorem newIncomingData_consistent (h : Consistent n serverSD server) (fd : Int) :
    Consistent n serverSD (server.newIncomingData timer system fd).2 := by
  rcases newIncomingData_cases timer system server fd with ⟨-, hrun⟩ | ⟨connection, hconnection, hrun⟩
  · rw [hrun]
    exact h
  · have hmem : fd ∈ server.activeConnections :=
      Std.ExtTreeMap.mem_iff_isSome_getElem?.mpr (by rw [hconnection]; rfl)
    obtain ⟨timerIds, fds, hstop⟩ := stopTimeoutTimer_cases timer server fd
    rw [hrun, hstop]
    refine h.congr rfl rfl rfl fun fd' => ?_
    show fd' ∈ server.activeConnections.insert fd _ ↔ _
    rw [mem_insert_iff]
    exact ⟨fun hfd' => hfd'.elim (fun heq => heq ▸ hmem) id, Or.inr⟩

/-- `connectionClosed` gives the place back, if the descriptor has one. -/
theorem connectionClosed_consistent (h : Consistent n serverSD server) (fd : Int) :
    Consistent n serverSD (server.connectionClosed timer fd).2 := by
  cases hindex : server.socketFdIndexMap[fd]? with
  | none =>
    -- without an index there is no connection either, so nothing but the timer maps changes
    have hunused : fd ∉ server.socketFdIndexMap := by
      rw [Std.ExtTreeMap.mem_iff_isSome_getElem?, hindex]
      exact Bool.false_ne_true
    have hinactive : fd ∉ server.activeConnections := by rwa [h.keys]
    obtain ⟨timerIds, fds, hstop⟩ := stopTimeoutTimer_cases timer server fd
    have hrun : (server.connectionClosed timer fd).2
        = { server with socketFdTimerIdMap := timerIds, timerIdSocketFdMap := fds } := by
      simp only [connectionClosed, removeFromSocketList, hindex, hstop, removeFromActiveConnections,
        Std.ExtTreeMap.contains_iff_mem, if_neg hinactive]
    rw [hrun]
    exact h.congr rfl rfl rfl fun _ => Iff.rfl
  | some i =>
    have hused : fd ∈ server.socketFdIndexMap :=
      Std.ExtTreeMap.mem_iff_isSome_getElem?.mpr (by rw [hindex]; rfl)
    -- with an index there is a connection, and all four tables change together
    have hactive : fd ∈ server.activeConnections := by rwa [h.keys]
    have hstop := stopTimeoutTimer_cases timer { server with
      socketList := server.socketList.modify i fun entry => { entry with fd := -1 }
      socketListEmptyIndexSet := server.socketListEmptyIndexSet.insert i
      socketFdIndexMap := server.socketFdIndexMap.erase fd } fd
    obtain ⟨timerIds, fds, hstop⟩ := hstop
    have hrun : (server.connectionClosed timer fd).2
        = { server with
            socketList := server.socketList.modify i fun entry => { entry with fd := -1 }
            socketListEmptyIndexSet := server.socketListEmptyIndexSet.insert i
            socketFdIndexMap := server.socketFdIndexMap.erase fd
            socketFdTimerIdMap := timerIds
            timerIdSocketFdMap := fds
            activeConnections := server.activeConnections.erase fd } := by
      simp only [connectionClosed, removeFromSocketList, hindex, hstop, removeFromActiveConnections,
        Std.ExtTreeMap.contains_iff_mem, if_pos hactive]
    rw [hrun]
    refine h.giveBack hindex rfl rfl rfl fun fd' => ?_
    rw [mem_erase_iff]

end

/-! ### Runs -/

/-- A call on the tables. `addNewConnection` is for a positive descriptor that is not
registered. -/
inductive Call (server : TcpServer) : TcpServer → Prop
  | addNewConnection (timer : Timer) (system : System) (fd : Int) (hpos : 0 < fd)
      (hnew : fd ∉ server.socketFdIndexMap) :
      Call server (server.addNewConnection timer system fd).2
  | newIncomingData (timer : Timer) (system : System) (fd : Int) :
      Call server (server.newIncomingData timer system fd).2
  | connectionClosed (timer : Timer) (fd : Int) : Call server (server.connectionClosed timer fd).2

/-- The members after a list has been put in. -/
theorem mem_foldl_insert (l : List Nat) (indexSet : Std.ExtTreeSet Nat) (i : Nat) :
    i ∈ l.foldl (fun indexSet j => indexSet.insert j) indexSet ↔ i ∈ l ∨ i ∈ indexSet := by
  induction l generalizing indexSet with
  | nil => simp
  | cons j l ih =>
    rw [List.foldl_cons, ih, Std.ExtTreeSet.mem_insert, Std.LawfulEqCmp.compare_eq_iff_eq,
      List.mem_cons]
    constructor
    · rintro (hi | rfl | hi)
      · exact Or.inl (Or.inr hi)
      · exact Or.inl (Or.inl rfl)
      · exact Or.inr hi
    · rintro ((rfl | hi) | hi)
      · exact Or.inr (Or.inl rfl)
      · exact Or.inl hi
      · exact Or.inr (Or.inr hi)

/-- The size after a list of new members has been put in. -/
theorem size_foldl_insert {l : List Nat} (hnodup : l.Nodup) (indexSet : Std.ExtTreeSet Nat)
    (hnew : ∀ i ∈ l, i ∉ indexSet) :
    (l.foldl (fun indexSet j => indexSet.insert j) indexSet).size = indexSet.size + l.length := by
  induction l generalizing indexSet with
  | nil => rfl
  | cons j l ih =>
    obtain ⟨hj, hnodup⟩ := List.nodup_cons.mp hnodup
    obtain ⟨hjnew, hnew⟩ := List.forall_mem_cons.mp hnew
    rw [List.foldl_cons, ih hnodup, Std.ExtTreeSet.size_insert,
      if_neg (mt Std.ExtTreeSet.contains_iff_mem.mp hjnew), List.length_cons]
    · omega
    · intro i hi
      rw [Std.ExtTreeSet.mem_insert, Std.LawfulEqCmp.compare_eq_iff_eq]
      rintro (rfl | hmem)
      · exact hj hi
      · exact hnew i hi hmem

/-- All places but the first are free before the loop of `run`. -/
theorem setUp_size (serverSD : Int) (n connectionTimeout readBufferSize : Nat) :
    (setUp serverSD n connectionTimeout readBufferSize).socketListEmptyIndexSet.size = n - 1 := by
  rw [setUp, size_foldl_insert List.nodup_range' _ fun _ _ => Std.ExtTreeSet.not_mem_empty,
    Std.ExtTreeSet.size_empty, List.length_range', Nat.zero_add]

/-- So a server with places for clients has a free one. -/
theorem setUp_free (serverSD : Int) {n : Nat} (hn : 2 ≤ n) (connectionTimeout readBufferSize : Nat) :
    (setUp serverSD n connectionTimeout readBufferSize).socketListEmptyIndexSet ≠ ∅ := by
  rw [ne_eq, Std.ExtTreeSet.eq_empty_iff_size_eq_zero, setUp_size]
  omega

/-- The tables before the loop of `run`. -/
theorem setUp_consistent (serverSD : Int) (n connectionTimeout readBufferSize : Nat) (hn : 1 ≤ n) :
    Consistent n serverSD (setUp serverSD n connectionTimeout readBufferSize) := by
  have hset : ∀ i, i ∈ (setUp serverSD n connectionTimeout readBufferSize).socketListEmptyIndexSet ↔
      1 ≤ i ∧ i < n := by
    intro i
    rw [setUp, mem_foldl_insert, List.mem_range'_1]
    simp only [Std.ExtTreeSet.not_mem_empty, or_false]
    omega
  have hfd : ∀ i, 1 ≤ i → i < n →
      fdAt (setUp serverSD n connectionTimeout readBufferSize) i = some (-1) := by
    intro i hi hin
    obtain ⟨i, rfl⟩ := Nat.exists_eq_add_of_le' hi
    have hlt : i < n - 1 := by omega
    simp [fdAt, setUp, hlt]
  constructor
  · simp only [setUp, List.length_cons, List.length_replicate]
    omega
  · rfl
  · intro i hi
    obtain ⟨hi, hin⟩ := (hset i).mp hi
    exact ⟨hi, hin, hfd i hi hin⟩
  · intro fd i hi
    simp [setUp] at hi
  · intro i hi hin
    exact Or.inl ((hset i).mpr ⟨hi, hin⟩)
  · intro fd
    simp [setUp]

/-- The tables of a server with `n` places, as they look from outside. -/
structure TablesAgree (n : Nat) (serverSD : Int) (server : TcpServer) : Prop where
  keys : ∀ fd : Int, fd ∈ server.activeConnections ↔ fd ∈ server.socketFdIndexMap
  injective : ∀ (fd fd' : Int) (i : Nat), server.socketFdIndexMap[fd]? = some i →
    server.socketFdIndexMap[fd']? = some i → fd = fd'
  covers : ∀ i, (i ∈ server.socketListEmptyIndexSet ∨
    ∃ fd : Int, server.socketFdIndexMap[fd]? = some i) ↔ 1 ≤ i ∧ i < n
  disjoint : ∀ (fd : Int) (i : Nat), server.socketFdIndexMap[fd]? = some i →
    i ∉ server.socketListEmptyIndexSet
  usedPlace : ∀ i, 1 ≤ i → i < n → ∀ fd, 0 < fd →
    (fdAt server i = some fd ↔ server.socketFdIndexMap[fd]? = some i)
  freePlace : ∀ i, 1 ≤ i → i < n →
    (fdAt server i = some (-1) ↔ i ∈ server.socketListEmptyIndexSet)
  serverPlace : fdAt server 0 = some serverSD
  refuses : ∀ (timer : Timer) (system : System) (fd : Int), 0 < fd →
    fd ∉ server.socketFdIndexMap →
    ((server.addNewConnection timer system fd).1 = false ↔
      ∀ i, 1 ≤ i → i < n → ∃ fd' : Int, server.socketFdIndexMap[fd']? = some i)

/-- The invariant says everything about the tables. -/
theorem Consistent.tablesAgree {n : Nat} {serverSD : Int} {server : TcpServer}
    (h : Consistent n serverSD server) : TablesAgree n serverSD server where
  keys := h.keys
  injective _ _ _ := h.injective
  covers i := by
    constructor
    · rintro (hi | ⟨fd, hfd⟩)
      · obtain ⟨hi1, hin, -⟩ := h.free i hi
        exact ⟨hi1, hin⟩
      · obtain ⟨hi1, hin, -⟩ := h.used fd i hfd
        exact ⟨hi1, hin⟩
    · rintro ⟨hi1, hin⟩
      exact h.covered i hi1 hin
  disjoint _ _ := h.not_free
  usedPlace i hi1 hin fd hpos := by
    constructor
    · intro hat
      rcases h.covered i hi1 hin with hi | ⟨fd', hfd'⟩
      · -- a free place holds -1, and descriptors are positive
        obtain ⟨-, -, hat'⟩ := h.free i hi
        rw [hat] at hat'
        have hfd := Option.some.inj hat'
        omega
      · obtain ⟨-, -, -, hat'⟩ := h.used fd' i hfd'
        rw [hat] at hat'
        rwa [Option.some.inj hat']
    · intro hfd
      exact (h.used fd i hfd).2.2.2
  freePlace i hi1 hin := by
    constructor
    · intro hat
      rcases h.covered i hi1 hin with hi | ⟨fd, hfd⟩
      · exact hi
      · obtain ⟨-, -, hpos, hat'⟩ := h.used fd i hfd
        rw [hat] at hat'
        have hfd := Option.some.inj hat'
        omega
    · intro hi
      exact (h.free i hi).2.2
  serverPlace := h.first
  refuses timer system fd hpos hnew := by
    rw [(addNewConnection_spec timer system h hpos hnew).2]
    constructor
    · intro hempty i hi1 hin
      refine (h.covered i hi1 hin).resolve_left fun hi => ?_
      rw [hempty] at hi
      exact Std.ExtTreeSet.not_mem_empty hi
    · -- no place is free if each of them is some descriptor's
      intro hfull
      by_contra hne
      obtain ⟨i, hi⟩ : ∃ i, i ∈ server.socketListEmptyIndexSet := by
        by_contra hnone
        exact hne (Std.ExtTreeSet.eq_empty_iff_forall_not_mem.mpr (not_exists.mp hnone))
      obtain ⟨hi1, hin, -⟩ := h.free i hi
      obtain ⟨fd', hfd'⟩ := hfull i hi1 hin
      exact h.not_free hfd' hi

/-- Every call keeps the invariant. -/
theorem call_consistent {n : Nat} {serverSD : Int} {server server' : TcpServer}
    (h : Consistent n serverSD server) (hcall : Call server server') :
    Consistent n serverSD server' := by
  cases hcall with
  | addNewConnection timer system fd hpos hnew =>
    exact (addNewConnection_spec timer system h hpos hnew).1
  | newIncomingData timer system fd => exact newIncomingData_consistent timer system h fd
  | connectionClosed timer fd => exact connectionClosed_consistent timer h fd

/-- In every state that calls lead to from the tables that `run` sets up, the tables agree. -/
theorem tables_agree {serverSD : Int} {n connectionTimeout readBufferSize : Nat} (hn : 1 ≤ n)
    {server : TcpServer}
    (h : Reachable (· = setUp serverSD n connectionTimeout readBufferSize) Call server) :
    TablesAgree n serverSD server := by
  have hconsistent : Consistent n serverSD server := by
    refine h.invariant ?_ fun s t _ hs hcall => call_consistent hs hcall
    rintro s rfl
    exact setUp_consistent serverSD n connectionTimeout readBufferSize hn
  exact hconsistent.tablesAgree

/-- `addNewConnection` registers no descriptor but the one that it is given. -/
theorem mem_of_addNewConnection {timer : Timer} {system : System} {server : TcpServer}
    {fd fd' : Int} (h : fd' ∈ (server.addNewConnection timer system fd).2.socketFdIndexMap) :
    fd' = fd ∨ fd' ∈ server.socketFdIndexMap := by
  rcases addNewConnection_cases timer system server fd with
    ⟨-, hrun⟩ | ⟨i, -, ⟨-, hrun⟩ | ⟨-, readBufferSize, hrun⟩⟩
  · rw [hrun] at h
    exact Or.inr h
  · rw [hrun] at h
    exact ((mem_insert_iff _ i).mp h).imp_left Eq.symm
  · rw [hrun] at h
    exact ((mem_insert_iff _ i).mp h).imp_left Eq.symm

/-- A timer that gives out the id `id`. -/
def timerWith (id : UInt16) : Timer := ⟨fun _ => id, fun _ => true⟩

/-- Five bytes that are received. -/
def hello : TcpSocket.Chunk := ⟨"hello".toList, by decide, by decide⟩

/-- A system on which closing succeeds and nothing is received. -/
def quietSystem : System := ⟨fun _ => [], 1024, ⟨true, none⟩, []⟩

/-- The result for two connections on a server with three places. The second one has data, and then
the first one is closed. -/
theorem tables_agree_after_close :
    TablesAgree 3 3 (((((setUp 3 3 1000 0).addNewConnection (timerWith 0) quietSystem 7).2
      |>.addNewConnection (timerWith 1) quietSystem 9).2
      |>.newIncomingData (timerWith 2) quietSystem 9).2 |>.connectionClosed (timerWith 2) 7).2 := by
  have hnone : ∀ fd : Int, fd ∉ (setUp 3 3 1000 0).socketFdIndexMap := by
    intro fd
    simp [setUp]
  have hstart : Reachable (· = setUp 3 3 1000 0) Call (setUp 3 3 1000 0) := .start rfl
  have hfirst := hstart.step
    (.addNewConnection (timerWith 0) quietSystem 7 (by decide) (hnone 7))
  have hsecond := hfirst.step (.addNewConnection (timerWith 1) quietSystem 9 (by decide) fun hmem =>
    (mem_of_addNewConnection hmem).elim (by decide) (hnone 9))
  have hread := hsecond.step (.newIncomingData (timerWith 2) quietSystem 9)
  exact tables_agree (by decide) (hread.step (.connectionClosed (timerWith 2) 7))

end Brutils.Proofs.Tcp
