import Brutils.Proofs.Tcp.PollRound
import Brutils.Tcp.Ownership
import Mathlib.Data.List.Nodup
import Mathlib.Data.List.Perm.Subperm

/-!
# `Brutils.Proofs.Tcp.Registration`: what becomes of a connection that is refused

`addNewConnection` registers a descriptor in steps: a place in the array, a socket, a timer. It
can refuse at two points. Before the first step, on a full server, it leaves everything as
it was. After the first step, when there is a socket under the same number, it returns
without giving the place back. The place is then no longer free, and the descriptor of the
live connection has moved to it. `failed_registration_iff` says when a refusal leaves the
tables alone.

The loop of `acceptNewConnections` goes on after a refusal. `registered_acceptLoop` says which
descriptors have a place and a socket at its end, and `ledger_acceptLoop` which can have been
closed. A connection that arrives after the last place is taken is in neither list, because no
socket is made for it (`none_leaked_iff`). Nor is the descriptor 0, which the loop takes for an
error.
-/

set_option autoImplicit false

namespace Brutils.Proofs.Tcp

open InverseMaps
open Brutils.TcpServer

/-! ### Refusals and the tables -/

/-- The descriptor has a place and a socket. -/
def Registered (server : TcpServer) (fd : Int) : Prop :=
  fd ∈ server.socketFdIndexMap ∧ fd ∈ server.activeConnections

/-- The tables of two servers, and their timer maps, are the same. -/
structure SameTables (server server' : TcpServer) : Prop where
  list : server'.socketList = server.socketList
  free : server'.socketListEmptyIndexSet = server.socketListEmptyIndexSet
  index : server'.socketFdIndexMap = server.socketFdIndexMap
  active : server'.activeConnections = server.activeConnections
  timerIds : server'.socketFdTimerIdMap = server.socketFdTimerIdMap
  fds : server'.timerIdSocketFdMap = server.timerIdSocketFdMap

section
variable (timer : Timer) (system : System) {server : TcpServer}

/-- When a place is free, a connection takes one, so the tables change. -/
theorem not_sameTables (hfree : server.socketListEmptyIndexSet ≠ ∅) (fd : Int) :
    ¬SameTables server (server.addNewConnection timer system fd).2 := by
  intro hsame
  have hsize := addNewConnection_size timer system hfree fd
  rw [hsame.free] at hsize
  omega

/-- A connection is refused when no place is free, and when there is a socket under its number. -/
theorem addNewConnection_refused (server : TcpServer) (fd : Int) :
    (server.addNewConnection timer system fd).1 = false ↔
      server.socketListEmptyIndexSet = ∅ ∨ fd ∈ server.activeConnections := by
  rcases addNewConnection_cases timer system server fd with
    ⟨hempty, hrun⟩ | ⟨i, hmin, ⟨hactive, hrun⟩ | ⟨hinactive, readBufferSize, hrun⟩⟩
  · rw [hrun]
    exact iff_of_true rfl (Or.inl hempty)
  · rw [hrun]
    exact iff_of_true rfl (Or.inr hactive)
  · rw [hrun]
    refine iff_of_false (fun h => absurd h.symm Bool.false_ne_true) ?_
    rintro (hempty | hactive)
    · exact ne_empty_of_least hmin hempty
    · exact hinactive hactive

/-- Without a free place nothing is registered. Otherwise the descriptor is, also when the
connection is refused. -/
theorem registered_addNewConnection (timer : Timer) (system : System) (server : TcpServer)
    (fd fd' : Int) :
    Registered (server.addNewConnection timer system fd).2 fd' ↔
      Registered server fd' ∨ server.socketListEmptyIndexSet ≠ ∅ ∧ fd' = fd := by
  rcases addNewConnection_cases timer system server fd with
    ⟨hempty, hrun⟩ | ⟨i, hmin, hplaced⟩
  · rw [hrun]
    exact ⟨Or.inl, fun h => h.resolve_right fun hfree => hfree.1 hempty⟩
  · rw [and_iff_right (ne_empty_of_least hmin), eq_comm]
    rcases hplaced with ⟨hactive, hrun⟩ | ⟨-, readBufferSize, hrun⟩
    · rw [hrun]
      show fd' ∈ server.socketFdIndexMap.insert fd i ∧ fd' ∈ server.activeConnections ↔ _
      rw [mem_insert_iff, or_and_right, or_comm]
      -- the socket under the number is that of another connection
      refine or_congr Iff.rfl (and_iff_left_of_imp ?_)
      rintro rfl
      exact hactive
    · rw [hrun]
      show fd' ∈ server.socketFdIndexMap.insert fd i ∧
        fd' ∈ server.activeConnections.insert fd _ ↔ _
      rw [mem_insert_iff, mem_insert_iff, ← or_and_left, or_comm]
      rfl

/-- A refusal leaves the tables as they were exactly if no place is free or the descriptor is not
registered. -/
theorem failed_registration_iff {n : Nat} {serverSD : Int} (h : Consistent n serverSD server)
    (fd : Int) :
    ((server.addNewConnection timer system fd).1 = false →
        SameTables server (server.addNewConnection timer system fd).2) ↔
      server.socketListEmptyIndexSet = ∅ ∨ fd ∉ server.socketFdIndexMap := by
  rw [addNewConnection_refused, ← h.keys]
  by_cases hempty : server.socketListEmptyIndexSet = ∅
  -- the function returns before its first step
  · rcases addNewConnection_cases timer system server fd with ⟨-, hrun⟩ | ⟨i, hmin, -⟩
    · rw [hrun]
      exact iff_of_true (fun _ => ⟨rfl, rfl, rfl, rfl, rfl, rfl⟩) (Or.inl hempty)
    · exact absurd hempty (ne_empty_of_least hmin)
  -- a place is taken in any case, so all depends on whether the connection is refused
  · constructor
    · intro hrefused
      refine Or.inr fun hactive => ?_
      exact not_sameTables timer system hempty fd (hrefused (Or.inr hactive))
    · rintro (hfull | hinactive) (hempty' | hactive)
      · exact absurd hfull hempty
      · exact absurd hfull hempty
      · exact absurd hempty' hempty
      · exact absurd hactive hinactive

end

/-- The result for a connection that a full server refuses. -/
theorem failed_registration_full :
    SameTables oneClient (oneClient.addNewConnection ⟨fun _ => 1, fun _ => true⟩
      ⟨fun _ => [], 1024, ⟨true, none⟩, []⟩ 8).2 :=
  (failed_registration_iff _ _ oneClient_consistent 8).mpr (Or.inl oneClient_full)
    ((addNewConnection_refused _ _ oneClient 8).mpr (Or.inl oneClient_full))

/-- A server with two places for clients, of which the descriptor 7 has one. -/
def roomForOne : TcpServer :=
  ((setUp 3 3 1000 0).addNewConnection ⟨fun _ => 0, fun _ => true⟩
    ⟨fun _ => [], 1024, ⟨true, none⟩, []⟩ 7).2

/-- `roomForOne` is a server with one client and a free place. -/
theorem roomForOne_consistent : Consistent 3 3 roomForOne :=
  call_consistent (setUp_consistent 3 3 1000 0 (by decide))
    (.addNewConnection _ _ 7 (by decide) (by simp [setUp]))

/-- One place of it is free. -/
theorem roomForOne_size : roomForOne.socketListEmptyIndexSet.size = 1 := by
  have hsize := addNewConnection_size ⟨fun _ => 0, fun _ => true⟩
    ⟨fun _ => [], 1024, ⟨true, none⟩, []⟩ (setUp_free 3 (show 2 ≤ 3 by decide) 1000 0) 7
  rw [setUp_size] at hsize
  exact (Nat.succ.inj hsize).symm

/-- One place is free. -/
theorem roomForOne_free : roomForOne.socketListEmptyIndexSet ≠ ∅ := by
  rw [ne_eq, Std.ExtTreeSet.eq_empty_iff_size_eq_zero, roomForOne_size]
  decide

/-- The one client is registered. -/
theorem registered_roomForOne (fd : Int) : Registered roomForOne fd ↔ fd = 7 := by
  have hsetUp : ¬Registered (setUp 3 3 1000 0) fd := by
    rintro ⟨hindex, -⟩
    simp [setUp] at hindex
  rw [roomForOne, registered_addNewConnection, and_iff_right (setUp_free 3 (by decide) 1000 0)]
  exact or_iff_right hsetUp

/-- The descriptor 7 is refused when it comes a second time, and the place it is given is lost. -/
theorem second_registration_takes_place :
    Consistent 3 3 roomForOne ∧
    (roomForOne.addNewConnection ⟨fun _ => 1, fun _ => true⟩
      ⟨fun _ => [], 1024, ⟨true, none⟩, []⟩ 7).1 = false ∧
    ¬SameTables roomForOne (roomForOne.addNewConnection ⟨fun _ => 1, fun _ => true⟩
      ⟨fun _ => [], 1024, ⟨true, none⟩, []⟩ 7).2 := by
  refine ⟨roomForOne_consistent, ?_, not_sameTables _ _ roomForOne_free 7⟩
  have hregistered := (registered_roomForOne 7).mpr rfl
  exact (addNewConnection_refused _ _ roomForOne 7).mpr (Or.inr hregistered.2)

/-! ### Refusals and the descriptors -/

/-- The descriptors that `::accept` returns. After 0 the loop of `acceptNewConnections` ends. -/
def returned : List Turn → List Int
  | [] => []
  | turn :: turns =>
    if turn.running ∧ 0 < turn.newSocket then turn.newSocket :: returned turns
    else if turn.running ∧ turn.newSocket = 0 then [0]
    else []

section
variable {server : TcpServer}

/-- A descriptor gets a place in the first of several turns, or behind it. -/
theorem mem_handedOut_cons {turn : Turn} (turns : List Turn)
    (hturn : turn.running = true ∧ 0 < turn.newSocket) (server : TcpServer) (fd : Int) :
    fd ∈ handedOut server (turn :: turns) ↔
      (server.socketListEmptyIndexSet ≠ ∅ ∧ fd = turn.newSocket) ∨
      fd ∈ handedOut (server.addNewConnection turn.timer turn.system turn.newSocket).2 turns := by
  rw [handedOut, handedOut, accepted, if_pos hturn]
  by_cases hempty : server.socketListEmptyIndexSet = ∅
  · have hfull := addNewConnection_full turn.timer turn.system hempty turn.newSocket
    rw [hfull, hempty, Std.ExtTreeSet.size_empty]
    simp
  · rw [addNewConnection_size turn.timer turn.system hempty turn.newSocket, List.take_succ_cons,
      List.mem_cons, and_iff_right hempty]

/-- The descriptors with a place and a socket at the end of the loop. -/
theorem registered_acceptLoop (turns : List Turn) (server : TcpServer) (fd : Int) :
    Registered (acceptLoop turns server).2 fd ↔
      Registered server fd ∨ fd ∈ handedOut server turns := by
  induction turns generalizing server with
  | nil => simp [acceptLoop, handedOut, accepted]
  | cons turn turns ih =>
    rw [acceptLoop_cons]
    by_cases hturn : turn.running = true ∧ 0 < turn.newSocket
    · rw [if_pos hturn, ih, registered_addNewConnection, mem_handedOut_cons turns hturn, or_assoc]
    · rw [if_neg hturn, handedOut, accepted, if_neg hturn, List.take_nil]
      simp

/-! ### The ledger

Its server is that of the functions without a ledger. -/

/-- A socket closes no other descriptor than its own. -/
theorem eq_of_mem_destroyCloses {answer : TcpSocket.CloseAnswer} {socket : TcpSocket} {fd : Int}
    (h : fd ∈ socket.destroyCloses answer) : fd = socket.socketD := by
  unfold TcpSocket.destroyCloses TcpSocket.disconnectCloses at h
  split at h
  · split at h
    · exact absurd h List.not_mem_nil
    · split at h
      · exact absurd h List.not_mem_nil
      · split at h
        · exact List.mem_singleton.mp h
        · exact absurd h List.not_mem_nil
  · exact absurd h List.not_mem_nil

/-- After `addNewConnection` only the new descriptor can have been closed, and only if a socket was
made for it. -/
theorem ledger_addNewConnection (timer : Timer) (system : System) (ledger : Ledger) (fd : Int) :
    ∃ closed, ledger.addNewConnection timer system fd
        = ((ledger.server.addNewConnection timer system fd).1,
          ⟨(ledger.server.addNewConnection timer system fd).2, ledger.closed ++ closed⟩) ∧
      ∀ fd' ∈ closed, ledger.server.socketListEmptyIndexSet ≠ ∅ ∧ fd' = fd := by
  unfold Ledger.addNewConnection TcpServer.addNewConnection
  by_cases hempty : ledger.server.socketListEmptyIndexSet.isEmpty = true
  · rw [if_pos hempty, if_pos hempty]
    exact ⟨[], by rw [List.append_nil], fun _ h => absurd h List.not_mem_nil⟩
  · rw [if_neg hempty, if_neg hempty]
    have hfree : ledger.server.socketListEmptyIndexSet ≠ ∅ :=
      mt Std.ExtTreeSet.isEmpty_iff.mpr hempty
    simp only
    rcases ledger.server.addToSocketList fd with ⟨_ | _, server⟩
    -- the socket is destroyed, and its descriptor is the new one
    · refine ⟨_, rfl, fun fd' h => ⟨hfree, ?_⟩⟩
      exact (eq_of_mem_destroyCloses h).trans (create_socketD _ _ _ _)
    · simp only
      rcases server.addToActiveConnections _ with ⟨_ | _, server⟩
      · refine ⟨_, rfl, fun fd' h => ⟨hfree, ?_⟩⟩
        exact (eq_of_mem_destroyCloses h).trans (create_socketD _ _ _ _)
      -- the server keeps it
      · exact ⟨[], by rw [List.append_nil], fun _ h => absurd h List.not_mem_nil⟩

/-- In the loop only descriptors that get a place can be closed. -/
theorem ledger_acceptLoop (turns : List Turn) (ledger : Ledger) :
    ∃ closed, ledger.acceptLoop turns
        = ((acceptLoop turns ledger.server).1,
          ⟨(acceptLoop turns ledger.server).2, ledger.closed ++ closed⟩) ∧
      ∀ fd ∈ closed, fd ∈ handedOut ledger.server turns := by
  -- the ways out of the loop close nothing
  have hnone : ∀ (ledger : Ledger) (turns : List Turn) (result : Bool),
      ∃ closed, (result, ledger) = (result, ⟨ledger.server, ledger.closed ++ closed⟩) ∧
        ∀ fd ∈ closed, fd ∈ handedOut ledger.server turns := fun ledger turns result =>
    ⟨[], by rw [List.append_nil], fun _ h => absurd h List.not_mem_nil⟩
  induction turns generalizing ledger with
  | nil => exact hnone ledger [] true
  | cons turn turns ih =>
    rw [Ledger.acceptLoop, acceptLoop]
    cases hrunning : turn.running with
    | false => exact hnone ledger _ true
    | true =>
      simp only [Bool.not_true, Bool.false_eq_true, if_false]
      by_cases hpos : 0 < turn.newSocket
      · rw [if_pos hpos, if_pos hpos]
        obtain ⟨closed, hadd, hclosed⟩ :=
          ledger_addNewConnection turn.timer turn.system ledger turn.newSocket
        obtain ⟨closed', hloop, hclosed'⟩ :=
          ih (ledger.addNewConnection turn.timer turn.system turn.newSocket).2
        rw [hadd] at hloop hclosed'
        -- what this turn closes, and what the later ones do
        refine ⟨closed ++ closed', ?_, fun fd hfd => ?_⟩
        · rw [hadd, ← List.append_assoc]
          exact hloop
        · rw [mem_handedOut_cons turns ⟨hrunning, hpos⟩]
          rcases List.mem_append.mp hfd with hfd | hfd
          · exact Or.inl (hclosed fd hfd)
          · exact Or.inr (hclosed' fd hfd)
      · rw [if_neg hpos, if_neg hpos]
        split
        · exact hnone ledger _ true
        · exact hnone ledger _ false

/-- What becomes of a descriptor in `acceptNewConnections`. -/
theorem registered_or_closed (hfree : server.socketListEmptyIndexSet ≠ ∅) (turns : List Turn)
    (fd : Int) :
    (Registered ((⟨server, []⟩ : Ledger).acceptNewConnections turns).2.server fd ∨
        fd ∈ ((⟨server, []⟩ : Ledger).acceptNewConnections turns).2.closed) ↔
      Registered server fd ∨ fd ∈ handedOut server turns := by
  obtain ⟨closed, hloop, hclosed⟩ := ledger_acceptLoop turns ⟨server, []⟩
  rw [Ledger.acceptNewConnections, if_neg (mt Std.ExtTreeSet.isEmpty_iff.mp hfree), hloop]
  show Registered (acceptLoop turns server).2 fd ∨ fd ∈ [] ++ closed ↔ _
  rw [registered_acceptLoop, List.nil_append]
  exact or_iff_left_of_imp fun hfd => Or.inr (hclosed fd hfd)

end

/-! ### Lost descriptors -/

/-- Every descriptor that `::accept` has returned is registered or closed. -/
def NoneLeaked (turns : List Turn) (ledger : Ledger) : Prop :=
  ∀ fd ∈ returned turns, Registered ledger.server fd ∨ fd ∈ ledger.closed

/-- What `::accept` hands out is positive. -/
theorem pos_of_mem_accepted {turns : List Turn} {fd : Int} (h : fd ∈ accepted turns) : 0 < fd := by
  induction turns with
  | nil => exact absurd h List.not_mem_nil
  | cons turn turns ih =>
    rw [accepted] at h
    split at h
    · rename_i hturn
      rcases List.mem_cons.mp h with rfl | h
      · exact hturn.2
      · exact ih h
    · exact absurd h List.not_mem_nil

/-- Unless `::accept` returns 0, the loop takes all that it returns. -/
theorem returned_eq_accepted {turns : List Turn} (h : 0 ∉ returned turns) :
    returned turns = accepted turns := by
  induction turns with
  | nil => rfl
  | cons turn turns ih =>
    rw [returned] at h ⊢
    rw [accepted]
    split
    · rename_i hturn
      rw [if_pos hturn] at h
      rw [ih fun hzero => h (List.mem_cons_of_mem _ hzero)]
    · rename_i hturn
      rw [if_neg hturn] at h
      split
      · rename_i hzero
        rw [if_pos hzero] at h
        exact absurd (List.mem_singleton_self 0) h
      · rfl

/-- Of different elements, all are among the first `k` exactly if there are no more than `k`. -/
theorem all_mem_take_iff {l : List Int} (h : l.Nodup) (k : Nat) :
    (∀ fd ∈ l, fd ∈ l.take k) ↔ l.length ≤ k := by
  constructor
  · intro hall
    exact (List.Nodup.subperm h hall).length_le.trans (List.length_take_le k l)
  · intro hle fd hfd
    rwa [List.take_of_length_le hle]

/-- On a server with a free place, no new descriptor is leaked exactly if there are no more of them
than free places, and none of them is 0. -/
theorem none_leaked_iff {server : TcpServer} (hfree : server.socketListEmptyIndexSet ≠ ∅)
    (turns : List Turn) (hdistinct : (returned turns).Nodup)
    (hfresh : ∀ fd ∈ returned turns, ¬Registered server fd) :
    NoneLeaked turns ((⟨server, []⟩ : Ledger).acceptNewConnections turns).2 ↔
      (returned turns).length ≤ server.socketListEmptyIndexSet.size ∧ 0 ∉ returned turns := by
  have hkept : NoneLeaked turns ((⟨server, []⟩ : Ledger).acceptNewConnections turns).2 ↔
      ∀ fd ∈ returned turns, fd ∈ handedOut server turns := by
    refine forall₂_congr fun fd hfd => ?_
    rw [registered_or_closed hfree]
    exact or_iff_right (hfresh fd hfd)
  rw [hkept]
  by_cases hzero : 0 ∈ returned turns
  -- only positive descriptors are handed out
  · refine iff_of_false ?_ fun h => h.2 hzero
    intro hall
    have hpos := pos_of_mem_accepted (List.mem_of_mem_take (hall 0 hzero))
    omega
  · rw [and_iff_left hzero, handedOut]
    rw [returned_eq_accepted hzero] at hdistinct ⊢
    exact all_mem_take_iff hdistinct _

/-- A turn in which `::accept` returns `newSocket`. -/
def turnWith (newSocket : Int) : Turn where
  running := true
  newSocket := newSocket
  timer := ⟨fun _ => 1, fun _ => true⟩
  system := ⟨fun _ => [], 1024, ⟨true, none⟩, []⟩

/-- The result for one connection. -/
theorem none_leaked_of_one : NoneLeaked [turnWith 8, turnWith (-1)]
    ((⟨roomForOne, []⟩ : Ledger).acceptNewConnections [turnWith 8, turnWith (-1)]).2 := by
  refine (none_leaked_iff roomForOne_free [turnWith 8, turnWith (-1)]
    (by decide) ?_).mpr ?_
  · intro fd hfd hregistered
    rw [registered_roomForOne] at hregistered
    obtain rfl := List.mem_singleton.mp hfd
    exact absurd hregistered (by decide)
  · rw [roomForOne_size]
    decide

/-- Two connections arrive, and the second is leaked. -/
theorem second_of_two_leaked : roomForOne.socketListEmptyIndexSet ≠ ∅ ∧
    returned [turnWith 8, turnWith 9, turnWith (-1)] = [8, 9] ∧
    (∀ fd ∈ [8, 9], ¬Registered roomForOne fd) ∧
    ¬NoneLeaked [turnWith 8, turnWith 9, turnWith (-1)] ((⟨roomForOne, []⟩ :
      Ledger).acceptNewConnections [turnWith 8, turnWith 9, turnWith (-1)]).2 := by
  have hnew : ∀ fd ∈ [8, 9], ¬Registered roomForOne fd := by
    intro fd hfd
    rw [registered_roomForOne]
    rintro rfl
    exact absurd hfd (by decide)
  refine ⟨roomForOne_free, rfl, hnew, fun hall => ?_⟩
  have hmem : (9 : Int) ∈ returned [turnWith 8, turnWith 9, turnWith (-1)] := by decide
  rcases (registered_or_closed roomForOne_free _ 9).mp (hall 9 hmem) with hregistered | hplaced
  · exact hnew 9 (by decide) hregistered
  · rw [handedOut, roomForOne_size] at hplaced
    exact absurd hplaced (by decide)

end Brutils.Proofs.Tcp
