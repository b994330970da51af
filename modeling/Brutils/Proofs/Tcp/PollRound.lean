import Brutils.Proofs.Tcp.Tables
import Brutils.Tcp.Poll

/-!
# `Brutils.Proofs.Tcp.PollRound`: which clients a poll round serves

A round should call `newIncomingData` once for each registered descriptor that has `POLLIN`,
and `connectionClosed` once for each that has `POLLHUP` (`ServesAll`). It may miss them in
three ways:

* The loop over the clients is not reached. This is so after an error of the server socket or
  of `::accept`, and also when a connection is waiting and no place is free.
* `connectionClosed` erases the entry at which the loop stands.
* `::accept` returns a number that is still registered. Then the descriptor moves to a place
  that was free, where `::poll` has written nothing.

`serves_all_iff` says that these are the only ones. The accept phase is described by
`Accepted`, from one descriptor to a list of them, and the loop over the clients by
`clientLoop_spec` and `clientLoop_undefined`.

`Placed` is all that the round needs of the tables. It is weaker than `Consistent`, and kept
for whatever `::accept` returns.
-/

set_option autoImplicit false

namespace Brutils.Proofs.Tcp

open InverseMaps
open Brutils.TcpServer

/-- A registered descriptor is at its place, and a free place is marked as free. -/
structure Placed (server : TcpServer) : Prop where
  used : ∀ (fd : Int) (i : Nat), server.socketFdIndexMap[fd]? = some i →
    0 < fd ∧ fdAt server i = some fd
  free : ∀ i ∈ server.socketListEmptyIndexSet, fdAt server i = some (-1)

/-- The descriptors that the loop of `acceptNewConnections` gets. -/
def accepted : List Turn → List Int
  | [] => []
  | turn :: turns =>
    if turn.running ∧ 0 < turn.newSocket then turn.newSocket :: accepted turns else []

/-- The loop of `acceptNewConnections` ends without an error. -/
def endsWell : List Turn → Bool
  | [] => true
  | turn :: turns =>
    if turn.running ∧ 0 < turn.newSocket then endsWell turns
    else !turn.running || turn.newSocket = -1

/-- The descriptors that get a place: of those accepted as many as there are free places. -/
def handedOut (server : TcpServer) (turns : List Turn) : List Int :=
  (accepted turns).take server.socketListEmptyIndexSet.size

/-- `POLLIN` is set at the place. -/
abbrev Readable (revents : Nat → Nat) (i : Nat) : Prop := revents i &&& pollIn = pollIn

/-- `POLLHUP` is set at the place. -/
abbrev HungUp (revents : Nat → Nat) (i : Nat) : Prop := revents i &&& pollHup = pollHup

/-- The round calls `newIncomingData` once for each registered descriptor with `POLLIN`,
`connectionClosed` once for each with `POLLHUP`, and neither for another of those. -/
def ServesAll (revents : Nat → Nat) (server : TcpServer) (outcome : Outcome) : Prop :=
  ∃ result round, outcome = .returned result round ∧
    ∀ (fd : Int) (i : Nat), server.socketFdIndexMap[fd]? = some i →
      round.calls.count (.newIncomingData fd) = (if Readable revents i then 1 else 0) ∧
      round.calls.count (.connectionClosed fd) = (if HungUp revents i then 1 else 0)

/-- What happens on the server socket lets the round come to the clients. -/
def ReachesClients (revents : Nat → Nat) (server : TcpServer) (turns : List Turn) : Prop :=
  revents 0 = 0 ∨
    revents 0 = pollIn ∧ server.socketListEmptyIndexSet ≠ ∅ ∧ endsWell turns = true

/-- The descriptors that get a place in a round. -/
def newlyPlaced (revents : Nat → Nat) (server : TcpServer) (turns : List Turn) : List Int :=
  if revents 0 = pollIn then handedOut server turns else []

/-! ### The accept phase -/

section
variable {server server' : TcpServer}

/-- `Placed` speaks of the array, the set of free places and the index map. What else the server
holds does not matter. -/
theorem Placed.congr (h : Placed server) (hlist : server'.socketList = server.socketList)
    (hempty : server'.socketListEmptyIndexSet = server.socketListEmptyIndexSet)
    (hindex : server'.socketFdIndexMap = server.socketFdIndexMap) : Placed server' := by
  have hfd : ∀ i, fdAt server' i = fdAt server i := by
    intro i
    rw [fdAt, fdAt, hlist]
  constructor
  · intro fd i hi
    rw [hindex] at hi
    rw [hfd]
    exact h.used fd i hi
  · intro i hi
    rw [hempty] at hi
    rw [hfd]
    exact h.free i hi

/-- A consistent server is one with its descriptors at their places. -/
theorem Consistent.placed {n : Nat} {serverSD : Int} (h : Consistent n serverSD server) :
    Placed server where
  used fd i hi := (h.used fd i hi).2.2
  free i hi := (h.free i hi).2.2

/-- A place of the array that holds something is inside. -/
theorem lt_of_fdAt {i : Nat} {fd : Int} (h : fdAt server i = some fd) :
    i < server.socketList.length := by
  by_contra hge
  rw [fdAt, List.getElem?_eq_none (Nat.le_of_not_lt hge)] at h
  cases h

/-- The array after a free place has been taken. -/
theorem fdAt_withPlace (h : Placed server) {i : Nat} (hi : i ∈ server.socketListEmptyIndexSet)
    (fd : Int) (j : Nat) :
    fdAt (withPlace server i fd) j = if i = j then some fd else fdAt server j :=
  fdAt_modify (fun _ => ⟨fd, pollIn⟩) (lt_of_fdAt (h.free i hi)) rfl j

/-- The index map after a free place has been taken. -/
theorem getElem?_withPlace (i : Nat) (fd fd' : Int) :
    (withPlace server i fd).socketFdIndexMap[fd']?
      = if fd = fd' then some i else server.socketFdIndexMap[fd']? := by
  show (server.socketFdIndexMap.insert fd i)[fd']? = _
  simp [Std.ExtTreeMap.getElem?_insert]

/-- Any descriptor may take a free place, also one that is registered. -/
theorem Placed.withPlace (h : Placed server) {i : Nat} (hi : i ∈ server.socketListEmptyIndexSet)
    {fd : Int} (hpos : 0 < fd) : Placed (withPlace server i fd) := by
  constructor
  · intro fd' j hj
    rw [getElem?_withPlace] at hj
    rw [fdAt_withPlace h hi]
    by_cases hfd : fd = fd'
    · rw [if_pos hfd] at hj
      rw [if_pos (Option.some.inj hj), ← hfd]
      exact ⟨hpos, rfl⟩
    · rw [if_neg hfd] at hj
      obtain ⟨hpos', hat⟩ := h.used fd' j hj
      -- a used place holds a positive descriptor, so it is not the free one
      have hij : i ≠ j := by
        rintro rfl
        have heq := Option.some.inj (hat.symm.trans (h.free i hi))
        omega
      rw [if_neg hij]
      exact ⟨hpos', hat⟩
  · intro j hj
    obtain ⟨hij, hj⟩ := Std.ExtTreeSet.mem_erase.mp hj
    rw [ne_eq, Std.LawfulEqCmp.compare_eq_iff_eq] at hij
    rw [fdAt_withPlace h hi, if_neg hij]
    exact h.free j hj

/-- The server `server'` comes from `server` when the descriptors `fds` have got free places. -/
structure Accepted (server server' : TcpServer) (fds : List Int) : Prop where
  placed : Placed server'
  new : ∀ fd ∈ fds, ∃ i ∈ server.socketListEmptyIndexSet, server'.socketFdIndexMap[fd]? = some i
  old : ∀ fd ∉ fds, server'.socketFdIndexMap[fd]? = server.socketFdIndexMap[fd]?

/-- With no descriptor handed out nothing has changed. -/
theorem Accepted.refl (h : Placed server) : Accepted server server [] :=
  ⟨h, fun _ hfd => absurd hfd List.not_mem_nil, fun _ _ => rfl⟩

/-- The descriptor `fd` has got the place `i` before the others. -/
theorem Accepted.cons {i : Nat} {fd : Int} {fds : List Int}
    (hi : i ∈ server.socketListEmptyIndexSet)
    (h : Accepted (withPlace server i fd) server' fds) : Accepted server server' (fd :: fds) := by
  have hnew : ∀ fd' ∈ fds, ∃ j ∈ server.socketListEmptyIndexSet,
      server'.socketFdIndexMap[fd']? = some j := by
    intro fd' hfd'
    obtain ⟨j, hj, hindex⟩ := h.new fd' hfd'
    exact ⟨j, (Std.ExtTreeSet.mem_erase.mp hj).2, hindex⟩
  refine ⟨h.placed, ?_, ?_⟩
  · intro fd' hfd'
    rcases List.mem_cons.mp hfd' with rfl | hmem
    · by_cases hlater : fd' ∈ fds
      · exact hnew fd' hlater
      · exact ⟨i, hi, by rw [h.old fd' hlater, getElem?_withPlace, if_pos rfl]⟩
    · exact hnew fd' hmem
  · intro fd' hfd'
    obtain ⟨hne, hmem⟩ := not_or.mp (mt List.mem_cons.mpr hfd')
    rw [h.old fd' hmem, getElem?_withPlace, if_neg (Ne.symm hne)]

/-- `Accepted` does not look at the timers and the sockets of the server. -/
theorem Accepted.congr {server₁ : TcpServer} {fds : List Int}
    (h : Accepted server server' fds)
    (hempty : server.socketListEmptyIndexSet = server₁.socketListEmptyIndexSet)
    (hindex : server.socketFdIndexMap = server₁.socketFdIndexMap) :
    Accepted server₁ server' fds := by
  refine ⟨h.placed, ?_, ?_⟩
  · rw [← hempty]
    exact h.new
  · rw [← hindex]
    exact h.old

/-- What `addNewConnection` does to the places. -/
theorem addNewConnection_places (timer : Timer) (system : System) (server : TcpServer) (fd : Int) :
    (server.socketListEmptyIndexSet = ∅ ∧ (server.addNewConnection timer system fd).2 = server) ∨
    ∃ i ∈ server.socketListEmptyIndexSet,
      (server.addNewConnection timer system fd).2.socketList = (withPlace server i fd).socketList ∧
      (server.addNewConnection timer system fd).2.socketListEmptyIndexSet
        = (withPlace server i fd).socketListEmptyIndexSet ∧
      (server.addNewConnection timer system fd).2.socketFdIndexMap
        = (withPlace server i fd).socketFdIndexMap := by
  rcases addNewConnection_cases timer system server fd with
    ⟨hempty, hrun⟩ | ⟨i, hmin, ⟨-, hrun⟩ | ⟨-, readBufferSize, hrun⟩⟩
  · rw [hrun]
    exact Or.inl ⟨hempty, rfl⟩
  · rw [hrun]
    exact Or.inr ⟨i, Std.ExtTreeSet.min?_mem hmin, rfl, rfl, rfl⟩
  · rw [hrun]
    exact Or.inr ⟨i, Std.ExtTreeSet.min?_mem hmin, rfl, rfl, rfl⟩

/-- A connection takes one of the free places, also when it is refused after that. -/
theorem addNewConnection_size (timer : Timer) (system : System)
    (hempty : server.socketListEmptyIndexSet ≠ ∅) (fd : Int) :
    server.socketListEmptyIndexSet.size
      = (server.addNewConnection timer system fd).2.socketListEmptyIndexSet.size + 1 := by
  rcases addNewConnection_places timer system server fd with ⟨hfull, -⟩ | ⟨i, hi, -, hfree, -⟩
  · exact absurd hfull hempty
  · rw [hfree]
    show _ = (server.socketListEmptyIndexSet.erase i).size + 1
    rw [Std.ExtTreeSet.size_erase, if_pos (Std.ExtTreeSet.contains_iff_mem.mpr hi)]
    have hne := mt Std.ExtTreeSet.eq_empty_iff_size_eq_zero.mpr hempty
    omega

/-- `addNewConnection` on a full server. -/
theorem addNewConnection_full (timer : Timer) (system : System)
    (hempty : server.socketListEmptyIndexSet = ∅) (fd : Int) :
    (server.addNewConnection timer system fd).2 = server := by
  rcases addNewConnection_places timer system server fd with ⟨-, hrun⟩ | ⟨i, hi, -⟩
  · exact hrun
  · rw [hempty] at hi
    exact absurd hi Std.ExtTreeSet.not_mem_empty

/-- One turn of the loop of `acceptNewConnections`. -/
theorem acceptLoop_cons (turn : Turn) (turns : List Turn) (server : TcpServer) :
    (acceptLoop (turn :: turns) server).2 =
      if turn.running = true ∧ 0 < turn.newSocket then
        (acceptLoop turns
          (server.addNewConnection turn.timer turn.system turn.newSocket).2).2
      else server := by
  rw [acceptLoop]
  cases hrunning : turn.running with
  | false => simp
  | true =>
    by_cases hpos : 0 < turn.newSocket
    · simp [hpos]
    · by_cases hnone : turn.newSocket = -1
      · simp [hnone]
      · simp [hpos, hnone]

/-- The loop of `acceptNewConnections` on a full server. -/
theorem acceptLoop_full (hempty : server.socketListEmptyIndexSet = ∅) (turns : List Turn) :
    (acceptLoop turns server).2 = server := by
  induction turns with
  | nil => rfl
  | cons turn turns ih =>
    rw [acceptLoop_cons, addNewConnection_full turn.timer turn.system hempty, ih, ite_self]

/-- The loop of `acceptNewConnections` answers `true` when it ends without an error. -/
theorem acceptLoop_result (turns : List Turn) (server : TcpServer) :
    (acceptLoop turns server).1 = endsWell turns := by
  induction turns generalizing server with
  | nil => rfl
  | cons turn turns ih =>
    rw [acceptLoop, endsWell]
    cases hrunning : turn.running with
    | false => simp
    | true =>
      by_cases hpos : 0 < turn.newSocket
      · simpa [hpos] using ih _
      · by_cases hnone : turn.newSocket = -1
        · simp [hnone]
        · simp [hpos, hnone]

/-- The loop of `acceptNewConnections` gives places to the descriptors that are handed out. -/
theorem acceptLoop_accepted (h : Placed server) (turns : List Turn) :
    Accepted server (acceptLoop turns server).2 (handedOut server turns) := by
  induction turns generalizing server with
  | nil =>
    rw [handedOut, accepted, List.take_nil]
    exact .refl h
  | cons turn turns ih =>
    by_cases hempty : server.socketListEmptyIndexSet = ∅
    · rw [acceptLoop_full hempty, handedOut, hempty, Std.ExtTreeSet.size_empty, List.take_zero]
      exact .refl h
    rw [handedOut, accepted, acceptLoop_cons]
    by_cases hturn : turn.running = true ∧ 0 < turn.newSocket
    · rw [if_pos hturn, if_pos hturn]
      rcases addNewConnection_places turn.timer turn.system server turn.newSocket with
        ⟨hfull, -⟩ | ⟨i, hi, hlist, hfree, hindex⟩
      · exact absurd hfull hempty
      · have hplaced := (h.withPlace hi hturn.2).congr hlist hfree hindex
        have hlater := ((ih hplaced).congr hfree hindex).cons hi
        rw [addNewConnection_size turn.timer turn.system hempty turn.newSocket,
          List.take_succ_cons]
        exact hlater
    · rw [if_neg hturn, if_neg hturn, List.take_nil]
      exact .refl h

/-- The accept phase gives a place to the descriptors that are `handedOut`, one after the other, and
leaves the rest of the tables as it is. -/
theorem acceptNewConnections_accepted (h : Placed server) (turns : List Turn) :
    Accepted server (server.acceptNewConnections turns).2 (handedOut server turns) := by
  have hloop := acceptLoop_accepted h turns
  unfold acceptNewConnections
  split
  · rename_i hempty
    rwa [acceptLoop_full (Std.ExtTreeSet.isEmpty_iff.mp hempty)] at hloop
  · exact hloop

/-- It answers `true` when there was a free place at the start and the loop ends without an error. A
full server gives `false` before the first `::accept`. -/
theorem acceptNewConnections_result (turns : List Turn) (server : TcpServer) :
    (server.acceptNewConnections turns).1 = true ↔
      server.socketListEmptyIndexSet ≠ ∅ ∧ endsWell turns = true := by
  unfold acceptNewConnections
  by_cases hempty : server.socketListEmptyIndexSet = ∅
  · rw [if_pos (Std.ExtTreeSet.isEmpty_iff.mpr hempty)]
    exact iff_of_false Bool.false_ne_true fun h => h.1 hempty
  · rw [if_neg (by rwa [Std.ExtTreeSet.isEmpty_iff]), acceptLoop_result]
    exact (and_iff_right hempty).symm

end

/-! ### The loop over the clients -/

section
variable {revents : Nat → Nat} {answers : Int → Answers} {round : Round}

/-- The two servers have the same descriptors at the same places. -/
structure SamePlaces (server server' : TcpServer) : Prop where
  list : server'.socketList = server.socketList
  free : server'.socketListEmptyIndexSet = server.socketListEmptyIndexSet
  index : server'.socketFdIndexMap = server.socketFdIndexMap

/-- `newIncomingData` restarts a timer and moves no descriptor. -/
theorem newIncomingData_samePlaces (timer : Timer) (system : System) (server : TcpServer)
    (fd : Int) : SamePlaces server (server.newIncomingData timer system fd).2 := by
  rcases newIncomingData_cases timer system server fd with ⟨-, hrun⟩ | ⟨connection, -, hrun⟩
  · rw [hrun]
    exact ⟨rfl, rfl, rfl⟩
  · obtain ⟨timerIds, fds, hstop⟩ := stopTimeoutTimer_cases timer server fd
    rw [hrun, hstop]
    exact ⟨rfl, rfl, rfl⟩

/-- `connectionClosed` erases the descriptor from the index map. -/
theorem not_mem_connectionClosed (timer : Timer) (server : TcpServer) (fd : Int) :
    fd ∉ (server.connectionClosed timer fd).2.socketFdIndexMap := by
  have hremoved : fd ∉ (server.removeFromSocketList fd).2.socketFdIndexMap := by
    unfold removeFromSocketList
    split
    · rename_i hnone
      rw [Std.ExtTreeMap.mem_iff_isSome_getElem?, hnone]
      exact Bool.false_ne_true
    · show fd ∉ server.socketFdIndexMap.erase fd
      simp
  obtain ⟨timerIds, fds, hstop⟩ :=
    stopTimeoutTimer_cases timer (server.removeFromSocketList fd).2 fd
  rw [connectionClosed, hstop, removeFromActiveConnections]
  split
  · exact hremoved
  · exact hremoved

/-- The calls for a client that has not hung up. -/
theorem serveClient_of_not_hungUp (answers : Answers) (fd : Int) {i : Nat}
    (hup : ¬HungUp revents i) (round : Round) :
    serveClient revents answers fd i round =
      if Readable revents i then
        ⟨(round.server.newIncomingData answers.readTimer answers.system fd).2,
          round.calls ++ [.newIncomingData fd]⟩
      else round := by
  unfold serveClient
  by_cases hzero : revents i = 0
  · have hreadable : ¬Readable revents i := by
      rw [Readable, hzero]
      decide
    rw [if_pos hzero, if_neg hreadable]
  · rw [if_neg hzero]
    simp only [if_neg hup]

/-- After the calls for a client that has hung up, it is registered no more. -/
theorem serveClient_of_hungUp (answers : Answers) (fd : Int) {i : Nat} (hup : HungUp revents i)
    (round : Round) :
    fd ∉ (serveClient revents answers fd i round).server.socketFdIndexMap := by
  have hne : revents i ≠ 0 := by
    intro hzero
    rw [HungUp, hzero] at hup
    exact absurd hup (by decide)
  unfold serveClient
  rw [if_neg hne]
  simp only [if_pos hup]
  exact not_mem_connectionClosed _ _ _

/-- The turn of a client moves no descriptor unless the client has hung up. -/
theorem serveClient_samePlaces (answers : Answers) (fd : Int) {i : Nat}
    (hup : ¬HungUp revents i) (round : Round) :
    SamePlaces round.server (serveClient revents answers fd i round).server := by
  rw [serveClient_of_not_hungUp answers fd hup]
  split
  · exact newIncomingData_samePlaces _ _ _ _
  · exact ⟨rfl, rfl, rfl⟩

/-- The round after the calls for the clients of a list. -/
def served (revents : Nat → Nat) (answers : Int → Answers) (clients : List (Int × Nat))
    (round : Round) : Round :=
  clients.foldl (fun round it => serveClient revents (answers it.1) it.1 it.2 round) round

/-- One pass of the loop for a registered client. -/
theorem clientLoop_cons (hplaced : Placed round.server) {fd : Int} {i : Nat}
    (hindex : round.server.socketFdIndexMap[fd]? = some i) (clients : List (Int × Nat)) :
    clientLoop revents answers ((fd, i) :: clients) round =
      if HungUp revents i then .undefined (serveClient revents (answers fd) fd i round)
      else clientLoop revents answers clients (serveClient revents (answers fd) fd i round) := by
  have hat : round.server.socketList[i]?.map PollFd.fd = some fd := (hplaced.used fd i hindex).2
  rw [clientLoop, if_neg (not_not.mpr hat)]
  by_cases hup : HungUp revents i
  · rw [if_pos hup]
    simp only [Std.ExtTreeMap.contains_iff_mem]
    rw [if_neg (serveClient_of_hungUp (answers fd) fd hup round)]
  · rw [if_neg hup]
    simp only [Std.ExtTreeMap.contains_iff_mem]
    rw [if_pos]
    rw [(serveClient_samePlaces (answers fd) fd hup round).index,
      Std.ExtTreeMap.mem_iff_isSome_getElem?, hindex]
    rfl

/-- When no client has hung up, the loop serves them all. -/
theorem clientLoop_spec (answers : Int → Answers) {clients : List (Int × Nat)} (round : Round)
    (hplaced : Placed round.server)
    (hindex : ∀ it ∈ clients, round.server.socketFdIndexMap[it.1]? = some it.2)
    (hup : ∀ it ∈ clients, ¬HungUp revents it.2) :
    clientLoop revents answers clients round
      = .returned true (served revents answers clients round) := by
  induction clients generalizing round with
  | nil => rfl
  | cons it clients ih =>
    obtain ⟨hit, hrest⟩ := List.forall_mem_cons.mp hindex
    obtain ⟨hup, huprest⟩ := List.forall_mem_cons.mp hup
    have hsame := serveClient_samePlaces (answers it.1) it.1 hup round
    rw [clientLoop_cons hplaced hit, if_neg hup]
    refine ih _ (hplaced.congr hsame.list hsame.free hsame.index) ?_ huprest
    intro it' hit'
    rw [hsame.index]
    exact hrest it' hit'

/-- When a client has hung up, the loop comes to a pass that is undefined. -/
theorem clientLoop_undefined (answers : Int → Answers) {clients : List (Int × Nat)} (round : Round)
    (hplaced : Placed round.server)
    (hindex : ∀ it ∈ clients, round.server.socketFdIndexMap[it.1]? = some it.2)
    {it : Int × Nat} (hit : it ∈ clients) (hup : HungUp revents it.2) :
    ∃ round', clientLoop revents answers clients round = .undefined round' := by
  induction clients generalizing round with
  | nil => cases hit
  | cons it' clients ih =>
    obtain ⟨hit', hrest⟩ := List.forall_mem_cons.mp hindex
    rw [clientLoop_cons hplaced hit']
    by_cases hup' : HungUp revents it'.2
    · exact ⟨_, if_pos hup'⟩
    · rw [if_neg hup']
      have hsame := serveClient_samePlaces (answers it'.1) it'.1 hup' round
      have hmem : it ∈ clients := by
        rcases List.mem_cons.mp hit with rfl | hmem
        · exact absurd hup hup'
        · exact hmem
      refine ih _ (hplaced.congr hsame.list hsame.free hsame.index) ?_ hmem
      intro it'' hit''
      rw [hsame.index]
      exact hrest it'' hit''

/-- So the turns of any clients without `POLLHUP` leave all the places as they are. This is the
induction over the loop that the entries before the first hang-up need. -/
theorem served_samePlaces (answers : Int → Answers) {clients : List (Int × Nat)} (round : Round)
    (hup : ∀ it ∈ clients, ¬HungUp revents it.2) :
    SamePlaces round.server (served revents answers clients round).server := by
  induction clients generalizing round with
  | nil => exact ⟨rfl, rfl, rfl⟩
  | cons it clients ih =>
    obtain ⟨hup, huprest⟩ := List.forall_mem_cons.mp hup
    have hsame := serveClient_samePlaces (answers it.1) it.1 hup round
    have hrest := ih (serveClient revents (answers it.1) it.1 it.2 round) huprest
    exact ⟨hrest.list.trans hsame.list, hrest.free.trans hsame.free, hrest.index.trans hsame.index⟩

/-- The calls that the loop makes when no client has hung up. -/
theorem served_calls (answers : Int → Answers) {clients : List (Int × Nat)} (round : Round)
    (hup : ∀ it ∈ clients, ¬HungUp revents it.2) :
    (served revents answers clients round).calls = round.calls ++
      (clients.filter fun it => Readable revents it.2).map fun it => .newIncomingData it.1 := by
  induction clients generalizing round with
  | nil => exact (List.append_nil _).symm
  | cons it clients ih =>
    obtain ⟨hup, huprest⟩ := List.forall_mem_cons.mp hup
    show (served revents answers clients
      (serveClient revents (answers it.1) it.1 it.2 round)).calls = _
    rw [ih _ huprest, serveClient_of_not_hungUp _ _ hup]
    by_cases hreadable : Readable revents it.2
    · rw [if_pos hreadable, List.filter_cons_of_pos (by simpa using hreadable), List.map_cons,
        List.append_assoc, List.singleton_append]
    · rw [if_neg hreadable, List.filter_cons_of_neg (by simpa using hreadable)]

end

/-! ### The round -/

section
variable {server server' : TcpServer} {revents : Nat → Nat} {turns : List Turn}

/-- The server after the accept phase of a round. -/
def afterAccept (revents : Nat → Nat) (turns : List Turn) (server : TcpServer) : TcpServer :=
  if revents 0 = pollIn then (server.acceptNewConnections turns).2 else server

/-- The server that the loop over the clients starts with is the one before the round with the
`newlyPlaced` descriptors. -/
theorem afterAccept_accepted (h : Placed server) (revents : Nat → Nat) (turns : List Turn) :
    Accepted server (afterAccept revents turns server) (newlyPlaced revents server turns) := by
  unfold afterAccept newlyPlaced
  by_cases hserver : revents 0 = pollIn
  · rw [if_pos hserver, if_pos hserver]
    exact acceptNewConnections_accepted h turns
  · rw [if_neg hserver, if_neg hserver]
    exact .refl h

/-- Once the server socket is done with, the round is the loop over the index map. -/
theorem processSockets_of_reaches (answers : Int → Answers)
    (h : ReachesClients revents server turns) :
    processSockets revents turns answers server =
      clientLoop revents answers (afterAccept revents turns server).socketFdIndexMap.toList
        ⟨afterAccept revents turns server, []⟩ := by
  unfold processSockets afterAccept
  rcases h with hzero | ⟨hserver, haccept⟩
  · have hnot : revents 0 ≠ pollIn := by
      rw [hzero]
      decide
    rw [if_neg hnot, if_pos hzero, if_neg hnot]
  · have hresult := (acceptNewConnections_result turns server).mpr haccept
    rw [if_pos hserver, if_pos hserver]
    generalize server.acceptNewConnections turns = accept at hresult
    obtain ⟨result, server'⟩ := accept
    obtain rfl : result = true := hresult
    rfl

/-- A round that does not come to the clients returns `false`, and has called neither of the two
functions. -/
theorem processSockets_of_not_reaches (answers : Int → Answers)
    (h : ¬ReachesClients revents server turns) :
    processSockets revents turns answers server
      = .returned false ⟨afterAccept revents turns server, []⟩ := by
  obtain ⟨hzero, haccept⟩ := not_or.mp h
  unfold processSockets afterAccept
  by_cases hserver : revents 0 = pollIn
  · have hresult := mt (acceptNewConnections_result turns server).mp fun hboth =>
      haccept ⟨hserver, hboth⟩
    rw [if_pos hserver, if_pos hserver]
    generalize server.acceptNewConnections turns = accept at hresult
    obtain ⟨result, server'⟩ := accept
    obtain rfl : result = false := eq_false_of_ne_true hresult
    rfl
  · rw [if_neg hserver, if_neg hzero, if_neg hserver]

/-- A free place has no events. -/
theorem poll_free (h : Placed server) (events : Nat → Nat) {i : Nat}
    (hi : i ∈ server.socketListEmptyIndexSet) : poll events server i = 0 := by
  have hat := h.free i hi
  rw [fdAt] at hat
  rw [poll]
  cases hentry : server.socketList[i]? with
  | none => rfl
  | some entry =>
    rw [hentry] at hat
    have hfd : entry.fd = -1 := Option.some.inj hat
    show (if entry.fd < 0 then 0 else events i) = 0
    rw [hfd]
    rfl

/-- The events at the place of a registered descriptor. -/
theorem poll_used (h : Placed server) (events : Nat → Nat) {fd : Int} {i : Nat}
    (hindex : server.socketFdIndexMap[fd]? = some i) : poll events server i = events i := by
  obtain ⟨hpos, hat⟩ := h.used fd i hindex
  rw [fdAt] at hat
  rw [poll]
  cases hentry : server.socketList[i]? with
  | none =>
    rw [hentry] at hat
    cases hat
  | some entry =>
    rw [hentry] at hat
    have hfd : entry.fd = fd := Option.some.inj hat
    exact if_neg (by omega)

/-- `::poll` reports the events of a place, or none. -/
theorem poll_or_zero (events : Nat → Nat) (server : TcpServer) (i : Nat) :
    poll events server i = 0 ∨ poll events server i = events i := by
  unfold poll
  split
  · exact Or.inl rfl
  · split
    · exact Or.inl rfl
    · exact Or.inr rfl

/-- A place for which there is no event gets none. -/
theorem poll_zero {events : Nat → Nat} {i : Nat} (server : TcpServer) (h : events i = 0) :
    poll events server i = 0 :=
  (poll_or_zero events server i).elim id fun hevents => hevents.trans h

/-- After the accept phase, the places that have events are those of before. -/
theorem Accepted.registered {fds : List Int} (h : Accepted server server' fds)
    (hplaced : Placed server) {events : Nat → Nat} {fd : Int} {i : Nat}
    (hindex : server'.socketFdIndexMap[fd]? = some i) (hevents : poll events server i ≠ 0) :
    fd ∉ fds ∧ server.socketFdIndexMap[fd]? = some i := by
  by_cases hfd : fd ∈ fds
  · obtain ⟨j, hj, hindex'⟩ := h.new fd hfd
    obtain rfl : i = j := Option.some.inj (hindex.symm.trans hindex')
    exact absurd (poll_free hplaced events hj) hevents
  · exact ⟨hfd, (h.old fd hfd).symm.trans hindex⟩

/-- A place with `POLLIN` has an event. -/
theorem ne_zero_of_readable {i : Nat} (h : Readable revents i) : revents i ≠ 0 := by
  intro hzero
  rw [Readable, hzero] at h
  exact absurd h (by decide)

/-- A place with `POLLHUP` has an event. -/
theorem ne_zero_of_hungUp {i : Nat} (h : HungUp revents i) : revents i ≠ 0 := by
  intro hzero
  rw [HungUp, hzero] at h
  exact absurd h (by decide)

/-- The loop over an index map makes one call for each entry that has `POLLIN`. -/
theorem count_calls {index : Std.ExtTreeMap Int Nat} {fd : Int} {i : Nat}
    (hindex : index[fd]? = some i) (p : Nat → Bool) :
    ((index.toList.filter fun it => p it.2).map fun it =>
        ClientCall.newIncomingData it.1).count (.newIncomingData fd)
      = if p i = true then 1 else 0 := by
  have hnodup : ((index.toList.filter fun it => p it.2).map fun it =>
      ClientCall.newIncomingData it.1).Nodup := by
    refine (Std.ExtTreeMap.distinct_keys_toList.filter _).map _ ?_
    intro it it' hne heq
    exact hne (Std.LawfulEqCmp.compare_eq_iff_eq.mpr (ClientCall.newIncomingData.inj heq))
  rw [hnodup.count]
  refine if_congr ?_ rfl rfl
  simp only [List.mem_map, List.mem_filter, Prod.exists, ClientCall.newIncomingData.injEq,
    Std.ExtTreeMap.mem_toList_iff_getElem?_eq_some]
  constructor
  · rintro ⟨fd', j, ⟨hindex', hp⟩, rfl⟩
    obtain rfl : i = j := Option.some.inj (hindex.symm.trans hindex')
    exact hp
  · intro hp
    exact ⟨fd, i, ⟨hindex, hp⟩, rfl⟩

/-- Where a registered descriptor is after the accept phase, and whether it has data there. -/
theorem Accepted.place {fds : List Int} (h : Accepted server server' fds)
    (hplaced : Placed server) (events : Nat → Nat) {fd : Int} {i : Nat}
    (hindex : server.socketFdIndexMap[fd]? = some i) :
    ∃ j, server'.socketFdIndexMap[fd]? = some j ∧
      (Readable (poll events server) j ↔ Readable (poll events server) i ∧ fd ∉ fds) := by
  by_cases hfd : fd ∈ fds
  · obtain ⟨j, hj, hindex'⟩ := h.new fd hfd
    refine ⟨j, hindex', iff_of_false ?_ fun hboth => hboth.2 hfd⟩
    intro hreadable
    exact ne_zero_of_readable hreadable (poll_free hplaced events hj)
  · exact ⟨i, (h.old fd hfd).trans hindex, (and_iff_left hfd).symm⟩

/-- A round that does not come to the clients makes no calls. -/
theorem servesAll_of_no_calls {result : Bool} :
    ServesAll revents server (.returned result ⟨server', []⟩) ↔
      ∀ (fd : Int) (i : Nat), server.socketFdIndexMap[fd]? = some i →
        ¬HungUp revents i ∧ ¬Readable revents i := by
  constructor
  · rintro ⟨result, round, heq, hcalls⟩ fd i hindex
    obtain ⟨-, rfl⟩ := Outcome.returned.inj heq
    obtain ⟨hread, hclose⟩ := hcalls fd i hindex
    constructor
    · intro hup
      rw [if_pos hup] at hclose
      exact absurd hclose Nat.zero_ne_one
    · intro hreadable
      rw [if_pos hreadable] at hread
      exact absurd hread Nat.zero_ne_one
  · intro hnone
    refine ⟨result, _, rfl, fun fd i hindex => ?_⟩
    obtain ⟨hup, hreadable⟩ := hnone fd i hindex
    rw [if_neg hreadable, if_neg hup]
    exact ⟨rfl, rfl⟩

/-- A round that comes to clients of which none has hung up makes one call for each that has data
at its place. -/
theorem servesAll_of_served {fds : List Int} (haccepted : Accepted server server' fds)
    (hplaced : Placed server) {events : Nat → Nat} (answers : Int → Answers)
    (hnone : ∀ it ∈ server'.socketFdIndexMap.toList, ¬HungUp (poll events server) it.2) :
    ServesAll (poll events server) server (.returned true
        (served (poll events server) answers server'.socketFdIndexMap.toList ⟨server', []⟩)) ↔
      ∀ (fd : Int) (i : Nat), server.socketFdIndexMap[fd]? = some i →
        ¬HungUp (poll events server) i ∧ (Readable (poll events server) i → fd ∉ fds) := by
  have hcalls := served_calls answers ⟨server', []⟩ hnone
  rw [List.nil_append] at hcalls
  generalize served (poll events server) answers server'.socketFdIndexMap.toList ⟨server', []⟩
    = round at hcalls
  -- nobody has hung up, so nobody is closed
  have hclosed : ∀ fd, round.calls.count (.connectionClosed fd) = 0 := by
    intro fd
    rw [hcalls, List.count_eq_zero]
    intro hmem
    obtain ⟨it, -, heq⟩ := List.mem_map.mp hmem
    cases heq
  -- a descriptor that has moved to a new place is not read
  have hread : ∀ (fd : Int) (i : Nat), server.socketFdIndexMap[fd]? = some i →
      round.calls.count (.newIncomingData fd)
        = if Readable (poll events server) i ∧ fd ∉ fds then 1 else 0 := by
    intro fd i hi
    obtain ⟨j, hj, hiff⟩ := haccepted.place hplaced events hi
    rw [hcalls, count_calls hj fun j => decide (Readable (poll events server) j)]
    exact if_congr (by rw [decide_eq_true_iff, hiff]) rfl rfl
  constructor
  · rintro ⟨result, round', heq, hall⟩ fd i hi
    obtain ⟨-, rfl⟩ := Outcome.returned.inj heq
    obtain ⟨honce, hclose⟩ := hall fd i hi
    rw [hclosed] at hclose
    rw [hread fd i hi] at honce
    constructor
    · intro hungUp
      rw [if_pos hungUp] at hclose
      exact Nat.zero_ne_one hclose
    · intro hreadable hnew
      rw [if_pos hreadable, if_neg fun hboth => hboth.2 hnew] at honce
      exact Nat.zero_ne_one honce
  · intro hall
    refine ⟨true, round, rfl, fun fd i hi => ?_⟩
    obtain ⟨hup, hplace⟩ := hall fd i hi
    rw [hread fd i hi, hclosed, if_neg hup]
    exact ⟨if_congr (and_iff_left_of_imp hplace) rfl rfl, rfl⟩

end

/-- A round serves all clients exactly if none of them has hung up, and for each that has data
the loop over the clients is reached and `::accept` does not return the descriptor again. -/
theorem serves_all_iff {n : Nat} {serverSD : Int} {server : TcpServer}
    (h : Consistent n serverSD server) (events : Nat → Nat) (turns : List Turn)
    (answers : Int → Answers) :
    ServesAll (poll events server) server
        (processSockets (poll events server) turns answers server) ↔
      ∀ (fd : Int) (i : Nat), server.socketFdIndexMap[fd]? = some i →
        ¬HungUp (poll events server) i ∧
        (Readable (poll events server) i →
          ReachesClients (poll events server) server turns ∧
            fd ∉ newlyPlaced (poll events server) server turns) := by
  have hplaced := h.placed
  have haccepted := afterAccept_accepted hplaced (poll events server) turns
  by_cases hreaches : ReachesClients (poll events server) server turns
  · simp only [and_iff_right hreaches]
    rw [processSockets_of_reaches answers hreaches]
    generalize afterAccept (poll events server) turns server = server' at haccepted
    have hindex : ∀ it ∈ server'.socketFdIndexMap.toList,
        server'.socketFdIndexMap[it.1]? = some it.2 :=
      fun _ hit => Std.ExtTreeMap.mem_toList_iff_getElem?_eq_some.mp hit
    by_cases hup : ∃ it ∈ server'.socketFdIndexMap.toList, HungUp (poll events server) it.2
    · -- the round does not return
      obtain ⟨it, hit, hup⟩ := hup
      refine iff_of_false ?_ ?_
      · rintro ⟨result, round, heq, -⟩
        obtain ⟨round', hundefined⟩ := clientLoop_undefined answers ⟨server', []⟩ haccepted.placed
          hindex hit hup
        exact nomatch hundefined.symm.trans heq
      · intro hall
        have hregistered :=
          (haccepted.registered hplaced (hindex it hit) (ne_zero_of_hungUp hup)).2
        exact (hall it.1 it.2 hregistered).1 hup
    · have hnone : ∀ it ∈ server'.socketFdIndexMap.toList, ¬HungUp (poll events server) it.2 :=
        fun it hit hungUp => hup ⟨it, hit, hungUp⟩
      rw [clientLoop_spec answers ⟨server', []⟩ haccepted.placed hindex hnone]
      exact servesAll_of_served haccepted hplaced answers hnone
  · -- the round ends before the clients, so none of them may have data
    rw [processSockets_of_not_reaches answers hreaches, servesAll_of_no_calls]
    simp only [hreaches, false_and, imp_false]

/-! ### Servers with clients -/

/-- The server after `addNewConnection` has given the place `i` to `fd`. -/
def withClient (server : TcpServer) (i : Nat) (fd : Int) : TcpServer :=
  startTimeoutTimer (timerWith 0) { withPlace server i fd with
    activeConnections := server.activeConnections.insert fd
      (TcpSocket.create 1024 fd .connected 1024) } fd

/-- A new descriptor at a free place, registered in the index map, keeps a server consistent. -/
theorem withClient_consistent {n i : Nat} {serverSD fd : Int} {server : TcpServer}
    (h : Consistent n serverSD server) (hpos : 0 < fd) (hnew : fd ∉ server.socketFdIndexMap)
    (hfree : i ∈ server.socketListEmptyIndexSet) :
    Consistent n serverSD (withClient server i fd) := by
  refine startTimeoutTimer_consistent _ (h.take hpos hnew hfree rfl rfl rfl ?_) fd
  intro fd'
  show fd' ∈ server.activeConnections.insert fd _ ↔ _
  rw [mem_insert_iff, eq_comm]

/-- A server with three places that has accepted the descriptors 7 and 9. -/
def twoClients : TcpServer := withClient (withClient (setUp 3 3 1000 0) 1 7) 2 9

/-- The two descriptors of `twoClients` are at the places 1 and 2. -/
theorem twoClients_index (fd : Int) :
    twoClients.socketFdIndexMap[fd]? = if 9 = fd then some 2 else if 7 = fd then some 1 else none := by
  show (((∅ : Std.ExtTreeMap Int Nat).insert 7 1).insert 9 2)[fd]? = _
  simp [Std.ExtTreeMap.getElem?_insert]

/-- `twoClients` is the server with one client and one `withClient` more, hence consistent. -/
theorem twoClients_consistent : Consistent 3 3 twoClients := by
  have hfree : ∀ i, i ∈ (setUp 3 3 1000 0).socketListEmptyIndexSet ↔ i ∈ List.range' 1 2 := by
    intro i
    rw [setUp, mem_foldl_insert]
    simp
  refine withClient_consistent (withClient_consistent (setUp_consistent 3 3 1000 0 (by decide))
    (by decide) (by simp [setUp]) ((hfree 1).mpr (by decide))) (by decide) ?_ ?_
  · show (9 : Int) ∉ (∅ : Std.ExtTreeMap Int Nat).insert 7 1
    rw [mem_insert_iff]
    simp
  · show 2 ∈ (setUp 3 3 1000 0).socketListEmptyIndexSet.erase 1
    rw [Std.ExtTreeSet.mem_erase]
    exact ⟨by decide, (hfree 2).mpr (by decide)⟩

/-- The result for a round in which both clients have data and the server socket has no events. -/
theorem serves_two_clients : ∃ i j, twoClients.socketFdIndexMap[(7 : Int)]? = some i ∧
    twoClients.socketFdIndexMap[(9 : Int)]? = some j ∧
    Readable (poll (fun k => if k = 0 then 0 else pollIn) twoClients) i ∧
    Readable (poll (fun k => if k = 0 then 0 else pollIn) twoClients) j ∧
    ServesAll (poll (fun k => if k = 0 then 0 else pollIn) twoClients) twoClients
      (processSockets (poll (fun k => if k = 0 then 0 else pollIn) twoClients) []
        (fun _ => ⟨timerWith 1, quietSystem, timerWith 1⟩) twoClients) := by
  have hseven := twoClients_index 7
  have hnine := twoClients_index 9
  refine ⟨1, 2, hseven, hnine, ?_, ?_,
    (serves_all_iff twoClients_consistent _ [] _).mpr fun fd i hindex => ?_⟩
  · rw [Readable, poll_used twoClients_consistent.placed _ hseven]
    rfl
  · rw [Readable, poll_used twoClients_consistent.placed _ hnine]
    rfl
  · have hpos := (twoClients_consistent.used fd i hindex).1
    rw [HungUp, poll_used twoClients_consistent.placed _ hindex, if_neg (by omega)]
    refine ⟨by decide, fun _ => ⟨Or.inl (poll_zero _ rfl), ?_⟩⟩
    rw [newlyPlaced, if_neg (by rw [poll_zero twoClients rfl]; decide)]
    exact List.not_mem_nil

/-- A server with two places that has accepted the descriptor 7. -/
def oneClient : TcpServer :=
  startTimeoutTimer ⟨fun _ => 0, fun _ => true⟩ { withPlace (setUp 3 2 1000 0) 1 7 with
    activeConnections := (∅ : Std.ExtTreeMap Int TcpSocket).insert 7
      (TcpSocket.create 1024 7 .connected 1024) } 7

/-- `oneClient` is a server without clients and one `withClient` more, hence consistent. -/
theorem oneClient_consistent : Consistent 2 3 oneClient := by
  have hpos : (0 : Int) < 7 := by decide
  have hfree : 1 ∈ (setUp 3 2 1000 0).socketListEmptyIndexSet := by simp [setUp]
  refine startTimeoutTimer_consistent _ ((setUp_consistent 3 2 1000 0 (by decide)).take
    hpos (by simp [setUp]) hfree rfl rfl rfl ?_) 7
  intro fd
  show fd ∈ (∅ : Std.ExtTreeMap Int TcpSocket).insert 7 _ ↔ _ ∨ fd ∈ (∅ : Std.ExtTreeMap Int TcpSocket)
  rw [mem_insert_iff, eq_comm]

/-- The descriptor of `oneClient` is at the place 1. -/
theorem oneClient_index (fd : Int) :
    oneClient.socketFdIndexMap[fd]? = if 7 = fd then some 1 else none := by
  show ((∅ : Std.ExtTreeMap Int Nat).insert 7 1)[fd]? = _
  simp [Std.ExtTreeMap.getElem?_insert]

/-- No place of it is free. -/
theorem oneClient_full : oneClient.socketListEmptyIndexSet = ∅ := by
  rw [Std.ExtTreeSet.eq_empty_iff_forall_not_mem]
  intro i hi
  have hi : i ∈ ((∅ : Std.ExtTreeSet Nat).insert 1).erase 1 := hi
  simp at hi

/-- A connection is waiting, no place is free, and a client that has data is not served. -/
theorem full_server_serves_nobody : ∃ (server : TcpServer) (events : Nat → Nat),
    Consistent 2 3 server ∧ ∀ turns answers, ¬ServesAll (poll events server) server
      (processSockets (poll events server) turns answers server) := by
  refine ⟨oneClient, fun _ => pollIn, oneClient_consistent, fun turns answers => ?_⟩
  have hreaches : ¬ReachesClients (poll (fun _ => pollIn) oneClient) oneClient turns := by
    rintro (hzero | ⟨-, hfree, -⟩)
    · exact absurd hzero (by decide)
    · exact hfree oneClient_full
  rw [processSockets_of_not_reaches answers hreaches, servesAll_of_no_calls]
  intro hnone
  exact (hnone 7 1 (oneClient_index 7)).2 (by decide)

end Brutils.Proofs.Tcp
