import Brutils.Proofs.Tcp.PollRound

/-!
# `Brutils.Proofs.Tcp.OpenDescriptors`: which rounds leave a closed descriptor registered

A socket closes its descriptor when `::recv` says that the peer has closed. The server hears
of it from `POLLHUP` only, and `::poll` never sets that for a descriptor that is closed. So the
descriptor stays in the tables.

`Live` is what should hold after a round: every socket of the server is connected, and every
registered descriptor has a socket. `NobodyLeaves` is the condition on a round under which it
does, and `stays_live_iff` says so for every run. `closed_stays_registered` is a run of two
rounds.

The outcome of a round can be undefined, and then the server can be anything afterwards
(`After`).
-/

set_option autoImplicit false

namespace Brutils.Proofs.Tcp

open InverseMaps
open Transition (Reachable)
open Brutils.TcpServer

/-- Every socket is connected, and every registered descriptor has a socket. -/
structure Live (server : TcpServer) : Prop where
  connected : ∀ (fd : Int) (socket : TcpSocket), server.activeConnections[fd]? = some socket →
    socket.connectionStatus = .connected
  index : ∀ fd : Int, fd ∈ server.socketFdIndexMap → fd ∈ server.activeConnections
  places : ∀ (i : Nat) (fd : Int), 1 ≤ i → fdAt server i = some fd →
    fd = -1 ∨ fd ∈ server.activeConnections

/-- What the system and the timer answer in a round. -/
structure Inputs where
  events : Nat → Nat
  turns : List Turn
  answers : Int → Answers

/-- `::close` succeeds, and the sockets live on the thread of the server. -/
def Inputs.ClosesSucceed (inputs : Inputs) : Prop :=
  ∀ fd, (inputs.answers fd).system.closeAnswer = ⟨true, none⟩

/-- The servers that a round can lead to. -/
def After (inputs : Inputs) (server server' : TcpServer) : Prop :=
  match processSockets (poll inputs.events server) inputs.turns inputs.answers server with
  | .returned _ round => server' = round.server
  | .undefined _ => True

/-- Reading comes to the point where `::recv` says that the peer has closed. -/
def readsEnd : List TcpSocket.Recv → Bool
  | [] => false
  | .wouldBlock :: _ => false
  | .error _ :: _ => false
  | .closed :: _ => true
  | .data chunk :: outcomes =>
    decide (chunk.bytes.length = TcpSocket.incomingDataSize) && readsEnd outcomes

/-- If the round comes to the clients, none of those that keep their place has hung up, and none of
those that have data reads to the point where the peer has closed. -/
def NobodyLeaves (inputs : Inputs) (server : TcpServer) : Prop :=
  ReachesClients (poll inputs.events server) server inputs.turns →
    ∀ (fd : Int) (i : Nat), server.socketFdIndexMap[fd]? = some i →
      fd ∉ newlyPlaced (poll inputs.events server) server inputs.turns →
      ¬HungUp (poll inputs.events server) i ∧
        (Readable (poll inputs.events server) i →
          readsEnd (inputs.answers fd).system.outcomes = false)

/-- Every round leads to some server. -/
theorem exists_after (inputs : Inputs) (server : TcpServer) :
    ∃ server', After inputs server server' := by
  unfold After
  cases processSockets (poll inputs.events server) inputs.turns inputs.answers server with
  | returned result round => exact ⟨round.server, rfl⟩
  | undefined round => exact ⟨server, trivial⟩

/-- A round that nobody leaves. -/
def QuietRound (server server' : TcpServer) : Prop :=
  ∃ inputs : Inputs, inputs.ClosesSucceed ∧ NobodyLeaves inputs server ∧
    After inputs server server'

/-! ### Reading -/

section
variable (strerror : Nat → Text)

/-- The loop of `readFromSocket` disconnects the socket exactly when it comes to the point where the
peer has closed. -/
theorem receive_connectionStatus {socket : TcpSocket}
    (h : socket.connectionStatus = .connected) (outcomes : List TcpSocket.Recv) (total : Nat) :
    (TcpSocket.receive strerror ⟨true, none⟩ outcomes socket total).1.connectionStatus =
      if readsEnd outcomes then .notConnected else .connected := by
  induction outcomes generalizing socket total with
  | nil => exact h
  | cons outcome outcomes ih =>
    cases outcome with
    | wouldBlock => exact h
    | error errno => exact h
    | closed =>
      show (TcpSocket.disconnect strerror ⟨true, none⟩ socket).2.connectionStatus = .notConnected
      rw [TcpSocket.disconnect, if_neg (not_not.mpr h)]
      rfl
    | data chunk =>
      rw [TcpSocket.receive, readsEnd]
      by_cases hfull : chunk.bytes.length = TcpSocket.incomingDataSize
      · simp only [hfull, decide_true, Bool.true_and, if_true]
        refine ih ?_ _
        exact h
      · simp only [hfull, decide_false, Bool.false_and, if_false]
        exact h

/-- A socket is connected after reading if it was before and the peer has not closed. -/
theorem readFromSocket_connectionStatus (outcomes : List TcpSocket.Recv) (socket : TcpSocket) :
    (socket.readFromSocket strerror ⟨true, none⟩ outcomes).2.connectionStatus = .connected ↔
      socket.connectionStatus = .connected ∧ readsEnd outcomes = false := by
  unfold TcpSocket.readFromSocket
  by_cases h : socket.connectionStatus = .connected
  · rw [if_neg (not_not.mpr h)]
    have hreceive := receive_connectionStatus strerror h outcomes 0
    generalize TcpSocket.receive strerror ⟨true, none⟩ outcomes socket 0 = received at hreceive
    obtain ⟨socket', total⟩ := received
    have hemit : (if 0 < total then socket'.emit .dataReady else socket').connectionStatus
        = socket'.connectionStatus := by
      split
      · rfl
      · rfl
    show (if 0 < total then socket'.emit .dataReady else socket').connectionStatus = _ ↔ _
    rw [hemit, show socket'.connectionStatus = _ from hreceive]
    cases readsEnd outcomes with
    | false => exact iff_of_true rfl ⟨h, rfl⟩
    | true => exact iff_of_false (fun heq => nomatch heq) fun hboth => nomatch hboth.2
  · rw [if_pos h]
    exact iff_of_false h fun hboth => h hboth.1

end

/-! ### The accept phase -/

section
variable {server server' : TcpServer}

/-- What `addNewConnection` keeps, the accept phase keeps. -/
theorem afterAccept_keeps {P : TcpServer → Prop}
    (hadd : ∀ server timer system fd, 0 < fd → P server →
      P (server.addNewConnection timer system fd).2)
    (h : P server) (revents : Nat → Nat) (turns : List Turn) :
    P (afterAccept revents turns server) := by
  have hloop : ∀ server, P server → P (acceptLoop turns server).2 := by
    intro server h
    induction turns generalizing server with
    | nil => exact h
    | cons turn turns ih =>
      rw [acceptLoop_cons]
      split
      · rename_i hturn
        exact ih _ (hadd server _ _ _ hturn.2 h)
      · exact h
  unfold afterAccept
  split
  · unfold acceptNewConnections
    split
    · exact h
    · exact hloop server h
  · exact h

/-- A socket is made with the status that it is given. -/
theorem create_connectionStatus (maxSize : Nat) (fd : Int) (status : ConnectionStatus)
    (readBufferSize : Nat) :
    (TcpSocket.create maxSize fd status readBufferSize).connectionStatus = status := rfl

/-- The tables after a descriptor that has a socket has taken a free place. -/
theorem Live.withPlace (h : Live server) (hplaced : Placed server) {i : Nat}
    (hi : i ∈ server.socketListEmptyIndexSet) {fd : Int}
    {connections : Std.ExtTreeMap Int TcpSocket}
    (hconnected : ∀ (fd' : Int) (socket : TcpSocket), connections[fd']? = some socket →
      socket.connectionStatus = .connected)
    (hmem : fd ∈ connections) (hsub : ∀ fd' : Int, fd' ∈ server.activeConnections →
      fd' ∈ connections) :
    Live { withPlace server i fd with activeConnections := connections } := by
  refine ⟨hconnected, ?_, ?_⟩
  · intro fd' hfd'
    have hinsert : fd' ∈ server.socketFdIndexMap.insert fd i := hfd'
    rw [mem_insert_iff] at hinsert
    rcases hinsert with rfl | hold
    · exact hmem
    · exact hsub fd' (h.index fd' hold)
  · intro j fd' hj hat
    have hat : fdAt (Tcp.withPlace server i fd) j = some fd' := hat
    rw [fdAt_withPlace hplaced hi] at hat
    by_cases hij : i = j
    · rw [if_pos hij] at hat
      rw [← Option.some.inj hat]
      exact Or.inr hmem
    · rw [if_neg hij] at hat
      exact (h.places j fd' hj hat).imp_right (hsub fd')

/-- A new connection has a connected socket, and a place. -/
theorem addNewConnection_live (timer : Timer) (system : System) {fd : Int} (hpos : 0 < fd)
    (h : Placed server ∧ Live server) :
    Placed (server.addNewConnection timer system fd).2 ∧
      Live (server.addNewConnection timer system fd).2 := by
  obtain ⟨hplaced, hlive⟩ := h
  rcases addNewConnection_cases timer system server fd with
    ⟨-, hrun⟩ | ⟨i, hmin, ⟨hactive, hrun⟩ | ⟨hinactive, readBufferSize, hrun⟩⟩
  · rw [hrun]
    exact ⟨hplaced, hlive⟩
  · have hi := Std.ExtTreeSet.min?_mem hmin
    rw [hrun]
    exact ⟨hplaced.withPlace hi hpos,
      hlive.withPlace hplaced hi hlive.connected hactive fun _ hmem => hmem⟩
  · have hi := Std.ExtTreeSet.min?_mem hmin
    rw [hrun]
    refine ⟨(hplaced.withPlace hi hpos).congr rfl rfl rfl, ?_⟩
    suffices hnew : Live { withPlace server i fd with
        activeConnections := server.activeConnections.insert fd
          (TcpSocket.create system.maxSize fd .connected readBufferSize) } from
      ⟨hnew.connected, hnew.index, hnew.places⟩
    refine hlive.withPlace hplaced hi ?_ ?_ ?_
    · intro fd' socket hsocket
      rw [Std.ExtTreeMap.getElem?_insert] at hsocket
      split at hsocket
      · rw [← Option.some.inj hsocket, create_connectionStatus]
      · exact hlive.connected fd' socket hsocket
    · simp
    · intro fd' hmem
      rw [Std.ExtTreeMap.mem_insert]
      exact Or.inr hmem

end

/-! ### The clients -/

section
variable {revents : Nat → Nat} {answers : Int → Answers} {round : Round}

/-- What the call of `newIncomingData` makes of a socket. -/
def readWith (answers : Answers) (socket : TcpSocket) : TcpSocket :=
  (socket.readFromSocket answers.system.strerror answers.system.closeAnswer
    answers.system.outcomes).2

/-- Reading leaves a socket connected if it was before and the peer has not closed. -/
theorem readWith_connected {answers : Answers}
    (hclose : answers.system.closeAnswer = ⟨true, none⟩) (socket : TcpSocket) :
    (readWith answers socket).connectionStatus = .connected ↔
      socket.connectionStatus = .connected ∧ readsEnd answers.system.outcomes = false := by
  rw [readWith, hclose]
  exact readFromSocket_connectionStatus _ _ _

/-- The sockets after the calls for a client that has not hung up. -/
theorem serveClient_socket (answers : Answers) (fd : Int) {i : Nat} (hup : ¬HungUp revents i)
    (round : Round) (fd' : Int) :
    (serveClient revents answers fd i round).server.activeConnections[fd']? =
      if Readable revents i ∧ fd = fd' then
        round.server.activeConnections[fd']?.map (readWith answers)
      else round.server.activeConnections[fd']? := by
  rw [serveClient_of_not_hungUp answers fd hup]
  by_cases hreadable : Readable revents i
  · rw [if_pos hreadable]
    rcases newIncomingData_cases answers.readTimer answers.system round.server fd with
      ⟨hnone, hrun⟩ | ⟨connection, hconnection, hrun⟩
    · rw [hrun]
      show round.server.activeConnections[fd']? = _
      split
      · rename_i hfd
        rw [← hfd.2, hnone]
        rfl
      · rfl
    · obtain ⟨timerIds, fds, hstop⟩ := stopTimeoutTimer_cases answers.readTimer round.server fd
      rw [hrun, hstop]
      show (round.server.activeConnections.insert fd _)[fd']? = _
      rw [Std.ExtTreeMap.getElem?_insert]
      by_cases hfd : fd = fd'
      · rw [if_pos (Std.LawfulEqCmp.compare_eq_iff_eq.mpr hfd), if_pos ⟨hreadable, hfd⟩, ← hfd,
          hconnection]
        rfl
      · rw [if_neg (mt Std.LawfulEqCmp.compare_eq_iff_eq.mp hfd), if_neg fun hboth => hfd hboth.2]
  · rw [if_neg hreadable, if_neg fun hboth => hreadable hboth.1]

/-- The calls leave every socket under its key. -/
theorem serveClient_keys (answers : Answers) (fd : Int) {i : Nat} (hup : ¬HungUp revents i)
    (round : Round) (fd' : Int) :
    fd' ∈ (serveClient revents answers fd i round).server.activeConnections ↔
      fd' ∈ round.server.activeConnections := by
  rw [Std.ExtTreeMap.mem_iff_isSome_getElem?, Std.ExtTreeMap.mem_iff_isSome_getElem?,
    serveClient_socket answers fd hup]
  split
  · rw [Option.isSome_map]
  · rfl

/-- `Live` depends on the places, and of the sockets on the keys and on the status. -/
theorem Live.congr {server server' : TcpServer} (h : Live server)
    (hsame : SamePlaces server server')
    (hkeys : ∀ fd : Int, fd ∈ server'.activeConnections ↔ fd ∈ server.activeConnections)
    (hconnected : ∀ (fd : Int) (socket : TcpSocket),
      server'.activeConnections[fd]? = some socket → socket.connectionStatus = .connected) :
    Live server' := by
  refine ⟨hconnected, ?_, ?_⟩
  · intro fd hfd
    rw [hsame.index] at hfd
    exact (hkeys fd).mpr (h.index fd hfd)
  · intro i fd hi hat
    rw [fdAt, hsame.list] at hat
    exact (h.places i fd hi hat).imp_right (hkeys fd).mpr

/-- The turn of a client keeps `Live` when the client has not hung up and is not read to its end. -/
theorem serveClient_live (hclose : ∀ fd, (answers fd).system.closeAnswer = ⟨true, none⟩)
    (fd : Int) {i : Nat} (hup : ¬HungUp revents i)
    (hend : Readable revents i → readsEnd (answers fd).system.outcomes = false)
    (h : Live round.server) : Live (serveClient revents (answers fd) fd i round).server := by
  refine h.congr (serveClient_samePlaces (answers fd) fd hup round)
    (serveClient_keys (answers fd) fd hup round) ?_
  intro fd' socket hsocket
  rw [serveClient_socket (answers fd) fd hup] at hsocket
  split at hsocket
  · rename_i hserved
    obtain ⟨socket', hsocket', rfl⟩ := Option.map_eq_some_iff.mp hsocket
    exact (readWith_connected (hclose fd) socket').mpr
      ⟨h.connected fd' socket' hsocket', hend hserved.1⟩
  · exact h.connected fd' socket hsocket

/-- The calls for clients of which nobody leaves. -/
theorem served_live {clients : List (Int × Nat)} (round : Round)
    (hclose : ∀ fd, (answers fd).system.closeAnswer = ⟨true, none⟩)
    (hstay : ∀ it ∈ clients, ¬HungUp revents it.2 ∧
      (Readable revents it.2 → readsEnd (answers it.1).system.outcomes = false))
    (hplaced : Placed round.server) (h : Live round.server) :
    Placed (served revents answers clients round).server ∧
      Live (served revents answers clients round).server := by
  induction clients generalizing round with
  | nil => exact ⟨hplaced, h⟩
  | cons it clients ih =>
    obtain ⟨⟨hup, hend⟩, hrest⟩ := List.forall_mem_cons.mp hstay
    have hsame := serveClient_samePlaces (answers it.1) it.1 hup round
    exact ih _ hrest (hplaced.congr hsame.list hsame.free hsame.index)
      (serveClient_live hclose it.1 hup hend h)

/-- The descriptor has a socket that is not connected. -/
def Stale (server : TcpServer) (fd : Int) : Prop :=
  ∃ socket, server.activeConnections[fd]? = some socket ∧ socket.connectionStatus ≠ .connected

/-- A socket that is not connected stays so. -/
theorem Stale.serveClient (hclose : ∀ fd, (answers fd).system.closeAnswer = ⟨true, none⟩)
    {fd' : Int} (h : Stale round.server fd') (fd : Int) {i : Nat} (hup : ¬HungUp revents i) :
    Stale (serveClient revents (answers fd) fd i round).server fd' := by
  obtain ⟨socket, hsocket, hstatus⟩ := h
  unfold Stale
  rw [serveClient_socket (answers fd) fd hup, hsocket]
  split
  · exact ⟨_, rfl, fun hconnected =>
      hstatus ((readWith_connected (hclose fd) socket).mp hconnected).1⟩
  · exact ⟨socket, rfl, hstatus⟩

/-- So it does through the turns of any clients that have not hung up. -/
theorem Stale.served {clients : List (Int × Nat)} (round : Round)
    (hclose : ∀ fd, (answers fd).system.closeAnswer = ⟨true, none⟩)
    (hup : ∀ it ∈ clients, ¬HungUp revents it.2) {fd : Int} (h : Stale round.server fd) :
    Stale (served revents answers clients round).server fd := by
  induction clients generalizing round with
  | nil => exact h
  | cons it clients ih =>
    obtain ⟨hup, huprest⟩ := List.forall_mem_cons.mp hup
    exact ih _ huprest (h.serveClient hclose it.1 hup)

/-- A client that reads to the end stays in the tables with a socket that is not connected. -/
theorem served_stale {clients : List (Int × Nat)} (round : Round)
    (hclose : ∀ fd, (answers fd).system.closeAnswer = ⟨true, none⟩)
    (hup : ∀ it ∈ clients, ¬HungUp revents it.2) {it : Int × Nat} (hit : it ∈ clients)
    (hreadable : Readable revents it.2) (hend : readsEnd (answers it.1).system.outcomes = true)
    (hactive : it.1 ∈ round.server.activeConnections) :
    Stale (served revents answers clients round).server it.1 := by
  induction clients generalizing round with
  | nil => cases hit
  | cons it' clients ih =>
    obtain ⟨hup, huprest⟩ := List.forall_mem_cons.mp hup
    rcases List.mem_cons.mp hit with rfl | hmem
    · refine Stale.served (serveClient revents (answers it.1) it.1 it.2 round) hclose huprest ?_
      obtain ⟨socket, hsocket⟩ := Option.isSome_iff_exists.mp
        (Std.ExtTreeMap.mem_iff_isSome_getElem?.mp hactive)
      unfold Stale
      rw [serveClient_socket (answers it.1) it.1 hup, if_pos ⟨hreadable, rfl⟩, hsocket]
      refine ⟨_, rfl, fun hconnected => ?_⟩
      have hnot := ((readWith_connected (hclose it.1) socket).mp hconnected).2
      rw [hend] at hnot
      cases hnot
    · exact ih _ huprest hmem ((serveClient_keys (answers it'.1) it'.1 hup round it.1).mpr hactive)

/-- A stale descriptor is what `Live` forbids. -/
theorem Stale.not_live {server : TcpServer} {fd : Int} (h : Stale server fd) : ¬Live server := by
  obtain ⟨socket, hsocket, hstatus⟩ := h
  exact fun hlive => hstatus (hlive.connected fd socket hsocket)

end

/-! ### Rounds -/

section
variable {server server' : TcpServer} {inputs : Inputs}

/-- The accept phase adds connected sockets only. -/
theorem afterAccept_live (h : Placed server ∧ Live server) (revents : Nat → Nat)
    (turns : List Turn) :
    Placed (afterAccept revents turns server) ∧ Live (afterAccept revents turns server) :=
  afterAccept_keeps (P := fun server => Placed server ∧ Live server)
    (fun _ timer system _ hpos h => addNewConnection_live timer system hpos h) h revents turns

/-- A round that nobody leaves keeps the tables in order. -/
theorem round_live (h : Placed server ∧ Live server) (hclose : inputs.ClosesSucceed)
    (hstay : NobodyLeaves inputs server) (hafter : After inputs server server') :
    Placed server' ∧ Live server' := by
  have haccepted := afterAccept_accepted h.1 (poll inputs.events server) inputs.turns
  obtain ⟨hplaced, hlive⟩ := afterAccept_live h (poll inputs.events server) inputs.turns
  unfold After at hafter
  by_cases hreaches : ReachesClients (poll inputs.events server) server inputs.turns
  · have hclients : ∀ it ∈ (afterAccept (poll inputs.events server) inputs.turns
        server).socketFdIndexMap.toList, ¬HungUp (poll inputs.events server) it.2 ∧
          (Readable (poll inputs.events server) it.2 →
            readsEnd (inputs.answers it.1).system.outcomes = false) := by
      intro it hit
      have hindex := Std.ExtTreeMap.mem_toList_iff_getElem?_eq_some.mp hit
      by_cases hevents : poll inputs.events server it.2 = 0
      · exact ⟨fun hup => ne_zero_of_hungUp hup hevents,
          fun hreadable => absurd hevents (ne_zero_of_readable hreadable)⟩
      · obtain ⟨hold, hregistered⟩ := haccepted.registered h.1 hindex hevents
        exact hstay hreaches it.1 it.2 hregistered hold
    rw [processSockets_of_reaches inputs.answers hreaches,
      clientLoop_spec inputs.answers ⟨afterAccept (poll inputs.events server) inputs.turns server, []⟩
        hplaced (fun _ hit => Std.ExtTreeMap.mem_toList_iff_getElem?_eq_some.mp hit)
        fun it hit => (hclients it hit).1] at hafter
    obtain rfl : server' = _ := hafter
    exact served_live _ hclose hclients hplaced hlive
  · rw [processSockets_of_not_reaches inputs.answers hreaches] at hafter
    obtain rfl : server' = _ := hafter
    exact ⟨hplaced, hlive⟩

/-- A round that somebody leaves can lead to tables that are not in order. -/
theorem round_not_live (h : Placed server ∧ Live server) (hclose : inputs.ClosesSucceed)
    (hleave : ¬NobodyLeaves inputs server) :
    ∃ server', After inputs server server' ∧ ¬Live server' := by
  have haccepted := afterAccept_accepted h.1 (poll inputs.events server) inputs.turns
  obtain ⟨hplaced, hlive⟩ := afterAccept_live h (poll inputs.events server) inputs.turns
  unfold After
  unfold NobodyLeaves at hleave
  push Not at hleave
  obtain ⟨hreaches, fd, i, hregistered, hold, hleave⟩ := hleave
  rw [processSockets_of_reaches inputs.answers hreaches]
  generalize afterAccept (poll inputs.events server) inputs.turns server = accepted at *
  have hindex : ∀ it ∈ accepted.socketFdIndexMap.toList,
      accepted.socketFdIndexMap[it.1]? = some it.2 :=
    fun _ hit => Std.ExtTreeMap.mem_toList_iff_getElem?_eq_some.mp hit
  have hhere : accepted.socketFdIndexMap[fd]? = some i := (haccepted.old fd hold).trans hregistered
  by_cases hup : ∃ it ∈ accepted.socketFdIndexMap.toList,
      HungUp (poll inputs.events server) it.2
  · -- the round is undefined, and the server can be anything
    obtain ⟨it, hit, hup⟩ := hup
    obtain ⟨round, hundefined⟩ := clientLoop_undefined inputs.answers ⟨accepted, []⟩ hplaced
      hindex hit hup
    rw [hundefined]
    have hstale : Stale { accepted with
        activeConnections := (∅ : Std.ExtTreeMap Int TcpSocket).insert 1
          (TcpSocket.create 0 1 .notConnected 0) } 1 :=
      ⟨_, Std.ExtTreeMap.getElem?_insert_self, ConnectionStatus.noConfusion⟩
    exact ⟨_, trivial, hstale.not_live⟩
  · have hnone : ∀ it ∈ accepted.socketFdIndexMap.toList,
        ¬HungUp (poll inputs.events server) it.2 := fun it hit hungUp => hup ⟨it, hit, hungUp⟩
    rw [clientLoop_spec inputs.answers ⟨accepted, []⟩ hplaced hindex hnone]
    -- the client is read to its end, and stays in the tables
    have hmem := Std.ExtTreeMap.mem_toList_iff_getElem?_eq_some.mpr hhere
    obtain ⟨hreadable, hend⟩ := hleave (hnone _ hmem)
    have hactive := hlive.index fd
      (Std.ExtTreeMap.mem_iff_isSome_getElem?.mpr (by rw [hhere]; rfl))
    exact ⟨_, rfl, (served_stale ⟨accepted, []⟩ hclose hnone hmem hreadable
      (eq_true_of_ne_false hend) hactive).not_live⟩

/-- A server without clients has nothing to be wrong about. -/
theorem setUp_live (serverSD : Int) {n : Nat} (hn : 1 ≤ n) (connectionTimeout readBufferSize : Nat) :
    Placed (setUp serverSD n connectionTimeout readBufferSize) ∧
      Live (setUp serverSD n connectionTimeout readBufferSize) := by
  have hconsistent := setUp_consistent serverSD n connectionTimeout readBufferSize hn
  refine ⟨hconsistent.placed, ?_, fun fd => (hconsistent.keys fd).mpr, ?_⟩
  · intro fd socket hsocket
    simp [setUp] at hsocket
  · intro i fd hi hat
    have hlt := lt_of_fdAt hat
    rw [hconsistent.size] at hlt
    rcases hconsistent.covered i hi hlt with hfree | ⟨fd', hused⟩
    · obtain ⟨-, -, hat'⟩ := hconsistent.free i hfree
      exact Or.inl (Option.some.inj (hat.symm.trans hat'))
    · simp [setUp] at hused

/-- The run lemma: after any number of rounds that nobody leaves, the server is live. -/
theorem live_of_reachable {serverSD : Int} {n connectionTimeout readBufferSize : Nat} (hn : 1 ≤ n)
    (h : Reachable (· = setUp serverSD n connectionTimeout readBufferSize) QuietRound server) :
    Placed server ∧ Live server := by
  refine h.invariant (P := fun server => Placed server ∧ Live server) ?_ ?_
  · rintro s rfl
    exact setUp_live serverSD hn connectionTimeout readBufferSize
  · rintro s t - hs ⟨inputs, hclose, hstay, hafter⟩
    exact round_live hs hclose hstay hafter

/-- In a run of rounds that nobody leaves, the tables are in order after a further round exactly
if nobody leaves that one. -/
theorem stays_live_iff {serverSD : Int} {n connectionTimeout readBufferSize : Nat} (hn : 1 ≤ n)
    (h : Reachable (· = setUp serverSD n connectionTimeout readBufferSize) QuietRound server)
    (hclose : inputs.ClosesSucceed) :
    (∀ server', After inputs server server' → Live server') ↔ NobodyLeaves inputs server := by
  have hlive := live_of_reachable hn h
  constructor
  · intro hall
    by_contra hleave
    obtain ⟨server', hafter, hnot⟩ := round_not_live hlive hclose hleave
    exact hnot (hall server' hafter)
  · intro hstay server' hafter
    exact (round_live hlive hclose hstay hafter).2

end

/-! ### A peer that closes -/

/-- The answers of a system on which closing succeeds. -/
def answersWith (outcomes : List TcpSocket.Recv) : Answers :=
  ⟨⟨fun _ => 1, fun _ => true⟩, ⟨fun _ => [], 1024, ⟨true, none⟩, outcomes⟩,
    ⟨fun _ => 1, fun _ => true⟩⟩

/-- A round in which a connection arrives that gets the descriptor 7. -/
def arrival : Inputs where
  events i := if i = 0 then pollIn else 0
  turns := [⟨true, 7, ⟨fun _ => 0, fun _ => true⟩, ⟨fun _ => [], 1024, ⟨true, none⟩, []⟩⟩]
  answers _ := answersWith []

/-- Nobody is there to leave. -/
theorem arrival_nobodyLeaves : NobodyLeaves arrival (setUp 3 2 1000 0) := by
  intro _ fd i hindex
  simp [setUp] at hindex

/-- A round in which the descriptor at the place `i` has data, and its peer has closed. -/
def departure (i : Nat) : Inputs where
  events j := if j = i then pollIn else 0
  turns := []
  answers _ := answersWith [.closed]

/-- After the arrival, the descriptor 7 is registered. -/
theorem arrival_after : ∃ server i, After arrival (setUp 3 2 1000 0) server ∧ 1 ≤ i ∧
    server.socketFdIndexMap[(7 : Int)]? = some i := by
  have hconsistent := setUp_consistent 3 2 1000 0 (by decide)
  have hserver : poll arrival.events (setUp 3 2 1000 0) 0 = pollIn := rfl
  have hfree := setUp_free 3 (le_refl 2) 1000 0
  have hnew : 7 ∈ newlyPlaced (poll arrival.events (setUp 3 2 1000 0)) (setUp 3 2 1000 0)
      arrival.turns := by
    rw [newlyPlaced, if_pos hserver, handedOut, setUp_size]
    exact List.mem_singleton_self 7
  have haccepted := afterAccept_accepted hconsistent.placed
    (poll arrival.events (setUp 3 2 1000 0)) arrival.turns
  unfold After
  rw [processSockets_of_reaches arrival.answers (Or.inr ⟨hserver, hfree, rfl⟩)]
  generalize afterAccept (poll arrival.events (setUp 3 2 1000 0)) arrival.turns
    (setUp 3 2 1000 0) = accepted at haccepted
  obtain ⟨i, hi, hindex⟩ := haccepted.new 7 hnew
  have hclients : ∀ it ∈ accepted.socketFdIndexMap.toList,
      ¬HungUp (poll arrival.events (setUp 3 2 1000 0)) it.2 := by
    intro it hit hup
    have hregistered := (haccepted.registered hconsistent.placed
      (Std.ExtTreeMap.mem_toList_iff_getElem?_eq_some.mp hit) (ne_zero_of_hungUp hup)).2
    simp [setUp] at hregistered
  rw [clientLoop_spec arrival.answers ⟨accepted, []⟩ haccepted.placed
    (fun _ hit => Std.ExtTreeMap.mem_toList_iff_getElem?_eq_some.mp hit) hclients]
  refine ⟨_, i, rfl, (hconsistent.free i hi).1, ?_⟩
  rw [(served_samePlaces arrival.answers ⟨accepted, []⟩ hclients).index]
  exact hindex

/-- A round in which the descriptor at the place `i` has five bytes, and its peer stays. -/
def delivery (i : Nat) : Inputs where
  events j := if j = i then pollIn else 0
  turns := []
  answers _ := answersWith [.data hello]

/-- `POLLIN` alone makes nobody leave, and the bytes do not come to their end. -/
theorem delivery_nobodyLeaves (server : TcpServer) (i : Nat) : NobodyLeaves (delivery i) server := by
  intro _ fd j _ _
  refine ⟨fun hup => ?_, fun _ => rfl⟩
  -- `POLLIN` is the only event that there is
  have hevents := poll_or_zero (delivery i).events server j
  rw [HungUp] at hup
  rcases hevents with hzero | hsome
  · rw [hzero] at hup
    exact absurd hup (by decide)
  · rw [hsome] at hup
    by_cases hj : j = i
    · rw [show (delivery i).events j = pollIn from if_pos hj] at hup
      exact absurd hup (by decide)
    · rw [show (delivery i).events j = 0 from if_neg hj] at hup
      exact absurd hup (by decide)

/-- The result for two rounds. In the first one a connection arrives, and in the second one that
connection has data, which is read. -/
theorem stays_live_after_data : ∃ server server' i, After arrival (setUp 3 2 1000 0) server ∧
    server.socketFdIndexMap[(7 : Int)]? = some i ∧
    Readable (poll (delivery i).events server) i ∧ After (delivery i) server server' ∧
    Live server' := by
  obtain ⟨server, i, harrived, -, hindex⟩ := arrival_after
  have hreachable : Reachable (· = setUp 3 2 1000 0) QuietRound server :=
    .step (.start rfl) ⟨arrival, fun _ => rfl, arrival_nobodyLeaves, harrived⟩
  have hplaced := (live_of_reachable (by decide) hreachable).1
  obtain ⟨server', hafter⟩ := exists_after (delivery i) server
  refine ⟨server, server', i, harrived, hindex, ?_, hafter, ?_⟩
  · rw [Readable, poll_used hplaced _ hindex]
    show (if i = i then pollIn else 0) &&& pollIn = pollIn
    rw [if_pos rfl]
    rfl
  · exact (stays_live_iff (by decide) hreachable fun _ => rfl).mpr (delivery_nobodyLeaves server i)
      server' hafter

/-- The peer of a connection closes: the descriptor that has been closed stays registered. -/
theorem closed_stays_registered :
    ¬∀ server server' inputs, Reachable (· = setUp 3 2 1000 0)
      (fun s t => ∃ inputs : Inputs, inputs.ClosesSucceed ∧ After inputs s t) server →
      inputs.ClosesSucceed → After inputs server server' → Live server' := by
  intro h
  obtain ⟨server, i, harrived, hi, hindex⟩ := arrival_after
  have hlive := round_live (setUp_live 3 (by decide) 1000 0) (fun _ => rfl) arrival_nobodyLeaves
    harrived
  have hevents : poll (departure i).events server i = pollIn := by
    rw [poll_used hlive.1 _ hindex]
    exact if_pos rfl
  have hquiet : poll (departure i).events server 0 = 0 := by
    refine poll_zero _ ?_
    exact if_neg (by omega)
  have hleave : ¬NobodyLeaves (departure i) server := by
    intro hstay
    have hnew : 7 ∉ newlyPlaced (poll (departure i).events server) server (departure i).turns := by
      rw [newlyPlaced, hquiet]
      exact List.not_mem_nil
    have hreadable : Readable (poll (departure i).events server) i := by
      rw [Readable, hevents]
      rfl
    cases (hstay (Or.inl hquiet) 7 i hindex hnew).2 hreadable
  obtain ⟨server', hafter, hnot⟩ := round_not_live hlive (fun _ => rfl) hleave
  exact hnot (h server server' (departure i)
    (.step (.start rfl) ⟨arrival, fun _ => rfl, harrived⟩) (fun _ => rfl) hafter)

end Brutils.Proofs.Tcp
