import Brutils.Tcp.Server

/-!
# `Brutils.Tcp.Poll`: one round of the loop of `TcpServer::run`

A round is a call of `::poll` and a call of `processSockets`. `::poll` writes a mask into each
place of the array (`revents`), and passes over the places whose descriptor is negative:
their mask is 0. The masks are numbers, and the two bits that matter are `POLLIN` and
`POLLHUP`.

What the system answers to `::accept` is a list of turns, one for each pass of the loop of
`acceptNewConnections`. What it and the timer answer to the calls for a client depends on
the descriptor, because a round serves each descriptor once.

The loop over the clients goes through `_socketFdIndexMap` itself. When the call for a client
erases the entry at which the loop stands, its next pass is undefined behaviour, and the
outcome of the round is `undefined`. The calls made so far are part of the outcome.
-/

set_option autoImplicit false

namespace Brutils

/-- `POLLHUP`. -/
def pollHup : Nat := 16

namespace TcpServer

/-- What `::poll` writes into the places of the array, when `events` is what it would write for
descriptors that are not negative. -/
def poll (events : Nat → Nat) (server : TcpServer) (index : Nat) : Nat :=
  match server.socketList[index]? with
  | none => 0
  | some entry => if entry.fd < 0 then 0 else events index

/-- One pass of the loop of `acceptNewConnections`: whether `_running` is set, what `::accept`
returns, and what `addNewConnection` is answered. -/
structure Turn where
  running : Bool
  newSocket : Int
  timer : Timer
  system : System

/-- The loop of `acceptNewConnections`. A list of turns that ends stands for an `::accept` that
has no more connections. -/
def acceptLoop : List Turn → TcpServer → Bool × TcpServer
  | [], server => (true, server)
  | turn :: turns, server =>
    if !turn.running then (true, server)
    else if 0 < turn.newSocket then
      acceptLoop turns (server.addNewConnection turn.timer turn.system turn.newSocket).2
    else if turn.newSocket = -1 then (true, server)
    else (false, server)

/-- `acceptNewConnections`. -/
def acceptNewConnections (turns : List Turn) (server : TcpServer) : Bool × TcpServer :=
  if server.socketListEmptyIndexSet.isEmpty then (false, server) else acceptLoop turns server

/-- A call that `processSockets` makes for a client. -/
inductive ClientCall
  | newIncomingData (socketDescriptor : Int)
  | connectionClosed (socketDescriptor : Int)
  deriving DecidableEq

/-- What the timer and the system answer to the calls for one client. -/
structure Answers where
  readTimer : Timer
  system : System
  closeTimer : Timer

/-- The server in a round, and the calls for the clients, in order. -/
structure Round where
  server : TcpServer
  calls : List ClientCall

/-- How `processSockets` ends. -/
inductive Outcome
  | returned (result : Bool) (round : Round)
  | undefined (round : Round)

section
variable (revents : Nat → Nat)

/-- The calls for the client at a place. -/
def serveClient (answers : Answers) (socketD : Int) (index : Nat) (round : Round) : Round :=
  if revents index = 0 then round
  else
    let round :=
      if revents index &&& pollIn = pollIn then
        { server := (round.server.newIncomingData answers.readTimer answers.system socketD).2
          calls := round.calls ++ [.newIncomingData socketD] }
      else round
    if revents index &&& pollHup = pollHup then
      { server := (round.server.connectionClosed answers.closeTimer socketD).2
        calls := round.calls ++ [.connectionClosed socketD] }
    else round

/-- The loop of `processSockets` over the clients. -/
def clientLoop (answers : Int → Answers) : List (Int × Nat) → Round → Outcome
  | [], round => .returned true round
  | (socketD, index) :: rest, round =>
    if round.server.socketList[index]?.map PollFd.fd ≠ some socketD then .returned false round
    else
      let round := serveClient revents (answers socketD) socketD index round
      if round.server.socketFdIndexMap.contains socketD then clientLoop answers rest round
      else .undefined round

/-- `processSockets`. -/
def processSockets (turns : List Turn) (answers : Int → Answers) (server : TcpServer) : Outcome :=
  if revents 0 = pollIn then
    match server.acceptNewConnections turns with
    | (false, server) => .returned false ⟨server, []⟩
    | (true, server) =>
      clientLoop revents answers server.socketFdIndexMap.toList ⟨server, []⟩
  else if revents 0 = 0 then
    clientLoop revents answers server.socketFdIndexMap.toList ⟨server, []⟩
  else .returned false ⟨server, []⟩

end

end TcpServer

end Brutils
