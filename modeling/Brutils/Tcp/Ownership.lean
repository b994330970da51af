import Brutils.Tcp.Poll

/-!
# `Brutils.Tcp.Ownership`: which descriptors the accept phase closes

A descriptor that `::accept` returns is open, and the only thing in the server that closes it is
the `TcpSocket` made for it: `~TcpSocket` calls `disconnect`. `addNewConnection` makes the
socket behind a `std::shared_ptr` of its own. On the path where `_activeConnections` takes a
copy of the pointer, the socket lives on. On the other paths after the pointer is made, it is
destroyed when the function returns. On the path before, there is no socket.

The functions here are `addNewConnection`, `acceptNewConnections` and its loop once more, with
the descriptors that have been closed written beside the server.
-/

set_option autoImplicit false

namespace Brutils

namespace TcpSocket

/-- The descriptors that `disconnect` closes. On another thread than that of the socket it calls
`::shutdown`, and that closes none. -/
def disconnectCloses (answer : CloseAnswer) (socket : TcpSocket) : List Int :=
  if socket.connectionStatus ≠ .connected then []
  else
    match answer.errno with
    | some _ => []
    | none => if answer.sameThread then [socket.socketD] else []

/-- The descriptors that `~TcpSocket` closes. -/
def destroyCloses (answer : CloseAnswer) (socket : TcpSocket) : List Int :=
  if socket.connectionStatus = .connected then socket.disconnectCloses answer else []

end TcpSocket

namespace TcpServer

/-- A server, and the descriptors that it has closed. -/
structure Ledger where
  server : TcpServer
  closed : List Int

namespace Ledger

/-- `addNewConnection`. -/
def addNewConnection (timer : Timer) (system : System) (ledger : Ledger)
    (socketDescriptor : Int) : Bool × Ledger :=
  -- no socket is made yet
  if ledger.server.socketListEmptyIndexSet.isEmpty then (false, ledger)
  else
    let readBufferSize :=
      if ledger.server.readBufferSize > 0 then ledger.server.readBufferSize
      else TcpSocket.defaultReadBufferSize
    let tcpSocket := TcpSocket.create system.maxSize socketDescriptor .connected readBufferSize
    match ledger.server.addToSocketList socketDescriptor with
    -- here and below the only pointer to the socket goes out of scope
    | (false, server) =>
      (false, ⟨server, ledger.closed ++ tcpSocket.destroyCloses system.closeAnswer⟩)
    | (true, server) =>
      match server.addToActiveConnections tcpSocket with
      | (false, server) =>
        (false, ⟨server, ledger.closed ++ tcpSocket.destroyCloses system.closeAnswer⟩)
      | (true, server) =>
        (true, ⟨server.startTimeoutTimer timer socketDescriptor, ledger.closed⟩)

/-- The loop of `acceptNewConnections`. -/
def acceptLoop : List Turn → Ledger → Bool × Ledger
  | [], ledger => (true, ledger)
  | turn :: turns, ledger =>
    if !turn.running then (true, ledger)
    else if 0 < turn.newSocket then
      acceptLoop turns (ledger.addNewConnection turn.timer turn.system turn.newSocket).2
    else if turn.newSocket = -1 then (true, ledger)
    else (false, ledger)

/-- `acceptNewConnections`. -/
def acceptNewConnections (turns : List Turn) (ledger : Ledger) : Bool × Ledger :=
  if ledger.server.socketListEmptyIndexSet.isEmpty then (false, ledger)
  else acceptLoop turns ledger

end Ledger

end TcpServer

end Brutils
