import Brutils.Tcp.Socket
import Mathlib.Order.Basic
import Std.Data.ExtTreeMap
import Std.Data.ExtTreeSet

/-!
# `Brutils.Tcp.Server`: the socket tables of `TcpServer`

A `TcpServer` keeps what it knows about its connections in four tables: the array for
`::poll`, the set of free places in it, the place of each descriptor, and the sockets. Two
maps say which timer watches which descriptor.

`std::map` and `std::set` are the tree maps and sets of the library. A map from a timer's id
has `uint16_t` keys, and the timer's own `int16_t` is converted to it and back, which loses
nothing, so an id is a `UInt16` everywhere. What the timer answers is an argument. So is
what the system answers to the socket that reads.

`_socketList[i]` with an index outside the array changes nothing here. The indices come from
`_socketListEmptyIndexSet`, and the invariant of the tables says that they are inside.
-/

set_option autoImplicit false

namespace Brutils

/-- `pollfd`, without the part that `::poll` writes. -/
structure PollFd where
  fd : Int
  events : Nat
  deriving DecidableEq

/-- `POLLIN`. -/
def pollIn : Nat := 1

/-- The members of `TcpServer` that say what it serves. -/
structure TcpServer where
  serverSD : Int
  maxConnectionSize : Nat
  connectionTimeout : Nat
  readBufferSize : Nat
  socketList : List PollFd
  socketListEmptyIndexSet : Std.ExtTreeSet Nat
  socketFdIndexMap : Std.ExtTreeMap Int Nat
  socketFdTimerIdMap : Std.ExtTreeMap Int UInt16
  timerIdSocketFdMap : Std.ExtTreeMap UInt16 Int
  activeConnections : Std.ExtTreeMap Int TcpSocket

namespace TcpServer

/-- What `_timer` answers during a call. -/
structure Timer where
  addTimer : Nat → UInt16
  stopTimer : UInt16 → Bool

/-- What the system answers during a call. -/
structure System where
  strerror : Nat → Text
  maxSize : Nat
  closeAnswer : TcpSocket.CloseAnswer
  outcomes : List TcpSocket.Recv

/-- The tables that `run` sets up before its loop. -/
def setUp (serverSD : Int) (maxConnectionSize connectionTimeout readBufferSize : Nat) :
    TcpServer where
  serverSD := serverSD
  maxConnectionSize := maxConnectionSize
  connectionTimeout := connectionTimeout
  readBufferSize := readBufferSize
  socketList := ⟨serverSD, pollIn⟩ :: List.replicate (maxConnectionSize - 1) ⟨-1, pollIn⟩
  socketListEmptyIndexSet :=
    (List.range' 1 (maxConnectionSize - 1)).foldl (fun indexSet i => indexSet.insert i) ∅
  socketFdIndexMap := ∅
  socketFdTimerIdMap := ∅
  timerIdSocketFdMap := ∅
  activeConnections := ∅

variable (timer : Timer) (system : System)

/-- `addToSocketList`. -/
def addToSocketList (server : TcpServer) (socketFd : Int) : Bool × TcpServer :=
  match server.socketListEmptyIndexSet.min? with
  | none => (false, server)
  | some firstIndex =>
    (true, { server with
      socketList := server.socketList.modify firstIndex fun _ => ⟨socketFd, pollIn⟩
      socketFdIndexMap := server.socketFdIndexMap.insert socketFd firstIndex
      socketListEmptyIndexSet := server.socketListEmptyIndexSet.erase firstIndex })

/-- `removeFromSocketList`. -/
def removeFromSocketList (server : TcpServer) (socketFd : Int) : Bool × TcpServer :=
  match server.socketFdIndexMap[socketFd]? with
  | none => (false, server)
  | some index =>
    (true, { server with
      socketList := server.socketList.modify index fun entry => { entry with fd := -1 }
      socketListEmptyIndexSet := server.socketListEmptyIndexSet.insert index
      socketFdIndexMap := server.socketFdIndexMap.erase socketFd })

/-- `addToActiveConnections`. -/
def addToActiveConnections (server : TcpServer) (socket : TcpSocket) : Bool × TcpServer :=
  if server.activeConnections.contains socket.socketD then (false, server)
  else (true, { server with
    activeConnections := server.activeConnections.insert socket.socketD socket })

/-- `removeFromActiveConnections`. -/
def removeFromActiveConnections (server : TcpServer) (socketDescriptor : Int) :
    Bool × TcpServer :=
  if server.activeConnections.contains socketDescriptor then
    (true, { server with activeConnections := server.activeConnections.erase socketDescriptor })
  else (false, server)

/-- `startTimeoutTimer`. -/
def startTimeoutTimer (server : TcpServer) (socketDescriptor : Int) : TcpServer :=
  let id := timer.addTimer server.connectionTimeout
  { server with
    socketFdTimerIdMap := server.socketFdTimerIdMap.insert socketDescriptor id
    timerIdSocketFdMap := server.timerIdSocketFdMap.insert id socketDescriptor }

/-- `stopTimeoutTimer`, for a descriptor. -/
def stopTimeoutTimer (server : TcpServer) (socketDescriptor : Int) : Bool × TcpServer :=
  match server.socketFdTimerIdMap[socketDescriptor]? with
  | none => (false, server)
  | some id =>
    if timer.stopTimer id then
      (true, { server with
        socketFdTimerIdMap := server.socketFdTimerIdMap.erase socketDescriptor
        timerIdSocketFdMap := server.timerIdSocketFdMap.erase id })
    else (false, server)

/-- `addNewConnection`. -/
def addNewConnection (server : TcpServer) (socketDescriptor : Int) : Bool × TcpServer :=
  if server.socketListEmptyIndexSet.isEmpty then (false, server)
  else
    let readBufferSize :=
      if server.readBufferSize > 0 then server.readBufferSize else TcpSocket.defaultReadBufferSize
    let tcpSocket := TcpSocket.create system.maxSize socketDescriptor .connected readBufferSize
    match server.addToSocketList socketDescriptor with
    | (false, server) => (false, server)
    | (true, server) =>
      match server.addToActiveConnections tcpSocket with
      | (false, server) => (false, server)
      | (true, server) => (true, server.startTimeoutTimer timer socketDescriptor)

/-- `newIncomingData`. The map holds a pointer to the socket, so what `readFromSocket` makes of
the socket is written back under the same key. -/
def newIncomingData (server : TcpServer) (socketDescriptor : Int) : Bool × TcpServer :=
  match server.activeConnections[socketDescriptor]? with
  | none => (false, server)
  | some connection =>
    let server := (server.stopTimeoutTimer timer socketDescriptor).2
    let connection :=
      (connection.readFromSocket system.strerror system.closeAnswer system.outcomes).2
    let server := { server with
      activeConnections := server.activeConnections.insert socketDescriptor connection }
    (true, server.startTimeoutTimer timer socketDescriptor)

/-- `connectionClosed`. -/
def connectionClosed (server : TcpServer) (socketDescriptor : Int) : Bool × TcpServer :=
  let server := (server.removeFromSocketList socketDescriptor).2
  let server := (server.stopTimeoutTimer timer socketDescriptor).2
  let server := (server.removeFromActiveConnections socketDescriptor).2
  (true, server)

end TcpServer

end Brutils
