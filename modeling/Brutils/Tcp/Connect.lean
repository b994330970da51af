import Brutils.Tcp.Ownership

/-!
# `Brutils.Tcp.Connect`: the life of the descriptor of a `TcpSocket`

`TcpSocket::connect` asks the system for a descriptor with `::socket` and connects it with
`::connect`. The answers of the two are arguments. The address is only handed on to the system.

A `ClientSocket` is a socket with a ghost beside it: the descriptors that its calls of `::socket`
have opened and that none of its calls of `::close` has closed. A call of `connect` adds the one
that it opens. `disconnect` and `readFromSocket` take away those that they close
(`disconnectCloses`, `receiveCloses`).
-/

set_option autoImplicit false

namespace Brutils

namespace TcpSocket

/-- The answers of the system in `connect`: a descriptor from `::socket` or its `errno`, and the
`errno` of `::connect` if that fails. -/
structure ConnectAnswer where
  socketD : Except Nat Nat
  connectErrno : Option Nat

section
variable (strerror : Nat → Text)

/-- `connect`. -/
def connect (answer : ConnectAnswer) (socket : TcpSocket) : Bool × TcpSocket :=
  if socket.connectionStatus ≠ .notConnected then
    (false, setError socket .notAllowedInCurrentState
      "Cannot connect while already connected".toList)
  else if 0 < socket.socketD then
    (false, setError socket .badSocketDescriptor
      "Cannot connected while socked descriptor is valid before connect operation".toList)
  else
    match answer.socketD with
    | .error errno => (false, setSysError strerror { socket with socketD := -1 } errno)
    | .ok sd =>
      match answer.connectErrno with
      | some errno => (false, setSysError strerror { socket with socketD := sd } errno)
      | none =>
        (true, emit { socket with socketD := sd, connectionStatus := .connected } .connected)

end

/-- The descriptors that `connect` opens. -/
def connectOpens (answer : ConnectAnswer) (socket : TcpSocket) : List Int :=
  if socket.connectionStatus ≠ .notConnected then []
  else if 0 < socket.socketD then []
  else
    match answer.socketD with
    | .error _ => []
    | .ok sd => [(sd : Int)]

/-- The descriptors that the loop of `readFromSocket` closes. -/
def receiveCloses (answer : CloseAnswer) : List Recv → TcpSocket → List Int
  | [], _ => []
  | .wouldBlock :: _, _ => []
  | .error _ :: _, _ => []
  | .closed :: _, socket => socket.disconnectCloses answer
  | .data chunk :: outcomes, socket =>
    let socket := { socket with dataBuffer := socket.dataBuffer ++ chunk.bytes }
    if chunk.bytes.length = incomingDataSize then receiveCloses answer outcomes socket else []

/-- The descriptors that `readFromSocket` closes. -/
def readCloses (answer : CloseAnswer) (outcomes : List Recv) (socket : TcpSocket) : List Int :=
  if socket.connectionStatus ≠ .connected then [] else receiveCloses answer outcomes socket

end TcpSocket

/-- A socket, and the descriptors that it has opened and not closed. -/
structure ClientSocket where
  socket : TcpSocket
  openDescriptors : List Int

namespace ClientSocket

/-- A call, with the answers of the system. -/
inductive Call
  | connect (answer : TcpSocket.ConnectAnswer)
  | disconnect (answer : TcpSocket.CloseAnswer)
  | readFromSocket (answer : TcpSocket.CloseAnswer) (outcomes : List TcpSocket.Recv)

/-- A socket that is made without a descriptor. -/
def create (maxSize readBufferSize : Nat) : ClientSocket :=
  ⟨TcpSocket.create maxSize (-1) .notConnected readBufferSize, []⟩

/-- The state after a call. -/
def apply (strerror : Nat → Text) (client : ClientSocket) : Call → ClientSocket
  | .connect answer =>
    ⟨(client.socket.connect strerror answer).2,
      client.openDescriptors ++ client.socket.connectOpens answer⟩
  | .disconnect answer =>
    ⟨(client.socket.disconnect strerror answer).2,
      client.openDescriptors.diff (client.socket.disconnectCloses answer)⟩
  | .readFromSocket answer outcomes =>
    ⟨(client.socket.readFromSocket strerror answer outcomes).2,
      client.openDescriptors.diff (client.socket.readCloses answer outcomes)⟩

end ClientSocket

end Brutils
