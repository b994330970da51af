import Brutils.Tcp.Connect

/-!
# `Brutils.Tcp.Calls`: the calls of a `TcpSocket`

The public functions of a `TcpSocket` that may fail, and `read`, as one type of calls. An
`Invocation` has the arguments and the answers of the system. `perform` makes it, and gives what it
returns. `::getpeername` gives an address and a port, or fails. The text of an address is not empty,
and a peer that has been connected has a port other than 0.
-/

set_option autoImplicit false

namespace Brutils

namespace TcpSocket

/-- The address and the port of a peer. -/
structure Peer where
  address : Text
  port : Nat
  address_ne : address ≠ []
  port_ne : port ≠ 0

/-- What a call returns. -/
inductive Result
  | bool (val : Bool)
  | bytes (val : Text)
  | address (val : Text)
  | port (val : Nat)
  deriving DecidableEq

/-- The result says that the call has failed. -/
def Result.failed : Result → Bool
  | .bool val => !val
  | .bytes _ => false
  | .address val => val.isEmpty
  | .port val => val == 0

/-- A call, with the answers of the system. -/
inductive Invocation
  | connect (answer : ConnectAnswer)
  | disconnect (answer : CloseAnswer)
  | read
  | readFromSocket (answer : CloseAnswer) (outcomes : List Recv)
  | write (input : Text) (answer : SendAnswer input.length)
  | setReadBufferSize (readBufferSize : Nat)
  | setSocketDescriptor (sd : Int)
  | peerAddress (answer : Except Nat Peer)
  | peerPort (answer : Except Nat Peer)

/-- `setSocketDescriptor`. -/
def setSocketDescriptor (socket : TcpSocket) (sd : Int) : Bool × TcpSocket :=
  if socket.connectionStatus = .notConnected then (true, { socket with socketD := sd })
  else (false, setError socket .notAllowedInCurrentState
    "Peer address is not available in not connected state".toList)

section
variable (strerror : Nat → Text)

/-- `peerAddress`. -/
def peerAddress (answer : Except Nat Peer) (socket : TcpSocket) : Text × TcpSocket :=
  if socket.connectionStatus = .connected then
    match answer with
    | .error errno => ([], setSysError strerror socket errno)
    | .ok peer => (peer.address, socket)
  else ([], setError socket .notAllowedInCurrentState
    "Peer address is not available in not connected state".toList)

/-- `peerPort`. -/
def peerPort (answer : Except Nat Peer) (socket : TcpSocket) : Nat × TcpSocket :=
  if socket.connectionStatus = .connected then
    match answer with
    | .error errno => (0, setSysError strerror socket errno)
    | .ok peer => (peer.port, socket)
  else (0, setError socket .notAllowedInCurrentState
    "Peer port is not available in not connected state".toList)

/-- What a call returns, and the socket after it. -/
def perform (maxSize : Nat) (socket : TcpSocket) : Invocation → Result × TcpSocket
  | .connect answer => (socket.connect strerror answer).map .bool id
  | .disconnect answer => (socket.disconnect strerror answer).map .bool id
  | .read => socket.read.map .bytes id
  | .readFromSocket answer outcomes =>
    (socket.readFromSocket strerror answer outcomes).map .bool id
  | .write input answer => (socket.write strerror input answer).map .bool id
  | .setReadBufferSize readBufferSize =>
    (socket.setReadBufferSize maxSize readBufferSize).map .bool id
  | .setSocketDescriptor sd => (socket.setSocketDescriptor sd).map .bool id
  | .peerAddress answer => (socket.peerAddress strerror answer).map .address id
  | .peerPort answer => (socket.peerPort strerror answer).map .port id

/-- A call that has been made: the socket before it, what it returned, and the socket after it. -/
structure Report where
  call : Invocation
  before : TcpSocket
  result : Result
  after : TcpSocket

/-- The reports on a run of calls. -/
def reports (maxSize : Nat) : List Invocation → TcpSocket → List Report
  | [], _ => []
  | call :: calls, socket =>
    let (result, after) := socket.perform strerror maxSize call
    ⟨call, socket, result, after⟩ :: reports maxSize calls after

/-- The socket after a run of calls. -/
def performAll (maxSize : Nat) (calls : List Invocation) (socket : TcpSocket) : TcpSocket :=
  calls.foldl (fun socket call => (socket.perform strerror maxSize call).2) socket

end

end TcpSocket

end Brutils
