import Brutils.Text
import Mathlib.Algebra.Group.Nat.Defs

/-!
# `Brutils.Tcp.Socket`: the `TcpSocket` class

A `TcpSocket` is its members. What the system answers is an argument: the outcomes of
`::recv`, one for each call, that of `::send`, and the result of `::close` or `::shutdown`. A
list of outcomes that ends stands for a socket on which nothing more has arrived. `strerror`
is a parameter.

`emitted` is a ghost that no function reads: the signals the socket has emitted, in order.
The mutex is recursive and held by each function from beginning to end, so a call is one
step.
-/

set_option autoImplicit false

namespace Brutils

/-- `ConnectionStatus`. -/
inductive ConnectionStatus
  | notConnected
  | connected
  deriving DecidableEq, Repr

/-- `TcpError_e`. -/
inductive TcpErrorCode
  | noError
  | sysError
  | notAllowedInCurrentState
  | notAllowedWhileBufferIsNotEmpty
  | badSocketDescriptor
  deriving DecidableEq, Repr

/-- `TcpError`. -/
structure TcpError where
  errorCode : TcpErrorCode
  errorStr : Text
  deriving DecidableEq

/-- A signal of the socket, with what it carries. -/
inductive Emission
  | connected
  | disconnected
  | dataReady
  | errorOccurred (error : TcpError)
  deriving DecidableEq

/-- The members of a `TcpSocket`. -/
structure TcpSocket where
  socketD : Int
  connectionStatus : ConnectionStatus
  readBufferSize : Nat
  lastError : TcpError
  dataBuffer : Text
  emitted : List Emission

namespace TcpSocket

/-- `DEFAULT_READ_BUFFER_SIZE`. -/
def defaultReadBufferSize : Nat := 1024 * 1024

/-- `INCOMING_DATA_SIZE`. -/
def incomingDataSize : Nat := 1024

/-- The bytes that one call of `::recv` returns: at least one, and as many as the buffer takes
at most. -/
structure Chunk where
  bytes : Text
  nonempty : 0 < bytes.length
  fits : bytes.length ≤ incomingDataSize

/-- What a call of `::recv` returns. -/
inductive Recv
  | data (chunk : Chunk)
  | closed
  | wouldBlock
  | error (errno : Nat)

/-- The answers of the system that `disconnect` depends on: whether it runs on the thread of
the socket, and the `errno` of `::close` or `::shutdown` when that call fails. -/
structure CloseAnswer where
  sameThread : Bool
  errno : Option Nat

/-- What `::send` answers for an input of that size: the number of bytes that it has taken, or
`none` for -1. `write` reads `errno` in both cases. -/
structure SendAnswer (size : Nat) where
  taken : Option (Fin (size + 1))
  errno : Nat

/-- The `int` that `write` keeps of the `ssize_t` that `::send` returns. -/
def SendAnswer.res {size : Nat} (answer : SendAnswer size) : Int :=
  match answer.taken with
  | some count => (count.val : Int).bmod (2 ^ 32)
  | none => -1

section
variable (strerror : Nat → Text)

/-- Emit a signal. -/
def emit (socket : TcpSocket) (emission : Emission) : TcpSocket :=
  { socket with emitted := socket.emitted ++ [emission] }

/-- Set `_lastError` and emit it. -/
def setError (socket : TcpSocket) (errorCode : TcpErrorCode) (errorStr : Text) : TcpSocket :=
  emit { socket with lastError := ⟨errorCode, errorStr⟩ } (.errorOccurred ⟨errorCode, errorStr⟩)

/-- Set `_lastError` from `errno` and emit it. -/
def setSysError (socket : TcpSocket) (errno : Nat) : TcpSocket :=
  setError socket .sysError ((toString errno).toList ++ " - ".toList ++ strerror errno)

/-- `setReadBufferSize`. The bound is `_dataBuffer.max_size()`. -/
def setReadBufferSize (maxSize : Nat) (socket : TcpSocket) (readBufferSize : Nat) :
    Bool × TcpSocket :=
  if socket.dataBuffer ≠ [] then
    (false, setError socket .notAllowedWhileBufferIsNotEmpty
      "Cannot modify read buffer size while buffer is not empty".toList)
  else (true, { socket with readBufferSize := min maxSize readBufferSize })

/-- The constructor. The source leaves `_lastError` without a value. -/
def create (maxSize : Nat) (socketDescriptor : Int) (status : ConnectionStatus)
    (readBufferSize : Nat) : TcpSocket :=
  (setReadBufferSize maxSize
    ⟨socketDescriptor, status, readBufferSize, ⟨.noError, []⟩, [], []⟩ readBufferSize).2

/-- `disconnect`. -/
def disconnect (answer : CloseAnswer) (socket : TcpSocket) : Bool × TcpSocket :=
  if socket.connectionStatus ≠ .connected then
    (false, setError socket .notAllowedInCurrentState
      "Cannot disconnect while already disconnected".toList)
  else
    match answer.errno with
    | some errno => (false, setSysError strerror socket errno)
    | none =>
      (true, if answer.sameThread then { socket with connectionStatus := .notConnected }
        else socket)

/-- The loop of `readFromSocket`, with the number of bytes received so far. -/
def receive (answer : CloseAnswer) : List Recv → TcpSocket → Nat → TcpSocket × Nat
  | [], socket, total => (socket, total)
  | .wouldBlock :: _, socket, total => (socket, total)
  | .error errno :: _, socket, total => (setSysError strerror socket errno, total)
  | .closed :: _, socket, total =>
    (emit (disconnect strerror answer socket).2 .disconnected, total)
  | .data chunk :: outcomes, socket, total =>
    let socket := { socket with dataBuffer := socket.dataBuffer ++ chunk.bytes }
    let total := total + chunk.bytes.length
    if chunk.bytes.length = incomingDataSize then receive answer outcomes socket total
    else (socket, total)

/-- `readFromSocket`. -/
def readFromSocket (answer : CloseAnswer) (outcomes : List Recv) (socket : TcpSocket) :
    Bool × TcpSocket :=
  if socket.connectionStatus ≠ .connected then
    (false, setError socket .notAllowedInCurrentState
      "Cannot read from socket while not connected".toList)
  else
    let (socket, total) := receive strerror answer outcomes socket 0
    (true, if 0 < total then emit socket .dataReady else socket)

/-- `write`. -/
def write (socket : TcpSocket) (input : Text) (answer : SendAnswer input.length) :
    Bool × TcpSocket :=
  if socket.connectionStatus ≠ .connected then
    (false, setError socket .notAllowedInCurrentState "Cannot write while not connected".toList)
  else if 0 ≠ answer.res then (false, setSysError strerror socket answer.errno)
  else (true, socket)

end

/-- `read`. -/
def read (socket : TcpSocket) : Text × TcpSocket :=
  (socket.dataBuffer, { socket with dataBuffer := [] })

end TcpSocket

end Brutils
