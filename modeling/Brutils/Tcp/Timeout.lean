import Brutils.Tcp.Server

/-!
# `Brutils.Tcp.Timeout`: what `TcpServer` does by the id of a timer

When the timer of a client expires, `timeoutOnSocket` is there to disconnect the client. It is the
function of the slot `timeoutOccured`. The map holds a pointer to the socket, so what `disconnect`
makes of the socket is written back under the same key.

The other overload of `stopTimeoutTimer` takes the id of a timer instead of a descriptor.
-/

set_option autoImplicit false

namespace Brutils.TcpServer

/-- `timeoutOnSocket`. -/
def timeoutOnSocket (system : System) (server : TcpServer) (timerId : UInt16) : TcpServer :=
  match server.timerIdSocketFdMap[timerId]? with
  | none => server
  | some socketDescriptor =>
    match server.activeConnections[socketDescriptor]? with
    | none => server
    | some tcpSocket =>
      { server with
        activeConnections := server.activeConnections.insert socketDescriptor
          (tcpSocket.disconnect system.strerror system.closeAnswer).2 }

/-- `stopTimeoutTimer`, for the id of a timer. -/
def stopTimeoutTimerById (timer : Timer) (server : TcpServer) (timerId : UInt16) :
    Bool × TcpServer :=
  match server.timerIdSocketFdMap[timerId]? with
  | none => (false, server)
  | some socketDescriptor =>
    if timer.stopTimer timerId then
      (true, { server with
        timerIdSocketFdMap := server.timerIdSocketFdMap.erase timerId
        socketFdTimerIdMap := server.socketFdTimerIdMap.erase socketDescriptor })
    else (false, server)

end Brutils.TcpServer
