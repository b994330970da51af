import Brutils.Lib.Transition
import Brutils.Tcp.Poll

/-!
# `Brutils.Tcp.Lifecycle`: starting and stopping a `TcpServer`

`listen` starts a thread for the loop of `run`, and `stop` and `waitForFinished` are there to end
it. The owner of the server and the thread share `_serverState` and `_running` without a lock.
So each read and each write of the two is a step, and the steps of the owner and of the thread
follow one another in any order.

The owner makes its calls one after another, in any order, and at the end it can destroy the
server. What the system answers to a call is part of the step. When `listen` starts a thread
while there is still one to join, `std::terminate` ends the program, and the run has no more
steps. It has none either behind a round of `processSockets` that is undefined.

`log` is a ghost that no step reads: what the calls have returned, that the thread has been
joined, and each `::poll` that begins.
-/

set_option autoImplicit false

namespace Brutils

/-- `TcpServerState`. -/
inductive TcpServerState
  | inactive
  | starting
  | listening
  | processing
  | stopping
  deriving DecidableEq

namespace TcpServer

/-- The tables of a server that has been made. The array is not there yet. -/
def construct (maxConnectionSize connectionTimeout readBufferSize : Nat) : TcpServer where
  serverSD := -1
  maxConnectionSize := maxConnectionSize
  connectionTimeout := connectionTimeout
  readBufferSize := readBufferSize
  socketList := []
  socketListEmptyIndexSet := ∅
  socketFdIndexMap := ∅
  socketFdTimerIdMap := ∅
  timerIdSocketFdMap := ∅
  activeConnections := ∅

/-- What `run` does before its loop. -/
def prepare (server : TcpServer) : TcpServer :=
  { server with
    socketList :=
      ⟨server.serverSD, pollIn⟩ :: List.replicate (server.maxConnectionSize - 1) ⟨-1, pollIn⟩
    socketListEmptyIndexSet :=
      (List.range' 1 (server.maxConnectionSize - 1)).foldl (fun indexSet i => indexSet.insert i)
        server.socketListEmptyIndexSet }

/-- What the system answers in `listen`, call by call. -/
structure ListenAnswers where
  socket : Int
  setsockopt : Int
  fcntl : Int
  inetPton : Int
  bind : Int
  listen : Int

/-- Whether `listen` passes all of its tests. -/
def ListenAnswers.passes (answers : ListenAnswers) (address : Text) : Bool :=
  if 9 = answers.socket then false
  else if 0 ≠ answers.setsockopt then false
  else if 0 < answers.fcntl then false
  else if !address.isEmpty && answers.inetPton ≠ 0 then false
  else if 0 > answers.bind then false
  else if 0 > answers.listen then false
  else true

namespace Lifecycle

/-- Where the owner stands. -/
inductive OwnerPc
  /-- between two calls -/
  | idle
  /-- in `listen`, which has written `_serverState` -/
  | listening (address : Text) (answers : ListenAnswers)
  /-- in `listen`, which has written `_running` -/
  | launching
  /-- in `stop`, before the second read of `_serverState` -/
  | stopTesting
  /-- in `stop`, behind its test -/
  | stopPassed
  /-- in `stop`, which has written `_serverState` -/
  | stopWritten
  /-- in `waitForFinished`, behind its test -/
  | joining
  /-- in the destructor, which has cleared `_running` -/
  | destroying
  /-- the server is gone -/
  | destroyed

/-- Where the thread stands. -/
inductive ThreadPc
  /-- before the loop -/
  | started
  /-- before the test of the loop -/
  | testing
  /-- in the loop, before `_serverState` is written -/
  | entering
  /-- in `::poll` -/
  | polling
  /-- in `processSockets`, before `_serverState` is written -/
  | processing (revents : Nat → Nat)
  /-- in `processSockets`, behind that -/
  | serving (revents : Nat → Nat)
  /-- `run` has returned -/
  | finished

/-- What a run shows. -/
inductive Event
  /-- `listen` has returned -/
  | listened (result : Bool)
  /-- `stop` has returned -/
  | stopped (result : Bool)
  /-- `waitForFinished` has joined the thread -/
  | joined
  /-- `waitForFinished` has returned -/
  | waited (result : Bool)
  /-- the loop begins a `::poll` -/
  | polled
  deriving DecidableEq

/-- A server, its thread if there is one to join, and its owner. -/
structure State where
  serverState : TcpServerState
  running : Bool
  tables : TcpServer
  thread : Option ThreadPc
  owner : OwnerPc
  log : List Event

/-- After the constructor. -/
def Initial (s : State) : Prop :=
  ∃ maxConnectionSize connectionTimeout readBufferSize,
    s = ⟨.inactive, false, construct maxConnectionSize connectionTimeout readBufferSize, none,
      .idle, []⟩

/-- One step of the owner or of the thread. -/
inductive Next (s : State) : State → Prop
  -- `listen`
  | listen (address : Text) (answers : ListenAnswers) (h : s.owner = .idle) :
      Next s { s with serverState := .starting, owner := .listening address answers }
  | listenRefused (address : Text) (answers : ListenAnswers)
      (h : s.owner = .listening address answers) (hpasses : answers.passes address = false) :
      Next s { s with
        tables := { s.tables with serverSD := answers.socket }
        owner := .idle
        log := s.log ++ [.listened false] }
  | listenPassed (address : Text) (answers : ListenAnswers)
      (h : s.owner = .listening address answers) (hpasses : answers.passes address = true) :
      Next s { s with
        tables := { s.tables with serverSD := answers.socket }
        running := true
        owner := .launching }
  | launch (h : s.owner = .launching) (hthread : s.thread = none) :
      Next s { s with
        thread := some .started
        owner := .idle
        log := s.log ++ [.listened true] }
  -- `stop`
  | stopInactive (h : s.owner = .idle) (hstate : .inactive = s.serverState) :
      Next s { s with owner := .stopPassed }
  | stopActive (h : s.owner = .idle) (hstate : .inactive ≠ s.serverState) :
      Next s { s with owner := .stopTesting }
  | stopStopping (h : s.owner = .stopTesting) (hstate : .stopping = s.serverState) :
      Next s { s with owner := .stopPassed }
  | stopRefused (h : s.owner = .stopTesting) (hstate : .stopping ≠ s.serverState) :
      Next s { s with owner := .idle, log := s.log ++ [.stopped false] }
  | stopState (h : s.owner = .stopPassed) :
      Next s { s with serverState := .stopping, owner := .stopWritten }
  | stopRunning (h : s.owner = .stopWritten) :
      Next s { s with running := false, owner := .idle, log := s.log ++ [.stopped true] }
  -- `waitForFinished`
  | waitRefused (h : s.owner = .idle) (hstate : .stopping ≠ s.serverState) :
      Next s { s with log := s.log ++ [.waited false] }
  | waitPassed (h : s.owner = .idle) (hstate : .stopping = s.serverState) :
      Next s { s with owner := .joining }
  | waitAlone (h : s.owner = .joining) (hthread : s.thread = none) :
      Next s { s with owner := .idle, log := s.log ++ [.waited true] }
  | join (h : s.owner = .joining) (hthread : s.thread = some .finished) :
      Next s { s with
        thread := none
        owner := .idle
        log := s.log ++ [.joined, .waited true] }
  -- the destructor
  | destroy (h : s.owner = .idle) :
      Next s { s with running := false, owner := .destroying }
  | destroyed (h : s.owner = .destroying) (hthread : ∀ pc ∈ s.thread, pc = .finished) :
      Next s { s with thread := none, owner := .destroyed }
  -- `run`
  | prepare (h : s.thread = some .started) :
      Next s { s with tables := s.tables.prepare, thread := some .testing }
  | test (h : s.thread = some .testing) :
      Next s { s with thread := some (if s.running then .entering else .finished) }
  | poll (h : s.thread = some .entering) :
      Next s { s with
        serverState := .listening
        thread := some .polling
        log := s.log ++ [.polled] }
  | pollFailed (h : s.thread = some .polling) : Next s { s with thread := some .finished }
  | pollTimeout (h : s.thread = some .polling) : Next s { s with thread := some .testing }
  | pollReady (events : Nat → Nat) (h : s.thread = some .polling) :
      Next s { s with thread := some (.processing (s.tables.poll events)) }
  -- `processSockets`
  | process (revents : Nat → Nat) (h : s.thread = some (.processing revents)) :
      Next s { s with serverState := .processing, thread := some (.serving revents) }
  | serve (revents : Nat → Nat) (turns : List Turn) (answers : Int → Answers) (result : Bool)
      (round : Round) (h : s.thread = some (.serving revents))
      (hround : processSockets revents turns answers s.tables = .returned result round) :
      Next s { s with tables := round.server, thread := some .testing }

end Lifecycle

end TcpServer

end Brutils
