import Brutils.Proofs.Tcp.Transfer
import Brutils.Tcp.Calls

/-!
# `Brutils.Proofs.Tcp.Errors`: how a `TcpSocket` reports errors

Every function sets `_lastError` and emits it in one go. So a call leaves both as they are, or adds
one error (`Reporting`). The loop of `readFromSocket` is no exception, since it ends with its first
error. It is one in another way: it returns true after an error of the system.

`Rejects` is what a call does that returns a failure. It adds its error and leaves the rest of the
socket alone, apart from a descriptor that `connect` may have taken. `Answers` joins the two for one
call. There are two ways to it, a call that is rejected and one that is accepted, and each function
is a case analysis over these (`perform_answers`). `errors_reported` is the result for every run:
the errors that it has emitted are those of its calls, in order and at most one for each, and
`error()` gives the last of them.
-/

set_option autoImplicit false

namespace Brutils.Proofs.Tcp

open Brutils.TcpSocket

/-- The error in an emission. -/
def errorOf : Emission → Option TcpError
  | .errorOccurred error => some error
  | _ => none

/-- The errors that a socket has emitted, in order. -/
def emittedErrors (socket : TcpSocket) : List TcpError := socket.emitted.filterMap errorOf

/-- A call adds the errors to those that have been emitted, and the last of them is the one that
`error()` returns. -/
structure Reporting (socket after : TcpSocket) (added : List TcpError) : Prop where
  emitted : emittedErrors after = emittedErrors socket ++ added
  lastError : after.lastError = added.getLastD socket.lastError
  atMostOne : added.length ≤ 1

/-- A call that returns a failure: one error is added, and the rest stays as it is, with a descriptor
that `connect` may have taken. -/
def Rejects (call : Invocation) (socket after : TcpSocket) : Prop :=
  ∃ error sd, after = emit { socket with socketD := sd, lastError := error } (.errorOccurred error) ∧
    ((∀ answer, call ≠ .connect answer) → sd = socket.socketD)

/-- The errors that a call has emitted. -/
def addedErrors (report : Report) : List TcpError :=
  (emittedErrors report.after).drop (emittedErrors report.before).length

/-- What a call does: it adds errors, it leaves the socket alone when it fails, and it returns a
failure when it has added an error, unless it is a `readFromSocket`. -/
structure Answers (call : Invocation) (socket : TcpSocket) (result : Result) (after : TcpSocket)
    (added : List TcpError) : Prop where
  reporting : Reporting socket after added
  rejects : result.failed = true → added ≠ [] ∧ Rejects call socket after
  fails : added ≠ [] → result.failed = true ∨ ∃ answer outcomes, call = .readFromSocket answer outcomes

section
variable {socket after : TcpSocket}

/-- A call that emits nothing and leaves `_lastError` alone adds no error. -/
theorem Reporting.none (hemitted : TcpSocket.emitted after = socket.emitted)
    (hlast : after.lastError = socket.lastError) : Reporting socket after [] :=
  ⟨by simp [emittedErrors, hemitted], hlast, by simp⟩

/-- `setError` adds one error, and it is the last one from then on. -/
theorem reporting_setError (code : TcpErrorCode) (str : Text) :
    Reporting socket (setError socket code str) [⟨code, str⟩] :=
  ⟨by simp [emittedErrors, setError, emit, errorOf], rfl, by simp⟩

/-- A signal that carries no error. -/
theorem Reporting.emit {added : List TcpError} (h : Reporting socket after added)
    {emission : Emission} (hemission : errorOf emission = .none) :
    Reporting socket (after.emit emission) added := by
  obtain ⟨hemitted, hlast, hle⟩ := h
  have hsame : emittedErrors (after.emit emission) = emittedErrors after := by
    simp [emittedErrors, TcpSocket.emit, hemission]
  exact ⟨hsame.trans hemitted, hlast, hle⟩

/-- The members that have no part in the reports. -/
theorem Reporting.of_eq {socket' : TcpSocket} {added : List TcpError}
    (h : Reporting socket' after added) (hemitted : socket'.emitted = socket.emitted)
    (hlast : socket'.lastError = socket.lastError) : Reporting socket after added := by
  obtain ⟨hafter, hlastError, hle⟩ := h
  refine ⟨?_, by rw [hlastError, hlast], hle⟩
  rw [hafter, emittedErrors, emittedErrors, hemitted]

/-- A call that is rejected with a descriptor taken before. -/
theorem Answers.rejected {call : Invocation} {result : Result} {sd : Int} (code : TcpErrorCode)
    (str : Text) (hfailed : result.failed = true)
    (hsd : (∀ answer, call ≠ .connect answer) → sd = socket.socketD) :
    Answers call socket result (setError { socket with socketD := sd } code str) [⟨code, str⟩] := by
  refine ⟨(reporting_setError code str).of_eq rfl rfl, fun _ => ⟨by simp, _, sd, rfl, hsd⟩, ?_⟩
  exact fun _ => .inl hfailed

/-- A call that is accepted emits no error. -/
theorem Answers.accepted {call : Invocation} {result : Result} (h : Reporting socket after [])
    (hfailed : result.failed = false) : Answers call socket result after [] :=
  ⟨h, fun hfailed' => absurd hfailed' (by simp [hfailed]), fun hne => absurd rfl hne⟩

end

/-! ### One call -/

section
variable (strerror : Nat → Text) (maxSize : Nat) (socket : TcpSocket)

/-- `connect` rejects a call on a connected socket or with a descriptor, and reports the error of
`::socket` or `::connect`. -/
theorem connect_answers (answer : ConnectAnswer) :
    ∃ added, Answers (.connect answer) socket (.bool (connect strerror answer socket).1)
      (connect strerror answer socket).2 added := by
  unfold connect
  split
  · exact ⟨_, .rejected _ _ rfl fun _ => rfl⟩
  · split
    · exact ⟨_, .rejected _ _ rfl fun _ => rfl⟩
    · -- From here on the descriptor is the one of `::socket`.
      have hcall : ¬ ∀ answer', Invocation.connect answer ≠ .connect answer' := fun h => h answer rfl
      cases answer.socketD with
      | error errno => exact ⟨_, .rejected _ _ rfl fun h => absurd h hcall⟩
      | ok sd =>
        cases answer.connectErrno with
        | some errno => exact ⟨_, .rejected _ _ rfl fun h => absurd h hcall⟩
        | none =>
          have hnone : Reporting socket
              { socket with socketD := sd, connectionStatus := .connected } [] := .none rfl rfl
          exact ⟨[], .accepted (hnone.emit rfl) rfl⟩

/-- `disconnect` rejects a call on a socket that is not connected, and reports the error of
`::close`. -/
theorem disconnect_answers (answer : CloseAnswer) :
    ∃ added, Answers (.disconnect answer) socket (.bool (disconnect strerror answer socket).1)
      (disconnect strerror answer socket).2 added := by
  unfold disconnect
  split
  · exact ⟨_, .rejected _ _ rfl fun _ => rfl⟩
  · cases answer.errno with
    | some errno => exact ⟨_, .rejected _ _ rfl fun _ => rfl⟩
    | none =>
      have hnone : Reporting socket
          (if answer.sameThread then { socket with connectionStatus := .notConnected }
            else socket) [] := by
        split <;> exact .none rfl rfl
      exact ⟨[], .accepted hnone rfl⟩

/-- The loop of `readFromSocket` ends with its first error. -/
theorem receive_reporting (answer : CloseAnswer) (outcomes : List Recv) (total : Nat) :
    ∃ added, Reporting socket (receive strerror answer outcomes socket total).1 added := by
  induction outcomes generalizing socket total with
  | nil => exact ⟨[], .none rfl rfl⟩
  | cons outcome outcomes ih =>
    cases outcome with
    | wouldBlock => exact ⟨[], .none rfl rfl⟩
    | error errno => exact ⟨_, reporting_setError _ _⟩
    | closed =>
      obtain ⟨added, h⟩ := disconnect_answers strerror socket answer
      exact ⟨added, h.reporting.emit rfl⟩
    | data chunk =>
      rw [receive]
      split
      · obtain ⟨added, h⟩ := ih { socket with dataBuffer := socket.dataBuffer ++ chunk.bytes } _
        exact ⟨added, h.of_eq rfl rfl⟩
      · exact ⟨[], .none rfl rfl⟩

/-- The loop of `readFromSocket` ends with the first error. It returns true after one of the system,
and this is why `Answers` makes an exception for it. -/
theorem readFromSocket_answers (answer : CloseAnswer) (outcomes : List Recv) :
    ∃ added, Answers (.readFromSocket answer outcomes) socket
      (.bool (readFromSocket strerror answer outcomes socket).1)
      (readFromSocket strerror answer outcomes socket).2 added := by
  unfold readFromSocket
  split
  · exact ⟨_, .rejected _ _ rfl fun _ => rfl⟩
  · obtain ⟨added, h⟩ := receive_reporting strerror socket answer outcomes 0
    -- An error of the loop is reported, but the call returns true.
    refine ⟨added, ?_, by simp [Result.failed], fun _ => .inr ⟨answer, outcomes, rfl⟩⟩
    show Reporting socket (if _ then _ else _) added
    split
    · exact h.emit rfl
    · exact h

/-- `write` rejects a call on a socket that is not connected, and reports an error when the result
of `::send` is not 0. -/
theorem write_answers (input : Text) (answer : SendAnswer input.length) :
    ∃ added, Answers (.write input answer) socket (.bool (write strerror socket input answer).1)
      (write strerror socket input answer).2 added := by
  unfold write
  split
  · exact ⟨_, .rejected _ _ rfl fun _ => rfl⟩
  · split
    · exact ⟨_, .rejected _ _ rfl fun _ => rfl⟩
    · exact ⟨[], .accepted (.none rfl rfl) rfl⟩

/-- `setReadBufferSize` rejects a call while the buffer is not empty. -/
theorem setReadBufferSize_answers (readBufferSize : Nat) :
    ∃ added, Answers (.setReadBufferSize readBufferSize) socket
      (.bool (setReadBufferSize maxSize socket readBufferSize).1)
      (setReadBufferSize maxSize socket readBufferSize).2 added := by
  unfold setReadBufferSize
  split
  · exact ⟨_, .rejected _ _ rfl fun _ => rfl⟩
  · exact ⟨[], .accepted (.none rfl rfl) rfl⟩

/-- `setSocketDescriptor` rejects a call on a connected socket. -/
theorem setSocketDescriptor_answers (sd : Int) :
    ∃ added, Answers (.setSocketDescriptor sd) socket (.bool (setSocketDescriptor socket sd).1)
      (setSocketDescriptor socket sd).2 added := by
  unfold setSocketDescriptor
  split
  · exact ⟨[], .accepted (.none rfl rfl) rfl⟩
  · exact ⟨_, .rejected _ _ rfl fun _ => rfl⟩

/-- `peerAddress` rejects a call on a socket that is not connected, and reports the error of the
system. -/
theorem peerAddress_answers (answer : Except Nat Peer) :
    ∃ added, Answers (.peerAddress answer) socket (.address (peerAddress strerror answer socket).1)
      (peerAddress strerror answer socket).2 added := by
  unfold peerAddress
  split
  · cases answer with
    | error errno => exact ⟨_, .rejected _ _ rfl fun _ => rfl⟩
    | ok peer =>
      have hfailed : (Result.address peer.address).failed = false := by
        simp [Result.failed, peer.address_ne]
      exact ⟨[], .accepted (.none rfl rfl) hfailed⟩
  · exact ⟨_, .rejected _ _ rfl fun _ => rfl⟩

/-- `peerPort` does the same with a result of its own. -/
theorem peerPort_answers (answer : Except Nat Peer) :
    ∃ added, Answers (.peerPort answer) socket (.port (peerPort strerror answer socket).1)
      (peerPort strerror answer socket).2 added := by
  unfold peerPort
  split
  · cases answer with
    | error errno => exact ⟨_, .rejected _ _ rfl fun _ => rfl⟩
    | ok peer =>
      have hfailed : (Result.port peer.port).failed = false := by
        simp [Result.failed, peer.port_ne]
      exact ⟨[], .accepted (.none rfl rfl) hfailed⟩
  · exact ⟨_, .rejected _ _ rfl fun _ => rfl⟩

/-- The step lemma: whichever function is called. -/
theorem perform_answers (call : Invocation) :
    ∃ added, Answers call socket (socket.perform strerror maxSize call).1
      (socket.perform strerror maxSize call).2 added := by
  cases call with
  | connect answer => exact connect_answers strerror socket answer
  | disconnect answer => exact disconnect_answers strerror socket answer
  | read => exact ⟨[], .accepted (.none rfl rfl) rfl⟩
  | readFromSocket answer outcomes => exact readFromSocket_answers strerror socket answer outcomes
  | write input answer => exact write_answers strerror socket input answer
  | setReadBufferSize size => exact setReadBufferSize_answers maxSize socket size
  | setSocketDescriptor sd => exact setSocketDescriptor_answers socket sd
  | peerAddress answer => exact peerAddress_answers strerror socket answer
  | peerPort answer => exact peerPort_answers strerror socket answer

/-- The errors that a call has added are those that its report shows. -/
theorem addedErrors_eq {call : Invocation} {result : Result} {after : TcpSocket}
    {added : List TcpError} (h : Reporting socket after added) :
    addedErrors ⟨call, socket, result, after⟩ = added := by
  show (emittedErrors after).drop (emittedErrors socket).length = added
  rw [h.emitted]
  exact List.drop_left

/-! ### A run of calls -/

/-- The last of the errors of a run. -/
theorem getLastD_append {α : Type} (xs ys : List α) (x : α) :
    (xs ++ ys).getLastD x = ys.getLastD (xs.getLastD x) := by
  induction xs generalizing x with
  | nil => rfl
  | cons y xs ih => rw [List.cons_append, List.getLastD_cons, List.getLastD_cons, ih]

/-- For every run of calls of a socket, the errors that it emits are those of its calls, in order and
at most one for each, and `error()` gives the last of them. A call that returns a failure has emitted
an error and left the socket alone, but for the descriptor that `connect` has taken. A call that has
emitted an error returns a failure, if it is not a `readFromSocket`. -/
theorem errors_reported (calls : List Invocation) :
    emittedErrors (performAll strerror maxSize calls socket) =
        emittedErrors socket ++ (reports strerror maxSize calls socket).flatMap addedErrors ∧
      (performAll strerror maxSize calls socket).lastError =
        ((reports strerror maxSize calls socket).flatMap addedErrors).getLastD socket.lastError ∧
      ∀ report ∈ reports strerror maxSize calls socket,
        (addedErrors report).length ≤ 1 ∧
        (report.result.failed = true →
          addedErrors report ≠ [] ∧ Rejects report.call report.before report.after) ∧
        (addedErrors report ≠ [] → report.result.failed = true ∨
          ∃ answer outcomes, report.call = .readFromSocket answer outcomes) := by
  induction calls generalizing socket with
  | nil => exact ⟨by simp [performAll, reports], rfl, by simp [reports]⟩
  | cons call calls ih =>
    obtain ⟨added, hanswers⟩ := perform_answers strerror maxSize socket call
    obtain ⟨hemitted, hlast, hall⟩ := ih (socket.perform strerror maxSize call).2
    have hadded : addedErrors ⟨call, socket, (socket.perform strerror maxSize call).1,
        (socket.perform strerror maxSize call).2⟩ = added :=
      addedErrors_eq socket hanswers.reporting
    have hrun : performAll strerror maxSize (call :: calls) socket =
        performAll strerror maxSize calls (socket.perform strerror maxSize call).2 := rfl
    have hreports : reports strerror maxSize (call :: calls) socket =
        ⟨call, socket, (socket.perform strerror maxSize call).1,
          (socket.perform strerror maxSize call).2⟩ ::
          reports strerror maxSize calls (socket.perform strerror maxSize call).2 := rfl
    rw [hrun, hreports, List.flatMap_cons, hadded]
    refine ⟨?_, ?_, ?_⟩
    · rw [hemitted, hanswers.reporting.emitted, List.append_assoc]
    · rw [hlast, hanswers.reporting.lastError, getLastD_append]
    · intro report hreport
      rcases List.mem_cons.1 hreport with rfl | hreport
      · rw [hadded]
        exact ⟨hanswers.reporting.atMostOne, hanswers.rejects, hanswers.fails⟩
      · exact hall report hreport

end

end Brutils.Proofs.Tcp
