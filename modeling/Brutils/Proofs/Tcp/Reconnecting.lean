import Brutils.Proofs.Tcp.Transfer
import Brutils.Tcp.Connect

/-!
# `Brutils.Proofs.Tcp.Reconnecting`: whether a socket can be connected again

`connect` refuses a socket whose descriptor is positive. Three paths leave such a descriptor
behind in a socket that is not connected: `connect` when `::connect` fails after `::socket` has
succeeded, and `disconnect` and `readFromSocket` when `::close` succeeds. On the first path the
descriptor also stays open, and nobody closes it. So does a descriptor 0, which is not positive.

`Sound` is the invariant of a run without these paths: a socket that is not connected has no
descriptor, and a connected one has exactly its own. `Harmless` is the condition on a step.
`disconnect` and `readFromSocket` change the status and the descriptors in one way,
`ClosesWhen`. `Sound.apply` has the two directions for one step, and `reconnectable_iff` is the
result for every run.
-/

set_option autoImplicit false

namespace Brutils.Proofs.Tcp

open Transition (Throughout EveryStep throughout_iff_everyStep)
open Brutils.TcpSocket Brutils.ClientSocket

/-- A socket that is not connected can be connected again: its descriptor is not positive, no
descriptor that it has opened is still open, and `connect` does not report a bad descriptor. -/
def Reconnectable (strerror : Nat → Text) (client : ClientSocket) : Prop :=
  client.socket.connectionStatus = .notConnected →
    ¬0 < client.socket.socketD ∧ client.openDescriptors = [] ∧
    ∀ answer e, (client.socket.connect strerror answer).2.emitted.getLast? =
      some (.errorOccurred e) → e.errorCode ≠ .badSocketDescriptor

/-- `disconnect` calls `::close`, and that succeeds. -/
def Closes (answer : CloseAnswer) (socket : TcpSocket) : Prop :=
  socket.connectionStatus = .connected ∧ answer.sameThread = true ∧ answer.errno = none

instance (answer : CloseAnswer) (socket : TcpSocket) : Decidable (Closes answer socket) :=
  inferInstanceAs (Decidable (_ ∧ _ ∧ _))

/-- The call is none of those that leave a descriptor behind. -/
def Harmless (client : ClientSocket) : ClientSocket.Call → Prop
  | .connect answer => client.socket.connectionStatus = .notConnected →
      ∀ sd, answer.socketD = .ok sd → answer.connectErrno = none
  | .disconnect answer => Closes answer client.socket → ¬0 < client.socket.socketD
  | .readFromSocket answer outcomes =>
      .closed ∈ asked outcomes → Closes answer client.socket → ¬0 < client.socket.socketD

/-- A socket that is not connected has no descriptor, and a connected one has its own. -/
structure Sound (client : ClientSocket) : Prop where
  idle : client.socket.connectionStatus = .notConnected →
    ¬0 < client.socket.socketD ∧ client.openDescriptors = []
  busy : client.socket.connectionStatus = .connected →
    client.openDescriptors = [client.socket.socketD]

/-- A call leaves the descriptor of the socket as it is. If `p` holds, it closes the descriptor and
ends the connection, and otherwise it does neither. -/
structure ClosesWhen (p : Prop) (socket after : TcpSocket) (closed : List Int) : Prop where
  socketD : after.socketD = socket.socketD
  closes : p → after.connectionStatus = .notConnected ∧ closed = [socket.socketD]
  keeps : ¬p → after.connectionStatus = socket.connectionStatus ∧ closed = []

/-! ### What the functions do with the status and the descriptor -/

section
variable (strerror : Nat → Text) (answer : CloseAnswer) (socket : TcpSocket)

/-- A call that keeps the descriptor and the status has nothing to close. -/
theorem ClosesWhen.of_keeps {p : Prop} {socket after : TcpSocket} (hp : ¬p)
    (hsd : after.socketD = socket.socketD)
    (hstatus : after.connectionStatus = socket.connectionStatus) :
    ClosesWhen p socket after [] :=
  ⟨hsd, fun h => absurd h hp, fun _ => ⟨hstatus, rfl⟩⟩

/-- `disconnect` closes its descriptor exactly if it calls `::close` and that succeeds. -/
theorem disconnect_closesWhen :
    ClosesWhen (Closes answer socket) socket (disconnect strerror answer socket).2
      (disconnectCloses answer socket) := by
  unfold disconnect disconnectCloses
  split
  · rename_i hstatus
    exact .of_keeps (fun h => hstatus h.1) rfl rfl
  · rename_i hstatus
    cases herrno : answer.errno with
    | some errno => exact .of_keeps (fun h => by simp [Closes, herrno] at h) rfl rfl
    | none =>
      cases hthread : answer.sameThread with
      | false => exact .of_keeps (fun h => by simp [Closes, hthread] at h) rfl rfl
      | true =>
        have hcloses : Closes answer socket := ⟨not_not.mp hstatus, hthread, herrno⟩
        exact ⟨rfl, fun _ => ⟨rfl, rfl⟩, fun h => absurd hcloses h⟩

/-- The loop of `readFromSocket` does what `disconnect` does if it comes to the end that the peer
has made, and otherwise it leaves the connection alone. -/
theorem receive_closesWhen (outcomes : List Recv) (total : Nat) :
    ClosesWhen (.closed ∈ asked outcomes ∧ Closes answer socket) socket
      (receive strerror answer outcomes socket total).1
      (receiveCloses answer outcomes socket) := by
  induction outcomes generalizing socket total with
  | nil => exact .of_keeps (by simp [asked]) rfl rfl
  | cons outcome outcomes ih =>
    cases outcome with
    | wouldBlock => exact .of_keeps (by simp [asked]) rfl rfl
    | error errno => exact .of_keeps (by simp [asked]) rfl rfl
    | closed =>
      obtain ⟨hsd, hcloses, hkeeps⟩ := disconnect_closesWhen strerror answer socket
      have hasked : .closed ∈ asked (.closed :: outcomes) := List.mem_singleton_self _
      exact ⟨hsd, fun h => hcloses h.2, fun h => hkeeps fun hclose => h ⟨hasked, hclose⟩⟩
    | data chunk =>
      by_cases hfull : chunk.bytes.length = incomingDataSize
      · -- the loop goes on, with a longer buffer
        have hasked : .closed ∈ asked (.data chunk :: outcomes) ↔ .closed ∈ asked outcomes := by
          simp [asked, hfull]
        simp only [receive, receiveCloses, if_pos hfull, hasked]
        obtain ⟨hsd, hcloses, hkeeps⟩ :=
          ih { socket with dataBuffer := socket.dataBuffer ++ chunk.bytes }
            (total + chunk.bytes.length)
        exact ⟨hsd, hcloses, hkeeps⟩
      · simp only [receive, receiveCloses, if_neg hfull]
        exact .of_keeps (by simp [asked, hfull]) rfl rfl

/-- `readFromSocket` does what its loop does. -/
theorem readFromSocket_closesWhen (outcomes : List Recv) :
    ClosesWhen (.closed ∈ asked outcomes ∧ Closes answer socket) socket
      (readFromSocket strerror answer outcomes socket).2 (readCloses answer outcomes socket) := by
  unfold readFromSocket readCloses
  split
  · rename_i hstatus
    exact .of_keeps (fun h => hstatus h.2.1) rfl rfl
  · have hreceive := receive_closesWhen strerror answer socket outcomes 0
    show ClosesWhen _ _ (if _ then _ else _) _
    split
    · exact ⟨hreceive.socketD, hreceive.closes, hreceive.keeps⟩
    · exact hreceive

end

/-! ### One call -/

section
variable (strerror : Nat → Text) {socket : TcpSocket} {client : ClientSocket}

/-- The last signal of a `connect` that asks the system is not about a bad descriptor. -/
theorem connect_asks (hstatus : socket.connectionStatus = .notConnected)
    (hsd : ¬0 < socket.socketD) (answer : ConnectAnswer) (e : TcpError)
    (h : (socket.connect strerror answer).2.emitted.getLast? = some (.errorOccurred e)) :
    e.errorCode ≠ .badSocketDescriptor := by
  rw [TcpSocket.connect, if_neg (not_not.mpr hstatus), if_neg hsd] at h
  -- both exits with an error report a system error
  have hsys : ∀ (socket : TcpSocket) errno,
      (setSysError strerror socket errno).emitted.getLast? = some (.errorOccurred e) →
      e.errorCode ≠ .badSocketDescriptor := by
    intro socket errno hlast
    simp only [setSysError, setError, emit, List.getLast?_concat, Option.some.injEq,
      Emission.errorOccurred.injEq] at hlast
    rw [← hlast]
    exact TcpErrorCode.noConfusion
  cases hsocket : answer.socketD with
  | error errno =>
    simp only [hsocket] at h
    exact hsys _ _ h
  | ok sd =>
    cases hconnect : answer.connectErrno with
    | some errno =>
      simp only [hsocket, hconnect] at h
      exact hsys _ _ h
    | none => simp [hsocket, hconnect, emit] at h

/-- A sound client can be connected again. -/
theorem Sound.reconnectable (h : Sound client) : Reconnectable strerror client := by
  intro hstatus
  obtain ⟨hsd, hopen⟩ := h.idle hstatus
  exact ⟨hsd, hopen, connect_asks strerror hstatus hsd⟩

/-- A call that leaves the status, the descriptor and the open descriptors as they are. -/
theorem Sound.congr (h : Sound client) {client' : ClientSocket}
    (hsd : client'.socket.socketD = client.socket.socketD)
    (hstatus : client'.socket.connectionStatus = client.socket.connectionStatus)
    (hopen : client'.openDescriptors = client.openDescriptors) : Sound client' := by
  refine ⟨fun hidle => ?_, fun hbusy => ?_⟩
  · rw [hsd, hopen]
    exact h.idle (hstatus ▸ hidle)
  · rw [hsd, hopen]
    exact h.busy (hstatus ▸ hbusy)

/-- A call that may close the connection. It does harm exactly if it closes a descriptor that is
positive. -/
theorem Sound.closesWhen (h : Sound client) {p : Prop} {after : TcpSocket} {closed : List Int}
    (hcall : ClosesWhen p client.socket after closed)
    (hp : p → client.socket.connectionStatus = .connected) :
    ((p → ¬0 < client.socket.socketD) → Sound ⟨after, client.openDescriptors.diff closed⟩) ∧
      (¬(p → ¬0 < client.socket.socketD) →
        ¬Reconnectable strerror ⟨after, client.openDescriptors.diff closed⟩) := by
  by_cases hclose : p
  · obtain ⟨hidle, rfl⟩ := hcall.closes hclose
    constructor
    · -- a descriptor that is not positive may stay in `_socketD`
      intro hzero
      refine ⟨fun _ => ⟨?_, ?_⟩, fun hbusy => ?_⟩
      · show ¬0 < after.socketD
        rw [hcall.socketD]
        exact hzero hclose
      · show client.openDescriptors.diff [client.socket.socketD] = []
        rw [h.busy (hp hclose)]
        simp
      · rw [hidle] at hbusy
        cases hbusy
    · intro hpositive hagain
      have hzero : ¬0 < after.socketD := (hagain hidle).1
      rw [hcall.socketD] at hzero
      exact hpositive fun _ => hzero
  · obtain ⟨hstatus, rfl⟩ := hcall.keeps hclose
    exact ⟨fun _ => h.congr hcall.socketD hstatus rfl,
      fun hpositive => absurd (fun hc => absurd hc hclose) hpositive⟩

/-- `connect` does harm exactly if `::socket` succeeds and `::connect` fails. -/
theorem Sound.connect (h : Sound client) (answer : ConnectAnswer) :
    (Harmless client (.connect answer) → Sound (client.apply strerror (.connect answer))) ∧
      (¬Harmless client (.connect answer) →
        ¬Reconnectable strerror (client.apply strerror (.connect answer))) := by
  by_cases hstatus : client.socket.connectionStatus = .notConnected
  · obtain ⟨hsd, hopen⟩ := h.idle hstatus
    simp only [ClientSocket.apply, TcpSocket.connect, connectOpens, hstatus, hsd, hopen, ne_eq,
      not_true_eq_false, if_false, List.nil_append]
    cases hsocket : answer.socketD with
    | error errno =>
      constructor
      · intro _
        refine ⟨fun _ => ⟨?_, rfl⟩, nofun⟩
        show ¬0 < (-1 : Int)
        omega
      · intro hharm
        refine absurd (fun _ sd hok => ?_) hharm
        rw [hsocket] at hok
        cases hok
    | ok sd =>
      cases hconnect : answer.connectErrno with
      | some errno =>
        -- the descriptor stays open, and the socket is not connected
        constructor
        · intro hharmless
          have hnone := hharmless hstatus sd hsocket
          rw [hconnect] at hnone
          cases hnone
        · intro _ hagain
          have hnone : [(sd : Int)] = [] := (hagain rfl).2.1
          cases hnone
      | none =>
        constructor
        · intro _
          exact ⟨nofun, fun _ => rfl⟩
        · intro hharm
          exact absurd (fun _ _ _ => hconnect) hharm
  · -- the call is refused
    have hsound : Sound (client.apply strerror (.connect answer)) := by
      simp only [ClientSocket.apply, TcpSocket.connect, connectOpens, if_pos hstatus,
        List.append_nil]
      exact h.congr rfl rfl rfl
    exact ⟨fun _ => hsound, fun hharm => absurd (fun hidle => absurd hidle hstatus) hharm⟩

/-- A harmless call keeps a socket sound, and any other call leaves behind one that cannot be
connected again. -/
theorem Sound.apply (h : Sound client) (call : ClientSocket.Call) :
    (Harmless client call → Sound (client.apply strerror call)) ∧
      (¬Harmless client call → ¬Reconnectable strerror (client.apply strerror call)) := by
  cases call with
  | connect answer => exact h.connect strerror answer
  | disconnect answer =>
    exact h.closesWhen strerror (disconnect_closesWhen strerror answer client.socket) And.left
  | readFromSocket answer outcomes =>
    have hread := readFromSocket_closesWhen strerror answer client.socket outcomes
    have hstep := h.closesWhen strerror hread fun hclose => hclose.2.1
    rw [and_imp] at hstep
    exact hstep

end

/-- A socket that is made without a descriptor is sound. -/
theorem create_sound (maxSize readBufferSize : Nat) :
    Sound (ClientSocket.create maxSize readBufferSize) := by
  refine ⟨fun _ => ⟨?_, rfl⟩, nofun⟩
  show ¬0 < (-1 : Int)
  omega

/-- In a run of `connect`, `disconnect` and `readFromSocket` on a socket that is made without a
descriptor, the socket can be connected again whenever it is not connected, exactly if no step
leaves a descriptor behind: `::connect` succeeds after every `::socket` that does, and no
`::close` of a positive descriptor succeeds. -/
theorem reconnectable_iff (strerror : Nat → Text) (maxSize readBufferSize : Nat)
    (calls : List ClientSocket.Call) :
    Throughout (ClientSocket.apply strerror) (Reconnectable strerror)
        (ClientSocket.create maxSize readBufferSize) calls ↔
      EveryStep (ClientSocket.apply strerror) Harmless
        (ClientSocket.create maxSize readBufferSize) calls :=
  throughout_iff_everyStep (ClientSocket.apply strerror)
    (fun _ hsound => hsound.reconnectable strerror)
    (fun _ call hsound => (hsound.apply strerror call).1)
    (fun _ call hsound => (hsound.apply strerror call).2) calls _
    (create_sound maxSize readBufferSize)

/-- `::connect` fails on the descriptor 5 that `::socket` has opened. The descriptor stays open,
and the next `connect` is refused. -/
theorem refused_after_failed_connect :
    ¬Throughout (ClientSocket.apply fun _ => []) (Reconnectable fun _ => [])
      (ClientSocket.create 4096 1024) [.connect ⟨.ok 5, some 111⟩] := by
  rintro ⟨-, hagain⟩
  have hsd := (hagain rfl).1
  exact hsd (by decide)

end Brutils.Proofs.Tcp
