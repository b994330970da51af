import Brutils.Lib.Transition
import Brutils.Tcp.Socket
import Mathlib.Data.List.TakeDrop
import Mathlib.Tactic.Common

/-!
# `Brutils.Proofs.Tcp.Transfer`: the bytes that go through a `TcpSocket`

Bytes that `::recv` delivers go to the end of `_dataBuffer`, and `read` takes all of them from
there. `received_bytes_kept` says that nothing else happens to them, in every run of
`readFromSocket`, `read` and `setReadBufferSize`, and that a call of `readFromSocket` emits
`dataReady` once if it has appended a byte and never if it has not.

`write` compares the result of `::send` with 0, which is its result for no bytes, and not for
success. So `write` returns true when `::send` has taken nothing, or a number of bytes that
an `int` holds as 0, and false when it has taken any other number. `reports_sent_iff` says in
which runs the results are right all the same.
-/

set_option autoImplicit false

namespace Brutils.Proofs.Tcp

open Transition (Reachable)
open Brutils.TcpSocket

/-! ### What arrives -/

/-- The bytes that a call of `::recv` delivers. -/
def Recv.bytes : Recv → Text
  | .data chunk => chunk.bytes
  | .closed => []
  | .wouldBlock => []
  | .error _ => []

/-- The outcomes that the loop of `readFromSocket` asks for. It stops after the first one that
is no full chunk. -/
def asked : List Recv → List Recv
  | [] => []
  | .wouldBlock :: _ => [.wouldBlock]
  | .error errno :: _ => [.error errno]
  | .closed :: _ => [.closed]
  | .data chunk :: outcomes =>
    .data chunk :: if chunk.bytes.length = incomingDataSize then asked outcomes else []

/-- The bytes that `::recv` delivers to a call of `readFromSocket`. A socket that is not
connected asks for nothing. -/
def delivered (socket : TcpSocket) (outcomes : List Recv) : Text :=
  if socket.connectionStatus = .connected then (asked outcomes).flatMap Recv.bytes else []

/-- How many times the socket has emitted `dataReady`. -/
def announced (socket : TcpSocket) : Nat := socket.emitted.count .dataReady

section
variable (strerror : Nat → Text) (answer : CloseAnswer) (socket : TcpSocket)

/-- An emission is no change of the received bytes. -/
@[simp] theorem emit_dataBuffer (emission : Emission) :
    (emit socket emission).dataBuffer = socket.dataBuffer := rfl

/-- An error is no change of the received bytes. -/
@[simp] theorem setError_dataBuffer (code : TcpErrorCode) (str : Text) :
    (setError socket code str).dataBuffer = socket.dataBuffer := rfl

/-- Nor is one of the system. -/
@[simp] theorem setSysError_dataBuffer (errno : Nat) :
    (setSysError strerror socket errno).dataBuffer = socket.dataBuffer := rfl

/-- `dataReady` announces once. -/
@[simp] theorem announced_emit_dataReady :
    announced (emit socket .dataReady) = announced socket + 1 := by
  simp [announced, emit]

/-- `disconnected` announces nothing. -/
@[simp] theorem announced_emit_disconnected :
    announced (emit socket .disconnected) = announced socket := by
  simp [announced, emit]

/-- An error announces nothing. -/
@[simp] theorem announced_setError (code : TcpErrorCode) (str : Text) :
    announced (setError socket code str) = announced socket := by
  simp [announced, setError, emit]

/-- Nor does one of the system. -/
@[simp] theorem announced_setSysError (errno : Nat) :
    announced (setSysError strerror socket errno) = announced socket :=
  announced_setError socket _ _

/-- `disconnect` leaves the received bytes alone, and announces none. -/
theorem disconnect_keeps :
    (disconnect strerror answer socket).2.dataBuffer = socket.dataBuffer ∧
      announced (disconnect strerror answer socket).2 = announced socket := by
  unfold disconnect
  split
  · simp
  · cases answer.errno with
    | some errno => simp
    | none =>
      show (if answer.sameThread then _ else socket).dataBuffer = _ ∧ announced (ite _ _ _) = _
      split
      · exact ⟨rfl, rfl⟩
      · exact ⟨rfl, rfl⟩

end

section
variable (strerror : Nat → Text) (answer : CloseAnswer)

/-- The loop does not look at the outcomes that it does not ask for. -/
theorem receive_asked (outcomes : List Recv) (socket : TcpSocket) (total : Nat) :
    receive strerror answer (asked outcomes) socket total
      = receive strerror answer outcomes socket total := by
  induction outcomes generalizing socket total with
  | nil => rfl
  | cons outcome outcomes ih =>
    cases outcome with
    | wouldBlock => rfl
    | error errno => rfl
    | closed => rfl
    | data chunk =>
      by_cases hfull : chunk.bytes.length = incomingDataSize
      · simp only [asked, receive, if_pos hfull]
        exact ih _ _
      · simp only [asked, receive, if_neg hfull]

/-- What the loop of `readFromSocket` does: it appends the bytes of the outcomes that it asks
for, counts them, and announces nothing yet. -/
theorem receive_spec (outcomes : List Recv) (socket : TcpSocket) (total : Nat) :
    let (after, total') := receive strerror answer outcomes socket total
    after.dataBuffer = socket.dataBuffer ++ (asked outcomes).flatMap Recv.bytes ∧
      total' = total + ((asked outcomes).flatMap Recv.bytes).length ∧
      announced after = announced socket := by
  induction outcomes generalizing socket total with
  | nil => simp [receive, asked]
  | cons outcome outcomes ih =>
    cases outcome with
    | wouldBlock => simp [receive, asked, Recv.bytes]
    | error errno => simp [receive, asked, Recv.bytes]
    | closed =>
      obtain ⟨hbuffer, hannounced⟩ := disconnect_keeps strerror answer socket
      simp [receive, asked, Recv.bytes, hbuffer, hannounced]
    | data chunk =>
      by_cases hfull : chunk.bytes.length = incomingDataSize
      · -- a full chunk: the loop goes on from the longer buffer
        obtain ⟨hbuffer, htotal, hannounced⟩ :=
          ih { socket with dataBuffer := socket.dataBuffer ++ chunk.bytes }
            (total + chunk.bytes.length)
        simp only [receive, asked, if_pos hfull, List.flatMap_cons, Recv.bytes]
        refine ⟨?_, ?_, hannounced⟩
        · rw [hbuffer, List.append_assoc]
        · rw [htotal, List.length_append]
          omega
      · simp [receive, asked, Recv.bytes, if_neg hfull, announced]

/-- A call of `readFromSocket` appends what `::recv` delivers, and announces it once if there is
anything. -/
theorem readFromSocket_spec (outcomes : List Recv) (socket : TcpSocket) :
    let after := (readFromSocket strerror answer outcomes socket).2
    after.dataBuffer = socket.dataBuffer ++ delivered socket outcomes ∧
      announced after = announced socket
        + if socket.dataBuffer.length < after.dataBuffer.length then 1 else 0 := by
  intro after
  by_cases hconnected : socket.connectionStatus = .connected
  · obtain ⟨hbuffer, htotal, hannounced⟩ := receive_spec strerror answer outcomes socket 0
    have hafter : after = if 0 < (receive strerror answer outcomes socket 0).2 then
        emit (receive strerror answer outcomes socket 0).1 .dataReady
        else (receive strerror answer outcomes socket 0).1 := by
      show (readFromSocket strerror answer outcomes socket).2 = _
      rw [readFromSocket, if_neg (not_not.mpr hconnected)]
    have hbytes : after.dataBuffer = socket.dataBuffer ++ delivered socket outcomes := by
      rw [delivered, if_pos hconnected, ← hbuffer, hafter]
      split
      · rfl
      · rfl
    refine ⟨hbytes, ?_⟩
    rw [hbytes, List.length_append, delivered, if_pos hconnected, hafter, htotal, ← hannounced]
    by_cases hany : 0 < ((asked outcomes).flatMap Recv.bytes).length
    · rw [if_pos (by omega), if_pos (by omega), announced_emit_dataReady]
    · rw [if_neg (by omega), if_neg (by omega), Nat.add_zero]
  · have hafter : after = setError socket .notAllowedInCurrentState
        "Cannot read from socket while not connected".toList := by
      show (readFromSocket strerror answer outcomes socket).2 = _
      rw [readFromSocket, if_pos hconnected]
    rw [hafter, delivered, if_neg hconnected]
    simp

end

/-- `setReadBufferSize` leaves the received bytes alone. -/
theorem setReadBufferSize_dataBuffer (maxSize : Nat) (socket : TcpSocket) (size : Nat) :
    (setReadBufferSize maxSize socket size).2.dataBuffer = socket.dataBuffer := by
  unfold setReadBufferSize
  split
  · rfl
  · rfl

/-- A socket, what its `read` has returned so far, and what `::recv` has delivered to it. -/
structure Transfer where
  socket : TcpSocket
  results : List Text
  received : Text

namespace Transfer

/-- A connected socket to which nothing has come. -/
def Initial (s : Transfer) : Prop :=
  s.socket.connectionStatus = .connected ∧ s.socket.dataBuffer = [] ∧ s.results = [] ∧
    s.received = []

/-- One call. -/
inductive Next (strerror : Nat → Text) (maxSize : Nat) (s : Transfer) : Transfer → Prop
  | readFromSocket (answer : CloseAnswer) (outcomes : List Recv) :
      Next strerror maxSize s { s with
        socket := (readFromSocket strerror answer outcomes s.socket).2
        received := s.received ++ delivered s.socket outcomes }
  | read :
      Next strerror maxSize s { s with
        socket := (read s.socket).2
        results := s.results ++ [(read s.socket).1] }
  | setReadBufferSize (size : Nat) :
      Next strerror maxSize s { s with socket := (setReadBufferSize maxSize s.socket size).2 }

/-- What has been received is what `read` has returned, and then what is in the buffer. -/
def Kept (s : Transfer) : Prop := s.results.flatten ++ s.socket.dataBuffer = s.received

/-- At the start nothing has been received, and nothing is there. -/
theorem initial_kept {s : Transfer} (h : Initial s) : Kept s := by
  obtain ⟨-, hbuffer, hresults, hreceived⟩ := h
  rw [Kept, hbuffer, hresults, hreceived]
  rfl

/-- The step lemma: a call moves bytes from the system to the buffer, or from the buffer to the
reader. -/
theorem next_kept {strerror : Nat → Text} {maxSize : Nat} {s t : Transfer} (hs : Kept s)
    (h : Next strerror maxSize s t) : Kept t := by
  unfold Kept at hs ⊢
  cases h with
  | readFromSocket answer outcomes =>
    rw [(readFromSocket_spec strerror answer outcomes s.socket).1, ← List.append_assoc, hs]
  | read =>
    show (s.results ++ [s.socket.dataBuffer]).flatten ++ [] = s.received
    rw [List.append_nil, List.flatten_concat, hs]
  | setReadBufferSize size => rw [setReadBufferSize_dataBuffer, hs]

end Transfer

/-- In every run, the results of `read` followed by `_dataBuffer` are the bytes that `::recv` has
delivered. The next call of `readFromSocket` appends what is delivered to it, and emits
`dataReady` once if that is at least one byte, and otherwise not at all. -/
theorem received_bytes_kept {strerror : Nat → Text} {maxSize : Nat} {t : Transfer}
    (h : Reachable Transfer.Initial (Transfer.Next strerror maxSize) t) :
    t.results.flatten ++ t.socket.dataBuffer = t.received ∧
    ∀ (answer : CloseAnswer) (outcomes : List Recv),
      let after := (readFromSocket strerror answer outcomes t.socket).2
      after.dataBuffer = t.socket.dataBuffer ++ delivered t.socket outcomes ∧
        announced after = announced t.socket
          + if t.socket.dataBuffer.length < after.dataBuffer.length then 1 else 0 :=
  ⟨h.invariant (P := Transfer.Kept) (fun _ => Transfer.initial_kept)
      fun _ _ _ hs hst => Transfer.next_kept hs hst,
    fun answer outcomes => readFromSocket_spec strerror answer outcomes t.socket⟩

/-- A connected socket. -/
def quietSocket : TcpSocket := ⟨3, .connected, 1024, ⟨.noError, []⟩, [], []⟩

/-- The result for a run in which two bytes arrive before the peer closes, and are read. -/
theorem received_bytes_kept_before_close :
    ∃ t : Transfer, t.results = [['h', 'i']] ∧ t.socket.connectionStatus = .notConnected ∧
      t.results.flatten ++ t.socket.dataBuffer = t.received := by
  have hstarted : Reachable Transfer.Initial (Transfer.Next (fun _ => []) 4096) _ :=
    .start (s := ⟨quietSocket, [], []⟩) ⟨rfl, rfl, rfl, rfl⟩
  have hread := ((hstarted.step (.readFromSocket ⟨true, none⟩
    [.data ⟨['h', 'i'], by decide, by decide⟩])).step (.readFromSocket ⟨true, none⟩
    [.closed])).step .read
  exact ⟨_, rfl, rfl, (received_bytes_kept hread).1⟩

/-! ### What is sent -/

/-- A call of `write`, and what `::send` answers to it. -/
structure WriteCall where
  input : Text
  answer : SendAnswer input.length

/-- The bytes that `::send` has taken. -/
def WriteCall.accepted (call : WriteCall) : Text :=
  match call.answer.taken with
  | some count => call.input.take count
  | none => []

/-- `::send` has taken nothing, or all of an input whose length is 0 as an `int`. -/
def WriteCall.Told (call : WriteCall) : Prop :=
  ∀ count ∈ call.answer.taken, count.val = call.input.length ∧ call.input.length % 2 ^ 32 = 0

/-- A run of calls, each with what `write` has returned. -/
def writes (strerror : Nat → Text) : List WriteCall → TcpSocket → List (WriteCall × Bool)
  | [], _ => []
  | call :: calls, socket =>
    let (result, socket) := write strerror socket call.input call.answer
    (call, result) :: writes strerror calls socket

/-- The bytes that have been sent. -/
def sent (reports : List (WriteCall × Bool)) : Text := reports.flatMap fun report => report.1.accepted

/-- The inputs of the calls that have returned true. -/
def acknowledged (reports : List (WriteCall × Bool)) : Text :=
  (reports.filter Prod.snd).flatMap fun report => report.1.input

/-- The results of `write` are right: what has been sent are the inputs of the calls that have
returned true, and the others have sent nothing. -/
def ReportsSent (reports : List (WriteCall × Bool)) : Prop :=
  sent reports = acknowledged reports ∧
    ∀ report ∈ reports, report.2 = false → report.1.accepted = []

/-- The `int` is 0 for the numbers of bytes that are multiples of 2^32. -/
theorem bmod_eq_zero_iff (n : Nat) : 0 = (n : Int).bmod (2 ^ 32) ↔ n % 2 ^ 32 = 0 := by
  rw [Int.bmod_def]
  split
  · omega
  · omega

section
variable {strerror : Nat → Text} {socket : TcpSocket}

/-- On a connected socket `write` tells whether the `int` is 0, and the socket stays connected. -/
theorem write_spec (strerror : Nat → Text) (h : socket.connectionStatus = .connected) (input : Text)
    (answer : SendAnswer input.length) :
    (write strerror socket input answer).1 = decide (0 = answer.res) ∧
      (write strerror socket input answer).2.connectionStatus = .connected := by
  rw [write, if_neg (not_not.mpr h)]
  by_cases hres : 0 = answer.res
  · rw [if_neg (not_not.mpr hres)]
    exact ⟨(decide_eq_true hres).symm, h⟩
  · rw [if_pos hres]
    exact ⟨(decide_eq_false hres).symm, h⟩

/-- A run on a connected socket. -/
theorem writes_eq (h : socket.connectionStatus = .connected) (calls : List WriteCall) :
    writes strerror calls socket
      = calls.map fun call => (call, decide (0 = call.answer.res)) := by
  induction calls generalizing socket with
  | nil => rfl
  | cons call calls ih =>
    obtain ⟨hresult, hconnected⟩ := write_spec strerror h call.input call.answer
    rw [List.map_cons, ← hresult, ← ih hconnected]
    rfl

end

/-- What `::send` takes is the beginning of the input. -/
theorem length_accepted_le (call : WriteCall) : call.accepted.length ≤ call.input.length := by
  unfold WriteCall.accepted
  split
  · rw [List.length_take]
    omega
  · exact Nat.zero_le _

section
variable {reports : List (WriteCall × Bool)}

/-- A call that returns false acknowledges nothing. -/
theorem acknowledged_cons (report : WriteCall × Bool) :
    acknowledged (report :: reports)
      = (if report.2 then report.1.input else []) ++ acknowledged reports := by
  unfold acknowledged
  cases hresult : report.2 with
  | false =>
    rw [List.filter_cons_of_neg (by simp [hresult])]
    rfl
  | true =>
    rw [List.filter_cons_of_pos hresult, List.flatMap_cons]
    rfl

/-- The bytes that one more call has sent come before those of the rest. -/
theorem sent_cons (report : WriteCall × Bool) :
    sent (report :: reports) = report.1.accepted ++ sent reports := List.flatMap_cons

/-- No more is sent than acknowledged, if the calls that return false send nothing. -/
theorem length_sent_le (h : ∀ report ∈ reports, report.2 = false → report.1.accepted = []) :
    (sent reports).length ≤ (acknowledged reports).length := by
  induction reports with
  | nil => exact le_refl 0
  | cons report reports ih =>
    have hrest := ih fun r hr => h r (List.mem_cons_of_mem _ hr)
    rw [sent_cons, acknowledged_cons, List.length_append, List.length_append]
    cases hresult : report.2 with
    | false =>
      rw [h report List.mem_cons_self hresult]
      exact Nat.add_le_add_left hrest _
    | true => exact Nat.add_le_add (length_accepted_le report.1) hrest

/-- The results of a run are right exactly if every call is told right: a call that returns true
has sent its input, and one that returns false nothing. -/
theorem reportsSent_iff : ReportsSent reports ↔
    ∀ report ∈ reports, report.1.accepted = if report.2 then report.1.input else [] := by
  induction reports with
  | nil => exact iff_of_true ⟨rfl, nofun⟩ nofun
  | cons report reports ih =>
    rw [List.forall_mem_cons, ← ih, ReportsSent, ReportsSent, List.forall_mem_cons, sent_cons,
      acknowledged_cons]
    cases hresult : report.2 with
    | false =>
      constructor
      · rintro ⟨hsent, hfirst, hrest⟩
        rw [hfirst rfl] at hsent
        exact ⟨hfirst rfl, hsent, hrest⟩
      · rintro ⟨hfirst, hsent, hrest⟩
        rw [hfirst, hsent]
        exact ⟨rfl, fun _ => rfl, hrest⟩
    | true =>
      constructor
      · rintro ⟨hsent, -, hrest⟩
        -- the rest has not sent more than it should, so this call has sent all of its input
        have hlength := congrArg List.length hsent
        rw [List.length_append, List.length_append] at hlength
        have hle := length_sent_le hrest
        have hle' := length_accepted_le report.1
        have hall : report.1.accepted.length = report.1.input.length := by
          simp only [if_pos] at hlength
          omega
        obtain ⟨hfirst, hothers⟩ := List.append_inj hsent hall
        exact ⟨hfirst, hothers, hrest⟩
      · rintro ⟨hfirst, hsent, hrest⟩
        rw [hfirst, hsent]
        exact ⟨rfl, nofun, hrest⟩

end

/-- A call is told right exactly if nothing has been taken, or all of an input whose length is 0
as an `int`. -/
theorem told_iff (call : WriteCall) :
    (call.accepted = if decide (0 = call.answer.res) then call.input else []) ↔ call.Told := by
  obtain ⟨input, taken, errno⟩ := call
  cases taken with
  | none => simp [WriteCall.accepted, WriteCall.Told, SendAnswer.res]
  | some count =>
    obtain ⟨count, hcount⟩ := count
    have hzero : 0 = SendAnswer.res ⟨some ⟨count, hcount⟩, errno⟩ ↔ count % 2 ^ 32 = 0 :=
      bmod_eq_zero_iff count
    simp only [WriteCall.accepted, WriteCall.Told, Option.mem_some_iff, forall_eq',
      decide_eq_true_eq, hzero]
    split
    · rename_i hmultiple
      rw [List.take_eq_self_iff]
      constructor
      · intro hle
        have hall : count = input.length := by omega
        exact ⟨hall, hall ▸ hmultiple⟩
      · rintro ⟨hall, -⟩
        exact hall.ge
    · rename_i hmultiple
      rw [List.take_eq_nil_iff]
      constructor
      · rintro (rfl | rfl)
        · exact absurd rfl hmultiple
        · have hempty : count = 0 := by simpa using hcount
          exact absurd (by omega) hmultiple
      · rintro ⟨rfl, hlength⟩
        exact absurd hlength hmultiple

/-- In a run of `write` on a connected socket, what has been sent are the inputs of the calls that
have returned true, and the others have sent nothing, exactly if every `::send` took nothing
and failed, or took all of an input whose length is a multiple of 2^32. -/
theorem reports_sent_iff {strerror : Nat → Text} {socket : TcpSocket}
    (h : socket.connectionStatus = .connected) (calls : List WriteCall) :
    ReportsSent (writes strerror calls socket) ↔ ∀ call ∈ calls, call.Told := by
  rw [writes_eq h, reportsSent_iff, List.forall_mem_map]
  exact forall₂_congr fun call _ => told_iff call

/-- The result for a call that fails. -/
theorem reports_sent_iff_failed :
    ReportsSent (writes (fun _ => []) [⟨['h', 'i'], none, 11⟩] quietSocket) :=
  (reports_sent_iff rfl _).mpr (by simp [WriteCall.Told])

/-- `::send` takes both bytes of an input, and `write` returns false. -/
theorem sent_but_not_reported :
    ¬ReportsSent (writes (fun _ => []) [⟨['h', 'i'], some 2, 0⟩] quietSocket) := by
  intro h
  have hnothing := h.2 _ List.mem_cons_self rfl
  cases hnothing

end Brutils.Proofs.Tcp
