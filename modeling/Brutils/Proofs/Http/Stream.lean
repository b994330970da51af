import Brutils.Http.Message

/-!
# `Brutils.Proofs.Http.Stream`: what the parser makes of a stream

`newIncomingData` adds to `_buffer`, and nothing takes anything out of it. `parse` begins at
the beginning of `_buffer` each time. So there are two things that a call can do that finds
`_buffer` not empty and the status `REQUEST_LINE`, if it returns (`call_cases`):

* It returns a request, and leaves the parser as it was, but for the data added. Then the next
  call without data returns the same request, and so on (`call_again`).
* It returns `nullptr` and leaves the status `ERROR`. Then every later call does so as well
  (`failed_call`).

In the first case the calls go on to return the first request (`never_delivered`). In neither
case do the calls that drain the parser come to an end with the status `REQUEST_LINE`
(`cuts_never_agree`).
-/

set_option autoImplicit false

namespace Brutils.Proofs.Http

open Brutils.RequestParser

/-! ### The stages of `parse` -/

section
variable [StandardLibrary] {buffer : Text} {p q : Progress}

/-- A request line that is accepted makes no error. -/
theorem parseRequestLine_errors {pos endPos pos' : Nat} {request request' : HttpRequest}
    {errors : List ParseError}
    (h : parseRequestLine buffer pos endPos request = some (true, pos', request', errors)) :
    errors = [] := by
  unfold parseRequestLine at h
  split at h
  · cases h
  · simp only at h
    split at h
    · cases h
    · obtain ⟨⟨found, pos, request⟩, -, h⟩ := Option.bind_eq_some_iff.mp h
      cases found with
      | false => cases h
      | true =>
        simp only at h
        split at h
        · cases h
        · cases h
          rfl

/-- The first stage from the beginning of a request. -/
theorem requestLineStage_cases (hstatus : p.parsingStatus = .REQUEST_LINE)
    (h : requestLineStage buffer p = .ok q) :
    q.parsingStatus = .ERROR ∨ q.parsingStatus = .HEADER_LINES ∧ q.emitted = p.emitted := by
  rw [requestLineStage, if_pos hstatus] at h
  split at h
  · cases h
  · rw [← Except.ok.inj h]
    exact Or.inl rfl
  · rename_i hline
    rw [← Except.ok.inj h, parseRequestLine_errors hline, List.append_nil]
    exact Or.inr ⟨rfl, rfl⟩

/-- The second stage after a request line. -/
theorem headerStage_cases (hstatus : p.parsingStatus = .HEADER_LINES)
    (h : headerStage buffer p = .ok q) :
    q.parsingStatus = .ERROR ∨
      (q.parsingStatus = .FINISHED ∨ q.parsingStatus = .BODY) ∧ q.emitted = p.emitted := by
  rw [headerStage, if_pos hstatus] at h
  split at h
  · cases h
  · rw [← Except.ok.inj h]
    exact Or.inl rfl
  · split at h
    · cases h
    · rw [← Except.ok.inj h]
      refine Or.inr ⟨?_, rfl⟩
      simp only
      split
      · exact Or.inl rfl
      · exact Or.inr rfl

omit [StandardLibrary] in
/-- The third stage after the header lines. -/
theorem bodyStage_cases (hstatus : p.parsingStatus = .BODY) (h : bodyStage buffer p = .ok q) :
    q.parsingStatus = .ERROR ∨ q.parsingStatus = .FINISHED ∧ q.emitted = p.emitted := by
  rw [bodyStage, if_pos hstatus] at h
  split at h
  · cases h
  · split at h
    · cases h
    · split at h
      · cases h
      · rw [← Except.ok.inj h]
        exact Or.inl rfl
      · rw [← Except.ok.inj h]
        exact Or.inr ⟨rfl, rfl⟩

/-- No stage does anything with the status `ERROR` or `FINISHED`. -/
theorem stages_skip (hstatus : p.parsingStatus = .ERROR ∨ p.parsingStatus = .FINISHED) :
    requestLineStage buffer p = .ok p ∧ headerStage buffer p = .ok p ∧
      bodyStage buffer p = .ok p := by
  unfold requestLineStage headerStage bodyStage
  rcases hstatus with hstatus | hstatus
  · simp only [hstatus, reduceCtorEq, if_false, and_self]
  · simp only [hstatus, reduceCtorEq, if_false, and_self]

/-- The three stages from the beginning of a request end with an error or with a request, and
then no error has been emitted. -/
theorem stages_cases (hstatus : p.parsingStatus = .REQUEST_LINE) (h : stages buffer p = .ok q) :
    q.parsingStatus = .ERROR ∨ q.parsingStatus = .FINISHED ∧ q.emitted = p.emitted := by
  unfold stages at h
  cases hfirst : requestLineStage buffer p with
  | error e => rw [hfirst] at h; cases h
  | ok p₁ =>
    cases hsecond : headerStage buffer p₁ with
    | error e => simp only [hfirst, bind, Except.bind, hsecond] at h; cases h
    | ok p₂ =>
      simp only [hfirst, bind, Except.bind, hsecond] at h
      -- a stage that is skipped returns what it has been given
      have hskip : ∀ r : Progress, r.parsingStatus = .ERROR ∨ r.parsingStatus = .FINISHED →
          r = p₂ → q = r := by
        rintro r hr rfl
        rw [(stages_skip hr).2.2] at h
        exact (Except.ok.inj h).symm
      rcases requestLineStage_cases hstatus hfirst with herror | ⟨hheader, hemitted⟩
      · rw [(stages_skip (Or.inl herror)).2.1] at hsecond
        rw [hskip p₁ (Or.inl herror) (Except.ok.inj hsecond)]
        exact Or.inl herror
      · rcases headerStage_cases hheader hsecond with herror | ⟨hfinished | hbody, hemitted'⟩
        · rw [hskip p₂ (Or.inl herror) rfl]
          exact Or.inl herror
        · rw [hskip p₂ (Or.inr hfinished) rfl]
          exact Or.inr ⟨hfinished, hemitted'.trans hemitted⟩
        · rcases bodyStage_cases hbody h with herror | ⟨hfinished, hemitted''⟩
          · exact Or.inl herror
          · exact Or.inr ⟨hfinished, hemitted''.trans (hemitted'.trans hemitted)⟩

end

/-! ### One call -/

section
variable [StandardLibrary] {s t : State} {data : Text} {result : Option HttpRequest}

/-- The parser is at the beginning of a request. -/
def AtStart (s : State) : Prop :=
  s.parsingStatus = .REQUEST_LINE ∧ s.requestInProduction.getD {} = {}

/-- The parser has met an error. -/
def Failed (s : State) : Prop := s.parsingStatus = .ERROR ∧ s.buffer ≠ []

/-- A call at the beginning of a request, with something in `_buffer`, that returns: it returns a
request and leaves the parser at the beginning of `_buffer`, or it fails. -/
theorem call_cases (hs : AtStart s) (hdata : s.buffer ++ data ≠ [])
    (h : newIncomingData s data = (.ok result, t)) :
    (∃ request, result = some request ∧ t = ⟨s.buffer ++ data, none, .REQUEST_LINE, s.emitted⟩) ∨
      result = none ∧ Failed t := by
  have hempty : (s.buffer ++ data).isEmpty = false := by
    rw [List.isEmpty_eq_false_iff]
    exact hdata
  rw [newIncomingData, parse] at h
  simp only [hempty, Bool.false_eq_true, if_false] at h
  cases hstages : stages (s.buffer ++ data)
      ⟨0, s.requestInProduction.getD {}, s.parsingStatus, s.emitted⟩ with
  | error e => rw [hstages] at h; exact nomatch (Prod.mk.inj h).1
  | ok p =>
    rw [hstages] at h
    simp only at h
    rcases stages_cases hs.1 hstages with herror | ⟨hfinished, hemitted⟩
    · rw [if_neg (by rw [herror]; exact ParsingStatus.noConfusion)] at h
      obtain ⟨hresult, rfl⟩ := Prod.mk.inj h
      exact Or.inr ⟨(Except.ok.inj hresult).symm, herror, hdata⟩
    · rw [if_pos hfinished] at h
      obtain ⟨hresult, rfl⟩ := Prod.mk.inj h
      refine Or.inl ⟨p.request, (Except.ok.inj hresult).symm, ?_⟩
      simp only [State.leave, hemitted, List.append_nil]

/-- Two parsers at the beginning of a request, with the same `_buffer`, make the same call. -/
theorem call_congr (hs : AtStart s) (ht : AtStart t) (hbuffer : s.buffer = t.buffer)
    (hemitted : s.emitted = t.emitted) (hdata : s.buffer ++ data ≠ []) :
    newIncomingData s data = newIncomingData t data := by
  have hempty : (t.buffer ++ data).isEmpty = false := by
    rw [List.isEmpty_eq_false_iff, ← hbuffer]
    exact hdata
  unfold newIncomingData parse State.leave
  simp only [hbuffer, hempty, hs.1, ht.1, hs.2, ht.2, hemitted]

/-- What a call returns that finds the parser at the beginning of a request, the next call without
data returns again. -/
theorem call_again (hs : AtStart s) (hdata : s.buffer ++ data ≠ []) {request : HttpRequest}
    (h : newIncomingData s data = (.ok (some request), t)) :
    newIncomingData t [] = (.ok (some request), t) := by
  rcases call_cases hs hdata h with ⟨request', -, rfl⟩ | ⟨hnone, -⟩
  · -- the state differs from that before the call in where the data is
    have hbefore : newIncomingData ⟨s.buffer ++ data, none, .REQUEST_LINE, s.emitted⟩ []
        = newIncomingData ⟨s.buffer ++ data, s.requestInProduction, s.parsingStatus, s.emitted⟩ [] := by
      refine call_congr ⟨rfl, rfl⟩ hs rfl rfl ?_
      rw [List.append_nil]
      exact hdata
    rw [hbefore, ← h]
    unfold newIncomingData
    simp only [List.append_nil]
  · cases hnone

/-- A parser that has met an error returns no request and does not recover. -/
theorem failed_call (hs : Failed s) (data : Text) :
    ∃ t, newIncomingData s data = (.ok none, t) ∧ Failed t := by
  obtain ⟨herror, hsome⟩ := hs
  have hdata : s.buffer ++ data ≠ [] := by
    intro hnil
    exact hsome (List.append_eq_nil_iff.mp hnil).1
  have hempty : (s.buffer ++ data).isEmpty = false := by
    rw [List.isEmpty_eq_false_iff]
    exact hdata
  have hskip : stages (s.buffer ++ data)
      ⟨0, s.requestInProduction.getD {}, .ERROR, s.emitted⟩
        = .ok ⟨0, s.requestInProduction.getD {}, .ERROR, s.emitted⟩ := rfl
  refine ⟨(parse { s with buffer := s.buffer ++ data }).2, ?_, ?_⟩
  · rw [newIncomingData, parse]
    simp only [hempty, herror, hskip, Bool.false_eq_true, if_false, reduceCtorEq]
  · rw [parse]
    simp only [hempty, herror, hskip, Bool.false_eq_true, if_false, reduceCtorEq]
    exact ⟨rfl, hdata⟩

/-- A call that leaves `_buffer` empty returns no request and leaves the parser at the beginning. -/
theorem empty_call (hs : AtStart s) (hbuffer : s.buffer = []) :
    ∃ t, newIncomingData s [] = (.ok none, t) ∧ AtStart t ∧ t.buffer = [] := by
  refine ⟨{ s with requestInProduction := some (s.requestInProduction.getD {}) }, ?_, ?_, hbuffer⟩
  · unfold newIncomingData parse
    simp only [hbuffer, List.append_nil, List.isEmpty_nil, if_true]
  · exact ⟨hs.1, hs.2⟩

end

/-! ### One stream in one call -/

section
variable [StandardLibrary]

/-- Call number `n` and the parser after it. The first call is on a new parser with all of `data`,
the others have no data. -/
def call (data : Text) : Nat → Except Halt (Option HttpRequest) × State
  | 0 => newIncomingData fresh data
  | n + 1 => newIncomingData (call data n).2 []

/-- One call for each message returns a request that corresponds to it, and every later call returns
`nullptr`. -/
def Delivers (Corresponds : Message → HttpRequest → Prop) (messages : List Message) : Prop :=
  (∀ n message, messages[n]? = some message →
    ∃ request, (call (stream messages) n).1 = .ok (some request) ∧ Corresponds message request) ∧
  ∀ n, messages.length ≤ n → (call (stream messages) n).1 = .ok none

omit [StandardLibrary] in
/-- A new parser is at the beginning of a request. -/
theorem fresh_atStart : AtStart fresh := ⟨rfl, rfl⟩

/-- If the first call returns a request, every call returns it. -/
theorem call_repeats {data : Text} (hdata : data ≠ []) {request : HttpRequest}
    (h : (call data 0).1 = .ok (some request)) (n : Nat) :
    call data n = (.ok (some request), (call data 0).2) := by
  have hfirst : newIncomingData fresh data = (.ok (some request), (call data 0).2) := by
    rw [← h]
    rfl
  induction n with
  | zero => exact hfirst
  | succ n ih =>
    show newIncomingData (call data n).2 [] = _
    rw [ih]
    exact call_again fresh_atStart hdata hfirst

end

/-- A message with one header line and no body. -/
def getMessage : Message where
  method := ("GET".toList, .GET)
  path := "/a".toList
  query := "b=c".toList
  version := ("HTTP/1.1".toList, .HTTP_11)
  headers := [⟨"Host".toList, " x".toList, by decide, by decide, by decide⟩]
  body := []
  method_mem := by decide
  version_mem := by decide
  path_ne_nil := by decide
  path_freeOf := by decide
  query_ne_nil := by decide
  query_freeOf := by decide
  headers_ne_nil := by decide
  announced := Or.inl rfl

example : stream [getMessage] = "GET /a?b=c HTTP/1.1\r\nHost: x\r\n\r\n".toList := by decide

section
open Libstdcxx

/-- Two calls for one message. The second should have returned `nullptr`. -/
theorem second_call_returns_again :
    (∃ request, (call (stream [getMessage]) 0).1 = .ok (some request) ∧
      (call (stream [getMessage]) 1).1 = .ok (some request)) ∧
    ¬Delivers (fun _ _ => True) [getMessage] := by
  have hfirst : (call (stream [getMessage]) 0).1
      = .ok (some ⟨.GET, .HTTP_11, [], [([], [])], [], [([], [])]⟩) := by decide
  have hsecond : (call (stream [getMessage]) 1).1
      = .ok (some ⟨.GET, .HTTP_11, [], [([], [])], [], [([], [])]⟩) := by decide
  refine ⟨⟨_, hfirst, hsecond⟩, ?_⟩
  rintro ⟨-, hlast⟩
  have hnone := hlast 1 (le_refl 1)
  rw [hsecond] at hnone
  exact nomatch Except.ok.inj hnone

end

section
variable [StandardLibrary]

/-- A stream of messages is never delivered, whatever it means that a request corresponds to a
message: if the first call returns a request, so does every later one. -/
theorem never_delivered (Corresponds : Message → HttpRequest → Prop) (first : Message)
    (rest : List Message) : ¬Delivers Corresponds (first :: rest) := by
  rintro ⟨hfirst, hlast⟩
  obtain ⟨request, hrequest, -⟩ := hfirst 0 first rfl
  have hagain := call_repeats (stream_cons_ne_nil first rest) hrequest (first :: rest).length
  have hnone := hlast (first :: rest).length (le_refl _)
  rw [hagain] at hnone
  exact nomatch Option.some_ne_none _ (Except.ok.inj hnone)

/-! ### A stream in pieces -/

/-- Calls without data until one returns `nullptr`. -/
inductive Drains : State → List HttpRequest → State → Prop
  | done {s t : State} (h : newIncomingData s [] = (.ok none, t)) : Drains s [] t
  | more {s t u : State} {request : HttpRequest} {requests : List HttpRequest}
      (h : newIncomingData s [] = (.ok (some request), t)) (hmore : Drains t requests u) :
      Drains s (request :: requests) u

/-- A call for each chunk, each followed by calls that drain the parser. An exception ends it. -/
inductive Feeds : State → List Text → List HttpRequest → State → Prop
  | nil (s : State) : Feeds s [] [] s
  | cons {s t u v : State} {chunk : Text} {chunks : List Text} {result : Option HttpRequest}
      {drained requests : List HttpRequest} (h : newIncomingData s chunk = (.ok result, t))
      (hdrain : Drains t drained u) (hrest : Feeds u chunks requests v) :
      Feeds s (chunk :: chunks) (result.toList ++ drained ++ requests) v

variable {s t : State} {requests : List HttpRequest}

/-- A parser that has met an error is drained at once. -/
theorem drains_failed (h : Drains s requests t) (hs : Failed s) : Failed t := by
  cases h with
  | done h =>
    obtain ⟨t', hcall, ht'⟩ := failed_call hs []
    rw [hcall] at h
    rwa [← (Prod.mk.inj h).2]
  | more h hmore =>
    obtain ⟨t', hcall, -⟩ := failed_call hs []
    rw [hcall] at h
    exact nomatch Except.ok.inj (Prod.mk.inj h).1

/-- A parser with an empty `_buffer` is drained at once. -/
theorem drains_empty (h : Drains s requests t) (hs : AtStart s) (hbuffer : s.buffer = []) :
    AtStart t ∧ t.buffer = [] := by
  obtain ⟨t', hcall, ht'⟩ := empty_call hs hbuffer
  cases h with
  | done h =>
    rw [hcall] at h
    rwa [← (Prod.mk.inj h).2]
  | more h hmore =>
    rw [hcall] at h
    exact nomatch Except.ok.inj (Prod.mk.inj h).1

/-- A parser that returns the same request again and again is never drained. -/
theorem not_drains {request : HttpRequest}
    (hagain : newIncomingData s [] = (.ok (some request), s)) : ¬Drains s requests t := by
  intro h
  induction h with
  | done h =>
    rw [hagain] at h
    exact nomatch Except.ok.inj (Prod.mk.inj h).1
  | more h hmore ih =>
    rw [hagain] at h
    obtain ⟨-, rfl⟩ := Prod.mk.inj h
    exact ih hagain

/-- A parser that has met an error is fed without effect. -/
theorem feeds_failed {chunks : List Text} (h : Feeds s chunks requests t) (hs : Failed s) :
    Failed t := by
  induction h with
  | nil s => exact hs
  | cons h hdrain hrest ih =>
    obtain ⟨t', hcall, ht'⟩ := failed_call hs _
    rw [hcall] at h
    obtain ⟨-, rfl⟩ := Prod.mk.inj h
    exact ih (drains_failed hdrain ht')

/-- Whatever a new parser is fed, when it has been drained it has met an error, if it has been fed
anything at all. -/
theorem feeds_ends_failed {chunks : List Text} (h : Feeds s chunks requests t) (hs : AtStart s)
    (hbuffer : s.buffer = []) (hchunks : chunks.flatten ≠ []) : Failed t := by
  induction h with
  | nil s => exact absurd rfl hchunks
  | @cons s t u v chunk chunks result drained requests h hdrain hrest ih =>
    by_cases hchunk : chunk = []
    · -- an empty chunk leaves the parser at the beginning, and the rest is not empty
      subst hchunk
      obtain ⟨t', hcall, ht', hbuffer'⟩ := empty_call hs hbuffer
      rw [hcall] at h
      obtain ⟨-, rfl⟩ := Prod.mk.inj h
      obtain ⟨hu, hubuffer⟩ := drains_empty hdrain ht' hbuffer'
      exact ih hu hubuffer (by rwa [List.flatten_cons, List.nil_append] at hchunks)
    · have hdata : s.buffer ++ chunk ≠ [] := by rwa [hbuffer, List.nil_append]
      rcases call_cases hs hdata h with ⟨request, rfl, -⟩ | ⟨-, ht⟩
      · exact absurd hdrain (not_drains (call_again hs hdata h))
      · exact feeds_failed hrest (drains_failed hdrain ht)

/-- A way of cutting a stream into consecutive chunks. -/
def Cut (bytes : Text) : Type := { chunks : List Text // chunks.flatten = bytes }

/-- Two ways of cutting a stream yield the same requests, and both leave the parser with the status
`REQUEST_LINE`. -/
def CutsAgree {bytes : Text} (cut cut' : Cut bytes) : Prop :=
  ∃ requests t t', Feeds fresh cut.1 requests t ∧ Feeds fresh cut'.1 requests t' ∧
    t.parsingStatus = .REQUEST_LINE ∧ t'.parsingStatus = .REQUEST_LINE

end

section
open Libstdcxx

/-- A message in one piece, and cut after its first four bytes. -/
theorem cut_in_request_line : ∃ cut cut' : Cut (stream [getMessage]), ¬CutsAgree cut cut' := by
  refine ⟨⟨[stream [getMessage]], List.append_nil _⟩,
    ⟨[(stream [getMessage]).take 4, (stream [getMessage]).drop 4], ?_⟩, ?_⟩
  · rw [List.flatten_cons, List.flatten_singleton, List.take_append_drop]
  · rintro ⟨requests, t, t', -, hfeeds, -, hstatus⟩
    have hfailed := feeds_ends_failed hfeeds fresh_atStart rfl (by decide)
    rw [hfailed.1] at hstatus
    cases hstatus

end

/-- No two ways of cutting a stream of messages agree: no way of cutting leaves the parser drained
and with the status `REQUEST_LINE`. -/
theorem cuts_never_agree [StandardLibrary] (first : Message) (rest : List Message)
    (cut cut' : Cut (stream (first :: rest))) : ¬CutsAgree cut cut' := by
  rintro ⟨requests, t, t', hfeeds, -, hstatus, -⟩
  have hsome : cut.1.flatten ≠ [] := by
    rw [cut.2]
    exact stream_cons_ne_nil first rest
  have hfailed := feeds_ends_failed hfeeds fresh_atStart rfl hsome
  rw [hfailed.1] at hstatus
  cases hstatus

end Brutils.Proofs.Http
