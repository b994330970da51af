import Brutils.Http.Passes
import Brutils.Proofs.Http.Async

/-!
# `Brutils.Proofs.Http.OneRequest`: a parser has one request to hand out

Nothing takes anything out of `_buffer`, and `parse` begins at its beginning. So the first line that
is in `_buffer` when `parse` finds a whole head there is the request line of every request that the
parser ever hands out. The strings in it are empty, there is no body, and the same key stands for
every header. So all of these requests are equal (`one_request`), and `bodyJson` of each of them
throws, because the parser of JSON looks at the first character of an empty text.

`Settled line` is the invariant from the first head on. There are three ways for the parser to be
then: at the beginning, behind an exception with the request half made, or behind an error. An
exception does not help. The next pass takes the request line for a header line, and either fails or
hands out the request that it has kept. Passes that write behind the memory of a string are no steps.

`call_steps` connects the steps with the calls.
-/

set_option autoImplicit false

namespace Brutils.Proofs.Http

open Brutils.RequestParser
open Transition (Reachable)

/-- The request has nothing of a client's request in it but the method and the version. Its headers
and its query have an empty value under every key, and the body cannot be read. -/
structure Blank (line : RequestLine) (request : HttpRequest) : Prop where
  method : request.method = line.method.2
  version : request.version = line.version.2
  path : request.path = []
  rawBody : request.rawBody = []
  header : ∀ key, request.header key = some []
  query : ∀ key, request.queryAt key = some []
  bodyJson : ∀ fuel, request.bodyJson fuel = .error .outOfRange

/-- How a parser is that has found a head in `_buffer` once. -/
inductive Phase (line : RequestLine) (rest : Text) (s : State) : Prop
  | start (hs : AtStart s)
  | thrown (hstatus : s.parsingStatus = .HEADER_LINES)
      (hrequest : s.requestInProduction.getD {} = RequestLine.read line {})
      (hempty : firstLine rest = [])
  | failed (hstatus : s.parsingStatus = .ERROR)

/-- The parser has found a head with this request line. -/
def Settled (line : RequestLine) (s : State) : Prop :=
  ∃ rest, ReadHead line s.buffer rest ∧ Phase line rest s

section
variable [StandardLibrary]

/-- What holds in every state: nothing has been handed out before a head is found, and then it is the
request of that head. -/
inductive Held (r : Handing) : Prop
  | unread (hs : AtStart r.parser) (hhanded : r.handed = [])
  | failed (hstatus : r.parser.parsingStatus = .ERROR) (hhanded : r.handed = [])
  | settled (line : RequestLine) (hs : Settled line r.parser)
      (hhanded : ∀ request ∈ r.handed, request = some (requestOf line))

variable {s t : State} {line : RequestLine} {rest : Text} {r r' : Handing}

omit [StandardLibrary] in
/-- What is handed out is such a request. -/
theorem blank_requestOf (line : RequestLine) : Blank line (requestOf line) where
  method := rfl
  version := rfl
  path := rfl
  rawBody := rfl
  header key := by rw [header_eq]; rfl
  query key := by rw [HttpRequest.queryAt, toLower_eq_nil]; rfl
  bodyJson fuel := rfl

/-! ### A pass -/

/-- Without data a pass makes an empty request. -/
theorem parse_empty (hbuffer : s.buffer = []) :
    parse s = (.ok false,
      { s with requestInProduction := some (s.requestInProduction.getD {}) }) := by
  rw [parse, if_pos (List.isEmpty_iff.mpr hbuffer)]

/-- After an error a pass does nothing. -/
theorem parse_error_status (hs : s.parsingStatus = .ERROR) :
    ∃ t, parse s = (.ok false, t) ∧ t.parsingStatus = .ERROR ∧ t.buffer = s.buffer := by
  by_cases hbuffer : s.buffer = []
  · exact ⟨_, parse_empty hbuffer, hs, rfl⟩
  · have hskip : stages s.buffer (begin s)
        = .ok ⟨0, s.requestInProduction.getD {}, .ERROR, s.emitted⟩ := by
      rw [begin, hs]
      rfl
    exact ⟨_, parse_failed hbuffer hskip rfl, rfl, rfl⟩

/-- A pass over a head without header lines keeps the request that it has begun. -/
theorem parse_bare_settled (hs : AtStart s) (hhead : ReadHead line s.buffer rest)
    (hfit : Fit (lineStrings (firstLine s.buffer))) (hempty : firstLine rest = []) :
    ∃ t, parse s = (.error .out_of_range, t) ∧ Settled line t := by
  obtain ⟨pos, hstages⟩ := stages_bare hhead hfit hempty s.emitted
  rw [← begin_start hs] at hstages
  exact ⟨_, parse_error hhead.ne_nil hstages, rest, hhead, .thrown rfl rfl hempty⟩

/-- A pass behind an exception. The request line is taken for a header line. -/
theorem parse_thrown (hhead : ReadHead line s.buffer rest)
    (hstatus : s.parsingStatus = .HEADER_LINES)
    (hrequest : s.requestInProduction.getD {} = RequestLine.read line {}) :
    (∃ emitted, parse s
        = (.ok true, ⟨s.buffer, some (requestOf line), .REQUEST_LINE, emitted⟩)) ∨
      (∃ t, parse s = (.ok false, t) ∧ t.parsingStatus = .ERROR ∧ t.buffer = s.buffer) ∨
      ∃ t, parse s = (.error .outOfBounds, t) := by
  obtain ⟨c, d, hafter⟩ := hhead.behind
  have hne : firstLine s.buffer ≠ [] := by
    rw [hhead.line_eq]
    exact text_ne_nil line
  have hstages : stages s.buffer (begin s)
      = headerStage s.buffer ⟨0, RequestLine.read line {}, .HEADER_LINES, s.emitted⟩
        >>= bodyStage s.buffer := by
    rw [begin, hstatus, hrequest]
    rfl
  by_cases hcolon : ':' ∈ firstLine s.buffer
  · by_cases hfits : HeaderFits s.buffer
    · obtain ⟨pos, hfound⟩ := headerStages_found []
        (p := ⟨0, RequestLine.read line {}, .HEADER_LINES, s.emitted⟩) rfl rfl rfl
        (.line hcolon hafter hhead.found) hfits hne
      rw [List.nil_append, ← hstages] at hfound
      exact .inl ⟨_, parse_finished hhead.ne_nil hfound rfl⟩
    · have hover := headerStages_overrun []
        (p := ⟨0, RequestLine.read line {}, .HEADER_LINES, s.emitted⟩) rfl rfl hfits
      rw [List.nil_append, ← hstages] at hover
      exact .inr (.inr ⟨_, parse_error hhead.ne_nil hover⟩)
  · obtain ⟨q, hq, hfailed⟩ := headerStages_no_colon []
      (p := ⟨0, RequestLine.read line {}, .HEADER_LINES, s.emitted⟩) rfl rfl hne hcolon
    rw [List.nil_append, ← hstages] at hfailed
    exact .inr (.inl ⟨_, parse_failed hhead.ne_nil hfailed hq, rfl, rfl⟩)

/-- What a pass does. -/
inductive Passed (line : RequestLine) (s : State) : Except Halt Bool × State → Prop
  | request (emitted : List ParseError) : Passed line s
      (.ok true, ⟨s.buffer, some (requestOf line), .REQUEST_LINE, emitted⟩)
  | nothing (t : State) (ht : Settled line t) : Passed line s (.ok false, t)
  | thrown (t : State) (ht : Settled line t) : Passed line s (.error .out_of_range, t)
  | outside (t : State) : Passed line s (.error .outOfBounds, t)

/-- A pass over a head that has been found. -/
theorem Settled.pass (hs : Settled line s) : Passed line s (parse s) := by
  obtain ⟨rest, hhead, hphase⟩ := hs
  cases hphase with
  | start hs =>
    by_cases hfits : HeadFits s.buffer
    · by_cases hempty : firstLine rest = []
      · obtain ⟨t, hparse, ht⟩ := parse_bare_settled hs hhead hfits.1 hempty
        rw [hparse]
        exact .thrown t ht
      · rw [parse_request hs hhead hfits hempty]
        exact .request _
    · obtain ⟨t, hparse⟩ := parse_overrun hs hhead hfits
      rw [hparse]
      exact .outside t
  | thrown hstatus hrequest hempty =>
    rcases parse_thrown hhead hstatus hrequest with
      ⟨emitted, hparse⟩ | ⟨t, hparse, herror, hbuffer⟩ | ⟨t, hparse⟩
    · rw [hparse]
      exact .request _
    · rw [hparse]
      exact .nothing t ⟨rest, hbuffer ▸ hhead, .failed herror⟩
    · rw [hparse]
      exact .outside t
  | failed hstatus =>
    obtain ⟨t, hparse, herror, hbuffer⟩ := parse_error_status hstatus
    rw [hparse]
    exact .nothing t ⟨rest, hbuffer ▸ hhead, .failed herror⟩

omit [StandardLibrary] in
/-- A parser that hands out a request is at the beginning again. -/
theorem Settled.again (hs : Settled line s) (emitted : List ParseError) :
    Settled line ⟨s.buffer, none, .REQUEST_LINE, emitted⟩ := by
  obtain ⟨rest, hhead, -⟩ := hs
  exact ⟨rest, hhead, .start ⟨rfl, rfl⟩⟩

omit [StandardLibrary] in
/-- Data that arrives does not change the head. -/
theorem Settled.arrive (hs : Settled line s) (data : Text) :
    Settled line { s with buffer := s.buffer ++ data } := by
  obtain ⟨rest, hhead, hphase⟩ := hs
  refine ⟨rest ++ data, hhead.append data, ?_⟩
  cases hphase with
  | start hs => exact .start hs
  | thrown hstatus hrequest hempty =>
    exact .thrown hstatus hrequest (firstLine_append_empty hhead.found.ne_nil hempty data)
  | failed hstatus => exact .failed hstatus

/-- A pass at the beginning, where no head is in `_buffer`. -/
theorem parse_open (hs : AtStart s) (hread : ¬∃ line rest, ReadHead line s.buffer rest) :
    (∃ t, parse s = (.ok false, t) ∧ (AtStart t ∨ t.parsingStatus = .ERROR)) ∨
      ∃ t, parse s = (.error .outOfBounds, t) := by
  by_cases hbuffer : s.buffer = []
  · exact .inl ⟨_, parse_empty hbuffer, .inl ⟨hs.1, hs.2⟩⟩
  · by_cases hfit : Fit (lineStrings (firstLine s.buffer))
    · have hstages := stages_not_read hfit hread s.emitted
      rw [← begin_start hs] at hstages
      rcases hstages with ⟨-, q, hstages⟩ | ⟨q, hstatus, hstages⟩
      · exact .inr ⟨_, parse_error hbuffer hstages⟩
      · exact .inl ⟨_, parse_failed hbuffer hstages hstatus, .inr rfl⟩
    · have hstages := stages_of_error (requestLineStage_overrun {} s.emitted hfit)
      rw [← begin_start hs] at hstages
      exact .inr ⟨_, parse_error hbuffer hstages⟩

/-! ### The invariant -/

/-- A step from a settled state. -/
theorem Settled.step (hs : Settled line r.parser)
    (hhanded : ∀ request ∈ r.handed, request = some (requestOf line)) (h : Step r r') :
    Held r' := by
  cases h with
  | arrive data => exact .settled line (hs.arrive data) hhanded
  | handOut t h =>
    have hpass := hs.pass
    rw [h] at hpass
    cases hpass with
    | request emitted =>
      refine .settled line (hs.again emitted) fun request hrequest => ?_
      rcases List.mem_append.1 hrequest with hrequest | hrequest
      · exact hhanded request hrequest
      · exact List.mem_singleton.1 hrequest
  | nothing t h =>
    have hpass := hs.pass
    rw [h] at hpass
    cases hpass with
    | nothing t ht => exact .settled line ht hhanded
  | thrown t e h hne =>
    have hpass := hs.pass
    rw [h] at hpass
    cases hpass with
    | thrown t ht => exact .settled line ht hhanded
    | outside t => exact absurd rfl hne

/-- A step keeps the invariant. -/
theorem Held.step (hr : Held r) (h : Step r r') : Held r' := by
  cases hr with
  | settled line hs hhanded => exact hs.step hhanded h
  | failed hstatus hhanded =>
    obtain ⟨t', hparse, herror, -⟩ := parse_error_status hstatus
    cases h with
    | arrive data => exact .failed hstatus hhanded
    | handOut t h => rw [hparse] at h; cases h
    | nothing t h => rw [hparse] at h; cases h; exact .failed herror hhanded
    | thrown t e h hne => rw [hparse] at h; cases h
  | unread hs hhanded =>
    by_cases hread : ∃ line rest, ReadHead line r.parser.buffer rest
    · -- the first pass over a head
      obtain ⟨line, rest, hhead⟩ := hread
      exact Settled.step ⟨rest, hhead, .start hs⟩ (by simp [hhanded]) h
    · cases h with
      | arrive data => exact .unread hs hhanded
      | handOut t h =>
        rcases parse_open hs hread with ⟨t', hparse, -⟩ | ⟨t', hparse⟩
        · rw [hparse] at h; cases h
        · rw [hparse] at h; cases h
      | nothing t h =>
        rcases parse_open hs hread with ⟨t', hparse, ht⟩ | ⟨t', hparse⟩
        · rw [hparse] at h
          cases h
          exact ht.elim (fun ht => .unread ht hhanded) fun ht => .failed ht hhanded
        · rw [hparse] at h; cases h
      | thrown t e h hne =>
        rcases parse_open hs hread with ⟨t', hparse, -⟩ | ⟨t', hparse⟩
        · rw [hparse] at h; cases h
        · rw [hparse] at h; cases h; exact absurd rfl hne

/-- It holds in every run. -/
theorem held_of_reachable (h : Reachable (· = Handing.fresh) Step r) : Held r := by
  refine h.invariant (fun r hr => ?_) fun r r' _ hr hstep => hr.step hstep
  rw [hr]
  exact .unread ⟨rfl, rfl⟩ rfl

/-- In every run all requests that the parser hands out are one and the same request, whatever has
been sent behind the first line. It has the method and the version of that line, and nothing else. -/
theorem one_request (h : Reachable (· = Handing.fresh) Step r) (hsome : r.handed ≠ []) :
    ∃ line : RequestLine, firstLine r.parser.buffer = line.text ∧
      ∃ request, Blank line request ∧ ∀ handed ∈ r.handed, handed = some request := by
  cases held_of_reachable h with
  | unread hs hhanded => exact absurd hhanded hsome
  | failed hstatus hhanded => exact absurd hhanded hsome
  | settled line hs hhanded =>
    obtain ⟨rest, hhead, -⟩ := hs
    exact ⟨line, hhead.line_eq, requestOf line, blank_requestOf line, hhanded⟩

end

section
open Libstdcxx

/-- The result for two passes over a request with one header line and a body. -/
theorem one_request_twice : ∃ line : RequestLine,
    firstLine ((postHead " 0".toList (by decide)).bytes ++ "x".toList) = line.text ∧
      ∃ request, Blank line request ∧
        ∀ handed ∈ [some (requestOf queryLine), some (requestOf queryLine)],
          handed = some request := by
  have hhead := readHead_head (postHead " 0".toList (by decide)) ⟨"b".toList, rfl, by decide⟩
    "x".toList
  have hfits := (headFits_head (postHead " 0".toList (by decide)) ⟨"b".toList, rfl, by decide⟩
    "x".toList).mpr ⟨by decide, by decide⟩
  have hne : firstLine ((postHead " 0".toList (by decide)).headers.flatMap HeaderLine.bytes ++
      (newLine ++ "x".toList)) ≠ [] := by decide
  generalize (postHead " 0".toList (by decide)).bytes ++ "x".toList = buffer at hhead hfits ⊢
  have hpass : parse ⟨buffer, none, .REQUEST_LINE, []⟩
      = (.ok true, ⟨buffer, some (requestOf queryLine), .REQUEST_LINE, []⟩) :=
    parse_request ⟨rfl, rfl⟩ hhead hfits hne
  have harrive : Reachable (· = Handing.fresh) Step ⟨⟨buffer, none, .REQUEST_LINE, []⟩, []⟩ :=
    .step (.start rfl) (.arrive (r := Handing.fresh) buffer)
  have hfirst := harrive.step (.handOut _ hpass)
  have hsecond := hfirst.step (.handOut _ hpass)
  exact one_request hsecond (List.cons_ne_nil _ _)

end

/-! ### The calls -/

section
variable [StandardLibrary] {s t : State} {r r' : Handing}

/-- A pass that returns true has a request to hand out. -/
theorem parse_true_request (h : parse s = (.ok true, t)) :
    ∃ request, t.requestInProduction = some request := by
  rw [parse] at h
  split at h
  · cases h
  · split at h
    · cases h
    · rename_i p _
      split at h
      · cases h
        exact ⟨p.request, rfl⟩
      · cases h

/-- The passes of the loop of `newDataReceived_slot`. -/
theorem slotLoop_steps {fuel : Nat} {ready ready' : List (Option HttpRequest)}
    {result : Except Halt Unit} {handed : List (Option HttpRequest)}
    (h : slotLoop fuel s ready = some (result, t, ready')) (hne : result ≠ .error .outOfBounds) :
    Relation.ReflTransGen Step ⟨s, handed ++ ready⟩ ⟨t, handed ++ ready'⟩ := by
  induction fuel generalizing s ready with
  | zero => cases h
  | succ fuel ih =>
    rw [slotLoop] at h
    split at h
    · rename_i e t' hparse
      cases h
      exact .single (.thrown t e hparse fun he => hne (congrArg _ he))
    · rename_i t' hparse
      cases h
      exact .single (.nothing t hparse)
    · rename_i t' hparse
      have hpass : Step ⟨s, handed ++ ready⟩ ⟨{ t' with requestInProduction := none },
          handed ++ ready ++ [t'.requestInProduction]⟩ := .handOut t' hparse
      rw [List.append_assoc] at hpass
      exact .head hpass (ih h)

/-- A call is a run of steps. -/
theorem call_steps (h : Call r r') : Relation.ReflTransGen Step r r' := by
  cases h with
  | incoming data result t h hne =>
    refine .head (.arrive data) ?_
    rw [newIncomingData] at h
    split at h
    · rename_i t' hparse
      obtain ⟨request, hrequest⟩ := parse_true_request hparse
      cases h
      rw [hrequest]
      have hpass := Step.handOut (r := ⟨{ r.parser with buffer := r.parser.buffer ++ data }, r.handed⟩)
        t' hparse
      rw [hrequest] at hpass
      exact .single hpass
    · rename_i t' hparse
      cases h
      have hnone : r.handed ++ answered (.ok none) = r.handed := List.append_nil _
      rw [hnone]
      exact .single (.nothing t hparse)
    · rename_i e t' hparse
      cases h
      have hnone : r.handed ++ answered (.error e) = r.handed := List.append_nil _
      rw [hnone]
      exact .single (.thrown t e hparse fun he => hne (congrArg _ he))
  | slot data fuel result t ready h hne =>
    refine .head (.arrive data) ?_
    have hloop : Relation.ReflTransGen Step
        ⟨{ r.parser with buffer := r.parser.buffer ++ data }, r.handed ++ []⟩
        ⟨t, r.handed ++ ready⟩ := slotLoop_steps h hne
    rw [List.append_nil] at hloop
    exact hloop

/-- So what holds of the steps holds of the calls. -/
theorem reachable_of_calls (h : Reachable (· = Handing.fresh) Call r) :
    Reachable (· = Handing.fresh) Step r :=
  h.simulated id (fun _ hr => hr) fun _ _ _ hcall => call_steps hcall

end

end Brutils.Proofs.Http
