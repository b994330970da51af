import Brutils.Proofs.Http.Body

/-!
# `Brutils.Proofs.Http.Async`: the loop of `newDataReceived_slot`

The loop calls `parse` until it returns false. `parse` begins at the beginning of `_buffer` and
takes nothing out of it. So if it returns true once from the status `REQUEST_LINE`, it does so
in every pass, and the loop does not end (`slotLoop_endless`). The loop ends with the first
pass that returns false or throws.

`Steady` says what the parser is like between two calls: at the beginning, with an empty
`_buffer` or one that begins with a head that is read; or after an error; or, if `header` has
thrown, behind the request line of a head without header lines. Every call keeps this
(`steady_of_reachable`), unless it reads behind the end of `_buffer` or writes behind the memory of a
string: then there is no state to go on from.

`slot_ends_iff` says in which of these states the loop ends as it should when whole requests arrive.
Then its first pass returns false, and nothing is emitted.
-/

set_option autoImplicit false

namespace Brutils.Proofs.Http

open Transition (Reachable)
open Brutils.RequestParser

/-! ### One pass -/

/-- A head without header lines. -/
def BareHead (buffer : Text) : Prop := ∃ line rest, ReadHead line buffer rest ∧ firstLine rest = []

/-- What the parser is like between two calls. -/
inductive Steady (s : State) : Prop
  | start (hs : AtStart s) (hbuffer : s.buffer = [] ∨ ∃ line rest, ReadHead line s.buffer rest)
  | failed (hstatus : s.parsingStatus = .ERROR)
  | thrown (hstatus : s.parsingStatus = .HEADER_LINES)
      (hheaders : (s.requestInProduction.getD {}).headers = []) (hbuffer : BareHead s.buffer)

/-- The parser reads a head: at the beginning of a request, or behind an exception if it can take
the request line for a header line. -/
def Reads (s : State) (buffer : Text) : Prop :=
  (AtStart s ∧ ∃ line rest, ReadHead line buffer rest) ∨
    s.parsingStatus = .HEADER_LINES ∧ ':' ∈ firstLine buffer

section
variable [StandardLibrary]

/-- The first line is a request line that is accepted, or one of which a string does not fit, or behind
an exception it has a `:`. -/
def Stuck (s : State) (buffer : Text) : Prop :=
  s.parsingStatus = .REQUEST_LINE ∧
      (AcceptedText (firstLine buffer) ∨ ¬Fit (lineStrings (firstLine buffer))) ∨
    s.parsingStatus = .HEADER_LINES ∧ ':' ∈ firstLine buffer

/-- How `parse` ends with `buffer` in `_buffer`. -/
inductive ParseOutcome (s : State) (buffer : Text) : Except Halt Bool × State → Prop
  | quiet (hs : ¬Reads s buffer)
      (hfit : s.parsingStatus = .REQUEST_LINE → Fit (lineStrings (firstLine buffer))) (t : State)
      (ht : Steady t) : ParseOutcome s buffer (.ok false, t)
  | outside (hs : Stuck s buffer) (t : State) : ParseOutcome s buffer (.error .outOfBounds, t)
  | request (hs : AtStart s) {line : RequestLine} {rest : Text} (hhead : ReadHead line buffer rest)
      (hne : firstLine rest ≠ []) : ParseOutcome s buffer
        (.ok true, ⟨buffer, some (requestOf line), .REQUEST_LINE, s.emitted⟩)
  | bare (hs : AtStart s) (hbuffer : BareHead buffer) (t : State) (ht : Steady t) :
      ParseOutcome s buffer (.error .out_of_range, t)
  | again (hs : s.parsingStatus = .HEADER_LINES) (hcolon : ':' ∈ firstLine buffer)
      (hbuffer : BareHead buffer) (request : HttpRequest) (emitted : List ParseError) :
      ParseOutcome s buffer (.ok true, ⟨buffer, some request, .REQUEST_LINE, emitted⟩)

variable {s t : State} {buffer data : Text}

/-- Where the stages of `parse` begin. -/
def begin (s : State) : Progress :=
  ⟨0, s.requestInProduction.getD {}, s.parsingStatus, s.emitted⟩

/-- The stages do not end. -/
theorem parse_error (hdata : s.buffer ≠ []) {e : Halt} {p : Progress}
    (h : stages s.buffer (begin s) = .error (e, p)) :
    parse s = (.error e, s.leave p p.parsingStatus []) := by
  have hempty : s.buffer.isEmpty = false := List.isEmpty_eq_false_iff.mpr hdata
  rw [begin] at h
  simp only [parse, hempty, h, Bool.false_eq_true, if_false]

/-- The stages end with a request. -/
theorem parse_finished (hdata : s.buffer ≠ []) {p : Progress}
    (h : stages s.buffer (begin s) = .ok p) (hstatus : p.parsingStatus = .FINISHED) :
    parse s = (.ok true, s.leave p .REQUEST_LINE []) := by
  have hempty : s.buffer.isEmpty = false := List.isEmpty_eq_false_iff.mpr hdata
  rw [begin] at h
  simp only [parse, hempty, h, hstatus, Bool.false_eq_true, if_false, if_true]

/-- The stages end with an error. -/
theorem parse_failed (hdata : s.buffer ≠ []) {p : Progress}
    (h : stages s.buffer (begin s) = .ok p) (hstatus : p.parsingStatus = .ERROR) :
    parse s = (.ok false, s.leave p .ERROR [{}]) := by
  have hempty : s.buffer.isEmpty = false := List.isEmpty_eq_false_iff.mpr hdata
  rw [begin] at h
  simp only [parse, hempty, h, hstatus, Bool.false_eq_true, if_false, reduceCtorEq]

omit [StandardLibrary] in
/-- A head without header lines stays one when something is added. -/
theorem BareHead.append (h : BareHead buffer) (more : Text) : BareHead (buffer ++ more) := by
  obtain ⟨line, rest, hhead, hempty⟩ := h
  exact ⟨line, rest ++ more, hhead.append more,
    firstLine_append_empty hhead.found.ne_nil hempty more⟩

/-- After an error `parse` does nothing. -/
theorem parseOutcome_failed (hs : s.parsingStatus = .ERROR) (buffer : Text) :
    ParseOutcome s buffer (parse { s with buffer := buffer }) := by
  have hreads : ¬Reads s buffer := by
    rintro (⟨⟨hstart, -⟩, -⟩ | ⟨hheader, -⟩)
    · rw [hs] at hstart
      cases hstart
    · rw [hs] at hheader
      cases hheader
  have hfit : s.parsingStatus = .REQUEST_LINE → Fit (lineStrings (firstLine buffer)) := by
    intro hstart
    rw [hs] at hstart
    cases hstart
  by_cases hbuffer : buffer = []
  · rw [parse, if_pos (by rw [List.isEmpty_iff]; exact hbuffer)]
    exact .quiet hreads hfit _ (.failed hs)
  · have hskip : stages buffer (begin { s with buffer := buffer })
        = .ok ⟨0, s.requestInProduction.getD {}, .ERROR, s.emitted⟩ := by
      rw [begin, hs]
      rfl
    rw [parse_failed hbuffer hskip rfl]
    exact .quiet hreads hfit _ (.failed rfl)

omit [StandardLibrary] in
/-- Where they begin at the beginning of a request. -/
theorem begin_start (hs : AtStart s) : begin s = start {} s.emitted := by
  rw [begin, hs.1, hs.2]
  rfl

/-- `parse` returns true where a head with a header line is read and its strings fit. -/
theorem parse_request (hs : AtStart s) {line : RequestLine} {rest : Text}
    (hhead : ReadHead line s.buffer rest) (hfits : HeadFits s.buffer) (hne : firstLine rest ≠ []) :
    parse s = (.ok true, ⟨s.buffer, some (requestOf line), .REQUEST_LINE, s.emitted⟩) := by
  obtain ⟨pos, hstages⟩ := stages_complete hhead hfits hne s.emitted
  rw [← begin_start hs] at hstages
  rw [parse_finished hhead.ne_nil hstages rfl]
  simp only [State.leave, List.append_nil]

/-- `parse` throws where a head without header lines is read. -/
theorem parse_bare (hs : AtStart s) (hfit : Fit (lineStrings (firstLine s.buffer)))
    (hbare : BareHead s.buffer) : ∃ t, parse s = (.error .out_of_range, t) ∧ Steady t := by
  have ⟨line, rest, hhead, hempty⟩ := hbare
  obtain ⟨pos, hstages⟩ := stages_bare hhead hfit hempty s.emitted
  rw [← begin_start hs] at hstages
  exact ⟨_, parse_error hhead.ne_nil hstages, .thrown rfl rfl hbare⟩

/-- A head of which a string does not fit: `parse` does not return. -/
theorem parse_overrun (hs : AtStart s) {line : RequestLine} {rest : Text}
    (hhead : ReadHead line s.buffer rest) (hfits : ¬HeadFits s.buffer) :
    ∃ t, parse s = (.error .outOfBounds, t) := by
  obtain ⟨q, hstages⟩ := stages_overrun hhead hfits s.emitted
  rw [← begin_start hs] at hstages
  exact ⟨_, parse_error hhead.ne_nil hstages⟩

/-- `parse` at the beginning of a request where a head is read. -/
theorem parseOutcome_read (hs : AtStart s) {line : RequestLine} {rest : Text}
    (hhead : ReadHead line buffer rest) :
    ParseOutcome s buffer (parse { s with buffer := buffer }) := by
  have hs' : AtStart { s with buffer := buffer } := ⟨hs.1, hs.2⟩
  by_cases hfits : HeadFits buffer
  · by_cases hempty : firstLine rest = []
    · obtain ⟨t, hcall, ht⟩ := parse_bare hs' hfits.1 ⟨line, rest, hhead, hempty⟩
      rw [hcall]
      exact .bare hs ⟨line, rest, hhead, hempty⟩ t ht
    · rw [parse_request hs' hhead hfits hempty]
      exact .request hs hhead hempty
  · obtain ⟨t, hcall⟩ := parse_overrun hs' hhead hfits
    rw [hcall]
    exact .outside (Or.inl ⟨hs.1, Or.inl hhead.accepted⟩) t

/-- `parse` at the beginning of a request. -/
theorem parseOutcome_start (hs : AtStart s) (buffer : Text) :
    ParseOutcome s buffer (parse { s with buffer := buffer }) := by
  have hs' : AtStart { s with buffer := buffer } := ⟨hs.1, hs.2⟩
  by_cases hread : ∃ line rest, ReadHead line buffer rest
  · obtain ⟨line, rest, hhead⟩ := hread
    exact parseOutcome_read hs hhead
  · have hreads : ¬Reads s buffer := by
      rintro (⟨-, hread'⟩ | ⟨hheader, -⟩)
      · exact hread hread'
      · rw [hs.1] at hheader
        cases hheader
    by_cases hbuffer : buffer = []
    · subst hbuffer
      exact .quiet hreads (fun _ => fit_nil) _ (.start ⟨hs.1, hs.2⟩ (Or.inl rfl))
    · have hbegin : begin { s with buffer := buffer } = start {} s.emitted := begin_start hs'
      by_cases hfit : Fit (lineStrings (firstLine buffer))
      · have hstages := stages_not_read hfit hread s.emitted
        rw [← hbegin] at hstages
        rcases hstages with ⟨haccepted, q, hstages⟩ | ⟨q, hstatus, hstages⟩
        · rw [parse_error hbuffer hstages]
          exact .outside (Or.inl ⟨hs.1, Or.inl haccepted⟩) _
        · rw [parse_failed hbuffer hstages hstatus]
          exact .quiet hreads (fun _ => hfit) _ (.failed rfl)
      · have hstages := stages_of_error (requestLineStage_overrun {} s.emitted hfit)
        rw [← hbegin] at hstages
        rw [parse_error hbuffer hstages]
        exact .outside (Or.inl ⟨hs.1, Or.inr hfit⟩) _

/-- `parse` behind an exception. -/
theorem parseOutcome_thrown (hs : s.parsingStatus = .HEADER_LINES)
    (hheaders : (s.requestInProduction.getD {}).headers = []) (hbare : BareHead buffer) :
    ParseOutcome s buffer (parse { s with buffer := buffer }) := by
  obtain ⟨line, rest, hhead, hempty⟩ := hbare
  obtain ⟨c, d, hafter⟩ := hhead.behind
  have hne : firstLine buffer ≠ [] := by
    rw [hhead.line_eq]
    exact text_ne_nil line
  have hstages : stages buffer (begin { s with buffer := buffer })
      = headerStage buffer ⟨0, s.requestInProduction.getD {}, .HEADER_LINES, s.emitted⟩
        >>= bodyStage buffer := by
    rw [begin, hs]
    rfl
  -- a header line, as after an earlier exception, or a line that is no header
  by_cases hcolon : ':' ∈ firstLine buffer
  · by_cases hfits : HeaderFits buffer
    · obtain ⟨pos, hfound⟩ := headerStages_found []
        (p := ⟨0, s.requestInProduction.getD {}, .HEADER_LINES, s.emitted⟩) rfl hheaders rfl
        (.line hcolon hafter hhead.found) hfits hne
      rw [List.nil_append, ← hstages] at hfound
      rw [parse_finished hhead.ne_nil hfound rfl]
      exact .again hs hcolon ⟨line, rest, hhead, hempty⟩ _ _
    · -- a string of the header lines does not fit
      have hover := headerStages_overrun []
        (p := ⟨0, s.requestInProduction.getD {}, .HEADER_LINES, s.emitted⟩) rfl rfl hfits
      rw [List.nil_append, ← hstages] at hover
      rw [parse_error hhead.ne_nil hover]
      exact .outside (Or.inr ⟨hs, hcolon⟩) _
  · obtain ⟨q, hstatus, hfailed⟩ := headerStages_no_colon []
      (p := ⟨0, s.requestInProduction.getD {}, .HEADER_LINES, s.emitted⟩) rfl rfl hne hcolon
    rw [List.nil_append, ← hstages] at hfailed
    rw [parse_failed hhead.ne_nil hfailed hstatus]
    have hother : s.parsingStatus ≠ .REQUEST_LINE := by
      rw [hs]
      exact ParsingStatus.noConfusion
    refine .quiet ?_ (fun hstart => absurd hstart hother) _ (.failed rfl)
    rintro (⟨⟨hstart, -⟩, -⟩ | ⟨-, hcolon'⟩)
    · exact hother hstart
    · exact hcolon hcolon'

/-- `parse` after more data has arrived. -/
theorem parseOutcome (hs : Steady s) (data : Text) :
    ParseOutcome s (s.buffer ++ data) (parse { s with buffer := s.buffer ++ data }) := by
  cases hs with
  | start hs hbuffer => exact parseOutcome_start hs _
  | failed hstatus => exact parseOutcome_failed hstatus _
  | thrown hstatus hheaders hbuffer => exact parseOutcome_thrown hstatus hheaders (hbuffer.append data)

omit [StandardLibrary] in
/-- The parser after a pass that returns a request. -/
theorem steady_start {emitted : List ParseError}
    (hbuffer : ∃ line rest, ReadHead line buffer rest) :
    Steady ⟨buffer, none, .REQUEST_LINE, emitted⟩ :=
  .start ⟨rfl, rfl⟩ (Or.inr hbuffer)

/-- A pass that returns a request keeps the parser steady. -/
theorem ParseOutcome.steady_true (h : ParseOutcome s buffer (.ok true, t)) :
    Steady { t with requestInProduction := none } := by
  cases h with
  | request hs hhead hne => exact steady_start ⟨_, _, hhead⟩
  | again hs hcolon hbuffer request emitted =>
    obtain ⟨line, rest, hhead, -⟩ := hbuffer
    exact steady_start ⟨line, rest, hhead⟩

/-- So does one that returns none. -/
theorem ParseOutcome.steady_false (h : ParseOutcome s buffer (.ok false, t)) : Steady t := by
  cases h with
  | quiet hs hfit t ht => exact ht

/-- So does one that throws. -/
theorem ParseOutcome.steady_error {e : Halt} (h : ParseOutcome s buffer (.error e, t))
    (hne : e ≠ .outOfBounds) : Steady t := by
  cases h with
  | outside hs t => exact absurd rfl hne
  | bare hs hbuffer t ht => exact ht

/-! ### Calls -/

/-- `newIncomingData` keeps the parser steady. -/
theorem newIncomingData_steady (hs : Steady s) {result : Except Halt (Option HttpRequest)}
    (h : newIncomingData s data = (result, t)) (hne : result ≠ .error .outOfBounds) : Steady t := by
  have houtcome := parseOutcome hs data
  rw [newIncomingData] at h
  generalize parse { s with buffer := s.buffer ++ data } = outcome at houtcome h
  obtain ⟨result', t'⟩ := outcome
  cases result' with
  | error e =>
    obtain ⟨rfl, rfl⟩ := Prod.mk.inj h
    exact houtcome.steady_error fun he => hne (congrArg _ he)
  | ok found =>
    obtain ⟨-, rfl⟩ := Prod.mk.inj h
    cases found with
    | false => exact houtcome.steady_false
    | true => exact houtcome.steady_true

/-- So does the loop of `newDataReceived_slot`. -/
theorem slotLoop_steady {fuel : Nat} {ready ready' : List (Option HttpRequest)}
    {result : Except Halt Unit} (hs : Steady s)
    (h : slotLoop fuel { s with buffer := s.buffer ++ data } ready = some (result, t, ready'))
    (hne : result ≠ .error .outOfBounds) : Steady t := by
  induction fuel generalizing s data ready with
  | zero => cases h
  | succ fuel ih =>
    have houtcome := parseOutcome hs data
    rw [slotLoop] at h
    generalize parse { s with buffer := s.buffer ++ data } = outcome at houtcome h
    obtain ⟨result', t'⟩ := outcome
    cases result' with
    | error e =>
      cases h
      exact houtcome.steady_error fun he => hne (congrArg _ he)
    | ok found =>
      cases found with
      | false =>
        cases h
        exact houtcome.steady_false
      | true =>
        refine @ih _ [] (ready ++ [t'.requestInProduction]) houtcome.steady_true ?_
        simp only [List.append_nil]
        exact h

/-- Data arrives, in a call of one of the two functions that take it. A call that reads behind the
end of `_buffer` or writes behind the memory of a string leaves no state. -/
inductive Receives (s t : State) : Prop
  | incoming (data : Text) (result : Except Halt (Option HttpRequest))
      (h : newIncomingData s data = (result, t)) (hne : result ≠ .error .outOfBounds)
  | slot (data : Text) (fuel : Nat) (result : Except Halt Unit) (ready : List (Option HttpRequest))
      (h : newDataReceivedSlot fuel s data = some (result, t, ready))
      (hne : result ≠ .error .outOfBounds)

/-- What receiving data leads to. -/
theorem steady_of_reachable (h : Reachable (· = fresh) Receives s) : Steady s := by
  refine h.invariant (fun t ht => ?_) fun s t _ hs hst => ?_
  · rw [ht]
    exact .start fresh_atStart (Or.inl rfl)
  · cases hst with
    | incoming data result h hne => exact newIncomingData_steady hs h hne
    | slot data fuel result ready h hne => exact slotLoop_steady hs h hne

/-! ### The slot -/

/-- The bytes of whole requests. -/
def wholeBytes (requests : List WholeRequest) : Text := requests.flatMap WholeRequest.bytes

omit [StandardLibrary] in
/-- The bytes of the first request come first. -/
theorem wholeBytes_cons (first : WholeRequest) (others : List WholeRequest) :
    wholeBytes (first :: others) = first.head.bytes ++ (first.body ++ wholeBytes others) := by
  rw [wholeBytes, List.flatMap_cons, WholeRequest.bytes, List.append_assoc]
  rfl

omit [StandardLibrary] in
/-- Where whole requests have arrived, a head is read if its request line is accepted. -/
theorem reads_of_accepted (hs : Steady s) (requests : List WholeRequest)
    (hstatus : s.parsingStatus = .REQUEST_LINE)
    (haccepted : AcceptedText (firstLine (s.buffer ++ wholeBytes requests))) :
    Reads s (s.buffer ++ wholeBytes requests) := by
  cases hs with
  | failed herror =>
    rw [herror] at hstatus
    cases hstatus
  | thrown hheader hheaders hbuffer =>
    rw [hheader] at hstatus
    cases hstatus
  | start hs hbuffer =>
    refine Or.inl ⟨hs, ?_⟩
    rcases hbuffer with hempty | ⟨line, rest, hhead⟩
    · rw [hempty, List.nil_append] at haccepted ⊢
      cases requests with
      | nil => exact absurd rfl haccepted.ne_nil
      | cons first others =>
        rw [wholeBytes_cons] at haccepted ⊢
        exact ⟨_, _, readHead_head first.head ((head_accepted_iff _ _).mp haccepted) _⟩
    · exact ⟨line, _, hhead.append _⟩

/-- The loop of the slot comes to its end without an exception. -/
def Returned (result : Option (Except Halt Unit × State × List (Option HttpRequest))) : Prop :=
  ∃ t ready, result = some (.ok (), t, ready)

omit [StandardLibrary] in
/-- An exception is no such end. -/
theorem not_returned_error {e : Halt} {ready : List (Option HttpRequest)} :
    ¬Returned (some (.error e, t, ready)) := by
  rintro ⟨_, _, h⟩
  cases h

/-- A head with a header line at the beginning of a request is read in every pass, and the loop does
not end. -/
theorem slotLoop_endless (hs : AtStart s) {line : RequestLine} {rest : Text}
    (hhead : ReadHead line s.buffer rest) (hfits : HeadFits s.buffer)
    (hne : firstLine rest ≠ []) (fuel : Nat)
    (ready : List (Option HttpRequest)) : slotLoop fuel s ready = none := by
  induction fuel generalizing s ready with
  | zero => rfl
  | succ fuel ih =>
    have hnext : AtStart ⟨s.buffer, none, .REQUEST_LINE, s.emitted⟩ := ⟨rfl, rfl⟩
    rw [slotLoop, parse_request hs hhead hfits hne]
    exact ih hnext hhead hfits _

/-- A head at the beginning of a request does not let the loop come to its end: if the strings fit,
the loop goes on or there is an exception, and otherwise the first pass does not end. -/
theorem slotLoop_read (hs : AtStart s) {line : RequestLine} {rest : Text}
    (hhead : ReadHead line s.buffer rest) (fuel : Nat) (ready : List (Option HttpRequest)) :
    ¬Returned (slotLoop fuel s ready) := by
  cases fuel with
  | zero => rintro ⟨_, _, ⟨⟩⟩
  | succ fuel =>
    by_cases hfits : HeadFits s.buffer
    · by_cases hempty : firstLine rest = []
      · obtain ⟨t, hcall, -⟩ := parse_bare hs hfits.1 ⟨line, rest, hhead, hempty⟩
        rw [slotLoop, hcall]
        exact not_returned_error
      · rw [slotLoop_endless hs hhead hfits hempty]
        rintro ⟨_, _, ⟨⟩⟩
    · obtain ⟨t, hcall⟩ := parse_overrun hs hhead hfits
      rw [slotLoop, hcall]
      exact not_returned_error

/-- The slot does not return where it is stuck: the loop goes on, or there is an exception in this
pass or in the next one, or a string is written behind its memory. -/
theorem slot_stuck (hs : Steady s) (requests : List WholeRequest)
    (hstuck : Stuck s (s.buffer ++ wholeBytes requests)) (fuel : Nat) :
    ¬Returned (newDataReceivedSlot fuel s (wholeBytes requests)) := by
  have hreads : s.parsingStatus = .REQUEST_LINE →
      AcceptedText (firstLine (s.buffer ++ wholeBytes requests)) →
      Reads s (s.buffer ++ wholeBytes requests) := reads_of_accepted hs requests
  have houtcome := parseOutcome hs (wholeBytes requests)
  rw [newDataReceivedSlot]
  cases fuel with
  | zero => rintro ⟨_, _, ⟨⟩⟩
  | succ fuel =>
    rw [slotLoop]
    generalize s.buffer ++ wholeBytes requests = buffer at hstuck hreads houtcome ⊢
    generalize parse { s with buffer := buffer } = result at houtcome ⊢
    cases houtcome with
    | quiet hs hfit t ht =>
      rcases hstuck with ⟨hstatus, haccepted | hfit'⟩ | hheader
      · exact absurd (hreads hstatus haccepted) hs
      · exact absurd (hfit hstatus) hfit'
      · exact absurd (Or.inr hheader) hs
    | outside hs t => exact not_returned_error
    | request hs' hhead hne =>
      exact slotLoop_read (s := ⟨buffer, none, .REQUEST_LINE, s.emitted⟩) ⟨rfl, rfl⟩ hhead fuel _
    | bare hs hbuffer t ht => exact not_returned_error
    | again hs hcolon hbuffer request emitted =>
      obtain ⟨line, rest, hhead, -⟩ := hbuffer
      exact slotLoop_read (s := ⟨buffer, none, .REQUEST_LINE, emitted⟩) ⟨rfl, rfl⟩ hhead fuel _

/-- Where it is not stuck, the first pass returns false. -/
theorem parse_quiet (hs : Steady s) (hstuck : ¬Stuck s (s.buffer ++ data)) :
    ∃ t, parse { s with buffer := s.buffer ++ data } = (.ok false, t) := by
  have houtcome := parseOutcome hs data
  generalize s.buffer ++ data = buffer at hstuck houtcome ⊢
  generalize parse { s with buffer := buffer } = result at houtcome ⊢
  cases houtcome with
  | quiet hs hfit t ht => exact ⟨t, rfl⟩
  | outside hs t => exact absurd hs hstuck
  | request hs hhead hne => exact absurd (Or.inl ⟨hs.1, Or.inl hhead.accepted⟩) hstuck
  | bare hs hbuffer t ht =>
    obtain ⟨line, rest, hhead, -⟩ := hbuffer
    exact absurd (Or.inl ⟨hs.1, Or.inl hhead.accepted⟩) hstuck
  | again hs hcolon hbuffer request emitted => exact absurd (Or.inr ⟨hs, hcolon⟩) hstuck

/-- A pass of the loop that returns a request, up to the next one. -/
def SlotPass (u v : State) : Prop :=
  ∃ w, parse u = (.ok true, w) ∧ v = { w with requestInProduction := none }

/-- The slot returns, having emitted at most `count` requests, and every pass that returns a request
leaves less in `_buffer`. -/
structure SlotEnds (s : State) (data : Text) (count : Nat) : Prop where
  returns : ∃ fuel t ready, newDataReceivedSlot fuel s data = some (.ok (), t, ready) ∧
    ready.length ≤ count
  decreases : ∀ u v, Relation.ReflTransGen SlotPass { s with buffer := s.buffer ++ data } u →
    SlotPass u v → v.buffer.length < u.buffer.length

/-- In every state that receiving data leads to, the slot ends as it should after whole requests,
however many requests `_buffer` is taken to hold, exactly if it is not stuck: the strings of the
request line at the beginning of `_buffer` fit, and it is neither accepted nor taken for a header
line. -/
theorem slot_ends_iff (h : Reachable (· = fresh) Receives s) (requests : List WholeRequest)
    (count : Nat) : SlotEnds s (wholeBytes requests) count ↔
      ¬Stuck s (s.buffer ++ wholeBytes requests) := by
  have hs := steady_of_reachable h
  constructor
  · rintro ⟨⟨fuel, t, ready, hslot, -⟩, -⟩ hstuck
    exact slot_stuck hs requests hstuck fuel ⟨t, ready, hslot⟩
  · intro hstuck
    obtain ⟨t, hcall⟩ := parse_quiet hs hstuck
    -- the first pass returns false, and so no pass returns a request
    have hnone : ∀ v, ¬SlotPass { s with buffer := s.buffer ++ wholeBytes requests } v := by
      rintro v ⟨w, htrue, -⟩
      rw [hcall] at htrue
      cases htrue
    refine ⟨⟨1, t, [], ?_, Nat.zero_le _⟩, fun u v hu huv => ?_⟩
    · rw [newDataReceivedSlot, slotLoop, hcall]
    · rcases Relation.ReflTransGen.cases_head hu with rfl | ⟨w, hw, -⟩
      · exact absurd huv (hnone v)
      · exact absurd hw (hnone w)

end

/-- A request with a header line and no body. -/
def requestWith (line : RequestLine) (hline : FreeOf newLine line.text) : WholeRequest where
  head := ⟨line, [⟨"k".toList, "v".toList, by decide, by decide, by decide⟩], hline⟩
  body := []
  announced := by
    refine Or.inr ⟨rfl, fun header hheader => ?_⟩
    rw [List.mem_singleton.mp hheader]
    decide

/-- A request whose request line is accepted. -/
def acceptedRequest : WholeRequest := requestWith queryLine queryLine_freeOf

section
open Libstdcxx

/-- A new parser, and a request whose request line is rejected. -/
theorem slot_ends_plain :
    SlotEnds fresh (wholeBytes [requestWith plainLine (by decide)]) 1 := by
  refine (slot_ends_iff (.start rfl) [requestWith plainLine (by decide)] 1).mpr ?_
  rintro (⟨-, haccepted | hfit⟩ | ⟨hheader, -⟩)
  · rw [wholeBytes_cons] at haccepted
    obtain ⟨query, hquery, -⟩ := (head_accepted_iff _ _).mp haccepted
    cases hquery
  · exact hfit (by decide)
  · cases hheader

/-- With this request the loop does not end, whatever the number of passes. -/
theorem slot_endless :
    (∀ fuel, newDataReceivedSlot fuel fresh (wholeBytes [acceptedRequest]) = none) ∧
      ¬SlotEnds fresh (wholeBytes [acceptedRequest]) 1 := by
  have hhead : ReadHead queryLine (wholeBytes [acceptedRequest]) "k:v\r\n\r\n".toList :=
    readHead_head acceptedRequest.head ⟨"b".toList, rfl, by decide⟩ []
  have hfits : HeadFits (wholeBytes [acceptedRequest]) :=
    (headFits_head acceptedRequest.head ⟨"b".toList, rfl, by decide⟩ []).mpr ⟨by decide, by decide⟩
  have hnone : ∀ fuel, newDataReceivedSlot fuel fresh (wholeBytes [acceptedRequest]) = none :=
    fun fuel => slotLoop_endless (s := ⟨wholeBytes [acceptedRequest], none, .REQUEST_LINE, []⟩)
      ⟨rfl, rfl⟩ hhead hfits (by decide) fuel []
  refine ⟨hnone, ?_⟩
  rintro ⟨⟨fuel, t, ready, hslot, -⟩, -⟩
  rw [hnone] at hslot
  cases hslot

end

end Brutils.Proofs.Http
