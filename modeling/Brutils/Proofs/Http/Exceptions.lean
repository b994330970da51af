import Brutils.Lib.Transition
import Brutils.Proofs.Http.Cursor

/-!
# `Brutils.Proofs.Http.Exceptions`: when `newIncomingData` throws

The status is `HEADER_LINES` when `parse` looks for the header `"content-size"`, and
`HttpRequest::header` throws `std::out_of_range` where there is none. All keys that are
inserted are empty, and so is the key that is looked up. So the header is there, and empty,
after any header line, and absent without one. The body is never read, and `std::stoll` is
never called.

Before that, `getString` may have written behind the memory of a string. Then the call does not come
to an end that the language describes.

`Sound` says what the parser is like between two calls. If an exception has left the status
`HEADER_LINES`, the next call takes the request line for a header line, and does not throw.
`reports_iff` says exactly which calls with a whole head return.
-/

set_option autoImplicit false

namespace Brutils.Proofs.Http

open Transition (Reachable)
open Brutils.RequestParser

/-! ### The stages after the request line -/

section
variable [StandardLibrary]

/-- How the second and the third stage can end that begin with `text` and with no headers. -/
inductive HeaderOutcome (text : Text) (p : Progress) : Except (Halt × Progress) Progress → Prop
  | outside (h : ¬(HeaderTerminated text ∧ HeaderFits text)) :
      HeaderOutcome text p (.error (.outOfBounds, p))
  | failed (q : Progress) (hstatus : q.parsingStatus = .ERROR) (hfits : HeaderFits text)
      (hline : text ≠ [] → firstLine text ≠ []) : HeaderOutcome text p (.ok q)
  | finished (q : Progress) (hstatus : q.parsingStatus = .FINISHED) (hfits : HeaderFits text)
      (hline : firstLine text ≠ []) : HeaderOutcome text p (.ok q)
  | absent (q : Progress) (hstatus : q.parsingStatus = .HEADER_LINES)
      (hheaders : q.request.headers = []) (htext : text ≠ []) (hempty : firstLine text = []) :
      HeaderOutcome text p (.error (.out_of_range, q))

variable {before text : Text} {p : Progress}

omit [StandardLibrary] in
/-- A lookup is one of the empty key. -/
theorem header_eq (request : HttpRequest) (key : Text) :
    request.header key = request.headers.lookup [] := by
  rw [HttpRequest.header, toLower_eq_nil]

/-- The second and the third stage, from `before` on. -/
theorem headerOutcome (before : Text) (hstatus : p.parsingStatus = .HEADER_LINES)
    (hheaders : p.request.headers = []) (hpos : p.pos = before.length) :
    HeaderOutcome text p (headerStage (before ++ text) p >>= bodyStage (before ++ text)) := by
  rw [headerStage, if_pos hstatus, hpos]
  cases hcall : parseHeader (before ++ text) before.length (before ++ text).length p.request with
  | none =>
    refine .outside fun hinside => ?_
    obtain ⟨_, _, _, hsome, -⟩ := (parseHeader_inside_iff before p.request).mpr hinside
    rw [hcall] at hsome
    cases hsome
  | some result =>
    obtain ⟨found, pos, request⟩ := result
    have hfits := headerFits_of_headerLoop hcall
    cases found with
    | false =>
      refine .failed _ rfl hfits fun htext hempty => ?_
      rw [parseHeader_empty htext hempty] at hcall
      cases hcall
    | true =>
      obtain ⟨hfound, rfl⟩ := parseHeader_true (Or.inl hheaders) hcall
      simp only [header_eq]
      by_cases hempty : firstLine text = []
      · rw [withHeaders, if_pos hempty, hheaders]
        exact .absent _ rfl hheaders hfound.ne_nil hempty
      · rw [withHeaders, if_neg hempty]
        exact .finished _ rfl hfits hempty

/-! ### One call -/

/-- What the stages leave: an error or a request, or if they do not end the status `HEADER_LINES` and
no headers, or the status `REQUEST_LINE` and a new request. -/
def Left : Except (Halt × Progress) Progress → Prop
  | .ok q => q.parsingStatus = .ERROR ∨ q.parsingStatus = .FINISHED
  | .error (_, q) => q.parsingStatus = .HEADER_LINES ∧ q.request.headers = [] ∨
      q.parsingStatus = .REQUEST_LINE ∧ q.request = {}

/-- What the parser is like between two calls. -/
def Sound (s : State) : Prop :=
  AtStart s ∨ s.parsingStatus = .ERROR ∨
    s.parsingStatus = .HEADER_LINES ∧ (s.requestInProduction.getD {}).headers = [] ∧
      firstLine s.buffer ≠ []

/-- The call returns, and leaves the status `REQUEST_LINE` or `ERROR`. -/
def Reports (s : State) (data : Text) : Prop :=
  ∃ result t, newIncomingData s data = (.ok result, t) ∧
    (t.parsingStatus = .REQUEST_LINE ∨ t.parsingStatus = .ERROR)

/-- The stages of a call. -/
def callStages (s : State) (data : Text) : Except (Halt × Progress) Progress :=
  stages (s.buffer ++ data) ⟨0, s.requestInProduction.getD {}, s.parsingStatus, s.emitted⟩

/-- The stages behind the request line leave one of these. -/
theorem HeaderOutcome.left {text : Text} {p : Progress} {result : Except (Halt × Progress) Progress}
    (h : HeaderOutcome text p result) (hstatus : p.parsingStatus = .HEADER_LINES)
    (hheaders : p.request.headers = []) : Left result := by
  cases h with
  | outside h => exact Or.inl ⟨hstatus, hheaders⟩
  | failed q hstatus hfits hline => exact Or.inl hstatus
  | finished q hstatus hfits hline => exact Or.inr hstatus
  | absent q hstatus hheaders htext hempty => exact Or.inl ⟨hstatus, hheaders⟩

variable {s t : State} {data : Text} {q : Progress}

/-- A call with something in `_buffer`, by how its stages end. -/
theorem newIncomingData_eq (hdata : s.buffer ++ data ≠ []) :
    newIncomingData s data = match callStages s data with
      | .error (e, q) =>
        (.error e, State.leave { s with buffer := s.buffer ++ data } q q.parsingStatus [])
      | .ok q =>
        if q.parsingStatus = .FINISHED then
          (.ok (some q.request),
            ⟨s.buffer ++ data, none, .REQUEST_LINE, q.emitted ++ []⟩)
        else
          (.ok none, State.leave { s with buffer := s.buffer ++ data } q q.parsingStatus [{}]) := by
  have hempty : (s.buffer ++ data).isEmpty = false := by
    rw [List.isEmpty_eq_false_iff]
    exact hdata
  rw [newIncomingData, parse]
  simp only [hempty, Bool.false_eq_true, if_false]
  rw [callStages]
  cases hresult : stages (s.buffer ++ data)
      ⟨0, s.requestInProduction.getD {}, s.parsingStatus, s.emitted⟩ with
  | error e => rfl
  | ok q =>
    simp only
    by_cases hfinished : q.parsingStatus = .FINISHED
    · rw [if_pos hfinished, if_pos hfinished]
      rfl
    · rw [if_neg hfinished, if_neg hfinished]

/-- A call returns exactly if no stage throws. -/
theorem reports_iff_ok (hdata : s.buffer ++ data ≠ []) (hleft : Left (callStages s data)) :
    Reports s data ↔ ∃ q, callStages s data = .ok q := by
  unfold Reports
  rw [newIncomingData_eq hdata]
  cases hresult : callStages s data with
  | error e => exact iff_of_false (fun ⟨_, _, h, _⟩ => nomatch h) fun ⟨_, h⟩ => nomatch h
  | ok q =>
    rw [hresult] at hleft
    refine iff_of_true ?_ ⟨q, rfl⟩
    simp only
    split
    · exact ⟨_, _, rfl, Or.inl rfl⟩
    · rename_i hfinished
      exact ⟨_, _, rfl, Or.inr (hleft.resolve_right hfinished)⟩

/-- After a call the parser is sound again. -/
theorem call_sound (hdata : s.buffer ++ data ≠ []) (hleft : Left (callStages s data))
    (hline : ∀ e, callStages s data = .error e → firstLine (s.buffer ++ data) ≠ []) :
    Sound (newIncomingData s data).2 := by
  rw [newIncomingData_eq hdata]
  cases hresult : callStages s data with
  | error e =>
    rw [hresult] at hleft
    rcases hleft with ⟨hstatus, hheaders⟩ | ⟨hstatus, hrequest⟩
    · exact Or.inr (Or.inr ⟨hstatus, hheaders, hline e hresult⟩)
    · exact Or.inl ⟨hstatus, hrequest⟩
  | ok q =>
    rw [hresult] at hleft
    simp only
    split
    · exact Or.inl ⟨rfl, rfl⟩
    · rename_i hfinished
      exact Or.inr (Or.inl (hleft.resolve_right hfinished))

/-- A call that leaves `_buffer` empty changes the status of no parser. -/
theorem call_sound_empty (hs : Sound s) (hdata : s.buffer ++ data = []) :
    Sound (newIncomingData s data).2 := by
  rw [newIncomingData, parse]
  simp only [hdata, List.isEmpty_nil, if_true]
  rcases hs with hs | hs | ⟨-, -, hline⟩
  · exact Or.inl ⟨hs.1, hs.2⟩
  · exact Or.inr (Or.inl hs)
  · rw [(List.append_eq_nil_iff.mp hdata).1] at hline
    exact absurd rfl hline

/-- How the stages of a call can end. The header lines begin behind a request line that is accepted,
or after an exception at the beginning of `_buffer`. -/
inductive CallOutcome (s : State) (buffer : Text) : Except (Halt × Progress) Progress → Prop
  | failed (q : Progress) (hstatus : q.parsingStatus = .ERROR)
      (hs : s.parsingStatus = .REQUEST_LINE →
        Fit (lineStrings (firstLine buffer)) ∧ ¬AcceptedText (firstLine buffer))
      (hother : s.parsingStatus ≠ .HEADER_LINES) : CallOutcome s buffer (.ok q)
  | overrun (p : Progress) (hs : s.parsingStatus = .REQUEST_LINE)
      (hstatus : p.parsingStatus = .REQUEST_LINE) (hrequest : p.request = {})
      (hfit : ¬Fit (lineStrings (firstLine buffer))) : CallOutcome s buffer (.error (.outOfBounds, p))
  | truncated (p : Progress) (hs : s.parsingStatus = .REQUEST_LINE)
      (hstatus : p.parsingStatus = .HEADER_LINES)
      (hheaders : p.request.headers = []) (hline : AcceptedText (firstLine buffer))
      (hafter : ∀ c d rest, afterLine buffer ≠ c :: d :: rest) :
      CallOutcome s buffer (.error (.outOfBounds, p))
  | first {text : Text} {p : Progress} {result : Except (Halt × Progress) Progress} {c d : Char}
      (hs : s.parsingStatus = .REQUEST_LINE) (hstatus : p.parsingStatus = .HEADER_LINES)
      (hheaders : p.request.headers = []) (hfit : Fit (lineStrings (firstLine buffer)))
      (hline : AcceptedText (firstLine buffer)) (hafter : afterLine buffer = c :: d :: text)
      (h : HeaderOutcome text p result) :
      CallOutcome s buffer result
  | again {p : Progress} {result : Except (Halt × Progress) Progress}
      (hs : s.parsingStatus = .HEADER_LINES) (hstatus : p.parsingStatus = .HEADER_LINES)
      (hheaders : p.request.headers = []) (hline : firstLine buffer ≠ [])
      (h : HeaderOutcome buffer p result) : CallOutcome s buffer result

omit [StandardLibrary] in
/-- A text that is a request line is not empty. -/
theorem AcceptedText.ne_nil {text : Text} (h : AcceptedText text) : text ≠ [] := by
  obtain ⟨line, rfl, -⟩ := h
  exact text_ne_nil line

variable {result : Except (Halt × Progress) Progress}

omit [StandardLibrary] in
/-- A first line that is not empty stays so when something is added. -/
theorem firstLine_append_ne_nil {text : Text} (h : firstLine text ≠ []) (data : Text) :
    firstLine (text ++ data) ≠ [] := by
  cases text with
  | nil => exact absurd rfl h
  | cons c text =>
    unfold firstLine at *
    rw [List.cons_append, List.takeWhile_cons] at *
    split at h
    · rename_i hc
      rw [if_pos hc]
      exact List.cons_ne_nil _ _
    · exact absurd rfl h

/-- The second stage begins behind `_buffer`. -/
theorem headerStage_outside {buffer : Text} {p : Progress} (hp : p.parsingStatus = .HEADER_LINES)
    (hout : buffer.length < p.pos) : headerStage buffer p = .error (.outOfBounds, p) := by
  simp only [headerStage, hp, if_true, parseHeader, headerLoop_outside hout]

/-- The stages behind an accepted request line. -/
theorem acceptedOutcome {buffer : Text} (hstatus : s.parsingStatus = .REQUEST_LINE)
    (hfit : Fit (lineStrings (firstLine buffer))) (haccepted : AcceptedText (firstLine buffer))
    {p : Progress} (hp : p.parsingStatus = .HEADER_LINES) (hheaders : p.request.headers = [])
    (hpos : p.pos = (firstLine buffer).length + 2) :
    CallOutcome s buffer (headerStage buffer p >>= bodyStage buffer) := by
  by_cases hafter : ∃ c d rest, afterLine buffer = c :: d :: rest
  · obtain ⟨c, d, rest, hafter⟩ := hafter
    obtain ⟨hbuffer, hlength⟩ := step_over [] hafter
    rw [List.nil_append] at hbuffer
    rw [List.length_nil, Nat.zero_add] at hlength
    have houtcome : HeaderOutcome rest p (headerStage buffer p >>= bodyStage buffer) := by
      rw [hbuffer]
      exact headerOutcome _ hp hheaders (hpos.trans hlength)
    exact .first hstatus hp hheaders hfit haccepted hafter houtcome
  · have hout := step_outside [] fun c d rest h => hafter ⟨c, d, rest, h⟩
    rw [List.nil_append, List.length_nil, Nat.zero_add, ← hpos] at hout
    rw [headerStage_outside hp hout]
    exact .truncated _ hstatus hp hheaders haccepted fun c d rest h => hafter ⟨c, d, rest, h⟩

/-- The stages of a call that begins with a request line. -/
theorem startOutcome (hstatus : s.parsingStatus = .REQUEST_LINE) (buffer : Text) :
    CallOutcome s buffer (stages buffer (start {} s.emitted)) := by
  by_cases hfit : Fit (lineStrings (firstLine buffer))
  · by_cases haccepted : AcceptedText (firstLine buffer)
    · obtain ⟨request', hfirst, hheaders⟩ := requestLineStage_accepted {} s.emitted hfit haccepted
      rw [stages_of_requestLine hfirst]
      exact acceptedOutcome hstatus hfit haccepted rfl hheaders rfl
    · obtain ⟨pos, request', errors, -, hfirst⟩ :=
        requestLineStage_rejected {} s.emitted hfit haccepted
      rw [stages_of_requestLine hfirst, (stages_skip (Or.inl rfl)).2.1]
      refine .failed _ rfl (fun _ => ⟨hfit, haccepted⟩) ?_
      rw [hstatus]
      exact ParsingStatus.noConfusion
  · rw [stages_of_error (requestLineStage_overrun {} s.emitted hfit)]
    exact .overrun _ hstatus rfl rfl hfit

/-- The stages of a call, in every state between two calls. -/
theorem callOutcome (hs : Sound s) (data : Text) :
    CallOutcome s (s.buffer ++ data) (callStages s data) := by
  rcases hs with ⟨hstatus, hrequest⟩ | hstatus | ⟨hstatus, hheaders, hline⟩
  · have hstart : callStages s data = stages (s.buffer ++ data) (start {} s.emitted) := by
      rw [callStages, hstatus, hrequest]
      rfl
    rw [hstart]
    exact startOutcome hstatus _
  · -- the stages are skipped
    have hskip : callStages s data
        = .ok ⟨0, s.requestInProduction.getD {}, .ERROR, s.emitted⟩ := by
      rw [callStages, hstatus]
      rfl
    rw [hskip]
    refine .failed _ rfl (fun hs => ?_) ?_
    · rw [hstatus] at hs
      cases hs
    · rw [hstatus]
      exact ParsingStatus.noConfusion
  · have hheader : callStages s data
        = headerStage (s.buffer ++ data) ⟨0, s.requestInProduction.getD {}, .HEADER_LINES, s.emitted⟩
          >>= bodyStage (s.buffer ++ data) := by
      rw [callStages, hstatus]
      rfl
    rw [hheader]
    exact .again hstatus rfl hheaders (firstLine_append_ne_nil hline data)
      (headerOutcome [] rfl hheaders rfl)

/-- The stages of a call leave what the next call can begin with. -/
theorem CallOutcome.left {buffer : Text} (h : CallOutcome s buffer result) : Left result := by
  cases h with
  | failed q hstatus hs hother => exact Or.inl hstatus
  | overrun p hs hstatus hrequest hfit => exact Or.inr ⟨hstatus, hrequest⟩
  | truncated p hs hstatus hheaders hline hafter => exact Or.inl ⟨hstatus, hheaders⟩
  | first hs hstatus hheaders hfit hline hafter h => exact h.left hstatus hheaders
  | again hs hstatus hheaders hline h => exact h.left hstatus hheaders

/-- A call that does not return finds a first line that is not empty. -/
theorem CallOutcome.firstLine_ne_nil {buffer : Text} (h : CallOutcome s buffer result)
    {e : Halt × Progress} (he : result = .error e) : firstLine buffer ≠ [] := by
  cases h with
  | failed q hstatus hs hother => cases he
  | overrun p hs hstatus hrequest hfit =>
    intro hnil
    rw [hnil] at hfit
    exact hfit fit_nil
  | truncated p hs hstatus hheaders hline hafter => exact hline.ne_nil
  | first hs hstatus hheaders hfit hline hafter h => exact hline.ne_nil
  | again hs hstatus hheaders hline h => exact hline

/-! ### The result -/

/-- A call. If it throws, it leaves what has been changed until then. What a call leaves that has read
or written outside of an object, the language does not say. Here it is what the call has changed
before. So the states that calls lead to are those that the code leads to, and some more. -/
def Called (s t : State) : Prop := ∃ data, t = (newIncomingData s data).2

/-- A call keeps the parser sound. -/
theorem called_sound {s t : State} (hs : Sound s) (h : Called s t) : Sound t := by
  obtain ⟨data, rfl⟩ := h
  by_cases hdata : s.buffer ++ data = []
  · exact call_sound_empty hs hdata
  · have houtcome := callOutcome hs data
    exact call_sound hdata houtcome.left fun e he => houtcome.firstLine_ne_nil he

/-- A request line, header lines, an empty line, and more. -/
def framed (line : Text) (headers : List Text) (rest : Text) : Text :=
  line ++ newLine ++ headers.flatMap (· ++ newLine) ++ newLine ++ rest

/-- The first line is a request line that is accepted, and the next one is empty. -/
def Bare (buffer : Text) : Prop :=
  AcceptedText (firstLine buffer) ∧
    ∃ c d c' rest, afterLine buffer = c :: d :: c' :: rest ∧ c' ∈ newLine

omit [StandardLibrary] in
/-- Where the lines end, an empty line follows. -/
theorem framed_eq (line : Text) (headers : List Text) (rest : Text) :
    ∃ front, framed line headers rest = front ++ '\r' :: '\n' :: '\r' :: '\n' :: rest := by
  rcases List.eq_nil_or_concat headers with rfl | ⟨before, last, rfl⟩
  · exact ⟨line, by simp [framed, newLine]⟩
  · exact ⟨line ++ newLine ++ before.flatMap (· ++ newLine) ++ last, by simp [framed, newLine]⟩

omit [StandardLibrary] in
/-- The line is empty where a line end comes. -/
theorem firstLine_eq_nil_iff {text : Text} :
    text ≠ [] ∧ firstLine text = [] ↔ ∃ c rest, text = c :: rest ∧ c ∈ newLine := by
  cases text with
  | nil => simp
  | cons c rest =>
    rw [firstLine, List.takeWhile_cons]
    by_cases hc : c ∈ newLine
    · simp [hc]
    · simp [hc]

omit [StandardLibrary] in
/-- Behind a line that is accepted, the header lines begin with an empty one. -/
theorem bare_iff {buffer text : Text} {c d : Char} (hline : AcceptedText (firstLine buffer))
    (hafter : afterLine buffer = c :: d :: text) :
    Bare buffer ↔ text ≠ [] ∧ firstLine text = [] := by
  rw [firstLine_eq_nil_iff, Bare, hafter]
  constructor
  · rintro ⟨-, c₁, d₁, c', rest, heq, hc'⟩
    exact ⟨c', rest, (List.cons.inj (List.cons.inj heq).2).2, hc'⟩
  · rintro ⟨c', rest, rfl, hc'⟩
    exact ⟨hline, c, d, c', rest, rfl, hc'⟩

/-- What calls lead to. -/
theorem sound_of_reachable {s : State} (h : Reachable (· = fresh) Called s) : Sound s := by
  refine h.invariant (fun t ht => ?_) fun _ _ _ hs hst => called_sound hs hst
  rw [ht]
  exact Or.inl fresh_atStart

/-- With header lines that end as they should the stages return exactly if the strings of these lines
fit and there is one of them. -/
theorem HeaderOutcome.ok_iff {text : Text} {p : Progress}
    {result : Except (Halt × Progress) Progress} (h : HeaderOutcome text p result)
    (hterminated : HeaderTerminated text) :
    (∃ q, result = .ok q) ↔ HeaderFits text ∧ ¬(text ≠ [] ∧ firstLine text = []) := by
  cases h with
  | outside h =>
    exact iff_of_false (fun ⟨_, h⟩ => nomatch h) fun hfits => h ⟨hterminated, hfits.1⟩
  | failed q hstatus hfits hline => exact iff_of_true ⟨q, rfl⟩ ⟨hfits, fun h => hline h.1 h.2⟩
  | finished q hstatus hfits hline => exact iff_of_true ⟨q, rfl⟩ ⟨hfits, fun h => hline h.2⟩
  | absent q hstatus hheaders htext hempty =>
    exact iff_of_false (fun ⟨_, h⟩ => nomatch h) fun h => h.2 ⟨htext, hempty⟩

/-- The strings that `parse` makes in the status `s` has fit: those of a head, or behind an exception
those of the lines that are taken for header lines. -/
def StatusFits (s : State) (buffer : Text) : Prop :=
  (s.parsingStatus = .REQUEST_LINE → HeadFits buffer) ∧
    (s.parsingStatus = .HEADER_LINES → HeaderFits buffer)

/-- A call with a whole head, in any state that calls lead to, returns and leaves the status
`REQUEST_LINE` or `ERROR`, exactly if the strings fit, unless the status is `REQUEST_LINE` and
`_buffer` begins with a request line that is accepted and no header line. -/
theorem reports_iff {s : State} (h : Reachable (· = fresh) Called s) (line : Text)
    (headers : List Text) (rest : Text) :
    Reports s (framed line headers rest) ↔
      StatusFits s (s.buffer ++ framed line headers rest) ∧
        ¬(s.parsingStatus = .REQUEST_LINE ∧ Bare (s.buffer ++ framed line headers rest)) := by
  have hs := sound_of_reachable h
  obtain ⟨front, hframed⟩ := framed_eq line headers rest
  have hblank : SteppedOver (s.buffer ++ framed line headers rest) := by
    rw [hframed, ← List.append_assoc]
    exact steppedOver_of_blank _ _
  have hdata : s.buffer ++ framed line headers rest ≠ [] := by
    rw [hframed]
    simp
  have houtcome := callOutcome hs (framed line headers rest)
  rw [reports_iff_ok hdata houtcome.left]
  -- from here on only the outcome of the call matters
  generalize hbuffer : s.buffer ++ framed line headers rest = buffer at hblank houtcome ⊢
  generalize callStages s (framed line headers rest) = result at houtcome ⊢
  cases houtcome with
  | failed q hstatus hstart hother =>
    exact iff_of_true ⟨q, rfl⟩ ⟨⟨fun hs => ⟨(hstart hs).1, fun h => absurd h (hstart hs).2⟩,
      fun hs => absurd hs hother⟩, fun hbare => (hstart hbare.1).2 hbare.2.1⟩
  | overrun p hs hstatus hrequest hfit =>
    exact iff_of_false (fun ⟨_, h⟩ => nomatch h) fun h => hfit (h.1.1 hs).1
  -- a whole head has the two characters behind its line
  | truncated p hs hstatus hheaders hline hafter =>
    obtain ⟨c, d, rest', hafter', -⟩ := hblank
    exact absurd hafter' (hafter c d rest')
  -- the header stage has been reached by this call
  | @first text _ _ c d hs hstatus hheaders hfit hline hafter h =>
    obtain ⟨c', d', rest', hafter', hterminated⟩ := hblank
    rw [hafter] at hafter'
    obtain rfl := (List.cons.inj (List.cons.inj hafter').2).2
    have hfits : StatusFits s buffer ↔ HeaderFits text := by
      constructor
      · intro h
        exact (h.1 hs).2 hline c d text hafter
      · intro htext
        refine ⟨fun _ => ⟨hfit, fun _ c' d' rest' hafter' => ?_⟩, fun hs' => ?_⟩
        · rw [hafter] at hafter'
          cases hafter'
          exact htext
        · rw [hs] at hs'
          cases hs'
    rw [bare_iff hline hafter, h.ok_iff hterminated, hfits, and_iff_right hs]
  -- an earlier call has read the request line
  | again hs hstatus hheaders hline h =>
    have hother : s.parsingStatus ≠ .REQUEST_LINE := by
      rw [hs]
      decide
    have hfits : StatusFits s buffer ↔ HeaderFits buffer :=
      ⟨fun h => h.2 hs, fun h => ⟨fun hs' => absurd hs' hother, fun _ => h⟩⟩
    rw [h.ok_iff hblank.headerTerminated, hfits]
    exact and_congr_right fun _ =>
      iff_of_true (fun hempty => hline hempty.2) fun hbare => hother hbare.1

end

section
open Libstdcxx

/-- The result for a first call with one header line. -/
theorem reports_iff_one_header : Reports fresh (framed queryLine.text ["a:b".toList] []) := by
  have hline : afterLine (fresh.buffer ++ framed queryLine.text ["a:b".toList] [])
      = "\r\na:b\r\n\r\n".toList := by decide
  refine (reports_iff (.start rfl) _ _ _).mpr ⟨⟨fun _ => ⟨by decide, ?_⟩, nofun⟩, ?_⟩
  · intro _ c d rest hafter
    rw [hline] at hafter
    cases hafter
    refine (headerFits_line_iff (by decide) (c := '\r') (d := '\n') rfl).mpr ⟨by decide, ?_⟩
    exact headerFits_of_not_mem (by decide)
  · rintro ⟨-, -, c, d, c', rest, hafter, hc'⟩
    rw [hline] at hafter
    cases hafter
    exact absurd hc' (by decide)

/-- A first call without a header line throws. -/
theorem no_header_throws :
    Reachable (· = fresh) Called fresh ∧ ¬Reports fresh (framed queryLine.text [] []) := by
  refine ⟨.start rfl, ?_⟩
  rintro ⟨result, t, hcall, -⟩
  have hthrows : (newIncomingData fresh (framed queryLine.text [] [])).1 = .error .out_of_range := by
    decide
  rw [hcall] at hthrows
  cases hthrows

end

end Brutils.Proofs.Http
