import Brutils.Proofs.Http.HeaderLines
import Brutils.Proofs.Http.RequestLine
import Brutils.Proofs.Http.Stream

/-!
# `Brutils.Proofs.Http.Cursor`: when the cursor stays inside `_buffer`

`parseRequestLine` and `parseHeader` step over a line end by two characters without a look at
them. Where `_buffer` ends before that, the cursor gets behind its end. `CursorInside` says
that this happens nowhere in `parse` from the status `REQUEST_LINE`, and that no stage reads
behind the end or writes behind the memory of a string. The functions that read parts of the request
line always keep the cursor in it, so only the two steps over line ends matter, and the strings.

`Terminated` and `HeadFits` are the conditions on `_buffer`, and `cursor_inside_iff` says that they
are exact.
-/

set_option autoImplicit false

namespace Brutils.Proofs.Http

open Brutils.RequestParser

section
variable [StandardLibrary]

/-- The cursor in the parts of `parseRequestLine`: each of them leaves it in the line, and the line
ends inside `_buffer`. -/
structure RequestLineInside (buffer : Text) (request : HttpRequest) (lineEnd : Nat) : Prop where
  inBuffer : lineEnd ≤ buffer.length
  method : (parseMethod buffer 0 lineEnd request).2.1 ≤ lineEnd
  uri : ∀ pos ≤ lineEnd, ∀ request, ∀ result ∈ parsePathAndQuery buffer pos lineEnd request,
    result.2.1 ≤ lineEnd
  version : ∀ pos ≤ lineEnd, ∀ request, (parseVersion buffer pos lineEnd request).2.1 ≤ lineEnd

/-- A stage leaves the cursor inside `_buffer`, and has neither read behind its end nor written behind
the memory of a string. -/
def StageInside (buffer : Text) : Except (Halt × Progress) Progress → Prop
  | .ok p => p.pos ≤ buffer.length
  | .error (halt, p) => halt ≠ .outOfBounds ∧ p.pos ≤ buffer.length

/-- Where `parse` begins with the status `REQUEST_LINE`. -/
def start (request : HttpRequest) (emitted : List ParseError) : Progress :=
  ⟨0, request, .REQUEST_LINE, emitted⟩

/-- In `parse` from the status `REQUEST_LINE` the cursor stays inside `_buffer`: in the request
line, and after each of the three stages. -/
structure CursorInside (buffer : Text) (request : HttpRequest) (emitted : List ParseError) :
    Prop where
  inLine : RequestLineInside buffer request (findFirstOf newLine buffer 0 buffer.length)
  requestLine : StageInside buffer (requestLineStage buffer (start request emitted))
  header : StageInside buffer (requestLineStage buffer (start request emitted) >>= headerStage buffer)
  body : StageInside buffer (stages buffer (start request emitted))

/-- Every line that `parse` steps over is followed by two characters: the request line, if it is
accepted, and then the header lines. -/
def Terminated (buffer : Text) : Prop := AcceptedText (firstLine buffer) → SteppedOver buffer

/-- The strings that `parse` makes of a request fit: those of the first line, and those of the header
lines, if the first line is accepted. -/
def HeadFits (buffer : Text) : Prop :=
  Fit (lineStrings (firstLine buffer)) ∧
    (AcceptedText (firstLine buffer) → ∀ c d rest, afterLine buffer = c :: d :: rest → HeaderFits rest)

variable {buffer text : Text} {pos endPos : Nat} {request : HttpRequest} {p : Progress}

/-! ### In the request line -/

omit [StandardLibrary] in
/-- `parseMethod` leaves the cursor in its range. -/
theorem parseMethod_pos_le (h : Spans buffer pos endPos text) :
    (parseMethod buffer pos endPos request).2.1 ≤ endPos := by
  rcases parseMethod_cases request h with hcall | ⟨method, -, back, rfl, hcall⟩
  · rw [hcall]
    exact h.pos_le
  · rw [hcall]
    exact h.behind.pos_le

/-- And so does `parsePathAndQuery`, if it returns. -/
theorem parsePathAndQuery_pos_le (h : Spans buffer pos endPos text)
    {result : Bool × Nat × HttpRequest}
    (hresult : result ∈ parsePathAndQuery buffer pos endPos request) : result.2.1 ≤ endPos := by
  rw [Option.mem_def] at hresult
  rcases split_at ' ' text with hnone | ⟨uri, back, rfl, huri⟩
  · rw [parsePathAndQuery_no_space _ h hnone] at hresult
    cases hresult
    exact h.pos_le
  · by_cases hfit : Fit (uriStrings uri)
    · rcases parsePathAndQuery_cases request huri hfit h with hcall | ⟨_, hcall⟩ |
        ⟨_, _, _, -, -, -, -, -, hcall⟩
      · cases hresult.symm.trans hcall
        exact h.pos_le
      · cases hresult.symm.trans hcall
        exact h.right.pos_le
      · cases hresult.symm.trans hcall
        exact h.behind.pos_le
    · rw [parsePathAndQuery_overrun request huri hfit h] at hresult
      cases hresult

omit [StandardLibrary] in
/-- And `parseVersion`. -/
theorem parseVersion_pos_le (h : pos ≤ endPos) :
    (parseVersion buffer pos endPos request).2.1 ≤ endPos := by
  rw [parseVersion]
  split
  · exact h
  · exact le_refl _

omit [StandardLibrary] in
/-- The first line of `_buffer`. -/
theorem lineAt_zero (buffer : Text) : LineAt buffer 0 (firstLine buffer) :=
  lineAt_firstLine [] buffer

/-- The functions for the parts of the request line keep the cursor in it. -/
theorem requestLine_inside (buffer : Text) (request : HttpRequest) :
    RequestLineInside buffer request (findFirstOf newLine buffer 0 buffer.length) := by
  have hline := lineAt_zero buffer
  have hlength : 0 + (firstLine buffer).length ≤ buffer.length := by
    have hsplit := congrArg List.length (firstLine_append_afterLine buffer)
    rw [List.length_append] at hsplit
    omega
  rw [hline.lineEnd]
  exact ⟨hlength, parseMethod_pos_le hline.spans,
    fun pos hpos _ _ => parsePathAndQuery_pos_le (spans_slice hpos hlength),
    fun pos hpos _ => parseVersion_pos_le hpos⟩

/-! ### The stages -/

/-- The second stage stays inside exactly if `parseHeader` does. -/
theorem headerStage_inside_iff (hstatus : p.parsingStatus = .HEADER_LINES) :
    StageInside buffer (headerStage buffer p) ↔
      LoopInside buffer (parseHeader buffer p.pos buffer.length p.request) := by
  rw [headerStage, if_pos hstatus]
  cases hcall : parseHeader buffer p.pos buffer.length p.request with
  | none =>
    exact iff_of_false (fun h => h.1 rfl) not_loopInside_none
  | some result =>
    obtain ⟨found, pos, request⟩ := result
    rw [loopInside_some]
    cases found with
    | false => exact Iff.rfl
    | true =>
      simp only
      split
      · exact ⟨fun h => h.2, fun h => ⟨Halt.noConfusion, h⟩⟩
      · exact Iff.rfl

omit [StandardLibrary] in
/-- `std::stoll` throws one of two exceptions. -/
theorem stoll_ne_outOfBounds (text : Text) : stoll text ≠ .error .outOfBounds := by
  unfold stoll
  extract_lets text' negative digits value
  by_cases hdigits : digits.isEmpty
  · rw [if_pos hdigits]
    exact fun h => nomatch Except.error.inj h
  · rw [if_neg hdigits]
    split
    · exact fun h => nomatch h
    · exact fun h => nomatch Except.error.inj h

omit [StandardLibrary] in
/-- `parseBody` leaves the cursor where it is or takes the rest of `_buffer`. -/
theorem parseBody_inside (request : HttpRequest) (hpos : pos ≤ buffer.length) (contentSize : Nat) :
    LoopInside buffer (parseBody buffer pos buffer.length request contentSize) := by
  rw [parseBody, if_neg (not_lt.mpr hpos)]
  split
  · exact ⟨_, _, _, rfl, hpos⟩
  · exact ⟨_, _, _, rfl, le_refl _⟩

omit [StandardLibrary] in
/-- The third stage stays inside. -/
theorem bodyStage_inside (hpos : p.pos ≤ buffer.length) :
    StageInside buffer (bodyStage buffer p) := by
  unfold bodyStage
  split
  · split
    · exact ⟨Halt.noConfusion, hpos⟩
    · split
      · rename_i hstoll
        refine ⟨?_, hpos⟩
        rintro rfl
        exact stoll_ne_outOfBounds _ hstoll
      · rename_i contentSize hstoll
        obtain ⟨found, pos, request, hcall, hpos'⟩ := parseBody_inside p.request hpos
          (contentSize % 2 ^ 64).toNat
        rw [hcall]
        cases found with
        | false => exact hpos'
        | true => exact hpos'
  · exact hpos

/-- The first stage with a request line that is readable. -/
theorem requestLineStage_line (request : HttpRequest) (emitted : List ParseError)
    {line : RequestLine} (hopen : HasOpenQuery line) (hfit : Fit (lineStrings (firstLine buffer)))
    (htext : firstLine buffer = line.text) :
    requestLineStage buffer (start request emitted)
      = .ok ⟨(firstLine buffer).length + 2, RequestLine.read line request, .HEADER_LINES,
        emitted⟩ := by
  have hcall := parseRequestLine_accepted request hopen (htext ▸ hfit) (htext ▸ lineAt_zero buffer)
  rw [← htext, Nat.zero_add] at hcall
  rw [requestLineStage, if_pos (show (start request emitted).parsingStatus = .REQUEST_LINE from rfl)]
  simp only [start, hcall, List.append_nil]
  rfl

/-- The first stage with a line that is accepted. -/
theorem requestLineStage_accepted (request : HttpRequest) (emitted : List ParseError)
    (hfit : Fit (lineStrings (firstLine buffer))) (h : AcceptedText (firstLine buffer)) :
    ∃ request', requestLineStage buffer (start request emitted)
        = .ok ⟨(firstLine buffer).length + 2, request', .HEADER_LINES, emitted⟩ ∧
      request'.headers = request.headers := by
  obtain ⟨line, htext, hopen⟩ := h
  exact ⟨_, requestLineStage_line request emitted hopen hfit htext.symm, rfl⟩

/-- The first stage with a line that is rejected. -/
theorem requestLineStage_rejected (request : HttpRequest) (emitted : List ParseError)
    (hfit : Fit (lineStrings (firstLine buffer))) (h : ¬AcceptedText (firstLine buffer)) :
    ∃ pos request' errors, pos ≤ (firstLine buffer).length ∧
      requestLineStage buffer (start request emitted)
        = .ok ⟨pos, request', .ERROR, emitted ++ errors⟩ := by
  rcases parseRequestLine_cases request hfit (lineAt_zero buffer) with
    ⟨pos, request', errors, hcall, hpos⟩ | haccepted
  · rw [Nat.zero_add] at hpos
    refine ⟨pos, request', errors, hpos, ?_⟩
    rw [requestLineStage, if_pos (show (start request emitted).parsingStatus = .REQUEST_LINE from rfl)]
    simp only [start, hcall]
  · exact absurd haccepted h

/-- The first stage with a line of which a string does not fit. -/
theorem requestLineStage_overrun (request : HttpRequest) (emitted : List ParseError)
    (hfit : ¬Fit (lineStrings (firstLine buffer))) :
    requestLineStage buffer (start request emitted)
      = .error (.outOfBounds, start request emitted) := by
  rw [requestLineStage, if_pos (show (start request emitted).parsingStatus = .REQUEST_LINE from rfl)]
  simp only [start, parseRequestLine_overrun request hfit (lineAt_zero buffer)]

/-- A stage that does not end is the last one. -/
theorem stages_of_error {emitted : List ParseError} {e : Halt × Progress}
    (hfirst : requestLineStage buffer (start request emitted) = .error e) :
    stages buffer (start request emitted) = .error e := by
  show (requestLineStage buffer (start request emitted) >>= fun r =>
    headerStage buffer r >>= bodyStage buffer) = _
  rw [hfirst]
  rfl

/-- The stages after the first stage has ended with `q`. -/
theorem stages_of_requestLine {emitted : List ParseError} {q : Progress}
    (hfirst : requestLineStage buffer (start request emitted) = .ok q) :
    stages buffer (start request emitted) = headerStage buffer q >>= bodyStage buffer := by
  show (requestLineStage buffer (start request emitted) >>= fun r =>
    headerStage buffer r >>= bodyStage buffer) = _
  rw [hfirst]
  rfl

/-- Only the first two stages matter, since the third cannot go wrong. -/
theorem cursorInside_iff {emitted : List ParseError} {q : Progress}
    (hfirst : requestLineStage buffer (start request emitted) = .ok q) :
    CursorInside buffer request emitted ↔
      q.pos ≤ buffer.length ∧ StageInside buffer (headerStage buffer q) := by
  have hheader : (requestLineStage buffer (start request emitted) >>= headerStage buffer)
      = headerStage buffer q := by
    rw [hfirst]
    rfl
  constructor
  · intro h
    refine ⟨?_, hheader ▸ h.header⟩
    have hpos := h.requestLine
    rw [hfirst] at hpos
    exact hpos
  · rintro ⟨hpos, hstage⟩
    refine ⟨requestLine_inside buffer request, ?_, ?_, ?_⟩
    · rw [hfirst]
      exact hpos
    · rw [hheader]
      exact hstage
    · rw [stages_of_requestLine hfirst]
      cases hresult : headerStage buffer q with
      | error e =>
        rw [hresult] at hstage
        exact hstage
      | ok r =>
        rw [hresult] at hstage
        exact bodyStage_inside hstage

/-- In `parse` from the status `REQUEST_LINE` the cursor stays inside `_buffer`, and nothing is read
behind its end or written behind the memory of a string, exactly if every line that is stepped over is
followed by two characters and the strings of these lines fit. -/
theorem cursor_inside_iff (buffer : Text) (request : HttpRequest) (emitted : List ParseError) :
    CursorInside buffer request emitted ↔ Terminated buffer ∧ HeadFits buffer := by
  by_cases hfit : Fit (lineStrings (firstLine buffer))
  · by_cases haccepted : AcceptedText (firstLine buffer)
    · obtain ⟨request', hfirst, -⟩ := requestLineStage_accepted request emitted hfit haccepted
      rw [cursorInside_iff hfirst, headerStage_inside_iff rfl, HeadFits, and_iff_right hfit,
        imp_iff_right haccepted]
      -- an accepted line is stepped over together with two characters
      by_cases hafter : ∃ c d rest, afterLine buffer = c :: d :: rest
      · obtain ⟨c, d, rest, hafter⟩ := hafter
        have hin := step_inside [] hafter
        obtain ⟨hbuffer, hpos⟩ := step_over [] hafter
        rw [List.nil_append] at hbuffer hin
        rw [List.length_nil, Nat.zero_add] at hin hpos
        have hheader : ∀ before, buffer = before ++ rest →
            (LoopInside buffer (parseHeader buffer before.length buffer.length request') ↔
              HeaderTerminated rest ∧ HeaderFits rest) := by
          rintro before rfl
          exact parseHeader_inside_iff before request'
        simp only [hpos, hheader _ hbuffer]
        constructor
        · rintro ⟨-, hterminated, hfits⟩
          refine ⟨fun _ => ⟨c, d, rest, hafter, hterminated⟩, fun c' d' rest' hafter' => ?_⟩
          rw [hafter] at hafter'
          cases hafter'
          exact hfits
        · rintro ⟨hterminated, hfits⟩
          obtain ⟨c', d', rest', hafter', hterminated⟩ := hterminated haccepted
          rw [hafter] at hafter'
          cases hafter'
          exact ⟨hpos ▸ hin, hterminated, hfits c d rest hafter⟩
      · -- already the step over the end of the request line leads behind `_buffer`
        have hout := step_outside [] fun c d rest h => hafter ⟨c, d, rest, h⟩
        rw [List.nil_append, List.length_nil, Nat.zero_add] at hout
        refine iff_of_false (fun h => absurd h.1 (not_le.mpr hout)) fun h => hafter ?_
        obtain ⟨c, d, rest, hafter', -⟩ := h.1 haccepted
        exact ⟨c, d, rest, hafter'⟩
    · -- a line that is rejected is not stepped over, and the other stages are skipped
      obtain ⟨pos, request', errors, hpos, hfirst⟩ :=
        requestLineStage_rejected request emitted hfit haccepted
      have hsplit := congrArg List.length (firstLine_append_afterLine buffer)
      rw [List.length_append] at hsplit
      have hinside : pos ≤ buffer.length := by omega
      rw [cursorInside_iff hfirst, (stages_skip (Or.inl rfl)).2.1]
      exact iff_of_true ⟨hinside, hinside⟩ ⟨fun h => absurd h haccepted, hfit,
        fun h => absurd h haccepted⟩
  · -- a string of the request line is written behind its memory
    refine iff_of_false (fun h => ?_) fun h => hfit h.2.1
    have hstage := h.requestLine
    rw [requestLineStage_overrun request emitted hfit] at hstage
    exact hstage.1 rfl

end

section
open Libstdcxx

/-- A request line without a line end: the cursor gets behind `_buffer`. -/
theorem cursor_behind_request_line : ¬CursorInside "GET /?b HTTP/1.1".toList {} [] := by
  intro h
  have hpos : 18 ≤ 16 := h.requestLine
  exact absurd hpos (by decide)

end

end Brutils.Proofs.Http
