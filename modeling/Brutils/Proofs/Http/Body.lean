import Brutils.Proofs.Http.Exceptions

/-!
# `Brutils.Proofs.Http.Body`: the announced body

`headerStage` looks for the announcement under the key that `toLower` makes of
`"content-size"`. This is the empty key, and the value under it is empty too. So the status
`BODY` is never reached and no body is read, whatever a header line announces. The request that
is returned has an empty `rawBody`, and nothing behind the empty line matters
(`newIncomingData_head`). So the body is right exactly if it is empty, where a request is returned at
all: the request line has to be readable, and the strings of the head have to fit
(`body_exact_iff`).

`ReadHead` says which buffers begin with a head as far as `parse` is concerned. It stays so when
bytes are added (`ReadHead.append`).
-/

set_option autoImplicit false

namespace Brutils.Proofs.Http

open Brutils.RequestParser

/-! ### The bytes of a head -/

/-- The characters of a header line, without the line end. -/
def headerText (header : HeaderLine) : Text := header.name ++ ':' :: header.value

section
variable {header : HeaderLine} {headers : List HeaderLine} {head : RequestHead} {rest : Text}

/-- A header line has a `:`. -/
theorem colon_mem_headerText (header : HeaderLine) : ':' ∈ headerText header :=
  List.mem_append_right _ List.mem_cons_self

/-- No character of a header line ends it. -/
theorem headerText_freeOf (header : HeaderLine) : FreeOf newLine (headerText header) := by
  intro c hc hend
  rcases List.mem_append.mp hc with hname | hvalue
  · exact header.name_freeOf c hname (List.mem_cons_of_mem _ hend)
  · rcases List.mem_cons.mp hvalue with rfl | hvalue
    · exact absurd hend (by decide)
    · exact header.value_freeOf c hvalue hend

/-- The lines of a head, and what is behind them. -/
theorem header_bytes_append (header : HeaderLine) (rest : Text) :
    header.bytes ++ rest = headerText header ++ '\r' :: '\n' :: rest := by
  rw [HeaderLine.bytes, headerText, newLine]
  simp only [List.append_assoc, List.cons_append, List.nil_append]

/-- The first line behind header lines and an empty line. -/
theorem headerLines_cons (header : HeaderLine) (rest : Text) :
    firstLine (header.bytes ++ rest) = headerText header ∧
      afterLine (header.bytes ++ rest) = '\r' :: '\n' :: rest := by
  rw [header_bytes_append]
  exact firstLine_eq (headerText_freeOf header) (by decide) _

/-- Behind header lines comes an empty line. -/
theorem headerFound_lines (headers : List HeaderLine) (rest : Text) :
    HeaderFound (headers.flatMap HeaderLine.bytes ++ (newLine ++ rest)) := by
  induction headers with
  | nil => exact .blank (List.cons_ne_nil _ _) (firstLine_empty List.mem_cons_self _)
  | cons header headers ih =>
    rw [List.flatMap_cons, List.append_assoc]
    obtain ⟨hline, hafter⟩ := headerLines_cons header
      (headers.flatMap HeaderLine.bytes ++ (newLine ++ rest))
    exact .line (hline ▸ colon_mem_headerText header) hafter ih

/-- The first line of a head is the request line. -/
theorem head_firstLine (head : RequestHead) (rest : Text) :
    firstLine (head.bytes ++ rest) = head.line.text ∧
      afterLine (head.bytes ++ rest)
        = '\r' :: '\n' :: (head.headers.flatMap HeaderLine.bytes ++ (newLine ++ rest)) := by
  have hbytes : head.bytes ++ rest = head.line.text ++
      '\r' :: '\n' :: (head.headers.flatMap HeaderLine.bytes ++ (newLine ++ rest)) := by
    simp only [RequestHead.bytes, newLine, List.append_assoc, List.cons_append, List.nil_append]
  rw [hbytes]
  exact firstLine_eq head.line_freeOf (by decide) _

/-- No head is empty. -/
theorem head_bytes_ne_nil (head : RequestHead) (rest : Text) : head.bytes ++ rest ≠ [] := by
  intro hnil
  have hline := (head_firstLine head rest).1
  rw [hnil] at hline
  exact text_ne_nil head.line hline.symm

/-- The request line of a head is accepted exactly if it is readable. -/
theorem head_accepted_iff (head : RequestHead) (rest : Text) :
    AcceptedText (firstLine (head.bytes ++ rest)) ↔ HasOpenQuery head.line := by
  rw [(head_firstLine head rest).1]
  constructor
  · rintro ⟨line, htext, query, hquery, hopen⟩
    exact ⟨query, query_unique htext ▸ hquery, hopen⟩
  · intro hopen
    exact ⟨head.line, rfl, hopen⟩

end

/-! ### What is read as a head -/

/-- A request line that is readable, and behind it `rest`, in which the loop of `parseHeader` comes
to an empty line. -/
structure ReadHead (line : RequestLine) (buffer rest : Text) : Prop where
  line_eq : firstLine buffer = line.text
  isOpen : HasOpenQuery line
  behind : ∃ c d, afterLine buffer = c :: d :: rest
  found : HeaderFound rest

section
variable {s : State} {data buffer before text rest : Text} {c d : Char} {p : Progress}
  {line : RequestLine} {head : RequestHead}

/-- It stays one when something is added. -/
theorem ReadHead.append (h : ReadHead line buffer rest) (more : Text) :
    ReadHead line (buffer ++ more) (rest ++ more) := by
  obtain ⟨c, d, hafter⟩ := h.behind
  obtain ⟨hline, hafter'⟩ := firstLine_append hafter more
  exact ⟨hline.trans h.line_eq, h.isOpen, ⟨c, d, hafter'⟩, h.found.append more⟩

/-- Its request line is accepted. -/
theorem ReadHead.accepted (h : ReadHead line buffer rest) : AcceptedText (firstLine buffer) :=
  ⟨line, h.line_eq.symm, h.isOpen⟩

/-- There is something in `_buffer`. -/
theorem ReadHead.ne_nil (h : ReadHead line buffer rest) : buffer ≠ [] := by
  obtain ⟨c, d, hafter⟩ := h.behind
  rintro rfl
  cases hafter

/-- A head with a readable request line is read as one. -/
theorem readHead_head (head : RequestHead) (hopen : HasOpenQuery head.line) (rest : Text) :
    ReadHead head.line (head.bytes ++ rest)
      (head.headers.flatMap HeaderLine.bytes ++ (newLine ++ rest)) := by
  obtain ⟨hline, hafter⟩ := head_firstLine head rest
  exact ⟨hline, hopen, ⟨_, _, hafter⟩, headerFound_lines head.headers rest⟩

/-- A head without header lines is one with an empty line behind the request line. -/
theorem firstLine_headers (headers : List HeaderLine) (rest : Text) :
    firstLine (headers.flatMap HeaderLine.bytes ++ (newLine ++ rest)) = [] ↔ headers = [] := by
  cases headers with
  | nil => exact iff_of_true (firstLine_empty (by decide) _) rfl
  | cons header headers =>
    rw [List.flatMap_cons, List.append_assoc, (headerLines_cons header _).1]
    exact iff_of_false (List.ne_nil_of_mem (colon_mem_headerText header)) (List.cons_ne_nil _ _)

end

/-! ### The strings of a head -/

section
variable [StandardLibrary]

/-- An empty string has the memory for each string that is made of the head: those of the request
line, and the key and the value of each header line. -/
def RequestHead.Fits (head : RequestHead) : Prop :=
  Fit (lineStrings head.line.text) ∧
    ∀ header ∈ head.headers, Fit (headerStrings (headerText header))

variable {s : State} {data buffer before text rest : Text} {c d : Char} {p : Progress}
  {line : RequestLine} {head : RequestHead}

/-- The strings of header lines fit if those of each of them do. What follows the empty line does not
matter. -/
theorem headerFits_lines (headers : List HeaderLine) (rest : Text) :
    HeaderFits (headers.flatMap HeaderLine.bytes ++ (newLine ++ rest)) ↔
      ∀ header ∈ headers, Fit (headerStrings (headerText header)) := by
  induction headers with
  | nil =>
    refine iff_of_true (headerFits_of_not_mem ?_) (List.forall_mem_nil _)
    rw [(firstLine_headers [] rest).mpr rfl]
    exact List.not_mem_nil
  | cons header headers ih =>
    rw [List.flatMap_cons, List.append_assoc]
    obtain ⟨hline, hafter⟩ := headerLines_cons header
      (headers.flatMap HeaderLine.bytes ++ (newLine ++ rest))
    rw [headerFits_line_iff (hline ▸ colon_mem_headerText header) hafter, hline, ih,
      List.forall_mem_cons]

/-- The strings that `parse` makes of a head with a readable request line are those of the head. -/
theorem headFits_head (head : RequestHead) (hopen : HasOpenQuery head.line) (rest : Text) :
    HeadFits (head.bytes ++ rest) ↔ RequestHead.Fits head := by
  obtain ⟨hline, hafter⟩ := head_firstLine head rest
  rw [HeadFits, RequestHead.Fits, ← headerFits_lines head.headers rest,
    imp_iff_right ((head_accepted_iff head rest).mpr hopen), hline, hafter]
  refine and_congr_right fun _ => ⟨fun h => h _ _ _ rfl, ?_⟩
  rintro h c d rest' ⟨⟩
  exact h

/-! ### The stages behind the request line -/

/-- Where there is a header line and an empty line, and the strings fit, a request is returned. The
body is not looked at. -/
theorem headerStages_found (before : Text) (hstatus : p.parsingStatus = .HEADER_LINES)
    (hheaders : p.request.headers = []) (hpos : p.pos = before.length)
    (hfound : HeaderFound text) (hfits : HeaderFits text) (hne : firstLine text ≠ []) :
    ∃ pos, headerStage (before ++ text) p >>= bodyStage (before ++ text)
      = .ok ⟨pos, { p.request with headers := [([], [])] }, .FINISHED, p.emitted⟩ := by
  obtain ⟨pos, hcall⟩ := parseHeader_found before hfound hfits p.request (Or.inl hheaders)
  rw [withHeaders, if_neg hne] at hcall
  rw [headerStage, if_pos hstatus, hpos]
  simp only [hcall, header_eq]
  exact ⟨pos, rfl⟩

/-- Where the empty line comes first, `header` throws. -/
theorem headerStages_blank (before : Text) (hstatus : p.parsingStatus = .HEADER_LINES)
    (hheaders : p.request.headers = []) (hpos : p.pos = before.length)
    (hfound : HeaderFound text) (hempty : firstLine text = []) :
    ∃ pos, headerStage (before ++ text) p >>= bodyStage (before ++ text)
      = .error (.out_of_range, ⟨pos, p.request, .HEADER_LINES, p.emitted⟩) := by
  have hfits : HeaderFits text := headerFits_of_not_mem (by rw [hempty]; exact List.not_mem_nil)
  obtain ⟨pos, hcall⟩ := parseHeader_found before hfound hfits p.request (Or.inl hheaders)
  rw [withHeaders, if_pos hempty] at hcall
  rw [headerStage, if_pos hstatus, hpos]
  simp only [hcall, header_eq, hheaders]
  exact ⟨pos, rfl⟩

/-- Where a string does not fit, the second stage does not end. -/
theorem headerStages_overrun (before : Text) (hstatus : p.parsingStatus = .HEADER_LINES)
    (hpos : p.pos = before.length) (hfits : ¬HeaderFits text) :
    headerStage (before ++ text) p >>= bodyStage (before ++ text) = .error (.outOfBounds, p) := by
  rw [headerStage, if_pos hstatus, hpos]
  cases hcall : parseHeader (before ++ text) before.length (before ++ text).length p.request with
  | none => rfl
  | some result => exact absurd (headerFits_of_headerLoop hcall) hfits

/-- Where there is no empty line, there is an error, or the second stage does not end. -/
theorem headerStages_not_found (before : Text) (hstatus : p.parsingStatus = .HEADER_LINES)
    (hheaders : p.request.headers = []) (hpos : p.pos = before.length)
    (hfound : ¬HeaderFound text) :
    headerStage (before ++ text) p >>= bodyStage (before ++ text) = .error (.outOfBounds, p) ∨
      ∃ q : Progress, q.parsingStatus = .ERROR ∧
        headerStage (before ++ text) p >>= bodyStage (before ++ text) = .ok q := by
  rw [headerStage, if_pos hstatus, hpos]
  cases hcall : parseHeader (before ++ text) before.length (before ++ text).length p.request with
  | none => exact Or.inl rfl
  | some result =>
    obtain ⟨found, pos, request⟩ := result
    cases found with
    | false => exact Or.inr ⟨_, rfl, rfl⟩
    | true => exact absurd (parseHeader_true (Or.inl hheaders) hcall).1 hfound

/-- Where the first line has no `:`, there is an error. -/
theorem headerStages_no_colon (before : Text) (hstatus : p.parsingStatus = .HEADER_LINES)
    (hpos : p.pos = before.length) (hne : firstLine text ≠ []) (hcolon : ':' ∉ firstLine text) :
    ∃ q : Progress, q.parsingStatus = .ERROR ∧
      headerStage (before ++ text) p >>= bodyStage (before ++ text) = .ok q := by
  have htext : text ≠ [] := by
    rintro rfl
    exact hne rfl
  have hfuel : (before ++ text).length - before.length = (text.length - 1) + 1 := by
    have := List.length_pos_iff.mpr htext
    rw [List.length_append]
    omega
  rw [headerStage, if_pos hstatus, hpos, parseHeader, hfuel, headerLoop_pass htext, if_neg hne,
    if_neg hcolon]
  exact ⟨_, rfl, rfl⟩

/-! ### The stages of `parse` -/

/-- The stages with a request line that is accepted are those behind it. -/
theorem stages_line (hline : firstLine buffer = line.text) (hopen : HasOpenQuery line)
    (hfit : Fit (lineStrings (firstLine buffer))) (hafter : afterLine buffer = c :: d :: rest)
    (emitted : List ParseError) :
    ∃ before pos, buffer = before ++ rest ∧ pos = before.length ∧
      stages buffer (start {} emitted)
        = headerStage buffer ⟨pos, RequestLine.read line {}, .HEADER_LINES, emitted⟩
          >>= bodyStage buffer := by
  obtain ⟨hbuffer, hpos⟩ := step_over [] hafter
  rw [List.length_nil, Nat.zero_add] at hpos
  have hfirst := requestLineStage_line {} emitted hopen hfit hline
  exact ⟨_, _, hbuffer, hpos, stages_of_requestLine hfirst⟩

/-- The request that is returned for a request line and header lines. -/
def requestOf (line : RequestLine) : HttpRequest where
  method := line.method.2
  version := line.version.2
  query := [([], [])]
  headers := [([], [])]

/-- With a header line a request is returned, if the strings fit. -/
theorem stages_complete (h : ReadHead line buffer rest) (hfits : HeadFits buffer)
    (hne : firstLine rest ≠ [])
    (emitted : List ParseError) :
    ∃ pos, stages buffer (start {} emitted) = .ok ⟨pos, requestOf line, .FINISHED, emitted⟩ := by
  obtain ⟨c, d, hafter⟩ := h.behind
  have hrest := hfits.2 h.accepted c d rest hafter
  obtain ⟨before, pos, hbuffer, hpos, hstages⟩ :=
    stages_line h.line_eq h.isOpen hfits.1 hafter emitted
  rw [hstages, hbuffer]
  exact headerStages_found before rfl rfl hpos h.found hrest hne

/-- Without one `header` throws. -/
theorem stages_bare (h : ReadHead line buffer rest)
    (hfit : Fit (lineStrings (firstLine buffer))) (hempty : firstLine rest = [])
    (emitted : List ParseError) :
    ∃ pos, stages buffer (start {} emitted)
      = .error (.out_of_range, ⟨pos, RequestLine.read line {}, .HEADER_LINES, emitted⟩) := by
  obtain ⟨c, d, hafter⟩ := h.behind
  obtain ⟨before, pos, hbuffer, hpos, hstages⟩ := stages_line h.line_eq h.isOpen hfit hafter emitted
  rw [hstages, hbuffer]
  exact headerStages_blank before rfl rfl hpos h.found hempty

/-- Where a string of a head does not fit, the stages do not end. -/
theorem stages_overrun (h : ReadHead line buffer rest) (hfits : ¬HeadFits buffer)
    (emitted : List ParseError) :
    ∃ q, stages buffer (start {} emitted) = .error (.outOfBounds, q) := by
  by_cases hfit : Fit (lineStrings (firstLine buffer))
  · obtain ⟨c, d, hafter⟩ := h.behind
    have hrest : ¬HeaderFits rest := by
      intro hrest
      refine hfits ⟨hfit, fun _ c' d' rest' hafter' => ?_⟩
      rw [hafter] at hafter'
      cases hafter'
      exact hrest
    obtain ⟨before, pos, hbuffer, hpos, hstages⟩ := stages_line h.line_eq h.isOpen hfit hafter emitted
    rw [hstages, hbuffer]
    exact ⟨_, headerStages_overrun before rfl hpos hrest⟩
  · exact ⟨_, stages_of_error (requestLineStage_overrun {} emitted hfit)⟩

/-- A request line that is rejected makes an error. -/
theorem stages_rejected (hfit : Fit (lineStrings (firstLine buffer)))
    (h : ¬AcceptedText (firstLine buffer)) (emitted : List ParseError) :
    ∃ q : Progress, q.parsingStatus = .ERROR ∧ stages buffer (start {} emitted) = .ok q := by
  obtain ⟨pos, request', errors, -, hfirst⟩ := requestLineStage_rejected {} emitted hfit h
  rw [stages_of_requestLine hfirst, (stages_skip (Or.inl rfl)).2.1]
  exact ⟨_, rfl, rfl⟩

/-- If the strings of the first line fit and no head is read, there is an error, or the line is
accepted and the second stage does not end. -/
theorem stages_not_read (hfit : Fit (lineStrings (firstLine buffer)))
    (hread : ¬∃ line rest, ReadHead line buffer rest) (emitted : List ParseError) :
    (AcceptedText (firstLine buffer) ∧
        ∃ q, stages buffer (start {} emitted) = .error (.outOfBounds, q)) ∨
      ∃ q : Progress, q.parsingStatus = .ERROR ∧ stages buffer (start {} emitted) = .ok q := by
  by_cases haccepted : AcceptedText (firstLine buffer)
  · have ⟨line, hline, hopen⟩ := haccepted
    by_cases hafter : ∃ c d rest, afterLine buffer = c :: d :: rest
    · obtain ⟨c, d, rest, hafter⟩ := hafter
      have hfound : ¬HeaderFound rest :=
        fun hfound => hread ⟨line, rest, hline.symm, hopen, ⟨c, d, hafter⟩, hfound⟩
      obtain ⟨before, pos, hbuffer, hpos, hstages⟩ :=
        stages_line hline.symm hopen hfit hafter emitted
      have hrest := headerStages_not_found before
        (p := ⟨pos, RequestLine.read line {}, .HEADER_LINES, emitted⟩) rfl rfl hpos hfound
      rw [← hbuffer, ← hstages] at hrest
      exact hrest.imp (fun houtside => ⟨haccepted, _, houtside⟩) id
    · -- already the step over the end of the request line leads behind `_buffer`
      have hout := step_outside [] fun c d rest h => hafter ⟨c, d, rest, h⟩
      rw [List.nil_append, List.length_nil, Nat.zero_add] at hout
      rw [stages_of_requestLine (requestLineStage_line {} emitted hopen hfit hline.symm),
        headerStage_outside rfl hout]
      exact Or.inl ⟨haccepted, _, rfl⟩
  · exact Or.inr (stages_rejected hfit haccepted emitted)

/-- The stages of a call at the beginning of a request. -/
theorem callStages_start (hs : AtStart s) (data : Text) :
    callStages s data = stages (s.buffer ++ data) (start {} s.emitted) := by
  rw [callStages, hs.1, hs.2]
  rfl

/-- A new parser returns a request for a head with a header line, if the request line is readable and
the strings fit. It does not depend on what follows. -/
theorem newIncomingData_head (hopen : HasOpenQuery head.line) (hfits : RequestHead.Fits head)
    (hheaders : head.headers ≠ []) (rest : Text) :
    (newIncomingData fresh (head.bytes ++ rest)).1 = .ok (some (requestOf head.line)) := by
  have hread := readHead_head head hopen rest
  obtain ⟨pos, hstages⟩ := stages_complete hread ((headFits_head head hopen rest).mpr hfits)
    (mt (firstLine_headers head.headers rest).mp hheaders) fresh.emitted
  rw [newIncomingData_eq (head_bytes_ne_nil head rest), callStages_start fresh_atStart]
  have hbuffer : fresh.buffer ++ (head.bytes ++ rest) = head.bytes ++ rest := rfl
  simp only [hbuffer, hstages, if_true]

/-- For a head whose request line is not readable it returns `nullptr`, or does not return. -/
theorem newIncomingData_rejected (hopen : ¬HasOpenQuery head.line) (rest : Text) :
    (newIncomingData fresh (head.bytes ++ rest)).1 = .ok none ∨
      (newIncomingData fresh (head.bytes ++ rest)).1 = .error .outOfBounds := by
  have hbuffer : fresh.buffer ++ (head.bytes ++ rest) = head.bytes ++ rest := rfl
  rw [newIncomingData_eq (head_bytes_ne_nil head rest), callStages_start fresh_atStart]
  by_cases hfit : Fit (lineStrings (firstLine (head.bytes ++ rest)))
  · obtain ⟨q, hstatus, hstages⟩ := stages_rejected hfit
      (mt (head_accepted_iff head rest).mp hopen) fresh.emitted
    simp only [hbuffer, hstages, hstatus, reduceCtorEq, if_false]
    exact Or.inl trivial
  · have hstages := stages_of_error (requestLineStage_overrun {} fresh.emitted hfit)
    simp only [hbuffer, hstages]
    exact Or.inr trivial

/-- Where a string does not fit, a readable head is not returned. -/
theorem newIncomingData_overrun (hopen : HasOpenQuery head.line) (hfits : ¬RequestHead.Fits head)
    (rest : Text) : (newIncomingData fresh (head.bytes ++ rest)).1 = .error .outOfBounds := by
  have hbuffer : fresh.buffer ++ (head.bytes ++ rest) = head.bytes ++ rest := rfl
  obtain ⟨q, hstages⟩ := stages_overrun (readHead_head head hopen rest)
    (mt (headFits_head head hopen rest).mp hfits) fresh.emitted
  rw [newIncomingData_eq (head_bytes_ne_nil head rest), callStages_start fresh_atStart]
  simp only [hbuffer, hstages]

/-! ### The result -/

/-- A new parser returns a request whose body is the first `n` bytes behind the head, and what is
behind them does not matter. -/
structure BodyExact (head : RequestHead) (n : Nat) (rest : Text) : Prop where
  body : ∃ request, (newIncomingData fresh (head.bytes ++ rest)).1 = .ok (some request) ∧
    request.rawBody = rest.take n
  independent : ∀ rest', n ≤ rest'.length → rest'.take n = rest.take n →
    (newIncomingData fresh (head.bytes ++ rest')).1 = (newIncomingData fresh (head.bytes ++ rest)).1

/-- The body that a head announces is read as it should be exactly if the request line is readable,
the body is empty and an empty string has the memory for each string of the head. -/
theorem body_exact_iff (head : RequestHead) {n : Nat} (hn : head.Announces n) {rest : Text}
    (hrest : n ≤ rest.length) :
    BodyExact head n rest ↔ HasOpenQuery head.line ∧ n = 0 ∧ RequestHead.Fits head := by
  obtain ⟨header, hheader, -⟩ := hn
  have hheaders : head.headers ≠ [] := List.ne_nil_of_mem hheader
  constructor
  · rintro ⟨⟨request, hcall, hbody⟩, -⟩
    by_cases hopen : HasOpenQuery head.line
    · by_cases hfits : RequestHead.Fits head
      · rw [newIncomingData_head hopen hfits hheaders] at hcall
        obtain rfl := Option.some.inj (Except.ok.inj hcall)
        -- no body has been read
        have hlength : ([] : Text).length = (rest.take n).length := congrArg List.length hbody
        rw [List.length_nil, List.length_take, Nat.min_eq_left hrest] at hlength
        exact ⟨hopen, hlength.symm, hfits⟩
      · rw [newIncomingData_overrun hopen hfits] at hcall
        cases hcall
    · rcases newIncomingData_rejected hopen rest with hnone | hhalt
      · cases hcall.symm.trans hnone
      · cases hcall.symm.trans hhalt
  · rintro ⟨hopen, rfl, hfits⟩
    refine ⟨⟨_, newIncomingData_head hopen hfits hheaders rest, ?_⟩, fun rest' _ _ => ?_⟩
    · rw [List.take_zero]
      rfl
    · rw [newIncomingData_head hopen hfits hheaders, newIncomingData_head hopen hfits hheaders]

end

/-- No line end is in the request line. -/
theorem queryLine_freeOf : FreeOf newLine queryLine.text := by decide

/-- A request with a header line that announces a body of that many bytes. -/
def postHead (size : Text) (hsize : FreeOf ['\r', '\n'] size) : RequestHead where
  line := queryLine
  headers := [⟨"Content-Size".toList, size, by decide, by decide, hsize⟩]
  line_freeOf := queryLine_freeOf

section
open Libstdcxx

/-- An empty body is read. -/
theorem empty_body_exact : BodyExact (postHead " 0".toList (by decide)) 0 "x".toList := by
  refine (body_exact_iff _ ?_ (by decide)).mpr ⟨⟨"b".toList, rfl, by decide⟩, rfl,
    by decide, by decide⟩
  exact ⟨_, List.mem_singleton_self _, rfl, by decide, by decide, by decide⟩

/-- A body of one byte is not read. -/
theorem one_byte_body_lost : (postHead " 1".toList (by decide)).Announces 1 ∧
    ¬BodyExact (postHead " 1".toList (by decide)) 1 "x".toList := by
  refine ⟨⟨_, List.mem_singleton_self _, rfl, by decide, by decide, by decide⟩, ?_⟩
  rintro ⟨⟨request, hcall, hbody⟩, -⟩
  have hresult : (newIncomingData fresh
      ((postHead " 1".toList (by decide)).bytes ++ "x".toList)).1
        = .ok (some ⟨.GET, .HTTP_11, [], [([], [])], [], [([], [])]⟩) := by decide
  rw [hresult] at hcall
  obtain rfl := Option.some.inj (Except.ok.inj hcall)
  cases hbody

end

end Brutils.Proofs.Http
