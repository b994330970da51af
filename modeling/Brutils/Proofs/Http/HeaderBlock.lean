import Brutils.Proofs.Http.HeaderLines

/-!
# `Brutils.Proofs.Http.HeaderBlock`: the header lines one after another

`headerLoopBy` is the loop of `parseHeader` with a parameter for what it does with a header
line. The code makes strings of two ranges of the line and calls `insertHeader` with them
(`headerLoop_eq`). With a list of these calls in the place of the request, the same loop tells
which calls there are, and in which order. The request is what the calls make of it
(`headerLoopBy_foldl`).

So the framing is a statement about the list of the calls. `CallOf` says which ranges of
`_buffer` the call for a line reads, and `CallsOf` says this for lines that follow each other.
Both say where the ranges are and what they hold. What `getString` makes of a range is another
matter: its string is empty, and it returns only where an empty string has the memory for the range
(`CallOf.insert_eq`).

`headerLoopBy_block` is the induction on the lines, which shows that the calls are the right ones for
every block. So what is wrong with `parseHeader` is `getString`: the block is framed exactly if the
strings of the lines before the first one without a `:` fit (`header_block_framed_iff`).
-/

set_option autoImplicit false

namespace Brutils.Proofs.Http

open Brutils.RequestParser

/-- A call of `insertHeader`: the ranges that `getString` makes the key and the value of. -/
structure HeaderCall where
  keyPos : Nat
  keyEnd : Nat
  valuePos : Nat
  valueEnd : Nat
  deriving DecidableEq

/-- What the call does with the request, if its strings can be made. -/
def HeaderCall.insert [StandardLibrary] (buffer : Text) (request : HttpRequest) (call : HeaderCall) :
    Option HttpRequest := do
  let key ← getString buffer call.keyPos call.keyEnd
  let value ← getString buffer call.valuePos call.valueEnd
  pure (request.insertHeader key value)

/-- The loop of `parseHeader`, with a parameter for the call of `insertHeader`, strings included. -/
def headerLoopBy {ρ : Type} (insert : ρ → HeaderCall → Option ρ) (buffer : Text) (endPos : Nat) :
    Nat → Nat → ρ → Option (Bool × Nat × ρ)
  | 0, pos, acc => if pos = endPos then some (false, pos, acc) else none
  | fuel + 1, pos, acc =>
    if pos = endPos then some (false, pos, acc)
    else if endPos < pos then none
    else
      let lineEndPos := findFirstOf newLine buffer pos endPos
      if lineEndPos = pos then some (true, pos + 2, acc)
      else
        let keyEndPos := find ':' buffer pos lineEndPos
        if keyEndPos = lineEndPos then some (false, pos, acc)
        else do
          let valueStart := findIf (· ≠ ' ') buffer (keyEndPos + 1) lineEndPos
          let acc ← insert acc ⟨pos, keyEndPos, valueStart, lineEndPos⟩
          headerLoopBy insert buffer endPos fuel (lineEndPos + 2) acc

/-- One call more. -/
def recordCall (calls : List HeaderCall) (call : HeaderCall) : Option (List HeaderCall) :=
  some (calls ++ [call])

/-- The loop with a list of the calls in the place of the request. -/
def headerCalls (buffer : Text) (pos endPos : Nat) : Option (Bool × Nat × List HeaderCall) :=
  headerLoopBy recordCall buffer endPos (endPos - pos) pos []

/-- The call for a header line at `pos`. -/
structure CallOf (buffer : Text) (pos : Nat) (line : Text) (call : HeaderCall) : Prop where
  keyPos_eq : call.keyPos = pos
  key : Spans buffer call.keyPos call.keyEnd (keyText line)
  value : Spans buffer call.valuePos call.valueEnd (valueText line)
  valueEnd_eq : call.valueEnd = pos + line.length

/-- The calls for header lines of which the first is at `pos`, one for each line. -/
inductive CallsOf (buffer : Text) : Nat → List Text → List HeaderCall → Prop
  | nil (pos : Nat) : CallsOf buffer pos [] []
  | cons {pos : Nat} {line : Text} {lines : List Text} {call : HeaderCall}
      {calls : List HeaderCall} (hcall : CallOf buffer pos line call)
      (hcalls : CallsOf buffer (pos + line.length + newLine.length) lines calls) :
      CallsOf buffer pos (line :: lines) (call :: calls)

/-- There is one call for each line. -/
theorem CallsOf.length_eq {buffer : Text} {pos : Nat} {lines : List Text}
    {calls : List HeaderCall} (h : CallsOf buffer pos lines calls) :
    calls.length = lines.length := by
  induction h with
  | nil pos => rfl
  | cons hcall hcalls ih => rw [List.length_cons, List.length_cons, ih]

/-! ### The calls and the request -/

section
variable [StandardLibrary] (buffer : Text) (endPos : Nat)

/-- The loop of `parseHeader` makes strings and calls `insertHeader`. -/
theorem headerLoop_eq (fuel pos : Nat) (request : HttpRequest) :
    headerLoop buffer endPos fuel pos request
      = headerLoopBy (HeaderCall.insert buffer) buffer endPos fuel pos request := by
  induction fuel generalizing pos request with
  | zero => rfl
  | succ fuel ih =>
    simp only [headerLoop, headerLoopBy, ih, HeaderCall.insert, Option.bind_eq_bind,
      Option.bind_assoc, Option.pure_def, Option.bind_some]

omit [StandardLibrary] in
/-- The loop makes of a request what the calls make of it that it would add to a list. It does not
return if one of them does not. -/
theorem headerLoopBy_foldlM {ρ : Type} (insert : ρ → HeaderCall → Option ρ) (acc : ρ)
    (fuel pos : Nat) (calls : List HeaderCall) :
    (calls.foldlM insert acc).bind (headerLoopBy insert buffer endPos fuel pos)
      = (headerLoopBy recordCall buffer endPos fuel pos calls).bind fun result =>
        (result.2.2.foldlM insert acc).map fun acc => (result.1, result.2.1, acc) := by
  induction fuel generalizing pos calls with
  | zero =>
    simp only [headerLoopBy]
    split
    · exact Option.map_eq_bind.symm
    · exact Option.bind_fun_none _
  | succ fuel ih =>
    simp only [headerLoopBy]
    split
    · exact Option.map_eq_bind.symm
    · split
      · exact Option.bind_fun_none _
      · split
        · exact Option.map_eq_bind.symm
        · split
          · exact Option.map_eq_bind.symm
          · -- the pass for a header line
            simp only [recordCall, Option.bind_eq_bind, Option.bind_some, ← ih, List.foldlM_append,
              List.foldlM_cons, List.foldlM_nil, Option.bind_assoc, Option.pure_def]

/-- `parseHeader` in terms of its calls. -/
theorem parseHeader_eq_calls (pos : Nat) (request : HttpRequest) :
    parseHeader buffer pos endPos request = (headerCalls buffer pos endPos).bind fun result =>
      (result.2.2.foldlM (HeaderCall.insert buffer) request).map fun request =>
        (result.1, result.2.1, request) := by
  rw [parseHeader, headerLoop_eq]
  exact headerLoopBy_foldlM buffer endPos (HeaderCall.insert buffer) request _ pos []

end

section
variable [StandardLibrary] {buffer line : Text} {pos : Nat} {lines : List Text}
  {calls : List HeaderCall}

/-- The call for a line inserts an empty header, if the strings for the line fit. -/
theorem CallOf.insert_eq {call : HeaderCall} (h : CallOf buffer pos line call)
    (request : HttpRequest) :
    HeaderCall.insert buffer request call =
      if Fit (headerStrings line) then some (request.insertHeader [] []) else none := by
  rw [HeaderCall.insert, getString_spans h.key, getString_spans h.value, headerStrings,
    if_congr fit_pair rfl rfl]
  by_cases hkey : (keyText line).length ≤ StandardLibrary.emptyCapacity
  · rw [if_pos hkey, if_congr (and_iff_right hkey) rfl rfl]
    split
    · rfl
    · rfl
  · have hpair : ¬((keyText line).length ≤ StandardLibrary.emptyCapacity ∧
        (valueText line).length ≤ StandardLibrary.emptyCapacity) := fun h => hkey h.1
    rw [if_neg hkey, if_neg hpair]
    rfl

/-- The calls for some lines can be made if the strings for each of them fit. -/
theorem CallsOf.foldlM_iff (h : CallsOf buffer pos lines calls) (request : HttpRequest) :
    (∃ request', calls.foldlM (HeaderCall.insert buffer) request = some request') ↔
      ∀ line ∈ lines, Fit (headerStrings line) := by
  induction h generalizing request with
  | nil pos => exact iff_of_true ⟨request, rfl⟩ (List.forall_mem_nil _)
  | @cons pos line lines call calls hcall hcalls ih =>
    rw [List.foldlM_cons, hcall.insert_eq, List.forall_mem_cons]
    by_cases hfit : Fit (headerStrings line)
    · rw [if_pos hfit, and_iff_right hfit]
      exact ih _
    · rw [if_neg hfit]
      exact iff_of_false (fun ⟨_, h⟩ => nomatch h) fun h => hfit h.1

end

/-! ### One line -/

section
variable {buffer text line : Text} {pos endPos : Nat}

/-- A search cuts a range in two. -/
theorem findIf_cuts {p q : Char → Bool} (hq : ∀ c, q c = !p c) (h : Spans buffer pos endPos text) :
    Spans buffer pos (findIf p buffer pos endPos) (text.takeWhile q) ∧
      Spans buffer (findIf p buffer pos endPos) endPos (text.dropWhile q) := by
  have hp : (fun c => !q c) = p := by
    funext c
    rw [hq, Bool.not_not]
  have hlength : findIf p buffer pos endPos = pos + (text.takeWhile q).length := by
    rw [findIf, h.slice, List.takeWhile_eq_take_findIdx_not, hp, List.length_take,
      Nat.min_eq_left List.findIdx_le_length]
  rw [← List.takeWhile_append_dropWhile (p := q) (l := text)] at h
  rw [hlength]
  exact ⟨h.left, h.right⟩

/-- Where a line has a `:`, its key ends. -/
theorem dropWhile_key (hcolon : ':' ∈ line) :
    line.dropWhile (· ≠ ':') = ':' :: (line.dropWhile (· ≠ ':')).tail := by
  obtain ⟨front, back, rfl, hfront⟩ := List.eq_append_cons_of_mem hcolon
  rw [dropWhile_ne hfront, List.tail_cons]

/-- The pass for a line with a `:`. -/
theorem headerCalls_line (hline : LineAt buffer pos line) (hne : line ≠ []) (hcolon : ':' ∈ line)
    (hlength : pos + line.length ≤ buffer.length) (fuel : Nat) (calls : List HeaderCall) :
    ∃ call, CallOf buffer pos line call ∧
      headerLoopBy recordCall buffer buffer.length (fuel + 1) pos calls
        = headerLoopBy recordCall buffer buffer.length fuel
          (pos + line.length + newLine.length) (calls ++ [call]) := by
  have hpos := List.length_pos_iff.mpr hne
  obtain ⟨hkey, hbehind⟩ := findIf_cuts (p := (· = ':')) (q := (· ≠ ':'))
    (fun c => decide_not) hline.spans
  rw [dropWhile_key hcolon] at hbehind
  have hend := hbehind.pos_lt_end
  obtain ⟨-, hvalue⟩ := findIf_cuts (p := (· ≠ ' ')) (q := (· = ' '))
    (fun c => by rw [decide_not, Bool.not_not]) hbehind.tail
  refine ⟨⟨pos, _, _, pos + line.length⟩, ⟨rfl, hkey, hvalue, rfl⟩, ?_⟩
  rw [headerLoopBy, if_neg (by omega), if_neg (by omega)]
  simp only [hline.lineEnd, find]
  rw [if_neg (by omega), if_neg (by omega)]
  rfl

/-- The pass for a line without a `:`. -/
theorem headerCalls_no_colon (hline : LineAt buffer pos line) (hne : line ≠ [])
    (hcolon : ':' ∉ line) (hlength : pos + line.length ≤ buffer.length) (fuel : Nat)
    (calls : List HeaderCall) :
    headerLoopBy recordCall buffer buffer.length (fuel + 1) pos calls
      = some (false, pos, calls) := by
  have hpos := List.length_pos_iff.mpr hne
  rw [headerLoopBy, if_neg (by omega), if_neg (by omega)]
  simp only [hline.lineEnd, find_eq_endPos hline.spans hcolon]
  rw [if_neg (by omega), if_pos trivial]

/-- The pass for an empty line. -/
theorem headerCalls_empty (hline : LineAt buffer pos []) (hlength : pos < buffer.length)
    (fuel : Nat) (calls : List HeaderCall) :
    headerLoopBy recordCall buffer buffer.length (fuel + 1) pos calls
      = some (true, pos + newLine.length, calls) := by
  rw [headerLoopBy, if_neg hlength.ne, if_neg (by omega)]
  simp only [hline.lineEnd]
  rw [if_pos (show pos + [].length = pos from rfl)]
  rfl

end

/-! ### The block -/

/-- Header lines and the empty line behind them. -/
def block (lines : List Text) : Text := lines.flatMap (· ++ newLine) ++ newLine

/-- The lines before the first one without a `:`. -/
def colonLines (lines : List Text) : List Text := lines.takeWhile (':' ∈ ·)

/-- If every line has a colon, the loop comes to all of them. -/
theorem colonLines_eq_self {lines : List Text} (h : ∀ line ∈ lines, ':' ∈ line) :
    colonLines lines = lines :=
  List.takeWhile_eq_self_iff.mpr fun line hline => decide_eq_true (h line hline)

/-- The loop stops at the first line without a colon. -/
theorem colonLines_cons (line : Text) (lines : List Text) :
    colonLines (line :: lines) = if ':' ∈ line then line :: colonLines lines else [] := by
  rw [colonLines, List.takeWhile_cons]
  simp only [decide_eq_true_eq]
  rfl

/-- The first line of a block comes with its line end. -/
theorem block_cons (line : Text) (lines : List Text) :
    block (line :: lines) = line ++ newLine ++ block lines := by
  rw [block, List.flatMap_cons, List.append_assoc]
  rfl

/-- A line of a header block: it is not empty, and no character of it ends it. -/
def IsHeaderLine (line : Text) : Prop := line ≠ [] ∧ FreeOf newLine line

instance (line : Text) : Decidable (IsHeaderLine line) :=
  inferInstanceAs (Decidable (line ≠ [] ∧ FreeOf newLine line))

/-- What the loop gives on a block from `pos`: whether each line has a `:`, where it leaves the
cursor then, and the calls, which are added to earlier ones. -/
structure Framed (buffer : Text) (pos : Nat) (lines : List Text) (earlier : List HeaderCall)
    (result : Bool × Nat × List HeaderCall) : Prop where
  found_iff : result.1 = true ↔ ∀ line ∈ lines, ':' ∈ line
  pos_eq : result.1 = true → result.2.1 = pos + (block lines).length
  calls : ∃ calls, result.2.2 = earlier ++ calls ∧
    CallsOf buffer pos (colonLines lines) calls

/-- A line with a `:` before a block. -/
theorem Framed.cons {buffer : Text} {pos : Nat} {line : Text} {lines : List Text}
    {earlier : List HeaderCall} {call : HeaderCall} {result : Bool × Nat × List HeaderCall}
    (hcolon : ':' ∈ line) (hcall : CallOf buffer pos line call)
    (h : Framed buffer (pos + line.length + newLine.length) lines (earlier ++ [call]) result) :
    Framed buffer pos (line :: lines) earlier result := by
  obtain ⟨calls, hresult, hcalls⟩ := h.calls
  refine ⟨?_, fun hfound => ?_, call :: calls, ?_, ?_⟩
  · rw [h.found_iff, List.forall_mem_cons, and_iff_right hcolon]
  · rw [h.pos_eq hfound, block_cons]
    simp only [List.length_append]
    omega
  · rw [hresult, List.append_assoc, List.singleton_append]
  · rw [colonLines_cons, if_pos hcolon]
    exact .cons hcall hcalls

/-- A line without one: the loop stops there. -/
theorem Framed.stop {buffer : Text} {pos : Nat} {line : Text} (lines : List Text)
    (earlier : List HeaderCall) (hcolon : ':' ∉ line) :
    Framed buffer pos (line :: lines) earlier (false, pos, earlier) := by
  refine ⟨?_, fun hfound => absurd hfound Bool.false_ne_true, [], ?_, ?_⟩
  · exact iff_of_false Bool.false_ne_true fun h => hcolon (h line List.mem_cons_self)
  · exact (List.append_nil _).symm
  · rw [colonLines_cons, if_neg hcolon]
    exact .nil _

/-- The induction on the lines: the first one has a `:`, and the loop goes on behind it, or it has
none, and the loop ends. -/
theorem headerLoopBy_block (before rest : Text) {lines : List Text}
    (hlines : ∀ line ∈ lines, IsHeaderLine line) (fuel : Nat) (hfuel : (block lines).length ≤ fuel)
    (earlier : List HeaderCall) :
    ∃ result, headerLoopBy recordCall (before ++ (block lines ++ rest))
        (before ++ (block lines ++ rest)).length fuel before.length earlier = some result ∧
      Framed (before ++ (block lines ++ rest)) before.length lines earlier result := by
  induction lines generalizing before fuel earlier with
  | nil =>
    have hsome : 0 < fuel := lt_of_lt_of_le (by decide) hfuel
    obtain ⟨fuel, rfl⟩ := Nat.exists_eq_add_one.mpr hsome
    -- the blank line at the end of the block
    have hline : LineAt (before ++ (block [] ++ rest)) before.length [] :=
      lineAt_append before ('\n' :: rest) (fun _ h => absurd h List.not_mem_nil) (by decide)
    have hlength : before.length < (before ++ (block [] ++ rest)).length := by
      simp [block, newLine]
    exact ⟨_, headerCalls_empty hline hlength fuel earlier,
      ⟨by simp, fun _ => rfl, [], by simp, .nil _⟩⟩
  | cons line lines ih =>
    obtain ⟨⟨hne, hfree⟩, htail⟩ := List.forall_mem_cons.mp hlines
    have hblock := congrArg List.length (block_cons line lines)
    simp only [List.length_append] at hblock
    have hnewLine : newLine.length = 2 := rfl
    obtain ⟨fuel, rfl⟩ := Nat.exists_eq_add_one.mpr (show 0 < fuel by omega)
    -- the line with its end goes over to what has been read
    have hbuffer : before ++ (block (line :: lines) ++ rest)
        = (before ++ line ++ newLine) ++ (block lines ++ rest) := by
      rw [block_cons]
      simp only [List.append_assoc]
    have hline : LineAt (before ++ (block (line :: lines) ++ rest)) before.length line := by
      rw [block_cons, List.append_assoc, List.append_assoc]
      exact lineAt_append before ('\n' :: (block lines ++ rest)) hfree (by decide)
    have hlength :
        before.length + line.length ≤ (before ++ (block (line :: lines) ++ rest)).length := by
      simp only [hbuffer, List.length_append]
      omega
    by_cases hcolon : ':' ∈ line
    · obtain ⟨call, hcall, hpass⟩ := headerCalls_line hline hne hcolon hlength fuel earlier
      have hpos :
          before.length + line.length + newLine.length = (before ++ line ++ newLine).length := by
        simp only [List.length_append]
      obtain ⟨result, hrun, hframed⟩ := ih (before ++ line ++ newLine) htail fuel (by omega)
        (earlier ++ [call])
      rw [← hbuffer, ← hpos] at hrun hframed
      exact ⟨result, hpass.trans hrun, .cons hcolon hcall hframed⟩
    · exact ⟨_, headerCalls_no_colon hline hne hcolon hlength fuel earlier, .stop lines earlier hcolon⟩

section
variable [StandardLibrary]

/-- `parseHeader` returns on a block of header lines that `before` and `rest` surround. It returns
true exactly if each line has a `:`, and then the cursor is at what follows the block, and there was
one call of `insertHeader` for each line. If it returns false, there was one for each line before the
first one without a `:`. The request is what these calls make of it. -/
def BlockFramed (before rest : Text) (lines : List Text) (request : HttpRequest) : Prop :=
  let buffer := before ++ (block lines ++ rest)
  ∃ found pos calls request', headerCalls buffer before.length buffer.length = some (found, pos, calls) ∧
    calls.foldlM (HeaderCall.insert buffer) request = some request' ∧
    parseHeader buffer before.length buffer.length request = some (found, pos, request') ∧
    (found = true ↔ ∀ line ∈ lines, ':' ∈ line) ∧
    (found = true → pos = before.length + (block lines).length ∧
      CallsOf buffer before.length lines calls ∧ calls.length = lines.length) ∧
    (found = false → CallsOf buffer before.length (colonLines lines) calls)

/-- This is so exactly if an empty string has the memory for each key and each value up to the first
line without a `:`. It makes no difference where in `_buffer` the block is, what follows, and what
the request is. -/
theorem header_block_framed_iff (before rest : Text) (lines : List Text)
    (hlines : ∀ line ∈ lines, IsHeaderLine line) (request : HttpRequest) :
    BlockFramed before rest lines request ↔
      ∀ line ∈ colonLines lines, Fit (headerStrings line) := by
  let buffer := before ++ (block lines ++ rest)
  have hfuel : (block lines).length ≤ buffer.length - before.length := by
    simp only [buffer, List.length_append]
    omega
  obtain ⟨⟨found, pos, calls⟩, hrun, hframed⟩ := headerLoopBy_block before rest hlines _ hfuel []
  obtain ⟨_, hresult, hcalls⟩ := hframed.calls
  obtain rfl : calls = _ := hresult
  have hcalls : CallsOf buffer before.length (colonLines lines) calls := hcalls
  have hrun : headerCalls buffer before.length buffer.length = some (found, pos, calls) := hrun
  rw [← hcalls.foldlM_iff request]
  constructor
  · rintro ⟨_, _, _, request', hrun', hfold, -⟩
    rw [hrun] at hrun'
    cases hrun'
    exact ⟨request', hfold⟩
  · rintro ⟨request', hfold⟩
    have hheader := parseHeader_eq_calls buffer buffer.length before.length request
    rw [hrun, Option.bind_some, hfold] at hheader
    refine ⟨found, pos, _, request', hrun, hfold, hheader, hframed.found_iff, fun hfound => ?_,
      fun _ => hcalls⟩
    rw [colonLines_eq_self (hframed.found_iff.mp hfound)] at hcalls
    exact ⟨hframed.pos_eq hfound, hcalls, hcalls.length_eq⟩

end

section
open Libstdcxx

/-- A header with spaces before its value, and one whose value is empty. A `:` follows the block. -/
theorem header_block_framed_two :
    BlockFramed [] ":".toList ["a:  b".toList, "c:".toList] {} :=
  (header_block_framed_iff [] ":".toList ["a:  b".toList, "c:".toList] (by decide) {}).mpr (by decide)

/-- A value of 40 characters: `getString` writes behind the memory of its string. -/
theorem long_value_overruns :
    ¬BlockFramed [] [] ["a:".toList ++ List.replicate 40 'v'] {} := by
  rintro ⟨found, pos, calls, request', hrun, hfold, -⟩
  have hcalls : headerCalls (block ["a:".toList ++ List.replicate 40 'v']) 0 46
      = some (true, 46, [⟨0, 1, 2, 42⟩]) := by decide
  cases hrun.symm.trans hcalls
  cases hfold

end

example : headerCalls ("a:  b\r\nc:\r\n\r\n:".toList) 0 14
    = some (true, 13, [⟨0, 1, 4, 5⟩, ⟨7, 8, 9, 9⟩]) := by decide

end Brutils.Proofs.Http
