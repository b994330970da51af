import Brutils.Http.Message
import Brutils.Proofs.Http.Ranges

/-!
# `Brutils.Proofs.Http.HeaderLines`: what the loop of `parseHeader` steps over

Behind each line the loop steps over two characters, whatever they are. It tests for the end
of `_buffer` with an inequality. So it stays inside `_buffer` exactly if each of the lines
that it steps over is followed by two characters, and the strings that are made of it fit.
`HeaderTerminated` and `HeaderFits` are these conditions as ones on the text that the loop begins
with, and `parseHeader_inside_iff` says so.

An empty line ends the loop. Where `"\\r\\n\\r\\n"` comes, the loop does not get past it
(`steppedOver_of_blank`).
-/

set_option autoImplicit false

namespace Brutils.Proofs.Http

open Brutils.RequestParser

/-- The characters up to the next line end. -/
def firstLine (text : Text) : Text := text.takeWhile fun c => decide (c ∉ newLine)

/-- The rest, which is empty or begins with a line end. -/
def afterLine (text : Text) : Text := text.dropWhile fun c => decide (c ∉ newLine)

/-- Each line that the loop of `parseHeader` steps over is followed by two characters. -/
inductive HeaderTerminated : Text → Prop
  | nil : HeaderTerminated []
  | noColon {text : Text} (hne : firstLine text ≠ []) (hcolon : ':' ∉ firstLine text) :
      HeaderTerminated text
  | blank {text rest : Text} {c d : Char} (hempty : firstLine text = [])
      (hafter : afterLine text = c :: d :: rest) : HeaderTerminated text
  | line {text rest : Text} {c d : Char} (hcolon : ':' ∈ firstLine text)
      (hafter : afterLine text = c :: d :: rest) (hrest : HeaderTerminated rest) :
      HeaderTerminated text

/-- The lines of which the loop of `parseHeader` makes strings: those with a `:` before the first
line without one. -/
inductive LoopLine : Text → Text → Prop
  | here {text : Text} (hcolon : ':' ∈ firstLine text) : LoopLine text (firstLine text)
  | later {text rest line : Text} {c d : Char} (hcolon : ':' ∈ firstLine text)
      (hafter : afterLine text = c :: d :: rest) (hrest : LoopLine rest line) : LoopLine text line

section
variable {before text rest : Text} {c d : Char} {request : HttpRequest}

/-- The first line and what comes after it are the text. -/
theorem firstLine_append_afterLine (text : Text) : firstLine text ++ afterLine text = text :=
  List.takeWhile_append_dropWhile

/-- The first line has no character of a line end in it. -/
theorem firstLine_freeOf (text : Text) : FreeOf newLine (firstLine text) := by
  intro c hc
  have h := List.mem_takeWhile_imp (p := fun c => decide (c ∉ newLine)) hc
  exact of_decide_eq_true h

/-- What follows the first line is a line end. -/
theorem mem_newLine_of_afterLine {c : Char} {rest : Text} (h : afterLine text = c :: rest) :
    c ∈ newLine := by
  have hhead := List.head_dropWhile_not (fun c => decide (c ∉ newLine)) (l := text)
    (by show afterLine text ≠ []; rw [h]; exact List.cons_ne_nil _ _)
  have hc : (afterLine text).head (by rw [h]; exact List.cons_ne_nil _ _) = c := by
    simp only [h, List.head_cons]
  have hc' : decide (c ∉ newLine) = false := hc ▸ hhead
  exact not_not.mp (of_decide_eq_false hc')

/-- The loop finds the first line of what is left of `_buffer`. -/
theorem lineAt_firstLine (before text : Text) :
    LineAt (before ++ text) before.length (firstLine text) := by
  have hsplit := firstLine_append_afterLine text
  cases hafter : afterLine text with
  | nil =>
    rw [hafter, List.append_nil] at hsplit
    have h := lineAt_last before (firstLine_freeOf text)
    rwa [hsplit] at h ⊢
  | cons c rest =>
    rw [hafter] at hsplit
    have h := lineAt_append before rest (firstLine_freeOf text)
      (mem_newLine_of_afterLine hafter)
    rwa [hsplit] at h

/-- A line with a `:` is not empty. -/
theorem firstLine_ne_nil (hcolon : ':' ∈ firstLine text) : firstLine text ≠ [] :=
  List.ne_nil_of_mem hcolon

/-- The lengths when two characters follow the line. -/
theorem length_of_afterLine (hafter : afterLine text = c :: d :: rest) :
    text.length = (firstLine text).length + 2 + rest.length := by
  have hlength := congrArg List.length (firstLine_append_afterLine text)
  rw [hafter, List.length_append, List.length_cons, List.length_cons] at hlength
  omega

/-- A line end ends the first line. -/
theorem firstLine_eq {line : Text} (hline : FreeOf newLine line) (hc : c ∈ newLine) (rest : Text) :
    firstLine (line ++ c :: rest) = line ∧ afterLine (line ++ c :: rest) = c :: rest := by
  have hfree : ∀ x ∈ line, decide (x ∉ newLine) = true :=
    fun x hx => decide_eq_true (hline x hx)
  constructor
  · rw [firstLine, List.takeWhile_append_of_pos hfree, List.takeWhile_cons_of_neg (by simpa using hc),
      List.append_nil]
  · rw [afterLine, List.dropWhile_append_of_pos hfree, List.dropWhile_cons_of_neg (by simpa using hc)]

/-- A line end first makes the line empty. -/
theorem firstLine_empty (hc : c ∈ newLine) (rest : Text) : firstLine (c :: rest) = [] :=
  List.takeWhile_cons_of_neg (by simpa using hc)

/-- A line that something follows stays as it is when something is added. -/
theorem firstLine_append (hafter : afterLine text = c :: rest) (more : Text) :
    firstLine (text ++ more) = firstLine text ∧ afterLine (text ++ more) = c :: (rest ++ more) := by
  have hsplit : text ++ more = firstLine text ++ c :: (rest ++ more) := by
    conv_lhs => rw [← firstLine_append_afterLine text, hafter, List.append_assoc, List.cons_append]
  rw [hsplit]
  exact firstLine_eq (firstLine_freeOf text) (mem_newLine_of_afterLine hafter) _

/-- An empty line stays empty when something is added. -/
theorem firstLine_append_empty (htext : text ≠ []) (hempty : firstLine text = []) (more : Text) :
    firstLine (text ++ more) = [] := by
  cases hafter : afterLine text with
  | nil =>
    have hsplit := firstLine_append_afterLine text
    rw [hempty, hafter] at hsplit
    exact absurd hsplit.symm htext
  | cons c rest => rw [(firstLine_append hafter more).1, hempty]

/-- A line end ends the first line at the latest. -/
theorem afterLine_append (hc : c ∈ newLine) (front : Text) :
    afterLine (front ++ c :: rest) = afterLine front ++ c :: rest := by
  unfold afterLine
  rw [List.dropWhile_append, List.dropWhile_cons_of_neg (by simpa using hc)]
  split
  · rename_i hempty
    rw [List.isEmpty_iff.mp hempty, List.nil_append]
  · rfl

/-! ### The cursor behind a line -/

/-- Where the loop goes on after a line. -/
theorem step_over (before : Text) (hafter : afterLine text = c :: d :: rest) :
    before ++ text = (before ++ firstLine text ++ [c, d]) ++ rest ∧
      before.length + (firstLine text).length + 2
        = (before ++ firstLine text ++ [c, d]).length := by
  refine ⟨?_, ?_⟩
  · conv_lhs => rw [← firstLine_append_afterLine text, hafter]
    simp
  · simp [Nat.add_assoc]

/-- When two characters follow the line, the cursor stays inside `_buffer` as it steps over them. -/
theorem step_inside (before : Text) (hafter : afterLine text = c :: d :: rest) :
    before.length + (firstLine text).length + 2 ≤ (before ++ text).length := by
  obtain ⟨hbuffer, hpos⟩ := step_over before hafter
  rw [hpos, congrArg List.length hbuffer]
  exact (List.prefix_append _ rest).length_le

/-- Without two characters behind a line the loop gets behind `_buffer`. -/
theorem step_outside (before : Text) (hafter : ∀ c d rest, afterLine text ≠ c :: d :: rest) :
    (before ++ text).length < before.length + (firstLine text).length + 2 := by
  have hsplit := congrArg List.length (firstLine_append_afterLine text)
  rw [List.length_append] at hsplit ⊢
  have hshort : (afterLine text).length < 2 := by
    match h : afterLine text with
    | [] => exact Nat.zero_lt_two
    | [_] => exact Nat.one_lt_two
    | c :: d :: rest => exact absurd h (hafter c d rest)
  omega

/-- The cursor behind a line is inside `_buffer` exactly if two characters follow the line. -/
theorem step_inside_iff (before text : Text) :
    before.length + (firstLine text).length + 2 ≤ (before ++ text).length ↔
      ∃ c d rest, afterLine text = c :: d :: rest := by
  constructor
  · intro hinside
    by_contra hnone
    have hout := step_outside before fun c d rest hafter => hnone ⟨c, d, rest, hafter⟩
    omega
  · rintro ⟨c, d, rest, hafter⟩
    exact step_inside before hafter

/-- A line that the loop steps over is followed by two characters, and so on behind them. -/
theorem HeaderTerminated.step (h : HeaderTerminated text) (htext : text ≠ [])
    (hstep : firstLine text = [] ∨ ':' ∈ firstLine text) :
    ∃ c d rest, afterLine text = c :: d :: rest ∧
      (':' ∈ firstLine text → HeaderTerminated rest) := by
  cases h with
  | nil => exact absurd rfl htext
  | noColon hne hcolon => exact absurd hstep (not_or.mpr ⟨hne, hcolon⟩)
  | blank hempty hafter =>
    rw [hempty]
    exact ⟨_, _, _, hafter, fun hcolon => absurd hcolon List.not_mem_nil⟩
  | line hcolon hafter hrest => exact ⟨_, _, _, hafter, fun _ => hrest⟩

/-- An empty line needs two characters behind it. -/
theorem headerTerminated_blank_iff (htext : text ≠ []) (hempty : firstLine text = []) :
    HeaderTerminated text ↔ ∃ c d rest, afterLine text = c :: d :: rest := by
  constructor
  · intro h
    obtain ⟨c, d, rest, hafter, -⟩ := h.step htext (Or.inl hempty)
    exact ⟨c, d, rest, hafter⟩
  · rintro ⟨c, d, rest, hafter⟩
    exact .blank hempty hafter

/-- A header line hands the condition on to the text behind the two characters. -/
theorem headerTerminated_line_iff (hcolon : ':' ∈ firstLine text)
    (hafter : afterLine text = c :: d :: rest) : HeaderTerminated text ↔ HeaderTerminated rest := by
  refine ⟨fun h => ?_, .line hcolon hafter⟩
  have htext : text ≠ [] := by
    rintro rfl
    cases hcolon
  obtain ⟨c', d', rest', hafter', hrest⟩ := h.step htext (Or.inr hcolon)
  rw [hafter] at hafter'
  obtain ⟨-, -, rfl⟩ : c = c' ∧ d = d' ∧ rest = rest' := by simpa using hafter'
  exact hrest hcolon

/-- A text that begins with a line end is terminated, if two characters are there. -/
theorem headerTerminated_of_newLine (hc : c ∈ newLine) : HeaderTerminated (c :: d :: rest) :=
  .blank (List.takeWhile_cons_of_neg (by simpa using hc))
    (List.dropWhile_cons_of_neg (by simpa using hc))

/-- The two characters behind the first line, and a rest that is terminated. -/
def SteppedOver (text : Text) : Prop :=
  ∃ c d rest, afterLine text = c :: d :: rest ∧ HeaderTerminated rest

/-- A line that is stepped over, with a rest that is terminated. -/
theorem SteppedOver.headerTerminated (h : SteppedOver text) : HeaderTerminated text := by
  obtain ⟨c, d, rest, hafter, hrest⟩ := h
  by_cases hempty : firstLine text = []
  · exact .blank hempty hafter
  · by_cases hcolon : ':' ∈ firstLine text
    · exact .line hcolon hafter hrest
    · exact .noColon hempty hcolon

/-- Where an empty line comes, the loop does not get past it. -/
theorem steppedOver_of_blank (front back : Text) :
    SteppedOver (front ++ '\r' :: '\n' :: '\r' :: '\n' :: back) := by
  induction hlength : front.length using Nat.strong_induction_on generalizing front with
  | _ n ih =>
    have hshorter := congrArg List.length (firstLine_append_afterLine front)
    rw [List.length_append] at hshorter
    rw [SteppedOver, afterLine_append List.mem_cons_self]
    -- what of the line end before the empty line is left, behind the first line
    match h : afterLine front with
    | [] => exact ⟨_, _, _, rfl, headerTerminated_of_newLine List.mem_cons_self⟩
    | [c] => exact ⟨_, _, _, rfl, headerTerminated_of_newLine (by decide)⟩
    | c :: d :: front' =>
      rw [h, List.length_cons, List.length_cons] at hshorter
      exact ⟨_, _, _, rfl, (ih front'.length (by omega) front' rfl).headerTerminated⟩

/-! ### The empty line -/

/-- The loop of `parseHeader` comes to an empty line, if it is not stopped before that. -/
inductive HeaderFound : Text → Prop
  | blank {text : Text} (htext : text ≠ []) (hempty : firstLine text = []) : HeaderFound text
  | line {text rest : Text} {c d : Char} (hcolon : ':' ∈ firstLine text)
      (hafter : afterLine text = c :: d :: rest) (hrest : HeaderFound rest) : HeaderFound text

/-- A text with an empty line in it is not empty. -/
theorem HeaderFound.ne_nil (h : HeaderFound text) : text ≠ [] := by
  cases h with
  | blank htext hempty => exact htext
  | line hcolon hafter hrest =>
    rintro rfl
    cases hcolon

/-- The empty line stays there when something is added. -/
theorem HeaderFound.append (h : HeaderFound text) (more : Text) : HeaderFound (text ++ more) := by
  induction h with
  | @blank text htext hempty =>
    exact .blank (fun hnil => htext (List.append_eq_nil_iff.mp hnil).1)
      (firstLine_append_empty htext hempty more)
  | @line text rest c d hcolon hafter hrest ih =>
    obtain ⟨hline, hafter'⟩ := firstLine_append hafter more
    exact .line (hline ▸ hcolon) hafter' ih

/-! ### The key and the value -/

/-- The strings for a line that has a `:`. -/
theorem headerStrings_colon {key value : Text} (hkey : ':' ∉ key) :
    headerStrings (key ++ ':' :: value) = [key, value.dropWhile (· = ' ')] := by
  rw [headerStrings, keyText, valueText, takeWhile_ne hkey, dropWhile_ne hkey, List.tail_cons]

/-- What follows the leading spaces of a text, and where. -/
theorem spans_dropSpaces {buffer value : Text} {pos endPos : Nat}
    (h : Spans buffer pos endPos value) :
    Spans buffer (findIf (· ≠ ' ') buffer pos endPos) endPos (value.dropWhile (· = ' ')) := by
  have hpos : findIf (· ≠ ' ') buffer pos endPos
      = pos + (value.takeWhile (· = ' ')).length := by
    rw [findIf, h.slice, List.takeWhile_eq_take_findIdx_not, List.length_take,
      Nat.min_eq_left List.findIdx_le_length]
    simp only [decide_not]
  rw [hpos]
  refine Spans.right ?_
  rw [List.takeWhile_append_dropWhile]
  exact h

/-- The request after header lines. All keys and values are empty, so there is one header at most,
and it is there if there was a line before the empty one. -/
def withHeaders (text : Text) (request : HttpRequest) : HttpRequest :=
  if firstLine text = [] then request else { request with headers := [([], [])] }

/-- A header line puts the empty key in. -/
theorem insertHeader_eq (h : request.headers = [] ∨ request.headers = [([], [])]) :
    request.insertHeader [] [] = { request with headers := [([], [])] } := by
  rw [HttpRequest.insertHeader, toLower_eq_nil, emplace_nil h]

/-- The loop ends, and leaves the cursor inside `_buffer`. -/
def LoopInside (buffer : Text) (result : Option (Bool × Nat × HttpRequest)) : Prop :=
  ∃ found pos request, result = some (found, pos, request) ∧ pos ≤ buffer.length

/-- The result of a loop that ends. -/
theorem loopInside_some {buffer : Text} {found : Bool} {pos : Nat} :
    LoopInside buffer (some (found, pos, request)) ↔ pos ≤ buffer.length := by
  constructor
  · rintro ⟨_, _, _, ⟨⟩, h⟩
    exact h
  · intro h
    exact ⟨_, _, _, rfl, h⟩

/-- A loop without a result has not ended inside. -/
theorem not_loopInside_none {buffer : Text} : ¬LoopInside buffer none :=
  fun ⟨_, _, _, hnone, _⟩ => nomatch hnone

end

/-! ### The strings of the header lines -/

section
variable [StandardLibrary]

/-- The strings of each of these lines fit. -/
def HeaderFits (text : Text) : Prop := ∀ line, LoopLine text line → Fit (headerStrings line)

variable {before text rest : Text} {c d : Char} {request : HttpRequest}

/-- Without a `:` in the first line no strings are made. -/
theorem headerFits_of_not_mem (hcolon : ':' ∉ firstLine text) : HeaderFits text := by
  intro line hline
  cases hline with
  | here h => exact absurd h hcolon
  | later h _ _ => exact absurd h hcolon

/-- The strings of the first line fit, if the loop gets to them. -/
theorem HeaderFits.first (h : HeaderFits text) (hcolon : ':' ∈ firstLine text) :
    Fit (headerStrings (firstLine text)) :=
  h _ (.here hcolon)

/-- A header line hands the condition on to the text behind the two characters. -/
theorem headerFits_line_iff (hcolon : ':' ∈ firstLine text)
    (hafter : afterLine text = c :: d :: rest) :
    HeaderFits text ↔ Fit (headerStrings (firstLine text)) ∧ HeaderFits rest := by
  refine ⟨fun h => ⟨h.first hcolon, fun line hline => h line (.later hcolon hafter hline)⟩, ?_⟩
  rintro ⟨hfirst, hrest⟩ line hline
  cases hline with
  | here _ => exact hfirst
  | later _ hafter' hline =>
    rw [hafter] at hafter'
    cases hafter'
    exact hrest line hline

/-! ### The loop -/

/-- The loop does not end behind `_buffer`: the code goes on to read from there. -/
theorem headerLoop_outside {buffer : Text} {pos : Nat} (h : buffer.length < pos) (fuel : Nat) :
    headerLoop buffer buffer.length fuel pos request = none := by
  cases fuel with
  | zero => rw [headerLoop, if_neg h.ne']
  | succ fuel => rw [headerLoop, if_neg h.ne', if_pos h]

/-- One pass of the loop. The strings that `getString` returns are empty, and it returns them if they
fit. -/
theorem headerLoop_pass (htext : text ≠ []) (fuel : Nat) :
    headerLoop (before ++ text) (before ++ text).length (fuel + 1) before.length request
      = if firstLine text = [] then some (true, before.length + 2, request)
        else if ':' ∈ firstLine text then
          if Fit (headerStrings (firstLine text)) then
            headerLoop (before ++ text) (before ++ text).length fuel
              (before.length + (firstLine text).length + 2) (request.insertHeader [] [])
          else none
        else some (false, before.length, request) := by
  have hline := lineAt_firstLine before text
  have hlength : before.length < (before ++ text).length := by
    rw [List.length_append]
    have := List.length_pos_iff.mpr htext
    omega
  rw [headerLoop, if_neg hlength.ne, if_neg (by omega)]
  simp only [hline.lineEnd]
  by_cases hempty : firstLine text = []
  · rw [hempty, if_pos (show before.length + [].length = before.length from rfl), if_pos rfl]
  · have hpos := List.length_pos_iff.mpr hempty
    rw [if_neg (by omega), if_neg hempty]
    -- the colon is in the line or nowhere
    rcases split_at ':' (firstLine text) with hnone | ⟨front, back, hsplit, hfront⟩
    · rw [find_eq_endPos hline.spans hnone, if_pos rfl, if_neg hnone]
    · have hspans := hline.spans
      rw [hsplit] at hspans ⊢
      have hend := hspans.behind.pos_le
      rw [find_eq hspans hfront, if_neg (by omega),
        if_pos (List.mem_append_right _ List.mem_cons_self), headerStrings_colon hfront,
        getString_spans hspans.left, getString_spans (spans_dropSpaces hspans.behind),
        if_congr fit_pair rfl rfl]
      by_cases hkeyFits : front.length ≤ StandardLibrary.emptyCapacity
      · rw [if_pos hkeyFits, if_congr (and_iff_right hkeyFits) rfl rfl]
        split
        · rfl
        · rfl
      · -- the key overruns first, and the value is not reached
        have hpair : ¬(front.length ≤ StandardLibrary.emptyCapacity ∧
            (back.dropWhile (· = ' ')).length ≤ StandardLibrary.emptyCapacity) :=
          fun h => hkeyFits h.1
        rw [if_neg hkeyFits, if_neg hpair]
        rfl

/-- The loop stays inside `_buffer` exactly if each line that it steps over is followed by two
characters, and the strings of each of these lines fit. -/
theorem headerLoop_inside_iff (fuel : Nat) (hfuel : text.length ≤ fuel) :
    LoopInside (before ++ text)
        (headerLoop (before ++ text) (before ++ text).length fuel before.length request) ↔
      HeaderTerminated text ∧ HeaderFits text := by
  induction fuel generalizing before text request with
  | zero =>
    obtain rfl := List.eq_nil_of_length_eq_zero (Nat.le_zero.mp hfuel)
    rw [headerLoop, if_pos (by simp), loopInside_some]
    exact iff_of_true (by simp) ⟨.nil, headerFits_of_not_mem List.not_mem_nil⟩
  | succ fuel ih =>
    by_cases htext : text = []
    · subst htext
      rw [headerLoop, if_pos (by simp), loopInside_some]
      exact iff_of_true (by simp) ⟨.nil, headerFits_of_not_mem List.not_mem_nil⟩
    · rw [headerLoop_pass htext]
      by_cases hempty : firstLine text = []
      · -- an empty line: the cursor steps over it, and the loop ends
        have hfits : HeaderFits text := headerFits_of_not_mem (by rw [hempty]; exact List.not_mem_nil)
        rw [if_pos hempty, loopInside_some, and_iff_left hfits,
          headerTerminated_blank_iff htext hempty, ← step_inside_iff before, hempty]
        rfl
      · rw [if_neg hempty]
        by_cases hcolon : ':' ∈ firstLine text
        · rw [if_pos hcolon]
          by_cases hfit : Fit (headerStrings (firstLine text))
          · rw [if_pos hfit]
            -- two characters behind the line let the loop go on with the rest
            by_cases hafter : ∃ c d rest, afterLine text = c :: d :: rest
            · obtain ⟨c, d, rest, hafter⟩ := hafter
              obtain ⟨hbuffer, hpos⟩ := step_over before hafter
              have hrest : rest.length ≤ fuel := by
                have hlength := congrArg List.length (firstLine_append_afterLine text)
                rw [hafter] at hlength
                simp only [List.length_append, List.length_cons] at hlength
                omega
              rw [hpos, hbuffer, ih hrest, headerTerminated_line_iff hcolon hafter,
                headerFits_line_iff hcolon hafter, and_iff_right hfit]
            · -- the cursor gets behind `_buffer`, and the test for the end misses it
              have hout := step_outside before fun c d rest h => hafter ⟨c, d, rest, h⟩
              rw [headerLoop_outside hout]
              refine iff_of_false not_loopInside_none fun h => hafter ?_
              obtain ⟨c, d, rest, h', -⟩ := h.1.step htext (Or.inr hcolon)
              exact ⟨c, d, rest, h'⟩
          · -- a string of this line is written behind its memory
            rw [if_neg hfit]
            exact iff_of_false not_loopInside_none fun h => hfit (h.2.first hcolon)
        · rw [if_neg hcolon, loopInside_some]
          refine iff_of_true ?_ ⟨.noColon hempty hcolon, headerFits_of_not_mem hcolon⟩
          rw [List.length_append]
          exact Nat.le_add_right _ _

/-- `parseHeader` on the rest of `_buffer`. -/
theorem parseHeader_inside_iff (before : Text) (request : HttpRequest) : LoopInside (before ++ text)
    (parseHeader (before ++ text) before.length (before ++ text).length request) ↔
      HeaderTerminated text ∧ HeaderFits text := by
  refine headerLoop_inside_iff _ ?_
  rw [List.length_append]
  omega

/-- If the loop ends, the strings that it has made fit. -/
theorem headerFits_of_headerLoop {fuel : Nat} {result : Bool × Nat × HttpRequest}
    (h : headerLoop (before ++ text) (before ++ text).length fuel before.length request
      = some result) : HeaderFits text := by
  by_cases hcolon : ':' ∈ firstLine text
  · have htext : text ≠ [] := by
      rintro rfl
      cases hcolon
    induction fuel generalizing before text request with
    | zero =>
      have hlength := List.length_pos_iff.mpr htext
      rw [headerLoop, if_neg (by rw [List.length_append]; omega)] at h
      cases h
    | succ fuel ih =>
      rw [headerLoop_pass htext, if_neg (firstLine_ne_nil hcolon), if_pos hcolon] at h
      by_cases hfit : Fit (headerStrings (firstLine text))
      · rw [if_pos hfit] at h
        by_cases hafter : ∃ c d rest, afterLine text = c :: d :: rest
        · obtain ⟨c, d, rest, hafter⟩ := hafter
          obtain ⟨hbuffer, hpos⟩ := step_over before hafter
          rw [hpos, hbuffer] at h
          refine (headerFits_line_iff hcolon hafter).mpr ⟨hfit, ?_⟩
          by_cases hcolon' : ':' ∈ firstLine rest
          · exact ih h hcolon' fun hnil => absurd hcolon' (by rw [hnil]; exact List.not_mem_nil)
          · exact headerFits_of_not_mem hcolon'
        · have hout := step_outside before fun c d rest h => hafter ⟨c, d, rest, h⟩
          rw [headerLoop_outside hout] at h
          cases h
      · rw [if_neg hfit] at h
        cases h
  · exact headerFits_of_not_mem hcolon

/-- `parseHeader` on an empty line. -/
theorem parseHeader_empty (htext : text ≠ []) (hempty : firstLine text = []) :
    parseHeader (before ++ text) before.length (before ++ text).length request
      = some (true, before.length + 2, request) := by
  have hfuel : (before ++ text).length - before.length = (text.length - 1) + 1 := by
    have := List.length_pos_iff.mpr htext
    rw [List.length_append]
    omega
  rw [parseHeader, hfuel, headerLoop_pass htext, if_pos hempty]

/-! ### The header lines in the request -/

/-- Where there is an empty line, and the strings before it fit, the loop returns true. -/
theorem HeaderFound.headerLoop_eq (h : HeaderFound text) (hfits : HeaderFits text) (before : Text)
    (fuel : Nat) (hfuel : text.length ≤ fuel)
    (hheaders : request.headers = [] ∨ request.headers = [([], [])]) :
    ∃ pos, headerLoop (before ++ text) (before ++ text).length fuel before.length request
      = some (true, pos, withHeaders text request) := by
  induction h generalizing before fuel request with
  | @blank text htext hempty =>
    have hlength := List.length_pos_iff.mpr htext
    obtain ⟨fuel, rfl⟩ := Nat.exists_eq_add_one.mpr (lt_of_lt_of_le hlength hfuel)
    rw [headerLoop_pass htext, if_pos hempty, withHeaders, if_pos hempty]
    exact ⟨_, rfl⟩
  | @line text rest c d hcolon hafter hrest ih =>
    obtain ⟨hfit, hfits⟩ := (headerFits_line_iff hcolon hafter).mp hfits
    have hlength := length_of_afterLine hafter
    obtain ⟨fuel, rfl⟩ := Nat.exists_eq_add_one.mpr (show 0 < fuel by omega)
    have htext : text ≠ [] := (HeaderFound.line hcolon hafter hrest).ne_nil
    obtain ⟨hbuffer, hpos⟩ := step_over before hafter
    have hinserted : (request.insertHeader [] []).headers = [] ∨
        (request.insertHeader [] []).headers = [([], [])] := by
      rw [insertHeader_eq hheaders]
      exact Or.inr rfl
    obtain ⟨pos, hrun⟩ := ih hfits (before ++ firstLine text ++ [c, d]) fuel (by omega)
      hinserted
    rw [headerLoop_pass htext, if_neg (firstLine_ne_nil hcolon), if_pos hcolon, if_pos hfit, hpos,
      hbuffer, hrun]
    refine ⟨pos, ?_⟩
    rw [withHeaders, withHeaders, insertHeader_eq hheaders, if_neg (firstLine_ne_nil hcolon), ite_self]

/-- Where the loop returns true, there is an empty line. -/
theorem headerFound_of_headerLoop {fuel pos : Nat} {request' : HttpRequest}
    (h : headerLoop (before ++ text) (before ++ text).length fuel before.length request
      = some (true, pos, request')) : HeaderFound text := by
  induction fuel generalizing before text request with
  | zero =>
    rw [headerLoop] at h
    split at h
    · cases h
    · cases h
  | succ fuel ih =>
    by_cases htext : text = []
    · subst htext
      rw [headerLoop, if_pos (by simp)] at h
      cases h
    · rw [headerLoop_pass htext] at h
      by_cases hempty : firstLine text = []
      · exact .blank htext hempty
      · rw [if_neg hempty] at h
        by_cases hcolon : ':' ∈ firstLine text
        · rw [if_pos hcolon] at h
          by_cases hfit : Fit (headerStrings (firstLine text))
          · rw [if_pos hfit] at h
            -- the loop has gone on behind the line, or it has left `_buffer`
            by_cases hafter : ∃ c d rest, afterLine text = c :: d :: rest
            · obtain ⟨c, d, rest, hafter⟩ := hafter
              obtain ⟨hbuffer, hpos⟩ := step_over before hafter
              rw [hpos, hbuffer] at h
              exact .line hcolon hafter (ih h)
            · have hout := step_outside before fun c d rest h => hafter ⟨c, d, rest, h⟩
              rw [headerLoop_outside hout] at h
              cases h
          · rw [if_neg hfit] at h
            cases h
        · rw [if_neg hcolon] at h
          cases h

/-- `parseHeader` returns true where there is an empty line, and the strings before it fit. -/
theorem parseHeader_found (before : Text) (h : HeaderFound text) (hfits : HeaderFits text)
    (request : HttpRequest)
    (hheaders : request.headers = [] ∨ request.headers = [([], [])]) :
    ∃ pos, parseHeader (before ++ text) before.length (before ++ text).length request
      = some (true, pos, withHeaders text request) := by
  refine h.headerLoop_eq hfits before _ ?_ hheaders
  rw [List.length_append]
  omega

/-- What the loop makes of the request. -/
theorem parseHeader_true {pos : Nat} {request' : HttpRequest}
    (hheaders : request.headers = [] ∨ request.headers = [([], [])])
    (h : parseHeader (before ++ text) before.length (before ++ text).length request
      = some (true, pos, request')) : HeaderFound text ∧ request' = withHeaders text request := by
  have hfound := headerFound_of_headerLoop h
  obtain ⟨pos', hcall⟩ := parseHeader_found before hfound (headerFits_of_headerLoop h) request hheaders
  rw [h] at hcall
  exact ⟨hfound, (Prod.mk.inj (Prod.mk.inj (Option.some.inj hcall)).2).2⟩

end

end Brutils.Proofs.Http
