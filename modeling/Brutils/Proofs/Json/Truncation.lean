import Brutils.Json.Document
import Brutils.Proofs.Json.Acceptance
import Brutils.Proofs.Json.Termination

/-!
# `Brutils.Proofs.Json.Truncation`: how the parser reports an incomplete text

`input.at(0)` throws where the text is at its end, and nothing between it and the caller of `parse`
catches that. So `parse` throws on the empty text, and on every text that the reader comes to the
end of while it needs a character (`MeetsEnd`). These are the texts that open a container and have
no end for it (`endsInside_iff`). `reports_malformed_iff` says when a text is reported by an
invalid variant, as it should be: when it does not end inside a container and, if it is a part of
a document, no break is hidden in it.

A text that is accepted and hides no break is balanced. A part of a document that ends before
the last bracket is not: the brackets of a document are `Nested`, by induction over the document.
-/

set_option autoImplicit false

namespace Brutils.Proofs.Json

open Machine (HaltsAt Halts)
open Brackets (Nested)
open Brutils.JsonParser
open Brutils.JsonReader
open Brutils.LenientJson
open Document (quoted IsWhitespace HasJsonText splitEmpty StringBody Truncated)

/-! ### The text outside the strings -/

section
variable {s t : Text}

/-- The text outside the strings is read from the left. -/
theorem outside_prefix (inside : Bool) (h : s <+: t) : outside inside s <+: outside inside t := by
  obtain ⟨x, rfl⟩ := h
  induction inside, s using outside.induct with
  | case1 inside => cases inside <;> exact List.nil_prefix
  | case2 s ih => simpa [outside] using ih
  | case3 c s hc ih =>
    rw [List.cons_append, outside_cons hc, outside_cons hc]
    exact (List.prefix_cons_inj c).mpr ih
  -- a backslash takes the next character with it, in both texts
  | case4 c s ih => exact ih
  | case5 s hback ih => simpa [outside] using ih
  | case6 c s hback hc ih =>
    by_cases hc' : c = '\\'
    · -- a backslash at the end of the first text
      have hs : s = [] := by
        cases s with
        | nil => rfl
        | cons d s => exact absurd rfl (hback d s hc')
      rw [hs, hc']
      exact List.nil_prefix
    · rw [List.cons_append, outside_true_cons hc hc', outside_true_cons hc hc']
      exact ih

/-- The digits of an escape are passed over. -/
theorem outside_hexDigits (hs : ∀ c ∈ s, Document.IsHexDigit c) (t : Text) :
    outside true (s ++ t) = outside true t := by
  induction s with
  | nil => rfl
  | cons c s ih =>
    have hc := hs c List.mem_cons_self
    have hquote : c ≠ '"' := by
      rintro rfl
      exact absurd hc (by unfold Document.IsHexDigit; decide)
    have hback : c ≠ '\\' := by
      rintro rfl
      exact absurd hc (by unfold Document.IsHexDigit; decide)
    rw [List.cons_append, outside_true_cons hquote hback]
    exact ih fun c hc => hs c (List.mem_cons_of_mem _ hc)

/-- A string that the grammar allows ends where `outside` says. -/
theorem outside_stringBody (h : StringBody s) (t : Text) :
    outside true (s ++ '"' :: t) = outside false t := by
  induction h with
  | nil => simp [outside]
  | char hquote hback _ _ ih => rw [List.cons_append, outside_true_cons hquote hback, ih]
  | escape _ _ ih => exact ih
  | @unicode digits s _ hdigits _ ih =>
    show outside true ((digits ++ s) ++ '"' :: t) = outside false t
    rw [List.append_assoc, outside_hexDigits hdigits, ih]

/-! ### Texts with their own brackets -/

/-- A text that begins and ends outside the strings and whose brackets match each other. -/
structure Neat (s : Text) : Prop where
  outside_append : ∀ t, outside false (s ++ t) = outside false s ++ outside false t
  nested : Nested bracketKind (outside false s)

/-- Two neat texts in a row. -/
theorem Neat.append (hs : Neat s) (ht : Neat t) : Neat (s ++ t) where
  outside_append u := by
    rw [List.append_assoc, hs.outside_append, ht.outside_append, hs.outside_append,
      List.append_assoc]
  nested := by
    rw [hs.outside_append]
    exact hs.nested.append ht.nested

/-- Plain characters are outside the strings, and the text after them is looked at afresh. -/
theorem outside_plain (hs : ∀ c ∈ s, IsPlain c) (t : Text) :
    outside false (s ++ t) = s ++ outside false t := by
  induction s with
  | nil => rfl
  | cons c s ih =>
    rw [List.cons_append, outside_cons (hs c List.mem_cons_self).1,
      ih fun c hc => hs c (List.mem_cons_of_mem _ hc)]
    rfl

/-- Plain characters are all outside the strings. -/
theorem outside_of_plain (hs : ∀ c ∈ s, IsPlain c) : outside false s = s := by
  have hnil := outside_plain hs []
  rwa [List.append_nil, outside, List.append_nil] at hnil

/-- Plain characters bring no bracket and no quote. -/
theorem neat_of_plain (hs : ∀ c ∈ s, IsPlain c) : Neat s where
  outside_append t := by rw [outside_plain hs, outside_of_plain hs]
  nested := by
    rw [outside_of_plain hs]
    exact Brackets.nested_of_neutral fun c hc => (hs c hc).2

/-- White space is neat. -/
theorem neat_blank (hs : ∀ c ∈ s, IsWhitespace c) : Neat s := by
  refine neat_of_plain fun c hc => ?_
  rcases hs c hc with rfl | rfl | rfl | rfl <;> decide

/-- A string of the grammar is neat: whatever brackets are in it do not count. -/
theorem neat_quoted (hs : StringBody s) : Neat (quoted s) := by
  have hliteral : ∀ t, outside false (quoted s ++ t) = outside false t := by
    intro t
    rw [quoted, List.cons_append, List.append_assoc]
    show outside true (s ++ '"' :: t) = outside false t
    exact outside_stringBody hs t
  have hnone : outside false (quoted s) = [] := by
    rw [← List.append_nil (quoted s), hliteral, outside]
  exact ⟨fun t => by rw [hliteral, hnone, List.nil_append], by rw [hnone]; exact .nil⟩

/-- A bracket is no quote. -/
theorem ne_quote_of_bracket {c : Char} (h : bracketKind c ≠ .neutral) : c ≠ '"' := by
  rintro rfl
  exact h rfl

/-- The brackets around a neat text are outside the strings. -/
theorem Neat.outside_bracketed {o z : Char} {frame : Frame} (hs : Neat s)
    (ho : bracketKind o = .opening frame) (hz : bracketKind z = .closing frame) (t : Text) :
    outside false (o :: s ++ [z] ++ t) = o :: outside false s ++ [z] ++ outside false t := by
  have ho' : o ≠ '"' := ne_quote_of_bracket (by simp [ho])
  have hz' : z ≠ '"' := ne_quote_of_bracket (by simp [hz])
  rw [List.append_assoc, List.cons_append, outside_cons ho', hs.outside_append,
    List.singleton_append, outside_cons hz']
  simp

/-- A neat text between two brackets of one kind. -/
theorem Neat.bracketed {o z : Char} {frame : Frame} (hs : Neat s)
    (ho : bracketKind o = .opening frame) (hz : bracketKind z = .closing frame) :
    Neat (o :: s ++ [z]) := by
  have hbracketed : outside false (o :: s ++ [z]) = o :: outside false s ++ [z] := by
    have hnil := hs.outside_bracketed ho hz []
    rwa [List.append_nil, outside, List.append_nil] at hnil
  refine ⟨fun t => by rw [hbracketed, hs.outside_bracketed ho hz], ?_⟩
  rw [hbracketed]
  exact hs.nested.bracketed ho hz

end

/-! ### Documents -/

section
variable {s : Text}

/-- A text of a container: between white space, something neat between two brackets that match. -/
def Enclosed (s : Text) : Prop :=
  ∃ a o m z b frame, s = a ++ (o :: m ++ [z]) ++ b ∧ (∀ c ∈ a, IsWhitespace c) ∧
    (∀ c ∈ b, IsWhitespace c) ∧ bracketKind o = .opening frame ∧ bracketKind z = .closing frame ∧
    Neat m

/-- The text of a container is neat. -/
theorem Enclosed.neat (h : Enclosed s) : Neat s := by
  obtain ⟨a, o, m, z, b, frame, rfl, ha, hb, ho, hz, hm⟩ := h
  exact ((neat_blank ha).append (hm.bracketed ho hz)).append (neat_blank hb)

/-- All texts of the document are neat. -/
def NeatDocument (document : Document) : Prop := ∀ s, document.HasJsonText s → Neat s

/-- A token that is no empty array is one token of the grammar. -/
theorem flatMap_splitEmpty_cons {t : Text} (ht : t ≠ "[]".toList) (ts : List Text) :
    (t :: ts).flatMap splitEmpty = t :: ts.flatMap splitEmpty := by
  rw [List.flatMap_cons, splitEmpty, if_neg ht, List.singleton_append]

/-- A string is not an empty array. -/
theorem quoted_ne_empty (s : Text) : quoted s ≠ "[]".toList := by
  simp [quoted]

/-- A token that is not split stays one. -/
theorem flatMap_splitEmpty_singleton {t : Text} (ht : t ≠ "[]".toList) :
    [t].flatMap splitEmpty = [t] :=
  flatMap_splitEmpty_cons ht []

/-- One token between white space. -/
theorem neat_token {t : Text} (ht : Neat t) (h : Spaced IsWhitespace [t] s) : Neat s := by
  obtain ⟨a, b, rfl, ha, hb⟩ := h.exists_singleton
  exact ((neat_blank ha).append ht).append (neat_blank hb)

/-- A comma is neat. -/
theorem neat_comma : Neat [','] := neat_of_plain (List.forall_mem_singleton.mpr (by decide))

/-- A colon is neat. -/
theorem neat_colon : Neat [':'] := neat_of_plain (List.forall_mem_singleton.mpr (by decide))

/-- The items of an array behind its opening bracket. -/
theorem neat_items {d : Document} {ds : List Document} (hneat : ∀ e ∈ d :: ds, NeatDocument e)
    (h : Spaced IsWhitespace (d.jsonTokens ++ (Document.itemTokens ds).flatMap splitEmpty) s) :
    ∃ m b, s = m ++ [']'] ++ b ∧ Neat m ∧ ∀ c ∈ b, IsWhitespace c := by
  induction ds generalizing d s with
  | nil =>
    obtain ⟨x, b, rfl, hx, hb⟩ := h.exists_separated
    exact ⟨x, b, rfl, hneat d List.mem_cons_self x hx, hb.forall_mem⟩
  | cons d' ds ih =>
    rw [Document.itemTokens, flatMap_splitEmpty_cons (by decide), List.flatMap_append] at h
    obtain ⟨x, r, rfl, hx, hr⟩ := h.exists_separated
    obtain ⟨m, b, rfl, hm, hb⟩ := ih (fun e he => hneat e (List.mem_cons_of_mem _ he)) hr
    have hd := hneat d List.mem_cons_self x hx
    exact ⟨x ++ [','] ++ m, b, by simp, (hd.append neat_comma).append hm, hb⟩

/-- A member of an object. -/
theorem neat_member {d : Text × Document} (hkey : StringBody d.1) (hvalue : NeatDocument d.2)
    (h : Spaced IsWhitespace (quoted d.1 :: [':'] :: d.2.jsonTokens) s) : Neat s := by
  obtain ⟨a, r, rfl, ha, hr⟩ := h.exists_cons
  obtain ⟨b, t, rfl, hb, ht⟩ := hr.exists_cons
  exact ((neat_blank ha).append (neat_quoted hkey)).append
    (((neat_blank hb).append neat_colon).append (hvalue t ht))

/-- The members of an object behind its opening bracket. -/
theorem neat_members {d : Text × Document} {ds : List (Text × Document)}
    (hkeys : ∀ e ∈ d :: ds, StringBody e.1) (hneat : ∀ e ∈ d :: ds, NeatDocument e.2)
    (h : Spaced IsWhitespace (quoted d.1 :: [':'] ::
      (d.2.jsonTokens ++ (Document.memberTokens ds).flatMap splitEmpty)) s) :
    ∃ m b, s = m ++ ['}'] ++ b ∧ Neat m ∧ ∀ c ∈ b, IsWhitespace c := by
  have hfirst : ∀ x, Spaced IsWhitespace (quoted d.1 :: [':'] :: d.2.jsonTokens) x → Neat x :=
    fun x => neat_member (hkeys d List.mem_cons_self) (hneat d List.mem_cons_self)
  -- the tokens of the first member come before the other ones
  rw [← List.cons_append, ← List.cons_append] at h
  induction ds generalizing d s with
  | nil =>
    obtain ⟨x, b, rfl, hx, hb⟩ := h.exists_separated
    exact ⟨x, b, rfl, hfirst x hx, hb.forall_mem⟩
  | cons d' ds ih =>
    rw [Document.memberTokens, flatMap_splitEmpty_cons (by decide),
      flatMap_splitEmpty_cons (quoted_ne_empty _), flatMap_splitEmpty_cons (by decide),
      List.flatMap_append] at h
    obtain ⟨x, r, rfl, hx, hr⟩ := h.exists_separated
    have hkeys' : ∀ e ∈ d' :: ds, StringBody e.1 := fun e he => hkeys e (List.mem_cons_of_mem _ he)
    have hneat' : ∀ e ∈ d' :: ds, NeatDocument e.2 :=
      fun e he => hneat e (List.mem_cons_of_mem _ he)
    obtain ⟨m, b, rfl, hm, hb⟩ := ih hkeys' hneat' hr fun x =>
      neat_member (hkeys' d' List.mem_cons_self) (hneat' d' List.mem_cons_self)
    exact ⟨x ++ [','] ++ m, b, by simp, ((hfirst x hx).append neat_comma).append hm, hb⟩

/-- A text of an array. -/
theorem enclosed_array {items : List Document} (hneat : ∀ d ∈ items, NeatDocument d)
    (h : (Document.array items).HasJsonText s) : Enclosed s := by
  unfold HasJsonText Document.jsonTokens at h
  cases items with
  | nil =>
    -- there may be white space between the two brackets
    have hpair : Spaced IsWhitespace [['['], [']']] s := h
    obtain ⟨a, r, rfl, ha, hr⟩ := hpair.exists_cons
    obtain ⟨b, c, rfl, hb, hc⟩ := hr.exists_singleton
    exact ⟨a, '[', b, ']', c, .array, by simp, ha, hc, by decide, by decide, neat_blank hb⟩
  | cons d ds =>
    rw [Document.tokens, flatMap_splitEmpty_cons (by decide), List.flatMap_append] at h
    obtain ⟨a, r, rfl, ha, hr⟩ := h.exists_cons
    obtain ⟨m, b, rfl, hm, hb⟩ := neat_items hneat hr
    exact ⟨a, '[', m, ']', b, .array, by simp, ha, hb, by decide, by decide, hm⟩

/-- A text of an object. -/
theorem enclosed_object {members : List (Text × Document)}
    (hkeys : ∀ e ∈ members, StringBody e.1) (hneat : ∀ e ∈ members, NeatDocument e.2)
    (h : (Document.object members).HasJsonText s) : Enclosed s := by
  unfold HasJsonText Document.jsonTokens at h
  cases members with
  | nil =>
    have hpair : Spaced IsWhitespace [['{'], ['}']] s := h
    obtain ⟨a, r, rfl, ha, hr⟩ := hpair.exists_cons
    obtain ⟨b, c, rfl, hb, hc⟩ := hr.exists_singleton
    exact ⟨a, '{', b, '}', c, .object, by simp, ha, hc, by decide, by decide, neat_blank hb⟩
  | cons d ds =>
    rw [Document.tokens, flatMap_splitEmpty_cons (by decide),
      flatMap_splitEmpty_cons (quoted_ne_empty _), flatMap_splitEmpty_cons (by decide),
      List.flatMap_append] at h
    obtain ⟨a, r, rfl, ha, hr⟩ := h.exists_cons
    obtain ⟨m, b, rfl, hm, hb⟩ := neat_members hkeys hneat hr
    exact ⟨a, '{', m, '}', b, .object, by simp, ha, hb, by decide, by decide, hm⟩

/-- A number has neither brackets nor quotes. -/
theorem isPlain_of_isNumberChar {c : Char} (h : NumberToken.IsNumberChar c) : IsPlain c := by
  rcases h with hdigit | rfl | rfl | rfl | rfl | rfl
  · exact isPlain_of_isDigit hdigit
  · decide
  · decide
  · decide
  · decide
  · decide

/-- The brackets of a document match each other. -/
theorem neatDocument {document : Document} (h : document.WellFormed) : NeatDocument document := by
  induction h with
  | null =>
    intro s hs
    exact neat_token (neat_of_plain (List.forall_iff_forall_mem.mp (by decide))) hs
  | bool val =>
    intro s hs
    cases val with
    | true => exact neat_token (neat_of_plain (List.forall_iff_forall_mem.mp (by decide))) hs
    | false => exact neat_token (neat_of_plain (List.forall_iff_forall_mem.mp (by decide))) hs
  | number token =>
    intro s hs
    have hne : token.text ≠ "[]".toList := by
      intro heq
      have hchar := token.isNumberChar_text '[' (by rw [heq]; decide)
      exact absurd hchar (by unfold NumberToken.IsNumberChar; decide)
    rw [HasJsonText, Document.jsonTokens, Document.tokens, flatMap_splitEmpty_singleton hne] at hs
    exact neat_token (neat_of_plain fun c hc => isPlain_of_isNumberChar
      (token.isNumberChar_text c hc)) hs
  | string val hval =>
    intro s hs
    rw [HasJsonText, Document.jsonTokens, Document.tokens,
      flatMap_splitEmpty_singleton (quoted_ne_empty val)] at hs
    exact neat_token (neat_quoted hval) hs
  | array items _ ih => exact fun s hs => (enclosed_array ih hs).neat
  | object members hkeys _ ih => exact fun s hs => (enclosed_object hkeys ih hs).neat

/-- A text of an array or of an object. -/
theorem enclosed_of_isContainer {document : Document} (h : document.WellFormed)
    (hcontainer : document.isContainer) (hs : document.HasJsonText s) : Enclosed s := by
  cases h with
  | null => cases hcontainer
  | bool => cases hcontainer
  | number => cases hcontainer
  | string => cases hcontainer
  | array items hitems => exact enclosed_array (fun d hd => neatDocument (hitems d hd)) hs
  | object members hkeys hmembers =>
    exact enclosed_object hkeys (fun e he => neatDocument (hmembers e he)) hs

/-- A part of a document with a bracket in it is not balanced. -/
theorem not_balanced_of_truncated (h : Truncated s)
    (hbracket : ∃ c ∈ outside false s, bracketKind c ≠ .neutral) : ¬Balanced s := by
  obtain ⟨document, hwell, hcontainer, body, c, hc, htext, hprefix⟩ := h
  obtain ⟨a, o, m, z, b, frame, heq, ha, hb, ho, hz, hm⟩ :=
    enclosed_of_isContainer hwell hcontainer htext
  -- there is no white space behind the last bracket
  have hb' : b = [] := by
    rcases List.eq_nil_or_concat b with rfl | ⟨b', d, rfl⟩
    · rfl
    · rw [List.concat_eq_append, ← List.append_assoc] at heq
      have hd := (List.append_inj_right' heq rfl)
      rw [List.concat_eq_append] at hb
      exact absurd (hb d (by simp)) (by rwa [← List.head_eq_of_cons_eq hd])
  rw [hb', List.append_nil, ← List.append_assoc] at heq
  have hbody := List.append_inj_left' heq rfl
  have hplain : ∀ c ∈ a, IsPlain c := fun c hc => by
    rcases ha c hc with rfl | rfl | rfl | rfl <;> decide
  have houtside : outside false body = a ++ o :: outside false m := by
    rw [hbody, outside_plain hplain, outside_cons (ne_quote_of_bracket (by simp [ho]))]
  -- so what is outside the strings of the part ends before the last bracket, too
  have hle := outside_prefix false hprefix
  rw [houtside] at hle
  exact hm.nested.not_balanced ho (fun c hc => (hplain c hc).2) hle hbracket

end

/-! ### The result -/

/-- The reader comes to the end of the text where it needs a character. -/
def MeetsEnd (txt : Text) : Prop := Halts step (start txt) (.stuck .endOfText)

/-- `parse` returns, and what it returns for an incomplete document is invalid. -/
def ReportsMalformed (txt : Text) : Prop :=
  ∃ n, ∀ fuel ≥ n, ∃ v failed, parse fuel txt = .ok (v, failed) ∧
    (Truncated txt → v.isValid = false)

section
variable {txt : Text}

/-- A text that opens a container begins with a bracket. -/
theorem front_of_opens (h : OpensContainer txt) :
    ∃ d s, skipSpace txt = d :: s ∧ bracketKind d ≠ .neutral := by
  obtain ⟨d, s, hskip, hd⟩ := h
  refine ⟨d, s, hskip, ?_⟩
  rcases hd with rfl | rfl <;> decide

/-- So it has one outside its strings. -/
theorem bracket_of_opens (h : OpensContainer txt) :
    ∃ d ∈ outside false txt, bracketKind d ≠ .neutral := by
  obtain ⟨d, s, hskip, hd⟩ := front_of_opens h
  have hspace : ∀ c ∈ txt.takeWhile isSpace, IsPlain c :=
    fun c hc => isPlain_of_isSpace (List.mem_takeWhile_imp hc)
  have htxt : txt = txt.takeWhile isSpace ++ d :: s := by
    rw [← hskip, skipSpace, List.takeWhile_append_dropWhile]
  refine ⟨d, ?_, hd⟩
  rw [htxt, outside_plain hspace, outside_cons (ne_quote_of_bracket hd)]
  simp

/-- An incomplete document that is accepted is one that hides a break. -/
theorem hidesBreak_of_truncated (h : Truncated txt) {fuel : Nat} {v : Variant}
    {failed : List Routine} (hparse : parse fuel txt = .ok (v, failed)) (hvalid : v.isValid = true) :
    HidesBreak txt := by
  rw [← swallowsFailure_iff]
  have hagrees := parse_follows fuel txt
  rw [hparse] at hagrees
  rcases hagrees with ⟨rfl, -, -⟩ | ⟨c, hc, -, hend⟩
  · cases hvalid
  · refine ⟨c, hc, hend.mp hvalid, ?_⟩
    -- without a failure the text would be balanced
    by_contra hfailed
    exact not_balanced_of_truncated h (bracket_of_opens (opens_of_finished hc))
      (balanced_of_finished hc (hend.mp hvalid) hfailed)

/-- On a text on which `parse` finishes, the reader comes to the end exactly if the text ends
inside a container, or has none. -/
theorem endsInside_iff (hfinishes : Finishes txt) : EndsInside txt ↔ MeetsEnd txt := by
  constructor
  · rintro (hblank | ⟨hopens, hnone⟩)
    · refine .now ?_
      show stepRoot [] (skipSpace txt) = _
      rw [hblank, stepRoot]
    -- the reader is stuck in the container, and the end of the text is the only reason left
    · have hnot : ¬∃ rest counts broken, Lenient .value (skipSpace txt) rest counts broken := by
        rintro ⟨rest, counts, broken, h⟩
        exact hnone rest counts broken h
      obtain ⟨reason, hhalts⟩ := (reads_or_stuck _ (skipSpace txt) le_rfl).1.resolve_left hnot [] []
      have hhalts := hhalts.of_reaches (reaches_value hopens)
      have hreason : reason = .endOfText := by
        by_contra hne
        exact not_finishes_of_stuck hne hhalts hfinishes
      rwa [hreason] at hhalts
  · rintro ⟨c, hc⟩
    by_cases hblank : skipSpace txt = []
    · exact Or.inl hblank
    obtain ⟨d, s, hskip⟩ := List.exists_cons_of_ne_nil hblank
    have hopens : OpensContainer txt := by
      refine ⟨d, s, hskip, ?_⟩
      by_contra hd
      have hstep : step (start txt) = stepRoot [] (skipSpace txt) := rfl
      rw [hskip, stepRoot, if_neg hd] at hstep
      cases (hc.unique ⟨.refl _, hstep⟩).2
    refine Or.inr ⟨hopens, fun rest counts broken h => ?_⟩
    obtain ⟨failed, -, hhalts⟩ := finishes_of_lenient hopens h
    cases (hc.unique hhalts).2

/-- A text on which `parse` finishes is reported as it should be exactly if it is not one that ends
inside a container, and no part of a document that hides a break. -/
theorem reports_malformed_iff (hfinishes : Finishes txt) :
    ReportsMalformed txt ↔ ¬EndsInside txt ∧ ¬(Truncated txt ∧ HidesBreak txt) := by
  rw [endsInside_iff hfinishes, ← swallowsFailure_iff]
  constructor
  · rintro ⟨n, hn⟩
    refine ⟨fun hend => ?_, ?_⟩
    -- at the end of the text `parse` throws
    · obtain ⟨v, failed, hparse, -⟩ := hn n le_rfl
      rcases parse_of_stuck n hend with herror | herror
      · exact nomatch hparse.symm.trans herror
      · exact nomatch hparse.symm.trans herror
    -- a swallowed failure makes the variant valid
    · rintro ⟨htruncated, c, hc, hend, -⟩
      have hfuel : txt.length < max n (txt.length + 1) := by omega
      obtain ⟨v, hparse, hvalid⟩ := parse_of_finished hc hfuel
      obtain ⟨v', failed, hparse', hinvalid⟩ := hn _ (le_max_left n (txt.length + 1))
      have hv : v = v' := (Prod.mk.inj (Except.ok.inj (hparse.symm.trans hparse'))).1
      have hvalid' := hvalid.mpr hend
      rw [hv, hinvalid htruncated] at hvalid'
      cases hvalid'
  · rintro ⟨hend, hswallows⟩
    obtain ⟨n, hn⟩ := hfinishes
    refine ⟨max n (txt.length + 1), fun fuel hfuel => ?_⟩
    rcases hn fuel (by omega) with ⟨⟨v, failed⟩, hparse⟩ | hthrow
    · refine ⟨v, failed, hparse, fun htruncated => ?_⟩
      by_contra hvalid
      have hhides := hidesBreak_of_truncated htruncated hparse (by simpa using hvalid)
      exact hswallows ⟨htruncated, (swallowsFailure_iff txt).mpr hhides⟩
    -- only the end of the text makes it throw
    · obtain ⟨reason, hreason, hstuck⟩ := parse_bounded (by omega) hthrow
      cases reason with
      | endOfText => exact absurd hstuck hend
      | tooLong => cases hreason
      | spins => cases hreason

end

-- the white space is no element, so the inner array breaks off, and `]` closes the outer one
example : parse 5 "[[ ]".toList = .ok (.list [.list []], [.parseArray, .parseLiteral]) := rfl

-- `[["` ends inside a string, and `]` closes the outer array as the parser reads it
example : parse 5 "[[\"]".toList = .ok (.list [.list []], [.parseArray, .parseString]) := rfl

/-- The result on a text that ends in a key: it is reported. -/
theorem reports_malformed_unterminated_key : ReportsMalformed "\x7b\"a".toList := by
  have hrun : ∀ fuel, parse (fuel + 2) "\x7b\"a".toList
      = .ok (.invalid, [.parseObject, .parseString]) := fun fuel => rfl
  have hfinishes : Finishes "\x7b\"a".toList := by
    refine ⟨2, fun fuel hfuel => Or.inl ?_⟩
    obtain ⟨fuel, rfl⟩ : ∃ k, fuel = k + 2 := ⟨fuel - 2, by omega⟩
    exact ⟨_, hrun fuel⟩
  have hhalts : HaltsAt step (start "\x7b\"a".toList)
      ⟨.back true, [], ['a'], [.parseObject, .parseString]⟩ .finished :=
    ⟨.head rfl (.head rfl (.single rfl)), rfl⟩
  refine (reports_malformed_iff hfinishes).mpr ⟨fun hends => ?_, ?_⟩
  · obtain ⟨c, hc⟩ := (endsInside_iff hfinishes).mp hends
    exact nomatch (hc.unique hhalts).2
  · rintro ⟨-, hhides⟩
    obtain ⟨c, hc, hend, -⟩ := (swallowsFailure_iff _).mpr hhides
    obtain ⟨rfl, -⟩ := hc.unique hhalts
    cases hend

/-- `parse` throws on the empty text. -/
theorem empty_text_throws : Finishes [] ∧ Truncated [] ∧ ¬ReportsMalformed [] := by
  have hthrow : ∀ fuel, parse fuel [] = .error .outOfRange := fun fuel => rfl
  refine ⟨⟨0, fun fuel _ => Or.inr (hthrow fuel)⟩, ?_, ?_⟩
  · refine ⟨.array [], .array [] nofun, rfl, ['['], ']', by simp [IsWhitespace], ?_,
      List.nil_prefix⟩
    have hnone : ∀ c ∈ ([] : Text), IsWhitespace c := nofun
    exact .cons hnone (.cons hnone (.nil hnone))
  · rintro ⟨n, hn⟩
    obtain ⟨v, failed, hparse, -⟩ := hn n le_rfl
    exact nomatch hparse.symm.trans (hthrow n)

end Brutils.Proofs.Json
