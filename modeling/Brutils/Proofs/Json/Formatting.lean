import Brutils.Proofs.Json.BrokenArrays
import Brutils.Proofs.Json.Reading
import Mathlib.Data.Bool.AllAny

/-!
# `Brutils.Proofs.Json.Formatting`: whether white space changes the meaning

`genArray` writes an empty list over two lines unless it is told to be compact, and
`parseArray` looks for the closing bracket before it removes white space. So it takes the
bracket for an element that it cannot read. `formatting_keeps_iff` says that this is all that
can go wrong with a plain list or map, apart from strings that are too long for an `int`.

`readable_of_accepted` is the reason. At the first thing in the text that is not read back the
reader cannot go on, or an array breaks off (`breaks_of_not_readable`). No array breaks off in
an accepted text whose brackets match, and those of a generated text do (`neutral_genValue`).
-/

set_option autoImplicit false

namespace Brutils.Proofs.Json

open Machine (Reaches HaltsAt)
open Brutils.JsonParser
open Brutils.JsonGenerator
open Brutils.JsonReader
open Variant (Occurs occurs_list occurs_map)

/-! ### The brackets of a generated text -/

/-- A text whose brackets and quotes match, whatever comes after it. -/
def Neutral (s : Text) : Prop :=
  ∀ rest, arrayDepth (s ++ rest) = arrayDepth rest ∧ (EvenQuotes (s ++ rest) ↔ EvenQuotes rest)

section
variable {s t : Text}

/-- What the reader passes is neutral. -/
theorem neutral_of_passes (h : ∀ rest, Passes (s ++ rest) rest) : Neutral s :=
  fun rest => ⟨(h rest).arrayDepth_eq, (h rest).evenQuotes⟩

/-- Plain characters are neutral. -/
theorem neutral_of_plain (hs : ∀ c ∈ s, IsPlain c) : Neutral s := by
  refine neutral_of_passes fun rest => ?_
  induction s with
  | nil => exact .refl rest
  | cons c s ih =>
    exact .char (hs c List.mem_cons_self) (ih fun d hd => hs d (List.mem_cons_of_mem c hd))

/-- A clean string is neutral with its quotes. The brackets in it do not count. -/
theorem neutral_genString (hs : Clean s) : Neutral (genString (.string s)) := by
  refine neutral_of_passes fun rest => ?_
  rw [genString_eq]
  simp only [List.cons_append, List.append_assoc, List.nil_append]
  exact .literal hs (.refl rest)

/-- Two neutral texts in a row. -/
theorem Neutral.append (hs : Neutral s) (ht : Neutral t) : Neutral (s ++ t) := by
  intro rest
  rw [List.append_assoc]
  exact ⟨(hs _).1.trans (ht rest).1, (hs _).2.trans (ht rest).2⟩

/-- White space is neutral. -/
theorem neutral_getWhiteSpace (compact : Bool) (depth : Nat) :
    Neutral (getWhiteSpace compact depth) :=
  neutral_of_plain fun c hc => isPlain_of_isSpace (isSpace_getWhiteSpace compact depth c hc)

/-- The text of the items of a container, up to its closing bracket. -/
theorem neutral_write {α : Type} {code : α → Text} {as : List α} (compact : Bool) (depth : Nat)
    (bracket : Char) (has : ∀ a ∈ as, Neutral (code a)) :
    ∃ body, ItemList.write code [',', ' '] (closing compact depth bracket) as = body ++ [bracket] ∧
      Neutral body := by
  have hsep : Neutral [',', ' '] := neutral_of_plain (List.all_iff_forall_prop.mp rfl)
  induction as with
  | nil => exact ⟨_, rfl, neutral_getWhiteSpace compact depth⟩
  | cons a as ih =>
    have ha := has a List.mem_cons_self
    obtain ⟨body, hbody, hneutral⟩ := ih fun b hb => has b (List.mem_cons_of_mem a hb)
    cases as with
    | nil => exact ⟨code a ++ getWhiteSpace compact depth, by simp [closing],
        ha.append (neutral_getWhiteSpace compact depth)⟩
    | cons b as =>
      refine ⟨code a ++ ([',', ' '] ++ body), ?_, ha.append (hsep.append hneutral)⟩
      rw [ItemList.write_cons, ItemList.tail_cons, hbody]
      simp

/-- Square brackets around a neutral text match each other. -/
theorem neutral_list (hs : Neutral s) : Neutral ('[' :: (s ++ [']'])) := by
  intro rest
  obtain ⟨hdepth, heven⟩ := hs (']' :: rest)
  have htext : '[' :: (s ++ [']']) ++ rest = '[' :: (s ++ ']' :: rest) := by simp
  rw [htext]
  refine ⟨?_, (evenQuotes_cons (by decide) _).trans
    (heven.trans (evenQuotes_cons (by decide) rest))⟩
  rw [arrayDepth_cons (by decide), hdepth, arrayDepth_cons (by decide)]
  simp

/-- Braces around a neutral text match each other. -/
theorem neutral_map (hs : Neutral s) : Neutral ('{' :: (s ++ ['}'])) := by
  intro rest
  obtain ⟨hdepth, heven⟩ := hs ('}' :: rest)
  have htext : '{' :: (s ++ ['}']) ++ rest = '{' :: (s ++ '}' :: rest) := by simp
  rw [htext]
  refine ⟨?_, (evenQuotes_cons (by decide) _).trans
    (heven.trans (evenQuotes_cons (by decide) rest))⟩
  rw [arrayDepth_cons (by decide), hdepth, arrayDepth_cons (by decide)]
  simp

end

/-- The text of a plain variant is neutral. -/
theorem neutral_genValue {v : Variant} (hv : Plain v) (compact : Bool) (depth : Nat) :
    Neutral (genValue v compact depth) := by
  induction hv generalizing depth with
  | bool b =>
    rw [genValue_bool]
    cases b with
    | true => exact neutral_of_plain (s := "true".toList) (List.all_iff_forall_prop.mp rfl)
    | false => exact neutral_of_plain (s := "false".toList) (List.all_iff_forall_prop.mp rfl)
  | string s hclean =>
    rw [genValue_string]
    exact neutral_genString hclean
  | list vs hvs ih =>
    have helements : ∀ v ∈ vs, Neutral (genElement compact (depth + 1) v) := fun v hv =>
      (neutral_getWhiteSpace compact (depth + 1)).append (ih v hv (depth + 1))
    obtain ⟨body, hbody, hneutral⟩ := neutral_write compact depth ']' helements
    rw [genValue_list, elementsText, hbody]
    exact neutral_list hneutral
  | map es hkeys hes ih =>
    have hentries : ∀ e ∈ es, Neutral (genEntry compact (depth + 1) e) := fun e he =>
      (((neutral_getWhiteSpace compact (depth + 1)).append (neutral_genString (hkeys e he))).append
        (neutral_of_plain (List.all_iff_forall_prop.mp rfl))).append (ih e he (depth + 1))
    obtain ⟨body, hbody, hneutral⟩ := neutral_write compact depth '}' hentries
    rw [genValue_map, membersText, hbody]
    exact neutral_map hneutral

/-! ### The first place that is not read back -/

/-- The reader cannot go on, or an array has broken off. -/
def Broken (c : Config) : Prop := step c = .error (.stuck .tooLong) ∨ .parseArray ∈ c.failed

/-- The reader comes to such a place. -/
def Breaks (c : Config) : Prop := ∃ d, Reaches step c d ∧ Broken d

/-- A reader that comes to a configuration from where it breaks, breaks itself. -/
theorem Breaks.of_reaches {c d : Config} (h : Breaks d) (hcd : Reaches step c d) : Breaks c := by
  obtain ⟨e, hde, he⟩ := h
  exact ⟨e, hcd.trans hde, he⟩

/-- The same for one step. -/
theorem Breaks.head {c d : Config} (h : Breaks d) (hcd : step c = .ok d) : Breaks c :=
  h.of_reaches (.single hcd)

section
variable {compact : Bool} {depth : Nat} {stack : List Frame} {l : List Routine} {v : Variant}
  {rest : Text}

/-- The text of a value begins with no white space. -/
theorem skipSpace_genValue (hv : isWritten v) (compact : Bool) (depth : Nat) (rest : Text) :
    skipSpace (genValue v compact depth ++ rest) = genValue v compact depth ++ rest := by
  obtain ⟨s, hs⟩ := genValue_opener hv compact depth
  rw [hs]
  exact skipSpace_cons_of_not (beginsValue_opener v).isSpace _

/-- The reader goes past a readable value. -/
theorem reaches_of_readable (hv : Readable compact v) (stack : List Frame) (depth : Nat)
    (hrest : EndsWord rest) (l : List Routine) :
    ∃ l', Reaches step ⟨.value, stack, genValue v compact depth ++ rest, l⟩
      ⟨.back true, stack, skipSpace rest, l'⟩ := by
  have hreads : ReadsText False compact depth ((genValue v compact depth).length + 1) v :=
    genValue_reads hv False.elim depth _
  obtain ⟨l', hout, -⟩ := hreads (Nat.lt_succ_self _) rest l hrest
  obtain ⟨hfollows, -⟩ := parseValue_follows ((genValue v compact depth).length + 1) stack
    (genValue v compact depth ++ rest) l
  rw [hout, skipSpace_genValue hv.isWritten] at hfollows
  have hreach : Reaches step ⟨.value, stack, genValue v compact depth ++ rest, l⟩
      ⟨.back v.isValid, stack, skipSpace (skipSpace rest), l'⟩ := hfollows.1
  rw [isValid_of_isWritten hv.isWritten, skipSpace_skipSpace] at hreach
  exact ⟨l', hreach⟩

/-- What comes after an item ends a word. -/
theorem endsWord_tail {α : Type} (code : α → Text) (compact : Bool) (depth : Nat) {bracket : Char}
    (hbracket : bracket.isAlpha = false) (as : List α) (rest : Text) :
    EndsWord (ItemList.tail code [',', ' '] (closing compact depth bracket) as ++ rest) := by
  cases as with
  | nil =>
    rw [ItemList.tail_nil, closing, List.append_assoc]
    exact EndsWord.append ⟨bracket, rest, rfl, hbracket⟩ (isSpace_getWhiteSpace compact depth)
  | cons a as => exact ⟨',', _, rfl, rfl⟩

end

/-! ### Containers -/

/-- The reader breaks at every value that is not read back. -/
def BreaksAt (compact : Bool) (depth : Nat) (v : Variant) : Prop :=
  ¬Readable compact v → ∀ stack rest l,
    Breaks ⟨.value, stack, genValue v compact depth ++ rest, l⟩

section
variable {compact : Bool} {depth : Nat} {vs : VariantList} {es : VariantMap} {rest x : Text}

/-- The step from the front of an element to the element. -/
theorem step_element {v : Variant} (hv : isWritten v) (stack : List Frame) (l : List Routine)
    (hx : skipSpace x = genValue v compact depth ++ rest) :
    step ⟨.elements, stack, x, l⟩
      = .ok ⟨.value, .array :: stack, genValue v compact depth ++ rest, l⟩ := by
  obtain ⟨s, hs⟩ := genValue_opener hv compact depth
  cases x with
  | nil =>
    rw [hs] at hx
    cases hx
  | cons d x =>
    -- the closing bracket is neither white space nor the first character of a value
    have hd : d ≠ ']' := by
      rintro rfl
      rw [skipSpace_cons_of_not rfl, hs] at hx
      exact (beginsValue_opener v).ne_bracket (List.cons.inj hx).1.symm
    simp only [step, stepElements, if_neg hd, Except.mapError, hx]

/-- The elements of a list, the first of which may have its white space removed. -/
theorem elements_break (hwritten : ∀ v ∈ vs, isWritten v)
    (hbreaks : ∀ v ∈ vs, BreaksAt compact (depth + 1) v) (h : ∃ v ∈ vs, ¬Readable compact v)
    (stack : List Frame) (l : List Routine)
    (hx : skipSpace x = skipSpace (elementsText compact depth vs ++ rest)) :
    Breaks ⟨.elements, stack, x, l⟩ := by
  induction vs generalizing x l with
  | nil =>
    obtain ⟨v, hv, -⟩ := h
    exact absurd hv List.not_mem_nil
  | cons v vs ih =>
    have hv := hwritten v List.mem_cons_self
    have hends := endsWord_tail (genElement compact (depth + 1)) compact depth
      (rfl : ']'.isAlpha = false) vs rest
    rw [elementsText, ItemList.write_cons, genElement, List.append_assoc, List.append_assoc,
      skipSpace_append (isSpace_getWhiteSpace compact (depth + 1)), skipSpace_genValue hv] at hx
    have hstep := step_element hv stack l hx
    by_cases hread : Readable compact v
    · obtain ⟨l', hreach⟩ := reaches_of_readable hread (.array :: stack) (depth + 1) hends l
      obtain ⟨w, hw, hnot⟩ := h
      cases vs with
      | nil =>
        rw [List.mem_singleton.mp hw] at hnot
        exact absurd hread hnot
      | cons w' vs =>
        -- the comma leads to the next element
        have hnext := ih (fun v hv => hwritten v (List.mem_cons_of_mem _ hv))
          (fun v hv => hbreaks v (List.mem_cons_of_mem _ hv)) ?_ l' (skipSpace_skipSpace _)
        · exact (hnext.head rfl).of_reaches (hreach.head hstep)
        · rcases List.mem_cons.mp hw with rfl | hw
          · exact absurd hread hnot
          · exact ⟨w, hw, hnot⟩
    · exact (hbreaks v List.mem_cons_self hread _ _ _).head hstep

/-- The step over a key and its colon. -/
theorem step_key {key : Text} (hkey : Clean key) (hlen : key.length + 1 < intLimit)
    (stack : List Frame) (l : List Routine) (s : Text) :
    step ⟨.members, stack, '"' :: (key ++ '"' :: ':' :: s), l⟩
      = .ok ⟨.value, .object :: stack, skipSpace s, l⟩ := by
  have hkeyed : stepMembers stack l ('"' :: (key ++ '"' :: ':' :: s))
      = stepKey stack l (key ++ '"' :: ':' :: s) := rfl
  have hcolon : skipSpace (':' :: s) = ':' :: s := skipSpace_cons_of_not rfl s
  simp only [step, hkeyed, stepKey, readString_clean hkey hlen, bind, Except.bind, hcolon, if_true,
    Except.mapError]

/-- A key that is too long for an `int`. -/
theorem step_longKey {key : Text} (hkey : Clean key) (hlen : ¬key.length + 1 < intLimit)
    (stack : List Frame) (l : List Routine) (s : Text) :
    step ⟨.members, stack, '"' :: (key ++ '"' :: s), l⟩ = .error (.stuck .tooLong) := by
  have hkeyed : stepMembers stack l ('"' :: (key ++ '"' :: s))
      = stepKey stack l (key ++ '"' :: s) := rfl
  simp only [step, hkeyed, stepKey, readString_long hkey hlen]
  rfl

/-- The text of a member without the white space in front. -/
theorem skipSpace_membersText (e : Text × Variant) (es : VariantMap) (rest : Text) :
    skipSpace (membersText compact depth (e :: es) ++ rest)
      = '"' :: (e.1 ++ '"' :: ':' :: ' ' :: (genValue e.2 compact (depth + 1) ++
        (ItemList.tail (genEntry compact (depth + 1)) [',', ' '] (closing compact depth '}') es
          ++ rest))) := by
  rw [membersText, ItemList.write_cons, genEntry, genString_eq]
  simp only [List.append_assoc]
  rw [skipSpace_append (isSpace_getWhiteSpace compact (depth + 1))]
  simp [skipSpace_cons_of_not (show isSpace '"' = false from rfl)]

/-- The members of a map. -/
theorem members_break (hwritten : ∀ e ∈ es, Clean e.1 ∧ isWritten e.2)
    (hbreaks : ∀ e ∈ es, BreaksAt compact (depth + 1) e.2)
    (h : ∃ e ∈ es, e.1.length + 1 < intLimit → ¬Readable compact e.2) (stack : List Frame)
    (l : List Routine) :
    Breaks ⟨.members, stack, skipSpace (membersText compact depth es ++ rest), l⟩ := by
  induction es generalizing l with
  | nil =>
    obtain ⟨e, he, -⟩ := h
    exact absurd he List.not_mem_nil
  | cons e es ih =>
    obtain ⟨hkey, hv⟩ := hwritten e List.mem_cons_self
    have hends := endsWord_tail (genEntry compact (depth + 1)) compact depth
      (rfl : '}'.isAlpha = false) es rest
    rw [skipSpace_membersText]
    by_cases hlen : e.1.length + 1 < intLimit
    · have hstep := step_key hkey hlen stack l (' ' :: (genValue e.2 compact (depth + 1) ++
        (ItemList.tail (genEntry compact (depth + 1)) [',', ' '] (closing compact depth '}') es
          ++ rest)))
      have hspace : ∀ s, skipSpace (' ' :: s) = skipSpace s := fun s => rfl
      rw [hspace, skipSpace_genValue hv] at hstep
      by_cases hread : Readable compact e.2
      · obtain ⟨l', hreach⟩ := reaches_of_readable hread (.object :: stack) (depth + 1) hends l
        obtain ⟨e', he', hnot⟩ := h
        cases es with
        | nil =>
          rw [List.mem_singleton.mp he'] at hnot
          exact absurd hread (hnot hlen)
        | cons e'' es =>
          -- back in the map, and over the comma
          have hnext := ih (fun e he => hwritten e (List.mem_cons_of_mem _ he))
            (fun e he => hbreaks e (List.mem_cons_of_mem _ he)) ?_ l'
          · exact ((hnext.head rfl).head rfl).of_reaches (hreach.head hstep)
          · rcases List.mem_cons.mp he' with rfl | he'
            · exact absurd hread (hnot hlen)
            · exact ⟨e', he', hnot⟩
      · exact (hbreaks e List.mem_cons_self hread _ _ _).head hstep
    · exact ⟨_, .refl _, Or.inl (step_longKey hkey hlen stack l _)⟩

end

/-- A string that is too long for an `int`. -/
theorem string_breaks {s : Text} (hs : Clean s) (hlen : ¬s.length + 1 < intLimit) (compact : Bool)
    (depth : Nat) (stack : List Frame) (rest : Text) (l : List Routine) :
    Breaks ⟨.value, stack, genValue (.string s) compact depth ++ rest, l⟩ := by
  refine ⟨_, .refl _, Or.inl ?_⟩
  rw [genValue_string, genString_eq]
  simp only [List.cons_append, List.append_assoc, List.nil_append, step, stepValue, if_true,
    readString_long hs hlen]
  rfl

/-- An empty list over two lines: its bracket comes after white space, and it is no value. -/
theorem emptyList_breaks (depth : Nat) (stack : List Frame) (rest : Text) (l : List Routine) :
    Breaks ⟨.elements, stack, elementsText false depth [] ++ rest, l⟩ := by
  have hspace : ∀ s, skipSpace (']' :: s) = ']' :: s := skipSpace_cons_of_not rfl
  have hblank : skipSpace (elementsText false depth [] ++ rest) = ']' :: rest := by
    rw [elementsText, ItemList.write_nil, closing, List.append_assoc,
      skipSpace_append (isSpace_getWhiteSpace false depth)]
    exact hspace rest
  have hvalue : step ⟨.elements, stack, elementsText false depth [] ++ rest, l⟩
      = .ok ⟨.value, .array :: stack, ']' :: rest, l⟩ := by
    rw [← hblank]
    rfl
  have hback : step ⟨.value, .array :: stack, ']' :: rest, l⟩
      = .ok (afterValue (.array :: stack) (']' :: rest) (.parseLiteral :: l) false) := by
    simp [step, stepValue, Except.mapError]
  have hbroken : Breaks (afterValue (.array :: stack) (']' :: rest) (.parseLiteral :: l) false) :=
    ⟨_, .single rfl, Or.inr List.mem_cons_self⟩
  exact (hbroken.head hback).head hvalue

/-- At the first place of a plain variant that is not read back, the reader breaks. The
induction is on the variant, one case for each kind. -/
theorem breaks_of_not_readable {compact : Bool} {v : Variant} (hv : Plain v) (hordered : v.Ordered)
    (depth : Nat) : BreaksAt compact depth v := by
  induction hv generalizing depth with
  | bool b => exact fun hnot => absurd (.bool b) hnot
  | string s hclean =>
    intro hnot
    exact string_breaks hclean (fun hlen => hnot (.string s hclean hlen)) compact depth
  | list vs hvs ih =>
    intro hnot stack rest l
    rw [genValue_list]
    by_cases hempty : compact = false ∧ vs = []
    · -- the empty list over two lines breaks by itself
      obtain ⟨rfl, rfl⟩ := hempty
      exact (emptyList_breaks depth stack rest l).head rfl
    · cases hordered with
      | list _ hordered =>
        -- otherwise some element is not read back, and the first of them breaks
        have hexists : ∃ v ∈ vs, ¬Readable compact v := by
          by_contra hall
          push Not at hall
          exact hnot (.list vs (fun hc hnil => hempty ⟨hc, hnil⟩) hall)
        have hbreaks : Breaks ⟨.elements, stack, elementsText compact depth vs ++ rest, l⟩ :=
          elements_break (fun v hv => (hvs v hv).isWritten)
            (fun v hv => ih v hv (hordered v hv) (depth + 1)) hexists stack l rfl
        exact hbreaks.head rfl
  | map es hkeys hes ih =>
    intro hnot stack rest l
    rw [genValue_map]
    cases hordered with
    | map _ hsorted hordered =>
      -- in a map it is a key that is too long, or a value
      have hexists : ∃ e ∈ es, e.1.length + 1 < intLimit → ¬Readable compact e.2 := by
        by_contra hall
        push Not at hall
        exact hnot (.map es hsorted (fun e he => ⟨hkeys e he, (hall e he).1⟩)
          fun e he _ => (hall e he).2)
      have hbreaks :
          Breaks ⟨.members, stack, skipSpace (membersText compact depth es ++ rest), l⟩ :=
        members_break (fun e he => ⟨hkeys e he, (hes e he).isWritten⟩)
          (fun e he => ih e he (hordered e he) (depth + 1)) hexists stack l
      cases es with
      | nil =>
        obtain ⟨e, he, -⟩ := hexists
        exact absurd he List.not_mem_nil
      | cons e es =>
        refine hbreaks.head ?_
        simp [step, stepValue, skipSpace_membersText, Except.mapError]

/-! ### Accepted texts -/

section
variable {compact : Bool} {v w : Variant} {fuel : Nat} {failed : List Routine}

/-- The reader begins with the outermost value. -/
theorem start_generate (hroot : v.isMap ∨ v.isList) (compact : Bool) :
    step (start (generate v compact)) = .ok ⟨.value, [], generate v compact, []⟩ := by
  have hopen : ∀ c s, c = '{' ∨ c = '[' →
      step (start (c :: s)) = .ok ⟨.value, [], c :: s, []⟩ := by
    intro c s hc
    have hspace : skipSpace (c :: s) = c :: s := by
      rcases hc with rfl | rfl
      · exact skipSpace_cons_of_not rfl s
      · exact skipSpace_cons_of_not rfl s
    simp only [step, start, hspace, stepRoot, if_pos hc]
  unfold generate
  cases v with
  | list vs =>
    rw [genValue_list]
    exact hopen _ _ (Or.inr rfl)
  | map es =>
    rw [genValue_map]
    exact hopen _ _ (Or.inl rfl)
  | _ => exact absurd hroot (by simp [Variant.isMap, Variant.isList])

/-- A plain list or map whose text is accepted is read back from it. -/
theorem readable_of_accepted (hroot : v.isMap ∨ v.isList) (hplain : Plain v)
    (hordered : v.Ordered) (h : parse fuel (generate v compact) = .ok (w, failed))
    (hvalid : w.isValid = true) : Readable compact v := by
  by_contra hnot
  obtain ⟨d, hd, hbroken⟩ : Breaks (start (generate v compact)) := by
    have hbreaks := breaks_of_not_readable hplain hordered 0 hnot [] [] []
    rw [List.append_nil] at hbreaks
    exact hbreaks.head (start_generate hroot compact)
  have hagrees := parse_follows fuel (generate v compact)
  rw [h] at hagrees
  rcases hagrees with ⟨rfl, -, -⟩ | ⟨c, hc, rfl, hend⟩
  · cases hvalid
  · rcases hbroken with hstuck | hfailed
    · exact nomatch (hc.unique ⟨hd, hstuck⟩).2
    -- the failure is still there at the end, where none can be
    · have hlast : .parseArray ∈ c.failed :=
        (hd.of_haltsAt hc).induct (P := fun c => .parseArray ∈ c.failed) hfailed
          fun s t hs hstep => (step_effect hstep).suffix.subset hs
      have hneutral := neutral_genValue hplain compact 0 []
      rw [List.append_nil] at hneutral
      have heven : EvenQuotes (generate v compact) := hneutral.2.mpr ⟨0, rfl⟩
      have hcount := count_broken heven hc (hend.mp hvalid)
      have hdepth : arrayDepth (generate v compact) = 0 := hneutral.1.trans rfl
      rw [hdepth] at hcount
      have hpos := List.count_pos_iff.mpr hlast
      omega

end

/-! ### Both texts -/

/-- No string or key is too long for an `int`. -/
def Short (v : Variant) : Prop :=
  (∀ s, Occurs (.string s) v → s.length + 1 < intLimit) ∧
    ∀ es, Occurs (.map es) v → ∀ e ∈ es, e.1.length + 1 < intLimit

/-- Enough fuel given, both texts of `v` are read as one and the same valid variant. -/
def FormattingKeeps (v : Variant) : Prop :=
  ∃ w, w.isValid = true ∧ ∃ n, ∀ fuel ≥ n, ∃ failed failed',
    parse fuel (generate v false) = .ok (w, failed) ∧
      parse fuel (generate v true) = .ok (w, failed')

section
variable {vs : VariantList} {es : VariantMap}

/-- A list is short if its elements are. -/
theorem short_list : Short (.list vs) ↔ ∀ v ∈ vs, Short v := by
  constructor
  · intro h v hv
    exact ⟨fun s hs => h.1 s (.element hv hs), fun es hes => h.2 es (.element hv hes)⟩
  · intro h
    refine ⟨fun s hs => ?_, fun es hes => ?_⟩
    · cases hs with
      | element hv hs => exact (h _ hv).1 s hs
    · cases hes with
      | element hv hes => exact (h _ hv).2 es hes

/-- A map is short if its keys and its values are. -/
theorem short_map :
    Short (.map es) ↔ (∀ e ∈ es, e.1.length + 1 < intLimit) ∧ ∀ e ∈ es, Short e.2 := by
  constructor
  · intro h
    refine ⟨h.2 es .here, fun e he => ?_⟩
    exact ⟨fun s hs => h.1 s (.value he hs), fun es hes => h.2 es (.value he hes)⟩
  · rintro ⟨hkeys, h⟩
    refine ⟨fun s hs => ?_, fun es hes => ?_⟩
    · cases hs with
      | value he hs => exact (h _ he).1 s hs
    · cases hes with
      | here => exact hkeys
      | value he hes => exact (h _ he).2 es hes

end

/-- What keeps a plain variant from being read back. -/
theorem readable_iff {v : Variant} (hplain : Plain v) (hordered : v.Ordered) (compact : Bool) :
    Readable compact v ↔ (compact = false → ¬Occurs (.list []) v) ∧ Short v := by
  induction hplain with
  | bool b =>
    refine iff_of_true (.bool b) ⟨fun _ h => (nomatch h), ?_⟩
    exact ⟨fun s hs => (nomatch hs), fun es hes => (nomatch hes)⟩
  | string s hclean =>
    constructor
    · intro h
      cases h with
      | string _ _ hshort =>
        refine ⟨fun _ h => (nomatch h), fun s' hs' => ?_, fun es hes => (nomatch hes)⟩
        cases hs' with
        | here => exact hshort
    · intro h
      exact .string s hclean (h.2.1 s .here)
  | list vs hvs ih =>
    cases hordered with
    | list _ hordered =>
      rw [short_list]
      constructor
      · intro h
        cases h with
        | list _ hempty hreads =>
          have hall := fun v hv => (ih v hv (hordered v hv)).mp (hreads v hv)
          refine ⟨fun hc hoccurs => ?_, fun v hv => (hall v hv).2⟩
          -- an empty list is this one, or occurs in an element
          rcases occurs_list.mp hoccurs with heq | ⟨v, hv, hoccurs⟩
          · exact hempty hc (Variant.list.inj heq).symm
          · exact (hall v hv).1 hc hoccurs
      · rintro ⟨hempty, hshort⟩
        refine .list vs (fun hc hnil => hempty hc ?_) fun v hv => ?_
        · rw [hnil]
          exact .here
        · exact (ih v hv (hordered v hv)).mpr
            ⟨fun hc hoccurs => hempty hc (.element hv hoccurs), hshort v hv⟩
  | map es hkeys hes ih =>
    cases hordered with
    | map _ hsorted hordered =>
      rw [short_map]
      constructor
      · intro h
        cases h with
        | map _ _ hlong hreads =>
          have hall : ∀ e ∈ es, (compact = false → ¬Occurs (.list []) e.2) ∧ Short e.2 := by
            intro e he
            -- a plain value is not blank, so it is read back like an element
            have hne : e.2 ≠ .invalid := fun heq => by
              have hinvalid := hes e he
              rw [heq] at hinvalid
              cases hinvalid
            exact (ih e he (hordered e he)).mp (hreads e he hne)
          refine ⟨fun hc hoccurs => ?_, fun e he => (hlong e he).2, fun e he => (hall e he).2⟩
          rcases occurs_map.mp hoccurs with heq | ⟨e, he, hoccurs⟩
          · cases heq
          · exact (hall e he).1 hc hoccurs
      · rintro ⟨hempty, hlong, hshort⟩
        refine .map es hsorted (fun e he => ⟨hkeys e he, hlong e he⟩) fun e he _ => ?_
        exact (ih e he (hordered e he)).mpr
          ⟨fun hc hoccurs => hempty hc (.value he hoccurs), hshort e he⟩

/-- The two texts of a plain list or map mean the same, exactly when no list in it is empty and
no string in it is too long. -/
theorem formatting_keeps_iff (v : Variant) (hroot : v.isMap ∨ v.isList) (hplain : Plain v)
    (hordered : v.Ordered) : FormattingKeeps v ↔ ¬Occurs (.list []) v ∧ Short v := by
  have hfalse := readable_iff hplain hordered false
  constructor
  · rintro ⟨w, hvalid, n, hn⟩
    obtain ⟨failed, failed', hparse, -⟩ := hn n (le_refl n)
    obtain ⟨hempty, hshort⟩ := hfalse.mp (readable_of_accepted hroot hplain hordered hparse hvalid)
    exact ⟨hempty rfl, hshort⟩
  · rintro ⟨hempty, hshort⟩
    have hspaced : Readable false v := hfalse.mpr ⟨fun _ => hempty, hshort⟩
    have hcompact : Readable true v :=
      (readable_iff hplain hordered true).mpr ⟨fun h => (nomatch h), hshort⟩
    refine ⟨v, isValid_of_isWritten hplain.isWritten,
      max (generate v false).length (generate v true).length, fun fuel hfuel => ?_⟩
    obtain ⟨failed, hparse, -⟩ := parse_generated hroot hspaced (le_trans (le_max_left _ _) hfuel)
    obtain ⟨failed', hparse', -⟩ :=
      parse_generated hroot hcompact (le_trans (le_max_right _ _) hfuel)
    exact ⟨failed, failed', hparse, hparse'⟩

/-- `outerMap` is plain. -/
theorem outerMap_plain : Plain outerMap := by
  have hinner : Plain innerList := by
    refine .list _ fun v hv => ?_
    rcases List.mem_pair.mp hv with rfl | rfl
    · exact .string ['x'] (by decide)
    · exact .bool true
  refine .map _ (fun e he => ?_) fun e he => ?_
  · rw [List.mem_singleton.mp he]
    decide
  · rw [List.mem_singleton.mp he]
    exact hinner

/-- `outerMap` has its keys in order, at both levels. -/
theorem outerMap_ordered : outerMap.Ordered := by
  have hinner : innerList.Ordered := by
    refine .list _ fun v hv => ?_
    rcases List.mem_pair.mp hv with rfl | rfl
    · exact .string ['x']
    · exact .bool true
  refine .map _ (List.pairwise_singleton _ _) fun e he => ?_
  rw [List.mem_singleton.mp he]
  exact hinner

/-- The strings of `outerMap` are short. -/
theorem outerMap_short : Short outerMap := by
  have hinner : Short innerList := by
    refine short_list.mpr fun v hv => ?_
    rcases List.mem_pair.mp hv with rfl | rfl
    · refine ⟨fun s hs => ?_, fun es hes => (nomatch hes)⟩
      cases hs
      decide
    · exact ⟨fun s hs => (nomatch hs), fun es hes => (nomatch hes)⟩
  refine short_map.mpr ⟨fun e he => ?_, fun e he => ?_⟩
  · rw [List.mem_singleton.mp he]
    decide
  · rw [List.mem_singleton.mp he]
    exact hinner

/-- The result on a map with a list in it, and with a string in that. -/
theorem formatting_keeps_nested : FormattingKeeps outerMap := by
  refine (formatting_keeps_iff _ (Or.inl rfl) outerMap_plain outerMap_ordered).mpr
    ⟨fun h => ?_, outerMap_short⟩
  rcases occurs_outerMap h with heq | heq | heq | heq
  · cases heq
  · cases heq
  · cases heq
  · cases heq

/-- The text of the empty list over two lines is not accepted. -/
theorem formatting_loses_empty : ¬FormattingKeeps (.list []) := by
  rintro ⟨w, hvalid, n, hn⟩
  have htext : generate (.list []) false = "[\r\n]".toList := by
    simp [generate, genValue_list, elementsText, closing, getWhiteSpace, genLineFeed, genTab]
  -- the reader leaves the list at its closing bracket, which is left over
  have hfinished : HaltsAt step (start (generate (.list []) false))
      ⟨.back true, [], [']'], [.parseArray, .parseLiteral]⟩ .finished := by
    rw [htext]
    exact ⟨.head rfl (.head rfl (.head rfl (.head rfl (.single rfl)))), rfl⟩
  obtain ⟨failed, failed', hparse, -⟩ := hn _ (le_max_left n ((generate (.list []) false).length + 1))
  obtain ⟨v, hparse', hvalid'⟩ := parse_of_finished hfinished
    (le_max_right n ((generate (.list []) false).length + 1))
  obtain ⟨rfl, -⟩ := Prod.mk.inj (Except.ok.inj (hparse.symm.trans hparse'))
  cases hvalid'.mp hvalid

end Brutils.Proofs.Json
