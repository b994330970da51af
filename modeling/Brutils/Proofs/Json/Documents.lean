import Brutils.Json.Document
import Brutils.Proofs.Json.Layout
import Mathlib.Data.List.Forall2

/-!
# `Brutils.Proofs.Json.Documents`: the parser under any layout

Every text of a document without numbers and escapes is read as a variant that stands for the
document (`parse_document`), whatever white space is around its tokens.

The induction is over the document. What it says of a part is `ReadsDocument`, and this is about
all texts of the part, with the white space at both ends. So white space can be counted to the token
before it or to the one behind it as the rules of `Brutils.Proofs.Json.Layout` need it. The loops of
`parseArray` and `parseObject` come in through `elements_of_spaced` and `members_of_spaced`.
-/

set_option autoImplicit false

namespace Brutils.Proofs.Json

open Brutils.JsonParser
open Brutils.JsonGenerator
open Variant (Denotes)
open Document (quoted IsWhitespace HasText)

/-- The document has no numbers, and no string and no key of it has a quote in it or a backslash at
its end. -/
inductive CleanDocument : Document → Prop
  | null : CleanDocument .null
  | bool (val : Bool) : CleanDocument (.bool val)
  | string (val : Text) (h : Clean val) : CleanDocument (.string val)
  | array (items : List Document) (h : ∀ d ∈ items, CleanDocument d) : CleanDocument (.array items)
  | object (members : List (Text × Document)) (hkeys : ∀ e ∈ members, Clean e.1)
      (h : ∀ e ∈ members, CleanDocument e.2) : CleanDocument (.object members)

/-- Every text of the document within the range of `int` is read as a variant that stands for it,
with any fuel above its length. -/
def ReadsDocument (document : Document) : Prop :=
  ∀ s : Text, document.HasText s → s.length < intLimit →
    ∃ v : Variant, v.Denotes document ∧
      ∀ fuel, s.length < fuel → ReadsAs True EndsWord fuel s v

/-! ### Tokens and white space -/

section
variable {s : Text}

/-- The white space of the grammar is white space for the parser. -/
theorem blank_of_isWhitespace (h : ∀ c ∈ s, IsWhitespace c) : Blank s := by
  intro c hc
  rcases h c hc with rfl | rfl | rfl | rfl <;> rfl

/-- The first character of the first token comes behind the white space. -/
theorem skipSpace_spaced {c : Char} {t : Text} {ts : List Text}
    (h : Spaced IsWhitespace ((c :: t) :: ts) s) (hc : isSpace c = false) :
    ∃ r, skipSpace s = c :: r := by
  obtain ⟨a, r, rfl, ha, -⟩ := h.exists_cons
  rw [List.append_assoc, skipSpace_append (blank_of_isWhitespace ha), List.cons_append]
  exact ⟨_, skipSpace_cons_of_not hc _⟩

/-- No number begins with white space or with the bracket that closes a list. -/
theorem front_of_isNumberChar {c : Char} (h : NumberToken.IsNumberChar c) :
    isSpace c = false ∧ c ≠ ']' := by
  rcases h with hdigit | rfl | rfl | rfl | rfl | rfl
  · refine ⟨isSpace_of_isDigit hdigit, ?_⟩
    rintro rfl
    exact absurd hdigit (by decide)
  · decide
  · decide
  · decide
  · decide
  · decide

/-- A text of a document does not begin like the end of a list. -/
theorem front_hasText {d : Document} (h : d.HasText s) :
    ∃ c t, skipSpace s = c :: t ∧ c ≠ ']' := by
  have hfront : ∀ {c : Char} {t : Text} {ts : List Text}, Spaced IsWhitespace ((c :: t) :: ts) s →
      isSpace c = false → c ≠ ']' → ∃ c t, skipSpace s = c :: t ∧ c ≠ ']' := by
    intro c t ts hs hspace hc
    obtain ⟨r, hr⟩ := skipSpace_spaced hs hspace
    exact ⟨c, r, hr, hc⟩
  unfold HasText at h
  cases d with
  | null => exact hfront h rfl (by decide)
  | bool b => cases b <;> exact hfront h rfl (by decide)
  | number token =>
    obtain ⟨c, t, htoken⟩ := List.exists_cons_of_ne_nil token.text_ne_nil
    have hchar := token.isNumberChar_text c (by simp [htoken])
    rw [Document.tokens, htoken] at h
    obtain ⟨hspace, hbracket⟩ := front_of_isNumberChar hchar
    exact hfront h hspace hbracket
  | string val =>
    rw [Document.tokens] at h
    exact hfront h rfl (by decide)
  | array items =>
    cases items with
    | nil => exact hfront h rfl (by decide)
    | cons item items =>
      rw [Document.tokens] at h
      exact hfront h rfl (by decide)
  | object members =>
    cases members with
    | nil => exact hfront h rfl (by decide)
    | cons member members =>
      rw [Document.tokens] at h
      exact hfront h rfl (by decide)

/-- A variant that stands for a document has a value. -/
theorem Denotes.isValid {v : Variant} {d : Document} (h : v.Denotes d) : v.isValid = true := by
  cases h <;> rfl

/-- An element of a list. -/
theorem ReadsDocument.element {d : Document} (hd : ReadsDocument d) (h : d.HasText s)
    (hshort : s.length < intLimit) :
    ∃ v : Variant, v.Denotes d ∧ ∀ fuel, s.length < fuel → Element True fuel s v := by
  obtain ⟨v, hv, hread⟩ := hd s h hshort
  exact ⟨v, hv, fun fuel hfuel => ⟨hread fuel hfuel, Denotes.isValid hv, front_hasText h⟩⟩

end

/-! ### Arrays -/

section
variable {s : Text} {fuel : Nat}

/-- The items of an array behind its opening bracket. -/
theorem elements_of_spaced {d : Document} {ds : List Document}
    (hreads : ∀ e ∈ d :: ds, ReadsDocument e)
    (h : Spaced IsWhitespace (d.tokens ++ Document.itemTokens ds) s) (hshort : s.length < intLimit) :
    ∃ t b vs, s = t ++ b ∧ Blank b ∧ List.Forall₂ Denotes vs (d :: ds) ∧
      ∀ fuel, s.length < fuel → Elements True fuel t vs := by
  induction ds generalizing d s with
  | nil =>
    obtain ⟨x, b, rfl, hx, hb⟩ := h.exists_separated
    simp only [List.length_append] at hshort
    obtain ⟨v, hv, helement⟩ := (hreads d List.mem_cons_self).element hx (by omega)
    refine ⟨x ++ [']'], b, [v], rfl, blank_of_isWhitespace hb.forall_mem, .cons hv .nil, ?_⟩
    intro fuel hfuel
    simp only [List.length_append] at hfuel
    exact .last (helement fuel (by omega))
  | cons d' ds ih =>
    rw [Document.itemTokens] at h
    obtain ⟨x, r, rfl, hx, hr⟩ := h.exists_separated
    simp only [List.length_append] at hshort
    obtain ⟨v, hv, helement⟩ := (hreads d List.mem_cons_self).element hx (by omega)
    obtain ⟨t, b, vs, rfl, hb, hvs, helements⟩ :=
      ih (fun e he => hreads e (List.mem_cons_of_mem _ he)) hr (by omega)
    -- the loop of `parseArray` takes the comma with the item before it
    refine ⟨x ++ ',' :: t, b, v :: vs, by simp, hb, .cons hv hvs, ?_⟩
    intro fuel hfuel
    simp only [List.length_append] at hfuel
    exact .cons (helement fuel (by omega)) (helements fuel (by rw [List.length_append]; omega))

/-- Each element has a character of its own, the bracket or the comma behind it. -/
theorem Elements.length_le {quiet : Prop} {vs : VariantList} (h : Elements quiet fuel s vs) :
    vs.length ≤ s.length := by
  induction h with
  | last h => simp
  | cons h hs ih =>
    simp only [List.length_append, List.length_cons]
    omega

/-- A list stands for the array of what its elements stand for. -/
theorem denotes_array {vs : VariantList} {items : List Document}
    (h : List.Forall₂ Denotes vs items) : (Variant.list vs).Denotes (.array items) := by
  obtain ⟨hlength, hget⟩ := List.forall₂_iff_get.mp h
  exact .array hlength hget

/-- A text of an array. -/
theorem listText_of_hasText {items : List Document} (hreads : ∀ d ∈ items, ReadsDocument d)
    (h : (Document.array items).HasText s) (hshort : s.length < intLimit) :
    ∃ a t b vs, s = a ++ '[' :: (t ++ b) ∧ Blank a ∧ Blank b ∧
      (Variant.list vs).Denotes (.array items) ∧
      ∀ fuel, s.length ≤ fuel → ListText True fuel t vs ∧ vs.length < fuel := by
  unfold HasText at h
  cases items with
  | nil =>
    -- `[]` is one token, so nothing is between the brackets
    obtain ⟨a, b, rfl, ha, hb⟩ := h.exists_singleton
    refine ⟨a, [']'], b, [], by simp, blank_of_isWhitespace ha, blank_of_isWhitespace hb,
      denotes_array .nil, ?_⟩
    intro fuel hfuel
    have hpos : 0 < (a ++ "[]".toList ++ b).length := by simp
    exact ⟨Or.inl ⟨rfl, rfl⟩, Nat.lt_of_lt_of_le hpos hfuel⟩
  | cons d ds =>
    rw [Document.tokens] at h
    obtain ⟨a, r, rfl, ha, hr⟩ := h.exists_cons
    simp only [List.length_append, List.length_singleton] at hshort
    obtain ⟨t, b, vs, rfl, hb, hvs, helements⟩ := elements_of_spaced hreads hr (by omega)
    refine ⟨a, t, b, vs, by simp, blank_of_isWhitespace ha, hb, denotes_array hvs, ?_⟩
    intro fuel hfuel
    simp only [List.length_append, List.length_singleton] at hfuel
    have htext := helements fuel (by rw [List.length_append]; omega)
    have hmany := htext.length_le
    exact ⟨Or.inr htext, by omega⟩

end

/-! ### Objects -/

section
variable {s : Text} {fuel : Nat}

/-- The pair stands for the member. -/
def DenotesMember (e : Text × Variant) (member : Text × Document) : Prop :=
  e.1 = member.1 ∧ e.2.Denotes member.2

/-- A member of an object. -/
theorem member_of_spaced {member : Text × Document} (hkey : Clean member.1)
    (hread : ReadsDocument member.2)
    (h : Spaced IsWhitespace (quoted member.1 :: [':'] :: member.2.tokens) s)
    (hshort : s.length < intLimit) :
    ∃ e, DenotesMember e member ∧ ∀ fuel, s.length < fuel → Member True fuel s e := by
  obtain ⟨a, r, rfl, ha, hr⟩ := h.exists_cons
  obtain ⟨b, t, rfl, hb, ht⟩ := hr.exists_cons
  simp only [quoted, List.length_append, List.length_cons] at hshort
  obtain ⟨v, hv, hvalue⟩ := hread t ht (by omega)
  refine ⟨(member.1, v), ⟨rfl, hv⟩, fun fuel hfuel => ?_⟩
  simp only [quoted, List.length_append, List.length_cons] at hfuel
  refine ⟨a, b, t, by simp [quoted], blank_of_isWhitespace ha, blank_of_isWhitespace hb, hkey, ?_,
    Or.inl (hvalue fuel (by omega))⟩
  show member.1.length + 1 < intLimit
  omega

/-- The members of an object behind its opening bracket. -/
theorem members_of_spaced {d : Text × Document} {ds : List (Text × Document)}
    (hkeys : ∀ e ∈ d :: ds, Clean e.1) (hreads : ∀ e ∈ d :: ds, ReadsDocument e.2)
    (h : Spaced IsWhitespace
      (quoted d.1 :: [':'] :: (d.2.tokens ++ Document.memberTokens ds)) s)
    (hshort : s.length < intLimit) :
    ∃ t b es, s = t ++ b ∧ Blank b ∧ List.Forall₂ DenotesMember es (d :: ds) ∧
      ∀ fuel, s.length < fuel → Members True fuel t es := by
  have hfirst : ∀ x, Spaced IsWhitespace (quoted d.1 :: [':'] :: d.2.tokens) x →
      x.length < intLimit → ∃ e, DenotesMember e d ∧ ∀ fuel, x.length < fuel → Member True fuel x e :=
    fun x => member_of_spaced (hkeys d List.mem_cons_self) (hreads d List.mem_cons_self)
  -- the tokens of the first member come before the other ones
  rw [← List.cons_append, ← List.cons_append] at h
  induction ds generalizing d s with
  | nil =>
    obtain ⟨x, b, rfl, hx, hb⟩ := h.exists_separated
    simp only [List.length_append] at hshort
    obtain ⟨e, he, hmember⟩ := hfirst x hx (by omega)
    refine ⟨x ++ ['}'], b, [e], rfl, blank_of_isWhitespace hb.forall_mem, .cons he .nil, ?_⟩
    intro fuel hfuel
    simp only [List.length_append] at hfuel
    exact .last (hmember fuel (by omega))
  | cons d' ds ih =>
    rw [Document.memberTokens] at h
    obtain ⟨x, r, rfl, hx, hr⟩ := h.exists_separated
    simp only [List.length_append] at hshort
    obtain ⟨e, he, hmember⟩ := hfirst x hx (by omega)
    have hkeys' : ∀ e ∈ d' :: ds, Clean e.1 := fun e he => hkeys e (List.mem_cons_of_mem _ he)
    have hreads' : ∀ e ∈ d' :: ds, ReadsDocument e.2 :=
      fun e he => hreads e (List.mem_cons_of_mem _ he)
    obtain ⟨t, b, es, rfl, hb, hes, hmembers⟩ := ih hkeys' hreads' hr (by omega)
      fun x => member_of_spaced (hkeys' d' List.mem_cons_self) (hreads' d' List.mem_cons_self)
    refine ⟨x ++ ',' :: t, b, e :: es, by simp, hb, .cons he hes, ?_⟩
    intro fuel hfuel
    simp only [List.length_append] at hfuel
    exact .cons (hmember fuel (by omega)) (hmembers fuel (by rw [List.length_append]; omega))

/-- Each member has two characters of its own, the quotes of its key. -/
theorem Members.length_le {quiet : Prop} {es : VariantMap} (h : Members quiet fuel s es) :
    2 * es.length ≤ s.length := by
  have hmember : ∀ {s : Text} {e : Text × Variant}, Member quiet fuel s e → 2 ≤ s.length := by
    rintro s e ⟨a, b, t, rfl, -⟩
    simp only [List.length_append, List.length_cons]
    omega
  induction h with
  | last h =>
    have hle := hmember h
    simp only [List.length_append, List.length_singleton]
    omega
  | cons h hs ih =>
    have hle := hmember h
    simp only [List.length_append, List.length_cons]
    omega

/-- The values of a key on both sides. -/
theorem lookup_denotes {es : VariantMap} {members : List (Text × Document)}
    (h : List.Forall₂ DenotesMember es members) (key : Text) :
    Option.Rel Denotes (es.lookup key) (members.lookup key) := by
  induction h with
  | nil => exact .none
  | cons he hes ih =>
    rw [SortedAssoc.lookup_cons, SortedAssoc.lookup_cons, he.1]
    split
    · exact .some he.2
    · exact ih

/-- Assigning the members one after another leaves the last value of each key. -/
theorem denotes_object {es : VariantMap} {members : List (Text × Document)}
    (h : List.Forall₂ DenotesMember es members) :
    (Variant.map (assignAll [] es)).Denotes (.object members) := by
  have hlast : ∀ key, Option.Rel Denotes ((assignAll [] es).lookup key)
      (Document.lastValue key members) := by
    intro key
    -- a later assignment hides an earlier one, so the search begins at the end
    have hlookup : (assignAll [] es).lookup key = es.reverse.lookup key := by
      rw [assignAll, SortedAssoc.lookup_foldl_insert]
      simp
    rw [hlookup]
    exact lookup_denotes (List.forall₂_reverse_iff.mpr h) key
  have hsame : ∀ {a : Option Variant} {b : Option Document}, Option.Rel Denotes a b →
      a.isSome = b.isSome := by
    intro a b h
    cases h <;> rfl
  refine .object (SortedAssoc.sorted_foldl_insert [] es List.Pairwise.nil)
    (fun key => hsame (hlast key)) ?_
  intro key v d hv hd
  have hrel := hlast key
  rw [hv, hd] at hrel
  cases hrel with
  | some h => exact h

/-- A text of an object. -/
theorem mapText_of_hasText {members : List (Text × Document)} (hkeys : ∀ e ∈ members, Clean e.1)
    (hreads : ∀ e ∈ members, ReadsDocument e.2) (h : (Document.object members).HasText s)
    (hshort : s.length < intLimit) :
    ∃ a t b es, s = a ++ '{' :: (t ++ b) ∧ Blank a ∧ Blank b ∧
      (Variant.map (assignAll [] es)).Denotes (.object members) ∧
      ∀ fuel, s.length ≤ fuel → MapText True fuel t es ∧ 2 * es.length < fuel := by
  unfold HasText at h
  cases members with
  | nil =>
    obtain ⟨a, r, rfl, ha, hr⟩ := h.exists_cons
    obtain ⟨b, c, rfl, hb, hc⟩ := hr.exists_singleton
    refine ⟨a, b ++ ['}'], c, [], by simp, blank_of_isWhitespace ha, blank_of_isWhitespace hc,
      denotes_object .nil, ?_⟩
    intro fuel hfuel
    have hpos : 0 < (a ++ ['{'] ++ (b ++ ['}'] ++ c)).length := by simp
    exact ⟨Or.inl ⟨b, blank_of_isWhitespace hb, rfl, rfl⟩, Nat.lt_of_lt_of_le hpos hfuel⟩
  | cons d ds =>
    rw [Document.tokens] at h
    obtain ⟨a, r, rfl, ha, hr⟩ := h.exists_cons
    simp only [List.length_append, List.length_singleton] at hshort
    obtain ⟨t, b, es, rfl, hb, hes, hmembers⟩ := members_of_spaced hkeys hreads hr (by omega)
    refine ⟨a, t, b, es, by simp, blank_of_isWhitespace ha, hb, denotes_object hes, ?_⟩
    intro fuel hfuel
    simp only [List.length_append, List.length_singleton] at hfuel
    have htext := hmembers fuel (by rw [List.length_append]; omega)
    have hmany := htext.length_le
    exact ⟨Or.inr htext, by omega⟩

end

/-! ### Documents -/

/-- A leaf between white space, with fuel for its length. -/
theorem readsAs_padded {a s b : Text} {v : Variant} (ha : ∀ c ∈ a, IsWhitespace c)
    (hb : ∀ c ∈ b, IsWhitespace c)
    (h : ∀ fuel, s.length < fuel → ReadsAs True EndsWord fuel s v) (fuel : Nat)
    (hfuel : (a ++ s ++ b).length < fuel) : ReadsAs True EndsWord fuel (a ++ s ++ b) v := by
  simp only [List.length_append] at hfuel
  have hread := h fuel (by omega)
  exact (hread.after (blank_of_isWhitespace ha)).before (blank_of_isWhitespace hb)

/-- Every text of a clean document is read. -/
theorem readsDocument {document : Document} (hclean : CleanDocument document) :
    ReadsDocument document := by
  induction hclean with
  | null =>
    intro s h hshort
    obtain ⟨a, b, rfl, ha, hb⟩ := Spaced.exists_singleton h
    refine ⟨.null, .null, readsAs_padded ha hb fun fuel hfuel => ?_⟩
    obtain ⟨fuel, rfl⟩ := Nat.exists_eq_succ_of_ne_zero (by omega : fuel ≠ 0)
    exact readsAs_word fuel 'n' "ull".toList (List.all_eq_true.mp rfl) (by decide) (by decide)
      (by decide)
  | bool val =>
    intro s h hshort
    have htokens : (Document.bool val).tokens = [genLiteral (.bool val)] := by cases val <;> rfl
    rw [HasText, htokens] at h
    obtain ⟨a, b, rfl, ha, hb⟩ := h.exists_singleton
    refine ⟨.bool val, .bool val, readsAs_padded ha hb fun fuel hfuel => ?_⟩
    obtain ⟨fuel, rfl⟩ := Nat.exists_eq_succ_of_ne_zero (by omega : fuel ≠ 0)
    exact readsAs_bool fuel val
  | string val hval =>
    intro s h hshort
    rw [HasText, Document.tokens] at h
    obtain ⟨a, b, rfl, ha, hb⟩ := h.exists_singleton
    simp only [quoted, List.length_append, List.length_cons] at hshort
    refine ⟨.string val, .string val, readsAs_padded ha hb fun fuel hfuel => ?_⟩
    simp only [quoted, List.length_append, List.length_cons] at hfuel
    -- the quotes are two characters, and the string needs that much fuel
    obtain ⟨fuel, rfl⟩ : ∃ n, fuel = n + 2 := ⟨fuel - 2, by omega⟩
    exact readsAs_string fuel hval (by omega)
  | array items _ ih =>
    intro s h hshort
    obtain ⟨a, t, b, vs, rfl, ha, hb, hvs, htext⟩ := listText_of_hasText ih h hshort
    refine ⟨_, hvs, fun fuel hfuel => ?_⟩
    obtain ⟨fuel, rfl⟩ := Nat.exists_eq_succ_of_ne_zero (by omega : fuel ≠ 0)
    obtain ⟨hlist, hmany⟩ := htext fuel (Nat.le_of_lt_succ hfuel)
    -- one level of the nesting is for the array itself
    have hread : ReadsAs True EndsWord (fuel + 1) ('[' :: t) (.list vs) := readsAs_list hlist hmany
    exact (hread.before hb).after ha
  | object members hkeys _ ih =>
    intro s h hshort
    obtain ⟨a, t, b, es, rfl, ha, hb, hes, htext⟩ := mapText_of_hasText hkeys ih h hshort
    refine ⟨_, hes, fun fuel hfuel => ?_⟩
    obtain ⟨fuel, rfl⟩ := Nat.exists_eq_succ_of_ne_zero (by omega : fuel ≠ 0)
    obtain ⟨hmap, hmany⟩ := htext fuel (Nat.le_of_lt_succ hfuel)
    have hread : ReadsAs True EndsWord (fuel + 1) ('{' :: t) (.map (assignAll [] es)) :=
      readsAs_map hmap hmany
    exact (hread.before hb).after ha

/-- White space is skipped altogether. -/
theorem skipSpace_blank {s : Text} (h : Blank s) : skipSpace s = [] := by
  rw [← List.append_nil s, skipSpace_append h, skipSpace_nil]

/-- Every text of a clean array or object is parsed as a variant that stands for it, and no
routine fails. -/
theorem parse_document {document : Document} (hroot : document.isContainer)
    (hclean : CleanDocument document) {txt : Text} (htext : document.HasText txt)
    (hshort : txt.length < intLimit) :
    ∃ v : Variant, v.isValid ∧ v.Denotes document ∧
      ∃ n, ∀ fuel ≥ n, parse fuel txt = .ok (v, []) := by
  suffices h : ∃ v : Variant, v.Denotes document ∧
      ∀ fuel ≥ txt.length, parse fuel txt = .ok (v, []) by
    obtain ⟨v, hv, hparse⟩ := h
    exact ⟨v, Denotes.isValid hv, hv, txt.length, hparse⟩
  cases hclean with
  | null => cases hroot
  | bool => cases hroot
  | string => cases hroot
  | array items hitems =>
    obtain ⟨a, t, b, vs, rfl, ha, hb, hvs, hread⟩ :=
      listText_of_hasText (fun d hd => readsDocument (hitems d hd)) htext hshort
    refine ⟨_, hvs, fun fuel hfuel => ?_⟩
    obtain ⟨hlist, hmany⟩ := hread fuel hfuel
    -- `parse` goes to `parseArray` at once, and not through `parseValue`
    obtain ⟨failed, hout, hquiet⟩ := parseArray_gives hlist hmany b []
    obtain rfl := hquiet trivial
    have hfront : ∀ r, skipSpace ('[' :: r) = '[' :: r := skipSpace_cons_of_not rfl
    simp [parse, parseRoot, skipSpace_append ha, hfront, hout, skipSpace_blank hb]
  | object members hkeys hmembers =>
    obtain ⟨a, t, b, es, rfl, ha, hb, hes, hread⟩ :=
      mapText_of_hasText hkeys (fun e he => readsDocument (hmembers e he)) htext hshort
    refine ⟨_, hes, fun fuel hfuel => ?_⟩
    obtain ⟨hmap, hmany⟩ := hread fuel hfuel
    obtain ⟨rest, hrest, failed, hout, hquiet⟩ := parseObject_gives hmap hmany b []
    obtain rfl := hquiet trivial
    have hfront : ∀ r, skipSpace ('{' :: r) = '{' :: r := skipSpace_cons_of_not rfl
    simp [parse, parseRoot, skipSpace_append ha, hfront, hout, hrest, skipSpace_blank hb]

/-- The result on `{ "a":[],"a":[null]}` and a line end. The second value of `a` counts. -/
theorem parse_document_repeated : ∃ v : Variant, v.isValid ∧
    v.Denotes (.object [("a".toList, .array []), ("a".toList, .array [.null])]) ∧
    ∃ n, ∀ fuel ≥ n, parse fuel "\x7b \"a\":[],\"a\":[null]\x7d\n".toList = .ok (v, []) := by
  have hclean : CleanDocument (.object [("a".toList, .array []), ("a".toList, .array [.null])]) := by
    refine .object _ (by decide) fun e he => ?_
    rcases List.mem_pair.mp he with rfl | rfl
    · exact .array [] nofun
    · refine .array _ fun d hd => ?_
      rw [List.mem_singleton.mp hd]
      exact .null
  have hnone : ∀ c ∈ ([] : Text), IsWhitespace c := by simp
  have hspace : ∀ c ∈ [' '], IsWhitespace c := by simp [IsWhitespace]
  have hline : ∀ c ∈ ['\n'], IsWhitespace c := by simp [IsWhitespace]
  refine parse_document rfl hclean ?_ (by simp [intLimit])
  exact .cons hnone (.cons hspace (.cons hnone (.cons hnone (.cons hnone (.cons hnone (.cons hnone
    (.cons hnone (.cons hnone (.cons hnone (.cons hnone (.nil hline)))))))))))

end Brutils.Proofs.Json
