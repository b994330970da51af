import Brutils.Proofs.Json.Generated

/-!
# `Brutils.Proofs.Json.Forgery`: which strings can imitate the structure of a document

`genString` escapes nothing, so a quote in a string looks like the end of its literal.
`generate_injective_iff` says which characters that takes: two different variants have
different texts, as long as their strings and keys lack the quote, or the space, or what else
stands between two literals. `generate_unforged` is the result for single strings. A string
can only do harm when, after a quote, it goes on like the text after a value (`ValueEnd`) or
like the text after a key (`KeyEnd`).

The text of a literal and what follows it can be told apart when no string imitates what
follows (`literal_unique`). What follows a literal is given by the next quote in it
(`NextQuoteAfter`), which comes after a separator, however many containers end before.
-/

set_option autoImplicit false

namespace Brutils.Proofs.Json

open Brutils.JsonGenerator
open ItemList (Settled write_unique)

/-! ### Literals -/

/-- What is before the next quote of `r` satisfies `P`. -/
def NextQuoteAfter (P : Text → Prop) (r : Text) : Prop :=
  ∀ y z, r = y ++ '"' :: z → '"' ∉ y → P y

/-- After one of its quotes, the string goes on with a text in `P`. -/
def Forges (P : Text → Prop) (s : Text) : Prop := ∃ a y b, s = a ++ '"' :: (y ++ b) ∧ P y

section
variable {P : Text → Prop} {s s' r r' : Text}

/-- There is no quote in the empty text. -/
theorem nextQuoteAfter_nil (P : Text → Prop) : NextQuoteAfter P [] := by
  intro y z h
  exact absurd h (by simp)

/-- A text without a quote is before the first quote. -/
theorem split_at_quote {p y z : Text} (hp : '"' ∉ p) (h : p ++ r = y ++ '"' :: z) :
    ∃ y', y = p ++ y' ∧ r = y' ++ '"' :: z := by
  rcases List.append_eq_append_iff.mp h with ⟨y', hy, hr⟩ | ⟨c, rfl, hc⟩
  · exact ⟨y', hy, hr⟩
  · cases c with
    | nil => exact ⟨[], by simp, hc.symm⟩
    | cons d c =>
      rw [← (List.cons.inj hc).1] at hp
      exact absurd (by simp) hp

/-- Of two literals with the same text, the longer one goes on after a quote like the text
behind the shorter one. -/
theorem forges_of_longer {c : Text} (hr : NextQuoteAfter P (c ++ '"' :: r)) :
    Forges P (s ++ '"' :: c) := by
  have hsplit : ∃ y b z, c = y ++ b ∧ c ++ '"' :: r = y ++ '"' :: z ∧ '"' ∉ y := by
    by_cases hmem : '"' ∈ c
    · obtain ⟨y, b, rfl, hy⟩ := List.eq_append_cons_of_mem hmem
      exact ⟨y, '"' :: b, b ++ '"' :: r, rfl, by simp, hy⟩
    · exact ⟨c, [], r, by simp, rfl, hmem⟩
  obtain ⟨y, b, z, rfl, hz, hy⟩ := hsplit
  exact ⟨s, y, b, rfl, hr y z hz hy⟩

/-- A literal and what follows it can be told from their text. -/
theorem literal_unique (hr : NextQuoteAfter P r) (hr' : NextQuoteAfter P r')
    (hs : ¬Forges P s) (hs' : ¬Forges P s') (h : s ++ '"' :: r = s' ++ '"' :: r') :
    s = s' ∧ r = r' := by
  rcases List.append_eq_append_iff.mp h with ⟨c, rfl, hc⟩ | ⟨c, rfl, hc⟩
  · cases c with
    | nil => exact ⟨by simp, (List.cons.inj hc).2⟩
    | cons d c =>
      obtain ⟨rfl, rfl⟩ := List.cons.inj hc
      exact absurd (forges_of_longer hr) hs'
  · cases c with
    | nil => exact ⟨by simp, (List.cons.inj hc).2.symm⟩
    | cons d c =>
      obtain ⟨rfl, rfl⟩ := List.cons.inj hc
      exact absurd (forges_of_longer hr') hs

end

/-! ### What follows a literal -/

/-- What stands between two items, as far as it is the same at every depth. -/
def betweenItems (compact : Bool) : Text := [',', ' '] ++ getWhiteSpace compact 0

/-- A character that may stand between a value and the next separator. -/
def EndsContainer (c : Char) : Prop := c = ']' ∨ c = '}' ∨ isSpace c

/-- The text goes on like the one after a value: containers end, and another item begins. -/
def ValueEnd (compact : Bool) (y : Text) : Prop :=
  ∃ cs, (∀ c ∈ cs, EndsContainer c) ∧ cs ++ betweenItems compact <+: y

/-- The text goes on like the one after a key. -/
def KeyEnd (y : Text) : Prop := [':', ' '] <+: y

section
variable {compact : Bool} {depth : Nat} {r : Text}

/-- The characters that end a container are not quotes. -/
theorem endsContainer_ne_quote {c : Char} (hc : EndsContainer c) : c ≠ '"' := by
  rintro rfl
  exact absurd hc (by unfold EndsContainer; decide)

/-- The white space of a depth is that of depth `0` and tabs. -/
theorem getWhiteSpace_eq (compact : Bool) (depth : Nat) :
    ∃ tabs, getWhiteSpace compact depth = getWhiteSpace compact 0 ++ tabs := by
  cases compact with
  | true => exact ⟨[], rfl⟩
  | false => exact ⟨genTab depth, by simp [getWhiteSpace, genTab]⟩

/-- So a text of such characters has no quote in it. -/
theorem quote_notMem_of_endsContainer {p : Text} (hp : ∀ c ∈ p, EndsContainer c) : '"' ∉ p :=
  fun hmem => endsContainer_ne_quote (hp _ hmem) rfl

/-- What stands between two items is a comma and white space. -/
theorem quote_notMem_betweenItems (compact : Bool) : '"' ∉ betweenItems compact := by
  cases compact with
  | true => decide
  | false => decide

/-- A text that begins without a quote, in a way that decides what comes before the next one. -/
theorem nextQuoteAfter_of_prefix {P : Text → Prop} {p : Text} (hp : '"' ∉ p) (hr : p <+: r)
    (hP : ∀ y, p <+: y → P y) : NextQuoteAfter P r := by
  intro y z hyz hy
  obtain ⟨r', rfl⟩ := hr
  obtain ⟨y', rfl, -⟩ := split_at_quote hp hyz
  exact hP _ (List.prefix_append p y')

/-- The end of a container in front. -/
theorem NextQuoteAfter.after_closing (hr : NextQuoteAfter (ValueEnd compact) r) {bracket : Char}
    (hbracket : EndsContainer bracket) :
    NextQuoteAfter (ValueEnd compact) (closing compact depth bracket ++ r) := by
  have hends : ∀ c ∈ closing compact depth bracket, EndsContainer c := by
    intro c hc
    rcases List.mem_append.mp hc with hc | hc
    · exact Or.inr (Or.inr (isSpace_getWhiteSpace compact depth c hc))
    · rw [List.mem_singleton.mp hc]
      exact hbracket
  intro y z hyz hy
  obtain ⟨y', rfl, hr'⟩ := split_at_quote (quote_notMem_of_endsContainer hends) hyz
  -- the containers that end here are ended before those that end in `r`
  obtain ⟨cs, hcs, hprefix⟩ := hr y' z hr' fun hmem => hy (List.mem_append_right _ hmem)
  refine ⟨closing compact depth bracket ++ cs, ?_, ?_⟩
  · intro c hc
    exact (List.mem_append.mp hc).elim (hends c) (hcs c)
  · rw [List.append_assoc]
    exact (List.prefix_append_right_inj _).mpr hprefix

/-- What follows an item of a container. -/
theorem nextQuoteAfter_tail {α : Type} {code : α → Text} {bracket : Char}
    (hcode : ∀ a, getWhiteSpace compact (depth + 1) <+: code a) (hbracket : EndsContainer bracket)
    (hr : NextQuoteAfter (ValueEnd compact) r) (as : List α) :
    NextQuoteAfter (ValueEnd compact)
      (ItemList.tail code [',', ' '] (closing compact depth bracket) as ++ r) := by
  cases as with
  | nil => exact hr.after_closing hbracket
  | cons a as =>
    refine nextQuoteAfter_of_prefix (quote_notMem_betweenItems compact) ?_ fun y hy => ⟨[], ?_, hy⟩
    · obtain ⟨tabs, htabs⟩ := getWhiteSpace_eq compact (depth + 1)
      obtain ⟨s, hs⟩ := hcode a
      refine ⟨tabs ++ s ++ ItemList.tail code [',', ' '] (closing compact depth bracket) as ++ r, ?_⟩
      simp [betweenItems, ← hs, htabs]
    · exact fun c hc => absurd hc List.not_mem_nil

/-- A text does not go on both with another item and with the end of the container. -/
theorem not_closing_of_separator {bracket : Char} (hbracket : bracket ≠ ',') (s : Text)
    (hs : [',', ' '] <+: s) : ¬closing compact depth bracket <+: s := by
  obtain ⟨s, rfl⟩ := hs
  rintro ⟨t, ht⟩
  cases compact with
  | true => exact hbracket (List.cons.inj ht).1
  | false => exact absurd (List.cons.inj ht).1 (by decide)

/-- One more level of indentation is four more blanks. -/
theorem genTab_succ (depth : Nat) : genTab (depth + 1) = genTab depth ++ "    ".toList := by
  induction depth with
  | zero => rfl
  | succ depth ih =>
    show "    ".toList ++ genTab (depth + 1) = "    ".toList ++ genTab depth ++ "    ".toList
    rw [ih, List.append_assoc]

/-- The end of a container is not the beginning of an item of it, which is one tab deeper. -/
theorem not_closing_of_item {bracket c : Char} (hbracket : bracket ≠ ' ') (hc : c ≠ bracket)
    (s : Text) : ¬closing compact depth bracket <+: getWhiteSpace compact (depth + 1) ++ c :: s := by
  rintro ⟨t, ht⟩
  cases compact with
  | true => exact hc (List.cons.inj ht).1.symm
  | false =>
    simp only [closing, getWhiteSpace, genTab_succ, Bool.false_eq_true, if_false,
      List.append_assoc, List.append_cancel_left_eq] at ht
    exact hbracket (List.cons.inj ht).1

end

/-! ### Variants -/

/-- A variant whose leaves are booleans and strings, none of which imitates what follows it. -/
inductive Guarded (compact : Bool) : Variant → Prop
  | bool (val : Bool) : Guarded compact (.bool val)
  | string (val : Text) (h : ¬Forges (ValueEnd compact) val) : Guarded compact (.string val)
  | list (val : VariantList) (h : ∀ v ∈ val, Guarded compact v) : Guarded compact (.list val)
  | map (val : VariantMap) (hkeys : ∀ e ∈ val, ¬Forges KeyEnd e.1)
      (h : ∀ e ∈ val, Guarded compact e.2) : Guarded compact (.map val)

section
variable {compact : Bool} {v w : Variant} {r r' : Text}

/-- A guarded variant is one that is written at all. -/
theorem Guarded.isWritten (hv : Guarded compact v) : isWritten v := by
  cases hv <;> rfl

/-- Guarded variants with the same text open in the same way: the first character tells strings,
lists, maps and the two truth values apart. -/
theorem opener_eq (hv : Guarded compact v) (hw : Guarded compact w) {depth : Nat}
    (h : genValue v compact depth ++ r = genValue w compact depth ++ r') : opener v = opener w := by
  obtain ⟨s, hs⟩ := genValue_opener hv.isWritten compact depth
  obtain ⟨s', hs'⟩ := genValue_opener hw.isWritten compact depth
  rw [hs, hs'] at h
  exact (List.cons.inj h).1

/-- A member of a guarded map. -/
def GuardedEntry (compact : Bool) (e : Text × Variant) : Prop :=
  ¬Forges KeyEnd e.1 ∧ Guarded compact e.2

/-- What the text of a variant is told from: the other guarded variants. -/
def SettledValue (compact : Bool) (depth : Nat) (v : Variant) : Prop :=
  Settled (fun v => genValue v compact depth) (Guarded compact)
    (NextQuoteAfter (ValueEnd compact)) v

/-- If a value is settled, so is the element of a list that it makes. The white space before it is
the same for all elements of a level. -/
theorem genElement_settled {depth : Nat} (hv : SettledValue compact depth v) :
    Settled (genElement compact depth) (Guarded compact) (NextQuoteAfter (ValueEnd compact)) v := by
  intro w r r' hw hr hr' h
  simp only [genElement, List.append_assoc] at h
  exact hv w r r' hw hr hr' (List.append_cancel_left h)

/-- If the value of an entry is settled, so is the entry: its key ends at the first quote that a
colon and a value follow. -/
theorem genEntry_settled {depth : Nat} {e : Text × Variant} (he : GuardedEntry compact e)
    (hv : SettledValue compact depth e.2) :
    Settled (genEntry compact depth) (GuardedEntry compact) (NextQuoteAfter (ValueEnd compact))
      e := by
  obtain ⟨key, v⟩ := e
  rintro ⟨key', w⟩ r r' hw hr hr' h
  simp only [genEntry, genString_eq, List.append_assoc, List.cons_append, List.nil_append] at h
  -- after the key comes the same in both texts, and so the keys are told apart first
  have hcolon : ∀ s : Text, NextQuoteAfter KeyEnd (':' :: ' ' :: s) := fun s =>
    nextQuoteAfter_of_prefix (p := [':', ' ']) (by decide) (List.prefix_append [':', ' '] s)
      fun _ hy => hy
  obtain ⟨rfl, hrest⟩ := literal_unique (hcolon _) (hcolon _) he.1 hw.1
    (List.cons.inj (List.append_cancel_left h)).2
  obtain ⟨rfl, hr⟩ := hv w r r' hw.2 hr hr' (List.cons.inj (List.cons.inj hrest).2).2
  exact ⟨rfl, hr⟩

/-- An element begins with the white space of its level. -/
theorem whiteSpace_prefix_genElement (compact : Bool) (depth : Nat) (v : Variant) :
    getWhiteSpace compact depth <+: genElement compact depth v :=
  List.prefix_append _ _

/-- An entry begins with the white space of its level. -/
theorem whiteSpace_prefix_genEntry (compact : Bool) (depth : Nat) (e : Text × Variant) :
    getWhiteSpace compact depth <+: genEntry compact depth e := by
  rw [genEntry, List.append_assoc, List.append_assoc]
  exact List.prefix_append _ _

/-- A list does not end where an element of it begins. -/
theorem not_closing_genElement (hv : Guarded compact v) (depth : Nat) (s : Text) :
    ¬closing compact depth ']' <+: genElement compact (depth + 1) v ++ s := by
  obtain ⟨t, ht⟩ := genValue_opener hv.isWritten compact (depth + 1)
  rw [genElement, ht, List.append_assoc]
  exact not_closing_of_item (by decide) (beginsValue_opener v).ne_bracket _

/-- A map does not end where a member of it begins. -/
theorem not_closing_genEntry (e : Text × Variant) (depth : Nat) (s : Text) :
    ¬closing compact depth '}' <+: genEntry compact (depth + 1) e ++ s := by
  rw [genEntry, genString_eq]
  simp only [List.append_assoc, List.cons_append]
  exact not_closing_of_item (by decide) (by decide) _

/-- The text of a truth value is none of another guarded variant. -/
theorem settled_bool (depth : Nat) (b : Bool) : SettledValue compact depth (.bool b) := by
  intro w r r' hw hr hr' h
  have hopen := opener_eq (.bool b) hw h
  cases hw with
  | bool b' =>
    have hb : b = b' := by cases b <;> cases b' <;> simp [opener] at hopen ⊢
    subst hb
    exact ⟨rfl, List.append_cancel_left h⟩
  | string s' hs' => cases b <;> simp [opener] at hopen
  | list ws hws => cases b <;> simp [opener] at hopen
  | map es hkeys hes => cases b <;> simp [opener] at hopen

/-- A string that does not forge its own end is told from every other guarded variant: both end at
the first quote after which a value may end. -/
theorem settled_string (depth : Nat) {s : Text} (hs : ¬Forges (ValueEnd compact) s) :
    SettledValue compact depth (.string s) := by
  intro w r r' hw hr hr' h
  have hopen := opener_eq (.string s hs) hw h
  cases hw with
  | bool b' => cases b' <;> simp [opener] at hopen
  | string s' hs' =>
    simp only [genValue_string, genString_eq, List.append_assoc, List.cons_append,
      List.nil_append] at h
    obtain ⟨rfl, hrest⟩ := literal_unique hr hr' hs hs' (List.cons.inj h).2
    exact ⟨rfl, hrest⟩
  | list ws hws => simp [opener] at hopen
  | map es hkeys hes => simp [opener] at hopen

/-- A list of which each element can be told from its text. -/
theorem settled_list {depth : Nat} {vs : VariantList} (hvs : ∀ v ∈ vs, Guarded compact v)
    (hsettled : ∀ v ∈ vs, SettledValue compact (depth + 1) v) :
    SettledValue compact depth (.list vs) := by
  intro w r r' hw hr hr' h
  have hopen := opener_eq (.list vs hvs) hw h
  have hends : EndsContainer ']' := Or.inl rfl
  have hprefix := whiteSpace_prefix_genElement compact (depth + 1)
  cases hw with
  | bool b' => cases b' <;> simp [opener] at hopen
  | string s' hs' => simp [opener] at hopen
  | list ws hws =>
    simp only [genValue_list, List.cons_append] at h
    obtain ⟨rfl, hrest⟩ := write_unique (fun s => not_closing_of_separator (by decide) s)
      (fun v hv => not_closing_genElement hv depth) vs ws
      (fun as _ => nextQuoteAfter_tail hprefix hends hr as)
      (fun as _ => nextQuoteAfter_tail hprefix hends hr' as)
      (fun v hv => ⟨hvs v hv, genElement_settled (hsettled v hv)⟩) hws (List.cons.inj h).2
    exact ⟨rfl, hrest⟩
  | map es hkeys hes => simp [opener] at hopen

/-- A map of which each value can be told from its text. -/
theorem settled_map {depth : Nat} {es : VariantMap} (hes : ∀ e ∈ es, GuardedEntry compact e)
    (hsettled : ∀ e ∈ es, SettledValue compact (depth + 1) e.2) :
    SettledValue compact depth (.map es) := by
  intro w r r' hw hr hr' h
  have hopen := opener_eq (.map es (fun e he => (hes e he).1) fun e he => (hes e he).2) hw h
  have hends : EndsContainer '}' := Or.inr (Or.inl rfl)
  have hprefix := whiteSpace_prefix_genEntry compact (depth + 1)
  cases hw with
  | bool b' => cases b' <;> simp [opener] at hopen
  | string s' hs' => simp [opener] at hopen
  | list ws hws => simp [opener] at hopen
  | map es' hkeys' hes' =>
    simp only [genValue_map, List.cons_append] at h
    obtain ⟨rfl, hrest⟩ := write_unique (fun s => not_closing_of_separator (by decide) s)
      (fun e (_ : GuardedEntry compact e) => not_closing_genEntry e depth) es es'
      (fun as _ => nextQuoteAfter_tail hprefix hends hr as)
      (fun as _ => nextQuoteAfter_tail hprefix hends hr' as)
      (fun e he => ⟨hes e he, genEntry_settled (hes e he) (hsettled e he)⟩)
      (fun e he => ⟨hkeys' e he, hes' e he⟩) (List.cons.inj h).2
    exact ⟨rfl, hrest⟩

/-- A guarded variant can be told from its text. The induction is on the variant, and the first
character says of which kind the other one is. -/
theorem genValue_settled (hv : Guarded compact v) (depth : Nat) : SettledValue compact depth v := by
  induction hv generalizing depth with
  | bool b => exact settled_bool depth b
  | string s hs => exact settled_string depth hs
  | list vs hvs ih => exact settled_list hvs fun v hv => ih v hv (depth + 1)
  | map es hkeys hes ih =>
    exact settled_map (fun e he => ⟨hkeys e he, hes e he⟩) fun e he => ih e he (depth + 1)

/-- Two guarded variants with the same text are the same. -/
theorem generate_unforged (hv : Guarded compact v) (hw : Guarded compact w)
    (h : generate v compact = generate w compact) : v = w := by
  have hnil := nextQuoteAfter_nil (ValueEnd compact)
  exact (genValue_settled hv 0 w [] [] hw hnil hnil (by simpa [generate] using h)).1

end

/-! ### Characters -/

/-- A variant whose leaves are booleans and strings of the allowed characters. -/
inductive Over (allowed : Char → Prop) : Variant → Prop
  | bool (val : Bool) : Over allowed (.bool val)
  | string (val : Text) (h : ∀ c ∈ val, allowed c) : Over allowed (.string val)
  | list (val : VariantList) (h : ∀ v ∈ val, Over allowed v) : Over allowed (.list val)
  | map (val : VariantMap) (hkeys : ∀ e ∈ val, ∀ c ∈ e.1, allowed c)
      (h : ∀ e ∈ val, Over allowed e.2) : Over allowed (.map val)

/-- No string can forge structure: variants that differ have different texts. -/
def Unforgeable (compact : Bool) (allowed : Char → Prop) : Prop :=
  ∀ v w : Variant, v.Ordered → w.Ordered → Over allowed v → Over allowed w → v ≠ w →
    generate v compact ≠ generate w compact

section
variable (compact : Bool) (a b c : Text)

/-- What a key and its value have between them can be part of either. -/
theorem generate_forged_key :
    generate (.map [(a, .string (b ++ '"' :: ([':', ' '] ++ '"' :: c)))]) compact
      = generate (.map [(a ++ '"' :: ([':', ' '] ++ '"' :: b), .string c)]) compact := by
  simp [generate, genValue_map, membersText, genEntry, genValue_string, genString_eq]

/-- What two elements of a list have between them can be part of one. -/
theorem generate_forged_element :
    generate (.list [.string (a ++ '"' :: ([',', ' '] ++ (getWhiteSpace compact 1 ++ '"' :: b)))])
        compact
      = generate (.list [.string a, .string b]) compact := by
  simp [generate, genValue_list, elementsText, genElement, genValue_string, genString_eq]

end

section
variable {compact : Bool} {allowed : Char → Prop} {v : Variant}

/-- Without the characters for it, no string imitates what follows it. -/
theorem guarded_of_over (hv : Over allowed v)
    (hchars : ¬(allowed '"' ∧
      ((∀ c ∈ [':', ' '], allowed c) ∨ ∀ c ∈ betweenItems compact, allowed c))) :
    Guarded compact v := by
  induction hv with
  | bool b => exact .bool b
  | string s hs =>
    refine .string s ?_
    rintro ⟨a, y, b, rfl, cs, -, t, rfl⟩
    -- a string that imitates the text between two items has its characters
    refine hchars ⟨hs _ (by simp), Or.inr fun c hc => hs c ?_⟩
    simp [hc]
  | list vs hvs ih => exact .list vs ih
  | map es hkeys hes ih =>
    refine .map es ?_ ih
    rintro ⟨key, v⟩ he ⟨a, y, b, hkey, t, rfl⟩
    obtain rfl : key = _ := hkey
    refine hchars ⟨hkeys _ he _ (by simp), Or.inl fun c hc => hkeys _ he c ?_⟩
    refine List.mem_append_right a (List.mem_cons_of_mem _ ?_)
    exact List.mem_append_left b (List.mem_append_left t hc)

/-- The white space of the first depth has no characters but those between two items. -/
theorem mem_betweenItems_of_mem_getWhiteSpace {c : Char} (hc : c ∈ getWhiteSpace compact 1) :
    c ∈ betweenItems compact := by
  cases compact with
  | true => exact absurd hc List.not_mem_nil
  | false => exact List.all_eq_true.mp (show ((getWhiteSpace false 1).all
      (· ∈ betweenItems false)) = true from rfl) c hc |> of_decide_eq_true

end

section
variable {allowed : Char → Prop} {key s : Text}

/-- A map with one string is over the alphabet when its key and the string are. -/
theorem over_entry (hkey : ∀ c ∈ key, allowed c) (hs : ∀ c ∈ s, allowed c) :
    Over allowed (.map [(key, .string s)]) := by
  refine .map _ (fun e he => ?_) fun e he => ?_
  · rw [List.mem_singleton.mp he]
    exact hkey
  · rw [List.mem_singleton.mp he]
    exact .string s hs

/-- A map with one entry is in order. -/
theorem ordered_entry (key s : Text) : (Variant.map [(key, .string s)]).Ordered := by
  refine .map _ (List.pairwise_singleton _ _) fun e he => ?_
  rw [List.mem_singleton.mp he]
  exact .string s

/-- A list of strings is over the alphabet when all of them are. -/
theorem over_strings {strings : List Text} (h : ∀ s ∈ strings, ∀ c ∈ s, allowed c) :
    Over allowed (.list (strings.map .string)) := by
  refine .list _ fun v hv => ?_
  obtain ⟨s, hs, rfl⟩ := List.mem_map.mp hv
  exact .string s (h s hs)

/-- A list of strings has no maps in it, and is in order. -/
theorem ordered_strings (strings : List Text) :
    (Variant.list (strings.map .string)).Ordered := by
  refine .list _ fun v hv => ?_
  obtain ⟨s, -, rfl⟩ := List.mem_map.mp hv
  exact .string s

end

/-- The texts of different variants are different, exactly when the characters of their strings
do not suffice for a quote and for what comes between two literals. -/
theorem generate_injective_iff (compact : Bool) (allowed : Char → Prop) :
    Unforgeable compact allowed ↔
      ¬(allowed '"' ∧
        ((∀ c ∈ [':', ' '], allowed c) ∨ ∀ c ∈ betweenItems compact, allowed c)) := by
  constructor
  · rintro hunforgeable ⟨hquote, hcolon | hbetween⟩
    -- a string that looks like a key and its value, as the key or as the value
    · have hforged : ∀ c ∈ '"' :: ([':', ' '] ++ ['"']), allowed c := by
        intro c hc
        rcases List.mem_cons.mp hc with rfl | hc
        · exact hquote
        · rcases List.mem_append.mp hc with hc | hc
          · exact hcolon c hc
          · rwa [List.mem_singleton.mp hc]
      refine hunforgeable _ _ (ordered_entry _ _) (ordered_entry _ _)
        (over_entry (List.forall_mem_nil _) hforged) (over_entry hforged (List.forall_mem_nil _))
        ?_ (generate_forged_key compact [] [] [])
      intro heq
      cases heq
    -- a string that looks like the text of two elements
    · have hforged : ∀ c ∈ '"' :: ([',', ' '] ++ (getWhiteSpace compact 1 ++ ['"'])),
          allowed c := by
        intro c hc
        rcases List.mem_cons.mp hc with rfl | hc
        · exact hquote
        · rcases List.mem_append.mp hc with hc | hc
          · exact hbetween c (List.mem_append_left _ hc)
          · rcases List.mem_append.mp hc with hc | hc
            · exact hbetween c (mem_betweenItems_of_mem_getWhiteSpace hc)
            · rwa [List.mem_singleton.mp hc]
      refine hunforgeable _ _ (ordered_strings [_]) (ordered_strings [[], []])
        (over_strings fun s hs => ?_) (over_strings fun s hs => ?_) ?_
        (generate_forged_element compact [] [])
      · rw [List.mem_singleton.mp hs]
        exact hforged
      · obtain rfl : s = [] := by simpa using hs
        exact List.forall_mem_nil _
      · intro heq
        cases heq
  · intro hchars v w _ _ hv hw hne heq
    exact hne (generate_unforged (guarded_of_over hv hchars) (guarded_of_over hw hchars) heq)

/-- The maps `{"a": "b\": \"c"}` and `{"a\": \"b": "c"}`, with every character allowed. -/
theorem forged_key_collides : ¬∀ compact, Unforgeable compact fun _ => True := by
  intro h
  have hover : ∀ key s : Text, Over (fun _ => True) (.map [(key, .string s)]) :=
    fun key s => over_entry (fun _ _ => trivial) fun _ _ => trivial
  refine h true _ _ (ordered_entry _ _) (ordered_entry _ _) (hover _ _) (hover _ _) ?_
    (generate_forged_key true ['a'] ['b'] ['c'])
  intro heq
  cases heq

end Brutils.Proofs.Json
