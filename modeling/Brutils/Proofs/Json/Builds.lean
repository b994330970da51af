import Brutils.Proofs.Json.Effects

/-!
# `Brutils.Proofs.Json.Builds`: what holds of everything that the parser builds

`Builds P V L M` says that three predicates, on variants, lists and maps, are closed under what the
routines of the parser do: a value without a text, a word, a number, a string, an element at the
end of a list, an assignment to a map. A null needs an `n` in `P`, and a number a digit. `P`
stands for the characters of the text outside its strings (`bare`). Then `V` holds of what
`parse` returns (`parse_builds`).

Each routine leaves a text whose characters outside the strings are those of the text before it
(`Within`). So the proof is a triple for each routine, in the order in which they call each
other. `Reads` is the form of such a triple, and `ReadsAt` the one after a look at the first
character.
-/

set_option autoImplicit false

namespace Brutils.Proofs.Json

open Loop (Triple triple_pure triple_bind triple_ite triple_of_imp triple_loop)
open Brutils.JsonParser
open Brutils.JsonReader

/-! ### The text outside the strings -/

/-- Outside the strings of the text every character is white space or in `P`. -/
def Within (P : Char → Prop) (s : Text) : Prop := ∀ c ∈ bare false s, isSpace c ∨ P c

section
variable {P : Char → Prop} {s rest : Text} {c : Char}

/-- A character outside the strings stays. -/
theorem bare_cons (hc : c ≠ '"') (s : Text) : bare false (c :: s) = c :: bare false s := by
  rw [bare, if_neg hc]

/-- From inside a string the text goes on behind its closing quote. -/
theorem bare_inside (hs : '"' ∉ s) (rest : Text) :
    bare true (s ++ '"' :: rest) = bare false rest := by
  induction s with
  | nil => simp [bare]
  | cons c s ih =>
    obtain ⟨hc, hs⟩ := not_or.mp (mt List.mem_cons.mpr hs)
    have hne : decide (c ≠ '"') = true := decide_eq_true (Ne.symm hc)
    rw [List.cons_append, bare, hne]
    exact ih hs

/-- A string is left out with both its quotes. -/
theorem bare_string (hs : '"' ∉ s) (rest : Text) :
    bare false ('"' :: (s ++ '"' :: rest)) = bare false rest := by
  have hclosed : (s ++ '"' :: rest).contains '"' = true := by simp
  rw [bare, if_pos rfl, hclosed, bare_inside hs]

/-- A quote with no other one after it. -/
theorem bare_unclosed (hs : '"' ∉ s) : bare false ('"' :: s) = bare false s := by
  have hopen : s.contains '"' = false := by simpa using hs
  rw [bare, if_pos rfl, hopen]

/-- `Within` for a text that starts outside a string. -/
theorem within_cons (hc : c ≠ '"') :
    Within P (c :: s) ↔ (isSpace c ∨ P c) ∧ Within P s := by
  unfold Within
  rw [bare_cons hc]
  exact List.forall_mem_cons

/-- Plain characters and strings can be left out. -/
theorem Passes.within (h : Passes s rest) (hs : Within P s) : Within P rest := by
  induction h with
  | refl s => exact hs
  | char hc h ih => exact ih ((within_cons hc.1).mp hs).2
  | literal hbody h ih =>
    unfold Within at hs
    rw [bare_string hbody.1] at hs
    exact ih hs

/-- White space is allowed, so that skipping it changes nothing. -/
theorem within_skipSpace : Within P (skipSpace s) ↔ Within P s := by
  refine ⟨fun h => ?_, (passes_skipSpace s).within⟩
  induction s with
  | nil => exact h
  | cons c s ih =>
    by_cases hc : isSpace c
    · have hskip : skipSpace (c :: s) = skipSpace s := List.dropWhile_cons_of_pos hc
      rw [hskip] at h
      exact (within_cons (isPlain_of_isSpace hc).1).mpr ⟨Or.inl hc, ih h⟩
    · rwa [skipSpace_cons_of_not (by simpa using hc)] at h

end

/-! ### Variants -/

/-- `V`, `L` and `M` are closed under what the parser does with a text in `P`. -/
structure Builds (P : Char → Prop) (V : Variant → Prop) (L : VariantList → Prop)
    (M : VariantMap → Prop) : Prop where
  invalid : V .invalid
  null (h : P 'n') : V .null
  bool (b : Bool) : V (.bool b)
  float (q : ℚ) (h : ∃ c, c.isDigit ∧ P c) : V (.float q)
  string (s : Text) (hclean : Clean s) (hshort : s.length + 1 < intLimit) : V (.string s)
  list (vs : VariantList) (h : L vs) : V (.list vs)
  map (es : VariantMap) (h : M es) : V (.map es)
  nil : L []
  concat (vs : VariantList) (v : Variant) (h : L vs) (hvalid : v.isValid) (hv : V v) : L (vs ++ [v])
  empty : M []
  insert (key : Text) (v : Variant) (es : VariantMap) (h : M es)
    (hkey : Clean key ∧ key.length + 1 < intLimit) (hv : V v) : M (SortedAssoc.insert key v es)

/-- What `parseString` returns. -/
def IsString (v : Variant) : Prop :=
  v = .invalid ∨ ∃ s, v = .string s ∧ Clean s ∧ s.length + 1 < intLimit

/-- A string with a value is good for a key. -/
theorem IsString.key {v : Variant} (h : IsString v) (hvalid : v.isValid) :
    Clean v.toText ∧ v.toText.length + 1 < intLimit := by
  rcases h with rfl | ⟨s, rfl, hs⟩
  · cases hvalid
  · exact hs

/-- What `parseString` returns satisfies `V`. -/
theorem Builds.isString {P : Char → Prop} {V : Variant → Prop} {L : VariantList → Prop}
    {M : VariantMap → Prop} (hb : Builds P V L M) {v : Variant} (h : IsString v) : V v := by
  rcases h with rfl | ⟨s, rfl, hclean, hshort⟩
  · exact hb.invalid
  · exact hb.string s hclean hshort

/-! ### Triples of routines -/

/-- The text that is left is in `P`. -/
def Left (P : Char → Prop) (st : ParserState) : Prop := Within P st.input

/-- The text that is left is in `P` and begins with `c`. -/
def At (P : Char → Prop) (c : Char) (st : ParserState) : Prop :=
  Left P st ∧ ∃ s, st.input = c :: s

/-- `x` keeps the text in `P`, and its results are in `Q`. -/
def Reads {α : Type} (P : Char → Prop) (x : Parser α) (Q : α → Prop) : Prop :=
  Triple (Left P) x fun a st => Left P st ∧ Q a

/-- The same for a text that begins with `c`. -/
def ReadsAt {α : Type} (P : Char → Prop) (c : Char) (x : Parser α) (Q : α → Prop) : Prop :=
  Triple (At P c) x fun a st => Left P st ∧ Q a

section
variable {P : Char → Prop} {α β : Type} {Q : α → Prop} {R : β → Prop} {x y : Parser α}

/-- A routine that only returns a value leaves the text as it is. -/
theorem reads_pure {a : α} (h : Q a) : Reads P (pure a) Q := triple_pure fun _ hst => ⟨hst, h⟩

/-- A routine that gives up records its name and leaves the text as it is. -/
theorem reads_giveUp {routine : Routine} {a : α} (h : Q a) : Reads P (giveUp routine a) Q := by
  intro st a' st' hst ha
  obtain ⟨rfl, rfl⟩ := Prod.mk.inj (Except.ok.inj ha)
  exact ⟨hst, h⟩

/-- Two routines one after the other. The second may use what the first has returned. -/
theorem reads_bind {f : α → Parser β} (hx : Reads P x Q) (hf : ∀ a, Q a → Reads P (f a) R) :
    Reads P (x >>= f) R :=
  triple_bind hx fun a => triple_of_imp (hf a)

/-- Both branches of a test. The first may use that the test holds, the second needs no more than
the first knew. -/
theorem reads_ite {c : Prop} [Decidable c] (hx : c → Reads P x Q) (hy : Reads P y Q) :
    Reads P (if c then x else y) Q :=
  triple_ite hx fun _ => hy

/-- White space is removed first. -/
theorem reads_removeWhitespace (hx : Reads P x Q) : Reads P (removeWhitespace >>= fun _ => x) Q := by
  have hspace : Triple (Left P) removeWhitespace fun _ => Left P := by
    intro st _ st' hst h
    obtain ⟨-, rfl⟩ := Prod.mk.inj (Except.ok.inj h)
    exact within_skipSpace.mpr hst
  exact triple_bind hspace fun _ => hx

/-- A look at the first character says what the text begins with. -/
theorem triple_front : Triple (Left P) front (At P) := by
  intro st c st' hst h
  obtain ⟨s, l⟩ := st
  cases s with
  | nil => cases h
  | cons d s =>
    obtain ⟨rfl, rfl⟩ := Prod.mk.inj (Except.ok.inj h)
    exact ⟨hst, s, rfl⟩

/-- A test of the first character. -/
theorem reads_front {d : Char} (hx : ReadsAt P d x Q) (hy : Reads P y Q) :
    Reads P (front >>= fun c => if c = d then x else y) Q := by
  refine triple_bind triple_front fun c => triple_ite (fun hc => ?_) fun _ => ?_
  · rw [hc]
    exact hx
  · exact hy.imp (fun st hst => hst.1) fun _ _ h => h

/-- The first character is removed. -/
theorem readsAt_removePrefix {d : Char} (hd : d ≠ '"') (hx : Reads P x Q) :
    ReadsAt P d (removePrefix 1 >>= fun _ => x) Q := by
  have hprefix : Triple (At P d) (removePrefix 1) fun _ => Left P := by
    rintro ⟨_, l⟩ _ st' ⟨hst, s, rfl⟩ h
    obtain ⟨-, rfl⟩ := Prod.mk.inj (Except.ok.inj h)
    exact ((within_cons hd).mp hst).2
  exact triple_bind hprefix fun _ => hx

/-- A routine that starts at the character that was looked at, and then another. -/
theorem ReadsAt.bind {d : Char} {f : α → Parser β} (hx : ReadsAt P d x Q)
    (hf : ∀ a, Q a → Reads P (f a) R) : ReadsAt P d (x >>= f) R :=
  triple_bind hx fun a => triple_of_imp (hf a)

/-- A routine for any text. -/
theorem Reads.at (hx : Reads P x Q) {d : Char} : ReadsAt P d x Q :=
  hx.imp (fun _ hst => hst.1) fun _ _ h => h

/-- A second look sees the same character. -/
theorem triple_front_again (c : Char) :
    Triple (At P c) front fun d st => At P c st ∧ c = d := by
  rintro ⟨_, l⟩ d st' ⟨hst, s, rfl⟩ h
  obtain ⟨rfl, rfl⟩ := Prod.mk.inj (Except.ok.inj h)
  exact ⟨⟨hst, s, rfl⟩, rfl⟩

/-- A function of the text that moves nothing. -/
theorem reads_view {f : Text → α} (h : ∀ input, Q (f input)) :
    Reads P (view fun input => .ok (f input)) Q := by
  intro st a st' hst ha
  obtain ⟨rfl, rfl⟩ := Prod.mk.inj (Except.ok.inj ha)
  exact ⟨hst, h st.input⟩

/-- A loop whose passes keep an invariant of what it builds. -/
theorem reads_loop {α β : Type} {stop : Stop} {body : α → Parser (Loop.Pass α β)} {Inv : α → Prop}
    {Q : β → Prop} (hbody : ∀ a, Inv a → Reads P (body a) (Loop.Pass.Keeps Inv Q)) (fuel : Nat)
    {a : α} (ha : Inv a) : Reads P (Loop.loop stop body fuel a) Q := by
  have hloop : Triple (fun st => Left P st ∧ Inv a) (Loop.loop stop body fuel a)
      fun b st => Left P st ∧ Q b := by
    refine triple_loop (fun a st => Left P st ∧ Inv a) (fun a => ?_) fuel a
    refine triple_of_imp fun ha => (hbody a ha).imp (fun _ h => h) ?_
    intro pass st h
    cases pass with
    | again next => exact h
    | leave result => exact h
  exact hloop.imp (fun _ hst => ⟨hst, ha⟩) fun _ _ h => h

end

/-! ### Strings, numbers and words -/

section
variable {P : Char → Prop} {V : Variant → Prop} {L : VariantList → Prop} {M : VariantMap → Prop}

/-- `parseString` returns no value or a clean string that fits an `int`, and goes on behind the
closing quote. -/
theorem readsAt_parseString (fuel : Nat) : ReadsAt P '"' (parseString fuel) IsString := by
  rintro ⟨_, l⟩ v st' ⟨hst, s, rfl⟩ h
  cases fuel with
  | zero =>
    rw [parseString_zero] at h
    cases h
  | succ fuel =>
    cases hread : readString s with
    | error e =>
      rw [parseString_of_stuck hread] at h
      cases h
    | ok rest =>
      cases rest with
      | none =>
        rw [parseString_of_unterminated hread] at h
        obtain ⟨rfl, rfl⟩ := Prod.mk.inj (Except.ok.inj h)
        -- nothing closes the string, so its text goes on outside the strings
        have hopen : Left P ⟨'"' :: s, l⟩ := hst
        unfold Left Within at hopen
        rw [bare_unclosed (not_mem_of_readString hread)] at hopen
        exact ⟨hopen, Or.inl rfl⟩
      | some rest =>
        rw [parseString_of_readString hread] at h
        obtain ⟨rfl, rfl⟩ := Prod.mk.inj (Except.ok.inj h)
        have hpasses : Passes ('"' :: s) rest := passes_of_readString hread
        obtain ⟨body, rfl, hclean, hshort, hfind⟩ := readString_ok hread
        refine ⟨within_skipSpace.mpr (hpasses.within hst), Or.inr ⟨body, ?_, hclean, hshort⟩⟩
        rw [hfind]
        simp

/-- A number has a digit. -/
theorem digit_of_readNumber {c : Char} {s rest : Text} (h : readNumber (c :: s) = .ok (true, rest))
    (hs : Within P (c :: s)) : ∃ d, d.isDigit ∧ P d := by
  have hdigit : ∀ {d : Char} {s : Text}, readUnsigned (d :: s) = .ok (true, rest) →
      Within P (d :: s) → ∃ d, d.isDigit ∧ P d := by
    intro d s hread hs
    have hd : d.isDigit := by
      by_contra hnot
      have hzero : d ≠ '0' := by
        rintro rfl
        exact hnot rfl
      rw [readUnsigned, if_neg hzero, if_neg hnot] at hread
      cases hread
    have hplain := (within_cons (isPlain_of_isDigit hd).1).mp hs
    refine ⟨d, hd, hplain.1.resolve_left ?_⟩
    simp [isSpace_of_isDigit hd]
  rw [readNumber] at h
  split at h
  · rename_i hsign
    subst hsign
    have hrest := ((within_cons (by decide)).mp hs).2
    cases s with
    | nil => cases h
    | cons d s => exact hdigit h hrest
  · exact hdigit h hs

/-- `parseNumber` returns no value or a number. The digit that a number needs is one of the text,
outside its strings. -/
theorem readsAt_parseNumber (hb : Builds P V L M) {c : Char} (hc : c.isDigit ∨ c = '-') :
    ReadsAt P c parseNumber V := by
  rintro ⟨_, l⟩ v st' ⟨hst, s, rfl⟩ h
  have hnumber := parseNumber_eq hc s l
  cases hread : readNumber (c :: s) with
  | error e =>
    rw [hread] at hnumber
    rw [hnumber] at h
    cases h
  | ok p =>
    obtain ⟨valid, rest⟩ := p
    have hrest : Within P rest := (passes_of_readNumber hread).within hst
    rw [hread] at hnumber
    cases valid with
    | false =>
      rw [hnumber] at h
      obtain ⟨rfl, rfl⟩ := Prod.mk.inj (Except.ok.inj h)
      exact ⟨hrest, hb.invalid⟩
    | true =>
      obtain ⟨q, r, hout, hskip, -⟩ := hnumber
      rw [hout] at h
      obtain ⟨rfl, rfl⟩ := Prod.mk.inj (Except.ok.inj h)
      refine ⟨?_, hb.float q (digit_of_readNumber hread hst)⟩
      -- the routine may have removed the white space after the number
      show Within P r
      rw [← within_skipSpace, hskip, within_skipSpace]
      exact hrest

/-- The word for null begins with an `n`. -/
theorem Builds.word (hb : Builds P V L M) {c : Char} {s : Text} (hc : P c) :
    V (wordValue ((c :: s).takeWhile Char.isAlpha)) := by
  unfold wordValue
  split
  · exact hb.bool true
  · split
    · exact hb.bool false
    · split
      · rename_i hnull
        have hhead := congrArg List.head? hnull
        rw [List.takeWhile_cons] at hhead
        split at hhead
        · have hn : c = 'n' := Option.some.inj hhead
          exact hb.null (hn ▸ hc)
        · cases hhead
      · exact hb.invalid

/-- `parseLiteral` returns no value, a truth value or a null. The `n` that a null needs is one of
the text, outside its strings. -/
theorem reads_parseLiteral (hb : Builds P V L M) : Reads P parseLiteral V := by
  rintro ⟨s, l⟩ v st' hst h
  -- the white space in front does not matter
  have hrun : parseLiteral ⟨s, l⟩ = parseLiteral ⟨skipSpace s, l⟩ := by simp [parseLiteral]
  rw [hrun] at h
  replace hst : Within P (skipSpace s) := within_skipSpace.mpr hst
  cases hs : skipSpace s with
  | nil =>
    rw [hs] at h
    cases h
  | cons c t =>
    have hspace : isSpace c = false := by
      have hdrop : s.dropWhile isSpace = c :: t := hs
      have hnot := List.head?_dropWhile_not isSpace s
      rw [hdrop] at hnot
      exact hnot
    rw [hs] at h hst
    by_cases hc : c.isAlpha
    · have hword := parseLiteral_eq hc t l
      cases hread : readWord (c :: t) with
      | error e =>
        rw [hread] at hword
        rw [hword] at h
        cases h
      | ok p =>
        obtain ⟨valid, rest⟩ := p
        have hrest : Within P (skipSpace rest) :=
          within_skipSpace.mpr ((passes_of_readWord hread).within hst)
        rw [hread] at hword
        cases valid with
        | false =>
          rw [hword] at h
          obtain ⟨rfl, rfl⟩ := Prod.mk.inj (Except.ok.inj h)
          exact ⟨hrest, hb.invalid⟩
        | true =>
          rw [hword] at h
          obtain ⟨rfl, rfl⟩ := Prod.mk.inj (Except.ok.inj h)
          -- the first letter is outside the strings, so it is in `P`
          have hfirst := ((within_cons (isPlain_of_isAlpha hc).1).mp hst).1
          refine ⟨hrest, hb.word (hfirst.resolve_left ?_)⟩
          simp [hspace]
    · rw [parseLiteral_of_not_alpha (by simpa using hc) hspace] at h
      obtain ⟨rfl, rfl⟩ := Prod.mk.inj (Except.ok.inj h)
      exact ⟨hst, hb.invalid⟩

end

/-! ### Containers -/

section
variable {P : Char → Prop} {V : Variant → Prop} {L : VariantList → Prop} {M : VariantMap → Prop}
  {parseValue : Parser Variant} (hb : Builds P V L M) (hvalue : Reads P parseValue V)
include hb hvalue

/-- `parseArray` puts valid elements at the end of a list, one by one. The invariant of its loop is
that `L` holds of the list so far. -/
theorem reads_parseArray (fuel : Nat) : Reads P (parseArray parseValue fuel) L := by
  -- the invariant of the loop is that the list built so far is one that the parser can build
  have hpass : ∀ array, L array →
      Reads P (arrayPass parseValue array) (Loop.Pass.Keeps L L) := by
    intro array harray
    unfold arrayPass
    refine reads_front ?_ ?_
    · exact readsAt_removePrefix (by decide) (reads_removeWhitespace (reads_pure harray))
    · refine reads_removeWhitespace (reads_bind hvalue fun element helement => ?_)
      refine reads_ite (fun hvalid => ?_) (reads_giveUp hb.nil)
      have hlonger : L (array ++ [element]) := hb.concat array element harray hvalid helement
      refine reads_front ?_ (reads_removeWhitespace (reads_pure hlonger))
      exact readsAt_removePrefix (by decide) (reads_removeWhitespace (reads_pure hlonger))
  unfold parseArray
  refine reads_removeWhitespace (reads_front ?_ (reads_giveUp hb.nil))
  exact readsAt_removePrefix (by decide) (reads_loop hpass fuel hb.nil)

/-- `parseObject` assigns values to keys, one by one. The invariant of its loop is that `M` holds of
the map so far. -/
theorem reads_parseObject (fuel : Nat) : Reads P (parseObject parseValue fuel) M := by
  have hpass : ∀ object, M object →
      Reads P (objectPass parseValue fuel object)
        (Loop.Pass.Keeps M M) := by
    intro object hobject
    unfold objectPass
    refine reads_front ?_ (reads_front ?_ (reads_front ?_ (reads_giveUp hb.empty)))
    · exact readsAt_removePrefix (by decide) (reads_removeWhitespace (reads_pure hobject))
    · refine ReadsAt.bind (readsAt_parseString fuel) fun key hkey => ?_
      refine reads_ite (fun hvalid => ?_) (reads_giveUp hb.empty)
      refine reads_removeWhitespace (reads_front ?_ (reads_giveUp hb.empty))
      refine readsAt_removePrefix (by decide) (reads_removeWhitespace ?_)
      refine reads_bind hvalue fun value hparsed => reads_removeWhitespace ?_
      exact reads_pure (hb.insert key.toText value object hobject (hkey.key hvalid) hparsed)
    · exact readsAt_removePrefix (by decide) (reads_removeWhitespace (reads_pure hobject))
  unfold parseObject
  refine reads_removeWhitespace (reads_front ?_ (reads_giveUp hb.empty))
  refine readsAt_removePrefix (by decide) (reads_removeWhitespace (reads_front ?_ ?_))
  · exact readsAt_removePrefix (by decide) (reads_pure hb.empty)
  · refine reads_front ?_ (reads_giveUp hb.empty)
    exact (reads_loop hpass fuel hb.empty).at

/-- Whatever routine the first character selects, what it builds satisfies `V`. -/
theorem reads_parseByFront (fuel : Nat) : Reads P (parseByFront parseValue fuel) V := by
  unfold parseByFront
  refine reads_front ?_ ?_
  · exact (readsAt_parseString fuel).imp (fun _ h => h) fun _ _ h => ⟨h.1, hb.isString h.2⟩
  · refine triple_bind triple_front fun c => triple_bind (triple_front_again c) fun d => ?_
    refine triple_of_imp fun hd => ?_
    subst hd
    refine triple_ite (readsAt_parseNumber hb) fun _ => ?_
    refine Triple.imp (reads_front ?_ (reads_front ?_ (reads_parseLiteral hb)))
      (fun _ h => h.1) fun _ _ h => h
    · refine ReadsAt.bind (reads_parseObject hb hvalue fuel).at ?_
      exact fun object hobject => reads_pure (hb.map object hobject)
    · refine ReadsAt.bind (reads_parseArray hb hvalue fuel).at ?_
      exact fun array harray => reads_pure (hb.list array harray)

end

section
variable {P : Char → Prop} {V : Variant → Prop} {L : VariantList → Prop} {M : VariantMap → Prop}

/-- The induction on the fuel that ties the routines together: the lists and maps of one level are
built of values of the level below. -/
theorem reads_parseValue (hb : Builds P V L M) (fuel : Nat) : Reads P (parseValue fuel) V := by
  induction fuel with
  | zero =>
    intro st v st' _ h
    cases h
  | succ fuel ih =>
    refine reads_removeWhitespace (reads_bind (reads_parseByFront hb ih fuel) fun v hv => ?_)
    exact reads_removeWhitespace (reads_pure hv)

/-- The run behind a result of `parse`. -/
theorem parseRoot_of_parse {fuel : Nat} {input : Text} {content : Variant} {failed : List Routine}
    (h : parse fuel input = .ok (content, failed)) :
    ∃ st, parseRoot fuel ⟨input, []⟩ = .ok (content, st) := by
  cases hrun : parseRoot fuel ⟨input, []⟩ with
  | error e => rw [parse, hrun] at h; cases h
  | ok p =>
    rw [parse, hrun] at h
    obtain ⟨rfl, -⟩ := Prod.mk.inj (Except.ok.inj h)
    exact ⟨p.2, rfl⟩

/-- `V` holds of what `parse` returns. -/
theorem parse_builds (hb : Builds P V L M) {fuel : Nat} {txt : Text} {v : Variant}
    {failed : List Routine} (htxt : Within P txt) (h : parse fuel txt = .ok (v, failed)) : V v := by
  have hvalue : Reads P (parseValue fuel) V := reads_parseValue hb fuel
  have hroot : Reads P (parseRoot fuel) V := by
    unfold parseRoot
    refine reads_removeWhitespace (reads_front ?_ (reads_front ?_ (reads_pure hb.invalid)))
    · refine ReadsAt.bind (reads_parseObject hb hvalue fuel).at fun object hobject => ?_
      refine reads_removeWhitespace (reads_view fun rest => ?_)
      split
      · exact hb.invalid
      · exact hb.map object hobject
    · refine ReadsAt.bind (reads_parseArray hb hvalue fuel).at fun array harray => ?_
      refine reads_removeWhitespace (reads_view fun rest => ?_)
      split
      · exact hb.invalid
      · exact hb.list array harray
  obtain ⟨st, hrun⟩ := parseRoot_of_parse h
  exact (hroot ⟨txt, []⟩ v st htxt hrun).2

end

end Brutils.Proofs.Json
