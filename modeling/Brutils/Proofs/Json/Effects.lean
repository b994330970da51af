import Brutils.Proofs.Json.Generated
import Brutils.Proofs.Json.Tokens

/-!
# `Brutils.Proofs.Json.Effects`: what one step of the reader does

A step of the reader reads a token, opens or closes a bracket, or breaks a container off.
`Effect` lists these cases with the brackets that are open before and after the step
(`openBrackets`), the text that is left and the failures, and `step_effect` says that there are
no others. What is read between the brackets is plain characters and string literals
(`Passes`).
-/

set_option autoImplicit false

namespace Brutils.Proofs.Json

open Brutils.JsonParser
open Brutils.JsonReader

/-! ### Text without brackets -/

/-- A character that is neither a bracket nor a quote. -/
def IsPlain (c : Char) : Prop := c ≠ '"' ∧ bracketKind c = .neutral

instance (c : Char) : Decidable (IsPlain c) := by
  unfold IsPlain
  infer_instance

/-- From `s` on, plain characters and string literals lead to `rest`. -/
inductive Passes : Text → Text → Prop
  | refl (s : Text) : Passes s s
  | char {c : Char} {s rest : Text} (hc : IsPlain c) (h : Passes s rest) : Passes (c :: s) rest
  | literal {body s rest : Text} (hbody : Clean body) (h : Passes s rest) :
      Passes ('"' :: (body ++ '"' :: s)) rest

section
variable {s rest rest' : Text} {c : Char} {p : Char → Bool}

/-- What leads to `rest` and from there to `rest'` leads to `rest'`: the text between is made of the
pieces of both. -/
theorem Passes.trans (h : Passes s rest) (h' : Passes rest rest') : Passes s rest' := by
  induction h with
  | refl s => exact h'
  | char hc h ih => exact .char hc (ih h')
  | literal hbody h ih => exact .literal hbody (ih h')

/-- One plain character. -/
theorem Passes.cons (hc : IsPlain c) (s : Text) : Passes (c :: s) s := .char hc (.refl s)

/-- Characters that are dropped because they are in a class of plain ones are passed. -/
theorem passes_dropWhile (hp : ∀ c, p c → IsPlain c) (s : Text) : Passes s (s.dropWhile p) := by
  induction s with
  | nil => exact .refl []
  | cons c s ih =>
    rw [List.dropWhile_cons]
    split
    · rename_i hc
      exact .char (hp c hc) ih
    · exact .refl _

/-- White space is neither a bracket nor a quote. -/
theorem isPlain_of_isSpace (hc : isSpace c) : IsPlain c := by
  simp only [isSpace, decide_eq_true_eq] at hc
  rcases hc with rfl | rfl | rfl | rfl | rfl | rfl <;> decide

/-- The reader passes the white space that it skips. -/
theorem passes_skipSpace (s : Text) : Passes s (skipSpace s) :=
  passes_dropWhile (fun _ => isPlain_of_isSpace) s

/-- The same after something else has been passed. -/
theorem Passes.skipSpace (h : Passes s rest) : Passes s (skipSpace rest) :=
  h.trans (passes_skipSpace rest)

/-- A character of a class without brackets and quotes is plain. -/
theorem isPlain_of_class (hc : p c) (hclass : p '"' = false ∧ p '{' = false ∧ p '[' = false ∧
    p '}' = false ∧ p ']' = false) : IsPlain c := by
  obtain ⟨hquote, h1, h2, h3, h4⟩ := hclass
  have hne : ∀ d, p d = false → c ≠ d := by
    rintro d hd rfl
    rw [hc] at hd
    exact absurd hd (by decide)
  refine ⟨hne _ hquote, ?_⟩
  simp only [bracketKind, if_neg (hne _ h1), if_neg (hne _ h2), if_neg (hne _ h3),
    if_neg (hne _ h4)]

/-- A digit is neither a bracket nor a quote. -/
theorem isPlain_of_isDigit (hc : c.isDigit) : IsPlain c := isPlain_of_class hc (by decide)

/-- A letter is neither a bracket nor a quote. -/
theorem isPlain_of_isAlpha (hc : c.isAlpha) : IsPlain c := isPlain_of_class hc (by decide)

/-! ### Tokens -/

/-- A run of plain characters that is read is passed. -/
theorem passes_of_readRun (hp : ∀ c, p c → IsPlain c) (h : readRun p s = .ok rest) :
    Passes s rest := by
  rw [(readRun_ok h).1]
  exact passes_dropWhile hp s

/-- An exponent consists of a letter, a sign and digits, so it is passed. -/
theorem passes_of_readExponent (h : readExponent s = .ok rest) : Passes s rest := by
  unfold readExponent at h
  split at h
  · cases h
  · split at h
    · rename_i c s he
      have hc : IsPlain c := by rcases he with rfl | rfl <;> decide
      refine (Passes.cons hc s).trans ?_
      split at h
      · cases h
      · rename_i d s
        have hrun := passes_of_readRun (fun _ => isPlain_of_isDigit) h
        split at hrun
        · rename_i hd
          subst hd
          exact (Passes.cons (by decide) s).trans hrun
        · exact hrun
    · rw [← Except.ok.inj h]
      exact .refl _

/-- A fraction consists of a point, digits and an exponent, so it is passed. -/
theorem passes_of_readFraction (h : readFraction s = .ok rest) : Passes s rest := by
  unfold readFraction at h
  split at h
  · cases h
  · split at h
    · rename_i c s hdot
      subst hdot
      refine (Passes.cons (by decide) s).trans ?_
      cases hrun : readRun Char.isDigit s with
      | error e => rw [hrun] at h; cases h
      | ok rest' =>
        rw [hrun] at h
        have hexp := passes_of_readExponent h
        exact (passes_of_readRun (fun _ => isPlain_of_isDigit) hrun).trans hexp
    · exact passes_of_readExponent h

/-- A number without its sign is passed, whether it has a value or not. -/
theorem passes_of_readUnsigned {valid : Bool} (h : readUnsigned s = .ok (valid, rest)) :
    Passes s rest := by
  cases s with
  | nil => cases h
  | cons c s =>
    simp only [readUnsigned] at h
    split at h
    · rename_i hzero
      subst hzero
      refine (Passes.cons (by decide) s).trans ?_
      cases hfrac : readFraction s with
      | error e => rw [hfrac] at h; cases h
      | ok rest' =>
        rw [hfrac] at h
        obtain ⟨-, rfl⟩ := Prod.mk.inj (Except.ok.inj h)
        exact passes_of_readFraction hfrac
    · split at h
      · cases hrun : readRun Char.isDigit (c :: s) with
        | error e => rw [hrun] at h; cases h
        | ok rest' =>
          rw [hrun] at h
          have h : (readFraction rest').map (fun rest => (true, rest)) = .ok (valid, rest) := h
          refine (passes_of_readRun (fun _ => isPlain_of_isDigit) hrun).trans ?_
          cases hfrac : readFraction rest' with
          | error e => rw [hfrac] at h; cases h
          | ok rest'' =>
            rw [hfrac] at h
            obtain ⟨-, rfl⟩ := Prod.mk.inj (Except.ok.inj h)
            exact passes_of_readFraction hfrac
      · obtain ⟨-, rfl⟩ := Prod.mk.inj (Except.ok.inj h)
        exact .refl _

/-- A number is passed, whether it has a value or not. -/
theorem passes_of_readNumber {valid : Bool} (h : readNumber s = .ok (valid, rest)) :
    Passes s rest := by
  cases s with
  | nil => cases h
  | cons c s =>
    rw [readNumber] at h
    have hunsigned := passes_of_readUnsigned h
    split at hunsigned
    · rename_i hsign
      subst hsign
      exact (Passes.cons (by decide) s).trans hunsigned
    · exact hunsigned

/-- A word is passed, whether it is a literal or not. -/
theorem passes_of_readWord {valid : Bool} (h : readWord s = .ok (valid, rest)) :
    Passes s rest := by
  unfold readWord at h
  cases hrun : readRun Char.isAlpha s with
  | error e => rw [hrun] at h; cases h
  | ok rest' =>
    rw [hrun] at h
    obtain ⟨-, rfl⟩ := Prod.mk.inj (Except.ok.inj h)
    exact passes_of_readRun (fun _ => isPlain_of_isAlpha) hrun

/-- A string that the reader reads is clean, and no longer than an `int` can count. -/
theorem readString_ok (h : readString s = .ok (some rest)) :
    ∃ body, s = body ++ '"' :: rest ∧ Clean body ∧ body.length + 1 < intLimit ∧
      findQuote s 0 = some body.length := by
  unfold readString at h
  cases hfind : findQuote s 0 with
  | none => rw [hfind] at h; cases h
  | some size =>
    simp only [hfind] at h
    split at h
    · cases h
    · split at h
      · cases h
      · rename_i hback
        split at h
        · cases h
        · rename_i hlen
          have hrest : rest = s.drop (size + 1) :=
            (Option.some.inj (Except.ok.inj h)).symm
          simp only [findQuote, List.drop_zero, Option.map_eq_some_iff, Nat.add_zero,
            exists_eq_right] at hfind
          obtain ⟨hlt, hquote, hbefore⟩ := List.findIdx?_eq_some_iff_getElem.mp hfind
          have hsize : (s.take size).length = size := by
            rw [List.length_take]
            omega
          refine ⟨s.take size, ?_, ⟨fun hmem => ?_, fun hlast => hback ?_⟩, by omega, by rw [hsize]⟩
          · conv_lhs => rw [← List.take_append_drop size s, List.drop_eq_getElem_cons hlt]
            rw [of_decide_eq_true hquote, hrest]
          -- the literal is what comes before the first quote, so no quote is in it
          · obtain ⟨j, hj, hget⟩ := List.getElem_of_mem hmem
            rw [hsize] at hj
            rw [List.getElem_take] at hget
            exact hbefore j hj (decide_eq_true hget)
          -- its last character is the one that the search has looked at
          · rw [List.getLast?_take] at hlast
            split at hlast
            · cases hlast
            · rename_i hpos
              refine ⟨hpos, ?_⟩
              rw [List.getElem?_eq_getElem (by omega)] at hlast ⊢
              exact hlast

/-- A string that is not closed has no quote. -/
theorem not_mem_of_readString (h : readString s = .ok none) : '"' ∉ s := by
  unfold readString at h
  cases hfind : findQuote s 0 with
  | none =>
    intro hmem
    simp only [findQuote, List.drop_zero, Option.map_eq_none_iff, List.findIdx?_eq_none_iff]
      at hfind
    exact absurd (hfind '"' hmem) (by decide)
  | some size =>
    simp only [hfind] at h
    repeat' split at h
    all_goals cases h

/-- A string that ends is passed with both its quotes. -/
theorem passes_of_readString (h : readString s = .ok (some rest)) : Passes ('"' :: s) rest := by
  obtain ⟨body, rfl, hbody, -, -⟩ := readString_ok h
  exact .literal hbody (.refl rest)

end

/-! ### Steps -/

/-- The brackets that are open at a configuration. -/
def openBrackets (c : Config) : List Frame :=
  match c.point with
  | .root => []
  | .members => .object :: c.stack
  | .elements => .array :: c.stack
  | _ => c.stack

/-- What a step does: the open brackets, the text and the failures before and after it. -/
inductive Effect : List Frame → Text → List Routine → List Frame → Text → List Routine → Prop
  /-- a token without brackets -/
  | token {stack : List Frame} {l : List Routine} {s rest : Text} (h : Passes s rest) :
      Effect stack s l stack rest l
  /-- a number without digits -/
  | noDigits {stack : List Frame} {l : List Routine} {s rest : Text} (h : Passes s rest) :
      Effect stack s l stack rest (.parseNumber :: l)
  /-- an opening bracket -/
  | opening {stack : List Frame} {l : List Routine} {s rest : Text} {c : Char} {frame : Frame}
      (hc : c ≠ '"') (hkind : bracketKind c = .opening frame) (h : Passes s rest) :
      Effect stack (c :: s) l (frame :: stack) rest l
  /-- a closing bracket -/
  | closing {stack : List Frame} {l : List Routine} {s rest : Text} {c : Char} {frame : Frame}
      (hc : c ≠ '"') (hkind : bracketKind c = .closing frame) (h : Passes s rest) :
      Effect (frame :: stack) (c :: s) l stack rest l
  /-- an object without members -/
  | empty {stack : List Frame} {l : List Routine} {s t rest : Text} (h : Passes s ('}' :: t))
      (h' : Passes t rest) : Effect stack ('{' :: s) l stack rest l
  /-- a word that denotes no value, or no word -/
  | noWord {stack : List Frame} {l : List Routine} {s rest : Text} (h : Passes s rest) :
      Effect stack s l stack rest (.parseLiteral :: l)
  /-- a string that is not closed -/
  | noString {stack : List Frame} {l : List Routine} {s : Text} (h : readString s = .ok none) :
      Effect stack ('"' :: s) l stack (skipSpace s) (.parseString :: l)
  /-- a bracket that opens no object -/
  | noObject {stack : List Frame} {l : List Routine} {s rest : Text} (h : Passes s rest) :
      Effect stack ('{' :: s) l stack rest (.parseObject :: l)
  /-- an object that breaks off -/
  | objectBreaks {stack : List Frame} {l : List Routine} {s rest : Text} (h : Passes s rest) :
      Effect (.object :: stack) s l stack rest (.parseObject :: l)
  /-- an object that breaks off at a key that is not closed -/
  | noKey {stack : List Frame} {l : List Routine} {s : Text} (h : readString s = .ok none) :
      Effect (.object :: stack) ('"' :: s) l stack (skipSpace s)
        (.parseObject :: .parseString :: l)
  /-- an array that breaks off -/
  | arrayBreaks {stack : List Frame} {l : List Routine} {s rest : Text} (h : Passes s rest) :
      Effect (.array :: stack) s l stack rest (.parseArray :: l)

/-- A step from a place before `s` with `stack` open. -/
def HasEffect (stack : List Frame) (l : List Routine) (s : Text) (d : Config) : Prop :=
  Effect stack s l (openBrackets d) d.input d.failed

section
variable {stack : List Frame} {l : List Routine} {s rest : Text} {valid : Bool} {d : Config}

/-- A reading under another name for its errors that succeeds has succeeded itself. -/
theorem mapError_eq_ok {ε ε' α : Type} {f : ε → ε'} {x : Except ε α} {a : α}
    (h : x.mapError f = .ok a) : x = .ok a := by
  cases x with
  | error e => cases h
  | ok a' => rw [Except.ok.inj h]

/-- A string. -/
theorem stepString_effect (h : stepValue stack l ('"' :: s) = .ok d) :
    HasEffect stack l ('"' :: s) d := by
  simp only [stepValue, if_true] at h
  cases hread : readString s with
  | error e => rw [hread] at h; cases h
  | ok rest =>
    rw [hread] at h
    obtain rfl := Except.ok.inj h
    cases rest with
    | none => exact .noString hread
    | some rest => exact .token (passes_of_readString hread).skipSpace

/-- A number, or a sign that begins none. -/
theorem readNumber_effect
    (h : (readNumber s).map (fun (valid, rest) =>
      afterValue stack rest (if valid then l else .parseNumber :: l) valid) = .ok d) :
    HasEffect stack l s d := by
  cases hread : readNumber s with
  | error e => rw [hread] at h; cases h
  | ok p =>
    obtain ⟨valid, rest⟩ := p
    rw [hread] at h
    obtain rfl := Except.ok.inj h
    have hpasses := (passes_of_readNumber hread).skipSpace
    cases valid with
    | true => exact .token hpasses
    | false => exact .noDigits hpasses

/-- A word, one of the three or not. -/
theorem readWord_effect
    (h : (readWord s).map (fun (valid, rest) =>
      afterValue stack rest (if valid then l else .parseLiteral :: l) valid) = .ok d) :
    HasEffect stack l s d := by
  cases hread : readWord s with
  | error e => rw [hread] at h; cases h
  | ok p =>
    obtain ⟨valid, rest⟩ := p
    rw [hread] at h
    obtain rfl := Except.ok.inj h
    have hpasses := (passes_of_readWord hread).skipSpace
    cases valid with
    | true => exact .token hpasses
    | false => exact .noWord hpasses

/-- The opening bracket of an object, with what comes after it. -/
theorem stepObject_effect (h : stepValue stack l ('{' :: s) = .ok d) :
    HasEffect stack l ('{' :: s) d := by
  have hnumber : ¬('{'.isDigit ∨ '{' = '-') := by decide
  simp only [stepValue, if_neg hnumber, if_true, if_neg (show '{' ≠ '"' by decide)] at h
  have hspace := passes_skipSpace s
  cases hs : skipSpace s with
  | nil => rw [hs] at h; cases h
  | cons c rest =>
    rw [hs] at h hspace
    simp only at h
    split at h
    · rename_i hclose
      subst hclose
      obtain rfl := Except.ok.inj h
      exact .empty hspace (passes_skipSpace rest)
    · split at h
      · rename_i hkey
        subst hkey
        obtain rfl := Except.ok.inj h
        exact .opening (by decide) rfl hspace
      · obtain rfl := Except.ok.inj h
        exact .noObject hspace.skipSpace

/-- A value, by its first character. -/
theorem stepValue_effect (h : stepValue stack l s = .ok d) : HasEffect stack l s d := by
  cases s with
  | nil => cases h
  | cons c s =>
    by_cases hquote : c = '"'
    · subst hquote
      exact stepString_effect h
    by_cases hobject : c = '{'
    · subst hobject
      exact stepObject_effect h
    simp only [stepValue, if_neg hquote, if_neg hobject] at h
    split at h
    · exact readNumber_effect h
    · split at h
      · rename_i harray
        subst harray
        obtain rfl := Except.ok.inj h
        exact .opening (by decide) rfl (.refl s)
      · split at h
        · exact readWord_effect h
        · obtain rfl := Except.ok.inj h
          exact .noWord (passes_skipSpace (c :: s))

/-- A key with its colon is passed, and the value behind it follows. Without the closing quote or
the colon the map breaks off. -/
theorem stepKey_effect (h : stepKey stack l s = .ok d) :
    HasEffect (.object :: stack) l ('"' :: s) d := by
  cases hread : readString s with
  | error e =>
    rw [stepKey, hread] at h
    cases h
  | ok rest =>
    cases rest with
    | none =>
      rw [stepKey, hread] at h
      obtain rfl := Except.ok.inj h
      exact .noKey hread
    | some rest =>
      have hkey := (passes_of_readString hread).skipSpace
      cases hrest : skipSpace rest with
      | nil =>
        rw [stepKey_of_end stack l hread hrest] at h
        cases h
      | cons c rest' =>
        rw [hrest] at hkey
        rw [stepKey_of_next stack l hread hrest] at h
        obtain rfl := Except.ok.inj h
        split
        · rename_i hcolon
          subst hcolon
          exact .token (hkey.trans (.char (by decide) (passes_skipSpace rest')))
        · exact .objectBreaks hkey.skipSpace

/-- In a map the step closes it, passes a comma or reads a key. At any other character the map breaks
off. -/
theorem stepMembers_effect (h : stepMembers stack l s = .ok d) :
    HasEffect (.object :: stack) l s d := by
  cases s with
  | nil => cases h
  | cons c s =>
    simp only [stepMembers] at h
    split at h
    · rename_i hclose
      subst hclose
      obtain rfl := Except.ok.inj h
      exact .closing (by decide) rfl (passes_skipSpace s)
    · split at h
      · rename_i hquote
        subst hquote
        exact stepKey_effect h
      · split at h
        · rename_i hcomma
          subst hcomma
          obtain rfl := Except.ok.inj h
          exact .token (.char (by decide) (passes_skipSpace s))
        · obtain rfl := Except.ok.inj h
          exact .objectBreaks (passes_skipSpace (c :: s))

/-- In front of an element the step closes the list or goes on to a value. -/
theorem stepElements_effect (h : stepElements stack l s = .ok d) :
    HasEffect (.array :: stack) l s d := by
  cases s with
  | nil => cases h
  | cons c s =>
    simp only [stepElements] at h
    split at h
    · rename_i hclose
      subst hclose
      obtain rfl := Except.ok.inj h
      exact .closing (by decide) rfl (passes_skipSpace s)
    · obtain rfl := Except.ok.inj h
      exact .token (passes_skipSpace (c :: s))

/-- Behind an element the step closes the list, passes a comma, or breaks off at any other
character. -/
theorem stepElementRead_effect (h : stepElementRead stack l s = .ok d) :
    HasEffect (.array :: stack) l s d := by
  cases s with
  | nil => cases h
  | cons c s =>
    obtain rfl := Except.ok.inj h
    by_cases hcomma : c = ','
    · subst hcomma
      exact .token (.char (by decide) (passes_skipSpace s))
    · refine .token ?_
      simp only [if_neg hcomma]
      exact passes_skipSpace (c :: s)

/-- The first step skips the white space in front of the outermost container. -/
theorem stepRoot_effect (h : stepRoot l (skipSpace s) = .ok d) : HasEffect [] l s d := by
  have hspace := passes_skipSpace s
  cases hs : skipSpace s with
  | nil => rw [hs] at h; cases h
  | cons c rest =>
    rw [hs, stepRoot] at h
    rw [hs] at hspace
    split at h
    · obtain rfl := Except.ok.inj h
      exact .token hspace
    · cases h

/-- One step of the reader. -/
theorem step_effect {c : Config} (h : step c = .ok d) :
    HasEffect (openBrackets c) c.failed c.input d := by
  obtain ⟨point, stack, s, l⟩ := c
  cases point with
  | root => exact stepRoot_effect h
  | value => exact stepValue_effect (mapError_eq_ok h)
  | members => exact stepMembers_effect (mapError_eq_ok h)
  | elements => exact stepElements_effect (mapError_eq_ok h)
  | back valid =>
    cases stack with
    | nil => cases h
    | cons frame stack =>
      cases frame with
      | object =>
        obtain rfl := Except.ok.inj h
        exact .token (passes_skipSpace s)
      | array =>
        cases valid with
        | true => exact stepElementRead_effect (mapError_eq_ok h)
        | false =>
          obtain rfl := Except.ok.inj h
          exact .arrayBreaks (passes_skipSpace s)

/-- Failures are only added. -/
theorem Effect.suffix {stack' : List Frame} {s' : Text} {l' : List Routine}
    (h : Effect stack s l stack' s' l') : l <:+ l' := by
  cases h with
  | noKey => exact ⟨[.parseObject, .parseString], rfl⟩
  | token | opening | closing | empty => exact List.suffix_rfl
  | noDigits | noWord | noString | noObject | objectBreaks | arrayBreaks =>
    exact List.suffix_cons _ _

end

end Brutils.Proofs.Json
