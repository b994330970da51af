import Brutils.Proofs.Json.Acceptance
import Mathlib.Algebra.Group.Int.Even

/-!
# `Brutils.Proofs.Json.BrokenArrays`: how many arrays break off in an accepted text

An array that breaks off is left without its closing bracket, which stays in the text. So the
arrays that are open, those that have broken off, and the opening brackets that are left
balance (`ledger`): a step of the reader changes their sum only at a string that is not
closed, and in a text with an even number of quotes there is none (`Effect.balance`). When such
a text is read to its end, as many arrays have broken off as it has opening brackets too many
(`count_broken`).
-/

set_option autoImplicit false

namespace Brutils.Proofs.Json

open Machine (Reaches HaltsAt)
open Brutils.JsonParser
open Brutils.JsonReader

/-- The brackets that open arrays, less those that close them, outside string literals. -/
def arrayDepth (s : Text) : Int :=
  ((outside false s).count '[' : Int) - ((outside false s).count ']' : Int)

/-- The opening brackets that are left, the open arrays and the broken ones. -/
def ledger (stack : List Frame) (s : Text) (l : List Routine) : Int :=
  arrayDepth s + (stack.count .array : Int) + (l.count .parseArray : Int)

/-- The text has an even number of quotes. -/
def EvenQuotes (s : Text) : Prop := Even (s.count '"')

section
variable {s rest : Text} {c : Char}

/-- A character outside the strings counts by itself. -/
theorem arrayDepth_cons (hc : c ≠ '"') (s : Text) :
    arrayDepth (c :: s) = (if c = '[' then 1 else if c = ']' then -1 else 0) + arrayDepth s := by
  unfold arrayDepth
  rw [outside_cons hc, List.count_cons, List.count_cons]
  by_cases hopen : c = '['
  · subst hopen
    simp
    omega
  · by_cases hclose : c = ']'
    · subst hclose
      simp
      omega
    · simp [hopen, hclose]

/-- A plain character is no square bracket. -/
theorem isPlain_ne_bracket (hc : IsPlain c) : c ≠ '[' ∧ c ≠ ']' := by
  refine ⟨?_, ?_⟩
  · rintro rfl
    exact nomatch hc.2
  · rintro rfl
    exact nomatch hc.2

/-- What the reader passes has no brackets, so the depth is that of the rest. -/
theorem Passes.arrayDepth_eq (h : Passes s rest) : arrayDepth s = arrayDepth rest := by
  induction h with
  | refl s => rfl
  | char hc h ih =>
    obtain ⟨hopen, hclose⟩ := isPlain_ne_bracket hc
    rw [arrayDepth_cons hc.1, if_neg hopen, if_neg hclose, ih, Int.zero_add]
  | @literal body s rest hbody h ih =>
    rw [← ih]
    have hliteral : outside false ('"' :: (body ++ '"' :: s)) = outside false s :=
      outside_literal body s hbody.1 hbody.2
    show ((outside false ('"' :: (body ++ '"' :: s))).count '[' : Int)
      - ((outside false ('"' :: (body ++ '"' :: s))).count ']' : Int) = _
    rw [hliteral]
    rfl

/-- A character that is no quote does not matter to the parity. -/
theorem evenQuotes_cons (hc : c ≠ '"') (s : Text) : EvenQuotes (c :: s) ↔ EvenQuotes s := by
  unfold EvenQuotes
  rw [List.count_cons_of_ne hc]

/-- What the reader passes has its quotes in pairs. -/
theorem Passes.evenQuotes (h : Passes s rest) : EvenQuotes s ↔ EvenQuotes rest := by
  induction h with
  | refl s => exact Iff.rfl
  | char hc h ih => exact (evenQuotes_cons hc.1 _).trans ih
  | @literal body s rest hbody h ih =>
    rw [← ih]
    unfold EvenQuotes
    rw [List.count_cons_self, List.count_append, List.count_cons_self,
      List.count_eq_zero.mpr hbody.1]
    grind

/-- A string that is not closed has no quote but the first. -/
theorem not_evenQuotes_of_unterminated (h : readString s = .ok none) : ¬EvenQuotes ('"' :: s) := by
  unfold EvenQuotes
  rw [List.count_cons_self, List.count_eq_zero.mpr (not_mem_of_readString h)]
  decide

/-- The two opening brackets. -/
theorem eq_of_opening {frame : Frame} (h : bracketKind c = .opening frame) :
    c = '{' ∧ frame = .object ∨ c = '[' ∧ frame = .array := by
  unfold bracketKind at h
  split at h
  · exact Or.inl ⟨by assumption, (Brackets.Kind.opening.inj h).symm⟩
  · split at h
    · exact Or.inr ⟨by assumption, (Brackets.Kind.opening.inj h).symm⟩
    · split at h
      · cases h
      · split at h <;> cases h

/-- The two closing brackets. -/
theorem eq_of_closing {frame : Frame} (h : bracketKind c = .closing frame) :
    c = '}' ∧ frame = .object ∨ c = ']' ∧ frame = .array := by
  unfold bracketKind at h
  split at h
  · cases h
  · split at h
    · cases h
    · split at h
      · exact Or.inl ⟨by assumption, (Brackets.Kind.closing.inj h).symm⟩
      · split at h
        · exact Or.inr ⟨by assumption, (Brackets.Kind.closing.inj h).symm⟩
        · cases h

end

/-- A step keeps the number of quotes even, and the ledger as it is. -/
theorem Effect.balance {stack stack' : List Frame} {s s' : Text} {l l' : List Routine}
    (h : Effect stack s l stack' s' l') (heven : EvenQuotes s) :
    EvenQuotes s' ∧ ledger stack' s' l' = ledger stack s l := by
  cases h with
  | token hpasses =>
    exact ⟨hpasses.evenQuotes.mp heven, by simp only [ledger, hpasses.arrayDepth_eq]⟩
  | noDigits hpasses | noWord hpasses =>
    exact ⟨hpasses.evenQuotes.mp heven, by simp [ledger, hpasses.arrayDepth_eq]⟩
  | opening hc hkind hpasses =>
    refine ⟨hpasses.evenQuotes.mp ((evenQuotes_cons hc _).mp heven), ?_⟩
    rcases eq_of_opening hkind with ⟨rfl, rfl⟩ | ⟨rfl, rfl⟩
    · simp [ledger, arrayDepth_cons, hpasses.arrayDepth_eq]
    · simp [ledger, arrayDepth_cons, hpasses.arrayDepth_eq]
      omega
  | closing hc hkind hpasses =>
    refine ⟨hpasses.evenQuotes.mp ((evenQuotes_cons hc _).mp heven), ?_⟩
    rcases eq_of_closing hkind with ⟨rfl, rfl⟩ | ⟨rfl, rfl⟩
    · simp [ledger, arrayDepth_cons, hpasses.arrayDepth_eq]
    · simp [ledger, arrayDepth_cons, hpasses.arrayDepth_eq]
      omega
  | empty hpasses hpasses' =>
    have hclose := hpasses.evenQuotes.mp ((evenQuotes_cons (by decide) _).mp heven)
    refine ⟨hpasses'.evenQuotes.mp ((evenQuotes_cons (by decide) _).mp hclose), ?_⟩
    simp [ledger, arrayDepth_cons, hpasses.arrayDepth_eq, hpasses'.arrayDepth_eq]
  | noString hread => exact absurd heven (not_evenQuotes_of_unterminated hread)
  | noObject hpasses =>
    refine ⟨hpasses.evenQuotes.mp ((evenQuotes_cons (by decide) _).mp heven), ?_⟩
    simp [ledger, arrayDepth_cons, hpasses.arrayDepth_eq]
  | objectBreaks hpasses =>
    exact ⟨hpasses.evenQuotes.mp heven, by simp [ledger, hpasses.arrayDepth_eq]⟩
  | noKey hread => exact absurd heven (not_evenQuotes_of_unterminated hread)
  | arrayBreaks hpasses =>
    -- one array less is open, and one more has broken off
    refine ⟨hpasses.evenQuotes.mp heven, ?_⟩
    simp [ledger, hpasses.arrayDepth_eq]
    omega

section
variable {txt : Text} {c : Config}

/-- The run lemma: the brackets that are open, those that are left and the arrays that have broken
off add up to the depth of the text. -/
theorem balance_of_reaches (heven : EvenQuotes txt) (h : Reaches step (start txt) c) :
    EvenQuotes c.input ∧ ledger (openBrackets c) c.input c.failed = arrayDepth txt := by
  refine h.induct (P := fun c => EvenQuotes c.input ∧
    ledger (openBrackets c) c.input c.failed = arrayDepth txt) ?_ ?_
  · exact ⟨heven, by simp [ledger, openBrackets, start]⟩
  · intro c d hc hstep
    have hbalance := (step_effect hstep).balance hc.1
    exact ⟨hbalance.1, hbalance.2.trans hc.2⟩

/-- As many arrays have broken off in a text that is read to its end as it has brackets too
many. -/
theorem count_broken (heven : EvenQuotes txt) (h : HaltsAt step (start txt) c .finished)
    (hend : c.input = []) : (c.failed.count .parseArray : Int) = arrayDepth txt := by
  have hbalance := (balance_of_reaches heven h.1).2
  rw [openBrackets_of_finished h.2, hend] at hbalance
  rw [← hbalance]
  simp [ledger, arrayDepth, outside]

end

end Brutils.Proofs.Json
