import Brutils.Proofs.Json.Ordered
import Brutils.Proofs.Json.Parsed
import Brutils.Proofs.Json.Reading
import Mathlib.Data.Bool.AllAny

/-!
# `Brutils.Proofs.Json.Reencoding`: reading a document and writing it back

`genValue` asks `isNull` before it writes `null`, and `isNull` is false for the variant that
`parseLiteral` makes of the word. So a null is written as nothing. `reencodes_iff` says that this is
the only loss for a document without numbers: the text that the generator writes for an accepted
variant is read back if and only if there is no null in the variant.

In one direction a variant that the parser builds is readable (`Parsed.readable`). In the other
the generated text has no `n` outside its strings (`within_generate`), so no variant that is
read from it has a null in it (`Parsed.not_null`).
-/

set_option autoImplicit false

namespace Brutils.Proofs.Json

open Loop (Results results_pure results_bind_any results_ite)
open Brutils.JsonParser
open Brutils.JsonGenerator
open Brutils.JsonReader
open Variant (Occurs)

/-- With enough fuel the compact text of `v` is accepted, and it denotes `v`. -/
def Reencodes (v : Variant) : Prop :=
  ∃ n, ∀ fuel, n ≤ fuel → ∃ failed, parse fuel (generate v true) = .ok (v, failed)

/-! ### The text of a variant outside its strings -/

/-- `s` brings nothing that is not in `Q`, whatever comes after it. -/
def Adds (Q : Char → Prop) (s : Text) : Prop := ∀ rest, Within Q rest → Within Q (s ++ rest)

section
variable {Q : Char → Prop} {s t : Text}

/-- Nothing adds nothing. -/
theorem adds_nil : Adds Q [] := fun _ hrest => hrest

/-- Two texts in a row. -/
theorem Adds.append (hs : Adds Q s) (ht : Adds Q t) : Adds Q (s ++ t) := by
  intro rest hrest
  rw [List.append_assoc]
  exact hs _ (ht rest hrest)

/-- One character outside the strings. -/
theorem Adds.cons {c : Char} (hc : c ≠ '"') (hQ : isSpace c ∨ Q c) (hs : Adds Q s) :
    Adds Q (c :: s) :=
  fun rest hrest => (within_cons hc).mpr ⟨hQ, hs rest hrest⟩

/-- Characters that are all allowed. -/
theorem adds_of_plain (hs : ∀ c ∈ s, c ≠ '"' ∧ (isSpace c ∨ Q c)) : Adds Q s := by
  induction s with
  | nil => exact adds_nil
  | cons c s ih =>
    obtain ⟨hc, hQ⟩ := hs c List.mem_cons_self
    exact .cons hc hQ (ih fun d hd => hs d (List.mem_cons_of_mem c hd))

/-- A clean string is not outside the strings, whatever is in it. -/
theorem adds_genString (hs : Clean s) : Adds Q (genString (.string s)) := by
  intro rest hrest
  rw [genString_eq]
  simp only [List.cons_append, List.append_assoc, List.nil_append]
  unfold Within
  rw [bare_string hs.1]
  exact hrest

/-- The items of a container, with what stands between and behind them. -/
theorem adds_write {α : Type} {code : α → Text} {sep close : Text} {as : List α}
    (hcode : ∀ a ∈ as, Adds Q (code a)) (hsep : Adds Q sep) (hclose : Adds Q close) :
    Adds Q (ItemList.write code sep close as) := by
  induction as with
  | nil => exact hclose
  | cons a as ih =>
    have ha := hcode a List.mem_cons_self
    have has := ih fun b hb => hcode b (List.mem_cons_of_mem a hb)
    cases as with
    | nil => exact ha.append hclose
    | cons b as => exact ha.append (hsep.append has)

end

/-- A null is written as nothing: `isNull` asks for another variant. -/
theorem genValue_null (compact : Bool) (depth : Nat) : genValue .null compact depth = [] := by
  simp [genValue, Variant.isNull, Variant.isBool, Variant.isInt, Variant.isFloat,
    Variant.isDouble, Variant.isString]

/-- No value is written as nothing. -/
theorem genValue_invalid (compact : Bool) (depth : Nat) :
    genValue .invalid compact depth = [] := by
  simp [genValue, Variant.isValid, Variant.isBool, Variant.isInt, Variant.isFloat,
    Variant.isDouble, Variant.isString]

section
variable {P : Char → Prop} {v : Variant}

/-- Outside the strings the generator writes no `n`, as long as there are no numbers. -/
theorem adds_genValue (hv : Parsed P v) (hdigits : ¬∃ c, c.isDigit ∧ P c) (depth : Nat) :
    Adds (· ≠ 'n') (genValue v true depth) := by
  induction hv generalizing depth with
  | invalid =>
    rw [genValue_invalid]
    exact adds_nil
  | null h =>
    rw [genValue_null]
    exact adds_nil
  | bool b =>
    rw [genValue_bool]
    cases b with
    | true => exact adds_of_plain (s := "true".toList) (List.all_iff_forall_prop.mp rfl)
    | false => exact adds_of_plain (s := "false".toList) (List.all_iff_forall_prop.mp rfl)
  | float q h => exact absurd h hdigits
  | string s h hshort =>
    rw [genValue_string]
    exact adds_genString h
  | list vs hvalid hvs ih =>
    rw [genValue_list]
    refine .cons (by decide) (Or.inr (by decide)) (adds_write (fun v hv => ?_) ?_ ?_)
    · exact ih v hv (depth + 1)
    · exact adds_of_plain (List.all_iff_forall_prop.mp rfl)
    · exact adds_of_plain (s := [']']) (List.all_iff_forall_prop.mp rfl)
  | map es hkeys hes ih =>
    rw [genValue_map]
    refine .cons (by decide) (Or.inr (by decide)) (adds_write (fun e he => ?_) ?_ ?_)
    · have hkey : Adds (· ≠ 'n') (genString (.string e.1)) := adds_genString (hkeys e he).1
      have hcolon : Adds (· ≠ 'n') [':', ' '] := adds_of_plain (List.all_iff_forall_prop.mp rfl)
      exact (hkey.append hcolon).append (ih e he (depth + 1))
    · exact adds_of_plain (List.all_iff_forall_prop.mp rfl)
    · exact adds_of_plain (s := ['}']) (List.all_iff_forall_prop.mp rfl)

/-- Without digits in the text there are no numbers in the variant. Then nothing that the generator
writes outside the strings has an `n` in it. -/
theorem within_generate (hv : Parsed P v) (hdigits : ¬∃ c, c.isDigit ∧ P c) :
    Within (· ≠ 'n') (generate v true) := by
  have hadds := adds_genValue hv hdigits 0 [] fun c hc => absurd hc List.not_mem_nil
  rwa [List.append_nil] at hadds

/-! ### Variants without null -/

/-- Every variant but the invalid one has a value. -/
theorem isValid_of_ne (h : v ≠ .invalid) : v.isValid = true := by
  cases v with
  | invalid => exact absurd rfl h
  | _ => rfl

/-- A variant from the parser with neither a null nor a number in it is read back. -/
theorem Parsed.readable (hv : Parsed P v) (hordered : v.Ordered) (hvalid : v.isValid = true)
    (hdigits : ¬∃ c, c.isDigit ∧ P c) (hnull : ¬Occurs .null v) : Readable true v := by
  induction hv with
  | invalid => cases hvalid
  | null h => exact absurd .here hnull
  | bool b => exact .bool b
  | float q h => exact absurd h hdigits
  | string s h hshort => exact .string s h hshort
  | list vs hvalids _ ih =>
    cases hordered with
    | list _ hordered =>
      refine .list vs nofun fun v hv => ih v hv (hordered v hv) (hvalids v hv) ?_
      exact fun h => hnull (.element hv h)
  | map es hkeys _ ih =>
    cases hordered with
    | map _ hsorted hordered =>
      refine .map es hsorted hkeys fun e he hne => ih e he (hordered e he) (isValid_of_ne hne) ?_
      exact fun h => hnull (.value he h)

end

/-! ### Documents -/

section
variable {fuel : Nat} {txt : Text} {v : Variant} {failed : List Routine}

/-- The result of a function of the view. -/
theorem results_view {α : Type} {Q : α → Prop} {f : Text → α} (h : ∀ rest, Q (f rest)) :
    Results (view fun rest => .ok (f rest) : Parser α) Q := by
  intro st a st' ha
  obtain ⟨rfl, -⟩ := Prod.mk.inj (Except.ok.inj ha)
  exact h st.input

/-- `parse` returns a map or a list, unless it rejects the text. -/
theorem isMap_or_isList_of_parse (h : parse fuel txt = .ok (v, failed)) (hvalid : v.isValid = true) :
    v.isMap ∨ v.isList := by
  have hroot : Results (parseRoot fuel) fun v => v.isValid = true → v.isMap ∨ v.isList := by
    unfold parseRoot
    refine results_bind_any fun _ => results_bind_any fun _ =>
      results_ite ?_ (results_bind_any fun _ => results_ite ?_ (results_pure nofun))
    · refine results_bind_any fun _ => results_bind_any fun _ => results_view fun rest => ?_
      split
      · exact nofun
      · exact fun _ => Or.inl rfl
    · refine results_bind_any fun _ => results_bind_any fun _ => results_view fun rest => ?_
      split
      · exact nofun
      · exact fun _ => Or.inr rfl
  obtain ⟨st, hrun⟩ := parseRoot_of_parse h
  exact hroot _ v st hrun hvalid

/-- A document without numbers is read back from what the generator writes for it if and only if
there is no null in it. -/
theorem reencodes_iff (hparse : parse fuel txt = .ok (v, failed)) (hvalid : v.isValid = true)
    (hnumbers : NumberFree txt) : Reencodes v ↔ ¬Occurs .null v := by
  have hparsed := parse_parsed hparse
  have hdigits : ¬∃ c, c.isDigit ∧ c ∈ bare false txt := by
    rintro ⟨c, hc, hmem⟩
    rw [hnumbers c hmem] at hc
    cases hc
  constructor
  · rintro ⟨n, hread⟩
    obtain ⟨failed', hagain⟩ := hread n (le_refl n)
    -- the text that is read again has no `n` for a null
    have hwritten := within_generate hparsed hdigits
    refine (parse_parsed hagain).not_null fun hn => ?_
    rcases hwritten 'n' hn with hspace | hne
    · exact absurd hspace (by decide)
    · exact hne rfl
  · intro hnull
    have hreadable := hparsed.readable (parse_ordered hparse) hvalid hdigits hnull
    refine ⟨(generate v true).length, fun fuel' hfuel => ?_⟩
    obtain ⟨failed', hread, -⟩ :=
      parse_generated (isMap_or_isList_of_parse hparse hvalid) hreadable hfuel
    exact ⟨failed', hread⟩

end

/-- `outerMap` is read back from its compact text. -/
theorem outerMap_readable : Readable true outerMap := by
  have hinner : Readable true innerList := by
    refine .list _ nofun fun v hv => ?_
    rcases List.mem_pair.mp hv with rfl | rfl
    · exact .string ['x'] (by decide) (by decide)
    · exact .bool true
  refine .map _ (List.pairwise_singleton _ _) (fun e he => ?_) fun e he _ => ?_
  · rw [List.mem_singleton.mp he]
    exact ⟨by decide, by decide⟩
  · rw [List.mem_singleton.mp he]
    exact hinner

/-- The compact text of `outerMap`. -/
theorem generate_outerMap :
    generate outerMap true = "\x7b\"a\": [\"x\", true]\x7d".toList := by
  simp only [generate, outerMap, innerList, genValue_map, membersText, genEntry, genValue_list,
    elementsText, genElement, ItemList.write_cons, ItemList.tail, genValue_string, genValue_bool]
  rfl

/-- The result on the text of a map with a list in it, and with a string in that. -/
theorem reencodes_nested : ∃ fuel failed,
    parse fuel "\x7b\"a\": [\"x\", true]\x7d".toList = .ok (outerMap, failed) ∧
      Reencodes outerMap := by
  obtain ⟨failed, hparse, -⟩ := parse_generated (Or.inl rfl) outerMap_readable (le_refl _)
  rw [generate_outerMap] at hparse
  refine ⟨_, failed, hparse, (reencodes_iff hparse rfl (by decide)).mpr fun h => ?_⟩
  rcases occurs_outerMap h with heq | heq | heq | heq
  · cases heq
  · cases heq
  · cases heq
  · cases heq

/-- The list of one null is read from `[null]`, and is lost. -/
theorem reencoding_loses_null :
    parse 3 "[null]".toList = .ok (.list [.null], []) ∧ NumberFree "[null]".toList ∧
      (Variant.list [.null]).isValid = true ∧ ¬Reencodes (.list [.null]) := by
  refine ⟨rfl, by decide, rfl, ?_⟩
  rintro ⟨n, hread⟩
  obtain ⟨failed, hagain⟩ := hread (n + 1) (Nat.le_succ n)
  have htext : generate (.list [.null]) true = "[]".toList := by
    rw [generate, genValue_list, elementsText, ItemList.write_cons, genElement, genValue_null]
    rfl
  have hempty : parse (n + 1) "[]".toList = .ok (.list [], []) := rfl
  rw [htext, hempty] at hagain
  cases hagain

end Brutils.Proofs.Json
