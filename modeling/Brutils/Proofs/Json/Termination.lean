import Brutils.Proofs.Json.Simulation

/-!
# `Brutils.Proofs.Json.Termination`: on which texts the parser returns

`parseString` looks for the closing quote. When the character before the quote it found is a
backslash it searches on, but from that quote and not from the character after it, so it
finds the same quote for ever. Every other loop takes at least one character in each pass.

`finishes_iff` is the result: `parse` returns or throws exactly on the texts whose reader
comes to no such string, and to no token of `intLimit` characters. `parse_bounded` says how
long it takes: no loop runs more often, and no value is nested deeper, than the text has
characters.
-/

set_option autoImplicit false

namespace Brutils.Proofs.Json

open Machine (Halts)
open Brutils.JsonParser
open Brutils.JsonReader

/-- `parse` returns a variant or throws, with every amount of fuel from some amount on. -/
def Finishes (txt : Text) : Prop :=
  ∃ n, ∀ fuel ≥ n, (∃ result, parse fuel txt = .ok result) ∨ parse fuel txt = .error .outOfRange

/-- The reader comes to a string whose first quote follows a backslash. -/
def MeetsEscapedQuote (txt : Text) : Prop := Halts step (start txt) (.stuck .spins)

/-- The reader comes to a token whose length is no `int`. -/
def MeetsLongToken (txt : Text) : Prop := Halts step (start txt) (.stuck .tooLong)

/-- With more fuel than characters, `parse` stops only where the reader is stuck. -/
theorem parse_bounded {txt : Text} {fuel : Nat} (hfuel : txt.length < fuel) {e : Stop}
    (h : parse fuel txt = .error e) :
    ∃ reason, stopOf reason = e ∧ Halts step (start txt) (.stuck reason) := by
  have hagrees := parse_follows fuel txt
  rw [h] at hagrees
  rcases hagrees with hstuck | ⟨-, hle⟩
  · exact hstuck
  · exact absurd hle (by omega)

/-- A text at which the reader is stuck, however much fuel there is. -/
theorem parse_of_stuck (fuel : Nat) {txt : Text} {reason : Stuck}
    (hstuck : Halts step (start txt) (.stuck reason)) :
    parse fuel txt = .error (stopOf reason) ∨ parse fuel txt = .error .outOfFuel := by
  obtain ⟨d, hd⟩ := hstuck
  have hagrees := parse_follows fuel txt
  cases hparse : parse fuel txt with
  | ok p =>
    obtain ⟨v, failed⟩ := p
    rw [hparse] at hagrees
    rcases hagrees with ⟨-, -, c, hc⟩ | ⟨c, hc, -, -⟩
    · exact nomatch (hc.unique hd).2
    · exact nomatch (hc.unique hd).2
  | error e =>
    rw [hparse] at hagrees
    rcases hagrees with ⟨reason', rfl, c, hc⟩ | ⟨rfl, -⟩
    · have heq : reason = reason' := Halt.stuck.inj (hc.unique hd).2
      exact Or.inl (by rw [heq])
    · exact Or.inr rfl

/-- A text at which the reader is stuck for any reason but the end of the text is one on which
`parse` neither returns nor throws. -/
theorem not_finishes_of_stuck {txt : Text} {reason : Stuck} (hne : reason ≠ .endOfText)
    (hstuck : Halts step (start txt) (.stuck reason)) : ¬Finishes txt := by
  rintro ⟨n, hn⟩
  -- only the end of the text makes the parser throw
  have hstop : stopOf reason ≠ .outOfRange := by
    cases reason with
    | endOfText => exact absurd rfl hne
    | tooLong => decide
    | spins => decide
  rcases parse_of_stuck n hstuck with hparse | hparse
  · rcases hn n (le_refl n) with ⟨result, hok⟩ | hthrow
    · exact nomatch hparse.symm.trans hok
    · exact hstop (Except.error.inj (hparse.symm.trans hthrow))
  · rcases hn n (le_refl n) with ⟨result, hok⟩ | hthrow
    · exact nomatch hparse.symm.trans hok
    · exact nomatch hparse.symm.trans hthrow

/-- `parse` finishes exactly when no token keeps it from doing so. -/
theorem finishes_iff (txt : Text) :
    Finishes txt ↔ ¬MeetsEscapedQuote txt ∧ ¬MeetsLongToken txt := by
  constructor
  · intro hfinishes
    exact ⟨fun h => not_finishes_of_stuck (by decide) h hfinishes,
      fun h => not_finishes_of_stuck (by decide) h hfinishes⟩
  · rintro ⟨hescaped, hlong⟩
    -- with this much fuel, running out of it means that the reader is stuck
    refine ⟨txt.length + 1, fun fuel hfuel => ?_⟩
    cases hparse : parse fuel txt with
    | ok result => exact Or.inl ⟨result, rfl⟩
    | error e =>
      obtain ⟨reason, rfl, hstuck⟩ := parse_bounded hfuel hparse
      cases reason with
      | endOfText => exact Or.inr rfl
      | tooLong => exact absurd hstuck hlong
      | spins => exact absurd hstuck hescaped

/-- The text `["\""]` is one on which `parse` does not return. -/
theorem escaped_quote_spins : ¬Finishes "[\"\\\"\"]".toList := by
  have hescaped : MeetsEscapedQuote "[\"\\\"\"]".toList :=
    .head rfl (.head rfl (.head rfl (.now rfl)))
  exact not_finishes_of_stuck (by decide) hescaped

end Brutils.Proofs.Json
