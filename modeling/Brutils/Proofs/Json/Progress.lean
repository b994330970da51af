import Brutils.Json.Parser

/-!
# `Brutils.Proofs.Json.Progress`: what the routines of the parser remove

A routine only removes characters from the front of the view, so what it leaves is a suffix of
what it found. Some routines remove nothing when they fail, and some do remove something then. But
a value that is valid has at least one character, and so has everything that makes a loop go on.

`Taken s n` is the state between: what is left is a suffix of `s`, and at least `n` characters of
`s` are gone. A routine that `Removes` keeps each `Taken s n`. A look at the first character adds
that there is one (`Facing`), and then a `removePrefix 1` goes on to `Taken s (n + 1)`. `Ends`
is what a routine has to reach: one character more is gone if its result is in `P`.

The triples are in the order in which the routines call each other. `parseObject` and `parseArray`
call `parseValue` again, so they take the two properties of it that they need as hypotheses
(`hvalue`), and `parseValue_ends` is the induction on the nesting that discharges them.
-/

set_option autoImplicit false

namespace Brutils.Proofs.Json

open Loop (Pass Triple triple_pure triple_bind triple_ite triple_loop)
open Brutils.JsonParser

namespace Progress

/-- A suffix of `s` is left, and `n` characters of `s` or more are gone. -/
def Taken (s : Text) (n : Nat) (st : ParserState) : Prop :=
  st.input <:+ s ∧ st.input.length + n ≤ s.length

/-- The same, and the suffix begins with `c`. -/
def Facing (s : Text) (n : Nat) (c : Char) (st : ParserState) : Prop :=
  Taken s n st ∧ ∃ rest, st.input = c :: rest

/-- One more is gone if the result is in `P`. -/
def Ends {α : Type} (P : α → Prop) (s : Text) (n : Nat) (a : α) (st : ParserState) : Prop :=
  Taken s n st ∧ (P a → Taken s (n + 1) st)

/-- `x` changes the view only by removing characters from its front. -/
def Removes {α : Type} (x : Parser α) : Prop :=
  ∀ s n, Triple (Taken s n) x fun _ => Taken s n

/-- `x` leaves a suffix of the view. -/
def LeavesSuffix {α : Type} (x : Parser α) : Prop :=
  ∀ st a st', x st = .ok (a, st') → st'.input <:+ st.input

/-! ### The characters that are gone -/

section
variable {s : Text} {n : Nat} {st st' : ParserState}

/-- What is gone stays gone: a suffix of what is left is a suffix of `s` as well, and it is no
longer. -/
theorem Taken.trans (h : Taken s n st) (hsuffix : st'.input <:+ st.input) : Taken s n st' := by
  refine ⟨hsuffix.trans h.1, ?_⟩
  have hshorter := hsuffix.length_le
  have hlength := h.2
  omega

/-- Who has removed `n + 1` characters has removed `n`. The two results of a routine are brought
together with this when its caller does not care which one it was. -/
theorem Taken.of_succ (h : Taken s (n + 1) st) : Taken s n st := by
  refine ⟨h.1, ?_⟩
  have hlength := h.2
  omega

/-- Nothing is gone from the view itself. -/
theorem taken_self (st : ParserState) : Taken st.input 0 st := ⟨List.suffix_rfl, le_refl _⟩

end

section
variable {α β : Type} {x : Parser α} {f : α → Parser β}

/-- `Removes` speaks of any text that the view is a suffix of, so that the rules for sequences apply
to it. It comes to the same as the plain statement that a run leaves a suffix of the view. -/
theorem removes_iff : Removes x ↔ LeavesSuffix x := by
  constructor
  · intro h st a st' hrun
    exact (h st.input 0 st a st' (taken_self st) hrun).1
  · intro h s n st a st' hst hrun
    exact hst.trans (h st a st' hrun)

/-! ### Rules -/

/-- A routine that only returns a value leaves the view alone. -/
theorem removes_pure (a : α) : Removes (pure a : Parser α) := fun _ _ => triple_pure fun _ h => h

/-- One routine behind another: each only removes characters from the front, so both together do. -/
theorem removes_bind (hx : Removes x) (hf : ∀ a, Removes (f a)) : Removes (x >>= f) :=
  fun s n => triple_bind (hx s n) fun a => hf a s n

/-- Whichever branch is taken, characters are only removed from the front. -/
theorem removes_ite {c : Prop} [Decidable c] {y : Parser α} (hx : Removes x) (hy : Removes y) :
    Removes (if c then x else y) :=
  fun s n => triple_ite (fun _ => hx s n) fun _ => hy s n

/-- A failure return leaves the view alone. It notes the routine, which is not a part of the
view. -/
theorem removes_giveUp (routine : Routine) (a : α) : Removes (giveUp routine a) := by
  intro s n st a' st' hst h
  obtain ⟨-, rfl⟩ := Prod.mk.inj (Except.ok.inj h)
  exact hst

/-- A look at the view changes nothing. -/
theorem triple_view {Pre : ParserState → Prop} (g : Text → Except Stop α) :
    Triple Pre (view g) fun _ => Pre := by
  intro st a st' hst h
  rw [view_apply] at h
  cases hg : g st.input with
  | error e => rw [hg] at h; cases h
  | ok b =>
    rw [hg] at h
    obtain ⟨-, rfl⟩ := Prod.mk.inj (Except.ok.inj h)
    exact hst

/-- A look at the view, whether it succeeds or throws, leaves the view alone. -/
theorem removes_view (g : Text → Except Stop α) : Removes (view g) := fun _ _ => triple_view g

/-- A view is only shortened to a suffix of it. -/
theorem removes_shorten {g : Text → Except Stop (α × Text)}
    (hg : ∀ input a rest, g input = .ok (a, rest) → rest <:+ input) : Removes (shorten g) := by
  intro s n st a st' hst h
  rw [shorten_apply] at h
  cases hrun : g st.input with
  | error e => rw [hrun] at h; cases h
  | ok p =>
    rw [hrun] at h
    obtain ⟨-, rfl⟩ := Prod.mk.inj (Except.ok.inj h)
    exact hst.trans (hg st.input p.1 p.2 hrun)

/-- The same for `input.at(0)`. -/
theorem removes_front : Removes front := removes_view _

/-- `remove_prefix` takes characters from the front, and nothing else. -/
theorem removes_removePrefix (k : Nat) : Removes (removePrefix k) := by
  intro s n st a st' hst h
  obtain ⟨-, rfl⟩ := Prod.mk.inj (Except.ok.inj h)
  exact hst.trans (List.drop_suffix k st.input)

/-- `removeWhitespace` takes the white space from the front, and nothing else. -/
theorem removes_removeWhitespace : Removes removeWhitespace := by
  intro s n st a st' hst h
  obtain ⟨-, rfl⟩ := Prod.mk.inj (Except.ok.inj h)
  exact hst.trans (List.dropWhile_suffix _)

/-- A loop removes what its passes remove. -/
theorem removes_loop {stuck : Stop} {body : α → Parser (Pass α β)} (hbody : ∀ a, Removes (body a))
    (fuel : Nat) (a : α) : Removes (Loop.loop stuck body fuel a) := by
  intro s n
  refine triple_loop (fun _ => Taken s n) (fun a => (hbody a s n).imp (fun _ h => h) ?_) fuel a
  intro pass st hst
  cases pass with
  | again next => exact hst
  | leave result => exact hst

end

section
variable {α β : Type} {s : Text} {n : Nat} {c : Char} {x y : Parser α} {P : α → Prop}
  {Post : α → ParserState → Prop}

/-- A look at the first character. -/
theorem triple_front : Triple (Taken s n) front (Facing s n) := by
  intro st c st' hst h
  obtain ⟨input, l⟩ := st
  cases input with
  | nil => cases h
  | cons d rest =>
    obtain ⟨rfl, rfl⟩ := Prod.mk.inj (Except.ok.inj h)
    exact ⟨hst, rest, rfl⟩

/-- A second look. -/
theorem triple_front_again : Triple (Facing s n c) front fun d st => Facing s n c st ∧ c = d := by
  rintro ⟨_, l⟩ d st' ⟨hst, rest, rfl⟩ h
  obtain ⟨rfl, rfl⟩ := Prod.mk.inj (Except.ok.inj h)
  exact ⟨⟨hst, rest, rfl⟩, rfl⟩

/-- A test of the first character. -/
theorem triple_front_ite {d : Char} (hx : Triple (Facing s n d) x Post)
    (hy : Triple (Taken s n) y Post) :
    Triple (Taken s n) (front >>= fun c => if c = d then x else y) Post := by
  refine triple_bind triple_front fun c => triple_ite (fun hc => ?_) fun _ => ?_
  · rw [hc]
    exact hx
  · exact hy.imp (fun st hst => hst.1) fun _ _ h => h

/-- The first character is removed, and maybe more. -/
theorem triple_removePrefix {k : Nat} (hk : 0 < k) :
    Triple (Facing s n c) (removePrefix k) fun _ => Taken s (n + 1) := by
  rintro ⟨_, l⟩ _ st' ⟨hst, rest, rfl⟩ h
  obtain ⟨-, rfl⟩ := Prod.mk.inj (Except.ok.inj h)
  refine ⟨(List.drop_suffix k _).trans hst.1, ?_⟩
  have hlength := hst.2
  show ((c :: rest).drop k).length + (n + 1) ≤ s.length
  rw [List.length_drop]
  simp only [List.length_cons] at hlength ⊢
  omega

/-- A test whose character is removed if it is the right one. -/
theorem triple_take {d : Char} (hx : Triple (Taken s (n + 1)) x Post)
    (hy : Triple (Taken s n) y Post) :
    Triple (Taken s n) (front >>= fun c => if c = d then removePrefix 1 >>= fun _ => x else y)
      Post :=
  triple_front_ite (triple_bind (triple_removePrefix Nat.one_pos) fun _ => hx) hy

/-- A failure return. -/
theorem ends_giveUp {routine : Routine} {a : α} (ha : ¬P a) :
    Triple (Taken s n) (giveUp routine a) (Ends P s n) := by
  intro st a' st' hst h
  obtain ⟨rfl, rfl⟩ := Prod.mk.inj (Except.ok.inj h)
  exact ⟨hst, fun hP => absurd hP ha⟩

/-- One more is gone, whatever the result is. -/
theorem Removes.ends (hx : Removes x) : Triple (Taken s (n + 1)) x (Ends P s n) :=
  (hx s (n + 1)).imp (fun _ h => h) fun _ _ h => ⟨h.of_succ, fun _ => h⟩

/-- White space is removed first. -/
theorem triple_removeWhitespace (hx : Triple (Taken s n) x Post) :
    Triple (Taken s n) (removeWhitespace >>= fun _ => x) Post :=
  triple_bind (removes_removeWhitespace s n) fun _ => hx

end

/-! ### Strings, numbers and words -/

/-- The result has a value. -/
def Valid (v : Variant) : Prop := v.isValid

/-- The value of a failure return is not valid. So a routine has to show nothing about the
characters when it fails. -/
theorem not_valid_invalid : ¬Valid .invalid := Bool.false_ne_true

section
variable {s : Text} {n : Nat}

/-- A string that is valid has its opening quote at least. The search for the closing one may fail,
and what is gone then does not count. -/
theorem parseString_ends (fuel : Nat) : Triple (Taken s n) (parseString fuel) (Ends Valid s n) := by
  unfold parseString
  refine triple_removeWhitespace (triple_take (Removes.ends ?_) (ends_giveUp not_valid_invalid))
  refine removes_bind (removes_view _) fun size => ?_
  cases size with
  | none => exact removes_giveUp _ _
  | some size =>
    refine removes_bind (removes_view _) fun output => ?_
    refine removes_bind (removes_view _) fun length => ?_
    exact removes_bind (removes_removePrefix _) fun _ =>
      removes_bind removes_removeWhitespace fun _ => removes_pure _

/-- The second loop of `parseInt` removes the digits. -/
theorem sumDigits_suffix (strLength : Nat) (input : Text) : ∀ i val v rest,
    sumDigits strLength i val input = .ok (v, rest) → rest <:+ input := by
  induction input with
  | nil =>
    intro i val v rest h
    cases h
  | cons c input ih =>
    intro i val v rest h
    rw [sumDigits] at h
    split at h
    · exact (ih _ _ v rest h).trans (List.suffix_cons c input)
    · obtain ⟨-, rfl⟩ := Prod.mk.inj (Except.ok.inj h)
      exact List.suffix_rfl

/-- So does the loop of `parseAfterInt`. -/
theorem sumFraction_suffix (input : Text) : ∀ i val v rest,
    sumFraction i val input = .ok (v, rest) → rest <:+ input := by
  induction input with
  | nil =>
    intro i val v rest h
    cases h
  | cons c input ih =>
    intro i val v rest h
    rw [sumFraction] at h
    split at h
    · cases hcount : toInt (i + 1) with
      | error e => rw [hcount] at h; cases h
      | ok i' =>
        rw [hcount] at h
        exact (ih i' _ v rest h).trans (List.suffix_cons c input)
    · obtain ⟨-, rfl⟩ := Prod.mk.inj (Except.ok.inj h)
      exact List.suffix_rfl

/-- The digits of an integer are taken from the front. -/
theorem removes_parseInt : Removes parseInt :=
  removes_bind (removes_view _) fun strLength =>
    removes_shorten fun input => sumDigits_suffix strLength input 0 0

/-- The digits behind the point are taken from the front. -/
theorem removes_parseAfterInt : Removes parseAfterInt :=
  removes_shorten fun input => sumFraction_suffix input 0 0

/-- `parseInt` removes a digit that is there. -/
theorem parseInt_ends {c : Char} (hc : c.isDigit) :
    Triple (Facing s n c) parseInt fun _ => Taken s (n + 1) := by
  rintro ⟨_, l⟩ v st' ⟨hst, rest, rfl⟩ h
  rw [parseInt, bind_apply, view_apply] at h
  cases hscan : scan Char.isDigit 0 (c :: rest) with
  | error e =>
    simp only [hscan, map_error] at h
    cases h
  | ok strLength =>
    -- the loop that removes the digits begins with the one that is there
    simp only [hscan, map_ok, shorten_apply, sumDigits, hc, if_true] at h
    cases hsum : sumDigits strLength (0 + 1) (0 + digit c * 10 ^ (strLength - 0 - 1)) rest with
    | error e =>
      rw [hsum] at h
      cases h
    | ok p =>
      rw [hsum] at h
      obtain ⟨-, rfl⟩ := Prod.mk.inj (Except.ok.inj h)
      have hsuffix : p.2 <:+ rest := sumDigits_suffix strLength rest _ _ p.1 p.2 hsum
      have hlength := hst.2
      have hshorter := hsuffix.length_le
      rw [List.length_cons] at hlength
      refine ⟨hsuffix.trans ((List.suffix_cons c rest).trans hst.1), ?_⟩
      show p.2.length + (n + 1) ≤ s.length
      omega

/-- So are the letter, the sign and the digits of an exponent. -/
theorem removes_parseExponent (number : ℚ) : Removes (parseExponent number) := by
  unfold parseExponent
  refine removes_bind removes_front fun _ => removes_bind removes_front fun _ => ?_
  refine removes_ite (removes_bind (removes_removePrefix 1) fun _ => ?_) (removes_pure _)
  refine removes_bind removes_front fun _ => removes_ite ?_ ?_
  · exact removes_bind (removes_removePrefix 1) fun _ =>
      removes_bind removes_parseInt fun _ => removes_pure _
  · exact removes_bind removes_parseInt fun _ => removes_pure _

/-- And so is all that may follow the integer part of a number. -/
theorem removes_parseAfterNumber (coeff number : ℚ) : Removes (parseAfterNumber coeff number) := by
  unfold parseAfterNumber
  refine removes_bind removes_front fun _ => removes_bind removes_front fun _ =>
    removes_bind removes_front fun _ => removes_ite ?_ ?_
  · exact removes_bind removes_removeWhitespace fun _ => removes_pure _
  · refine removes_bind removes_front fun _ => ?_
    have hexponent : ∀ number, Removes (do
        let number ← parseExponent number
        pure (Variant.float (number * coeff))) := fun number =>
      removes_bind (removes_parseExponent number) fun _ => removes_pure _
    refine removes_ite ?_ (removes_bind (removes_pure _) hexponent)
    exact removes_bind (removes_removePrefix 1) fun _ => removes_bind removes_parseAfterInt fun _ =>
      removes_bind (removes_pure _) hexponent

/-- A number without a sign begins with a digit. This digit is the one character that is gone in any
case. -/
theorem parseUnsigned_ends (coeff : ℚ) : Triple (Taken s n) (parseUnsigned coeff) (Ends Valid s n) := by
  unfold parseUnsigned
  refine triple_take (Removes.ends (removes_parseAfterNumber _ _)) ?_
  refine triple_bind triple_front fun c => triple_ite (fun hc => ?_) fun _ => ?_
  · exact triple_bind (parseInt_ends hc) fun _ => Removes.ends (removes_parseAfterNumber _ _)
  · exact (ends_giveUp not_valid_invalid).imp (fun _ hst => hst.1) fun _ _ h => h

/-- A number begins with a sign or with a digit. A sign is gone before the digits are looked at. -/
theorem parseNumber_ends : Triple (Taken s n) parseNumber (Ends Valid s n) := by
  unfold parseNumber
  refine triple_removeWhitespace (triple_take ?_ (parseUnsigned_ends 1))
  -- behind a sign one character more has gone than is asked for
  exact (parseUnsigned_ends (-1)).imp (fun _ h => h) fun _ _ h => ⟨h.1.of_succ, fun _ => h.1⟩

/-- A scan does not go back. -/
theorem le_of_scan {p : Char → Bool} (input : Text) :
    ∀ size k, scan p size input = .ok k → size ≤ k := by
  induction input with
  | nil =>
    intro size k h
    cases h
  | cons c input ih =>
    intro size k h
    rw [scan] at h
    split at h
    · rw [toInt] at h
      split at h
      · have hle := ih (size + 1) k h
        omega
      · cases h
    · exact (Except.ok.inj h).le

/-- A scan passes a character that is in the class. -/
theorem triple_scan {p : Char → Bool} {c : Char} (hc : p c) :
    Triple (Facing s n c) (view (scan p 0)) fun size st => Facing s n c st ∧ 0 < size := by
  rintro ⟨_, l⟩ size st' ⟨hst, rest, rfl⟩ h
  have hkeeps : Triple (Facing s n c) (view (scan p 0)) fun _ => Facing s n c := triple_view _
  refine ⟨hkeeps _ size st' ⟨hst, rest, rfl⟩ h, ?_⟩
  rw [view_apply, scan, if_pos hc] at h
  have hone : toInt (0 + 1) = .ok 1 := rfl
  rw [hone] at h
  change (scan p 1 rest).map _ = _ at h
  cases hscan : scan p 1 rest with
  | error e => rw [hscan] at h; cases h
  | ok k =>
    rw [hscan] at h
    obtain ⟨rfl, -⟩ := Prod.mk.inj (Except.ok.inj h)
    exact le_of_scan rest 1 k hscan

/-- A word has at least one letter. `scan` has passed it, and the word is removed before it is
compared with the names. -/
theorem parseLiteral_ends : Triple (Taken s n) parseLiteral (Ends Valid s n) := by
  unfold parseLiteral
  refine triple_removeWhitespace ?_
  refine triple_bind triple_front fun c => triple_ite (fun hc => ?_) fun _ => ?_
  · refine triple_bind (triple_scan hc) fun size => triple_bind (triple_view _) fun val => ?_
    intro st v st' hst
    refine triple_bind (triple_removePrefix hst.2) (fun _ => Removes.ends ?_) st v st' hst.1
    exact removes_bind removes_removeWhitespace fun _ =>
      removes_ite (removes_pure _) (removes_giveUp _ _)
  · exact (ends_giveUp not_valid_invalid).imp (fun _ hst => hst.1) fun _ _ h => h

end

/-! ### Containers -/

/-- The pass goes on. -/
def GoesOn {α β : Type} (pass : Pass α β) : Prop := ∃ next, pass = .again next

/-- A pass that leaves its loop does not go on. So it owes its loop no character. -/
theorem not_goesOn_leave {α β : Type} (result : β) : ¬GoesOn (.leave result : Pass α β) := by
  rintro ⟨next, h⟩
  cases h

/-- What follows a value that is valid has one character less to read. -/
theorem triple_bind_valid {α : Type} {x : Parser Variant} {f g : Variant → Parser α} {P : α → Prop}
    {s : Text} {n : Nat} (hx : Triple (Taken s n) x (Ends Valid s n)) (hf : ∀ v, Removes (f v))
    (hg : ∀ v, Triple (Taken s n) (g v) (Ends P s n)) :
    Triple (Taken s n) (x >>= fun v => if v.isValid then f v else g v) (Ends P s n) := by
  refine triple_bind hx fun v => triple_ite (fun hvalid => ?_) fun _ => ?_
  · exact (hf v).ends.imp (fun st hst => hst.2 hvalid) fun _ _ h => h
  · exact (hg v).imp (fun st hst => hst.1) fun _ _ h => h

/-- A routine that ends with one character more gone removes characters only. -/
theorem removes_of_ends {α : Type} {x : Parser α} {P : α → Prop}
    (h : ∀ s n, Triple (Taken s n) x (Ends P s n)) : Removes x :=
  fun s n => (h s n).imp (fun _ h => h) fun _ _ h => h.1

/-- `x` removes characters only, and it removes a `d` that is there. -/
def Opens {α : Type} (d : Char) (x : Parser α) : Prop :=
  Removes x ∧ ∀ s n, Triple (Facing s n d) x fun _ => Taken s (n + 1)

/-- A routine that looks for a `d` first. -/
theorem opens_of_removes {α : Type} {d : Char} (hd : isSpace d = false) {x : Parser α}
    (hx : Removes x) (routine : Routine) (a : α) :
    Opens d (removeWhitespace >>= fun _ => front >>= fun c =>
      if c = d then removePrefix 1 >>= fun _ => x else giveUp routine a) := by
  constructor
  · refine removes_bind removes_removeWhitespace fun _ => removes_bind removes_front fun _ => ?_
    exact removes_ite (removes_bind (removes_removePrefix 1) fun _ => hx) (removes_giveUp _ _)
  · intro s n
    have hspace : Triple (Facing s n d) removeWhitespace fun _ => Facing s n d := by
      rintro ⟨_, l⟩ _ st' ⟨hst, rest, rfl⟩ h
      obtain ⟨-, rfl⟩ := Prod.mk.inj (Except.ok.inj h)
      have hskip : skipSpace (d :: rest) = d :: rest :=
        List.dropWhile_cons_of_neg (by rw [hd]; exact Bool.false_ne_true)
      rw [hskip]
      exact ⟨hst, rest, rfl⟩
    refine triple_bind hspace fun _ => triple_bind triple_front_again fun c => ?_
    refine triple_ite (fun _ => ?_) fun hc st b st' hst => absurd hst.2.symm hc
    exact triple_bind ((triple_removePrefix Nat.one_pos).imp (fun _ h => h.1) fun _ _ h => h)
      fun _ => hx s (n + 1)

section
variable {parseValue : Parser Variant}
  (hvalue : ∀ s n, Triple (Taken s n) parseValue (Ends Valid s n))
include hvalue

/-- A pass that goes on has removed a string, or a comma. -/
theorem objectPass_ends (fuel : Nat) (object : VariantMap) (s : Text) (n : Nat) :
    Triple (Taken s n) (objectPass parseValue fuel object) (Ends GoesOn s n) := by
  have hleave : Triple (Taken s n)
      (giveUp .parseObject (.leave []) : Parser (Pass VariantMap VariantMap)) (Ends GoesOn s n) :=
    ends_giveUp (not_goesOn_leave _)
  have hpass : ∀ pass : Pass VariantMap VariantMap,
      Removes (removeWhitespace >>= fun _ => pure pass) := fun pass =>
    removes_bind removes_removeWhitespace fun _ => removes_pure pass
  unfold objectPass
  refine triple_take (hpass _).ends (triple_front_ite ?_ (triple_take (hpass _).ends hleave))
  -- behind the key there may be anything, and nothing needs to be gone there
  refine (triple_bind_valid (parseString_ends fuel) (fun key => ?_) fun _ => hleave).imp
    (fun st hst => hst.1) fun _ _ h => h
  refine removes_bind removes_removeWhitespace fun _ => removes_bind removes_front fun _ => ?_
  refine removes_ite ?_ (removes_giveUp _ _)
  refine removes_bind (removes_removePrefix 1) fun _ => ?_
  exact removes_bind removes_removeWhitespace fun _ =>
    removes_bind (removes_of_ends hvalue) fun _ => hpass _

/-- A pass that goes on has read a value. -/
theorem arrayPass_ends (array : VariantList) (s : Text) (n : Nat) :
    Triple (Taken s n) (arrayPass parseValue array) (Ends GoesOn s n) := by
  have hpass : ∀ pass : Pass VariantList VariantList,
      Removes (removeWhitespace >>= fun _ => pure pass) := fun pass =>
    removes_bind removes_removeWhitespace fun _ => removes_pure pass
  unfold arrayPass
  refine triple_take (hpass _).ends (triple_removeWhitespace ?_)
  -- a value that is not valid ends the loop, and a valid one has removed a character
  refine triple_bind_valid (hvalue s n) (fun element => ?_) fun _ =>
    ends_giveUp (not_goesOn_leave _)
  refine removes_bind removes_front fun _ => removes_ite ?_ (hpass _)
  exact removes_bind (removes_removePrefix 1) fun _ => hpass _

/-- `parseObject` needs its `{` first, and it is called only where there is one. What its passes
remove comes on top of that. -/
theorem parseObject_opens (fuel : Nat) : Opens '{' (parseObject parseValue fuel) := by
  refine opens_of_removes rfl ?_ .parseObject []
  refine removes_bind removes_removeWhitespace fun _ => removes_bind removes_front fun _ => ?_
  refine removes_ite (removes_bind (removes_removePrefix 1) fun _ => removes_pure _) ?_
  refine removes_bind removes_front fun _ => removes_ite ?_ (removes_giveUp _ _)
  exact removes_loop (fun object => removes_of_ends (objectPass_ends hvalue fuel object)) fuel []

/-- The same for `parseArray` and its `[`. -/
theorem parseArray_opens (fuel : Nat) : Opens '[' (parseArray parseValue fuel) := by
  refine opens_of_removes rfl ?_ .parseArray []
  exact removes_loop (fun array => removes_of_ends (arrayPass_ends hvalue array)) fuel []

/-- A valid value by its first character: the routine that this character chooses removes at least
this one. -/
theorem parseByFront_ends (fuel : Nat) (s : Text) (n : Nat) :
    Triple (Taken s n) (parseByFront parseValue fuel) (Ends Valid s n) := by
  unfold parseByFront
  refine triple_front_ite ((parseString_ends fuel).imp (fun _ h => h.1) fun _ _ h => h) ?_
  refine triple_bind triple_front fun _ => triple_bind triple_front_again fun _ => ?_
  refine triple_ite (fun _ => parseNumber_ends.imp (fun _ h => h.1.1) fun _ _ h => h) fun _ => ?_
  refine Triple.imp ?_ (fun _ h => h.1.1) fun _ _ h => h
  refine triple_front_ite ?_ (triple_front_ite ?_ parseLiteral_ends)
  · exact triple_bind ((parseObject_opens hvalue fuel).2 s n) fun _ => (removes_pure _).ends
  · exact triple_bind ((parseArray_opens hvalue fuel).2 s n) fun _ => (removes_pure _).ends

end

/-- The induction on the nesting. -/
theorem parseValue_ends (fuel : Nat) (s : Text) (n : Nat) :
    Triple (Taken s n) (parseValue fuel) (Ends Valid s n) := by
  induction fuel generalizing s n with
  | zero =>
    intro st v st' _ h
    cases h
  | succ fuel ih =>
    unfold parseValue
    refine triple_removeWhitespace (triple_bind (parseByFront_ends ih fuel s n) fun v => ?_)
    -- the white space behind the value goes as well
    intro st v' st' hst h
    rw [bind_apply, removeWhitespace_apply] at h
    obtain ⟨rfl, rfl⟩ := Prod.mk.inj (Except.ok.inj h)
    have hsuffix : skipSpace st.input <:+ st.input := List.dropWhile_suffix _
    exact ⟨hst.1.trans hsuffix, fun hvalid => (hst.2 hvalid).trans hsuffix⟩

/-- What a triple says about a run. -/
theorem shorter_of_ends {α : Type} {x : Parser α} {P : α → Prop}
    (h : ∀ s n, Triple (Taken s n) x (Ends P s n)) {st st' : ParserState} {a : α}
    (hrun : x st = .ok (a, st')) (ha : P a) :
    st'.input <:+ st.input ∧ st'.input.length < st.input.length := by
  obtain ⟨hsuffix, hlength⟩ := (h st.input 0 st a st' (taken_self st) hrun).2 ha
  exact ⟨hsuffix, by omega⟩

end Progress

open Progress

/-- Every routine leaves a suffix of the view. `parseValue` has removed a character if its result
is valid, and a pass of a loop has removed one if the loop goes on. The fuel bounds the nesting,
the passes and the search for a quote, and these results hold for any amount of it. -/
theorem parsers_progress (fuel passes : Nat) :
    LeavesSuffix (parseObject (parseValue fuel) passes) ∧
    LeavesSuffix (parseArray (parseValue fuel) passes) ∧
    LeavesSuffix (parseValue fuel) ∧
    LeavesSuffix (parseString passes) ∧
    LeavesSuffix parseNumber ∧
    LeavesSuffix parseLiteral ∧
    (∀ st v st', parseValue fuel st = .ok (v, st') → v.isValid →
      st'.input <:+ st.input ∧ st'.input.length < st.input.length) ∧
    (∀ object next st st', objectPass (parseValue fuel) passes object st = .ok (.again next, st') →
      st'.input <:+ st.input ∧ st'.input.length < st.input.length) ∧
    (∀ array next st st', arrayPass (parseValue fuel) array st = .ok (.again next, st') →
      st'.input <:+ st.input ∧ st'.input.length < st.input.length) := by
  have hvalue := parseValue_ends fuel
  refine ⟨removes_iff.mp (parseObject_opens hvalue passes).1,
    removes_iff.mp (parseArray_opens hvalue passes).1, removes_iff.mp (removes_of_ends hvalue),
    removes_iff.mp (removes_of_ends fun s n => parseString_ends passes),
    removes_iff.mp (removes_of_ends fun s n => parseNumber_ends),
    removes_iff.mp (removes_of_ends fun s n => parseLiteral_ends), ?_, ?_, ?_⟩
  · intro st v st' hrun hvalid
    exact shorter_of_ends hvalue hrun hvalid
  · intro object next st st' hrun
    exact shorter_of_ends (objectPass_ends hvalue passes object) hrun ⟨next, rfl⟩
  · intro array next st st' hrun
    exact shorter_of_ends (arrayPass_ends hvalue array) hrun ⟨next, rfl⟩

end Brutils.Proofs.Json
