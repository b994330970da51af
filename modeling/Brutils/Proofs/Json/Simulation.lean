import Brutils.Proofs.Json.Tokens

/-!
# `Brutils.Proofs.Json.Simulation`: the parser follows the reader

Every routine of the parser does on a text what the reader does there, whatever the
containers around it (`Follows`): where the routine returns, the reader comes to the
configuration after the value, with the same text left and the same failures; where the
routine stops, the reader is stuck for the reason that `stopOf` names.

Fuel comes in at one place. A routine that runs out of it stops as if it were at a string
that spins. `Halted` therefore also allows that the fuel was at most the length of the
text. Each pass of a loop and each level of nesting takes at least one character, so this
bound carries through. `parse_follows` is the result for a whole text: with more fuel than
characters the parser stops exactly where the reader does.
-/

set_option autoImplicit false

namespace Brutils.Proofs.Json

open Machine (Reaches Halts HaltsAt)
open Loop (Pass loop)
open Brutils.JsonParser
open Brutils.JsonReader

/-- The reader from `c` is stuck for the reason that `e` stands for, or the fuel was at most
the length `n` of the text. -/
def Halted (c : Config) (fuel n : Nat) (e : Stop) : Prop :=
  (∃ reason, stopOf reason = e ∧ Halts step c (.stuck reason)) ∨ (e = .outOfFuel ∧ fuel ≤ n)

/-- The outcome of a routine, as the reader sees it from `c`. A result `a` leads to the
configuration `next a`, and at least `slack a` of the `n` characters have been read. -/
def Follows {α : Type} (c : Config) (fuel n : Nat) (next : α → ParserState → Config)
    (slack : α → Nat) (out : Except Stop (α × ParserState)) : Prop :=
  match out with
  | .ok (a, st) => Reaches step c (next a st) ∧ st.input.length + slack a ≤ n
  | .error e => Halted c fuel n e

section
variable {c d : Config} {fuel fuel' n n' : Nat} {e : Stop}

/-- Where the reader is stuck the parser stops, for the same reason. -/
theorem Halted.stuck (reason : Stuck) (h : step c = .error (.stuck reason)) :
    Halted c fuel n (stopOf reason) :=
  Or.inl ⟨reason, rfl, .now h⟩

/-- A halt that is reached through steps of the reader. -/
theorem Halted.of_reaches (h : Halted d fuel n e) (hr : Reaches step c d)
    (hfuel : fuel ≤ n → fuel' ≤ n') : Halted c fuel' n' e := by
  rcases h with ⟨reason, he, hh⟩ | ⟨he, hle⟩
  · exact Or.inl ⟨reason, he, hh.of_reaches hr⟩
  · exact Or.inr ⟨he, hfuel hle⟩

/-- A run to the place where a routine begins goes in front of what the routine does. -/
theorem Follows.of_reaches {α : Type} {next : α → ParserState → Config} {slack slack' : α → Nat}
    {out : Except Stop (α × ParserState)} (h : Follows d fuel n next slack out)
    (hr : Reaches step c d) (hfuel : fuel ≤ n → fuel' ≤ n')
    (hslack : ∀ a, n + slack' a ≤ n' + slack a) : Follows c fuel' n' next slack' out := by
  cases out with
  | error e => exact Halted.of_reaches h hr hfuel
  | ok p =>
    obtain ⟨a, st⟩ := p
    obtain ⟨hreach, hlen⟩ := h
    have ha := hslack a
    exact ⟨hr.trans hreach, by omega⟩

end

/-- The configuration after a pass of a container's loop, which begins at `point`. -/
def afterPass {α β : Type} (point : Point) (stack : List Frame) :
    Pass α β → ParserState → Config
  | .again _, st => ⟨point, stack, st.input, st.failed⟩
  | .leave _, st => afterValue stack st.input st.failed true

/-- A pass that goes on has read a character. -/
def passSlack {α β : Type} : Pass α β → Nat
  | .again _ => 1
  | .leave _ => 0

/-- A routine for values that follows the reader from every place in a text. -/
def ReadsValues (fuel : Nat) (parseValue : Parser Variant) : Prop :=
  ∀ (stack : List Frame) (s : Text) (l : List Routine),
    Follows ⟨.value, stack, skipSpace s, l⟩ fuel s.length
      (fun v st => ⟨.back v.isValid, stack, skipSpace st.input, st.failed⟩)
      (fun v => v.isValid.toNat) (parseValue ⟨s, l⟩) ∧
    ∀ v st, parseValue ⟨s, l⟩ = .ok (v, st) → skipSpace st.input = st.input

/-- White space behind a value is skipped anyway. -/
@[simp] theorem afterValue_skipSpace (stack : List Frame) (s : Text) (l : List Routine)
    (valid : Bool) : afterValue stack (skipSpace s) l valid = afterValue stack s l valid := by
  simp [afterValue]

/-- A loop whose passes follow the reader follows it. The fuel of the loop is one more bound:
a pass that goes on has read a character. -/
theorem loop_follows {α β : Type} {fuel : Nat} (point : Point) (stack : List Frame)
    (body : α → Parser (Pass α β))
    (hbody : ∀ a st, Follows ⟨point, stack, st.input, st.failed⟩ fuel st.input.length
      (afterPass point stack) passSlack (body a st)) (passes : Nat) (a : α) (st : ParserState) :
    Follows ⟨point, stack, st.input, st.failed⟩ (min passes fuel) st.input.length
      (fun _ st => afterValue stack st.input st.failed true) (fun _ => 0)
      (loop .outOfFuel body passes a st) := by
  refine Loop.loop_induction (fun passes _ st out =>
    Follows ⟨point, stack, st.input, st.failed⟩ (min passes fuel) st.input.length
      (fun _ st => afterValue stack st.input st.failed true) (fun _ => 0) out)
    ?stuck ?error ?leave ?again passes a st
  -- no pass left: the bound is zero
  case stuck =>
    intro a st
    exact Or.inr ⟨rfl, by omega⟩
  case error =>
    intro passes a st e hpass
    have hfollows := hbody a st
    rw [hpass] at hfollows
    exact Halted.of_reaches hfollows (.refl _) fun h => by omega
  case leave =>
    intro passes a st b st' hpass
    have hfollows := hbody a st
    rw [hpass] at hfollows
    exact hfollows
  case again =>
    intro passes a st a' st' out hpass hout
    have hfollows := hbody a st
    rw [hpass] at hfollows
    obtain ⟨hreach, hlen⟩ := hfollows
    -- the text left is shorter by the one character that pays for this pass
    have hlen : st'.input.length + 1 ≤ st.input.length := hlen
    cases out with
    | error e => exact Halted.of_reaches hout hreach fun h => by omega
    | ok p =>
      have hle := hout.2
      exact ⟨hreach.trans hout.1, by omega⟩

/-! ### Objects -/

section
variable {parseValue : Parser Variant} {fuel : Nat}

/-- After a colon: the value, and then the place before the next member. -/
theorem objectPass_value (hvalue : ReadsValues fuel parseValue) (stack : List Frame)
    (key : Text) (object : VariantMap) (s : Text) (l : List Routine) :
    Follows ⟨.value, .object :: stack, skipSpace s, l⟩ fuel s.length (afterPass .members stack)
      (fun _ => 0)
      (match parseValue ⟨skipSpace s, l⟩ with
        | .ok (v, st) => .ok ((.again (SortedAssoc.insert key v object) :
            Pass VariantMap VariantMap), ⟨skipSpace st.input, st.failed⟩)
        | .error e => .error e) := by
  obtain ⟨hfollows, -⟩ := hvalue (.object :: stack) (skipSpace s) l
  rw [skipSpace_skipSpace] at hfollows
  have hlen := length_skipSpace_le s
  cases hrun : parseValue ⟨skipSpace s, l⟩ with
  | error e =>
    rw [hrun] at hfollows
    exact Halted.of_reaches hfollows (.refl _) fun h => h.trans hlen
  | ok p =>
    obtain ⟨v, st⟩ := p
    rw [hrun] at hfollows
    obtain ⟨hreach, hle⟩ := hfollows
    refine ⟨hreach.trans (.single ?_), ?_⟩
    · simp [step, afterPass]
    · have hst := length_skipSpace_le st.input
      show (skipSpace st.input).length + 0 ≤ s.length
      omega

section
variable {s rest rest' : Text} {c : Char} (hread : readString s = .ok (some rest))
  (hrest : skipSpace rest = c :: rest')
include hread hrest

/-- The step over a key and what comes after it. -/
theorem step_readKey (stack : List Frame) (l : List Routine) :
    step ⟨.members, stack, '"' :: s, l⟩
      = .ok (if c = ':' then ⟨.value, .object :: stack, skipSpace rest', l⟩
        else afterValue stack (c :: rest') (.parseObject :: l) true) := by
  have hstep : step ⟨.members, stack, '"' :: s, l⟩ = (stepKey stack l s).mapError .stuck := rfl
  rw [hstep, stepKey_of_next stack l hread hrest]
  rfl

/-- The key, the colon and the value take the characters that they are written with. -/
theorem length_readKey : rest'.length + 1 ≤ s.length := by
  have hlen := length_of_readString hread
  have hskip := length_skipSpace_le rest
  rw [hrest, List.length_cons] at hskip
  omega

/-- A key with a colon. -/
theorem objectPass_colon (hvalue : ReadsValues (fuel + 1) parseValue) (stack : List Frame)
    (object : VariantMap) (l : List Routine) (hc : c = ':') :
    Follows ⟨.members, stack, '"' :: s, l⟩ (fuel + 1) ('"' :: s).length (afterPass .members stack)
      passSlack (objectPass parseValue (fuel + 1) object ⟨'"' :: s, l⟩) := by
  -- `parseString` has already removed the whitespace that its caller removes again
  have hspace := skipSpace_eq_self hrest
  have hlen := length_readKey hread hrest
  have hstep := step_readKey hread hrest stack l
  rw [if_pos hc] at hstep
  subst hc
  have hpass : objectPass parseValue (fuel + 1) object ⟨'"' :: s, l⟩
      = match parseValue ⟨skipSpace rest', l⟩ with
        | .ok (v, st) => .ok (.again (SortedAssoc.insert (s.take ((findQuote s 0).getD 0)) v object),
            ⟨skipSpace st.input, st.failed⟩)
        | .error e => .error e := by
    simp [objectPass, parseString_of_readString hread, Variant.isValid, Variant.toText, hrest,
      hspace]
    cases parseValue ⟨skipSpace rest', l⟩ <;> rfl
  have hfollows := objectPass_value hvalue stack (s.take ((findQuote s 0).getD 0)) object rest' l
  rw [hpass]
  -- key and colon are characters that the value does not have to pay for
  refine hfollows.of_reaches (.single hstep) (fun hfuel => ?_) fun pass => ?_
  · simp only [List.length_cons]
    omega
  · have hslack : passSlack pass ≤ 1 := by cases pass <;> simp [passSlack]
    simp only [List.length_cons]
    omega

/-- A key without a colon. -/
theorem objectPass_noColon (stack : List Frame) (object : VariantMap) (l : List Routine)
    (hc : c ≠ ':') :
    Follows ⟨.members, stack, '"' :: s, l⟩ (fuel + 1) ('"' :: s).length (afterPass .members stack)
      passSlack (objectPass parseValue (fuel + 1) object ⟨'"' :: s, l⟩) := by
  have hspace := skipSpace_eq_self hrest
  have hlen := length_readKey hread hrest
  have hstep := step_readKey hread hrest stack l
  rw [if_neg hc] at hstep
  have hpass : objectPass parseValue (fuel + 1) object ⟨'"' :: s, l⟩
      = .ok (.leave [], ⟨c :: rest', .parseObject :: l⟩) := by
    simp [objectPass, parseString_of_readString hread, Variant.isValid, hrest, hspace, hc]
  rw [hpass]
  refine ⟨.single hstep, ?_⟩
  simp only [List.length_cons, passSlack]
  omega

end

/-- A member that begins with a key. -/
theorem objectPass_key (hvalue : ReadsValues fuel parseValue) (stack : List Frame)
    (object : VariantMap) (s : Text) (l : List Routine) :
    Follows ⟨.members, stack, '"' :: s, l⟩ fuel ('"' :: s).length (afterPass .members stack) passSlack
      (objectPass parseValue fuel object ⟨'"' :: s, l⟩) := by
  have hstep : step ⟨.members, stack, '"' :: s, l⟩ = (stepKey stack l s).mapError .stuck := rfl
  cases fuel with
  -- without fuel the search for the closing quote stops at once
  | zero =>
    simp only [objectPass, bind_apply, front_cons, ite_run, parseString_zero]
    exact Or.inr ⟨rfl, Nat.zero_le _⟩
  | succ fuel =>
    cases hread : readString s with
    | error reason =>
      simp only [objectPass, bind_apply, front_cons, ite_run, parseString_of_stuck hread]
      refine Halted.stuck _ ?_
      rw [hstep, stepKey, hread]
      rfl
    | ok rest =>
      cases rest with
      | none =>
        have hpass : objectPass parseValue (fuel + 1) object ⟨'"' :: s, l⟩
            = .ok (.leave [], ⟨s, .parseObject :: .parseString :: l⟩) := by
          simp [objectPass, parseString_of_unterminated hread, Variant.isValid]
        rw [hpass]
        refine ⟨.single ?_, Nat.le_succ _⟩
        rw [hstep, stepKey, hread]
        rfl
      | some rest =>
        -- the key has been read, and now it depends on what comes after it
        cases hcolon : skipSpace rest with
        | nil =>
          have hpass : objectPass parseValue (fuel + 1) object ⟨'"' :: s, l⟩
              = .error .outOfRange := by
            simp [objectPass, parseString_of_readString hread, Variant.isValid, hcolon]
          rw [hpass]
          refine Halted.stuck .endOfText ?_
          rw [hstep, stepKey_of_end stack l hread hcolon]
          rfl
        | cons c rest' =>
          by_cases hc : c = ':'
          · exact objectPass_colon hread hcolon hvalue stack object l hc
          · exact objectPass_noColon hread hcolon stack object l hc

/-- A pass of the loop of `parseObject`. -/
theorem objectPass_follows (hvalue : ReadsValues fuel parseValue) (stack : List Frame)
    (object : VariantMap) (s : Text) (l : List Routine) :
    Follows ⟨.members, stack, s, l⟩ fuel s.length (afterPass .members stack) passSlack
      (objectPass parseValue fuel object ⟨s, l⟩) := by
  cases s with
  | nil =>
    simp only [objectPass, bind_apply, front_nil]
    exact Halted.stuck .endOfText rfl
  | cons c s =>
    have hlen := length_skipSpace_le s
    by_cases hclose : c = '}'
    · subst hclose
      have hpass : objectPass parseValue fuel object ⟨'}' :: s, l⟩
          = .ok (.leave object, ⟨skipSpace s, l⟩) := by
        simp [objectPass]
      rw [hpass]
      refine ⟨.single ?_, hlen.trans (Nat.le_succ _)⟩
      simp only [afterPass, afterValue_skipSpace]
      rfl
    · -- any character but a brace, a quote or a comma breaks the map off
      by_cases hquote : c = '"'
      · subst hquote
        exact objectPass_key hvalue stack object s l
      · by_cases hcomma : c = ','
        · subst hcomma
          have hpass : objectPass parseValue fuel object ⟨',' :: s, l⟩
              = .ok (.again object, ⟨skipSpace s, l⟩) := by
            simp [objectPass]
          rw [hpass]
          exact ⟨.single rfl, Nat.succ_le_succ hlen⟩
        · have hpass : objectPass parseValue fuel object ⟨c :: s, l⟩
              = .ok (.leave [], ⟨c :: s, .parseObject :: l⟩) := by
            simp [objectPass, hclose, hquote, hcomma]
          rw [hpass]
          refine ⟨.single ?_, le_refl _⟩
          simp [step, stepMembers, hclose, hquote, hcomma, afterPass, Except.mapError]

/-- `parseObject`. -/
theorem parseObject_follows (hvalue : ReadsValues fuel parseValue) (stack : List Frame)
    (s : Text) (l : List Routine) :
    Follows ⟨.value, stack, '{' :: s, l⟩ fuel s.length
      (fun _ st => afterValue stack st.input st.failed true) (fun _ => 0)
      (parseObject parseValue fuel ⟨'{' :: s, l⟩) := by
  have hspace : skipSpace ('{' :: s) = '{' :: s := skipSpace_cons_of_not rfl s
  have hlen := length_skipSpace_le s
  have hstep : step ⟨.value, stack, '{' :: s, l⟩
      = Except.mapError .stuck (stepValue stack l ('{' :: s)) := rfl
  cases hrest : skipSpace s with
  | nil =>
    have hrun : parseObject parseValue fuel ⟨'{' :: s, l⟩ = .error .outOfRange := by
      simp [parseObject, hspace, hrest]
    rw [hrun]
    refine Halted.stuck .endOfText ?_
    rw [hstep]
    simp [stepValue, hrest, Except.mapError]
  | cons c rest =>
    rw [hrest, List.length_cons] at hlen
    by_cases hclose : c = '}'
    · subst hclose
      have hrun : parseObject parseValue fuel ⟨'{' :: s, l⟩ = .ok ([], ⟨rest, l⟩) := by
        simp [parseObject, hspace, hrest]
      rw [hrun]
      refine ⟨.single ?_, (Nat.le_succ _).trans hlen⟩
      rw [hstep]
      simp [stepValue, hrest, Except.mapError]
    · by_cases hquote : c = '"'
      · subst hquote
        have hrun : parseObject parseValue fuel ⟨'{' :: s, l⟩
            = loop .outOfFuel (objectPass parseValue fuel) fuel [] ⟨'"' :: rest, l⟩ := by
          simp [parseObject, hspace, hrest]
        have hmembers : step ⟨.value, stack, '{' :: s, l⟩
            = .ok ⟨.members, stack, '"' :: rest, l⟩ := by
          rw [hstep]
          simp [stepValue, hrest, Except.mapError]
        -- the loop has as much fuel as the values inside, so the minimum is that fuel
        have hloop := loop_follows .members stack (objectPass parseValue fuel)
          (fun object st => objectPass_follows hvalue stack object st.input st.failed) fuel []
          ⟨'"' :: rest, l⟩
        rw [Nat.min_self] at hloop
        rw [hrun]
        exact hloop.of_reaches (.single hmembers) (fun h => h.trans hlen) fun _ => hlen
      · have hrun : parseObject parseValue fuel ⟨'{' :: s, l⟩
            = .ok ([], ⟨c :: rest, .parseObject :: l⟩) := by
          simp [parseObject, hspace, hrest, hclose, hquote]
        rw [hrun]
        refine ⟨.single ?_, hlen⟩
        rw [hstep]
        simp [stepValue, hrest, hclose, hquote, Except.mapError]

end

/-! ### Arrays -/

section
variable {parseValue : Parser Variant} {fuel : Nat}

/-- What the loop of `parseArray` does with an element that has been read. -/
theorem arrayPass_element (fuel : Nat) (stack : List Frame) (array : VariantList) (v : Variant)
    (st : ParserState) (n : Nat) (hspace : skipSpace st.input = st.input)
    (hlen : st.input.length + v.isValid.toNat ≤ n) :
    Follows ⟨.back v.isValid, .array :: stack, skipSpace st.input, st.failed⟩ fuel n
      (afterPass .elements stack) passSlack
      ((if v.isValid then do
          if (← front) = ',' then
            removePrefix 1
            removeWhitespace
            pure (.again (array ++ [v]))
          else
            removeWhitespace
            pure (.again (array ++ [v]))
        else giveUp .parseArray (.leave []) : Parser (Pass VariantList VariantList)) st) := by
  obtain ⟨s, l⟩ := st
  simp only at hspace hlen
  rw [hspace]
  cases hvalid : v.isValid with
  -- without a value the array breaks off
  | false =>
    simp only [Bool.false_eq_true, if_false, giveUp_apply]
    refine ⟨.single ?_, by rw [hvalid] at hlen; exact hlen⟩
    simp [step, afterPass]
  | true =>
    rw [hvalid] at hlen
    have hlen : s.length + 1 ≤ n := hlen
    cases s with
    -- `input.at(0)` behind an element, where the text is at its end
    | nil =>
      simp only [if_true, bind_apply, front_nil]
      exact Halted.stuck .endOfText rfl
    | cons c s =>
      have hskip := length_skipSpace_le s
      rw [List.length_cons] at hlen
      -- a comma is taken, and without one the loop goes on all the same
      by_cases hcomma : c = ','
      · subst hcomma
        simp only [if_true, bind_apply, front_cons, removePrefix_apply,
          removeWhitespace_apply, List.drop_succ_cons, List.drop_zero, pure_apply]
        refine ⟨.single rfl, ?_⟩
        show (skipSpace s).length + 1 ≤ n
        omega
      · simp only [if_true, bind_apply, front_cons, if_neg hcomma, removeWhitespace_apply,
          pure_apply, hspace]
        refine ⟨.single ?_, ?_⟩
        · simp [step, stepElementRead, hcomma, afterPass, Except.mapError, hspace]
        · show (c :: s).length + 1 ≤ n
          rw [List.length_cons]
          omega

/-- A pass of the loop of `parseArray`. -/
theorem arrayPass_follows (hvalue : ReadsValues fuel parseValue) (stack : List Frame)
    (array : VariantList) (s : Text) (l : List Routine) :
    Follows ⟨.elements, stack, s, l⟩ fuel s.length (afterPass .elements stack) passSlack
      (arrayPass parseValue array ⟨s, l⟩) := by
  cases s with
  | nil =>
    simp only [arrayPass, bind_apply, front_nil]
    exact Halted.stuck .endOfText rfl
  | cons c s =>
    by_cases hclose : c = ']'
    · subst hclose
      have hpass : arrayPass parseValue array ⟨']' :: s, l⟩
          = .ok (.leave array, ⟨skipSpace s, l⟩) := by
        simp [arrayPass]
      rw [hpass]
      refine ⟨.single ?_, (length_skipSpace_le s).trans (Nat.le_succ _)⟩
      simp only [afterPass, afterValue_skipSpace]
      rfl
    · have hstep : step ⟨.elements, stack, c :: s, l⟩
          = .ok ⟨.value, .array :: stack, skipSpace (c :: s), l⟩ := by
        simp [step, stepElements, hclose, Except.mapError]
      have hlen := length_skipSpace_le (c :: s)
      -- the element is read with the array on the stack
      obtain ⟨hfollows, hspace⟩ := hvalue (.array :: stack) (skipSpace (c :: s)) l
      rw [skipSpace_skipSpace] at hfollows
      simp only [arrayPass, bind_apply, front_cons, ite_run, if_neg hclose,
        removeWhitespace_apply]
      cases hrun : parseValue ⟨skipSpace (c :: s), l⟩ with
      | error e =>
        rw [hrun] at hfollows
        exact Halted.of_reaches hfollows (.single hstep) fun h => h.trans hlen
      | ok p =>
        obtain ⟨v, st⟩ := p
        rw [hrun] at hfollows
        obtain ⟨hreach, hle⟩ := hfollows
        have helement := arrayPass_element fuel stack array v st _
          (hspace v st hrun) (hle.trans hlen)
        have hpass := helement.of_reaches (hreach.head hstep) id fun _ => le_refl _
        simpa only [ite_run, bind_apply, removeWhitespace_apply] using hpass

/-- `parseArray`. -/
theorem parseArray_follows (hvalue : ReadsValues fuel parseValue) (stack : List Frame)
    (s : Text) (l : List Routine) :
    Follows ⟨.value, stack, '[' :: s, l⟩ fuel s.length
      (fun _ st => afterValue stack st.input st.failed true) (fun _ => 0)
      (parseArray parseValue fuel ⟨'[' :: s, l⟩) := by
  have hspace : skipSpace ('[' :: s) = '[' :: s := skipSpace_cons_of_not rfl s
  have hrun : parseArray parseValue fuel ⟨'[' :: s, l⟩
      = loop .outOfFuel (arrayPass parseValue) fuel [] ⟨s, l⟩ := by
    simp [parseArray, hspace]
  have helements : step ⟨.value, stack, '[' :: s, l⟩ = .ok ⟨.elements, stack, s, l⟩ := rfl
  have hloop := loop_follows .elements stack (arrayPass parseValue)
    (fun array st => arrayPass_follows hvalue stack array st.input st.failed) fuel [] ⟨s, l⟩
  rw [Nat.min_self] at hloop
  rw [hrun]
  exact hloop.of_reaches (.single helements) id fun _ => le_refl _

end

/-! ### Values -/

/-- The configuration after a value `v`. -/
def afterVariant (stack : List Frame) (v : Variant) (st : ParserState) : Config :=
  afterValue stack st.input st.failed v.isValid

section
variable (stack : List Frame) (s : Text) (l : List Routine)

/-- The step over a string. -/
theorem step_string :
    step ⟨.value, stack, '"' :: s, l⟩
      = Except.mapError .stuck ((readString s).map fun
        | some rest => afterValue stack rest l true
        | none => afterValue stack s (.parseString :: l) false) := rfl

variable {c : Char}

/-- The step over a number. -/
theorem step_number (hc : c.isDigit ∨ c = '-') :
    step ⟨.value, stack, c :: s, l⟩
      = Except.mapError .stuck ((readNumber (c :: s)).map fun (valid, rest) =>
        afterValue stack rest (if valid then l else .parseNumber :: l) valid) := by
  -- a quote is neither a digit nor a sign
  have hquote : c ≠ '"' := by
    rintro rfl
    exact absurd hc (by decide)
  simp only [step, stepValue, if_neg hquote, if_pos hc]

/-- The step over a word. -/
theorem step_word (hc : c ≠ '"' ∧ ¬(c.isDigit ∨ c = '-') ∧ c ≠ '{' ∧ c ≠ '[')
    (halpha : c.isAlpha) :
    step ⟨.value, stack, c :: s, l⟩
      = Except.mapError .stuck ((readWord (c :: s)).map fun (valid, rest) =>
        afterValue stack rest (if valid then l else .parseLiteral :: l) valid) := by
  obtain ⟨hquote, hnumber, hobject, harray⟩ := hc
  simp only [step, stepValue, if_neg hquote, if_neg hnumber, if_neg hobject, if_neg harray,
    if_pos halpha]

end

section
variable {parseValue : Parser Variant} {fuel : Nat}

/-- A value that begins with a quote. -/
theorem parseString_follows (stack : List Frame) (s : Text) (l : List Routine) :
    Follows ⟨.value, stack, '"' :: s, l⟩ (fuel + 1) ('"' :: s).length (afterVariant stack)
      (fun v => v.isValid.toNat) (parseString fuel ⟨'"' :: s, l⟩) := by
  have hstep := step_string stack s l
  cases fuel with
  | zero =>
    rw [parseString_zero]
    exact Or.inr ⟨rfl, Nat.succ_le_succ (Nat.zero_le _)⟩
  | succ fuel =>
    cases hread : readString s with
    | error reason =>
      rw [parseString_of_stuck hread]
      refine Halted.stuck _ ?_
      rw [hstep, hread]
      rfl
    | ok rest =>
      cases rest with
      | none =>
        rw [parseString_of_unterminated hread]
        refine ⟨.single ?_, Nat.le_succ _⟩
        rw [hstep, hread]
        rfl
      | some rest =>
        have hlen := (length_skipSpace_le rest).trans (length_of_readString hread)
        rw [parseString_of_readString hread]
        refine ⟨.single ?_, Nat.succ_le_succ hlen⟩
        rw [hstep, hread, afterVariant, afterValue_skipSpace]
        rfl

/-- A value that begins with a digit or a sign. -/
theorem parseNumber_follows {c : Char} (hc : c.isDigit ∨ c = '-') (stack : List Frame) (s : Text)
    (l : List Routine) :
    Follows ⟨.value, stack, c :: s, l⟩ (fuel + 1) (c :: s).length (afterVariant stack)
      (fun v => v.isValid.toNat) (parseNumber ⟨c :: s, l⟩) := by
  have hstep := step_number stack s l hc
  have hnumber := parseNumber_eq hc s l
  cases hread : readNumber (c :: s) with
  | error e =>
    rw [hread] at hnumber
    rw [hnumber]
    refine Halted.stuck _ ?_
    rw [hstep, hread]
    rfl
  | ok p =>
    obtain ⟨valid, rest⟩ := p
    have hlen := length_of_readNumber hread
    rw [hread] at hnumber
    cases valid with
    | true =>
      obtain ⟨q, r, hq, hspace, hle⟩ := hnumber
      rw [hq]
      refine ⟨.single ?_, (Nat.add_le_add_right hle _).trans hlen⟩
      rw [hstep, hread]
      simp [afterVariant, afterValue, Except.mapError, hspace, Variant.isValid]
    | false =>
      rw [hnumber]
      refine ⟨.single ?_, hlen⟩
      rw [hstep, hread]
      rfl

/-- A value that begins with any other character. -/
theorem parseLiteral_follows {c : Char} (hspace : isSpace c = false)
    (hc : c ≠ '"' ∧ ¬(c.isDigit ∨ c = '-') ∧ c ≠ '{' ∧ c ≠ '[') (stack : List Frame) (s : Text)
    (l : List Routine) :
    Follows ⟨.value, stack, c :: s, l⟩ (fuel + 1) (c :: s).length (afterVariant stack)
      (fun v => v.isValid.toNat) (parseLiteral ⟨c :: s, l⟩) := by
  by_cases halpha : c.isAlpha
  · have hstep := step_word stack s l hc halpha
    have hliteral := parseLiteral_eq halpha s l
    cases hread : readWord (c :: s) with
    | error e =>
      rw [hread] at hliteral
      rw [hliteral]
      refine Halted.stuck _ ?_
      rw [hstep, hread]
      rfl
    | ok p =>
      obtain ⟨valid, rest⟩ := p
      have hlen := (length_skipSpace_le rest).trans (length_of_readWord halpha hread)
      -- the reader and the routine look at the same word
      have hword : isWord ((c :: s).takeWhile Char.isAlpha) = valid := by
        unfold readWord at hread
        cases hrun : readRun Char.isAlpha (c :: s) with
        | error e => rw [hrun] at hread; cases hread
        | ok rest' => rw [hrun] at hread; exact (Prod.mk.inj (Except.ok.inj hread)).1
      rw [hread] at hliteral
      cases valid with
      | true =>
        rw [hliteral]
        have hvalid := (wordValue_isValid _).trans hword
        refine ⟨.single ?_, ?_⟩
        · rw [hstep, hread, afterVariant, hvalid, afterValue_skipSpace]
          rfl
        · simp only [hvalid]
          exact Nat.succ_le_succ hlen
      | false =>
        rw [hliteral]
        refine ⟨.single ?_, hlen.trans (Nat.le_succ _)⟩
        rw [hstep, hread, afterVariant, afterValue_skipSpace]
        rfl
  -- neither of the two takes a character that begins no value
  · obtain ⟨hquote, hnumber, hobject, harray⟩ := hc
    have halpha : c.isAlpha = false := by simpa using halpha
    rw [parseLiteral_of_not_alpha halpha hspace]
    refine ⟨.single ?_, le_refl _⟩
    simp [step, stepValue, hquote, not_or.mp hnumber, hobject, harray, halpha, Except.mapError,
      afterVariant, Variant.isValid]

/-- A value that begins with a bracket: `parse` reads the container that `f` wraps. -/
theorem Follows.container {α : Type} {c : Char} {stack : List Frame} {s : Text}
    {l : List Routine} {parse : Parser α} (f : α → Variant) (hf : ∀ a, (f a).isValid = true)
    (h : Follows ⟨.value, stack, c :: s, l⟩ fuel s.length
      (fun _ st => afterValue stack st.input st.failed true) (fun _ => 0) (parse ⟨c :: s, l⟩)) :
    Follows ⟨.value, stack, c :: s, l⟩ (fuel + 1) (c :: s).length (afterVariant stack)
      (fun v => v.isValid.toNat) ((do pure (f (← parse)) : Parser Variant) ⟨c :: s, l⟩) := by
  rw [bind_apply]
  cases hrun : parse ⟨c :: s, l⟩ with
  | error e =>
    rw [hrun] at h
    exact Halted.of_reaches h (.refl _) Nat.succ_le_succ
  | ok p =>
    obtain ⟨a, st⟩ := p
    rw [hrun] at h
    obtain ⟨hreach, hlen⟩ := h
    refine ⟨?_, ?_⟩
    · rw [afterVariant, hf]
      exact hreach
    · simp only [hf]
      exact Nat.succ_le_succ hlen

/-- The dispatch of `parseValue`. -/
theorem parseByFront_follows (hvalue : ReadsValues fuel parseValue) (stack : List Frame)
    (s : Text) (l : List Routine) (hs : skipSpace s = s) :
    Follows ⟨.value, stack, s, l⟩ (fuel + 1) s.length (afterVariant stack)
      (fun v => v.isValid.toNat) (parseByFront parseValue fuel ⟨s, l⟩) := by
  cases s with
  | nil =>
    simp only [parseByFront, bind_apply, front_nil]
    exact Halted.stuck .endOfText rfl
  | cons c s =>
    -- a text that loses nothing with its whitespace does not begin with whitespace
    have hspace : isSpace c = false := by
      by_contra hc
      have hlen := length_skipSpace_le s
      have hlong := congrArg List.length hs
      rw [skipSpace, List.dropWhile_cons, if_pos (by simpa using hc)] at hlong
      rw [List.length_cons] at hlong
      exact absurd hlong (by unfold skipSpace at hlen; omega)
    simp only [parseByFront, bind_apply, front_cons, ite_run]
    by_cases hquote : c = '"'
    · subst hquote
      exact parseString_follows stack s l
    · rw [if_neg hquote]
      by_cases hnumber : c.isDigit ∨ c = '-'
      · rw [if_pos hnumber]
        exact parseNumber_follows hnumber stack s l
      · rw [if_neg hnumber]
        by_cases hobject : c = '{'
        · subst hobject
          have hcontainer := (parseObject_follows hvalue stack s l).container .map fun _ => rfl
          simpa only [bind_apply, if_true] using hcontainer
        · rw [if_neg hobject]
          by_cases harray : c = '['
          · subst harray
            have hcontainer := (parseArray_follows hvalue stack s l).container .list fun _ => rfl
            simpa only [bind_apply, if_true] using hcontainer
          · rw [if_neg harray]
            exact parseLiteral_follows hspace ⟨hquote, hnumber, hobject, harray⟩ stack s l

end

/-- `parseValue` follows the reader, with any fuel. -/
theorem parseValue_follows (fuel : Nat) : ReadsValues fuel (parseValue fuel) := by
  induction fuel with
  | zero =>
    intro stack s l
    exact ⟨Or.inr ⟨rfl, Nat.zero_le _⟩, fun v st h => nomatch h⟩
  | succ fuel ih =>
    intro stack s l
    have hfront := parseByFront_follows ih stack (skipSpace s) l (skipSpace_skipSpace s)
    have hlen := length_skipSpace_le s
    simp only [parseValue, bind_apply, removeWhitespace_apply, pure_apply]
    cases hrun : parseByFront (parseValue fuel) fuel ⟨skipSpace s, l⟩ with
    | error e =>
      rw [hrun] at hfront
      exact ⟨Halted.of_reaches hfront (.refl _) fun h => h.trans hlen, fun v st h => nomatch h⟩
    | ok p =>
      obtain ⟨v, st⟩ := p
      rw [hrun] at hfront
      obtain ⟨hreach, hle⟩ := hfront
      have hst := length_skipSpace_le st.input
      -- where the reader gets to, how much has been read, and that no whitespace is left
      refine ⟨⟨?_, ?_⟩, ?_⟩
      · simp only [skipSpace_skipSpace]
        exact hreach
      · exact (Nat.add_le_add_right hst _).trans (hle.trans hlen)
      · rintro v' st' h
        obtain ⟨rfl, rfl⟩ := Prod.mk.inj (Except.ok.inj h)
        exact skipSpace_skipSpace _

/-! ### Whole texts -/

/-- The outcome of the parser on a whole text, as the reader sees it. -/
def Agrees (txt : Text) (fuel : Nat) : Except Stop (Variant × List Routine) → Prop
  | .ok (v, failed) =>
    (v = .invalid ∧ failed = [] ∧ Halts step (start txt) .noContainer) ∨
      ∃ c, HaltsAt step (start txt) c .finished ∧ c.failed = failed ∧
        (v.isValid = true ↔ c.input = [])
  | .error e => Halted (start txt) fuel txt.length e

/-- A text whose outermost container `parse` reads. -/
theorem agrees_of_container {α : Type} {c : Char} {txt s : Text} {fuel : Nat} {parse : Parser α}
    (f : α → Variant) (hf : ∀ a, (f a).isValid = true)
    (hstart : Reaches step (start txt) ⟨.value, [], c :: s, []⟩)
    (hlen : (c :: s).length ≤ txt.length)
    (h : Follows ⟨.value, [], c :: s, []⟩ fuel s.length
      (fun _ st => afterValue [] st.input st.failed true) (fun _ => 0) (parse ⟨c :: s, []⟩)) :
    Agrees txt fuel (((do
        let content ← parse
        removeWhitespace
        view fun input => .ok (if input ≠ [] then .invalid else f content) : Parser Variant)
        ⟨c :: s, []⟩).map fun p => (p.1, p.2.failed)) := by
  rw [bind_apply]
  cases hrun : parse ⟨c :: s, []⟩ with
  | error e =>
    rw [hrun] at h
    exact Halted.of_reaches h hstart fun hfuel => hfuel.trans ((Nat.le_succ _).trans hlen)
  | ok p =>
    obtain ⟨a, st⟩ := p
    rw [hrun] at h
    refine Or.inr ⟨afterValue [] st.input st.failed true, ⟨hstart.trans h.1, rfl⟩, rfl, ?_⟩
    -- `parse` asks whether anything is left, and so does the reader's last configuration
    by_cases hend : skipSpace st.input = []
    · simp [afterValue, hend, hf]
    · simp [afterValue, hend, Variant.isValid]

/-- The parser and the reader on a whole text. -/
theorem parse_follows (fuel : Nat) (txt : Text) : Agrees txt fuel (parse fuel txt) := by
  have hlen := length_skipSpace_le txt
  have hspace := skipSpace_skipSpace txt
  have hstep : step (start txt) = stepRoot [] (skipSpace txt) := rfl
  unfold parse
  cases hs : skipSpace txt with
  | nil =>
    rw [hs] at hstep
    have hroot : parseRoot fuel ⟨txt, []⟩ = .error .outOfRange := by
      simp [parseRoot, hs]
    rw [hroot]
    exact Halted.stuck .endOfText hstep
  | cons c s =>
    rw [hs] at hstep hlen
    by_cases hobject : c = '{'
    · subst hobject
      have hcontainer := agrees_of_container .map (fun _ => rfl) (.single hstep) hlen
        (parseObject_follows (parseValue_follows fuel) [] s [])
      simpa only [parseRoot, bind_apply, removeWhitespace_apply, hs, front_cons, ite_run,
        if_true] using hcontainer
    · by_cases harray : c = '['
      · subst harray
        have hcontainer := agrees_of_container .list (fun _ => rfl) (.single hstep) hlen
          (parseArray_follows (parseValue_follows fuel) [] s [])
        simpa only [parseRoot, bind_apply, removeWhitespace_apply, hs, front_cons, ite_run,
          if_true, if_neg hobject] using hcontainer
      · have hroot : parseRoot fuel ⟨txt, []⟩ = .ok (.invalid, ⟨c :: s, []⟩) := by
          simp [parseRoot, hs, hobject, harray]
        rw [hroot]
        refine Or.inl ⟨rfl, rfl, .now ?_⟩
        rw [hstep, stepRoot, if_neg (not_or.mpr ⟨hobject, harray⟩)]

end Brutils.Proofs.Json
