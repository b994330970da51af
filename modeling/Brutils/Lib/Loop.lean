/-!
# Loops with fuel in a state and exception monad

A `while` loop over `StateT σ (Except ε)` is a body that says after each pass whether to go
on. The fuel counts the passes, and `stuck` is the exception of a loop that runs out of it.
A statement about enough fuel is then a statement about the loop itself.

`loop_again` and `loop_leave` run one pass. `loop_induction` is the rule for a property of
every way a loop can end: prove it for a body that leaves or throws, and carry it back over
a body that goes on.

`Triple Pre x Post` is partial correctness: from a state in `Pre`, every result of the
computation `x` and the state it leaves are in `Post`. There is a rule for each way of building a
computation, and `triple_loop` is the rule for an invariant of a loop. `Results x P` is the case
in which the states do not matter.
-/

set_option autoImplicit false

namespace Loop

/-- What one pass through a loop body does: go on, or leave the loop with a result. -/
inductive Pass (α β : Type)
  | again (next : α)
  | leave (result : β)

variable {σ ε α β : Type}

/-- `while`, with at most `fuel` passes. -/
def loop (stuck : ε) (body : α → StateT σ (Except ε) (Pass α β)) :
    Nat → α → StateT σ (Except ε) β
  | 0, _ => fun _ => .error stuck
  | fuel + 1, a => do
    match ← body a with
    | .again a' => loop stuck body fuel a'
    | .leave b => pure b

section
variable {stuck : ε} {body : α → StateT σ (Except ε) (Pass α β)} {a a' : α} {b : β}
  {st st' : σ} {e : ε}

/-- A pass that goes on. -/
theorem loop_again (fuel : Nat) (h : body a st = .ok (.again a', st')) :
    loop stuck body (fuel + 1) a st = loop stuck body fuel a' st' := by
  show (body a st >>= _) = _
  rw [h]
  rfl

/-- A pass that leaves the loop. -/
theorem loop_leave (fuel : Nat) (h : body a st = .ok (.leave b, st')) :
    loop stuck body (fuel + 1) a st = .ok (b, st') := by
  show (body a st >>= _) = _
  rw [h]
  rfl

/-- A pass that throws. -/
theorem loop_error (fuel : Nat) (h : body a st = .error e) :
    loop stuck body (fuel + 1) a st = .error e := by
  show (body a st >>= _) = _
  rw [h]
  rfl

end

/-- The rule for loops. `P fuel a st r` says that `r` is a good result of the loop from `a`
and `st` with `fuel` passes left. It has to hold when no pass is left, when a pass throws
or leaves, and it has to carry back over a pass that goes on. -/
theorem loop_induction {stuck : ε} {body : α → StateT σ (Except ε) (Pass α β)}
    (P : Nat → α → σ → Except ε (β × σ) → Prop)
    (hstuck : ∀ a st, P 0 a st (.error stuck))
    (herror : ∀ fuel a st e, body a st = .error e → P (fuel + 1) a st (.error e))
    (hleave : ∀ fuel a st b st', body a st = .ok (.leave b, st') →
      P (fuel + 1) a st (.ok (b, st')))
    (hagain : ∀ fuel a st a' st' r, body a st = .ok (.again a', st') →
      P fuel a' st' r → P (fuel + 1) a st r) :
    ∀ fuel a st, P fuel a st (loop stuck body fuel a st) := by
  intro fuel
  induction fuel with
  | zero => intro a st; exact hstuck a st
  | succ fuel ih =>
    intro a st
    cases h : body a st with
    | error e => rw [loop_error fuel h]; exact herror fuel a st e h
    | ok p =>
      obtain ⟨pass, st'⟩ := p
      cases pass with
      | again a' => rw [loop_again fuel h]; exact hagain fuel a st a' st' _ h (ih a' st')
      | leave b => rw [loop_leave fuel h]; exact hleave fuel a st b st' h

/-! ### Triples -/

/-- From a state in `Pre`, every result of `x` and the state it leaves are in `Post`. -/
def Triple (Pre : σ → Prop) (x : StateT σ (Except ε) α) (Post : α → σ → Prop) : Prop :=
  ∀ st a st', Pre st → x st = .ok (a, st') → Post a st'

/-- A pass that goes on does so with `Inv`, and one that leaves does so with `Q`. -/
def Pass.Keeps (Inv : α → Prop) (Q : β → Prop) : Pass α β → Prop
  | .again next => Inv next
  | .leave result => Q result

section
variable {γ : Type} {Pre : σ → Prop} {Mid : α → σ → Prop} {Post : γ → σ → Prop}

/-- A returned value leaves the state as it is. -/
theorem triple_pure {c : γ} (h : ∀ st, Pre st → Post c st) :
    Triple Pre (pure c : StateT σ (Except ε) γ) Post := by
  intro st c' st' hpre hc
  obtain ⟨rfl, rfl⟩ := Prod.mk.inj (Except.ok.inj hc)
  exact h st hpre

/-- A computation and then another. -/
theorem triple_bind {x : StateT σ (Except ε) α} {f : α → StateT σ (Except ε) γ}
    (hx : Triple Pre x Mid) (hf : ∀ a, Triple (Mid a) (f a) Post) : Triple Pre (x >>= f) Post := by
  intro st c st' hpre h
  change (x st >>= fun p => f p.1 p.2) = .ok (c, st') at h
  cases hxst : x st with
  | error e => rw [hxst] at h; cases h
  | ok p => rw [hxst] at h; exact hf p.1 p.2 c st' (hx st p.1 p.2 hpre hxst) h

/-- Both branches of a test. -/
theorem triple_ite {c : Prop} [Decidable c] {x y : StateT σ (Except ε) γ}
    (hx : c → Triple Pre x Post) (hy : ¬c → Triple Pre y Post) :
    Triple Pre (if c then x else y) Post := by
  split
  · rename_i hc
    exact hx hc
  · rename_i hc
    exact hy hc

/-- The rule of consequence. -/
theorem Triple.imp {Pre' : σ → Prop} {Post' : γ → σ → Prop} {x : StateT σ (Except ε) γ}
    (h : Triple Pre x Post) (hpre : ∀ st, Pre' st → Pre st)
    (hpost : ∀ c st, Post c st → Post' c st) : Triple Pre' x Post' :=
  fun st c st' hst hc => hpost c st' (h st c st' (hpre st hst) hc)

/-- A part of the precondition that does not depend on the state. -/
theorem triple_of_imp {P : Prop} {x : StateT σ (Except ε) γ} (h : P → Triple Pre x Post) :
    Triple (fun st => Pre st ∧ P) x Post :=
  fun st c st' hst hc => h hst.2 st c st' hst.1 hc

end

/-- The rule for an invariant of a loop: a pass that goes on keeps it, and a pass that leaves
establishes the postcondition. -/
theorem triple_loop {stuck : ε} {body : α → StateT σ (Except ε) (Pass α β)} (Inv : α → σ → Prop)
    {Post : β → σ → Prop}
    (hbody : ∀ a, Triple (Inv a) (body a) fun pass st => pass.Keeps (Inv · st) (Post · st))
    (fuel : Nat) (a : α) : Triple (Inv a) (loop stuck body fuel a) Post := by
  induction fuel generalizing a with
  | zero =>
    intro st b st' _ h
    cases h
  | succ fuel ih =>
    refine triple_bind (hbody a) ?_
    intro pass
    cases pass with
    | again a' => exact ih a'
    | leave b => exact triple_pure fun _ h => h

/-! ### Results -/

/-- Every result of `x` satisfies `P`. -/
def Results (x : StateT σ (Except ε) α) (P : α → Prop) : Prop :=
  ∀ st a st', x st = .ok (a, st') → P a

/-- Results are triples that say nothing about the states. -/
theorem results_iff {x : StateT σ (Except ε) α} {P : α → Prop} :
    Results x P ↔ Triple (fun _ => True) x fun a _ => P a :=
  ⟨fun h st a st' _ => h st a st', fun h st a st' => h st a st' trivial⟩

section
variable {γ : Type} {P : α → Prop} {Q : γ → Prop}

/-- A returned value is the result. -/
theorem results_pure {a : α} (h : P a) : Results (pure a : StateT σ (Except ε) α) P :=
  results_iff.mpr (triple_pure fun _ _ => h)

/-- A computation and then another. -/
theorem results_bind {x : StateT σ (Except ε) α} {f : α → StateT σ (Except ε) γ}
    (hx : Results x P) (hf : ∀ a, P a → Results (f a) Q) : Results (x >>= f) Q := by
  refine results_iff.mpr (triple_bind (results_iff.mp hx) fun a => ?_)
  intro st c st' ha
  exact hf a ha st c st'

/-- A computation whose result does not matter, and then another. -/
theorem results_bind_any {x : StateT σ (Except ε) α} {f : α → StateT σ (Except ε) γ}
    (hf : ∀ a, Results (f a) Q) : Results (x >>= f) Q :=
  results_bind (P := fun _ => True) (fun _ _ _ _ => trivial) fun a _ => hf a

/-- The results of both branches of a test. -/
theorem results_ite {c : Prop} [Decidable c] {x y : StateT σ (Except ε) α} (hx : Results x P)
    (hy : Results y P) : Results (if c then x else y) P :=
  results_iff.mpr (triple_ite (fun _ => results_iff.mp hx) fun _ => results_iff.mp hy)

end

end Loop
