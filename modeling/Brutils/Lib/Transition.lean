import Mathlib.Logic.Relation

/-!
# Transition systems and their invariants

A system is a predicate `init` on its states and a relation `next` between them.
`Reachable init next` are the states it can come to, in any number of steps.

`Reachable.invariant` is the rule for safety: what holds at the beginning and is kept by
every step holds in every reachable state. The step may use that its first state is
reachable. `Reachable.mono` compares two systems, and `Reachable.simulated` two systems with
different states. `steps_le_rank` is the rule for the end of a system each of whose steps lowers a
rank.

A system can also be a function of its state and an input. Then a list of inputs is a run.
`throughout_iff_everyStep` is the rule for a property that holds throughout a run exactly if each
of its steps meets a condition.
-/

set_option autoImplicit false

namespace Transition

variable {σ : Type*}

/-- The states that some number of steps leads to. -/
def Reachable (init : σ → Prop) (next : σ → σ → Prop) (t : σ) : Prop :=
  ∃ s, init s ∧ Relation.ReflTransGen next s t

section
variable {init init' : σ → Prop} {next next' : σ → σ → Prop} {s t : σ}

/-- The initial states are reachable. -/
theorem Reachable.start (h : init s) : Reachable init next s := ⟨s, h, .refl⟩

/-- One more step. -/
theorem Reachable.step (hs : Reachable init next s) (h : next s t) : Reachable init next t := by
  obtain ⟨r, hr, hrs⟩ := hs
  exact ⟨r, hr, hrs.tail h⟩

/-- A system with more steps reaches no fewer states. -/
theorem Reachable.mono (hinit : ∀ s, init s → init' s) (hnext : ∀ s t, next s t → next' s t)
    (h : Reachable init next t) : Reachable init' next' t := by
  obtain ⟨r, hr, hrt⟩ := h
  exact ⟨r, hinit r hr, Relation.ReflTransGen.mono hnext _ _ hrt⟩

/-- The rule for invariants. -/
theorem Reachable.invariant {P : σ → Prop} (hinit : ∀ s, init s → P s)
    (hstep : ∀ s t, Reachable init next s → P s → next s t → P t) (ht : Reachable init next t) :
    P t := by
  obtain ⟨r, hr, hrt⟩ := ht
  induction hrt with
  | refl => exact hinit r hr
  | tail hrs hst ih => exact hstep _ _ ⟨r, hr, hrs⟩ ih hst

/-- The rule for simulations: a system whose steps are each some number of steps of another one,
under a view of its states, is a part of it. -/
theorem Reachable.simulated {τ : Type*} {init' : τ → Prop} {next' : τ → τ → Prop} (view : σ → τ)
    (hinit : ∀ s, init s → init' (view s))
    (hstep : ∀ s t, Reachable init next s → next s t →
      Relation.ReflTransGen next' (view s) (view t)) (h : Reachable init next t) :
    Reachable init' next' (view t) := by
  refine h.invariant (P := fun s => Reachable init' next' (view s))
    (fun s hs => .start (hinit s hs)) fun s t hs ih hst => ?_
  obtain ⟨r, hr, hrs⟩ := ih
  exact ⟨r, hr, hrs.trans (hstep s t hs hst)⟩

end

/-- Where each step lowers a rank, a run has no more steps than the rank with which it begins. -/
theorem steps_le_rank {next : σ → σ → Prop} {P : σ → Prop} (rank : σ → Nat)
    (hlower : ∀ s t, P s → next s t → P t ∧ rank t < rank s) {trace : Nat → σ}
    (hstart : P (trace 0)) {n : Nat} (h : ∀ k, k < n → next (trace k) (trace (k + 1))) :
    P (trace n) ∧ rank (trace n) + n ≤ rank (trace 0) := by
  induction n with
  | zero => exact ⟨hstart, Nat.le_refl _⟩
  | succ n ih =>
    obtain ⟨hn, hrank⟩ := ih fun k hk => h k (Nat.lt_succ_of_lt hk)
    obtain ⟨hnext, hless⟩ := hlower _ _ hn (h n (Nat.lt_succ_self n))
    exact ⟨hnext, by omega⟩

/-! ### Runs of a function -/

section
variable {ι : Type*} (step : σ → ι → σ)

/-- `P` holds in every state of the run. -/
def Throughout (P : σ → Prop) : σ → List ι → Prop
  | s, [] => P s
  | s, i :: inputs => P s ∧ Throughout P (step s i) inputs

/-- Every step of the run meets the condition. -/
def EveryStep (Q : σ → ι → Prop) : σ → List ι → Prop
  | _, [] => True
  | s, i :: inputs => Q s i ∧ EveryStep Q (step s i) inputs

/-- A property that holds throughout holds at the beginning. -/
theorem Throughout.start {P : σ → Prop} {s : σ} {inputs : List ι}
    (h : Throughout step P s inputs) : P s := by
  cases inputs with
  | nil => exact h
  | cons i inputs => exact h.1

/-- The rule for a condition on the steps: a step that meets it keeps an invariant from which `P`
follows, and any other step breaks `P`. -/
theorem throughout_iff_everyStep {Inv P : σ → Prop} {Q : σ → ι → Prop} (hinv : ∀ s, Inv s → P s)
    (hkeeps : ∀ s i, Inv s → Q s i → Inv (step s i))
    (hbreaks : ∀ s i, Inv s → ¬Q s i → ¬P (step s i)) (inputs : List ι) :
    ∀ s, Inv s → (Throughout step P s inputs ↔ EveryStep step Q s inputs) := by
  induction inputs with
  | nil =>
    intro s hs
    exact iff_of_true (hinv s hs) trivial
  | cons i inputs ih =>
    intro s hs
    show P s ∧ Throughout step P (step s i) inputs ↔ Q s i ∧ EveryStep step Q (step s i) inputs
    by_cases hQ : Q s i
    · rw [ih _ (hkeeps s i hs hQ), and_iff_right (hinv s hs), and_iff_right hQ]
    · refine iff_of_false (fun h => ?_) fun h => hQ h.1
      exact hbreaks s i hs hQ h.2.start

end

end Transition
