import Mathlib.Computability.StateTransition

/-!
# Deterministic machines that halt with a reason

A machine is a function `step : σ → Except η σ`. A step leads to the next configuration,
or the machine has halted and says why. `Reaches` is Mathlib's `StateTransition.Reaches` for
the steps, and `HaltsAt step a b h` says that the run from `a` halts at `b` with reason
`h`.

* `Reaches.head`, `Reaches.trans`, `HaltsAt.of_reaches`: runs compose.
* `Reaches.of_haltsAt`, `HaltsAt.unique`: what is reached leads to the halt, and a run halts at
  one configuration, with one reason.
* `Reaches.induct`: what every step keeps holds along a run.
-/

set_option autoImplicit false

namespace Machine

variable {σ η : Type*} {step : σ → Except η σ} {a b c : σ} {h : η}

/-- Some number of steps leads from `a` to `b`. -/
def Reaches (step : σ → Except η σ) (a b : σ) : Prop :=
  StateTransition.Reaches (fun s => (step s).toOption) a b

/-- The run from `a` halts at `b` with reason `h`. -/
def HaltsAt (step : σ → Except η σ) (a b : σ) (h : η) : Prop :=
  Reaches step a b ∧ step b = .error h

/-- The run from `a` halts with reason `h`. -/
def Halts (step : σ → Except η σ) (a : σ) (h : η) : Prop := ∃ b, HaltsAt step a b h

/-- A step without its reason to halt. -/
theorem mem_toOption_iff (s t : σ) : t ∈ (step s).toOption ↔ step s = .ok t := by
  cases hs : step s <;> simp [Except.toOption, eq_comm]

/-- No step. -/
theorem Reaches.refl (a : σ) : Reaches step a a := Relation.ReflTransGen.refl

/-- Two runs one after the other. -/
theorem Reaches.trans (hab : Reaches step a b) (hbc : Reaches step b c) : Reaches step a c :=
  Relation.ReflTransGen.trans hab hbc

/-- One step, and then a run. -/
theorem Reaches.head (hab : step a = .ok b) (hbc : Reaches step b c) : Reaches step a c :=
  Relation.ReflTransGen.head ((mem_toOption_iff a b).mpr hab) hbc

/-- One step. -/
theorem Reaches.single (hab : step a = .ok b) : Reaches step a b := .head hab (.refl b)

/-- What holds of `a` and is kept by every step holds of every configuration reached. -/
theorem Reaches.induct {P : σ → Prop} (ha : P a) (hstep : ∀ s t, P s → step s = .ok t → P t)
    (hab : Reaches step a b) : P b := by
  induction hab with
  | refl => exact ha
  | tail _ hbc ih => exact hstep _ _ ih ((mem_toOption_iff _ _).mp hbc)

/-- A run that goes through `b` halts as the run from `b` does. -/
theorem HaltsAt.of_reaches (hab : Reaches step a b) (hbc : HaltsAt step b c h) :
    HaltsAt step a c h :=
  ⟨hab.trans hbc.1, hbc.2⟩

/-- A run that goes through `b` halts as the run from `b` does. -/
theorem Halts.of_reaches (hab : Reaches step a b) (hb : Halts step b h) : Halts step a h := by
  obtain ⟨c, hc⟩ := hb
  exact ⟨c, hc.of_reaches hab⟩

/-- One step, and then a run that halts. -/
theorem Halts.head (hab : step a = .ok b) (hb : Halts step b h) : Halts step a h :=
  hb.of_reaches (.single hab)

/-- A machine that halts at once. -/
theorem Halts.now (ha : step a = .error h) : Halts step a h := ⟨a, .refl a, ha⟩

/-- A halted configuration reaches only itself. -/
theorem Reaches.eq_of_halted (hab : Reaches step a b) (ha : step a = .error h) : b = a := by
  rcases Relation.ReflTransGen.cases_head hab with heq | ⟨t, hat, -⟩
  · exact heq.symm
  · rw [(mem_toOption_iff a t).mp hat] at ha
    cases ha

/-- What is reached on the way to a halt leads there. -/
theorem Reaches.of_haltsAt (hab : Reaches step a b) (hac : HaltsAt step a c h) :
    Reaches step b c := by
  rcases StateTransition.reaches_total hab hac.1 with hbc | hcb
  · exact hbc
  · rw [Reaches.eq_of_halted hcb hac.2]
    exact .refl c

/-- A run halts at one configuration, with one reason. -/
theorem HaltsAt.unique {b' : σ} {h' : η} (hb : HaltsAt step a b h) (hb' : HaltsAt step a b' h') :
    b' = b ∧ h' = h := by
  have hbb : b' = b := Reaches.eq_of_halted (hb.1.of_haltsAt hb') hb.2
  subst hbb
  have hh := hb'.2.symm.trans hb.2
  exact ⟨rfl, Except.error.inj hh⟩

end Machine
