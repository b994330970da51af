import Mathlib.Logic.Basic

/-!
# Operations behind a mutex

`Guarded σ` is a state together with whether the calling thread holds the mutex that protects
it. An operation on it returns a result, throws, or comes to a standstill: a mutex that is not
recursive does not let in the thread that holds it (`Stop.relock`). The state is kept in each
case.

`locked` is a critical section, which gives the mutex back on a result and on an exception.
`access` is code in it that has no business with the mutex. A critical section around such code
does what the code does, and leaves the mutex free (`locked_access`). One inside another comes
to a standstill (`locked_held`).
-/

set_option autoImplicit false

namespace Mutex

variable {σ ε α β : Type}

/-- A state, and whether the calling thread holds its mutex. -/
structure Guarded (σ : Type) where
  state : σ
  held : Bool

/-- How an operation ends without a result. -/
inductive Stop (ε : Type)
  | threw (e : ε)
  /-- the thread waits for a mutex that it holds itself -/
  | relock

/-- An operation. -/
abbrev Op (σ ε α : Type) := ExceptT (Stop ε) (StateM (Guarded σ)) α

/-- Code that leaves the mutex alone. What it has changed stays changed when it throws. -/
def access (code : ExceptT ε (StateM σ) α) : Op σ ε α := fun g =>
  (Except.mapError .threw (code g.state).1, { g with state := (code g.state).2 })

/-- The end of a critical section. A thread that has come to a standstill does not get there. -/
def release : Except (Stop ε) α × Guarded σ → Except (Stop ε) α × Guarded σ
  | (.error .relock, g) => (.error .relock, g)
  | (result, g) => (result, { g with held := false })

/-- A critical section. -/
def locked (body : Op σ ε α) : Op σ ε α := fun g =>
  if g.held then (.error .relock, g) else release (body { g with held := true })

section
variable {g : Guarded σ}

/-- A critical section of a thread that holds the mutex. -/
theorem locked_held (body : Op σ ε α) (h : g.held = true) : locked body g = (.error .relock, g) :=
  if_pos h

/-- A critical section of a thread that does not hold it. -/
theorem locked_free (body : Op σ ε α) (s : σ) : locked body ⟨s, false⟩ = release (body ⟨s, true⟩) :=
  rfl

/-- A critical section that leaves the mutex alone, of a thread that does not hold it. -/
theorem locked_access (code : ExceptT ε (StateM σ) α) (h : g.held = false) :
    locked (access code) g = access code g := by
  obtain ⟨state, held⟩ := g
  subst h
  rw [locked_free]
  unfold access
  cases (code state).1 with
  | ok a => rfl
  | error e => rfl

/-- It does not come to a standstill. -/
theorem access_ne_relock (code : ExceptT ε (StateM σ) α) (g : Guarded σ) :
    (access code g).1 ≠ .error .relock := by
  unfold access
  cases (code g.state).1 with
  | ok a =>
    intro h
    cases h
  | error e =>
    intro h
    cases h

/-- One operation after another. -/
theorem bind_apply (x : Op σ ε α) (next : α → Op σ ε β) (g : Guarded σ) :
    (x >>= next) g = ExceptT.bindCont next (x g).1 (x g).2 := rfl

/-- Code in front of an operation that throws. -/
theorem access_bind_error {code : ExceptT ε (StateM σ) α} {e : ε} {s : σ}
    (h : code g.state = (.error e, s)) (next : α → Op σ ε β) :
    (access code >>= next) g = (.error (.threw e), { g with state := s }) := by
  rw [bind_apply, access, h]
  rfl

/-- Code in front of an operation that does not. -/
theorem access_bind_ok {code : ExceptT ε (StateM σ) α} {a : α} {s : σ}
    (h : code g.state = (.ok a, s)) (next : α → Op σ ε β) :
    (access code >>= next) g = next a { g with state := s } := by
  rw [bind_apply, access, h]
  rfl

end

end Mutex
