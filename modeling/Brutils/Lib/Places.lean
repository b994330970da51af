import Mathlib.Algebra.BigOperators.Group.Finset.Basic
import Mathlib.Algebra.Order.BigOperators.Group.Finset

/-!
# Threads at places

A finite number of threads stand at places, and a move takes one thread from its place to another.
`total weight place` adds up the weights of the places at which they stand. A move changes it by
the difference of the two weights (`total_move`), so an invariant that counts threads is kept or
not by the weights alone.

A thread that waits on a condition variable stands at a place of its own. `NotifyOne` is what
`notify_one` does: it takes one of those threads, whichever it likes, to another place, and it does
nothing when there are none.
-/

set_option autoImplicit false

namespace Places

variable {C P : Type*} [DecidableEq C]

/-- One thread goes to a place. -/
def move (place : C → P) (c : C) (p : P) : C → P := Function.update place c p

/-- Whoever moves is where it has moved to. -/
@[simp] theorem move_self (place : C → P) (c : C) (p : P) : move place c p c = p := by
  simp [move]

/-- The others stay where they are. -/
@[simp] theorem move_of_ne {c d : C} (h : d ≠ c) (place : C → P) (p : P) :
    move place c p d = place d := by
  simp [move, h]

/-- What `notify_one` does to the threads that wait at `asleep`. -/
inductive NotifyOne (asleep woken : P) (place : C → P) : (C → P) → Prop
  | none (h : ∀ c, place c ≠ asleep) : NotifyOne asleep woken place place
  | one (c : C) (h : place c = asleep) : NotifyOne asleep woken place (move place c woken)

/-- What holds of the one that moves, at its new place, and of the others, holds of all. -/
theorem forall_move {Q : C → P → Prop} {place : C → P} {c : C} {p : P} (hself : Q c p)
    (hothers : ∀ d, d ≠ c → Q d (place d)) (d : C) : Q d (move place c p d) := by
  by_cases hd : d = c
  · subst hd
    rw [move_self]
    exact hself
  · rw [move_of_ne hd]
    exact hothers d hd

/-- Who stands at another place than that to which one has moved has stood there before. -/
theorem exists_of_move {place : C → P} {c : C} {p q : P} (hp : p ≠ q)
    (h : ∃ d, move place c p d = q) : ∃ d, place d = q := by
  obtain ⟨d, hd⟩ := h
  by_cases hdc : d = c
  · rw [hdc, move_self] at hd
    exact absurd hd hp
  · rw [move_of_ne hdc] at hd
    exact ⟨d, hd⟩

/-- The thread that is notified was waiting, and the others stay where they are. -/
theorem NotifyOne.forall {asleep woken : P} {Q : C → P → Prop} {place place' : C → P}
    (h : NotifyOne asleep woken place place') (hall : ∀ d, Q d (place d))
    (hwoken : ∀ d, Q d woken) (d : C) : Q d (place' d) := by
  cases h with
  | none hnone => exact hall d
  | one c hc => exact forall_move (hwoken c) (fun d _ => hall d) d

section
variable [Fintype C]

/-- The sum of the weights of the places at which the threads stand. -/
def total (weight : P → Nat) (place : C → P) : Nat := ∑ c, weight (place c)

/-- A move takes one weight out of the sum and puts another in. -/
theorem total_move (weight : P → Nat) (place : C → P) (c : C) (p : P) :
    total weight (move place c p) + weight (place c) = total weight place + weight p := by
  have hothers : ∑ d ∈ Finset.univ.erase c, weight (move place c p d) =
      ∑ d ∈ Finset.univ.erase c, weight (place d) := by
    refine Finset.sum_congr rfl fun d hd => ?_
    rw [move_of_ne (Finset.ne_of_mem_erase hd)]
  have hafter := Finset.add_sum_erase Finset.univ (fun d => weight (move place c p d))
    (Finset.mem_univ c)
  have hbefore := Finset.add_sum_erase Finset.univ (fun d => weight (place d)) (Finset.mem_univ c)
  simp only [move_self] at hafter
  unfold total
  omega

omit [DecidableEq C] in
/-- A thread has a part in the total. -/
theorem weight_le_total (weight : P → Nat) (place : C → P) (c : C) :
    weight (place c) ≤ total weight place :=
  Finset.single_le_sum (f := fun d => weight (place d)) (fun _ _ => Nat.zero_le _)
    (Finset.mem_univ c)

end

end Places
