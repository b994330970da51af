import Brutils.Tcp.Lifecycle
import Mathlib.Tactic.Common

/-!
# `Brutils.Proofs.Tcp.Destructor`: the destructor ends the thread of a server

`stop` refuses to end a server that runs, and the destructor does not ask. It clears `_running`
and joins the thread. Nobody sets `_running` after that, so the thread gets closer to its end with
each of its steps (`leaving_step`).

So there is an end to every run that has come to the destructor, in whatever order its steps
follow one another, and at most one more `::poll` begins before it. When there are no more steps,
the server is gone, unless the last round of `processSockets` was undefined
(`destructor_ends_thread`).
-/

set_option autoImplicit false

namespace Brutils.Proofs.Tcp.Destructor

open Transition (Reachable steps_le_rank)
open Relation (ReflTransGen)
open Brutils.TcpServer Brutils.TcpServer.Lifecycle

/-- The destructor has been called. The thread is not told to go on, and it has been joined when
the server is gone. -/
def Leaving (s : State) : Prop :=
  (s.owner = .destroying ∧ s.running = false) ∨ (s.owner = .destroyed ∧ s.thread = none)

/-- How many steps the thread can still make. -/
def threadSteps : Option ThreadPc → Nat
  | some .entering => 5
  | some .polling => 4
  | some (.processing _) => 3
  | some (.serving _) => 2
  | some .started => 2
  | some .testing => 1
  | _ => 0

/-- How many steps the owner can still make. -/
def ownerSteps : OwnerPc → Nat
  | .destroying => 1
  | _ => 0

/-- How many steps there can still be. -/
def stepsLeft (s : State) : Nat := ownerSteps s.owner + threadSteps s.thread

/-- How many times the thread can still begin a `::poll`. -/
def pollsLeft : Option ThreadPc → Nat
  | some .entering => 1
  | _ => 0

section
variable {s t : State}

/-- From the destructor on, each step is one towards the end. -/
theorem leaving_step (hs : Leaving s) (h : Next s t) :
    Leaving t ∧ stepsLeft t < stepsLeft s ∧
      t.log.count .polled + pollsLeft t.thread ≤ s.log.count .polled + pollsLeft s.thread := by
  rcases hs with ⟨howner, hrunning⟩ | ⟨howner, hthread⟩
  · cases h with
    | destroyed _ hthread =>
      refine ⟨.inr ⟨rfl, rfl⟩, ?_, by simp [pollsLeft]⟩
      simp only [stepsLeft, ownerSteps, howner, threadSteps]
      omega
    | _ => simp_all [Leaving, stepsLeft, ownerSteps, threadSteps, pollsLeft]
  · -- there is no thread, and the owner makes no more calls
    cases h <;> simp_all

/-- The destructor clears `_running`, and it has joined the thread when it is done. -/
theorem leaving_of_reachable (h : Reachable Initial Next s)
    (howner : s.owner = .destroying ∨ s.owner = .destroyed) : Leaving s := by
  have hall : (s.owner = .destroying → s.running = false) ∧
      (s.owner = .destroyed → s.thread = none) := by
    refine h.invariant (P := fun s => (s.owner = .destroying → s.running = false) ∧
      (s.owner = .destroyed → s.thread = none)) ?_ ?_
    · intro s hs
      obtain ⟨_, _, _, rfl⟩ := hs
      exact ⟨nofun, nofun⟩
    · intro s t _ hs hst
      cases hst <;> simp_all
  rcases howner with howner | howner
  · exact .inl ⟨howner, hall.1 howner⟩
  · exact .inr ⟨howner, hall.2 howner⟩

/-- So it is through any number of steps. -/
theorem leaving_run (hs : Leaving s) (h : ReflTransGen Next s t) : Leaving t := by
  induction h with
  | refl => exact hs
  | tail _ hstep ih => exact (leaving_step ih hstep).1

/-- There are six steps left at most. -/
theorem stepsLeft_le (s : State) : stepsLeft s ≤ 6 := by
  have howner : ownerSteps s.owner ≤ 1 := by
    unfold ownerSteps
    split <;> omega
  have hthread : threadSteps s.thread ≤ 5 := by
    unfold threadSteps
    split <;> omega
  unfold stepsLeft
  omega

/-- The thread polls once more at most. -/
theorem pollsLeft_le (thread : Option ThreadPc) : pollsLeft thread ≤ 1 := by
  unfold pollsLeft
  split <;> omega

/-- A server in its destructor makes no step any more only when it is gone, or behind a round that
is undefined. -/
theorem stuck_cases (hs : Leaving s) (hstuck : ∀ t, ¬Next s t) :
    s.owner = .destroyed ∨ ∃ revents, s.thread = some (.serving revents) ∧
      ∀ turns answers, ∃ round, processSockets revents turns answers s.tables = .undefined round := by
  rcases hs with ⟨howner, hrunning⟩ | ⟨howner, -⟩
  · right
    cases hthread : s.thread with
    | none => exact absurd (.destroyed howner (by simp [hthread])) (hstuck _)
    | some pc =>
      cases pc with
      | started => exact absurd (.prepare hthread) (hstuck _)
      | testing => exact absurd (.test hthread) (hstuck _)
      | entering => exact absurd (.poll hthread) (hstuck _)
      | polling => exact absurd (.pollFailed hthread) (hstuck _)
      | processing revents => exact absurd (.process revents hthread) (hstuck _)
      | finished => exact absurd (.destroyed howner (by simp [hthread])) (hstuck _)
      | serving revents =>
        refine ⟨revents, rfl, fun turns answers => ?_⟩
        cases hround : processSockets revents turns answers s.tables with
        | undefined round => exact ⟨round, rfl⟩
        | returned result round =>
          exact absurd (.serve revents turns answers result round hthread hround) (hstuck _)
  · exact .inl howner

/-- The destructor has cleared `_running` in some state of a run. Then there are at most six more
steps, in whatever order they come, and at most one more `::poll` begins. When no step is left,
the server is gone, unless the last round was undefined. -/
theorem destructor_ends_thread (h : Reachable Initial Next s) (howner : s.owner = .destroying) :
    (∀ (trace : Nat → State) n, trace 0 = s → (∀ k, k < n → Next (trace k) (trace (k + 1))) →
      n ≤ 6 ∧ (trace n).log.count .polled ≤ s.log.count .polled + 1) ∧
    ∀ t, ReflTransGen Next s t → (∀ u, ¬Next t u) → t.owner = .destroyed ∨
      ∃ revents, t.thread = some (.serving revents) ∧ ∀ turns answers, ∃ round,
        processSockets revents turns answers t.tables = .undefined round := by
  have hs : Leaving s := leaving_of_reachable h (.inl howner)
  refine ⟨fun trace n hstart hsteps => ?_, fun t ht => stuck_cases (leaving_run hs ht)⟩
  subst hstart
  -- the polls that have begun and those to come do not get more
  obtain ⟨⟨-, hpolls⟩, hsteps⟩ := steps_le_rank stepsLeft
    (P := fun s => Leaving s ∧ s.log.count .polled + pollsLeft s.thread ≤
      (trace 0).log.count .polled + pollsLeft (trace 0).thread)
    (fun u v hu huv => by
      obtain ⟨hleaving, hless, hcount⟩ := leaving_step hu.1 huv
      exact ⟨⟨hleaving, Nat.le_trans hcount hu.2⟩, hless⟩) ⟨hs, Nat.le_refl _⟩ hsteps
  have hle := stepsLeft_le (trace 0)
  have hone := pollsLeft_le (trace 0).thread
  omega

end

/-- What the system answers when nothing fails. -/
def goodAnswers : ListenAnswers := ⟨3, 0, 0, 0, 0, 0⟩

/-- The owner listens, and the thread comes to its first `::poll`. The destructor clears `_running`
while the thread is in there, so the `::poll` and the test of the loop are still to come, and the
thread is still to be joined. -/
theorem polling_reachable : ∃ s : State, Reachable Initial Next s ∧ s.owner = .destroying ∧
    s.thread = some .polling ∧ s.log = [.listened true, .polled] := by
  have h : Reachable Initial Next ⟨.inactive, false, construct 2 1000 0, none, .idle, []⟩ :=
    .start ⟨2, 1000, 0, rfl⟩
  have h := h.step (.listen [] goodAnswers rfl)
  have h := h.step (.listenPassed [] goodAnswers rfl rfl)
  have h := h.step (.launch rfl rfl)
  have h := h.step (.prepare rfl)
  have h := h.step (.test rfl)
  have h := h.step (.poll rfl)
  have h := h.step (.destroy rfl)
  exact ⟨_, h, rfl, rfl, rfl⟩

/-- The result for a server that is destroyed while its thread is in `::poll`. -/
theorem destructor_ends_thread_polling : ∃ s : State, s.owner = .destroying ∧
    s.thread = some .polling ∧ s.log = [.listened true, .polled] ∧
    (∀ (trace : Nat → State) n, trace 0 = s → (∀ k, k < n → Next (trace k) (trace (k + 1))) →
      n ≤ 6 ∧ (trace n).log.count .polled ≤ s.log.count .polled + 1) ∧
    ∀ t, ReflTransGen Next s t → (∀ u, ¬Next t u) → t.owner = .destroyed ∨
      ∃ revents, t.thread = some (.serving revents) ∧ ∀ turns answers, ∃ round,
        processSockets revents turns answers t.tables = .undefined round := by
  obtain ⟨s, hs, howner, hthread, hlog⟩ := polling_reachable
  exact ⟨s, howner, hthread, hlog, destructor_ends_thread hs howner⟩

end Brutils.Proofs.Tcp.Destructor
