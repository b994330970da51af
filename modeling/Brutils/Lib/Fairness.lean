import Mathlib.Tactic.Common

/-!
# Progress in fair runs

A machine is a function `step : σ → ι → σ`, and a schedule says who moves at which time. So a run
goes on for ever. A move that can do nothing leaves the state as it is. A schedule is `Fair` to
some moves if it comes back to them again and again.

`run_invariant` and `run_stays` are the rules for safety. `leadsTo_of_rank` is the rule for
progress: as long as `P` holds, no move raises the rank, and each of the fair moves lowers it,
until `Q` holds. `leadsTo_of_helpful` is the rule for several kinds of fair moves, one of which
lowers the rank while the others wait. It is about one run, so that its premises may use what is
known of that run. In `leadsTo_of_ready` a move may have to wait until it is ready, as the steps of
a `WeaklyFair` run may. `always_iff_everyMove` is the rule for a property that holds always exactly
if each move meets a condition.
-/

set_option autoImplicit false

namespace Fairness

variable {σ ι : Type*}

/-- The states of a run. -/
def run (step : σ → ι → σ) (schedule : Nat → ι) (s : σ) : Nat → σ
  | 0 => s
  | n + 1 => step (run step schedule s n) (schedule n)

/-- The schedule comes back to these moves again and again. -/
def Fair (schedule : Nat → ι) (moves : ι → Prop) : Prop :=
  ∀ n, ∃ m, n ≤ m ∧ moves (schedule m)

/-- The schedule that goes through a list of moves over and over. -/
def roundRobin (move : ι) (moves : List ι) (n : Nat) : ι :=
  (move :: moves).getD (n % (moves.length + 1)) move

/-- It is fair to each of its moves. -/
theorem roundRobin_fair {move : ι} {moves : List ι} {P : ι → Prop} (h : ∃ i ∈ move :: moves, P i) :
    Fair (roundRobin move moves) P := by
  obtain ⟨i, hi, hP⟩ := h
  obtain ⟨k, hk, hget⟩ := List.mem_iff_getElem.mp hi
  rw [List.length_cons] at hk
  intro n
  refine ⟨n * (moves.length + 1) + k, ?_, ?_⟩
  · have hle : n * 1 ≤ n * (moves.length + 1) := Nat.mul_le_mul_left n (by omega)
    omega
  · have hmod : (n * (moves.length + 1) + k) % (moves.length + 1) = k := by
      rw [Nat.mul_comm, Nat.mul_add_mod, Nat.mod_eq_of_lt hk]
    rw [roundRobin, hmod, List.getD_eq_getElem?_getD, List.getElem?_eq_getElem hk, Option.getD_some,
      hget]
    exact hP

/-- It makes no other moves. -/
theorem roundRobin_mem (move : ι) (moves : List ι) (n : Nat) :
    roundRobin move moves n ∈ move :: moves := by
  have hlt : n % (moves.length + 1) < (move :: moves).length := Nat.mod_lt _ (Nat.succ_pos _)
  rw [roundRobin, List.getD_eq_getElem?_getD, List.getElem?_eq_getElem hlt, Option.getD_some]
  exact List.getElem_mem hlt

/-- Whenever `P` holds, `Q` holds then or later. -/
def LeadsTo (trace : Nat → σ) (P Q : σ → Prop) : Prop :=
  ∀ n, P (trace n) → ∃ m, n ≤ m ∧ Q (trace m)

/-- Again and again the run makes such a step, or it is where none is due. -/
def WeaklyFair (trace : Nat → σ) (step : σ → σ → Prop) (due : σ → Prop) : Prop :=
  ∀ n, ∃ m, n ≤ m ∧ (step (trace m) (trace (m + 1)) ∨ ¬due (trace m))

/-- A part of the run that goes on for ever is as fair as the whole. -/
theorem WeaklyFair.drop {trace : Nat → σ} {step : σ → σ → Prop} {due : σ → Prop}
    (h : WeaklyFair trace step due) (n : Nat) : WeaklyFair (fun k => trace (n + k)) step due := by
  intro m
  obtain ⟨j, hj, hfair⟩ := h (n + m)
  obtain ⟨k, rfl⟩ := Nat.exists_eq_add_of_le (Nat.le_trans (Nat.le_add_right n m) hj)
  exact ⟨k, Nat.add_le_add_iff_left.mp hj, hfair⟩

/-- What leads to `Q`, and from there to `R`, leads to `R`. -/
theorem LeadsTo.trans {trace : Nat → σ} {P Q R : σ → Prop} (hPQ : LeadsTo trace P Q)
    (hQR : LeadsTo trace Q R) : LeadsTo trace P R := by
  intro n hn
  obtain ⟨m, hnm, hm⟩ := hPQ n hn
  obtain ⟨k, hmk, hk⟩ := hQR m hm
  exact ⟨k, Nat.le_trans hnm hmk, hk⟩

section
variable {step : σ → ι → σ} {schedule : Nat → ι} {s : σ} {P Q : σ → Prop}

/-- What every step keeps stays. -/
theorem run_stays (hstep : ∀ s i, P s → P (step s i)) {n m : Nat} (hnm : n ≤ m)
    (hn : P (run step schedule s n)) : P (run step schedule s m) := by
  induction hnm with
  | refl => exact hn
  | step _ ih => exact hstep _ _ ih

/-- What holds at the beginning and is kept by every step holds always. -/
theorem run_invariant (hs : P s) (hstep : ∀ s i, P s → P (step s i)) (n : Nat) :
    P (run step schedule s n) :=
  run_stays hstep (Nat.zero_le n) hs

/-- Until the time `m`, `Q` has come to hold, or `P` still does and the rank is no higher. -/
theorem stays_or_reaches (rank : σ → Nat)
    (hkeeps : ∀ s i, P s → ¬Q s → Q (step s i) ∨ (P (step s i) ∧ rank (step s i) ≤ rank s))
    {n m : Nat} (hnm : n ≤ m) (hn : P (run step schedule s n)) :
    (∃ k, n ≤ k ∧ Q (run step schedule s k)) ∨ (P (run step schedule s m) ∧
      rank (run step schedule s m) ≤ rank (run step schedule s n)) := by
  induction hnm with
  | refl => exact .inr ⟨hn, Nat.le_refl _⟩
  | @step m hnm ih =>
    rcases ih with hreached | ⟨hm, hrank⟩
    · exact .inl hreached
    · by_cases hQ : Q (run step schedule s m)
      · exact .inl ⟨m, hnm, hQ⟩
      rcases hkeeps _ (schedule m) hm hQ with hnext | ⟨hnext, hle⟩
      · exact .inl ⟨m + 1, Nat.le_succ_of_le hnm, hnext⟩
      · exact .inr ⟨hnext, Nat.le_trans hle hrank⟩

/-- The rule for progress. -/
theorem leadsTo_of_rank {moves : ι → Prop} (hfair : Fair schedule moves) (rank : σ → Nat)
    (hmoves : ∀ s i, moves i → P s → ¬Q s → Q (step s i) ∨ (P (step s i) ∧ rank (step s i) < rank s))
    (hothers : ∀ s i, ¬moves i → P s → ¬Q s →
      Q (step s i) ∨ (P (step s i) ∧ rank (step s i) ≤ rank s)) :
    LeadsTo (run step schedule s) P Q := by
  have hkeeps : ∀ s i, P s → ¬Q s → Q (step s i) ∨ (P (step s i) ∧ rank (step s i) ≤ rank s) := by
    intro s i hP hQ
    by_cases hi : moves i
    · exact (hmoves s i hi hP hQ).imp_right fun h => ⟨h.1, Nat.le_of_lt h.2⟩
    · exact hothers s i hi hP hQ
  intro n
  -- the induction is on the rank
  induction hr : rank (run step schedule s n) using Nat.strongRecOn generalizing n with
  | _ r ih =>
    intro hn
    obtain ⟨m, hnm, hmove⟩ := hfair n
    rcases stays_or_reaches rank hkeeps hnm hn with hreached | ⟨hm, hrank⟩
    · exact hreached
    · by_cases hQ : Q (run step schedule s m)
      · exact ⟨m, hnm, hQ⟩
      rcases hmoves _ _ hmove hm hQ with hnext | ⟨hnext, hlower⟩
      · exact ⟨m + 1, Nat.le_succ_of_le hnm, hnext⟩
      · have hless : rank (run step schedule s (m + 1)) < r := by
          show rank (step _ (schedule m)) < r
          omega
        obtain ⟨k, hmk, hk⟩ := ih _ hless (m + 1) rfl hnext
        exact ⟨k, by omega, hk⟩

/-- The rule for moves that lead from `P` to `Q` at once. -/
theorem leadsTo_of_move {moves : ι → Prop} (hfair : Fair schedule moves)
    (hmoves : ∀ s i, moves i → P s → Q (step s i))
    (hothers : ∀ s i, ¬moves i → P s → P (step s i)) :
    LeadsTo (run step schedule s) P Q :=
  leadsTo_of_rank hfair (fun _ => 0) (fun s i hi hs _ => .inl (hmoves s i hi hs))
    fun s i hi hs _ => .inr ⟨hothers s i hi hs, Nat.le_refl 0⟩

end

/-! ### Several kinds of moves -/

section
variable {κ : Type*} {trace : Nat → σ} {schedule : Nat → ι} {P Q : σ → Prop}

/-- Whoever is helpful stays so until the rank has gone down. -/
theorem waits_or_progresses (helpful : σ → κ) (rank : σ → Nat)
    (hkeeps : ∀ n, P (trace n) → ¬Q (trace n) → Q (trace (n + 1)) ∨ (P (trace (n + 1)) ∧
      (rank (trace (n + 1)) < rank (trace n) ∨
        (rank (trace (n + 1)) = rank (trace n) ∧ helpful (trace (n + 1)) = helpful (trace n)))))
    {n m : Nat} (hnm : n ≤ m) (hn : P (trace n)) :
    (∃ k, n ≤ k ∧ Q (trace k)) ∨
      (∃ k, n ≤ k ∧ P (trace k) ∧ rank (trace k) < rank (trace n)) ∨
      (P (trace m) ∧ rank (trace m) = rank (trace n) ∧ helpful (trace m) = helpful (trace n)) := by
  induction hnm with
  | refl => exact .inr (.inr ⟨hn, rfl, rfl⟩)
  | @step m hnm ih =>
    rcases ih with hreached | hlower | ⟨hm, hrank, hhelpful⟩
    · exact .inl hreached
    · exact .inr (.inl hlower)
    · by_cases hQ : Q (trace m)
      · exact .inl ⟨m, hnm, hQ⟩
      have hle : n ≤ m + 1 := Nat.le_succ_of_le hnm
      rcases hkeeps m hm hQ with hnext | ⟨hnext, hless | ⟨hsame, hsameHelpful⟩⟩
      · exact .inl ⟨m + 1, hle, hnext⟩
      · exact .inr (.inl ⟨m + 1, hle, hnext, hrank ▸ hless⟩)
      · exact .inr (.inr ⟨hnext, hsame.trans hrank, hsameHelpful.trans hhelpful⟩)

/-- The rule for progress with several kinds of moves, each of which is made or not ready again and
again. A helpful move that the run waits for must be ready in the end, and stay so. -/
theorem leadsTo_of_ready (made ready : κ → Nat → Prop)
    (hfair : ∀ k n, ∃ m, n ≤ m ∧ (made k m ∨ ¬ready k m)) (helpful : σ → κ) (rank : σ → Nat)
    (hhelps : ∀ n, P (trace n) → ¬Q (trace n) → made (helpful (trace n)) n →
      Q (trace (n + 1)) ∨ (P (trace (n + 1)) ∧ rank (trace (n + 1)) < rank (trace n)))
    (hkeeps : ∀ n, P (trace n) → ¬Q (trace n) → Q (trace (n + 1)) ∨ (P (trace (n + 1)) ∧
      (rank (trace (n + 1)) < rank (trace n) ∨
        (rank (trace (n + 1)) = rank (trace n) ∧ helpful (trace (n + 1)) = helpful (trace n)))))
    (hready : ∀ n, (∀ m, n ≤ m → P (trace m) ∧ ¬Q (trace m) ∧
        helpful (trace m) = helpful (trace n)) →
      ∃ m, n ≤ m ∧ ∀ j, m ≤ j → ready (helpful (trace n)) j) :
    LeadsTo trace P Q := by
  intro n
  -- the induction is on the rank
  induction hr : rank (trace n) using Nat.strongRecOn generalizing n with
  | _ r ih =>
    intro hn
    by_cases hwaits : ∀ m, n ≤ m → P (trace m) ∧ ¬Q (trace m) ∧ rank (trace m) = r ∧
        helpful (trace m) = helpful (trace n)
    · -- a run that waits for ever has not been fair
      obtain ⟨m, hnm, hm⟩ := hready n fun m hnm =>
        have h := hwaits m hnm
        ⟨h.1, h.2.1, h.2.2.2⟩
      obtain ⟨j, hmj, hmade | hnot⟩ := hfair (helpful (trace n)) m
      · obtain ⟨hj, hQ, hrank, hhelpful⟩ := hwaits j (Nat.le_trans hnm hmj)
        have hnj : n ≤ j + 1 := Nat.le_succ_of_le (Nat.le_trans hnm hmj)
        have hsame : rank (trace (j + 1)) = r := (hwaits (j + 1) hnj).2.2.1
        rcases hhelps j hj hQ (hhelpful ▸ hmade) with hnext | ⟨-, hless⟩
        · exact ⟨j + 1, hnj, hnext⟩
        · omega
      · exact absurd (hm j hmj) hnot
    · obtain ⟨m, hm⟩ := not_forall.mp hwaits
      obtain ⟨hnm, hm⟩ := Classical.not_imp.mp hm
      rcases waits_or_progresses helpful rank hkeeps hnm hn with
        hreached | ⟨k, hnk, hk, hless⟩ | ⟨hP, hrank, hhelpful⟩
      · exact hreached
      · obtain ⟨j, hkj, hj⟩ := ih _ (hr ▸ hless) k rfl hk
        exact ⟨j, Nat.le_trans hnk hkj, hj⟩
      · by_contra hnever
        exact hm ⟨hP, fun hQ => hnever ⟨m, hnm, hQ⟩, hrank.trans hr, hhelpful⟩

/-- The rule for moves that are always ready. -/
theorem leadsTo_of_helpful {moves : κ → ι → Prop} (hfair : ∀ k, Fair schedule (moves k))
    (helpful : σ → κ) (rank : σ → Nat)
    (hhelps : ∀ n, P (trace n) → ¬Q (trace n) → moves (helpful (trace n)) (schedule n) →
      Q (trace (n + 1)) ∨ (P (trace (n + 1)) ∧ rank (trace (n + 1)) < rank (trace n)))
    (hkeeps : ∀ n, P (trace n) → ¬Q (trace n) → Q (trace (n + 1)) ∨ (P (trace (n + 1)) ∧
      (rank (trace (n + 1)) < rank (trace n) ∨
        (rank (trace (n + 1)) = rank (trace n) ∧ helpful (trace (n + 1)) = helpful (trace n))))) :
    LeadsTo trace P Q := by
  refine leadsTo_of_ready (fun k n => moves k (schedule n)) (fun _ _ => True) ?_ helpful rank hhelps
    hkeeps fun n _ => ⟨n, Nat.le_refl n, fun _ _ => trivial⟩
  intro k n
  obtain ⟨m, hnm, hm⟩ := hfair k n
  exact ⟨m, hnm, .inl hm⟩

end

/-- The rule for a condition on the moves: a move that meets it keeps an invariant from which `P`
follows, and any other move breaks `P`. -/
theorem always_iff_everyMove {step : σ → ι → σ} {schedule : Nat → ι} {s : σ} {Inv P : σ → Prop}
    {C : σ → ι → Prop} (hs : Inv s) (hinv : ∀ s, Inv s → P s)
    (hkeeps : ∀ s i, Inv s → C s i → Inv (step s i))
    (hbreaks : ∀ s i, Inv s → ¬C s i → ¬P (step s i)) :
    (∀ n, P (run step schedule s n)) ↔ ∀ n, C (run step schedule s n) (schedule n) := by
  constructor
  · intro hP n
    -- the invariant comes with the moves before
    have hboth : ∀ n, Inv (run step schedule s n) ∧ C (run step schedule s n) (schedule n) := by
      intro n
      have hmeets : ∀ m, Inv (run step schedule s m) → C (run step schedule s m) (schedule m) := by
        intro m hm
        by_contra hC
        exact hbreaks _ _ hm hC (hP (m + 1))
      induction n with
      | zero => exact ⟨hs, hmeets 0 hs⟩
      | succ n ih =>
        have hnext := hkeeps _ _ ih.1 ih.2
        exact ⟨hnext, hmeets (n + 1) hnext⟩
    exact (hboth n).2
  · intro hC n
    refine hinv _ ?_
    induction n with
    | zero => exact hs
    | succ n ih => exact hkeeps _ _ ih (hC n)

end Fairness
