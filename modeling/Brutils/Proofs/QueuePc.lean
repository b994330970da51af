import Brutils.QueuePc

/-!
# `Brutils.Proofs.QueuePc`: who gets the items

A consumer pops the front of the queue, and when it does, it is as many as one of the
consumers that `waitPop` has let through. So the queue is long enough for all of them exactly
when `waitPop` lets nobody through whose item another consumer is about to pop. Nothing in
`queue_pc` sees to that: `waitPop` looks at the queue only (`two_consumers_one_item`).

`Provided` is the invariant, that the queue has an item for each consumer that is about to
pop. `hands_out` is the result. In every run in which `waitPop` returns only when there
is an item left for its caller (`Spares`), items go out in the order in which they came in,
each once, and a step that does not do so leads to a pop of an empty queue by pops alone.
-/

set_option autoImplicit false

namespace Brutils.Proofs.QueuePc

open Brutils.QueuePc
open Transition (Reachable)

section
variable {C T : Type} {s t : State C T} {op : Op C T}

/-- Every consumer that is about to pop finds an item, and the items popped and those in the
queue are the ones pushed, in order. -/
def HandsOut (s : State C T) : Prop :=
  (∀ c ∈ s.popping, s.shared.queue ≠ []) ∧ s.popped.map Prod.snd ++ s.shared.queue = s.pushed

/-- `waitPop` returns only when there are more items than consumers that are about to pop. -/
def Spares (s : State C T) : Op C T → Prop
  | .waitPop _ => s.popping.card < s.shared.queue.length
  | _ => True

/-- The queue has an item for each consumer that is about to pop. -/
structure Provided (s : State C T) : Prop where
  enough : s.popping.card ≤ s.shared.queue.length
  inOrder : s.popped.map Prod.snd ++ s.shared.queue = s.pushed

/-- With an item for each consumer that is about to pop, nobody pops an empty queue. -/
theorem Provided.handsOut (h : Provided s) : HandsOut s := by
  refine ⟨?_, h.inOrder⟩
  intro c hc hempty
  have hpos : 0 < s.popping.card := Finset.card_pos.mpr ⟨c, hc⟩
  have henough := h.enough
  rw [hempty, List.length_nil] at henough
  omega

/-- At the start the queue is empty and nobody is about to pop. -/
theorem provided_initial (h : Initial s) : Provided s := by
  obtain ⟨hshared, hpopping, hpushed, hpopped⟩ := h
  constructor
  · rw [hpopping]
    exact Nat.zero_le _
  · rw [hpopped, hshared, hpushed]
    rfl

/-- `pop` takes the front item. -/
theorem pop_eq_some {q q' : QueuePc T} {item : T} (h : q.pop = some (item, q')) :
    q.queue = item :: q'.queue := by
  unfold QueuePc.pop at h
  split at h
  · cases h
  · rename_i hq
    obtain ⟨rfl, rfl⟩ := Prod.mk.inj (Option.some.inj h)
    exact hq

/-- `pop` is undefined on an empty queue, and only there. -/
theorem pop_eq_none {q : QueuePc T} : q.pop = none ↔ q.queue = [] := by
  unfold QueuePc.pop
  split
  · rename_i hq
    exact iff_of_true rfl hq
  · rename_i hq
    exact iff_of_false (Option.some_ne_none _) (by rw [hq]; exact List.cons_ne_nil _ _)

/-! ### One step -/

variable [DecidableEq C]

/-- A step keeps the invariant exactly when it spares. -/
theorem step_provided_iff (hs : Provided s) (h : Step s op t) : Provided t ↔ Spares s op := by
  have henough := hs.enough
  cases h with
  | push item =>
    refine iff_of_true ⟨?_, ?_⟩ trivial
    · show s.popping.card ≤ (s.shared.queue ++ [item]).length
      rw [List.length_append]
      omega
    · show s.popped.map Prod.snd ++ (s.shared.queue ++ [item]) = s.pushed ++ [item]
      rw [← List.append_assoc, hs.inOrder]
  | waitPop c hidle hwait =>
    have hcard : (insert c s.popping).card = s.popping.card + 1 :=
      Finset.card_insert_of_notMem hidle
    constructor
    · intro ht
      have hmore : (insert c s.popping).card ≤ s.shared.queue.length := ht.enough
      show s.popping.card < s.shared.queue.length
      omega
    · intro hspares
      exact ⟨hcard.trans_le hspares, hs.inOrder⟩
  | pop c hc item shared hpop =>
    have hqueue := pop_eq_some hpop
    refine iff_of_true ⟨?_, ?_⟩ trivial
    -- one consumer and one item less
    · show (s.popping.erase c).card ≤ shared.queue.length
      rw [hqueue, List.length_cons] at henough
      rw [Finset.card_erase_of_mem hc]
      omega
    · show (s.popped ++ [(c, item)]).map Prod.snd ++ shared.queue = s.pushed
      rw [← hs.inOrder, hqueue, List.map_append, List.append_assoc]
      rfl
  | popEmpty c hc hpop t => exact absurd (pop_eq_none.mp hpop) (hs.handsOut.1 c hc)

/-! ### What comes of a step that does not spare -/

/-- Some consumer pops. -/
def PopNext (s t : State C T) : Prop := ∃ c, Step s (.pop c) t

/-- Pops alone do not lead to a state in which a consumer is about to pop an empty queue, or to
one in which items are lost, doubled or out of order. -/
def PopsWell (s : State C T) : Prop := ∀ t, Relation.ReflTransGen PopNext s t → HandsOut t

/-- Pops alone keep an item for each of the others. -/
theorem pops_provided (hs : Provided s) (h : Relation.ReflTransGen PopNext s t) : Provided t := by
  induction h with
  | refl => exact hs
  | tail _ hstep ih =>
    obtain ⟨c, hpop⟩ := hstep
    exact (step_provided_iff ih hpop).mpr trivial

/-- When there are more consumers than items, each item goes to one of them, and the next one
finds none. -/
theorem not_popsWell (hmore : s.shared.queue.length < s.popping.card) : ¬PopsWell s := by
  -- the induction is on the items that are left
  generalize hn : s.shared.queue.length = n at hmore
  induction n generalizing s with
  | zero =>
    intro hwell
    obtain ⟨c, hc⟩ := Finset.card_pos.mp hmore
    exact (hwell s .refl).1 c hc (List.length_eq_zero_iff.mp hn)
  | succ n ih =>
    intro hwell
    obtain ⟨c, hc⟩ := Finset.card_pos.mp (Nat.zero_lt_of_lt hmore)
    obtain ⟨item, queue, hqueue⟩ := List.exists_cons_of_length_eq_add_one hn
    have hpop : s.shared.pop = some (item, { s.shared with queue := queue }) := by
      rw [QueuePc.pop, hqueue]
    have hstep := Step.pop c hc item _ hpop
    rw [hqueue, List.length_cons] at hn
    refine ih (Nat.succ.inj hn) ?_ fun t ht => hwell t (.head ⟨c, hstep⟩ ht)
    show n < (s.popping.erase c).card
    rw [Finset.card_erase_of_mem hc]
    omega

/-- After a step from a good state the pops go well exactly if the step spares. If it does not, they
come to an empty queue. -/
theorem popsWell_iff (hs : Provided s) (h : Step s op t) : PopsWell t ↔ Spares s op := by
  constructor
  · intro hwell
    cases h with
    | push item => trivial
    | pop c hc item shared hpop => trivial
    | popEmpty c hc hpop t => trivial
    | waitPop c hidle hwait =>
      by_contra hmore
      refine not_popsWell ?_ hwell
      show s.shared.queue.length < (insert c s.popping).card
      rw [Finset.card_insert_of_notMem hidle]
      have hle : s.shared.queue.length ≤ s.popping.card := Nat.le_of_not_lt hmore
      omega
  · intro hspares u hu
    exact (pops_provided ((step_provided_iff hs h).mpr hspares) hu).handsOut

/-! ### Runs -/

/-- A step that spares. -/
def SparingNext (s t : State C T) : Prop := ∃ op, Spares s op ∧ Step s op t

/-- The run lemma: sparing steps keep `Provided`. -/
theorem provided_of_reachable (h : Reachable Initial SparingNext s) : Provided s := by
  refine h.invariant (fun s hs => provided_initial hs) ?_
  intro s t _ hs hst
  obtain ⟨op, hspares, hstep⟩ := hst
  exact (step_provided_iff hs hstep).mpr hspares

/-- In a run whose steps all spare, every pop finds an item, and the items are popped in the
order in which they were pushed, each once. A further step leads to a pop of an empty queue, by
pops alone, exactly when it does not spare. -/
theorem hands_out (h : Reachable Initial SparingNext s) :
    HandsOut s ∧ ∀ op t, Step s op t → (PopsWell t ↔ Spares s op) :=
  have hprovided := provided_of_reachable h
  ⟨hprovided.handsOut, fun _ _ hstep => popsWell_iff hprovided hstep⟩

/-- With one consumer every step spares. -/
theorem spares_of_one_consumer [Subsingleton C] (h : Step s op t) : Spares s op := by
  cases h with
  | push item => trivial
  | pop c hc item shared hpop => trivial
  | popEmpty c hc hpop t => trivial
  | waitPop c hidle hwait =>
    -- the caller is the only consumer, and it is not about to pop
    have hempty : s.popping = ∅ := by
      refine Finset.eq_empty_of_forall_notMem ?_
      intro d hd
      exact hidle (Subsingleton.elim d c ▸ hd)
    have hqueue : s.shared.queue ≠ [] := by
      intro hqueue
      simp [waitPop, hqueue] at hwait
    show s.popping.card < s.shared.queue.length
    rw [hempty, Finset.card_empty]
    exact List.length_pos_iff.mpr hqueue

end

/-- The state before the first step, with two consumers. -/
def start : State Bool Nat := ⟨create, ∅, [], []⟩

/-- An item has been pushed, and `waitPop` has returned to one consumer. -/
def onePopping : State Bool Nat := ⟨⟨false, [7]⟩, {false}, [7], []⟩

/-- `waitPop` has returned to both consumers. -/
def bothPopping : State Bool Nat := ⟨⟨false, [7]⟩, {true, false}, [7], []⟩

/-- One consumer has popped. -/
def onePopped : State Bool Nat := ⟨⟨false, []⟩, {true}, [7], [(false, 7)]⟩

/-- One item and one consumer: whatever step comes next, it is harmless exactly if it spares. -/
theorem hands_out_one_consumer : HandsOut onePopping ∧
    ∀ op t, Step onePopping op t → (PopsWell t ↔ Spares onePopping op) := by
  have hpush : SparingNext start ⟨⟨false, [7]⟩, ∅, [7], []⟩ := ⟨.push 7, trivial, .push 7⟩
  have hwait : SparingNext ⟨⟨false, [7]⟩, ∅, [7], []⟩ onePopping :=
    ⟨.waitPop false, Nat.one_pos, .waitPop false (Finset.notMem_empty _) rfl⟩
  have hstart : Initial start := ⟨rfl, rfl, rfl, rfl⟩
  exact hands_out (((Reachable.start hstart).step hpush).step hwait)

/-- Two consumers, to both of which `waitPop` returns for the same item. -/
theorem two_consumers_one_item :
    ¬∀ s : State Bool Nat, Reachable Initial Next s → HandsOut s := by
  intro hall
  have hpush : Next start ⟨⟨false, [7]⟩, ∅, [7], []⟩ := ⟨_, .push 7⟩
  have hwait : Next ⟨⟨false, [7]⟩, ∅, [7], []⟩ onePopping :=
    ⟨_, .waitPop false (Finset.notMem_empty _) rfl⟩
  have hwait' : Next onePopping bothPopping := ⟨_, .waitPop true (by decide) rfl⟩
  have hpop : Next bothPopping onePopped := by
    refine ⟨.pop false, ?_⟩
    have hstep := Step.pop (s := bothPopping) false (by decide) 7 ⟨false, []⟩ rfl
    have herase : bothPopping.popping.erase false = {true} := by decide
    rw [herase] at hstep
    exact hstep
  have hstart : Initial start := ⟨rfl, rfl, rfl, rfl⟩
  have hreach := ((((Reachable.start hstart).step hpush).step hwait).step hwait').step hpop
  exact (hall onePopped hreach).1 true (by decide) rfl

end Brutils.Proofs.QueuePc
