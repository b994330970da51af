import Brutils.ThreadedObject

/-!
# `Brutils.Proofs.ThreadedObject`: what a threaded object runs, and when it ends

Events are run in the order in which they were added, each once. When the destructor has cleared
`_running`, at most one more begins, and what is behind it is never run (`events_in_order`).

`addEvent` and the destructor notify without `_condMutex`. So a notification can come when the
thread has read what it is about, and does not wait yet, and then it is lost. `Unseen` says that
the thread has read past something, and `Oversleeps` that there is no notification left to tell
it. A run never comes to that exactly if each of its notifications is `Timely`
(`never_oversleeps_iff`).
-/

set_option autoImplicit false

namespace Brutils.Proofs.ThreadedObject

open Brutils.ThreadedObject
open Transition (Throughout EveryStep throughout_iff_everyStep)

section
variable {E : Type} {s : State E}

/-! ### What the moves change -/

/-- A notification neither begins nor ends an event. -/
@[simp] theorem notify_eq_calling (pc : ThreadPc) : notify pc = .calling ↔ pc = .calling := by
  cases pc <;> decide

/-- A notification neither ends `run` nor brings it back. -/
@[simp] theorem notify_eq_finished (pc : ThreadPc) : notify pc = .finished ↔ pc = .finished := by
  cases pc <;> decide

/-- Where the thread goes when it neither begins nor ends an event. -/
inductive Goes (s : State E) : ThreadPc → ThreadPc → Prop
  | enter (h : s.running = true) : Goes s .looping .testingEvents
  | leave (h : s.running = false) : Goes s .looping .finished
  | found (h : s.eventList ≠ []) : Goes s .testingEvents .woken
  | empty (h : s.eventList = []) : Goes s .testingEvents .testingRunning
  | stopped (h : s.running = false) : Goes s .testingRunning .woken
  | decide (h : s.running = true) : Goes s .testingRunning .decided
  | block : Goes s .decided .blocked
  | spurious : Goes s .blocked .testingEvents
  | wait : Goes s .blocked .blocked
  | skip (h : s.eventList = []) : Goes s .woken .looping
  | stay : Goes s .finished .finished

/-- All that a move of the thread can do. -/
inductive ThreadMoves (s : State E) : State E → Prop
  | goes (pc : ThreadPc) (h : Goes s s.thread pc) : ThreadMoves s { s with thread := pc }
  | call (event : E) (rest : List E) (hpc : s.thread = .woken)
      (hlist : s.eventList = event :: rest) :
      ThreadMoves s { s with thread := .calling, called := s.called ++ [event] }
  | finish (hpc : s.thread = .calling) :
      ThreadMoves s { s with eventList := s.eventList.tail, thread := .looping }

/-- All that a move of the thread can do, read off from the places at which it can stand. What
follows about the thread is proved from this, and never from `threadStep` itself. -/
theorem threadStep_moves (s : State E) (spurious : Bool) :
    ThreadMoves s (threadStep spurious s) := by
  obtain ⟨running, eventList, notifying, owner, thread, added, called⟩ := s
  cases thread with
  | looping =>
    cases running with
    | true => exact .goes _ (.enter rfl)
    | false => exact .goes _ (.leave rfl)
  | testingEvents =>
    cases eventList with
    | nil => exact .goes _ (.empty rfl)
    | cons event rest => exact .goes _ (.found (List.cons_ne_nil _ _))
  | testingRunning =>
    cases running with
    | true => exact .goes _ (.decide rfl)
    | false => exact .goes _ (.stopped rfl)
  | decided => exact .goes _ .block
  | blocked =>
    cases spurious with
    | true => exact .goes _ .spurious
    | false => exact .goes _ .wait
  | woken =>
    cases eventList with
    | nil => exact .goes _ (.skip rfl)
    | cons event rest => exact .call event rest rfl rfl
  | calling => exact .finish rfl
  | finished => exact .goes _ .stay

/-- The thread leaves the rest as it is. -/
theorem ThreadMoves.frame {t : State E} (h : ThreadMoves s t) :
    t.running = s.running ∧ t.notifying = s.notifying ∧ t.owner = s.owner ∧ t.added = s.added := by
  cases h <;> exact ⟨rfl, rfl, rfl, rfl⟩

/-- All that a move of the owner can do in the destructor. -/
inductive OwnerMoves (s : State E) : State E → Prop
  | clear (h : s.owner = .clearing) :
      OwnerMoves s { s with running := false, owner := .notifying }
  | notify (h : s.owner = .notifying) :
      OwnerMoves s { s with thread := notify s.thread, owner := .joining }
  | join (h : s.owner = .joining) (hthread : s.thread = .finished) :
      OwnerMoves s { s with owner := .destroyed }
  | wait (h : s.owner = .alive ∨ (s.owner = .joining ∧ s.thread ≠ .finished) ∨
      s.owner = .destroyed) : OwnerMoves s s

/-- All that a move of the owner can do. It waits where the destructor has not been called, where
the thread is still to be joined, and where the object is gone. -/
theorem ownerStep_moves (s : State E) : OwnerMoves s (ownerStep s) := by
  unfold ownerStep
  split
  · rename_i h
    exact .wait (.inl h)
  · rename_i h
    exact .clear h
  · rename_i h
    exact .notify h
  · rename_i h
    split
    · rename_i hthread
      exact .join h hthread
    · rename_i hthread
      exact .wait (.inr (.inl ⟨h, hthread⟩))
  · rename_i h
    exact .wait (.inr (.inr h))

/-! ### What holds in every state -/

/-- The events behind the one that is being run. -/
def waiting (s : State E) : List E :=
  if s.thread = .calling then s.eventList.tail else s.eventList

/-- Outside of an event all events on the list are waiting. -/
theorem waiting_of_ne (hpc : s.thread ≠ .calling) : waiting s = s.eventList := if_neg hpc

/-- What holds in every state. -/
structure Sound (s : State E) : Prop where
  /-- the events are called in the order in which they were added -/
  inOrder : s.called ++ waiting s = s.added
  /-- an event stays on the list while it is being run -/
  front : s.thread = .calling → s.eventList ≠ []
  /-- it is the destructor that clears `_running` -/
  running : s.running = true ↔ s.owner = .alive ∨ s.owner = .clearing
  /-- the thread ends in the destructor -/
  finished : s.thread = .finished → s.running = false
  /-- the destructor waits for the end of the thread -/
  joined : s.owner = .destroyed → s.thread = .finished

/-- A new object has no events, and its thread stands before the loop. -/
theorem construct_sound : Sound (construct : State E) :=
  ⟨rfl, nofun, by simp [construct], nofun, nofun⟩

/-- A notification changes nothing but where the thread stands. -/
theorem Sound.notify (hs : Sound s) (notifying : Nat) :
    Sound { s with notifying := notifying, thread := notify s.thread } := by
  refine ⟨?_, ?_, hs.running, ?_, ?_⟩
  · rw [← hs.inOrder]
    simp [waiting]
  · simpa using hs.front
  · simpa using hs.finished
  · simpa using hs.joined

/-- The moves of `Goes` are those outside of an event. -/
theorem Goes.ne_calling {pc pc' : ThreadPc} (h : Goes s pc pc') :
    pc ≠ .calling ∧ pc' ≠ .calling := by
  cases h <;> decide

/-- `run` returns only where it has read a cleared `_running`. -/
theorem Goes.finished {pc pc' : ThreadPc} (h : Goes s pc pc') (hpc' : pc' = .finished) :
    pc = .finished ∨ s.running = false := by
  cases h <;> simp_all

/-- A thread that has returned from `run` does not come back. -/
theorem Goes.of_finished {pc pc' : ThreadPc} (h : Goes s pc pc') (hpc : pc = .finished) :
    pc' = .finished := by
  cases h <;> simp_all

/-- The invariant through a move of the thread. The event that begins is the front one, and when it
ends, the front one is popped, so the called ones and the waiting ones are still those that were
added. -/
theorem ThreadMoves.sound {t : State E} (h : ThreadMoves s t) (hs : Sound s) : Sound t := by
  have hinOrder := hs.inOrder
  cases h with
  | goes pc hgoes =>
    obtain ⟨hbefore, hafter⟩ := hgoes.ne_calling
    rw [waiting_of_ne hbefore] at hinOrder
    refine ⟨?_, fun hcalling => absurd hcalling hafter, hs.running, ?_, ?_⟩
    · rw [waiting_of_ne hafter]
      exact hinOrder
    · intro hpc
      exact (hgoes.finished hpc).elim hs.finished id
    · intro howner
      exact hgoes.of_finished (hs.joined howner)
  | call event rest hpc hlist =>
    rw [waiting_of_ne (by simp [hpc]), hlist] at hinOrder
    refine ⟨?_, fun _ => ?_, hs.running, nofun, ?_⟩
    · show (s.called ++ [event]) ++ s.eventList.tail = s.added
      rw [← hinOrder, hlist, List.append_assoc]
      rfl
    · show s.eventList ≠ []
      simp [hlist]
    · intro howner
      simp [hs.joined howner] at hpc
  | finish hpc =>
    rw [waiting, if_pos hpc] at hinOrder
    refine ⟨hinOrder, nofun, hs.running, nofun, ?_⟩
    intro howner
    simp [hs.joined howner] at hpc

/-- The invariant through a move of the owner. It is the only one that clears `_running`, and it
passes the join only when the thread has finished. -/
theorem OwnerMoves.sound {t : State E} (h : OwnerMoves s t) (hs : Sound s) : Sound t := by
  have hrunning := hs.running
  cases h with
  | clear howner => exact ⟨hs.inOrder, hs.front, by simp, fun _ => rfl, nofun⟩
  | notify howner =>
    have hnotify := hs.notify s.notifying
    rw [howner] at hrunning
    exact ⟨hnotify.inOrder, hnotify.front, by simpa using hrunning, hnotify.finished, nofun⟩
  | join howner hthread =>
    rw [howner] at hrunning
    exact ⟨hs.inOrder, hs.front, by simpa using hrunning, hs.finished, fun _ => hthread⟩
  | wait howner => exact hs

/-- The invariant through a push. The new event goes behind all the others, also while the front one
is being run. -/
theorem push_sound (hs : Sound s) (event : E) : Sound (step s (.push event)) := by
  refine ⟨?_, fun _ => List.append_ne_nil_of_right_ne_nil _ (List.cons_ne_nil _ _), hs.running,
    hs.finished, hs.joined⟩
  show s.called ++ (if s.thread = .calling then (s.eventList ++ [event]).tail
    else s.eventList ++ [event]) = s.added ++ [event]
  rw [← hs.inOrder, List.append_assoc]
  congr 1
  by_cases hpc : s.thread = .calling
  · rw [waiting, if_pos hpc, if_pos hpc]
    exact List.tail_append_of_ne_nil (hs.front hpc)
  · rw [waiting, if_neg hpc, if_neg hpc]

/-- The invariant through any move. -/
theorem step_sound (s : State E) (move : Move E) (hs : Sound s) : Sound (step s move) := by
  cases move with
  | push event => exact push_sound hs event
  | notify =>
    show Sound (if s.notifying = 0 then s else _)
    split
    · exact hs
    · exact hs.notify _
  | destroy =>
    show Sound (if s.owner = .alive then _ else s)
    split
    · rename_i howner
      have hrun : s.running = true := hs.running.mpr (.inl howner)
      rw [if_pos hrun]
      exact ⟨hs.inOrder, hs.front, by simp [hrun], hs.finished, nofun⟩
    · exact hs
  | owner => exact (ownerStep_moves s).sound hs
  | thread spurious => exact (threadStep_moves s spurious).sound hs

/-- So it holds in every run, by induction over the moves. -/
theorem foldl_sound (moves : List (Move E)) (hs : Sound s) : Sound (moves.foldl step s) := by
  induction moves generalizing s with
  | nil => exact hs
  | cons move moves ih => exact ih (step_sound s move hs)

/-! ### Events are called in order, and hardly any behind the end -/

/-- How many events the thread can still begin once `_running` is cleared. -/
def mayCall : ThreadPc → Nat
  | .looping => 0
  | .calling => 0
  | .finished => 0
  | _ => 1

/-- A notification does not let the thread begin one more event. -/
theorem mayCall_notify (pc : ThreadPc) : mayCall (notify pc) = mayCall pc := by
  cases pc <;> rfl

/-- Once `_running` is cleared, the way through `run` leads to the end of the loop, past one event
at most. -/
theorem Goes.mayCall_le {pc pc' : ThreadPc} (h : Goes s pc pc') (hrun : s.running = false) :
    mayCall pc' ≤ mayCall pc := by
  cases h <;> simp_all [mayCall]

/-- Once `_running` is cleared, a move that begins an event leaves room for one less. -/
theorem step_mayCall (move : Move E) (hrun : s.running = false) :
    (step s move).running = false ∧ ∃ more, (step s move).called = s.called ++ more ∧
      more.length + mayCall (step s move).thread ≤ mayCall s.thread := by
  -- most moves call nothing
  have hnone : ∀ t : State E, t.running = false → t.called = s.called →
      mayCall t.thread ≤ mayCall s.thread → t.running = false ∧
        ∃ more, t.called = s.called ++ more ∧ more.length + mayCall t.thread ≤ mayCall s.thread := by
    intro t ht hcalled hle
    exact ⟨ht, [], by rw [hcalled, List.append_nil], by simpa using hle⟩
  cases move with
  | push event => exact hnone _ hrun rfl (Nat.le_refl _)
  | notify =>
    by_cases hzero : s.notifying = 0
    · rw [show step s .notify = s from if_pos hzero]
      exact hnone s hrun rfl (Nat.le_refl _)
    · rw [show step s .notify = _ from if_neg hzero]
      exact hnone _ hrun rfl (Nat.le_of_eq (mayCall_notify _))
  | destroy =>
    by_cases halive : s.owner = .alive
    · rw [show step s .destroy = _ from if_pos halive]
      exact hnone _ hrun rfl (Nat.le_refl _)
    · rw [show step s .destroy = s from if_neg halive]
      exact hnone s hrun rfl (Nat.le_refl _)
  | owner =>
    have hmoves : OwnerMoves s (step s .owner) := ownerStep_moves s
    generalize step s .owner = t at hmoves ⊢
    cases hmoves with
    | clear howner => exact hnone _ rfl rfl (Nat.le_refl _)
    | notify howner => exact hnone _ hrun rfl (Nat.le_of_eq (mayCall_notify _))
    | join howner hthread => exact hnone _ hrun rfl (Nat.le_refl _)
    | wait howner => exact hnone _ hrun rfl (Nat.le_refl _)
  | thread spurious =>
    have hmoves : ThreadMoves s (step s (.thread spurious)) := threadStep_moves s spurious
    generalize step s (.thread spurious) = t at hmoves ⊢
    cases hmoves with
    | goes pc hgoes => exact hnone _ hrun rfl (hgoes.mayCall_le hrun)
    | call event rest hpc hlist => exact ⟨hrun, [event], rfl, by simp [hpc, mayCall]⟩
    | finish hpc => exact hnone _ hrun rfl (Nat.zero_le _)

/-- By induction over the moves, all the events that begin from then on are no more than the thread
could begin at first. -/
theorem foldl_mayCall (moves : List (Move E)) (hrun : s.running = false) :
    ∃ more, (moves.foldl step s).called = s.called ++ more ∧ more.length ≤ mayCall s.thread := by
  induction moves generalizing s with
  | nil => exact ⟨[], (List.append_nil _).symm, Nat.zero_le _⟩
  | cons move moves ih =>
    obtain ⟨hrun', first, hfirst, hroom⟩ := step_mayCall move hrun
    obtain ⟨others, hothers, hle⟩ := ih hrun'
    refine ⟨first ++ others, ?_, ?_⟩
    · show (moves.foldl step (step s move)).called = s.called ++ (first ++ others)
      rw [hothers, hfirst, List.append_assoc]
    · rw [List.length_append]
      omega

/-- And that is one at most. -/
theorem mayCall_le_one (pc : ThreadPc) : mayCall pc ≤ 1 := by
  cases pc <;> decide

/-- In every run the events are called in the order in which they were added, each once. From
where `_running` has been cleared, at most one more event begins. -/
theorem events_in_order (moves later : List (Move E)) :
    (moves.foldl step construct).called ++ waiting (moves.foldl step construct) =
        (moves.foldl step construct).added ∧
      ((moves.foldl step construct).running = false → ∃ more, more.length ≤ 1 ∧
        (later.foldl step (moves.foldl step construct)).called =
          (moves.foldl step construct).called ++ more) := by
  refine ⟨(foldl_sound moves construct_sound).inOrder, fun hrun => ?_⟩
  obtain ⟨more, hmore, hle⟩ := foldl_mayCall later hrun
  exact ⟨more, Nat.le_trans hle (mayCall_le_one _), hmore⟩

/-! ### Lost notifications -/

/-- The thread has read past something that it goes to sleep on, or that it sleeps on. -/
def Unseen (s : State E) : Prop :=
  match s.thread with
  | .testingRunning => s.eventList ≠ [] ∧ s.running = true
  | .decided => s.eventList ≠ [] ∨ s.running = false
  | .blocked => s.eventList ≠ [] ∨ s.running = false
  | _ => False

/-- Somebody is going to notify the thread. -/
def Pending (s : State E) : Prop :=
  0 < s.notifying ∨ s.owner = .clearing ∨ s.owner = .notifying

/-- The thread goes to sleep, or sleeps, when there is something to do, and nobody is going to
tell it. -/
def Oversleeps (s : State E) : Prop := Unseen s ∧ ¬Pending s

/-- A notification that is the last one finds the thread waiting if it has read past something. -/
def Timely (s : State E) : Move E → Prop
  | .notify => s.notifying = 1 → s.owner ≠ .clearing → s.owner ≠ .notifying → Unseen s →
      s.thread = .blocked
  | .owner => s.owner = .notifying → s.notifying = 0 → Unseen s → s.thread = .blocked
  | _ => True

/-- A thread that waits tests its predicate again when it is notified. So there is nothing that it
has read past. -/
theorem not_unseen_notify (hpc : s.thread = .blocked) (notifying : Nat) (owner : OwnerPc) :
    ¬Unseen { s with notifying := notifying, owner := owner, thread := notify s.thread } := by
  simp [Unseen, notify, hpc]

/-- A notification of a thread that does not wait is lost, and changes nothing. -/
theorem unseen_notify (hpc : s.thread ≠ .blocked) (notifying : Nat) (owner : OwnerPc) :
    Unseen { s with notifying := notifying, owner := owner, thread := notify s.thread } ↔
      Unseen s := by
  rw [show notify s.thread = s.thread from if_neg hpc]
  exact Iff.rfl

/-- The thread does not read past anything that is there when it looks. -/
theorem ThreadMoves.unseen {t : State E} (h : ThreadMoves s t) (ht : Unseen t) : Unseen s := by
  cases h with
  | goes pc hgoes =>
    generalize hthread : s.thread = before at hgoes
    cases hgoes <;> simp_all [Unseen]
  | call event rest hpc hlist => exact ht.elim
  | finish hpc => exact ht.elim

/-- What is kept by the timely moves. -/
def Awake (s : State E) : Prop := Sound s ∧ ¬Oversleeps s

/-- The invariant through a timely move. A push comes with a notification to follow, and so does the
cleared `_running`. Only the last notification can leave the thread asleep, and a timely one finds
it waiting. -/
theorem step_awake (s : State E) (move : Move E) (hs : Awake s) (htimely : Timely s move) :
    Awake (step s move) := by
  obtain ⟨hsound, hawake⟩ := hs
  refine ⟨step_sound s move hsound, ?_⟩
  intro hover
  obtain ⟨hunseen, hpending⟩ := hover
  cases move with
  | push event => exact hpending (.inl (Nat.succ_pos _))
  -- the last notification is timely, so a thread that has read past something waits for it
  | notify =>
    by_cases hzero : s.notifying = 0
    · rw [show step s .notify = s from if_pos hzero] at hunseen hpending
      exact hawake ⟨hunseen, hpending⟩
    rw [show step s .notify = _ from if_neg hzero] at hunseen hpending
    simp only [Pending, not_or] at hpending
    obtain ⟨hlast, hclearing, hnotifying⟩ := hpending
    have hblocked : s.thread ≠ .blocked :=
      fun hpc => not_unseen_notify hpc _ s.owner hunseen
    refine hblocked (htimely (by omega) hclearing hnotifying ?_)
    exact (unseen_notify hblocked _ s.owner).mp hunseen
  | destroy =>
    by_cases halive : s.owner = .alive
    · rw [show step s .destroy = _ from if_pos halive] at hpending
      refine hpending (.inr (.inl ?_))
      exact if_pos (hsound.running.mpr (.inl halive))
    · rw [show step s .destroy = s from if_neg halive] at hunseen hpending
      exact hawake ⟨hunseen, hpending⟩
  | owner =>
    have hmoves : OwnerMoves s (step s .owner) := ownerStep_moves s
    generalize step s .owner = t at hmoves hunseen hpending
    cases hmoves with
    | clear howner => exact hpending (.inr (.inr rfl))
    | notify howner =>
      have hblocked : s.thread ≠ .blocked :=
        fun hpc => not_unseen_notify hpc s.notifying _ hunseen
      have hlast : s.notifying = 0 := by
        simp only [Pending, not_or] at hpending
        omega
      exact hblocked (htimely howner hlast ((unseen_notify hblocked s.notifying _).mp hunseen))
    | join howner hthread => simp [Unseen, hthread] at hunseen
    | wait howner => exact hawake ⟨hunseen, hpending⟩
  -- the thread reads past nothing new, and the notifications to come are the same
  | thread spurious =>
    have hmoves := threadStep_moves s spurious
    obtain ⟨-, hnotifying, howner, -⟩ := hmoves.frame
    change ¬Pending (threadStep spurious s) at hpending
    rw [Pending, hnotifying, howner] at hpending
    exact hawake ⟨hmoves.unseen hunseen, hpending⟩

/-- A move that is not timely is the last notification, it comes while the thread does not wait yet,
and the thread has read past something. So it is lost, and nobody is left to notify. -/
theorem step_oversleeps (s : State E) (move : Move E) (htimely : ¬Timely s move) :
    Oversleeps (step s move) := by
  cases move with
  | push event => exact absurd trivial htimely
  | destroy => exact absurd trivial htimely
  | thread spurious => exact absurd trivial htimely
  | notify =>
    simp only [Timely, Classical.not_imp] at htimely
    obtain ⟨hone, hclearing, hnotifying, hunseen, hblocked⟩ := htimely
    rw [show step s .notify = _ from if_neg (by omega)]
    refine ⟨(unseen_notify hblocked _ s.owner).mpr hunseen, ?_⟩
    simp [Pending, hone, hclearing, hnotifying]
  | owner =>
    simp only [Timely, Classical.not_imp] at htimely
    obtain ⟨howner, hzero, hunseen, hblocked⟩ := htimely
    have hstep : step s .owner = { s with thread := notify s.thread, owner := .joining } := by
      simp only [step, ownerStep, howner]
    rw [hstep]
    refine ⟨(unseen_notify hblocked s.notifying _).mpr hunseen, ?_⟩
    simp [Pending, hzero]

/-- A new object has nothing that its thread could sleep on. -/
theorem construct_awake : Awake (construct : State E) :=
  ⟨construct_sound, fun h => h.1⟩

/-- A run comes to no state in which the thread oversleeps exactly if each of its moves is
timely. -/
theorem never_oversleeps_iff (moves : List (Move E)) :
    Throughout step (fun s => ¬Oversleeps s) construct moves ↔
      EveryStep step Timely construct moves :=
  throughout_iff_everyStep step (fun _ hs => hs.2) step_awake
    (fun s move _ htimely hawake => hawake (step_oversleeps s move htimely)) moves construct
    construct_awake

/-- An event that is added between the test of the list and the sleep. -/
example : Oversleeps (List.foldl step construct [.thread false, .thread false, .push 7, .notify,
    .thread false, .thread false]) :=
  ⟨.inl (by decide), by simp [Pending, step, threadStep, construct, notify]⟩

end

end Brutils.Proofs.ThreadedObject
