import Brutils.Tcp.Lifecycle
import Mathlib.Tactic.Common

/-!
# `Brutils.Proofs.Tcp.Lifecycle`: a server that has been started is not stopped

`stop` returns false unless `_serverState` is `INACTIVE` or `STOPPING`, so it refuses in the
states in which there is something to stop. `listen` writes `STARTING` before anything else, the
thread writes only `LISTENING` and `PROCESSING`, and only `stop` itself writes `STOPPING`, behind
its test. `Served` is what holds from the first call of `listen` on, and `next_served` says that
no step ends it.

So every `stop` and every `waitForFinished` after that returns false (`never_stops`), and the
thread, which nobody has told to end, goes on polling (`polls_go_on`). Before it, `run` sets up
the tables that `Brutils.Tcp.Server` begins with (`prepare_construct`).
-/

set_option autoImplicit false

namespace Brutils.Proofs.Tcp.Lifecycle

open Transition (Reachable)
open Relation (ReflTransGen)
open Brutils.TcpServer Brutils.TcpServer.Lifecycle

/-- What is asked of the run behind a `listen` that has returned true: `stop` returns true. Behind
it at most the one `::poll` begins for which the loop has already made its test, and
`waitForFinished` joins the thread and returns true. -/
structure Stops (log : List Event) : Prop where
  stopped : ∀ result, .stopped result ∈ log → result = true
  polled : ∀ before result after, log = before ++ .stopped result :: after →
    after.count .polled ≤ 1
  waited : ∀ before result between result' after,
    log = before ++ .stopped result :: (between ++ .waited result' :: after) →
    .joined ∈ between ∧ result' = true

/-- The owner stands behind a test of `_serverState`. -/
def OwnerPc.Granted : OwnerPc → Prop
  | .stopPassed => True
  | .stopWritten => True
  | .joining => True
  | _ => False

/-- The owner is in the destructor, or has left it. -/
def OwnerPc.Leaving : OwnerPc → Prop
  | .destroying => True
  | .destroyed => True
  | _ => False

/-- The owner is in `listen`. -/
def OwnerPc.Starting : OwnerPc → Prop
  | .listening _ _ => True
  | .launching => True
  | _ => False

/-- Not the result of a call that gets what it wants. -/
def Refusal : Event → Prop
  | .stopped result => result = false
  | .joined => False
  | .waited result => result = false
  | _ => True

/-- What `run` does before its loop makes the tables of `setUp`. -/
theorem prepare_construct (serverSD : Int) (maxConnectionSize connectionTimeout readBufferSize : Nat) :
    prepare { construct maxConnectionSize connectionTimeout readBufferSize with
      serverSD := serverSD } =
      setUp serverSD maxConnectionSize connectionTimeout readBufferSize := rfl

/-! ### What a step can do, member by member -/

section
variable {s t : State}

/-- Only `stop` writes `STOPPING`, behind its test, and nobody writes `INACTIVE`. -/
theorem next_serverState (h : Next s t) : t.serverState = s.serverState ∨
    OwnerPc.Granted s.owner ∨ (t.serverState ≠ .inactive ∧ t.serverState ≠ .stopping) := by
  cases h <;> simp_all [OwnerPc.Granted]

/-- The owner gets behind a test in two states only. -/
theorem next_granted (h : Next s t) (ht : OwnerPc.Granted t.owner) :
    OwnerPc.Granted s.owner ∨ s.serverState = .inactive ∨ s.serverState = .stopping := by
  cases h <;> simp_all [OwnerPc.Granted]

/-- Only behind a test the run shows more than refusals. -/
theorem next_log (h : Next s t) : OwnerPc.Granted s.owner ∨
    ∃ new, t.log = s.log ++ new ∧ ∀ event ∈ new, Refusal event := by
  cases h <;> simp_all [OwnerPc.Granted, Refusal]

/-- Only `listen` says that it has returned. -/
theorem next_listened (h : Next s t) {result : Bool} (ht : .listened result ∈ t.log) :
    .listened result ∈ s.log ∨ OwnerPc.Starting s.owner := by
  cases h <;> simp_all [OwnerPc.Starting]

/-- The first thing that `listen` does is to write `STARTING`. -/
theorem next_starting (h : Next s t) (ht : OwnerPc.Starting t.owner) : OwnerPc.Starting s.owner ∨
    (t.serverState = .starting ∧ t.owner ≠ .launching ∧ t.thread = s.thread ∧ t.log = s.log) := by
  cases h <;> simp_all [OwnerPc.Starting]

/-- `listen` is the only place where a thread is made. -/
theorem next_thread (h : Next s t) (ht : t.thread ≠ none) :
    s.thread ≠ none ∨ s.owner = .launching := by
  cases h <;> simp_all

/-- `listen` has written `_running` before. -/
theorem next_launching (h : Next s t) (ht : t.owner = .launching) :
    s.owner = .launching ∨ t.running = true := by
  cases h <;> simp_all

/-- Only `stop` behind its test and the destructor clear `_running`. -/
theorem next_running (h : Next s t) (hs : s.running = true) :
    OwnerPc.Granted s.owner ∨ OwnerPc.Leaving t.owner ∨ t.running = true := by
  cases h <;> simp_all [OwnerPc.Granted, OwnerPc.Leaving]

/-- Nobody leaves the destructor for another call. -/
theorem next_leaving (h : Next s t) (hs : OwnerPc.Leaving s.owner) : OwnerPc.Leaving t.owner := by
  cases h <;> simp_all [OwnerPc.Leaving]

/-! ### Before and behind the first call of `listen` -/

/-- `listen` has not been called. -/
structure Unserved (s : State) : Prop where
  thread : s.thread = none
  owner : ¬OwnerPc.Starting s.owner
  log : ∀ result, .listened result ∉ s.log

/-- `listen` has been called. -/
structure Served (s : State) : Prop where
  state : s.serverState ≠ .inactive ∧ s.serverState ≠ .stopping
  owner : ¬OwnerPc.Granted s.owner
  running : s.thread ≠ none ∨ s.owner = .launching →
    OwnerPc.Leaving s.owner ∨ s.running = true

/-- An owner in `listen` is not in a call that has been granted. -/
theorem granted_of_starting {pc : OwnerPc} (h : OwnerPc.Starting pc) : ¬OwnerPc.Granted pc := by
  cases pc <;> simp_all [OwnerPc.Starting, OwnerPc.Granted]

/-- The owner that makes the thread is in `listen`. -/
theorem starting_launching : OwnerPc.Starting .launching := trivial

/-- A step before the first call, or that call. -/
theorem next_unserved (hs : Unserved s) (h : Next s t) :
    Unserved t ∨ (Served t ∧ t.log = s.log) := by
  have hnone : t.thread = none := by
    by_contra hthread
    rcases next_thread h hthread with hsome | hlaunching
    · exact hsome hs.thread
    · exact hs.owner (hlaunching ▸ starting_launching)
  by_cases howner : OwnerPc.Starting t.owner
  · -- the step is the call
    obtain ⟨hstate, hlaunching, -, hlog⟩ := (next_starting h howner).resolve_left hs.owner
    refine .inr ⟨⟨?_, granted_of_starting howner, ?_⟩, hlog⟩
    · rw [hstate]
      exact ⟨nofun, nofun⟩
    · rintro (hthread | hlaunch)
      · exact absurd hnone hthread
      · exact absurd hlaunch hlaunching
  · refine .inl ⟨hnone, howner, fun result hlistened => ?_⟩
    rcases next_listened h hlistened with hlog | hstarting
    · exact hs.log result hlog
    · exact hs.owner hstarting

/-- Behind the first call no step changes that, and all that the run shows is refusals. -/
theorem next_served (hs : Served s) (h : Next s t) :
    Served t ∧ ∃ new, t.log = s.log ++ new ∧ ∀ event ∈ new, Refusal event := by
  -- the owner does not stand behind a test, and all that could do harm comes from there
  refine ⟨⟨?_, fun hgranted => ?_, fun hthread => ?_⟩, (next_log h).resolve_left hs.owner⟩
  · rcases next_serverState h with hsame | hgranted | hnew
    · exact hsame ▸ hs.state
    · exact absurd hgranted hs.owner
    · exact hnew
  · rcases next_granted h hgranted with hbefore | hinactive | hstopping
    · exact hs.owner hbefore
    · exact hs.state.1 hinactive
    · exact hs.state.2 hstopping
  · -- a thread that is there now was there before, or comes from the `listen` that set `_running`
    have hbefore : (s.thread ≠ none ∨ s.owner = .launching) ∨ t.running = true := by
      rcases hthread with hthread | hlaunching
      · exact .inl (next_thread h hthread)
      · exact (next_launching h hlaunching).imp_left .inr
    rcases hbefore with hbefore | hrunning
    · rcases hs.running hbefore with hleaving | hrunning
      · exact .inl (next_leaving h hleaving)
      · exact (next_running h hrunning).resolve_left hs.owner
    · exact .inr hrunning

end

/-! ### Every run -/

/-- A run falls into a part before the first call of `listen`, and a part in which there are only
refusals. -/
def Parted (s : State) : Prop :=
  Unserved s ∨ (Served s ∧ ∃ early late, s.log = early ++ late ∧
    (∀ result, .listened result ∉ early) ∧ ∀ event ∈ late, Refusal event)

/-- At the start `listen` has not been called. -/
theorem initial_parted {s : State} (h : Initial s) : Parted s := by
  obtain ⟨_, _, _, rfl⟩ := h
  exact .inl ⟨rfl, id, nofun⟩

/-- The step lemma: a step stays in its part, or goes from the first to the second. -/
theorem next_parted {s t : State} (hs : Parted s) (h : Next s t) : Parted t := by
  rcases hs with hs | ⟨hs, early, late, hlog, hearly, hlate⟩
  · rcases next_unserved hs h with ht | ⟨ht, hsame⟩
    · exact .inl ht
    · exact .inr ⟨ht, s.log, [], by rw [hsame, List.append_nil], hs.log, nofun⟩
  · obtain ⟨ht, new, hnew, hrefusal⟩ := next_served hs h
    refine .inr ⟨ht, early, late ++ new, ?_, hearly, fun event hevent => ?_⟩
    · rw [hnew, hlog, List.append_assoc]
    · rcases List.mem_append.mp hevent with hevent | hevent
      · exact hlate event hevent
      · exact hrefusal event hevent

/-- What is behind an element that the first part does not have is in the second part. -/
theorem mem_of_mem_after {α : Type} {early late before after : List α} {a b : α}
    (h : early ++ late = before ++ a :: after) (ha : a ∉ early) (hb : b ∈ after) : b ∈ late := by
  -- the two cuts of the list: the element is behind the first part, or inside it
  rcases List.append_eq_append_iff.mp h with ⟨between, -, rfl⟩ | ⟨between, rfl, hbetween⟩
  · exact List.mem_append_right _ (List.mem_cons_of_mem _ hb)
  · cases between with
    | nil =>
      rw [← hbetween.trans (List.nil_append late)]
      exact List.mem_cons_of_mem _ hb
    | cons c between =>
      obtain ⟨rfl, -⟩ := List.cons.inj hbetween
      exact absurd (List.mem_append_right _ List.mem_cons_self) ha

section
variable {t : State}

/-- The run lemma, from any initial state. -/
theorem reachable_parted (h : Reachable Initial Next t) : Parted t :=
  h.invariant (fun _ => initial_parted) fun _ _ _ hs hst => next_parted hs hst

/-- Behind a `listen` that has returned, a run has refusals only. -/
theorem refusals_behind_listen (h : Reachable Initial Next t) {before after : List Event}
    {result : Bool} (hlog : t.log = before ++ .listened result :: after) :
    Served t ∧ ∀ event ∈ after, Refusal event := by
  rcases reachable_parted h with hunserved | ⟨hserved, early, late, hparts, hearly, hlate⟩
  · refine absurd ?_ (hunserved.log result)
    rw [hlog]
    exact List.mem_append_right _ List.mem_cons_self
  · refine ⟨hserved, fun event hevent => hlate event ?_⟩
    exact mem_of_mem_after (hparts.symm.trans hlog) (hearly result) hevent

end

/-- In every run in which `listen` has returned true, and whatever the owner, the thread and the
system do, every `stop` behind that returns false and every `waitForFinished` returns false and
does not join the thread. So no run is as it is asked. -/
theorem never_stops {t : State} (h : Reachable Initial Next t) {before after : List Event}
    (hlog : t.log = before ++ .listened true :: after) :
    (∀ result, .stopped result ∈ after → result = false ∧ ¬Stops after) ∧
      (∀ result, .waited result ∈ after → result = false) ∧ .joined ∉ after := by
  obtain ⟨-, hrefusals⟩ := refusals_behind_listen h hlog
  refine ⟨fun result hstopped => ?_, fun result hwaited => hrefusals _ hwaited,
    fun hjoined => hrefusals _ hjoined⟩
  have hfalse : result = false := hrefusals _ hstopped
  refine ⟨hfalse, fun hstops => ?_⟩
  have htrue := hstops.stopped result hstopped
  rw [hfalse] at htrue
  cases htrue

/-- A server that listens on every address. -/
theorem reachable_listening : ∃ t : State, Reachable Initial Next t ∧ t.owner = .idle ∧
    t.serverState = .starting ∧ t.running = true ∧ t.thread = some .started ∧
    t.log = [.listened true] := by
  have hstarted : Reachable Initial Next _ := .start ⟨16, 180000, 0, rfl⟩
  have hlistened := ((hstarted.step (.listen [] ⟨3, 0, 0, 1, 0, 0⟩ rfl)).step
    (.listenPassed [] ⟨3, 0, 0, 1, 0, 0⟩ rfl (by decide))).step (.launch rfl rfl)
  exact ⟨_, hlistened, rfl, rfl, rfl, rfl, rfl⟩

/-- The result for a server that is asked to stop before its thread has done anything. -/
theorem never_stops_at_once : ∃ t : State, Reachable Initial Next t ∧
    t.log = [.listened true, .stopped false] ∧ ¬Stops [.stopped false] := by
  obtain ⟨s, hs, howner, hstate, -, -, hslog⟩ := reachable_listening
  have hstopped := (hs.step (.stopActive howner (by rw [hstate]; exact nofun))).step
    (.stopRefused rfl (by rw [hstate]; exact nofun))
  have hlog : s.log ++ [.stopped false] = [] ++ .listened true :: [.stopped false] := by
    rw [hslog]
    rfl
  have hnever := (never_stops hstopped hlog).1 false List.mem_cons_self
  exact ⟨_, hstopped, hlog, hnever.2⟩

/-- `listen` has returned true, the thread is in its first `::poll`, and `stop` and
`waitForFinished` return false. -/
theorem stop_refused_while_polling : ∃ t : State, Reachable Initial Next t ∧
    t.thread = some .polling ∧ t.running = true ∧
    t.log = [.listened true, .polled, .stopped false, .waited false] ∧
    ¬Stops [.polled, .stopped false, .waited false] := by
  obtain ⟨s, hs, howner, -, hrunning, hthread, hslog⟩ := reachable_listening
  have hentering := (hs.step (.prepare hthread)).step (.test rfl)
  have hpolling := hentering.step (.poll (congrArg some (if_pos hrunning)))
  have hstopped := (hpolling.step (.stopActive howner nofun)).step (.stopRefused rfl nofun)
  refine ⟨_, hstopped.step (.waitRefused rfl nofun), rfl, hrunning, by rw [hslog]; rfl, fun h => ?_⟩
  have htrue := h.stopped false (by decide)
  cases htrue

/-! ### The loop goes on -/

/-- A round of the loop in which nothing happens. -/
theorem round_timeout {s : State} (hthread : s.thread = some .testing) (hrunning : s.running = true) :
    ∃ t, ReflTransGen Next s t ∧ t.thread = some .testing ∧ t.running = true ∧
      t.log = s.log ++ [.polled] := by
  have htest := ReflTransGen.single (Next.test hthread)
  rw [if_pos hrunning] at htest
  exact ⟨_, (htest.tail (.poll rfl)).tail (.pollTimeout rfl), rfl, hrunning, rfl⟩

/-- Behind a `listen` that has returned true the thread goes round its loop as often as one likes,
whatever the owner has called, unless it destroys the server. -/
theorem polls_go_on {t : State} (h : Reachable Initial Next t) {before after : List Event}
    (hlog : t.log = before ++ .listened true :: after) (hthread : t.thread = some .testing)
    (howner : ¬OwnerPc.Leaving t.owner) (n : Nat) :
    ∃ u, ReflTransGen Next t u ∧ u.log = t.log ++ List.replicate n .polled := by
  have hserved := (refusals_behind_listen h hlog).1
  have hrunning : t.running = true := by
    have hsome : t.thread ≠ none := by rw [hthread]; exact nofun
    exact (hserved.running (.inl hsome)).resolve_left howner
  have hrounds : ∃ u, ReflTransGen Next t u ∧ u.thread = some .testing ∧ u.running = true ∧
      u.log = t.log ++ List.replicate n .polled := by
    induction n with
    | zero => exact ⟨t, .refl, hthread, hrunning, (List.append_nil _).symm⟩
    | succ n ih =>
      obtain ⟨u, hu, huthread, hurunning, hulog⟩ := ih
      obtain ⟨v, hv, hvthread, hvrunning, hvlog⟩ := round_timeout huthread hurunning
      refine ⟨v, hu.trans hv, hvthread, hvrunning, ?_⟩
      rw [hvlog, hulog, List.append_assoc, ← List.replicate_succ']
  obtain ⟨u, hu, -, -, hulog⟩ := hrounds
  exact ⟨u, hu, hulog⟩

end Brutils.Proofs.Tcp.Lifecycle
