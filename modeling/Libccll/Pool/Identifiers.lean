import Libccll.Pool.Jobs
import Libccll.Pool.Serving

/-! Histories of pools created and destroyed, each call returning before the next: the ids, the
number of workers, and what each call returns.
-/

namespace Libccll.Thrdpool

open Foundation

variable {θ φ δ : Type*} [DecidableEq θ]

-----------------------------------------------------------------------------------------
-- Sessions
-----------------------------------------------------------------------------------------

/-- The thread has made the call and taken some steps of it, and workers some of theirs. -/
def Underway (nprocs : Nat) (t : Thread θ) (call : Call φ δ) (s s' : State θ φ δ) : Prop :=
  ∃ actions : List (Action θ φ δ),
    (∀ action ∈ actions, action.Within t)
    ∧ Transition.run (step nprocs) s (.call t call :: actions) = some s'

/-- The library is initialised, then pools are created and destroyed by calls that return. -/
inductive Session (nprocs : Nat) : State θ φ δ → Prop where
  | init {t s} (stepped : step nprocs .initial (.call t .init) = some s) : Session nprocs s
  | call {t call s s' value} (session : Session nprocs s) (manages : call.Manages)
      (underway : Underway nprocs t call s s') (returned : s'.callers t = .outside value)
      : Session nprocs s'

instance (t : Thread θ) : (action : Action θ φ δ) → Decidable (action.Within t)
  | .call .. => inferInstanceAs (Decidable False)
  | .proceed u _ => inferInstanceAs (Decidable (u = t))
  | .work _ => inferInstanceAs (Decidable True)

/-- The call can be run to its return. -/
def Returns (nprocs : Nat) (t : Thread θ) (s : State θ φ δ) : Prop :=
  ∃ (actions : List (Action θ φ δ)) (s' : State θ φ δ) (value : Value),
    (∀ action ∈ actions, action.Within t)
    ∧ Transition.run (step nprocs) s actions = some s'
    ∧ s'.callers t = .outside value

variable {nprocs : Nat} {registry : List (Int × Nat)} {call : Call φ δ} {t : Thread θ}
  {s s' : State θ φ δ}

/-- The invariant of a call holds as long as it is under way. -/
theorem Idle.underway (idle : Idle nprocs s) (manages : call.Manages)
    (underway : Underway nprocs t call s s')
    : Serving nprocs s.registry call t s' := by
  obtain ⟨actions, within, whole⟩ := underway
  obtain ⟨entered, stepped, ran⟩ := Option.bind_eq_some_iff.mp whole
  have serving := idle.enter manages stepped
  clear whole stepped
  induction actions generalizing entered with
  | nil => exact Option.some.inj ran ▸ serving
  | cons action actions ih =>
      obtain ⟨middle, stepped, rest⟩ := Option.bind_eq_some_iff.mp ran
      exact ih (fun later member => within later (List.mem_cons_of_mem _ member)) middle rest
        (serving.step (within action List.mem_cons_self) stepped)

theorem Session.idle (session : Session nprocs s) : Idle nprocs s := by
  induction session with
  | init stepped => exact idle_init stepped
  | call _ manages underway returned ih => exact (ih.underway manages underway).idle returned

-----------------------------------------------------------------------------------------
-- Calls return
-----------------------------------------------------------------------------------------

theorem Returns.step {action : Action θ φ δ} (within : action.Within t)
    (stepped : Thrdpool.step nprocs s action = some s') (rest : Returns nprocs t s')
    : Returns nprocs t s := by
  obtain ⟨actions, last, value, inside, ran, returned⟩ := rest
  refine ⟨action :: actions, last, value, ?_, ?_, returned⟩
  · intro later member
    rcases List.mem_cons.mp member with rfl | member
    · exact within
    · exact inside later member
  · rw [Transition.run_cons, stepped]
    exact ran

/-- One step of the call, in which MALLOC succeeds. -/
theorem Serving.proceeds (serving : Serving nprocs registry call t s) (running : s.ended = false)
    (stepped : s.proceed nprocs t true = some s')
    (rest : Serving nprocs registry call t s' → Returns nprocs t s')
    : Returns nprocs t s := by
  have taken : Thrdpool.step nprocs s (.proceed t true) = some s' := by
    simpa [Thrdpool.step, running] using stepped
  have within : (Action.proceed t true : Action θ φ δ).Within t := rfl
  exact .step within taken (rest (serving.step within taken))

/-- One step of a worker. -/
theorem Serving.works (serving : Serving nprocs registry call t s) (running : s.ended = false)
    {w : Slot} (stepped : _workerThread s w = some s')
    (rest : Serving nprocs registry call t s' → Returns nprocs t s')
    : Returns nprocs t s := by
  have taken : Thrdpool.step nprocs s (.work w) = some s' := by
    simpa [Thrdpool.step, running] using stepped
  have within : (Action.work w : Action θ φ δ).Within t := trivial
  exact .step within taken (rest (serving.step within taken))

theorem returns_outside {value : Value} (here : s.callers t = .outside value)
    : Returns nprocs t s :=
  ⟨[], s, value, fun _ inside => absurd inside List.not_mem_nil, rfl, here⟩

theorem Serving.returns_leaving (serving : Serving nprocs registry call t s)
    (running : s.ended = false) {value : Value} (here : s.callers t = .leaving value)
    : Returns nprocs t s :=
  serving.proceeds running (proceed_leaving here) fun _ => returns_outside State.moveTo_self

/-- All workers count themselves, one after the other. -/
theorem Serving.returns_spinning (serving : Serving nprocs registry call t s)
    (running : s.ended = false) {pool : Nat} (here : s.callers t = .create (.spinning pool))
    : Returns nprocs t s := by
  generalize left : (s.pools pool).amt - (s.pools pool).runPt = n
  induction n using Nat.strongRecOn generalizing s with
  | ind n ih =>
      obtain ⟨_, _, _, standing, _⟩ := serving.stands here
      obtain ⟨counted, starting⟩ := standing
      by_cases full : (s.pools pool).runPt = (s.pools pool).amt
      · refine serving.proceeds running ((proceed_create here).trans (if_pos full))
          fun serving' => ?_
        exact serving'.returns_leaving running State.moveTo_self
      · have missing : ¬Finset.range (s.pools pool).amt ⊆ counted := fun all => full (by
          rw [starting.runPt, Finset.Subset.antisymm starting.below all, Finset.card_range])
        obtain ⟨j, inside, out⟩ := Finset.not_subset.mp missing
        have few : (s.pools pool).runPt ≤ (s.pools pool).amt := by
          simpa [starting.runPt] using Finset.card_le_card starting.below
        have fresh := starting.started j (Finset.mem_range.mp inside) out
        have amt : ((s.count (pool, j)).pools pool).amt = (s.pools pool).amt :=
          (s.count_pool pool).2
        have runPt : ((s.count (pool, j)).pools pool).runPt = (s.pools pool).runPt + 1 :=
          congrArg Pool.runPt (Function.update_self pool _ s.pools)
        refine serving.works running (_workerThread_fresh fresh) fun serving' => ?_
        exact ih ((s.pools pool).amt - ((s.pools pool).runPt + 1)) (by omega) serving' running here
          (by rw [amt, runPt])

/-- All workers of a pool are created. -/
theorem Serving.returns_threads (serving : Serving nprocs registry call t s)
    (running : s.ended = false) {pool i : Nat}
    (here : s.callers t = .create (.threads pool i))
    : Returns nprocs t s := by
  generalize left : (s.pools pool).amt - i = n
  induction n generalizing s i with
  | zero =>
      have last : ¬i < (s.pools pool).amt := by omega
      refine serving.proceeds running ((proceed_create here).trans (if_neg last))
        fun serving' => ?_
      exact serving'.returns_spinning running State.moveTo_self
  | succ n ih =>
      have more : i < (s.pools pool).amt := by omega
      refine serving.proceeds running
        ((proceed_create here).trans ((if_pos more).trans (if_pos rfl))) fun serving' => ?_
      refine ih serving' running State.moveTo_self ?_
      change (s.pools pool).amt - (i + 1) = n
      omega

theorem Serving.returns_counting (serving : Serving nprocs registry call t s)
    (running : s.ended = false) {amount : Nat}
    (here : s.callers t = .create (.counting amount))
    : Returns nprocs t s := by
  have leaves
      (refuses : clTrpoCreate nprocs s t true (.counting amount)
        = some (s.moveTo t (.leaving (.num (-1)))))
      : Returns nprocs t s :=
    serving.proceeds running ((proceed_create here).trans refuses) fun serving' =>
      serving'.returns_leaving running State.moveTo_self
  by_cases full : nprocs <<< 2 ≤ _getCurThrdCnt s
  · exact leaves (if_pos full)
  · by_cases scarce : nprocs <<< 2 < _getCurThrdCnt s + amount
    · exact leaves ((if_neg full).trans (if_pos scarce))
    · cases found : _crePolId s with
      | none => exact leaves (by simp [clTrpoCreate, full, scarce, found])
      | some id =>
          have added : clTrpoCreate nprocs s t true (.counting amount)
              = some ((s.addPool id amount).moveTo t (.create (.threads s.created 0))) := by
            simp [clTrpoCreate, full, scarce, found]
          exact serving.proceeds running ((proceed_create here).trans added) fun serving' =>
            serving'.returns_threads running State.moveTo_self

/-- The worker that is joined exits. -/
theorem Serving.returns_joining (serving : Serving nprocs registry call t s)
    (running : s.ended = false) {pool i : Nat} {turns : Option Nat}
    (here : s.callers t = .tear pool i .joining turns)
    (rest : ∀ {s' : State θ φ δ}, Serving nprocs registry call t s' → s'.ended = false
      → s'.callers t = .tear pool (i + 1) .locking turns
      → (s'.pools pool).amt = (s.pools pool).amt
      → Returns nprocs t s')
    : Returns nprocs t s := by
  generalize left : (s.pts (pool, i)).place.left = n
  induction n using Nat.strongRecOn generalizing s with
  | ind n ih =>
      obtain ⟨_, _, _, standing, _⟩ := serving.stands here
      obtain ⟨_, torn, _⟩ := standing
      rcases torn.ready with exited | ⟨s', stepped⟩
      · have joined : _destroyPolThrd s t pool i turns .joining
            = some (s.moveTo t (.tear pool (i + 1) .locking turns)) := by
          simp [_destroyPolThrd, exited]
        exact serving.proceeds running ((proceed_tear here).trans joined) fun serving' =>
          rest serving' running State.moveTo_self rfl
      · refine serving.works running stepped fun serving' => ?_
        obtain ⟨pt, _, less, rfl⟩ := torn.work stepped
        refine ih (pt.place.left) (left ▸ less) serving' running here rest ?_
        rw [State.setPt_self]

/-- A worker is told to exit, and does. -/
theorem Serving.returns_flagging (serving : Serving nprocs registry call t s)
    (running : s.ended = false) {pool i : Nat} {place : Teardown} {turns : Option Nat}
    (here : s.callers t = .tear pool i place turns) (locked : place ≠ .locking)
    (rest : ∀ {s' : State θ φ δ}, Serving nprocs registry call t s' → s'.ended = false
      → s'.callers t = .tear pool (i + 1) .locking turns
      → (s'.pools pool).amt = (s.pools pool).amt
      → Returns nprocs t s')
    : Returns nprocs t s := by
  have unlocking {s₁ : State θ φ δ} (serving : Serving nprocs registry call t s₁)
      (running : s₁.ended = false) (here : s₁.callers t = .tear pool i .unlocking turns)
      (amt : (s₁.pools pool).amt = (s.pools pool).amt)
      : Returns nprocs t s₁ := by
    refine serving.proceeds running (proceed_tear here) fun serving' => ?_
    refine serving'.returns_joining running State.moveTo_self fun serving' running' here' amt' => ?_
    exact rest serving' running' here' (amt'.trans amt)
  have waking {s₁ : State θ φ δ} (serving : Serving nprocs registry call t s₁)
      (running : s₁.ended = false) (here : s₁.callers t = .tear pool i .waking turns)
      (amt : (s₁.pools pool).amt = (s.pools pool).amt)
      : Returns nprocs t s₁ :=
    serving.proceeds running (proceed_tear here) fun serving' =>
      unlocking serving' running State.moveTo_self amt
  cases place with
  | locking => exact absurd rfl locked
  | flagging =>
      exact serving.proceeds running (proceed_tear here) fun serving' =>
        waking serving' running State.moveTo_self rfl
  | waking => exact waking serving running here rfl
  | unlocking => exact unlocking serving running here rfl
  | joining => exact serving.returns_joining running here rest

theorem Serving.returns_release (serving : Serving nprocs registry call t s)
    (running : s.ended = false) {pool : Nat} {turns : Option Nat}
    (here : s.callers t = .release pool turns)
    : Returns nprocs t s := by
  obtain ⟨_, _, _, _, stage⟩ := serving.stands here
  obtain ⟨rfl, _⟩ := stage
  exact serving.proceeds running (proceed_release here) fun _ => returns_outside State.moveTo_self

/-- The workers of a pool exit, one after the other. -/
theorem Serving.returns_locking (serving : Serving nprocs registry call t s)
    (running : s.ended = false) {pool i : Nat} {turns : Option Nat}
    (here : s.callers t = .tear pool i .locking turns)
    : Returns nprocs t s := by
  generalize left : (s.pools pool).amt - i = n
  induction n generalizing s i with
  | zero =>
      have last : ¬i < (s.pools pool).amt := by omega
      refine serving.proceeds running ((proceed_tear here).trans (if_neg last)) fun serving' => ?_
      exact serving'.returns_release running State.moveTo_self
  | succ n ih =>
      have more : i < (s.pools pool).amt := by omega
      obtain ⟨_, _, _, standing, _⟩ := serving.stands here
      have free : (s.pts (pool, i)).mtx = none := by
        rw [standing i (Nat.le_refl i) more]
        rfl
      have locked : _destroyPolThrd s t pool i turns .locking
          = some ((s.setPt (pool, i) { s.pts (pool, i) with mtx := some t }).moveTo t
              (.tear pool i .flagging turns)) := by
        simp [_destroyPolThrd, State.lock, more, free]
      refine serving.proceeds running ((proceed_tear here).trans locked) fun serving' => ?_
      refine serving'.returns_flagging running State.moveTo_self (by simp)
        fun serving' running' here' amt => ih serving' running' here' ?_
      have amt := amt.trans (rfl : _ = (s.pools pool).amt)
      omega

theorem Serving.returns_popped (serving : Serving nprocs registry call t s)
    (running : s.ended = false) {found : Option Nat}
    (here : s.callers t = .destroy (.popped found))
    : Returns nprocs t s := by
  cases found with
  | none =>
      exact serving.proceeds running (proceed_destroy here) fun _ =>
        returns_outside State.moveTo_self
  | some pool =>
      exact serving.proceeds running (proceed_destroy here) fun serving' =>
        serving'.returns_locking running State.moveTo_self

theorem Serving.returns_popping (serving : Serving nprocs registry call t s)
    (running : s.ended = false) {id : Int} (here : s.callers t = .destroy (.popping id))
    : Returns nprocs t s := by
  cases found : s.find id with
  | none =>
      have missing : clTrpoDestroy s t (.popping id)
          = some (s.moveTo t (.destroy (.popped none))) := by
        simp [clTrpoDestroy, found]
      exact serving.proceeds running ((proceed_destroy here).trans missing) fun serving' =>
        serving'.returns_popped running State.moveTo_self
  | some pool =>
      have popped : clTrpoDestroy s t (.popping id)
          = some ((s.pop pool).moveTo t (.destroy (.popped (some pool)))) := by
        simp [clTrpoDestroy, found]
      exact serving.proceeds running ((proceed_destroy here).trans popped) fun serving' =>
        serving'.returns_popped running State.moveTo_self

/-- Wherever the call is, unless MALLOC has failed. -/
theorem Serving.returns (serving : Serving nprocs registry call t s) (running : s.ended = false)
    : Returns nprocs t s := by
  cases here : s.callers t with
  | outside value => exact returns_outside here
  | leaving value => exact serving.returns_leaving running here
  | create place =>
      cases place with
      | locking amount =>
          have outside : ¬(s.callers t).Holds := by rw [here]; exact not_false
          exact serving.proceeds running ((proceed_create here).trans (serving.lockPols outside))
            fun serving' => serving'.returns_counting running State.moveTo_self
      | counting amount => exact serving.returns_counting running here
      | threads pool i => exact serving.returns_threads running here
      | spinning pool => exact serving.returns_spinning running here
  | destroy place =>
      cases place with
      | locking id =>
          have outside : ¬(s.callers t).Holds := by rw [here]; exact not_false
          exact serving.proceeds running ((proceed_destroy here).trans (serving.lockPols outside))
            fun serving' => serving'.returns_popping running State.moveTo_self
      | popping id => exact serving.returns_popping running here
      | popped found => exact serving.returns_popped running here
  | tear pool i place turns =>
      by_cases locking : place = .locking
      · subst locking
        exact serving.returns_locking running here
      · exact serving.returns_flagging running here locking fun serving' running' here' _ =>
          serving'.returns_locking running' here'
  | release pool turns => exact serving.returns_release running here
  | deinit place | post place =>
      obtain ⟨_, _, _, _, stage⟩ := serving.stands here
      cases stage

/-- A thread of the application can make the call, and it can return. -/
theorem Idle.served (idle : Idle nprocs s) (manages : call.Manages) {u : θ}
    : ∃ s' value, Underway nprocs (.app u) call s s' ∧ s'.callers (.app u) = .outside value := by
  obtain ⟨before, here⟩ := idle.alone (.app u)
  have stepped : step nprocs s (.call (.app u) call) = some (s.enter (.app u) call) := by
    simp [step, idle.running, here, State.calls]
  have running : (s.enter (.app u) call).ended = false := by
    cases call with
    | create amount =>
        rw [State.enter]
        split
        · exact idle.running
        · exact idle.running
    | destroy id => exact idle.running
    | init | deinit | post request => cases manages
  obtain ⟨actions, s', value, within, ran, returned⟩ :=
    (idle.enter manages stepped).returns running
  refine ⟨s', value, ⟨actions, within, ?_⟩, returned⟩
  rw [Transition.run_cons, stepped]
  exact ran

-----------------------------------------------------------------------------------------
-- The list of pools
-----------------------------------------------------------------------------------------

/-- In every session the ids differ and the workers are within the limit, also while a call is
under way. `cl_trpo_create` refuses exactly what it should and otherwise adds one pool under the
least free id; `cl_trpo_destroy` removes the pool that has the id. Every call can return, unless
MALLOC fails.
-/
theorem pools_registered (session : Session nprocs s)
    : Balanced nprocs s.registry
      ∧ ∀ (t : Thread θ) (call : Call φ δ), call.Manages
        → (∀ s', Underway nprocs t call s s'
            → Balanced nprocs s'.registry
              ∧ (∀ value, s'.callers t = .outside value
                → Effect nprocs s.registry call value s'.registry)
              ∧ (s'.ended = false → Returns nprocs t s'))
          ∧ ∀ u, t = .app u
            → ∃ s' value, Underway nprocs t call s s' ∧ s'.callers t = .outside value := by
  have idle := session.idle
  refine ⟨idle.balanced, fun t call manages => ⟨fun s' underway => ?_, ?_⟩⟩
  · have serving := idle.underway manages underway
    refine ⟨serving.listed, fun value returned => ?_, serving.returns⟩
    have stage := serving.stage
    rw [returned] at stage
    exact stage
  · rintro u rfl
    exact idle.served manages

/-- The steps that create a pool of so many workers. -/
def creating (pool amount : Nat) : List (Action Unit Unit Unit) :=
  List.replicate (amount + 3) (.proceed (.app ()) true)
    ++ (List.range amount).flatMap (fun i => working (pool, i) 1)
    ++ List.replicate 2 (.proceed (.app ()) true)

/-- The steps that destroy it. -/
def destroying (pool amount : Nat) : List (Action Unit Unit Unit) :=
  List.replicate 3 (.proceed (.app ()) true)
    ++ (List.range amount).flatMap (fun i =>
      List.replicate 4 (.proceed (.app ()) true) ++ working (pool, i) 5
        ++ [.proceed (.app ()) true])
    ++ List.replicate 2 (.proceed (.app ()) true)

/-- A pool of two workers is created, then one of a single worker. -/
def onePool : State Unit Unit Unit :=
  (Transition.run (step 1) (State.initial.enter (.app ()) .init)
    (.call (.app ()) (.create 2) :: creating 0 2)).get (by decide)

def twoPools : State Unit Unit Unit :=
  (Transition.run (step 1) onePool
    (.call (.app ()) (.create 1) :: creating 1 1)).get (by decide)

/-- The first pool is destroyed. -/
def firstDestroyed : State Unit Unit Unit :=
  (Transition.run (step 1) twoPools
    (.call (.app ()) (.destroy 0) :: destroying 0 2)).get (by decide +kernel)

/-- Its id is used again. -/
def firstReused : State Unit Unit Unit :=
  (Transition.run (step 1) firstDestroyed
    (.call (.app ()) (.create 1) :: creating 2 1)).get (by decide +kernel)

/-- The first id is free again after its pool was destroyed. -/
theorem pools_registered_reused
    : firstDestroyed.registry = [(1, 1)]
      ∧ firstReused.registry = [(1, 1), (0, 1)]
      ∧ Effect 1 firstDestroyed.registry (.create 1 : Call Unit Unit) (.num 0)
          firstReused.registry := by
  have initialized : Session 1 (State.initial.enter (.app ()) .init : State Unit Unit Unit) :=
    .init (t := .app ()) rfl
  have creates (amount : Int) : (.create amount : Call Unit Unit).Manages := trivial
  have destroys (id : Int) : (.destroy id : Call Unit Unit).Manages := trivial
  have first : onePool.callers (.app ()) = .outside (.num 0) := by rfl
  have second : twoPools.callers (.app ()) = .outside (.num 1) := by rfl
  have third : firstDestroyed.callers (.app ()) = .outside .void := by rfl
  have fourth : firstReused.callers (.app ()) = .outside (.num 0) := by rfl
  have one : Session 1 onePool :=
    .call initialized (creates 2) ⟨creating 0 2, by decide, (Option.some_get _).symm⟩ first
  have two : Session 1 twoPools :=
    .call one (creates 1) ⟨creating 1 1, by decide, (Option.some_get _).symm⟩ second
  have destroyed : Session 1 firstDestroyed :=
    .call two (destroys 0) ⟨destroying 0 2, by decide, (Option.some_get _).symm⟩ third
  have served := (pools_registered destroyed).2 (.app ()) (.create 1) (creates 1)
  have created := served.1 firstReused ⟨creating 2 1, by decide, (Option.some_get _).symm⟩
  exact ⟨by decide +kernel, by decide +kernel, created.2.1 (.num 0) fourth⟩

end Libccll.Thrdpool
