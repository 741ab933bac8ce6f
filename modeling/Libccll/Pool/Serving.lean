import Libccll.Pool.Standing

/-! One call that creates or destroys a pool, from its start to its return: the invariant that it
keeps while the workers take their steps.
-/

namespace Libccll.Thrdpool

variable {θ φ δ : Type*}

-----------------------------------------------------------------------------------------
-- The invariant
-----------------------------------------------------------------------------------------

/-- Which workers may take steps while the call is there. -/
def Caller.Moves : Caller φ δ → Slot → Prop
  | .create (.threads pool _), w | .create (.spinning pool), w => w.1 = pool
  | .tear _ _ .locking _, _ => False
  | .tear pool i _ _, w => w = (pool, i)
  | _, _ => False

/-- Waiting until the workers of the pool have counted themselves. -/
def Caller.Spins : Caller φ δ → Nat → Prop
  | .create (.spinning pool), k => k = pool
  | _, _ => False

/-- The workers of the pool that the call creates or tears down. -/
def Caller.Standing (s : State θ φ δ) (t : Thread θ) : Caller φ δ → Prop
  | .create (.threads pool i) =>
      i ≤ (s.pools pool).amt ∧ ∃ counted, Starting s pool i counted
  | .create (.spinning pool) => ∃ counted, Starting s pool (s.pools pool).amt counted
  | .destroy (.popped (some pool)) => s.CalmFrom pool 0
  | .tear pool i .locking _ => s.CalmFrom pool i
  | .tear pool i place _ =>
      i < (s.pools pool).amt ∧ Torn t (pool, i) place (s.pts (pool, i)) ∧ s.CalmFrom pool (i + 1)
  | _ => True

/-- How far the call has changed the list of pools that it found. -/
def Caller.Stage (nprocs : Nat) (registry : List (Int × Nat)) (call : Call φ δ)
    (s : State θ φ δ) : Caller φ δ → Prop
  | .create (.locking amount) | .create (.counting amount) =>
      call = .create amount ∧ 1 ≤ amount ∧ amount ≤ 256 ∧ s.registry = registry
  | .create (.threads pool _) =>
      s.registry = registry
      ∧ Effect nprocs registry call (.num (s.pools pool).id)
          (registry ++ [((s.pools pool).id, (s.pools pool).amt)])
  | .create (.spinning pool) => Effect nprocs registry call (.num (s.pools pool).id) s.registry
  | .destroy (.locking id) | .destroy (.popping id) =>
      call = .destroy id ∧ s.registry = registry
  | .destroy (.popped _) => Effect nprocs registry call .void s.registry
  | .tear _ _ _ turns | .release _ turns =>
      turns = none ∧ Effect nprocs registry call .void s.registry
  | .leaving value | .outside value => Effect nprocs registry call value s.registry
  | .deinit _ | .post _ => False

/-- A thread of the application serves the call, the others being outside the library. -/
structure Serving (nprocs : Nat) (registry : List (Int × Nat)) (call : Call φ δ) (t : Thread θ)
    (s : State θ φ δ) : Prop where
  guarded : Guarded s
  initialized : s.gInit = true
  kept : s.gMtxDestroyed = false
  stopped : s.ended = true → ∃ place, s.callers t = .create place
  alone : ∀ u, u ≠ t → ∃ value, s.callers u = .outside value
  unlocked : ¬(s.callers t).Holds → s.gMtxPols = none
  still : ∀ w, ¬(s.callers t).Moves w → (s.pts w).Still
  calm : ∀ pool ∈ s.gLiPols, ¬(s.callers t).Spins pool → s.CalmFrom pool 0
  standing : (s.callers t).Standing s t
  stage : (s.callers t).Stage nprocs registry call s
  balanced : Balanced nprocs registry
  outer : ∃ u, t = .app u

/-- No call is under way, and every worker waits. -/
structure Idle (nprocs : Nat) (s : State θ φ δ) : Prop where
  guarded : Guarded s
  initialized : s.gInit = true
  kept : s.gMtxDestroyed = false
  running : s.ended = false
  alone : ∀ u, ∃ value, s.callers u = .outside value
  unlocked : s.gMtxPols = none
  still : ∀ w, (s.pts w).Still
  calm : ∀ pool ∈ s.gLiPols, s.CalmFrom pool 0
  balanced : Balanced nprocs s.registry

variable {nprocs : Nat} {registry : List (Int × Nat)} {call : Call φ δ}
  {t : Thread θ} {s s' : State θ φ δ}

/-- What holds at the place where the thread is. -/
theorem Serving.stands (serving : Serving nprocs registry call t s) {place : Caller φ δ}
    (here : s.callers t = place)
    : (¬place.Holds → s.gMtxPols = none)
      ∧ (∀ w, ¬place.Moves w → (s.pts w).Still)
      ∧ (∀ pool ∈ s.gLiPols, ¬place.Spins pool → s.CalmFrom pool 0)
      ∧ place.Standing s t
      ∧ place.Stage nprocs registry call s := by
  subst here
  exact ⟨serving.unlocked, serving.still, serving.calm, serving.standing, serving.stage⟩

/-- The list is what the call found, or what it leaves. -/
theorem Serving.listed (serving : Serving nprocs registry call t s)
    : Balanced nprocs s.registry := by
  have balanced := serving.balanced
  cases here : s.callers t with
  | create place =>
      obtain ⟨_, _, _, _, stage⟩ := serving.stands here
      cases place with
      | locking amount | counting amount => exact stage.2.2.2 ▸ balanced
      | threads pool i => exact stage.1 ▸ balanced
      | spinning pool => exact stage.balanced balanced
  | destroy place =>
      obtain ⟨_, _, _, _, stage⟩ := serving.stands here
      cases place with
      | locking id | popping id => exact stage.2 ▸ balanced
      | popped pool => exact stage.balanced balanced
  | tear pool i place turns | release pool turns =>
      obtain ⟨_, _, _, _, stage⟩ := serving.stands here
      exact stage.2.balanced balanced
  | leaving value | outside value =>
      obtain ⟨_, _, _, _, stage⟩ := serving.stands here
      exact stage.balanced balanced
  | deinit place | post place =>
      obtain ⟨_, _, _, _, stage⟩ := serving.stands here
      cases stage

/-- The workers after the one that is torn down wait. -/
theorem calm_rest {pool i : Nat} {place : Teardown} {turns : Option Nat}
    (standing : (Caller.tear pool i place turns : Caller φ δ).Standing s t)
    : s.CalmFrom pool (i + 1) := by
  cases place with
  | locking => exact fun j above below => standing j (by omega) below
  | flagging | waking | unlocking | joining => exact standing.2.2

/-- Once the call has returned. -/
theorem Serving.idle (serving : Serving nprocs registry call t s) {value : Value}
    (here : s.callers t = .outside value)
    : Idle nprocs s := by
  have listed := serving.listed
  obtain ⟨guarded, initialized, kept, stopped, alone, unlocked, still, calm, _, _, _, _⟩ :=
    serving
  rw [here] at stopped unlocked still calm
  refine ⟨guarded, initialized, kept, ?_, fun u => ?_, unlocked not_false, fun w =>
    still w not_false, fun pool listed => calm pool listed not_false, listed⟩
  · refine Bool.eq_false_iff.mpr fun ended => ?_
    obtain ⟨_, same⟩ := stopped ended
    cases same
  · rcases eq_or_ne u t with rfl | other
    · exact ⟨value, here⟩
    · exact alone u other

/-- While no worker takes a step, the calls come from the application. -/
theorem Idle.outer (idle : Idle nprocs s) (calls : s.calls t = true) : ∃ u, t = .app u := by
  cases t with
  | app u => exact ⟨u, rfl⟩
  | worker w =>
      rcases idle.still w with place | place | ⟨place, _⟩ <;>
        simp [State.calls, place] at calls

variable [DecidableEq θ]

/-- The thread goes on to a place, with what has to hold there. -/
theorem Serving.next (serving : Serving nprocs registry call t s) {place : Caller φ δ}
    (guarded : Guarded s') (callers : s'.callers = Function.update s.callers t place)
    (same : s'.gInit = s.gInit ∧ s'.gMtxDestroyed = s.gMtxDestroyed) (running : s'.ended = false)
    (unlocked : ¬place.Holds → s'.gMtxPols = none)
    (still : ∀ w, ¬place.Moves w → (s'.pts w).Still)
    (calm : ∀ pool ∈ s'.gLiPols, ¬place.Spins pool → s'.CalmFrom pool 0)
    (standing : place.Standing s' t) (stage : place.Stage nprocs registry call s')
    : Serving nprocs registry call t s' := by
  have here : s'.callers t = place := by rw [callers, Function.update_self]
  refine ⟨guarded, same.1 ▸ serving.initialized, same.2 ▸ serving.kept, ?_, ?_, ?_, ?_, ?_, ?_, ?_,
    serving.balanced, serving.outer⟩
  · exact fun ended => Bool.noConfusion (running.symm.trans ended)
  · intro u other
    rw [callers, Function.update_of_ne other]
    exact serving.alone u other
  · exact here.symm ▸ unlocked
  · exact here.symm ▸ still
  · exact here.symm ▸ calm
  · exact here.symm ▸ standing
  · exact here.symm ▸ stage

/-- MALLOC fails. -/
theorem Serving.stop (serving : Serving nprocs registry call t s) {place : Creating}
    (here : s.callers t = .create place)
    : Serving nprocs registry call t s.stop := by
  obtain ⟨guarded, initialized, kept, _, alone, unlocked, still, calm, standing, stage, balanced,
    outer⟩ := serving
  have guarded' : Guarded s.stop := guarded.turn .stop
  refine ⟨guarded', initialized, kept, fun _ => ⟨place, here⟩, alone, unlocked, still, calm,
    ?_, ?_, balanced, outer⟩
  · cases place with
    | locking amount | counting amount => rw [State.stop, here]; trivial
    | threads pool i =>
        rw [here] at standing
        rw [State.stop, here]
        obtain ⟨bounded, counted, starting⟩ := standing
        exact ⟨bounded, counted, ⟨starting.below, starting.runPt, starting.waiting,
          starting.started, starting.absent⟩⟩
    | spinning pool =>
        rw [here] at standing
        rw [State.stop, here]
        obtain ⟨counted, starting⟩ := standing
        exact ⟨counted, ⟨starting.below, starting.runPt, starting.waiting,
          starting.started, starting.absent⟩⟩
  · rw [here] at stage
    rw [State.stop, here]
    cases place <;> exact stage

-----------------------------------------------------------------------------------------
-- The steps of the call
-----------------------------------------------------------------------------------------

/-- The lock is free, and its mutex was not destroyed. -/
theorem Serving.lockPols (serving : Serving nprocs registry call t s)
    (outside : ¬(s.callers t).Holds) {place : Caller φ δ}
    : s.lockPols t place = some { s.moveTo t place with gMtxPols := some t } := by
  simp [State.lockPols, serving.kept, serving.unlocked outside]

/-- A pool is allocated, with no worker created yet. -/
theorem Serving.add (serving : Serving nprocs registry call t s) {id : Int} {amount n : Nat}
    (guarded : Guarded ((s.addPool id amount).moveTo t (.create (.threads s.created 0))))
    (here : s.callers t = .create (.counting n)) (running : s.ended = false)
    (effect : Effect nprocs s.registry call (.num id) (s.registry ++ [(id, amount)]))
    (found : s.registry = registry)
    : Serving nprocs registry call t
        ((s.addPool id amount).moveTo t (.create (.threads s.created 0))) := by
  have new : (s.addPool id amount).pools s.created
      = { id, amt := amount, runPt := 0, allocated := [] } :=
    Function.update_self ..
  have same : (s.addPool id amount).registry = s.registry := serving.guarded.registry_addPool
  obtain ⟨_, still, calm, _, _⟩ := serving.stands here
  refine serving.next guarded rfl ⟨rfl, rfl⟩ running (absurd trivial) ?_ ?_ ?_ ?_
  · intro w other
    have pts : (s.addPool id amount).pts w = s.pts w := if_neg other
    rw [State.moveTo, pts]
    exact still w not_false
  · intro pool listed _ j _ below
    have old : pool ≠ s.created := Nat.ne_of_lt (serving.guarded.listed pool listed).1
    have pts : (s.addPool id amount).pts (pool, j) = s.pts (pool, j) := if_neg old
    have pools : (s.addPool id amount).pools pool = s.pools pool := Function.update_of_ne old _ _
    exact pts.trans (calm pool listed not_false j (Nat.zero_le j) (pools ▸ below))
  · refine ⟨Nat.zero_le _, ∅, Finset.empty_subset _, ?_, ?_, ?_, fun j _ => if_pos rfl⟩
    · exact congrArg Pool.runPt new
    · exact fun j member => absurd member (Finset.notMem_empty j)
    · exact fun j below => absurd below (Nat.not_lt_zero j)
  · refine ⟨same.trans found, ?_⟩
    rw [State.moveTo, new, ← found]
    exact effect

/-- The limit is checked and an id searched for. -/
theorem Serving.counting (serving : Serving nprocs registry call t s) {amount : Nat}
    (here : s.callers t = .create (.counting amount)) (running : s.ended = false) {malloc : Bool}
    (stepped : clTrpoCreate nprocs s t malloc (.counting amount) = some s')
    (guarded : Guarded s')
    : Serving nprocs registry call t s' := by
  obtain ⟨_, still, calm, _, stage⟩ := serving.stands here
  have leaves (value : Value) (effect : Effect nprocs registry call value s.registry)
      (guarded : Guarded (s.moveTo t (.leaving value)))
      : Serving nprocs registry call t (s.moveTo t (.leaving value)) :=
    serving.next guarded rfl ⟨rfl, rfl⟩ running (absurd trivial) still
      (fun pool listed _ => calm pool listed not_false) trivial effect
  obtain ⟨rfl, positive, few, rfl⟩ := stage
  simp only [clTrpoCreate] at stepped
  split at stepped
  · rename_i full
    cases stepped
    exact leaves _ (created_refused (Or.inl full) positive) guarded
  · split at stepped
    · rename_i scarce
      cases stepped
      exact leaves _ (created_refused (Or.inr (Or.inl scarce)) positive) guarded
    · rename_i enough
      split at stepped
      · rename_i failed
        cases stepped
        exact leaves _ (created_refused (Or.inr (Or.inr failed)) positive) guarded
      · rename_i id found
        split at stepped
        · cases stepped
          exact serving.add guarded here running
            (created_added enough found positive few) rfl
        · cases stepped
          exact serving.stop here

/-- A worker is created, or the pool is put into the list. -/
theorem Serving.threads (serving : Serving nprocs registry call t s) {pool i : Nat}
    (here : s.callers t = .create (.threads pool i)) (running : s.ended = false) {malloc : Bool}
    (stepped : clTrpoCreate nprocs s t malloc (.threads pool i) = some s')
    (guarded : Guarded s')
    : Serving nprocs registry call t s' := by
  obtain ⟨_, still, calm, standing, stage⟩ := serving.stands here
  have sound := serving.guarded.sound t
  rw [here] at sound
  obtain ⟨_, unlisted, _, _⟩ := sound
  obtain ⟨bounded, counted, starting⟩ := standing
  simp only [clTrpoCreate] at stepped
  split at stepped
  · rename_i more
    split at stepped
    · cases stepped
      refine serving.next guarded rfl ⟨rfl, rfl⟩ running (absurd trivial) ?_ ?_ ?_ stage
      · intro w other
        have out : w ≠ (pool, i) := fun same => other (congrArg Prod.fst same)
        exact (State.setPt_of_ne out).symm ▸ still w other
      · intro pool' listed _
        refine (calm pool' listed not_false).setPt fun j _ same => ?_
        have same : pool' = pool := congrArg Prod.fst same
        exact unlisted (same ▸ listed)
      · exact ⟨more, counted, starting.start.congr rfl rfl⟩
    · cases stepped
      exact serving.stop here
  · rename_i last
    obtain rfl : i = (s.pools pool).amt := by omega
    cases stepped
    refine serving.next guarded rfl ⟨rfl, rfl⟩ running (absurd trivial) still ?_ ?_ ?_
    · intro pool' listed other
      rcases List.mem_append.mp listed with old | new
      · exact calm pool' old not_false
      · exact absurd (List.mem_singleton.mp new) other
    · exact ⟨counted, starting.congr rfl rfl⟩
    · obtain ⟨rfl, effect⟩ := stage
      have appended : State.registry { s with gLiPols := s.gLiPols ++ [pool] }
          = s.registry ++ [((s.pools pool).id, (s.pools pool).amt)] := List.map_append
      rw [← appended] at effect
      exact effect

/-- All workers have counted themselves. -/
theorem Serving.spinning (serving : Serving nprocs registry call t s) {pool : Nat}
    (here : s.callers t = .create (.spinning pool)) (running : s.ended = false) {malloc : Bool}
    (stepped : clTrpoCreate nprocs s t malloc (.spinning pool) = some s')
    (guarded : Guarded s')
    : Serving nprocs registry call t s' := by
  obtain ⟨_, still, calm, standing, stage⟩ := serving.stands here
  obtain ⟨counted, starting⟩ := standing
  simp only [clTrpoCreate] at stepped
  split at stepped
  · rename_i full
    cases stepped
    obtain ⟨waiting, idle⟩ := starting.full full
    refine serving.next guarded rfl ⟨rfl, rfl⟩ running (absurd trivial) ?_ ?_ trivial stage
    · intro w _
      rcases eq_or_ne w.1 pool with same | other
      · exact same ▸ idle w.2
      · exact still w other
    · intro pool' listed _
      rcases eq_or_ne pool' pool with rfl | other
      · exact waiting
      · exact calm pool' listed other
  · cases stepped

theorem Serving.create (serving : Serving nprocs registry call t s) {place : Creating}
    (here : s.callers t = .create place) (running : s.ended = false) {malloc : Bool}
    (stepped : clTrpoCreate nprocs s t malloc place = some s') (guarded : Guarded s')
    : Serving nprocs registry call t s' := by
  cases place with
  | locking amount =>
      obtain ⟨_, still, calm, _, stage⟩ := serving.stands here
      rw [clTrpoCreate, serving.lockPols (by rw [here]; exact not_false)] at stepped
      cases stepped
      exact serving.next guarded rfl ⟨rfl, rfl⟩ running (absurd trivial)
        still (fun pool listed _ => calm pool listed not_false) trivial stage
  | counting amount => exact serving.counting here running stepped guarded
  | threads pool i => exact serving.threads here running stepped guarded
  | spinning pool => exact serving.spinning here running stepped guarded

theorem Serving.destroy (serving : Serving nprocs registry call t s) {place : Destroying}
    (here : s.callers t = .destroy place) (running : s.ended = false)
    (stepped : clTrpoDestroy s t place = some s') (guarded : Guarded s')
    : Serving nprocs registry call t s' := by
  obtain ⟨_, still, calm, standing, stage⟩ := serving.stands here
  cases place with
  | locking id =>
      rw [clTrpoDestroy, serving.lockPols (by rw [here]; exact not_false)] at stepped
      cases stepped
      exact serving.next guarded rfl ⟨rfl, rfl⟩ running (absurd trivial) still
        (fun pool listed _ => calm pool listed not_false) trivial stage
  | popping id =>
      obtain ⟨rfl, rfl⟩ := stage
      simp only [clTrpoDestroy] at stepped
      split at stepped
      · rename_i missing
        cases stepped
        exact serving.next guarded rfl ⟨rfl, rfl⟩ running (absurd trivial) still
          (fun pool listed _ => calm pool listed not_false) trivial (State.find_none missing).symm
      · rename_i pool found
        cases stepped
        exact serving.next guarded rfl ⟨rfl, rfl⟩ running (absurd trivial) still
          (fun pool listed _ => calm pool (List.mem_of_mem_erase listed) not_false)
          (calm pool (State.find_listed found) not_false)
          (State.registry_pop found serving.balanced.distinct)
  | popped found =>
      cases found with
      | none =>
          cases stepped
          exact serving.next guarded rfl ⟨rfl, rfl⟩ running (fun _ => rfl) still
            (fun pool listed _ => calm pool listed not_false) trivial stage
      | some pool =>
          cases stepped
          exact serving.next guarded rfl ⟨rfl, rfl⟩ running (fun _ => rfl) still
            (fun pool listed _ => calm pool listed not_false) standing ⟨rfl, stage⟩

/-- The thread changes the `PolThrd` that it tears down. -/
theorem Serving.setPt (serving : Serving nprocs registry call t s) {pool i : Nat}
    {place place' : Teardown} {turns : Option Nat} (here : s.callers t = .tear pool i place turns)
    (running : s.ended = false) {pt : PolThrd θ φ δ}
    (guarded : Guarded ((s.setPt (pool, i) pt).moveTo t (.tear pool i place' turns)))
    (below : i < (s.pools pool).amt) (torn : Torn t (pool, i) place' pt)
    : Serving nprocs registry call t
        ((s.setPt (pool, i) pt).moveTo t (.tear pool i place' turns)) := by
  obtain ⟨unlocked, still, calm, standing, stage⟩ := serving.stands here
  have sound := serving.guarded.sound t
  rw [here] at sound
  have moving {w : Slot} (out : w ≠ (pool, i)) : ((s.setPt (pool, i) pt).pts w).Still := by
    rw [State.setPt_of_ne out]
    refine still w fun moves => out ?_
    cases place with
    | locking => cases moves
    | flagging | waking | unlocking | joining => exact moves
  refine serving.next guarded rfl ⟨rfl, rfl⟩ running unlocked ?_ ?_ ?_ stage
  · intro w out
    cases place' with
    | locking => exact torn.not_locking.elim
    | flagging | waking | unlocking | joining => exact moving out
  · intro pool' listed _
    refine (calm pool' listed not_false).setPt fun j _ same => ?_
    have same : pool' = pool := congrArg Prod.fst same
    exact (serving.guarded.listed pool' listed).2 (same ▸ sound.1)
  · have self : Torn t (pool, i) place' ((s.setPt (pool, i) pt).pts (pool, i)) := by
      rw [State.setPt_self]
      exact torn
    have rest : (s.setPt (pool, i) pt).CalmFrom pool (i + 1) :=
      (calm_rest standing).setPt fun j above same => by
        have same : j = i := congrArg Prod.snd same
        omega
    cases place' with
    | locking => exact torn.not_locking.elim
    | flagging | waking | unlocking | joining => exact ⟨below, self, rest⟩

theorem Serving.tear (serving : Serving nprocs registry call t s) {pool i : Nat}
    {place : Teardown} {turns : Option Nat} (here : s.callers t = .tear pool i place turns)
    (running : s.ended = false) (stepped : _destroyPolThrd s t pool i turns place = some s')
    (guarded : Guarded s')
    : Serving nprocs registry call t s' := by
  obtain ⟨unlocked, still, calm, standing, stage⟩ := serving.stands here
  cases place with
  | locking =>
      simp only [_destroyPolThrd] at stepped
      split at stepped
      · rename_i more
        obtain ⟨_, locked, rfl⟩ := Option.map_eq_some_iff.mp stepped
        rw [State.lock_eq_some locked, standing i (Nat.le_refl i) more] at guarded ⊢
        exact serving.setPt here running guarded more .locked
      · cases stepped
        exact serving.next guarded rfl ⟨rfl, rfl⟩ running unlocked (fun w _ => still w not_false)
          (fun pool listed _ => calm pool listed not_false) trivial stage
  | flagging =>
      obtain ⟨below, torn, _⟩ := standing
      cases stepped
      exact serving.setPt here running guarded below torn.flag
  | waking =>
      obtain ⟨below, torn, _⟩ := standing
      cases stepped
      exact serving.setPt here running guarded below torn.wake
  | unlocking =>
      obtain ⟨below, torn, _⟩ := standing
      cases stepped
      exact serving.setPt here running guarded below torn.unlock
  | joining =>
      obtain ⟨below, torn, rest⟩ := standing
      simp only [_destroyPolThrd] at stepped
      split at stepped
      · rename_i exited
        cases stepped
        refine serving.next guarded rfl ⟨rfl, rfl⟩ running unlocked ?_
          (fun pool listed _ => calm pool listed not_false) rest stage
        intro w _
        rcases eq_or_ne w (pool, i) with rfl | other
        · exact Or.inr (Or.inl exited)
        · exact still w other
      · -- only a worker is refused
        obtain ⟨u, rfl⟩ := serving.outer
        simp only [State.edeadlk, Bool.false_eq_true, if_false] at stepped
        cases stepped

theorem proceed_create {place : Creating} (here : s.callers t = .create place) {malloc : Bool}
    : s.proceed nprocs t malloc = clTrpoCreate nprocs s t malloc place := by
  rw [State.proceed, here]

theorem proceed_destroy {place : Destroying} (here : s.callers t = .destroy place) {malloc : Bool}
    : s.proceed nprocs t malloc = clTrpoDestroy s t place := by
  rw [State.proceed, here]

theorem proceed_tear {pool i : Nat} {place : Teardown} {turns : Option Nat}
    (here : s.callers t = .tear pool i place turns) {malloc : Bool}
    : s.proceed nprocs t malloc = _destroyPolThrd s t pool i turns place := by
  rw [State.proceed, here]

theorem proceed_release {pool : Nat} {turns : Option Nat}
    (here : s.callers t = .release pool turns) {malloc : Bool}
    : s.proceed nprocs t malloc = some (s.releasePool t pool turns) := by
  rw [State.proceed, here]

theorem proceed_leaving {value : Value} (here : s.callers t = .leaving value) {malloc : Bool}
    : s.proceed nprocs t malloc = some (s.unlockPols.moveTo t (.outside value)) := by
  rw [State.proceed, here]

theorem Serving.proceed (serving : Serving nprocs registry call t s) (running : s.ended = false)
    {malloc : Bool} (stepped : s.proceed nprocs t malloc = some s') (guarded : Guarded s')
    : Serving nprocs registry call t s' := by
  cases here : s.callers t with
  | outside value => simp [State.proceed, here] at stepped
  | create place =>
      rw [proceed_create here] at stepped
      exact serving.create here running stepped guarded
  | destroy place =>
      rw [proceed_destroy here] at stepped
      exact serving.destroy here running stepped guarded
  | tear pool i place turns =>
      rw [proceed_tear here] at stepped
      exact serving.tear here running stepped guarded
  | release pool turns =>
      obtain ⟨unlocked, still, calm, _, rfl, effect⟩ := serving.stands here
      rw [proceed_release here] at stepped
      cases stepped
      exact serving.next guarded rfl ⟨rfl, rfl⟩ running (fun _ => unlocked Bool.false_ne_true) still
        (fun pool listed _ => calm pool listed not_false) trivial effect
  | leaving value =>
      obtain ⟨_, still, calm, _, stage⟩ := serving.stands here
      rw [proceed_leaving here] at stepped
      cases stepped
      exact serving.next guarded rfl ⟨rfl, rfl⟩ running (fun _ => rfl) still
        (fun pool listed _ => calm pool listed not_false) trivial stage
  | deinit place | post place =>
      obtain ⟨_, _, _, _, stage⟩ := serving.stands here
      cases stage

-----------------------------------------------------------------------------------------
-- The steps of the workers
-----------------------------------------------------------------------------------------

theorem State.moveTo_here {place : Caller φ δ} (here : s.callers t = place)
    : s.moveTo t place = s := by
  rw [State.moveTo, ← here, Function.update_eq_self]

/-- A worker of the pool being created counts itself. -/
theorem Serving.count (serving : Serving nprocs registry call t s) {place : Creating} {w : Slot}
    (here : s.callers t = .create place) (running : s.ended = false)
    (guarded : Guarded (s.count w))
    (others : ∀ w', ¬(Caller.create place : Caller φ δ).Moves w' → w' ≠ w)
    (elsewhere : ∀ k ∈ s.gLiPols, ¬(Caller.create place : Caller φ δ).Spins k → k ≠ w.1)
    (standing : (Caller.create place).Standing (s.count w) t)
    (stage : (Caller.create place).Stage nprocs registry call (s.count w))
    : Serving nprocs registry call t (s.count w) := by
  obtain ⟨unlocked, still, calm, _, _⟩ := serving.stands here
  have callers : (s.count w).callers = Function.update s.callers t (.create place) := by
    rw [← here, Function.update_eq_self]
    rfl
  refine serving.next guarded callers ⟨rfl, rfl⟩ running unlocked ?_ ?_ standing stage
  · intro w' out
    have old : (s.count w).pts w' = s.pts w' := State.setPt_of_ne (others w' out)
    exact old ▸ still w' out
  · intro k listed other
    exact (calm k listed other).count (elsewhere k listed other)

/-- Only the pool that the call creates or tears down has workers that take steps. -/
theorem Serving.work (serving : Serving nprocs registry call t s) (running : s.ended = false)
    {w : Slot} (stepped : _workerThread s w = some s') (guarded : Guarded s')
    : Serving nprocs registry call t s' := by
  have moves : (s.callers t).Moves w :=
    by_contra fun out => (serving.still w out).idle stepped
  cases here : s.callers t with
  | create place =>
      obtain ⟨_, _, _, standing, stage⟩ := serving.stands here
      have sound := serving.guarded.sound t
      rw [here] at moves sound
      cases place with
      | locking amount | counting amount => cases moves
      | threads pool n =>
          obtain ⟨k, i⟩ := w
          obtain rfl : k = pool := moves
          obtain ⟨bounded, counted, starting⟩ := standing
          obtain ⟨rfl, starting'⟩ := starting.work stepped
          obtain ⟨sameId, sameAmt⟩ := s.count_pool (w := (k, i)) k
          refine serving.count here running guarded ?_ ?_ ⟨?_, _, starting'⟩ ⟨?_, ?_⟩
          · exact fun w' out same => out (congrArg Prod.fst same)
          · intro k' listed _ same
            have same : k' = k := same
            exact sound.2.1 (same ▸ listed)
          · exact sameAmt.symm ▸ bounded
          · exact State.registry_count.trans stage.1
          · rw [sameId, sameAmt]
            exact stage.2
      | spinning pool =>
          obtain ⟨k, i⟩ := w
          obtain rfl : k = pool := moves
          obtain ⟨counted, starting⟩ := standing
          obtain ⟨rfl, starting'⟩ := starting.work stepped
          obtain ⟨sameId, sameAmt⟩ := s.count_pool (w := (k, i)) k
          refine serving.count here running guarded ?_ ?_ ⟨_, sameAmt.symm ▸ starting'⟩ ?_
          · exact fun w' out same => out (congrArg Prod.fst same)
          · exact fun k' _ other same => other same
          · rw [Caller.Stage, sameId, State.registry_count]
            exact stage
  | tear pool i place turns =>
      obtain ⟨_, _, _, standing, _⟩ := serving.stands here
      rw [here] at moves
      cases place with
      | locking => cases moves
      | flagging | waking | unlocking | joining =>
          obtain rfl : w = (pool, i) := moves
          obtain ⟨below, torn, _⟩ := standing
          obtain ⟨pt, torn', _, rfl⟩ := torn.work stepped
          have stays : (s.setPt (pool, i) pt).moveTo t _ = s.setPt (pool, i) pt :=
            State.moveTo_here here
          rw [← stays] at guarded ⊢
          exact serving.setPt here running guarded below torn'
  | outside value | leaving value =>
      rw [here] at moves
      cases moves
  | destroy place | deinit place | release pool turns | post place =>
      rw [here] at moves
      cases moves

/-- The steps of a call, and of the workers meanwhile. -/
def Action.Within (t : Thread θ) : Action θ φ δ → Prop
  | .call .. => False
  | .proceed u _ => u = t
  | .work _ => True

theorem Serving.step (serving : Serving nprocs registry call t s) {action : Action θ φ δ}
    (within : action.Within t) (stepped : step nprocs s action = some s')
    : Serving nprocs registry call t s' := by
  have guarded := serving.guarded.step stepped
  unfold Thrdpool.step at stepped
  split at stepped
  · cases stepped
  · rename_i running
    have running : s.ended = false := Bool.eq_false_iff.mpr running
    cases action with
    | call u request => cases within
    | proceed u malloc =>
        obtain rfl : u = t := within
        exact serving.proceed running stepped guarded
    | work w => exact serving.work running stepped guarded

-----------------------------------------------------------------------------------------
-- Between two calls
-----------------------------------------------------------------------------------------

/-- A call that creates or destroys a pool. -/
def Call.Manages : Call φ δ → Prop
  | .create _ | .destroy _ => True
  | _ => False

/-- A thread that calls the library is outside it. -/
theorem step_call (stepped : Thrdpool.step nprocs s (.call t call) = some s')
    : s' = s.enter t call ∧ s.calls t = true := by
  simp only [Thrdpool.step] at stepped
  split at stepped
  · cases stepped
  · split at stepped
    · split at stepped
      · exact ⟨(Option.some.inj stepped).symm, ‹_›⟩
      · cases stepped
    · cases stepped

/-- After `cl_trpo_init`. -/
theorem idle_init (stepped : Thrdpool.step nprocs .initial (.call t .init) = some s)
    : Idle nprocs s := by
  have guarded := guarded_initial.step stepped
  obtain ⟨rfl, _⟩ := step_call stepped
  refine ⟨guarded, rfl, rfl, rfl, fun u => ?_, rfl, fun _ => PolThrd.still_initial,
    fun _ listed => absurd listed List.not_mem_nil,
    ⟨List.nodup_nil, Nat.zero_le _⟩⟩
  rcases eq_or_ne u t with rfl | other
  · exact ⟨_, State.moveTo_self⟩
  · exact ⟨_, State.moveTo_of_ne other⟩

/-- A call goes to its first place. -/
theorem Idle.moveTo (idle : Idle nprocs s) {place : Caller φ δ} (calls : s.calls t = true)
    (guarded : Guarded (s.moveTo t place))
    (standing : place.Standing (s.moveTo t place) t)
    (stage : place.Stage nprocs s.registry call (s.moveTo t place))
    : Serving nprocs s.registry call t (s.moveTo t place) := by
  have here : (s.moveTo t place).callers t = place := State.moveTo_self
  have outer := idle.outer calls
  obtain ⟨_, initialized, kept, running, alone, unlocked, still, calm, balanced⟩ := idle
  refine ⟨guarded, initialized, kept, fun ended => Bool.noConfusion (running.symm.trans ended), ?_,
    fun _ => unlocked, fun w _ => still w, fun pool listed _ => calm pool listed, ?_, ?_, balanced,
    outer⟩
  · intro u other
    rw [State.moveTo_of_ne other]
    exact alone u
  · exact here.symm ▸ standing
  · exact here.symm ▸ stage

/-- A call begins. -/
theorem Idle.enter (idle : Idle nprocs s) (manages : call.Manages)
    (stepped : Thrdpool.step nprocs s (.call t call) = some s')
    : Serving nprocs s.registry call t s' := by
  have guarded := idle.guarded.step stepped
  obtain ⟨rfl, calls⟩ := step_call stepped
  cases call with
  | create amount =>
      rw [State.enter] at guarded ⊢
      split
      · rename_i refused
        rw [if_pos refused] at guarded
        have outside : ¬(1 ≤ amount ∧ amount ≤ 256) := by
          rcases refused with cleared | few | many
          · exact Bool.noConfusion (cleared.symm.trans idle.initialized)
          · omega
          · omega
        exact idle.moveTo calls guarded trivial
          ⟨fun _ => ⟨rfl, rfl⟩, fun accepted => absurd (Or.inl outside) accepted⟩
      · rename_i accepted
        rw [if_neg accepted] at guarded
        simp only [not_or, not_lt] at accepted
        refine idle.moveTo calls guarded trivial ⟨?_, by omega, by omega, rfl⟩
        rw [Int.toNat_of_nonneg (by omega)]
  | destroy id => exact idle.moveTo calls guarded trivial ⟨rfl, rfl⟩
  | init | deinit | post request => cases manages

end Libccll.Thrdpool
