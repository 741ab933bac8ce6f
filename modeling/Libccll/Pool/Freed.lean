import Mathlib.Data.List.Find
import Libccll.Pool.Custody
import Libccll.Pool.Destruction
import Libccll.Pool.Headcount

/-! What is in the memory of a pool that was freed once its workers had exited is of no effect:
nothing reads or writes it.
-/

namespace Libccll.Thrdpool

open Foundation

variable {θ φ δ : Type*}

/-- The memory of a pool and of its workers holds anything else. Where its workers stand is not in
there.
-/
def State.spoil (s : State θ φ δ) (pool : Nat) (memory : Pool) (workers : Nat → PolThrd θ φ δ)
    : State θ φ δ :=
  {
    s with
    pools := Function.update s.pools pool memory
    pts := fun w =>
      if w.1 = pool then { workers w.2 with place := (s.pts w).place } else s.pts w
  }

/-- The pool that was found in `cl_trpo_post`. -/
def Posting.pool : Posting φ δ → Option Nat
  | .locking _ | .finding _ => none
  | .scanning _ pool _ _ _ | .measuring _ pool _ _ _ | .measured _ pool _ _ _ _
  | .selected _ pool _ | .filled pool _ _ | .adding pool _ _ | .linked pool _
  | .signalled pool _ => some pool

/-- The pool that a call is about. -/
def Caller.pool : Caller φ δ → Option Nat
  | .create (.threads pool _) | .create (.spinning pool) => some pool
  | .destroy (.popped pool) => pool
  | .tear pool _ _ _ | .release pool _ => some pool
  | .post place => place.pool
  | _ => none

variable {s s' : State θ φ δ} {t : Thread θ} {w : Slot} {pool : Nat} {memory : Pool}
  {workers : Nat → PolThrd θ φ δ}

theorem State.spoil_pools {k : Nat} (other : k ≠ pool)
    : (s.spoil pool memory workers).pools k = s.pools k :=
  Function.update_of_ne other _ _

theorem State.spoil_pts (other : w.1 ≠ pool)
    : (s.spoil pool memory workers).pts w = s.pts w :=
  if_neg other

theorem State.spoil_place : ((s.spoil pool memory workers).pts w).place = (s.pts w).place := by
  simp only [State.spoil]
  split <;> rfl

theorem State.spoil_setPt (other : w.1 ≠ pool) {pt : PolThrd θ φ δ}
    : (s.spoil pool memory workers).setPt w pt = (s.setPt w pt).spoil pool memory workers := by
  simp only [State.spoil, State.setPt, State.mk.injEq, true_and, and_true]
  funext w'
  rcases eq_or_ne w' w with rfl | elsewhere
  · rw [Function.update_self, if_neg other, Function.update_self]
  · rw [Function.update_of_ne elsewhere, Function.update_of_ne elsewhere]

/-- Another pool changes. -/
theorem State.spoil_setPool {k : Nat} (other : k ≠ pool) {changed : Pool}
    : Function.update (s.spoil pool memory workers).pools k changed
      = Function.update (Function.update s.pools k changed) pool memory :=
  Function.update_comm other.symm _ _ _

theorem State.spoil_addPool (old : pool ≠ s.created) {id : Int} {amount : Nat}
    : (s.spoil pool memory workers).addPool id amount
      = (s.addPool id amount).spoil pool memory workers := by
  simp only [State.spoil, State.addPool, State.mk.injEq, true_and, and_true]
  refine ⟨Function.update_comm old _ _ _, ?_⟩
  funext w
  rcases eq_or_ne w.1 pool with rfl | other
  · rw [if_neg old, if_pos rfl, if_pos rfl, if_neg old]
  · rw [if_neg other, if_neg other]

-----------------------------------------------------------------------------------------
-- What walks along the list
-----------------------------------------------------------------------------------------

theorem State.spoil_listed (unlisted : pool ∉ s.gLiPols) {k : Nat} (listed : k ∈ s.gLiPols)
    : (s.spoil pool memory workers).pools k = s.pools k :=
  State.spoil_pools fun same => unlisted (same ▸ listed)

theorem State.spoil_find (unlisted : pool ∉ s.gLiPols) (id : Int)
    : (s.spoil pool memory workers).find id = s.find id :=
  List.find?_congr fun k listed => by rw [State.spoil_listed unlisted listed]

theorem _getCurThrdCnt_spoil (unlisted : pool ∉ s.gLiPols)
    : _getCurThrdCnt (s.spoil pool memory workers) = _getCurThrdCnt s :=
  congrArg List.sum (List.map_congr_left fun k listed => by
    rw [State.spoil_listed unlisted listed])

theorem _crePolIdFrom_spoil (unlisted : pool ∉ s.gLiPols) (i : Int) (left : Nat)
    : _crePolIdFrom (s.spoil pool memory workers) i left = _crePolIdFrom s i left := by
  induction left generalizing i with
  | zero => rfl
  | succ left ih =>
      have same : s.gLiPols.any (fun k => decide (((s.spoil pool memory workers).pools k).id = i))
          = s.gLiPols.any fun k => decide ((s.pools k).id = i) := by
        rw [Bool.eq_iff_iff, List.any_eq_true, List.any_eq_true]
        refine exists_congr fun k => and_congr_right fun listed => ?_
        rw [State.spoil_listed unlisted listed]
      rw [_crePolIdFrom, _crePolIdFrom, ih]
      exact congrArg
        (fun taken : Bool => if taken = true then _crePolIdFrom s (i + 1) left else some i) same

-----------------------------------------------------------------------------------------
-- Steps
-----------------------------------------------------------------------------------------

theorem State.spoil_workTo (other : w.1 ≠ pool) {place : Worker φ δ}
    : (s.spoil pool memory workers).workTo w place
      = (s.workTo w place).spoil pool memory workers := by
  rw [State.workTo, State.workTo, State.spoil_pts other, State.spoil_setPt other]

theorem State.spoil_unlock (other : w.1 ≠ pool)
    : (s.spoil pool memory workers).unlock w = (s.unlock w).spoil pool memory workers := by
  rw [State.unlock, State.unlock, State.spoil_pts other, State.spoil_setPt other]

theorem State.spoil_semPost (other : w.1 ≠ pool)
    : (s.spoil pool memory workers).semPost w = (s.semPost w).spoil pool memory workers := by
  rw [State.semPost, State.semPost, State.spoil_pts other, State.spoil_setPt other]

/-- A lock is taken, and then a step made that commutes. -/
theorem State.spoil_lock (other : w.1 ≠ pool) {next : State θ φ δ → State θ φ δ}
    (commutes
      : ∀ s', next (State.spoil s' pool memory workers) = (next s').spoil pool memory workers)
    : ((s.spoil pool memory workers).lock t w).map next
      = ((s.lock t w).map next).map (State.spoil · pool memory workers) := by
  rw [State.lock, State.lock, State.spoil_pts other, State.spoil_setPt other]
  split
  · exact congrArg some (commutes _)
  · rfl

/-- A worker of another pool. -/
theorem _workerThread_spoil (other : w.1 ≠ pool)
    : _workerThread (s.spoil pool memory workers) w
      = (_workerThread s w).map (State.spoil · pool memory workers) := by
  have pts : (s.spoil pool memory workers).pts w = s.pts w := State.spoil_pts other
  have sets (pt : PolThrd θ φ δ) (s' : State θ φ δ)
      : (s'.spoil pool memory workers).setPt w pt = (s'.setPt w pt).spoil pool memory workers :=
    State.spoil_setPt other
  have moves (place : Worker φ δ) (s' : State θ φ δ)
      : (s'.spoil pool memory workers).workTo w place
        = (s'.workTo w place).spoil pool memory workers :=
    State.spoil_workTo other
  have unlocks : (s.spoil pool memory workers).unlock w = (s.unlock w).spoil pool memory workers :=
    State.spoil_unlock other
  have touches (wfs : List (WorkFun φ δ))
      : (s.spoil pool memory workers).touch wfs = (s.touch wfs).spoil pool memory workers := rfl
  have frees (wf : WorkFun φ δ)
      : (s.spoil pool memory workers).free wf = (s.free wf).spoil pool memory workers := rfl
  cases here : (s.pts w).place with
  | absent | exited => simp only [_workerThread, pts, here, Option.map_none]
  | started =>
      simp only [_workerThread, pts, here, Option.map_some, moves, State.spoil_pools other,
        State.spoil_setPool other]
      rfl
  | waiting =>
      simp only [_workerThread, pts, here, sets]
      split <;> rfl
  | woken | peeking => simp only [_workerThread, pts, here, Option.map_some, moves]
  | exitLocking | peekLocking | deleteLocking wf =>
      simp only [_workerThread, pts, here]
      exact State.spoil_lock other fun s' => moves _ s'
  | exitSizing => simp only [_workerThread, pts, here, Option.map_some, touches, moves]
  | exitFreeing cnt i =>
      simp only [_workerThread, pts, here]
      split
      · cases (s.pts w).wkfnList with
        | nil => simp only [Option.map_some, moves]
        | cons wf wfs => simp only [Option.map_some, frees, moves]
      · simp only [Option.map_some, unlocks, moves]
  | peeked wf | deleted wf => simp only [_workerThread, pts, here, Option.map_some, unlocks, moves]
  | calling wf =>
      cases wf with
      | none =>
          simp only [_workerThread, pts, here, Option.map_some]
          rfl
      | some wf => simp only [_workerThread, pts, here, Option.map_some, touches, sets]
  | executing wf =>
      have same : (s.spoil pool memory workers).callers = s.callers := rfl
      simp only [_workerThread, pts, here, same]
      cases s.callers (.worker w) with
      | outside value => simp only [Option.map_some, moves]
      | _ => rfl
  | deleting wf => simp only [_workerThread, pts, here, Option.map_some, touches, sets]
  | freeing wf => simp only [_workerThread, pts, here, Option.map_some, frees, moves]

/-- No call is about a pool that was freed. -/
theorem Guarded.unreleased (guarded : Guarded s) (custody : Custody s) {k : Nat}
    (about : (s.callers t).pool = some k)
    : k ∉ s.released := by
  have unpopped (out : k ∉ s.popped) : k ∉ s.released :=
    fun released => out (guarded.released k released).1
  have listed (member : k ∈ s.gLiPols) : k ∉ s.released :=
    unpopped (guarded.listed k member).2
  have sound := guarded.sound t
  have unreleased := custody.unreleased t k
  have settled := custody.settled t k
  cases here : s.callers t with
  | create place =>
      rw [here] at about sound settled
      cases place with
      | threads pool i =>
          cases about
          exact unpopped sound.2.2.1
      | spinning pool => exact listed (settled about)
      | _ => cases about
  | destroy place =>
      rw [here] at about unreleased
      cases place with
      | popped pool => exact unreleased about
      | _ => cases about
  | tear pool i place turns | release pool turns =>
      rw [here] at about unreleased
      exact unreleased about
  | post place =>
      rw [here] at about sound
      cases place with
      | locking request | finding request => cases about
      | _ =>
          cases about
          exact listed sound.1
  | _ =>
      rw [here] at about
      cases about

section

variable [DecidableEq θ]

theorem State.spoil_lockPols {place : Caller φ δ}
    : (s.spoil pool memory workers).lockPols t place
      = (s.lockPols t place).map (State.spoil · pool memory workers) := by
  have destroyed : (s.spoil pool memory workers).gMtxDestroyed = s.gMtxDestroyed := rfl
  have owner : (s.spoil pool memory workers).gMtxPols = s.gMtxPols := rfl
  rw [State.lockPols, State.lockPols, destroyed, owner]
  split
  · rfl
  · split <;> rfl

theorem clTrpoCreate_spoil {nprocs : Nat} {malloc : Bool} {place : Creating}
    (old : pool < s.created) (unlisted : pool ∉ s.gLiPols)
    (other : ∀ k, (Caller.create place : Caller φ δ).pool = some k → k ≠ pool)
    : clTrpoCreate nprocs (s.spoil pool memory workers) t malloc place
      = (clTrpoCreate nprocs s t malloc place).map (State.spoil · pool memory workers) := by
  cases place with
  | locking amount => exact State.spoil_lockPols
  | counting amount =>
      have ids : _crePolId (s.spoil pool memory workers) = _crePolId s :=
        _crePolIdFrom_spoil unlisted 0 10000
      simp only [clTrpoCreate, _getCurThrdCnt_spoil unlisted, ids,
        State.spoil_addPool (Nat.ne_of_lt old)]
      split
      · rfl
      · split
        · rfl
        · cases _crePolId s with
          | none => rfl
          | some id => cases malloc <;> rfl
  | threads k i =>
      have other : k ≠ pool := other k rfl
      simp only [clTrpoCreate, State.spoil_pools other, State.spoil_workTo (w := (k, i)) other]
      split
      · cases malloc <;> rfl
      · rfl
  | spinning k =>
      simp only [clTrpoCreate, State.spoil_pools (other k rfl)]
      split <;> rfl

theorem clTrpoDestroy_spoil {place : Destroying} (unlisted : pool ∉ s.gLiPols)
    : clTrpoDestroy (s.spoil pool memory workers) t place
      = (clTrpoDestroy s t place).map (State.spoil · pool memory workers) := by
  cases place with
  | locking id => exact State.spoil_lockPols
  | popping id =>
      simp only [clTrpoDestroy, State.spoil_find unlisted]
      cases s.find id <;> rfl
  | popped taken => cases taken <;> rfl

theorem clTrpoDeinit_spoil {place : Deiniting}
    : clTrpoDeinit (s.spoil pool memory workers) t place
      = (clTrpoDeinit s t place).map (State.spoil · pool memory workers) := by
  cases place with
  | locking => exact State.spoil_lockPols
  | sizing | destroying => rfl
  | looping turns =>
      cases turns with
      | zero => rfl
      | succ turns =>
          have lists : (s.spoil pool memory workers).gLiPols = s.gLiPols := rfl
          simp only [clTrpoDeinit, lists]
          cases s.gLiPols <;> rfl

theorem _destroyPolThrd_spoil {k i : Nat} {turns : Option Nat} {place : Teardown}
    (other : k ≠ pool)
    : _destroyPolThrd (s.spoil pool memory workers) t k i turns place
      = (_destroyPolThrd s t k i turns place).map (State.spoil · pool memory workers) := by
  have pts : (s.spoil pool memory workers).pts (k, i) = s.pts (k, i) := State.spoil_pts other
  cases place with
  | locking =>
      simp only [_destroyPolThrd, State.spoil_pools other]
      split
      · exact State.spoil_lock other fun _ => rfl
      · rfl
  | flagging =>
      simp only [_destroyPolThrd, pts, State.spoil_setPt (w := (k, i)) other]
      rfl
  | waking =>
      simp only [_destroyPolThrd, State.spoil_semPost (w := (k, i)) other]
      rfl
  | unlocking =>
      simp only [_destroyPolThrd, State.spoil_unlock (w := (k, i)) other]
      rfl
  | joining =>
      have refuses : (s.spoil pool memory workers).edeadlk (k, i) t = s.edeadlk (k, i) t := by
        cases t <;> rfl
      simp only [_destroyPolThrd, pts, refuses]
      cases (s.pts (k, i)).place with
      | exited => rfl
      | _ =>
          simp only
          split <;> rfl

theorem clTrpoPost_spoil {malloc : Bool} {place : Posting φ δ} (unlisted : pool ∉ s.gLiPols)
    (other : ∀ k, place.pool = some k → k ≠ pool)
    : clTrpoPost (s.spoil pool memory workers) t malloc place
      = (clTrpoPost s t malloc place).map (State.spoil · pool memory workers) := by
  cases place with
  | locking request => exact State.spoil_lockPols
  | finding request =>
      simp only [clTrpoPost, State.spoil_find unlisted]
      cases s.find request.id <;> rfl
  | scanning request k i min pt =>
      have other : k ≠ pool := other k rfl
      simp only [clTrpoPost, State.spoil_pools other]
      split
      · exact State.spoil_lock other fun _ => rfl
      · rfl
  | measuring request k i min pt =>
      have pts : (s.spoil pool memory workers).pts (k, i) = s.pts (k, i) :=
        State.spoil_pts (other k rfl)
      simp only [clTrpoPost, pts]
      rfl
  | measured request k i min pt stop =>
      simp only [clTrpoPost, State.spoil_unlock (w := (k, i)) (other k rfl)]
      rfl
  | selected request k pt =>
      cases malloc with
      | false => rfl
      | true =>
          have adds : (s.spoil pool memory workers).addNode k
              = (s.addNode k).spoil pool memory workers := by
            rw [State.addNode, State.addNode, State.spoil_pools (other k rfl),
              State.spoil_setPool (other k rfl)]
            rfl
          simp only [clTrpoPost, adds]
          rfl
  | filled k pt wf =>
      cases pt with
      | none => rfl
      | some pt => exact State.spoil_lock (other k rfl) fun _ => rfl
  | adding k pt wf =>
      have links : (s.spoil pool memory workers).link (k, pt) wf
          = (s.link (k, pt) wf).spoil pool memory workers := by
        rw [State.link, State.link, State.spoil_pts (other k rfl),
          ← State.spoil_setPt (other k rfl)]
        rfl
      simp only [clTrpoPost, links]
      rfl
  | linked k pt =>
      simp only [clTrpoPost, State.spoil_semPost (w := (k, pt)) (other k rfl)]
      rfl
  | signalled k pt =>
      simp only [clTrpoPost, State.spoil_unlock (w := (k, pt)) (other k rfl)]
      rfl

theorem State.spoil_enter {call : Call φ δ}
    : (s.spoil pool memory workers).enter t call = (s.enter t call).spoil pool memory workers := by
  have up : (s.spoil pool memory workers).gInit = s.gInit := rfl
  cases call with
  | init | destroy id | deinit => rfl
  | create amount =>
      rw [State.enter, State.enter, up]
      split <;> rfl
  | post request =>
      rw [State.enter, State.enter, up]
      split <;> rfl

theorem proceed_spoil (guarded : Guarded s) (custody : Custody s) (gone : pool ∈ s.released)
    {nprocs : Nat} {malloc : Bool}
    : (s.spoil pool memory workers).proceed nprocs t malloc
      = (s.proceed nprocs t malloc).map (State.spoil · pool memory workers) := by
  have popped : pool ∈ s.popped := (guarded.released pool gone).1
  have unlisted : pool ∉ s.gLiPols := fun listed => (guarded.listed pool listed).2 popped
  have callers : (s.spoil pool memory workers).callers = s.callers := rfl
  have other (k : Nat) (about : (s.callers t).pool = some k) : k ≠ pool :=
    fun same => guarded.unreleased custody about (same ▸ gone)
  rw [State.proceed, State.proceed, callers]
  cases here : s.callers t with
  | outside value | leaving value => rfl
  | create place =>
      exact clTrpoCreate_spoil (guarded.popped pool popped) unlisted (here ▸ other)
  | destroy place => exact clTrpoDestroy_spoil unlisted
  | deinit place => exact clTrpoDeinit_spoil
  | tear k i place turns => exact _destroyPolThrd_spoil (other k (by rw [here]; rfl))
  | release k turns => cases turns <;> rfl
  | post place =>
      exact clTrpoPost_spoil unlisted fun k about => other k (by rw [here]; exact about)

/-- A step goes the same, whatever is in the memory of a pool that was freed once its workers had
exited.
-/
theorem step_spoil (guarded : Guarded s) (custody : Custody s) (gone : pool ∈ s.released)
    (exited : ∀ i < (s.pools pool).amt, (s.pts (pool, i)).place = .exited) {nprocs : Nat}
    (action : Action θ φ δ)
    : step nprocs (s.spoil pool memory workers) action
      = (step nprocs s action).map (State.spoil · pool memory workers) := by
  have ended : (s.spoil pool memory workers).ended = s.ended := rfl
  have callers : (s.spoil pool memory workers).callers = s.callers := rfl
  unfold step
  rw [ended]
  split
  · rfl
  · cases action with
    | call t call =>
        have may : (s.spoil pool memory workers).calls t = s.calls t := by
          cases t with
          | app t => rfl
          | worker w => rw [State.calls, State.calls, State.spoil_place]
        simp only [callers, may, State.spoil_enter]
        cases s.callers t with
        | outside value =>
            simp only
            split <;> rfl
        | _ => rfl
    | proceed t malloc => exact proceed_spoil guarded custody gone
    | work w =>
        rcases eq_or_ne w.1 pool with rfl | other
        · -- the workers of the pool have left
          have idle (u : State θ φ δ) (same : (u.pts w).place = (s.pts w).place)
              : _workerThread u w = none := by
            rcases eq_or_ne (s.pts w).place .absent with absent | present
            · simp only [_workerThread, same, absent]
            · simp only [_workerThread, same, exited w.2 (custody.bounded w present)]
          change _workerThread _ w = (_workerThread s w).map _
          rw [idle _ State.spoil_place, idle s rfl]
          rfl
        · exact _workerThread_spoil other

theorem step_released {nprocs : Nat} {action : Action θ φ δ}
    (stepped : step nprocs s action = some s')
    : s.released ⊆ s'.released := by
  rcases step_passes stepped with ⟨w, work⟩ | ⟨t, passes⟩
  · rw [work.frame.released]
    exact List.Subset.refl _
  · exact passes.released

-----------------------------------------------------------------------------------------
-- Runs
-----------------------------------------------------------------------------------------

/-- In every run no pool is freed twice, and each pool taken from the list was freed or is in the
hands of exactly one thread, which has not freed it. And if no worker of a freed pool was refused by
`pthread_join`, then whatever the memory of the pool and its workers is overwritten with, everything
that may happen later happens just the same, and leaves that memory as it is.
-/
theorem freed_pools_unused {nprocs : Nat} {actions : List (Action θ φ δ)} {s : State θ φ δ}
    (ran : Transition.run (step nprocs) State.initial actions = some s)
    : s.released.Nodup
      ∧ (∀ pool,
          pool ∈ s.popped
            ↔ pool ∈ s.released ∨ ∃! t, (s.callers t).takes = some pool)
      ∧ (∀ t pool, (s.callers t).takes = some pool → pool ∉ s.released)
      ∧ ∀ pool ∈ s.released, (∀ i, (pool, i) ∉ s.unjoined)
        → ∀ memory workers later,
          Transition.run (step nprocs) (s.spoil pool memory workers) later
            = (Transition.run (step nprocs) s later).map
                (State.spoil · pool memory workers) := by
  have preserved {u u' : State θ φ δ} {action : Action θ φ δ} (inv : Guarded u ∧ Custody u)
      (stepped : step nprocs u action = some u')
      : Guarded u' ∧ Custody u' :=
    ⟨inv.1.step stepped, inv.2.step inv.1 stepped⟩
  obtain ⟨guarded, custody⟩ :=
    Transition.run_invariant preserved ⟨guarded_initial, custody_initial⟩ ran
  refine ⟨custody.once, fun pool => ⟨fun popped => ?_, ?_⟩, custody.unreleased, ?_⟩
  · rcases custody.held pool popped with released | ⟨t, takes⟩
    · exact Or.inl released
    · exact Or.inr ⟨t, takes, fun t' takes' => custody.alone t t' pool takes takes'⟩
  · rintro (released | ⟨t, takes, _⟩)
    · exact (guarded.released pool released).1
    · exact guarded.taken takes
  · intro pool gone waited memory workers later
    have exited (i : Nat) (below : i < (s.pools pool).amt)
        : (s.pts (pool, i)).place = .exited :=
      ((guarded.released pool gone).2 i below).resolve_right (waited i)
    have preserved' {u u' : State θ φ δ} {action : Action θ φ δ}
        (inv : Guarded u ∧ Custody u ∧ pool ∈ u.released
          ∧ ∀ i < (u.pools pool).amt, (u.pts (pool, i)).place = .exited)
        (stepped : step nprocs u action = some u')
        : Guarded u' ∧ Custody u' ∧ pool ∈ u'.released
          ∧ ∀ i < (u'.pools pool).amt, (u'.pts (pool, i)).place = .exited := by
      obtain ⟨guarded, custody, gone, exited⟩ := inv
      have popped := (guarded.released pool gone).1
      have ext := step_extends guarded stepped
      refine ⟨guarded.step stepped, custody.step guarded stepped, step_released stepped gone, ?_⟩
      rw [ext.amt pool (guarded.popped pool popped)]
      exact fun i below => ext.exited (pool, i) popped (exited i below)
    exact Transition.run_commutes (State.spoil · pool memory workers) preserved'
      (fun action inv => step_spoil inv.1 inv.2.1 inv.2.2.1 inv.2.2.2 action)
      ⟨guarded, custody, gone, exited⟩ later

end

/-- After two jobs the pool was destroyed; whatever is written over it, another can be created. -/
theorem freed_pools_unused_again
    : let s := (Transition.run (step 1) State.initial
        (twoJobs ++ working (0, 0) 22 ++ destroyed 5)).get (by decide)
      let again : List (Action Unit Unit Unit) := calling (.app ()) (.create 1) 4
      0 ∈ s.released
      ∧ ∀ memory workers,
          (Transition.run (step 1) (s.spoil 0 memory workers) again).isSome = true := by
  intro s again
  have gone : 0 ∈ s.released := by decide
  refine ⟨gone, fun memory workers => ?_⟩
  have waited : s.unjoined = [] := by decide
  rw [(freed_pools_unused (s := s) (Option.some_get _).symm).2.2.2 0 gone
    (fun i refused => nomatch waited ▸ refused) memory workers again, Option.isSome_map]
  decide

end Libccll.Thrdpool
