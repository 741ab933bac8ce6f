import Libccll.Pool.Headcount

/-! `cl_trpo_deinit` joins the workers while it holds the lock, so a worker that waits for the lock
in the middle of its job is waited for in vain.
-/

namespace Libccll.Thrdpool

open Foundation

variable {θ φ δ : Type*}

-----------------------------------------------------------------------------------------
-- Who waits for whom
-----------------------------------------------------------------------------------------

/-- In `cl_trpo_deinit` under the lock, with the workers of the pool still to join. -/
def Caller.Dooms (listed : List Nat) (pool : Nat) : Caller φ δ → Prop
  | .deinit .sizing | .deinit (.looping _) | .release _ (some _) => pool ∈ listed
  | .tear torn _ _ (some _) => pool = torn ∨ pool ∈ listed
  | _ => False

/-- The caller is to join the worker, or has just done so. -/
def State.Dooms (s : State θ φ δ) (t : Thread θ) (w : Slot) : Prop :=
  (s.callers t).Dooms s.gLiPols w.1 ∧ w.2 < (s.pools w.1).amt

/-- `cl_trpo_deinit` holds the lock and joins a worker that waits for it. -/
def State.Deadlocked (s : State θ φ δ) : Prop :=
  ∃ t w turns,
    s.gMtxPols = some t
    ∧ s.callers t = .tear w.1 w.2 .joining (some turns)
    ∧ (s.callers (.worker w)).Locking

/-- `cl_trpo_deinit` takes the lock next. -/
def Caller.seizes : Caller φ δ → Bool
  | .deinit .locking => true
  | _ => false

/-- When `cl_trpo_deinit` takes the lock, no worker that it is to join waits for the lock; and no
such worker comes to it later on.
-/
def State.Yields (s : State θ φ δ) : Action θ φ δ → Prop
  | .call (.worker w) call => s.Asks call → ∀ t ∈ s.gMtxPols, ¬s.Dooms t w
  | .proceed t _ =>
      (s.callers t).seizes = true
      → ∀ pool ∈ s.gLiPols, ∀ i < (s.pools pool).amt, ¬(s.callers (.worker (pool, i))).Locking
  | _ => True

instance (c : Caller φ δ) : Decidable c.Locking := by
  unfold Caller.Locking
  split <;> infer_instance

instance (listed : List Nat) (pool : Nat) (c : Caller φ δ) : Decidable (c.Dooms listed pool) := by
  unfold Caller.Dooms
  split <;> infer_instance

instance (s : State θ φ δ) (call : Call φ δ) : Decidable (s.Asks call) := by
  unfold State.Asks
  split <;> infer_instance

instance (s : State θ φ δ) (t : Thread θ) (w : Slot) : Decidable (s.Dooms t w) :=
  inferInstanceAs (Decidable (_ ∧ _))

instance (s : State θ φ δ) (action : Action θ φ δ) : Decidable (s.Yields action) :=
  match action with
  | .call (.worker w) call =>
      inferInstanceAs (Decidable (s.Asks call → ∀ t ∈ s.gMtxPols, ¬s.Dooms t w))
  | .proceed t _ => inferInstanceAs (Decidable ((s.callers t).seizes = true → _))
  | .call (.app _) _ | .work _ => isTrue trivial

/-- No worker that is to be joined waits for the lock. -/
structure Clear (s : State θ φ δ) : Prop where
  free : ∀ t w, s.Dooms t w → ¬(s.callers (.worker w)).Locking
  within
    : ∀ t pool i place turns,
        s.callers t = .tear pool i place turns → place = .locking ∨ i < (s.pools pool).amt

theorem clear_initial : Clear (State.initial : State θ φ δ) where
  free _ _ dooms := dooms.1.elim
  within _ _ _ _ _ here := by cases here

variable {s s' : State θ φ δ} {t : Thread θ} {w : Slot} {c c' : Caller φ δ} {pool : Nat}

theorem Clear.not_deadlocked (clear : Clear s) : ¬s.Deadlocked := by
  rintro ⟨t, w, turns, _, here, locking⟩
  rcases clear.within t w.1 w.2 .joining (some turns) here with same | below
  · cases same
  · exact clear.free t w ⟨by rw [here]; exact Or.inl rfl, below⟩ locking

theorem Caller.Dooms.holds {listed : List Nat} (dooms : c.Dooms listed pool) : c.Holds := by
  unfold Caller.Dooms at dooms
  split at dooms
  · trivial
  · trivial
  · rfl
  · rfl
  · exact dooms.elim

/-- Fewer pools listed, fewer to join. -/
theorem Caller.Dooms.mono {listed listed' : List Nat} (dooms : c.Dooms listed' pool)
    (fewer : listed' ⊆ listed)
    : c.Dooms listed pool := by
  unfold Caller.Dooms at dooms ⊢
  split at dooms
  · exact fewer dooms
  · exact fewer dooms
  · exact fewer dooms
  · exact dooms.imp_right fun member => fewer member
  · exact dooms.elim

/-- A pool is doomed from the time that the lock is taken. -/
theorem Caller.Next.dooms (next : c.Next c') {listed : List Nat} (dooms : c'.Dooms listed pool)
    : c.Dooms listed pool
      ∨ (c = .deinit .locking ∧ pool ∈ listed)
      ∨ ∃ turns, c = .deinit (.looping (turns + 1)) ∧ c' = .tear pool 0 .locking (some turns) := by
  cases next with
  | deinitLock => exact Or.inr (Or.inl ⟨rfl, dooms⟩)
  | size | skip | release => exact Or.inl dooms
  | @take torn turns =>
      rcases dooms with rfl | member
      · exact Or.inr (Or.inr ⟨turns, rfl, rfl⟩)
      · exact Or.inl member
  | @torn torn i turns =>
      cases turns with
      | none => exact dooms.elim
      | some turns => exact Or.inl (Or.inr dooms)
  | @tearLock torn i turns | @flag torn i turns | @wake torn i turns | @tearUnlock torn i turns
  | @join torn i turns =>
      cases turns with
      | none => exact dooms.elim
      | some turns => exact Or.inl dooms
  | _ => exact dooms.elim

/-- The pool that a caller is to join workers of has been created. -/
theorem Guarded.doomed (guarded : Guarded s) (dooms : (s.callers t).Dooms s.gLiPols pool)
    : pool < s.created := by
  have sound := guarded.sound t
  unfold Caller.Dooms at dooms
  split at dooms
  · exact (guarded.listed pool dooms).1
  · exact (guarded.listed pool dooms).1
  · exact (guarded.listed pool dooms).1
  · rename_i torn i place turns here
    rw [here] at sound
    rcases dooms with rfl | member
    · exact guarded.popped pool sound.1
    · exact (guarded.listed pool member).1
  · exact dooms.elim

theorem Clear.work (clear : Clear s) (work : Work s w s') : Clear s' := by
  have frame := work.frame
  refine ⟨fun t w' dooms => ?_, fun t pool i place turns here => ?_⟩
  · rw [State.Dooms, frame.callers, frame.gLiPols, frame.amt] at dooms
    rw [frame.callers]
    exact clear.free t w' dooms
  · rw [frame.callers] at here
    rw [frame.amt]
    exact clear.within t pool i place turns here

variable [DecidableEq θ]

theorem Clear.call (clear : Clear s) (guarded : Guarded s) {call : Call φ δ}
    (yields : s.Yields (.call t call))
    : Clear (s.enter t call) := by
  obtain ⟨place, gInit, entered, kind⟩ := enter_moves s t call
  have idle : ¬place.Holds ∧ ∀ pool i torn turns, place ≠ .tear pool i torn turns := by
    rcases kind with ⟨locking, _⟩ | ⟨value, rfl⟩
    · unfold Caller.Locking at locking
      split at locking <;> first
        | exact ⟨id, fun _ _ _ _ same => by cases same⟩
        | exact locking.elim
    · exact ⟨id, fun _ _ _ _ same => by cases same⟩
  rw [entered]
  refine ⟨fun t' w dooms locking => ?_, fun t' pool i torn turns here => ?_⟩
  · change (Function.update s.callers t place t').Dooms s.gLiPols w.1 ∧ _ at dooms
    change (Function.update s.callers t place (.worker w)).Locking at locking
    rcases eq_or_ne t' t with rfl | other
    · rw [Function.update_self] at dooms
      exact idle.1 dooms.1.holds
    · rw [Function.update_of_ne other] at dooms
      rcases eq_or_ne (.worker w) t with rfl | other
      · rw [Function.update_self] at locking
        rcases kind with ⟨_, asks⟩ | ⟨value, rfl⟩
        · exact yields asks t' (guarded.holder t' dooms.1.holds) dooms
        · exact locking
      · rw [Function.update_of_ne other] at locking
        exact clear.free t' w dooms locking
  · change Function.update s.callers t place t' = _ at here
    rcases eq_or_ne t' t with rfl | other
    · rw [Function.update_self] at here
      exact absurd here (idle.2 pool i torn turns)
    · rw [Function.update_of_ne other] at here
      exact clear.within t' pool i torn turns here

/-- Only a call that creates a pool lists one. -/
theorem proceed_listed (guarded : Guarded s) {nprocs : Nat} {malloc : Bool}
    (stepped : s.proceed nprocs t malloc = some s')
    : s'.gLiPols ⊆ s.gLiPols ∨ ∃ pool i, s.callers t = .create (.threads pool i) := by
  cases proceed_turn guarded stepped with
  | pop => exact Or.inl List.erase_subset
  | @list t' pool i here =>
      obtain rfl : t' = t := (proceed_leads stepped).own fun same => by
        change Function.update s.callers t' _ t' = _ at same
        rw [Function.update_self, here] at same
        cases same
      exact Or.inr ⟨pool, i, here⟩
  | @release t' pool turns here => cases turns <;> exact Or.inl (List.Subset.refl _)
  | _ => exact Or.inl (List.Subset.refl _)

/-- The loop of `cl_trpo_deinit` takes a pool from the list. -/
theorem clTrpoDeinit_takes {turns : Nat} {turns' : Option Nat}
    (stepped : clTrpoDeinit s t (.looping (turns + 1)) = some s')
    (there : s'.callers t = .tear pool 0 .locking turns')
    : pool ∈ s.gLiPols := by
  simp only [clTrpoDeinit] at stepped
  split at stepped
  · obtain rfl := Option.some.inj stepped
    rw [State.moveTo_self] at there
    cases there
  · rename_i first rest listed
    obtain rfl := Option.some.inj stepped
    rw [State.moveTo_self] at there
    cases there
    exact listed ▸ List.mem_cons_self

theorem _destroyPolThrd_within {i : Nat} {turns : Option Nat}
    (stepped : _destroyPolThrd s t pool i turns .locking = some s')
    (there : s'.callers t = .tear pool i .flagging turns)
    : i < (s.pools pool).amt := by
  simp only [_destroyPolThrd] at stepped
  split at stepped
  · assumption
  · obtain rfl := Option.some.inj stepped
    rw [State.moveTo_self] at there
    cases there

/-- A caller in the loop of `_destroy_pol_thrd` stays within the pool. -/
theorem Clear.proceed_within (clear : Clear s) (guarded : Guarded s) {nprocs : Nat} {malloc : Bool}
    (stepped : s.proceed nprocs t malloc = some s') {t' : Thread θ} {i : Nat} {place : Teardown}
    {turns : Option Nat} (there : s'.callers t' = .tear pool i place turns)
    : place = .locking ∨ i < (s'.pools pool).amt := by
  have ext := (proceed_turn guarded stepped).extends guarded
  have leads := proceed_leads stepped
  have stays {old : Teardown} (here : s.callers t' = .tear pool i old turns)
      : (s'.pools pool).amt = (s.pools pool).amt := by
    have sound := guarded.sound t'
    rw [here] at sound
    exact ext.amt pool (guarded.popped pool sound.1)
  have kept {old : Teardown} (here : s.callers t' = .tear pool i old turns)
      (inside : old ≠ .locking)
      : i < (s'.pools pool).amt :=
    stays here ▸ (clear.within t' pool i old turns here).resolve_left inside
  rcases eq_or_ne t' t with rfl | other
  · rcases leads with same | ⟨_, next, moved⟩
    · rw [same] at there
      exact (clear.within t' pool i place turns there).imp_right fun below => stays there ▸ below
    · have arrived := there
      rw [moved, Function.update_self] at there
      subst there
      generalize here : s.callers t' = old at next
      cases next with
      | tear | take | join => exact Or.inl rfl
      | tearLock =>
          rw [State.proceed, here] at stepped
          exact Or.inr (stays here ▸ _destroyPolThrd_within stepped arrived)
      | flag | wake | tearUnlock => exact Or.inr (kept here fun same => by cases same)
  · rw [leads.others other] at there
    exact (clear.within t' pool i place turns there).imp_right fun below => stays there ▸ below

/-- Whom a caller is to join after a step, it was to join before; but for the lock being taken. -/
theorem Guarded.dooms (guarded : Guarded s) {nprocs : Nat} {malloc : Bool}
    (stepped : s.proceed nprocs t malloc = some s') {t' : Thread θ} (dooms : s'.Dooms t' w)
    : s.Dooms t' w
      ∨ (s.callers t = .deinit .locking ∧ w.1 ∈ s.gLiPols ∧ w.2 < (s.pools w.1).amt) := by
  have turn := proceed_turn guarded stepped
  have amt := (turn.extends guarded).amt w.1
  have leads := proceed_leads stepped
  obtain ⟨dooms, below⟩ := dooms
  have fewer : s'.gLiPols ⊆ s.gLiPols := by
    refine (proceed_listed guarded stepped).resolve_right fun ⟨pool, i, creating⟩ => ?_
    have holds : (s.callers t).Holds := by rw [creating]; trivial
    rcases eq_or_ne t' t with rfl | other
    · rcases leads with same | ⟨place, next, moved⟩
      · rw [same, creating] at dooms
        exact dooms
      · rw [moved, Function.update_self] at dooms
        rw [creating] at next
        cases next <;> exact dooms
    · rw [leads.others other] at dooms
      exact other (guarded.holder_unique holds dooms.holds)
  have dooms := dooms.mono fewer
  have old (doomed : (s.callers t').Dooms s.gLiPols w.1) : s.Dooms t' w :=
    ⟨doomed, amt (guarded.doomed doomed) ▸ below⟩
  rcases eq_or_ne t' t with rfl | other
  · rcases leads with same | ⟨place, next, moved⟩
    · rw [same] at dooms
      exact Or.inl (old dooms)
    · rw [moved, Function.update_self] at dooms
      rcases next.dooms dooms with doomed | ⟨here, listed⟩ | ⟨turns, here, rfl⟩
      · exact Or.inl (old doomed)
      · exact Or.inr ⟨here, listed, amt (guarded.listed _ listed).1 ▸ below⟩
      · rw [State.proceed, here] at stepped
        have there := (congrFun moved t').trans (Function.update_self t' _ _)
        exact Or.inl (old (by rw [here]; exact clTrpoDeinit_takes stepped there))
  · rw [leads.others other] at dooms
    exact Or.inl (old dooms)

theorem Clear.proceed (clear : Clear s) (guarded : Guarded s) {nprocs : Nat} {malloc : Bool}
    (yields : s.Yields (.proceed t malloc)) (stepped : s.proceed nprocs t malloc = some s')
    : Clear s' := by
  refine ⟨fun t' w dooms locking => ?_, fun t' pool i place turns there => ?_⟩
  · have locking := (proceed_leads stepped).locking locking
    rcases guarded.dooms stepped dooms with doomed | ⟨here, listed, below⟩
    · exact clear.free t' w doomed locking
    · exact yields (by rw [here]; rfl) w.1 listed w.2 below locking
  · exact clear.proceed_within guarded stepped there

theorem Clear.step (clear : Clear s) (guarded : Guarded s) {nprocs : Nat} {action : Action θ φ δ}
    (yields : s.Yields action) (stepped : step nprocs s action = some s')
    : Clear s' := by
  unfold Thrdpool.step at stepped
  split at stepped
  · cases stepped
  · cases action with
    | call t call =>
        simp only at stepped
        split at stepped
        · split at stepped
          · exact Option.some.inj stepped ▸ clear.call guarded yields
          · cases stepped
        · cases stepped
    | proceed t malloc => exact clear.proceed guarded yields stepped
    | work w => exact clear.work (_workerThread_work stepped)

-----------------------------------------------------------------------------------------
-- Runs
-----------------------------------------------------------------------------------------

/-- When no worker waits for the lock, or comes to it, while `cl_trpo_deinit` holds it and is to
join that worker, `cl_trpo_deinit` never joins a worker that waits for the lock.
-/
theorem deinit_undeadlocked {nprocs : Nat} {actions : List (Action θ φ δ)} {s : State θ φ δ}
    (ran : Transition.run (Transition.restrict State.Yields (step nprocs)) State.initial actions
      = some s)
    : ¬s.Deadlocked := by
  have preserved {s : State θ φ δ} {action : Action θ φ δ} {s' : State θ φ δ}
      (inv : Guarded s ∧ Clear s)
      (stepped : Transition.restrict State.Yields (step nprocs) s action = some s')
      : Guarded s' ∧ Clear s' := by
    obtain ⟨guarded, clear⟩ := inv
    obtain ⟨yields, stepped⟩ := Transition.restrict_eq_some_iff.mp stepped
    exact ⟨guarded.step stepped, clear.step guarded yields stepped⟩
  exact (Transition.run_invariant preserved ⟨guarded_initial, clear_initial⟩ ran).2.not_deadlocked

/-- Two pools of one worker each, of which the first executes a job. -/
def engaged : List (Action Unit Unit Unit) :=
  calling (.app ()) .init 0 ++ calling (.app ()) (.create 1) 4 ++ working (0, 0) 1
    ++ List.replicate 2 (.proceed (.app ()) true)
    ++ calling (.app ()) (.create 1) 4 ++ working (1, 0) 1
    ++ List.replicate 2 (.proceed (.app ()) true)
    ++ calling (.app ()) (.post ⟨0, some (), ()⟩) 11 ++ working (0, 0) 6

/-- The job destroys the other pool, and has given the lock back when `cl_trpo_deinit` takes it. -/
theorem deinit_undeadlocked_engaged
    : let s :=
        (Transition.run (Transition.restrict State.Yields (step 1)) State.initial
          (engaged ++ calling (.worker (0, 0)) (.destroy 1) 3
            ++ calling (.app ()) .deinit 7)).get (by decide)
      s.callers (.app ()) = .tear 0 0 .joining (some 0) ∧ ¬s.Deadlocked :=
  ⟨by rfl, deinit_undeadlocked (Option.some_get _).symm⟩

/-- What a job calls in the pool of that id: it creates pools, and destroys or posts to others. -/
def Call.Foreign (own : Int) : Call φ δ → Prop
  | .create _ => True
  | .destroy id => id ≠ own
  | .post request => request.id ≠ own
  | .init | .deinit => False

def State.Foreign (s : State θ φ δ) : Action θ φ δ → Prop
  | .call (.worker w) call => call.Foreign (s.pools w.1).id
  | _ => True

instance (own : Int) (call : Call φ δ) : Decidable (call.Foreign own) :=
  match call with
  | .create _ => isTrue trivial
  | .destroy id => inferInstanceAs (Decidable (id ≠ own))
  | .post request => inferInstanceAs (Decidable (request.id ≠ own))
  | .init | .deinit => isFalse id

instance (s : State θ φ δ) (action : Action θ φ δ) : Decidable (s.Foreign action) :=
  match action with
  | .call (.worker w) call => inferInstanceAs (Decidable (call.Foreign (s.pools w.1).id))
  | .call (.app _) _ | .proceed .. | .work _ => isTrue trivial

/-- The job does so when `cl_trpo_deinit` has come to join its worker. -/
theorem deinit_undeadlocked_late
    : ¬∀ (actions : List (Action Unit Unit Unit)) (s : State Unit Unit Unit),
        Transition.run (Transition.restrict State.Foreign (step 1)) State.initial actions = some s
        → ¬s.Deadlocked := by
  intro claim
  have free :=
    claim
      (engaged ++ calling (.app ()) .deinit 7 ++ calling (.worker (0, 0)) (.destroy 1) 0) _
      (Option.some_get (show _ = true by decide)).symm
  exact free ⟨.app (), (0, 0), 1, by decide, by rfl, by decide⟩

end Libccll.Thrdpool
