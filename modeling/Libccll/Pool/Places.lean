import Libccll.Pool.Turns

/-! The way a call takes through the library: which place follows which, said once. -/

namespace Libccll.Thrdpool

variable {θ φ δ : Type*}

/-- In `cl_trpo_post`, past the lock. -/
def Posting.Inside : Posting φ δ → Prop
  | .locking _ => False
  | _ => True

/-- Waiting for `g_mtx_pols`. -/
def Caller.Locking : Caller φ δ → Prop
  | .create (.locking _) | .destroy (.locking _) | .deinit .locking | .post (.locking _) => True
  | _ => False

/-- The place that follows. -/
inductive Caller.Next : Caller φ δ → Caller φ δ → Prop where
  | createLock {amount} : Next (.create (.locking amount)) (.create (.counting amount))
  | refuse {amount value} : Next (.create (.counting amount)) (.leaving value)
  | add {amount pool} : Next (.create (.counting amount)) (.create (.threads pool 0))
  | start {pool i} : Next (.create (.threads pool i)) (.create (.threads pool (i + 1)))
  | list {pool i} : Next (.create (.threads pool i)) (.create (.spinning pool))
  | spin {pool value} : Next (.create (.spinning pool)) (.leaving value)
  | destroyLock {id} : Next (.destroy (.locking id)) (.destroy (.popping id))
  | pop {id pool} : Next (.destroy (.popping id)) (.destroy (.popped pool))
  | miss : Next (.destroy (.popped none)) (.outside .void)
  | tear {pool} : Next (.destroy (.popped (some pool))) (.tear pool 0 .locking none)
  | deinitLock : Next (.deinit .locking) (.deinit .sizing)
  | size {turns} : Next (.deinit .sizing) (.deinit (.looping turns))
  | skip {turns} : Next (.deinit (.looping (turns + 1))) (.deinit (.looping turns))
  | take {pool turns} : Next (.deinit (.looping (turns + 1))) (.tear pool 0 .locking (some turns))
  | unlock : Next (.deinit (.looping 0)) (.deinit .destroying)
  | deinit : Next (.deinit .destroying) (.outside .void)
  | tearLock {pool i turns} : Next (.tear pool i .locking turns) (.tear pool i .flagging turns)
  | torn {pool i turns} : Next (.tear pool i .locking turns) (.release pool turns)
  | flag {pool i turns} : Next (.tear pool i .flagging turns) (.tear pool i .waking turns)
  | wake {pool i turns} : Next (.tear pool i .waking turns) (.tear pool i .unlocking turns)
  | tearUnlock {pool i turns} : Next (.tear pool i .unlocking turns) (.tear pool i .joining turns)
  | join {pool i turns} : Next (.tear pool i .joining turns) (.tear pool (i + 1) .locking turns)
  | destroy {pool} : Next (.release pool none) (.outside .void)
  | release {pool turns} : Next (.release pool (some turns)) (.deinit (.looping turns))
  | post {place place'} (inside : place'.Inside) : Next (.post place) (.post place')
  | posted {place value} : Next (.post place) (.leaving value)
  | leave {value} : Next (.leaving value) (.outside value)

variable {s s' : State θ φ δ} {t : Thread θ} {place : Caller φ δ}

/-- Only a new call waits for the lock. -/
theorem Caller.Next.unlocking {c : Caller φ δ} (next : c.Next place) : ¬place.Locking := by
  cases next with
  | @post _ place' inside => cases place' <;> first | exact id | exact fun _ => inside
  | _ => exact id

variable [DecidableEq θ]

/-- The thread moves on, unless the process stops. -/
def Leads (s : State θ φ δ) (t : Thread θ) (s' : State θ φ δ) : Prop :=
  s'.callers = s.callers
  ∨ ∃ place, (s.callers t).Next place ∧ s'.callers = Function.update s.callers t place

theorem Leads.move (callers : s'.callers = Function.update s.callers t place)
    (next : (s.callers t).Next place)
    : Leads s t s' :=
  Or.inr ⟨place, next, callers⟩

theorem Leads.others (leads : Leads s t s') {t' : Thread θ} (other : t' ≠ t)
    : s'.callers t' = s.callers t' := by
  rcases leads with same | ⟨place, _, moved⟩
  · rw [same]
  · rw [moved, Function.update_of_ne other]

theorem Leads.own (leads : Leads s t s') {t' : Thread θ} (moved : s'.callers t' ≠ s.callers t')
    : t' = t :=
  by_contra fun other => moved (leads.others other)

/-- No step but a new call makes a thread wait for the lock. -/
theorem Leads.locking (leads : Leads s t s') {t' : Thread θ} (locking : (s'.callers t').Locking)
    : (s.callers t').Locking := by
  rcases leads with same | ⟨place, next, moved⟩
  · rwa [same] at locking
  · rw [moved] at locking
    rcases eq_or_ne t' t with rfl | other
    · rw [Function.update_self] at locking
      exact absurd locking next.unlocking
    · rwa [Function.update_of_ne other] at locking

theorem lockPols_leads (next : (s.callers t).Next place) (locked : s.lockPols t place = some s')
    : Leads s t s' := by
  unfold State.lockPols at locked
  split at locked
  · exact Or.inl (Option.some.inj locked ▸ rfl)
  · split at locked
    · exact .move (Option.some.inj locked ▸ rfl) next
    · cases locked

theorem lock_leads {w : Slot} (next : (s.callers t).Next place)
    (locked : (s.lock t w).map (State.moveTo · t place) = some s')
    : Leads s t s' := by
  obtain ⟨_, taken, rfl⟩ := Option.map_eq_some_iff.mp locked
  rw [State.lock_eq_some taken]
  exact .move rfl next

theorem clTrpoCreate_leads {nprocs : Nat} {malloc : Bool} {place : Creating}
    (here : s.callers t = .create place)
    (stepped : clTrpoCreate nprocs s t malloc place = some s')
    : Leads s t s' := by
  cases place with
  | locking amount => exact lockPols_leads (here ▸ .createLock) stepped
  | counting amount =>
      have refused (value : Value) : Leads s t (s.moveTo t (.leaving value)) :=
        .move rfl (here ▸ .refuse)
      simp only [clTrpoCreate] at stepped
      split at stepped
      · exact Option.some.inj stepped ▸ refused _
      · split at stepped
        · exact Option.some.inj stepped ▸ refused _
        · split at stepped
          · exact Option.some.inj stepped ▸ refused _
          · split at stepped
            · exact Option.some.inj stepped ▸ .move rfl (here ▸ .add)
            · exact Option.some.inj stepped ▸ Or.inl rfl
  | threads pool i =>
      simp only [clTrpoCreate] at stepped
      split at stepped
      · split at stepped
        · exact Option.some.inj stepped ▸ .move rfl (here ▸ .start)
        · exact Option.some.inj stepped ▸ Or.inl rfl
      · exact Option.some.inj stepped ▸ .move rfl (here ▸ .list)
  | spinning pool =>
      simp only [clTrpoCreate] at stepped
      split at stepped
      · exact Option.some.inj stepped ▸ .move rfl (here ▸ .spin)
      · cases stepped

theorem clTrpoDestroy_leads {place : Destroying} (here : s.callers t = .destroy place)
    (stepped : clTrpoDestroy s t place = some s')
    : Leads s t s' := by
  cases place with
  | locking id => exact lockPols_leads (here ▸ .destroyLock) stepped
  | popping id =>
      simp only [clTrpoDestroy] at stepped
      split at stepped
      · exact Option.some.inj stepped ▸ .move rfl (here ▸ .pop)
      · exact Option.some.inj stepped ▸ .move rfl (here ▸ .pop)
  | popped pool =>
      cases pool with
      | none => exact Option.some.inj stepped ▸ .move rfl (here ▸ .miss)
      | some pool => exact Option.some.inj stepped ▸ .move rfl (here ▸ .tear)

theorem clTrpoDeinit_leads {place : Deiniting} (here : s.callers t = .deinit place)
    (stepped : clTrpoDeinit s t place = some s')
    : Leads s t s' := by
  cases place with
  | locking => exact lockPols_leads (here ▸ .deinitLock) stepped
  | sizing => exact Option.some.inj stepped ▸ .move rfl (here ▸ .size)
  | looping turns =>
      cases turns with
      | zero => exact Option.some.inj stepped ▸ .move rfl (here ▸ .unlock)
      | succ turns =>
          simp only [clTrpoDeinit] at stepped
          split at stepped
          · exact Option.some.inj stepped ▸ .move rfl (here ▸ .skip)
          · exact Option.some.inj stepped ▸ .move rfl (here ▸ .take)
  | destroying => exact Option.some.inj stepped ▸ .move rfl (here ▸ .deinit)

theorem _destroyPolThrd_leads {pool i : Nat} {turns : Option Nat} {place : Teardown}
    (here : s.callers t = .tear pool i place turns)
    (stepped : _destroyPolThrd s t pool i turns place = some s')
    : Leads s t s' := by
  cases place with
  | locking =>
      simp only [_destroyPolThrd] at stepped
      split at stepped
      · exact lock_leads (here ▸ .tearLock) stepped
      · exact Option.some.inj stepped ▸ .move rfl (here ▸ .torn)
  | flagging => exact Option.some.inj stepped ▸ .move rfl (here ▸ .flag)
  | waking => exact Option.some.inj stepped ▸ .move rfl (here ▸ .wake)
  | unlocking => exact Option.some.inj stepped ▸ .move rfl (here ▸ .tearUnlock)
  | joining =>
      simp only [_destroyPolThrd] at stepped
      split at stepped
      · exact Option.some.inj stepped ▸ .move rfl (here ▸ .join)
      · split at stepped
        · exact Option.some.inj stepped ▸ .move rfl (here ▸ .join)
        · cases stepped

theorem clTrpoPost_leads {malloc : Bool} {place : Posting φ δ}
    (here : s.callers t = .post place) (stepped : clTrpoPost s t malloc place = some s')
    : Leads s t s' := by
  have next {place' : Posting φ δ} (inside : place'.Inside)
      : (s.callers t).Next (.post place') :=
    here ▸ .post inside
  cases place with
  | locking request => exact lockPols_leads (here ▸ .post trivial) stepped
  | finding request =>
      simp only [clTrpoPost] at stepped
      split at stepped
      · exact Option.some.inj stepped ▸ .move rfl (here ▸ .posted)
      · exact Option.some.inj stepped ▸ .move rfl (next trivial)
  | scanning request pool i min pt =>
      simp only [clTrpoPost] at stepped
      split at stepped
      · exact lock_leads (here ▸ .post trivial) stepped
      · exact Option.some.inj stepped ▸ .move rfl (next trivial)
  | measuring request pool i min pt =>
      simp only [clTrpoPost] at stepped
      refine Option.some.inj stepped ▸ .move rfl (next ?_)
      split
      · trivial
      · split <;> trivial
  | measured request pool i min pt stop =>
      simp only [clTrpoPost] at stepped
      refine Option.some.inj stepped ▸ .move rfl (next ?_)
      split <;> trivial
  | selected request pool pt =>
      simp only [clTrpoPost] at stepped
      split at stepped
      · exact Option.some.inj stepped ▸ .move rfl (next trivial)
      · exact Option.some.inj stepped ▸ Or.inl rfl
  | filled pool pt wf =>
      cases pt with
      | none => exact Option.some.inj stepped ▸ Or.inl rfl
      | some pt => exact lock_leads (here ▸ .post trivial) stepped
  | adding pool pt wf => exact Option.some.inj stepped ▸ .move rfl (next trivial)
  | linked pool pt => exact Option.some.inj stepped ▸ .move rfl (next trivial)
  | signalled pool pt => exact Option.some.inj stepped ▸ .move rfl (here ▸ .posted)

/-- A call moves nothing but its own thread, and that to the next place. -/
theorem proceed_leads {nprocs : Nat} {malloc : Bool}
    (stepped : s.proceed nprocs t malloc = some s')
    : Leads s t s' := by
  simp only [State.proceed] at stepped
  split at stepped
  · cases stepped
  · exact clTrpoCreate_leads ‹_› stepped
  · exact clTrpoDestroy_leads ‹_› stepped
  · exact clTrpoDeinit_leads ‹_› stepped
  · exact _destroyPolThrd_leads ‹_› stepped
  · rename_i pool turns here
    cases turns with
    | none => exact Option.some.inj stepped ▸ .move rfl (here ▸ .destroy)
    | some turns => exact Option.some.inj stepped ▸ .move rfl (here ▸ .release)
  · exact clTrpoPost_leads ‹_› stepped
  · rename_i here
    exact Option.some.inj stepped ▸ .move rfl (here ▸ .leave)

/-- The call comes as far as the lock; that of `cl_trpo_destroy` always does. -/
def State.Asks (s : State θ φ δ) : Call φ δ → Prop
  | .init => False
  | .create amount => s.gInit = true ∧ 1 ≤ amount ∧ amount ≤ 256
  | .destroy _ | .deinit => True
  | .post _ => s.gInit = true

/-- A new call waits for the lock, or is back at once. -/
theorem enter_moves (s : State θ φ δ) (t : Thread θ) (call : Call φ δ)
    : ∃ place gInit,
        s.enter t call = { s.moveTo t place with gInit }
        ∧ (place.Locking ∧ s.Asks call ∨ ∃ value, place = .outside value) := by
  cases call with
  | init => exact ⟨_, _, rfl, Or.inr ⟨_, rfl⟩⟩
  | destroy id | deinit => exact ⟨_, _, rfl, Or.inl ⟨trivial, trivial⟩⟩
  | create amount =>
      rw [State.enter]
      split
      · exact ⟨_, _, rfl, Or.inr ⟨_, rfl⟩⟩
      · rename_i within
        refine ⟨_, _, rfl, Or.inl ⟨trivial, ?_⟩⟩
        rw [not_or, not_or, Bool.not_eq_false] at within
        exact ⟨within.1, Int.not_lt.mp within.2.1, Int.not_lt.mp within.2.2⟩
  | post request =>
      rw [State.enter]
      split
      · exact ⟨_, _, rfl, Or.inr ⟨_, rfl⟩⟩
      · exact ⟨_, _, rfl, Or.inl ⟨trivial, eq_true_of_ne_false ‹_›⟩⟩

theorem enter_others {call : Call φ δ} {t' : Thread θ} (other : t' ≠ t)
    : (s.enter t call).callers t' = s.callers t' := by
  obtain ⟨place, gInit, entered, _⟩ := enter_moves s t call
  rw [entered]
  exact Function.update_of_ne other ..

end Libccll.Thrdpool
