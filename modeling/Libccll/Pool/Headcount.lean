import Mathlib.Algebra.GroupWithZero.Nat
import Mathlib.Algebra.Order.BigOperators.Group.List
import Mathlib.Algebra.Order.Group.Nat
import Mathlib.Data.List.Perm.Subperm
import Libccll.Pool.Jobs
import Libccll.Pool.Places

/-! How many workers run at a time. A pool that is taken from the list is no longer counted, though
its workers run on until they are joined.
-/

namespace Libccll.Thrdpool

open Foundation

variable {θ φ δ : Type*}

-----------------------------------------------------------------------------------------
-- Workers that run
-----------------------------------------------------------------------------------------

/-- Created, and not yet exited. -/
def Worker.live : Worker φ δ → Bool
  | .absent | .exited => false
  | _ => true

/-- Not yet exited, whether created or not. -/
def Worker.staying : Worker φ δ → Bool
  | .exited => false
  | _ => true

/-- The workers of the pool that run. -/
def State.running (s : State θ φ δ) (pool : Nat) : Nat :=
  (List.range (s.pools pool).amt).countP fun i => (s.pts (pool, i)).place.live

/-- The workers of the pool that run or are yet to. -/
def State.staying (s : State θ φ δ) (pool : Nat) : Nat :=
  (List.range (s.pools pool).amt).countP fun i => (s.pts (pool, i)).place.staying

/-- All the workers that have been created and have not exited. -/
def State.live (s : State θ φ δ) : Nat := ((List.range s.created).map s.running).sum

/-- The workers that `cl_trpo_create` no longer counts, for their pool has left the list. -/
def State.draining (s : State θ φ δ) : Nat := (s.popped.map s.staying).sum

/-- The amount that a call is about to check against the limit. -/
def Caller.counts : Caller φ δ → Option Nat
  | .create (.counting amount) => some amount
  | _ => none

/-- A call that passes the limit leaves room for the workers it does not count. -/
def State.Fits (nprocs : Nat) (s : State θ φ δ) : Action θ φ δ → Prop
  | .proceed t _ =>
      ∀ amount ∈ (s.callers t).counts,
        _getCurThrdCnt s + amount ≤ nprocs <<< 2
        → _getCurThrdCnt s + s.draining + amount ≤ nprocs <<< 2
  | _ => True

instance (nprocs : Nat) (s : State θ φ δ) (action : Action θ φ δ)
    : Decidable (s.Fits nprocs action) :=
  match action with
  | .proceed t _ => inferInstanceAs (Decidable (∀ amount ∈ (s.callers t).counts, _ → _))
  | .call .. | .work _ => isTrue trivial

/-- The workers that run or are yet to are within the limit. -/
structure Capped (nprocs : Nat) (s : State θ φ δ) : Prop where
  limited : ((List.range s.created).map s.staying).sum ≤ nprocs <<< 2
  known
    : ∀ pool < s.created,
        (pool ∈ s.gLiPols ∨ pool ∈ s.popped) ∨ ∃ t i, s.callers t = .create (.threads pool i)

variable {s s' : State θ φ δ} {nprocs : Nat}

theorem Worker.staying_iff {place : Worker φ δ} : place.staying = true ↔ place ≠ .exited := by
  cases place <;> simp [Worker.staying]

theorem State.running_le {pool : Nat} : s.running pool ≤ s.staying pool := by
  refine List.countP_mono_left fun i _ live => Worker.staying_iff.mpr fun exited => ?_
  simp only [exited, Worker.live, Bool.false_eq_true] at live

theorem State.staying_le_amt {pool : Nat} : s.staying pool ≤ (s.pools pool).amt := by
  have least := List.countP_le_length
    (l := List.range (s.pools pool).amt) (p := fun i => (s.pts (pool, i)).place.staying)
  rwa [List.length_range] at least

theorem Capped.live_le (capped : Capped nprocs s) : s.live ≤ nprocs <<< 2 :=
  Nat.le_trans (List.sum_le_sum fun _ _ => State.running_le) capped.limited

/-- Only workers of a pool that has left the list have exited. -/
theorem Guarded.gone (guarded : Guarded s) {w : Slot} (exited : (s.pts w).place = .exited)
    : w.1 ∈ s.popped :=
  guarded.exiting w (guarded.leaving w (by rw [exited]; trivial))

/-- A worker that has exited does not come back. -/
theorem State.staying_le (guarded : Guarded s) (ext : Extends s s') {pool : Nat}
    (old : pool < s.created)
    : s'.staying pool ≤ s.staying pool := by
  rw [State.staying, ext.amt pool old]
  refine List.countP_mono_left fun i _ staying => ?_
  rw [Worker.staying_iff] at staying ⊢
  exact fun exited => staying (ext.exited _ (guarded.gone exited) exited)

/-- While a call counts the workers, every pool has been listed. -/
theorem Capped.settled (capped : Capped nprocs s) (guarded : Guarded s) {t : Thread θ}
    {amount : Nat} (here : s.callers t = .create (.counting amount)) {pool : Nat}
    (old : pool < s.created)
    : pool ∈ s.gLiPols ∨ pool ∈ s.popped := by
  rcases capped.known pool old with settled | ⟨t', i, creating⟩
  · exact settled
  · have holds : (s.callers t).Holds := by rw [here]; trivial
    have holds' : (s.callers t').Holds := by rw [creating]; trivial
    obtain rfl := guarded.holder_unique holds holds'
    rw [here] at creating
    cases creating

/-- All the pools there are, counted and not counted. -/
theorem Capped.counted (capped : Capped nprocs s) (guarded : Guarded s) {t : Thread θ}
    {amount : Nat} (here : s.callers t = .create (.counting amount))
    : ((List.range s.created).map s.staying).sum ≤ _getCurThrdCnt s + s.draining := by
  have inside : List.range s.created ⊆ s.gLiPols ++ s.popped := fun pool member =>
    List.mem_append.mpr (capped.settled guarded here (List.mem_range.mp member))
  obtain ⟨pools, perm, sublist⟩ := List.subperm_of_subset List.nodup_range inside
  calc ((List.range s.created).map s.staying).sum
      = (pools.map s.staying).sum := ((perm.map s.staying).sum_eq).symm
    _ ≤ ((s.gLiPols ++ s.popped).map s.staying).sum :=
        (sublist.map s.staying).sum_le_sum fun _ _ => Nat.zero_le _
    _ = (s.gLiPols.map s.staying).sum + s.draining := by
        rw [List.map_append, List.sum_append, State.draining]
    _ ≤ _getCurThrdCnt s + s.draining :=
        Nat.add_le_add_right (List.sum_le_sum fun _ _ => State.staying_le_amt) _

variable [DecidableEq θ]

theorem Extends.followPt {t : Thread θ} {w : Slot} {pt : PolThrd θ φ δ} {place : Caller φ δ}
    {readFreed : Bool} (exit : (s.pts w).exit = true → pt.exit = true)
    (here : pt.place = (s.pts w).place)
    : Extends s ({ s.setPt w pt with readFreed }.moveTo t place) :=
  have ext : Extends s { s.setPt w pt with readFreed } := .setPt (fun _ => exit) fun _ => here.trans
  { ext with }

theorem Turn.extends (guarded : Guarded s) (turn : Turn s s') : Extends s s' := by
  cases turn with
  | stop | move | measure | list => exact { Extends.refl s with }
  | relock | wake | signal | link => exact .followPt (fun exit => exit) (by rfl)
  | pop => exact { Extends.pop with }
  | create => exact { Extends.addPool guarded.toRegistered with }
  | @start t pool i here =>
      have sound := guarded.sound t
      rw [here] at sound
      have ext : Extends s (s.workTo (pool, i) .started) :=
        .setPt (fun popped => absurd popped sound.2.2.1) fun popped => absurd popped sound.2.2.1
      exact { ext with }
  | flag => exact .followPt (fun _ => rfl) (by rfl)
  | refused => exact { Extends.refl s with unjoined := List.subset_append_left _ _ }
  | @release t pool turns here => cases turns <;> exact { Extends.refl s with }
  | @allocate t request pool pt here =>
      refine { Extends.refl s with amt := fun k _ => ?_ }
      rcases eq_or_ne k pool with rfl | other
      · simp [State.addNode, State.moveTo]
      · simp [State.addNode, State.moveTo, other]

theorem step_extends (guarded : Guarded s) {action : Action θ φ δ}
    (stepped : step nprocs s action = some s')
    : Extends s s' := by
  rcases step_cases guarded stepped with ⟨w, _, work⟩ | turn
  · exact work.frame.extends
  · exact turn.extends guarded

/-- A pool leaves the list only to be torn down. -/
theorem Turn.settled (turn : Turn s s') {pool : Nat} (settled : pool ∈ s.gLiPols ∨ pool ∈ s.popped)
    : pool ∈ s'.gLiPols ∨ pool ∈ s'.popped := by
  cases turn with
  | @pop t place popped holds listed sound cargo cargo' =>
      rcases settled with member | member
      · rcases eq_or_ne pool popped with rfl | other
        · exact Or.inr (List.mem_append_right _ (List.mem_singleton_self pool))
        · exact Or.inl ((List.mem_erase_of_ne other).mpr member)
      · exact Or.inr (List.mem_append_left _ member)
  | list => exact settled.imp_left (List.mem_append_left _)
  | @release t pool turns here => cases turns <;> exact settled
  | _ => exact settled

/-- A pool that a call is creating is still being created after a step, or listed. -/
theorem step_creating {action : Action θ φ δ} (stepped : step nprocs s action = some s')
    {t : Thread θ} {pool i : Nat} (here : s.callers t = .create (.threads pool i))
    : pool ∈ s'.gLiPols ∨ ∃ i, s'.callers t = .create (.threads pool i) := by
  unfold step at stepped
  split at stepped
  · cases stepped
  · cases action with
    | call t' call =>
        simp only at stepped
        split at stepped
        · rename_i value outside
          split at stepped
          · have other : t ≠ t' := fun same => by
              rw [same, outside] at here
              cases here
            exact Or.inr ⟨i, Option.some.inj stepped ▸ (enter_others other).trans here⟩
          · cases stepped
        · cases stepped
    | proceed t' malloc =>
        rcases eq_or_ne t t' with rfl | other
        · simp only [State.proceed, here, clTrpoCreate] at stepped
          split at stepped
          · split at stepped
            · exact Or.inr ⟨i + 1, Option.some.inj stepped ▸ State.moveTo_self⟩
            · exact Or.inr ⟨i, Option.some.inj stepped ▸ here⟩
          · refine Or.inl (Option.some.inj stepped ▸ ?_)
            exact List.mem_append_right _ (List.mem_singleton_self pool)
        · exact Or.inr ⟨i, ((proceed_leads stepped).others other).trans here⟩
    | work w =>
        have frame := (_workerThread_work stepped).frame
        exact Or.inr ⟨i, frame.callers ▸ here⟩

theorem enter_created {t : Thread θ} {call : Call φ δ} : (s.enter t call).created = s.created := by
  obtain ⟨place, gInit, entered, _⟩ := enter_moves s t call
  rw [entered]
  rfl

theorem clTrpoCreate_adds {t : Thread θ} {malloc : Bool} {amount : Nat}
    (stepped : clTrpoCreate nprocs s t malloc (.counting amount) = some s')
    : s'.created = s.created
      ∨ _getCurThrdCnt s + amount ≤ nprocs <<< 2
        ∧ ∃ id, s' = (s.addPool id amount).moveTo t (.create (.threads s.created 0)) := by
  simp only [clTrpoCreate] at stepped
  split at stepped
  · exact Or.inl (Option.some.inj stepped ▸ rfl)
  · split at stepped
    · exact Or.inl (Option.some.inj stepped ▸ rfl)
    · rename_i within
      split at stepped
      · exact Or.inl (Option.some.inj stepped ▸ rfl)
      · rename_i id _
        split at stepped
        · exact Or.inr ⟨Nat.le_of_not_lt within, id, (Option.some.inj stepped).symm⟩
        · exact Or.inl (Option.some.inj stepped ▸ rfl)

/-- Only a call that passes the limit adds a pool. -/
theorem step_adds (guarded : Guarded s) {action : Action θ φ δ}
    (stepped : step nprocs s action = some s')
    : s'.created = s.created
      ∨ ∃ t malloc amount,
          action = .proceed t malloc
          ∧ s.callers t = .create (.counting amount)
          ∧ _getCurThrdCnt s + amount ≤ nprocs <<< 2
          ∧ ∃ id, s' = (s.addPool id amount).moveTo t (.create (.threads s.created 0)) := by
  unfold step at stepped
  split at stepped
  · cases stepped
  · cases action with
    | call t call =>
        simp only at stepped
        split at stepped
        · split at stepped
          · exact Or.inl (Option.some.inj stepped ▸ enter_created)
          · cases stepped
        · cases stepped
    | work w => exact Or.inl (_workerThread_work stepped).frame.created
    | proceed t malloc =>
        simp only at stepped
        cases proceed_turn guarded stepped with
        | @create t' amount id here =>
            obtain rfl : t' = t := (proceed_leads stepped).own fun same => by
              rw [State.moveTo_self, here] at same
              cases same
            simp only [State.proceed, here] at stepped
            rcases clTrpoCreate_adds stepped with same | ⟨within, added⟩
            · exact Or.inl same
            · exact Or.inr ⟨t', malloc, amount, rfl, here, within, added⟩
        | @release t' pool turns here => cases turns <;> exact Or.inl rfl
        | _ => exact Or.inl rfl

theorem Capped.step (capped : Capped nprocs s) (guarded : Guarded s) {action : Action θ φ δ}
    (fits : s.Fits nprocs action) (stepped : step nprocs s action = some s')
    : Capped nprocs s' := by
  have ext := step_extends guarded stepped
  have fewer : ((List.range s.created).map s'.staying).sum
      ≤ ((List.range s.created).map s.staying).sum :=
    List.sum_le_sum fun pool member => State.staying_le guarded ext (List.mem_range.mp member)
  have known (pool : Nat) (old : pool < s.created)
      : (pool ∈ s'.gLiPols ∨ pool ∈ s'.popped)
        ∨ ∃ t i, s'.callers t = .create (.threads pool i) := by
    rcases capped.known pool old with settled | ⟨t, i, here⟩
    · rcases step_cases guarded stepped with ⟨w, _, work⟩ | turn
      · rw [work.frame.gLiPols, work.frame.popped]
        exact Or.inl settled
      · exact Or.inl (turn.settled settled)
    · rcases step_creating stepped here with listed | creating
      · exact Or.inl (Or.inl listed)
      · exact Or.inr ⟨t, creating⟩
  rcases step_adds guarded stepped with same | ⟨t, malloc, amount, rfl, here, within, id, rfl⟩
  · exact ⟨by rw [same]; exact Nat.le_trans fewer capped.limited, by rw [same]; exact known⟩
  · have counted := capped.counted guarded here
    have room := fits amount (by rw [here]; rfl) within
    generalize grown : (s.addPool id amount).moveTo t (.create (.threads s.created 0)) = s' at *
    have size : s'.created = s.created + 1 := by rw [← grown]; rfl
    have new : s'.staying s.created ≤ amount := by
      refine Nat.le_trans State.staying_le_amt (Nat.le_of_eq ?_)
      rw [← grown]
      exact congrArg Pool.amt (Function.update_self s.created _ s.pools)
    refine ⟨?_, fun pool below => ?_⟩
    · rw [size, List.range_succ, List.map_append, List.sum_append, List.map_singleton,
        List.sum_singleton]
      omega
    · rw [size] at below
      rcases Nat.lt_succ_iff_lt_or_eq.mp below with old | rfl
      · exact known pool old
      · exact Or.inr ⟨t, 0, by rw [← grown]; exact State.moveTo_self⟩

-----------------------------------------------------------------------------------------
-- Runs
-----------------------------------------------------------------------------------------

/-- When no call that passes the limit does so at the cost of workers it does not count, the
workers that run are within the limit.
-/
theorem workers_limited {nprocs : Nat} {actions : List (Action θ φ δ)} {s : State θ φ δ}
    (ran : Transition.run (Transition.restrict (State.Fits nprocs) (step nprocs)) State.initial
        actions
      = some s)
    : s.live ≤ nprocs <<< 2 := by
  have preserved {s : State θ φ δ} {action : Action θ φ δ} {s' : State θ φ δ}
      (inv : Guarded s ∧ Capped nprocs s)
      (stepped : Transition.restrict (State.Fits nprocs) (step nprocs) s action = some s')
      : Guarded s' ∧ Capped nprocs s' := by
    obtain ⟨guarded, capped⟩ := inv
    obtain ⟨fits, stepped⟩ := Transition.restrict_eq_some_iff.mp stepped
    exact ⟨guarded.step stepped, capped.step guarded fits stepped⟩
  have start : Capped nprocs (State.initial : State θ φ δ) :=
    ⟨Nat.zero_le _, fun pool below => absurd below (Nat.not_lt_zero pool)⟩
  exact (Transition.run_invariant preserved ⟨guarded_initial, start⟩ ran).2.live_le

/-- A pool of four workers is created, and taken from the list by another thread. -/
def unlinked : List (Action Bool Unit Unit) :=
  calling (.app true) .init 0 ++ calling (.app true) (.create 4) 7
    ++ [0, 1, 2, 3].flatMap (fun i => working (0, i) 1)
    ++ List.replicate 2 (.proceed (.app true) true)
    ++ calling (.app false) (.destroy 0) 3

/-- One of the four workers after the other is told to exit, and joined. -/
def drained : List (Action Bool Unit Unit) :=
  [0, 1, 2, 3].flatMap fun i =>
    List.replicate 4 (.proceed (.app false) true) ++ working (0, i) 5
      ++ [.proceed (.app false) true]

/-- Once the four have exited there is room for the next. -/
theorem workers_limited_drained
    : let s :=
        (Transition.run (Transition.restrict (State.Fits 1) (step 1)) State.initial
          (unlinked ++ drained ++ calling (.app true) (.create 4) 6)).get (by decide)
      s.live = 4 ∧ s.live ≤ 1 <<< 2 :=
  ⟨by decide, workers_limited (Option.some_get _).symm⟩

/-- A call that creates or destroys a pool, or a step. -/
def Action.Manages : Action θ φ δ → Bool
  | .call _ (.post _) | .call _ .deinit => false
  | _ => true

/-- The four still run when another worker is created. -/
theorem workers_limited_unlinked
    : ¬∀ (actions : List (Action Bool Unit Unit)) (s : State Bool Unit Unit),
        actions.all Action.Manages = true
        → Transition.run (step 1) State.initial actions = some s
        → s.live ≤ 1 <<< 2 := by
  intro claim
  have limited :=
    claim (unlinked ++ calling (.app true) (.create 1) 3) _ (by decide)
      (Option.some_get (show _ = true by decide)).symm
  exact absurd limited (by decide)

end Libccll.Thrdpool
