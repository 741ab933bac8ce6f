import Libccll.Pool.Places

/-! The memory of pools, from `cl_trpo_create` to `FREE(pool)`.
A pool that was taken off the list is in the hands of one thread until that frees it.
-/

namespace Libccll.Thrdpool

open Foundation

variable {θ φ δ : Type*}

/-- The pool that a thread has taken off the list, and not freed yet. -/
def Caller.takes : Caller φ δ → Option Nat
  | .destroy (.popped pool) => pool
  | .tear pool _ _ _ | .release pool _ => some pool
  | _ => none

/-- In `cl_trpo_create`, waiting for the workers to start. -/
def Caller.settles : Caller φ δ → Option Nat
  | .create (.spinning pool) => some pool
  | _ => none

variable {s s' : State θ φ δ} {t : Thread θ} {w : Slot} {place : Caller φ δ}

-----------------------------------------------------------------------------------------
-- What a step passes on
-----------------------------------------------------------------------------------------

/-- The pools stay as they are, as far as the lists and the workers' places go. -/
structure Stays (s s' : State θ φ δ) : Prop where
  gLiPols : s'.gLiPols = s.gLiPols
  popped : s'.popped = s.popped
  released : s'.released = s.released
  amt : ∀ pool, (s'.pools pool).amt = (s.pools pool).amt
  place : ∀ w, (s'.pts w).place = (s.pts w).place

section

variable [DecidableEq θ]

/-- A step of a call, as far as pools come and go. -/
inductive Passes (s : State θ φ δ) (t : Thread θ) : State θ φ δ → Prop where
  | stop : Passes s t s.stop
  | move {after : State θ φ δ} (place : Caller φ δ)
      (callers : after.callers = Function.update s.callers t place) (stays : Stays s after)
      (takes : place.takes = (s.callers t).takes) (settles : place.settles = none)
      : Passes s t after
  | add {id : Int} {amount : Nat} (takes : (s.callers t).takes = none)
      : Passes s t ((s.addPool id amount).moveTo t (.create (.threads s.created 0)))
  | start {pool i : Nat} (here : s.callers t = .create (.threads pool i))
      (below : i < (s.pools pool).amt)
      : Passes s t ((s.workTo (pool, i) .started).moveTo t (.create (.threads pool (i + 1))))
  | list {pool i : Nat} (here : s.callers t = .create (.threads pool i))
      : Passes s t { s.moveTo t (.create (.spinning pool)) with gLiPols := s.gLiPols ++ [pool] }
  | pop {pool : Nat} (place : Caller φ δ) (before : (s.callers t).takes = none)
      (holds : (s.callers t).Holds) (listed : pool ∈ s.gLiPols) (taken : place.takes = some pool)
      (settles : place.settles = none)
      : Passes s t ((s.pop pool).moveTo t place)
  | release {pool : Nat} {turns : Option Nat} (here : s.callers t = .release pool turns)
      : Passes s t (s.releasePool t pool turns)

theorem Passes.moveTo (place : Caller φ δ) (takes : place.takes = (s.callers t).takes)
    (settles : place.settles = none) {g : Option (Thread θ)} {gInit gMtxDestroyed : Bool}
    {unjoined : List Slot}
    : Passes s t { s.moveTo t place with gMtxPols := g, gInit, gMtxDestroyed, unjoined } :=
  .move place rfl ⟨rfl, rfl, rfl, fun _ => rfl, fun _ => rfl⟩ takes settles

/-- A worker's `PolThrd` changes, but not what the worker is doing. -/
theorem Passes.setPt (place : Caller φ δ) {pt : PolThrd θ φ δ}
    (same : pt.place = (s.pts w).place) (takes : place.takes = (s.callers t).takes)
    (settles : place.settles = none) {readFreed : Bool}
    : Passes s t ({ s.setPt w pt with readFreed }.moveTo t place) := by
  refine .move place rfl ⟨rfl, rfl, rfl, fun _ => rfl, fun w' => ?_⟩ takes settles
  change ((s.setPt w pt).pts w').place = _
  rcases eq_or_ne w' w with rfl | other
  · rw [State.setPt_self, same]
  · rw [State.setPt_of_ne other]

theorem lockPols_passes (takes : place.takes = (s.callers t).takes)
    (settles : place.settles = none) (locked : s.lockPols t place = some s')
    : Passes s t s' := by
  unfold State.lockPols at locked
  split at locked
  · exact Option.some.inj locked ▸ .stop
  · split at locked
    · exact Option.some.inj locked ▸ .moveTo place takes settles
    · cases locked

theorem lock_passes (takes : place.takes = (s.callers t).takes) (settles : place.settles = none)
    (locked : (s.lock t w).map (State.moveTo · t place) = some s')
    : Passes s t s' := by
  obtain ⟨_, taken, rfl⟩ := Option.map_eq_some_iff.mp locked
  rw [State.lock_eq_some taken]
  exact .setPt place (by rfl) takes settles

theorem clTrpoCreate_passes {nprocs : Nat} {malloc : Bool} {place : Creating}
    (here : s.callers t = .create place)
    (stepped : clTrpoCreate nprocs s t malloc place = some s')
    : Passes s t s' := by
  have takes : (s.callers t).takes = none := by
    rw [here]
    rfl
  cases place with
  | locking amount => exact lockPols_passes (by exact takes.symm) rfl stepped
  | counting amount =>
      have refused (value : Value) : Passes s t (s.moveTo t (.leaving value)) :=
        .moveTo _ (by exact takes.symm) rfl
      simp only [clTrpoCreate] at stepped
      split at stepped
      · exact Option.some.inj stepped ▸ refused _
      · split at stepped
        · exact Option.some.inj stepped ▸ refused _
        · split at stepped
          · exact Option.some.inj stepped ▸ refused _
          · split at stepped
            · exact Option.some.inj stepped ▸ .add takes
            · exact Option.some.inj stepped ▸ .stop
  | threads pool i =>
      simp only [clTrpoCreate] at stepped
      split at stepped
      · split at stepped
        · exact Option.some.inj stepped ▸ .start here ‹_›
        · exact Option.some.inj stepped ▸ .stop
      · exact Option.some.inj stepped ▸ .list here
  | spinning pool =>
      simp only [clTrpoCreate] at stepped
      split at stepped
      · exact Option.some.inj stepped ▸ .moveTo _ (by exact takes.symm) rfl
      · cases stepped

theorem clTrpoDestroy_passes {place : Destroying} (here : s.callers t = .destroy place)
    (stepped : clTrpoDestroy s t place = some s')
    : Passes s t s' := by
  cases place with
  | locking id => exact lockPols_passes (by rw [here]; rfl) rfl stepped
  | popping id =>
      simp only [clTrpoDestroy] at stepped
      split at stepped
      · exact Option.some.inj stepped ▸ .moveTo _ (by rw [here]; rfl) rfl
      · exact Option.some.inj stepped ▸
          .pop _ (by rw [here]; rfl) (by rw [here]; trivial) (State.find_listed ‹_›) rfl rfl
  | popped pool =>
      cases pool with
      | none => exact Option.some.inj stepped ▸ .moveTo _ (by rw [here]; rfl) rfl
      | some pool => exact Option.some.inj stepped ▸ .moveTo _ (by rw [here]; rfl) rfl

theorem clTrpoDeinit_passes {place : Deiniting} (here : s.callers t = .deinit place)
    (stepped : clTrpoDeinit s t place = some s')
    : Passes s t s' := by
  cases place with
  | locking => exact lockPols_passes (by rw [here]; rfl) rfl stepped
  | sizing => exact Option.some.inj stepped ▸ .moveTo _ (by rw [here]; rfl) rfl
  | looping turns =>
      cases turns with
      | zero => exact Option.some.inj stepped ▸ .moveTo _ (by rw [here]; rfl) rfl
      | succ turns =>
          simp only [clTrpoDeinit] at stepped
          split at stepped
          · exact Option.some.inj stepped ▸ .moveTo _ (by rw [here]; rfl) rfl
          · rename_i pool pools listed
            have member : pool ∈ s.gLiPols := listed ▸ List.mem_cons_self
            exact Option.some.inj stepped ▸
              .pop _ (by rw [here]; rfl) (by rw [here]; trivial) member rfl rfl
  | destroying => exact Option.some.inj stepped ▸ .moveTo _ (by rw [here]; rfl) rfl

theorem _destroyPolThrd_passes {pool i : Nat} {turns : Option Nat} {place : Teardown}
    (here : s.callers t = .tear pool i place turns)
    (stepped : _destroyPolThrd s t pool i turns place = some s')
    : Passes s t s' := by
  cases place with
  | locking =>
      simp only [_destroyPolThrd] at stepped
      split at stepped
      · exact lock_passes (by rw [here]; rfl) rfl stepped
      · exact Option.some.inj stepped ▸ .moveTo _ (by rw [here]; rfl) rfl
  | flagging => exact Option.some.inj stepped ▸ .setPt _ (by rfl) (by rw [here]; rfl) rfl
  | waking => exact Option.some.inj stepped ▸ .setPt _ (by rfl) (by rw [here]; rfl) rfl
  | unlocking => exact Option.some.inj stepped ▸ .setPt _ (by rfl) (by rw [here]; rfl) rfl
  | joining =>
      simp only [_destroyPolThrd] at stepped
      split at stepped
      · exact Option.some.inj stepped ▸ .moveTo _ (by rw [here]; rfl) rfl
      · split at stepped
        · exact Option.some.inj stepped ▸ .moveTo _ (by rw [here]; rfl) rfl
        · cases stepped

theorem clTrpoPost_passes {malloc : Bool} {place : Posting φ δ} (here : s.callers t = .post place)
    (stepped : clTrpoPost s t malloc place = some s')
    : Passes s t s' := by
  have takes : none = (s.callers t).takes := by
    rw [here]
    rfl
  cases place with
  | locking request => exact lockPols_passes (by exact takes) rfl stepped
  | finding request =>
      simp only [clTrpoPost] at stepped
      split at stepped
      · exact Option.some.inj stepped ▸ .moveTo _ (by exact takes) rfl
      · exact Option.some.inj stepped ▸ .moveTo _ (by exact takes) rfl
  | scanning request pool i min pt =>
      simp only [clTrpoPost] at stepped
      split at stepped
      · exact lock_passes (by exact takes) rfl stepped
      · exact Option.some.inj stepped ▸ .moveTo _ (by exact takes) rfl
  | measuring request pool i min pt =>
      exact Option.some.inj stepped ▸
        .move (.post _) rfl ⟨rfl, rfl, rfl, fun _ => rfl, fun _ => rfl⟩ (by exact takes) rfl
  | measured request pool i min pt stop =>
      exact Option.some.inj stepped ▸ .setPt (.post _) (by rfl) (by exact takes) rfl
  | selected request pool pt =>
      simp only [clTrpoPost] at stepped
      split at stepped
      · refine Option.some.inj stepped ▸
          .move (.post _) rfl ⟨rfl, rfl, rfl, fun k => ?_, fun _ => rfl⟩ (by exact takes) rfl
        change (Function.update s.pools pool _ k).amt = _
        rcases eq_or_ne k pool with rfl | other
        · rw [Function.update_self]
        · rw [Function.update_of_ne other]
      · exact Option.some.inj stepped ▸ .stop
  | filled pool pt wf =>
      cases pt with
      | none => exact Option.some.inj stepped ▸ .stop
      | some pt => exact lock_passes (by exact takes) rfl stepped
  | adding pool pt wf | linked pool pt =>
      exact Option.some.inj stepped ▸ .setPt (.post _) (by rfl) (by exact takes) rfl
  | signalled pool pt =>
      exact Option.some.inj stepped ▸ .setPt (.leaving _) (by rfl) (by exact takes) rfl

theorem proceed_passes {nprocs : Nat} {malloc : Bool}
    (stepped : s.proceed nprocs t malloc = some s')
    : Passes s t s' := by
  simp only [State.proceed] at stepped
  split at stepped
  · cases stepped
  · exact clTrpoCreate_passes ‹_› stepped
  · exact clTrpoDestroy_passes ‹_› stepped
  · exact clTrpoDeinit_passes ‹_› stepped
  · exact _destroyPolThrd_passes ‹_› stepped
  · exact Option.some.inj stepped ▸ .release ‹_›
  · exact clTrpoPost_passes ‹_› stepped
  · rename_i here
    exact Option.some.inj stepped ▸ .moveTo _ (by rw [here]; rfl) rfl

/-- A freed pool stays freed. -/
theorem Passes.released (passes : Passes s t s') : s.released ⊆ s'.released := by
  cases passes with
  | move place callers stays takes settles => exact fun _ => stays.released.symm ▸ id
  | @release pool turns here =>
      cases turns with
      | none => exact List.subset_append_left _ _
      | some turns => exact List.subset_append_left _ _
  | _ => exact List.Subset.refl _

end

-----------------------------------------------------------------------------------------
-- Who has a pool
-----------------------------------------------------------------------------------------

/-- Each pool off the list was freed, or is in the hands of one thread. -/
structure Custody (s : State θ φ δ) : Prop where
  bounded : ∀ w, (s.pts w).place ≠ .absent → w.2 < (s.pools w.1).amt
  settled : ∀ t pool, (s.callers t).settles = some pool → pool ∈ s.gLiPols
  once : s.released.Nodup
  unreleased : ∀ t pool, (s.callers t).takes = some pool → pool ∉ s.released
  alone
    : ∀ t t' pool,
        (s.callers t).takes = some pool
        → (s.callers t').takes = some pool
        → t' = t
  held : ∀ pool ∈ s.popped, pool ∈ s.released ∨ ∃ t, (s.callers t).takes = some pool

theorem custody_initial : Custody (State.initial : State θ φ δ) where
  bounded _ present := absurd rfl present
  settled := nofun
  once := List.nodup_nil
  unreleased := nofun
  alone := nofun
  held := nofun

/-- A pool that a thread has taken is off the list. -/
theorem Guarded.taken (guarded : Guarded s) {pool : Nat}
    (takes : (s.callers t).takes = some pool)
    : pool ∈ s.popped := by
  have sound := guarded.sound t
  cases here : s.callers t with
  | destroy place =>
      rw [here] at takes sound
      cases place with
      | popped taken =>
          cases takes
          exact sound
      | _ => cases takes
  | tear taken i place turns =>
      rw [here] at takes sound
      cases takes
      exact sound.1
  | release taken turns =>
      rw [here] at takes sound
      cases takes
      exact sound.1
  | _ =>
      rw [here] at takes
      cases takes

/-- Waiting for the workers to start is done under the lock. -/
theorem Caller.holds_of_settles {c : Caller φ δ} {pool : Nat} (settles : c.settles = some pool)
    : c.Holds := by
  cases c with
  | create place =>
      cases place with
      | spinning settling => trivial
      | _ => cases settles
  | _ => cases settles

theorem Custody.work (custody : Custody s) (work : Work s w s') : Custody s' := by
  have frame := work.frame
  refine ⟨fun w' present => ?_, ?_, ?_, ?_, ?_, ?_⟩
  · rw [frame.amt]
    rcases eq_or_ne w' w with rfl | other
    · exact custody.bounded w' frame.present
    · rw [frame.others w' other] at present
      exact custody.bounded w' present
  · rw [frame.callers, frame.gLiPols]
    exact custody.settled
  · rw [frame.released]
    exact custody.once
  · rw [frame.callers, frame.released]
    exact custody.unreleased
  · rw [frame.callers]
    exact custody.alone
  · rw [frame.callers, frame.popped, frame.released]
    exact custody.held

variable [DecidableEq θ]

/-- A caller that moves on with what it has. -/
theorem Custody.follow (custody : Custody s)
    (callers : s'.callers = Function.update s.callers t place)
    (takes : place.takes = (s.callers t).takes)
    (settled : ∀ pool, place.settles = some pool → pool ∈ s'.gLiPols)
    (gLiPols : s.gLiPols ⊆ s'.gLiPols) (popped : s'.popped = s.popped)
    (released : s'.released = s.released)
    (bounded : ∀ w, (s'.pts w).place ≠ .absent → w.2 < (s'.pools w.1).amt)
    : Custody s' := by
  have same (t' : Thread θ) : (s'.callers t').takes = (s.callers t').takes := by
    rw [callers]
    rcases eq_or_ne t' t with rfl | other
    · rw [Function.update_self, takes]
    · rw [Function.update_of_ne other]
  refine ⟨bounded, fun t' pool settles => ?_, ?_, ?_, ?_, ?_⟩
  · rw [callers] at settles
    rcases eq_or_ne t' t with rfl | other
    · rw [Function.update_self] at settles
      exact settled pool settles
    · rw [Function.update_of_ne other] at settles
      exact gLiPols (custody.settled t' pool settles)
  · rw [released]
    exact custody.once
  · simp only [same, released]
    exact custody.unreleased
  · simp only [same]
    exact custody.alone
  · simp only [same, popped, released]
    exact custody.held

theorem Custody.pop (custody : Custody s) (guarded : Guarded s) {pool : Nat}
    (before : (s.callers t).takes = none) (holds : (s.callers t).Holds)
    (listed : pool ∈ s.gLiPols) (taken : place.takes = some pool) (settles : place.settles = none)
    : Custody ((s.pop pool).moveTo t place) := by
  have unpopped : pool ∉ s.popped := (guarded.listed pool listed).2
  have fresh (t' : Thread θ) : (s.callers t').takes ≠ some pool :=
    fun takes => unpopped (guarded.taken takes)
  have later {t' : Thread θ} {k : Nat} (takes : ((s.moveTo t place).callers t').takes = some k)
      : t' = t ∧ k = pool ∨ (s.callers t').takes = some k := by
    rcases eq_or_ne t' t with rfl | other
    · rw [State.moveTo_self, taken] at takes
      exact Or.inl ⟨rfl, (Option.some.inj takes).symm⟩
    · exact Or.inr (State.moveTo_of_ne other ▸ takes)
  refine ⟨custody.bounded, fun t' k settling => ?_, custody.once, fun t' k takes => ?_,
    fun t₁ t₂ k takes₁ takes₂ => ?_, fun k member => ?_⟩
  · change ((s.moveTo t place).callers t').settles = some k at settling
    rcases eq_or_ne t' t with rfl | other
    · rw [State.moveTo_self, settles] at settling
      cases settling
    · -- only one thread is under the lock
      rw [State.moveTo_of_ne other] at settling
      exact absurd (guarded.holder_unique holds (Caller.holds_of_settles settling)) other
  · rcases later takes with ⟨_, rfl⟩ | takes
    · exact fun released => unpopped (guarded.released k released).1
    · exact custody.unreleased t' k takes
  · rcases later takes₁ with ⟨rfl, rfl⟩ | takes₁ <;> rcases later takes₂ with ⟨same, new⟩ | takes₂
    · exact same
    · exact absurd takes₂ (fresh t₂)
    · exact absurd (new ▸ takes₁) (fresh t₁)
    · exact custody.alone t₁ t₂ k takes₁ takes₂
  · rcases List.mem_append.mp member with old | new
    · rcases custody.held k old with released | ⟨t', takes⟩
      · exact Or.inl released
      · have other : t' ≠ t := by
          intro same
          rw [same, before] at takes
          cases takes
        refine Or.inr ⟨t', ?_⟩
        change ((s.moveTo t place).callers t').takes = some k
        rw [State.moveTo_of_ne other]
        exact takes
    · refine Or.inr ⟨t, ?_⟩
      change ((s.moveTo t place).callers t).takes = some k
      rw [State.moveTo_self, List.mem_singleton.mp new]
      exact taken

/-- The thread frees the pool that it has. -/
theorem Custody.release (custody : Custody s) {pool : Nat}
    (takes : (s.callers t).takes = some pool) (none_ : place.takes = none)
    (settles : place.settles = none)
    : Custody { s.moveTo t place with released := s.released ++ [pool] } := by
  have unreleased := custody.unreleased t pool takes
  have later {t' : Thread θ} {k : Nat} (taking : ((s.moveTo t place).callers t').takes = some k)
      : t' ≠ t ∧ (s.callers t').takes = some k := by
    rcases eq_or_ne t' t with rfl | other
    · rw [State.moveTo_self, none_] at taking
      cases taking
    · exact ⟨other, State.moveTo_of_ne other ▸ taking⟩
  refine ⟨custody.bounded, fun t' k settling => ?_, ?_, fun t' k taking => ?_,
    fun t₁ t₂ k takes₁ takes₂ => custody.alone t₁ t₂ k (later takes₁).2 (later takes₂).2,
    fun k member => ?_⟩
  · change ((s.moveTo t place).callers t').settles = some k at settling
    rcases eq_or_ne t' t with rfl | other
    · rw [State.moveTo_self, settles] at settling
      cases settling
    · rw [State.moveTo_of_ne other] at settling
      exact custody.settled t' k settling
  · refine List.nodup_append.mpr ⟨custody.once, by simp, ?_⟩
    exact fun k old k' new same => unreleased (List.mem_singleton.mp new ▸ same ▸ old)
  · obtain ⟨other, taking⟩ := later taking
    intro released
    rcases List.mem_append.mp released with old | new
    · exact custody.unreleased t' k taking old
    · exact other (custody.alone t t' pool takes (List.mem_singleton.mp new ▸ taking))
  · rcases custody.held k member with released | ⟨t', taking⟩
    · exact Or.inl (List.mem_append_left _ released)
    · rcases eq_or_ne t' t with rfl | other
      · rw [takes] at taking
        cases taking
        exact Or.inl (List.mem_append_right _ (List.mem_singleton.mpr rfl))
      · refine Or.inr ⟨t', ?_⟩
        change ((s.moveTo t place).callers t').takes = some k
        rw [State.moveTo_of_ne other]
        exact taking

theorem Custody.pass (custody : Custody s) (guarded : Guarded s) (passes : Passes s t s')
    : Custody s' := by
  cases passes with
  | stop => exact { custody with }
  | move place callers stays takes settles =>
      refine custody.follow callers takes (fun pool settling => ?_)
        (fun _ => stays.gLiPols.symm ▸ id) stays.popped stays.released fun w present => ?_
      · rw [settles] at settling
        cases settling
      · rw [stays.place] at present
        rw [stays.amt]
        exact custody.bounded w present
  | @add id amount takes =>
      refine custody.follow (by rfl) (by exact takes.symm) (fun _ settling => by cases settling)
        (List.Subset.refl _) rfl rfl fun w present => ?_
      change ((s.addPool id amount).pts w).place ≠ .absent at present
      rcases State.addPool_pts w with ⟨other, same⟩ | new
      · rw [same] at present
        change w.2 < (Function.update s.pools s.created _ w.1).amt
        rw [Function.update_of_ne other]
        exact custody.bounded w present
      · exact absurd (congrArg PolThrd.place new) present
  | @start pool i here below =>
      refine custody.follow (by rfl) (by rw [here]; rfl) (fun _ settling => by cases settling)
        (List.Subset.refl _) rfl rfl fun w present => ?_
      change w.2 < (s.pools w.1).amt
      rcases eq_or_ne w (pool, i) with rfl | other
      · exact below
      · change ((s.workTo (pool, i) .started).pts w).place ≠ .absent at present
        rw [State.workTo, State.setPt_of_ne other] at present
        exact custody.bounded w present
  | @list pool i here =>
      refine custody.follow (by rfl) (by rw [here]; rfl) (fun k settling => ?_)
        (List.subset_append_left _ _) rfl rfl custody.bounded
      cases settling
      exact List.mem_append_right _ (List.mem_singleton.mpr rfl)
  | pop place before holds listed taken settles =>
      exact custody.pop guarded before holds listed taken settles
  | @release pool turns here =>
      have takes : (s.callers t).takes = some pool := by
        rw [here]
        rfl
      cases turns with
      | none => exact custody.release takes rfl rfl
      | some turns => exact custody.release takes rfl rfl

/-- A step is that of a worker, of a call, or a new call. -/
theorem step_passes {nprocs : Nat} {action : Action θ φ δ}
    (stepped : step nprocs s action = some s')
    : (∃ w, Work s w s') ∨ ∃ t, Passes s t s' := by
  unfold step at stepped
  split at stepped
  · cases stepped
  · cases action with
    | call t call =>
        simp only at stepped
        split at stepped
        · split at stepped
          · obtain ⟨place, gInit, entered, waits⟩ := enter_moves s t call
            rename_i value here _
            have outside : (s.callers t).takes = none := by
              rw [here]
              rfl
            have idle : place.takes = none ∧ place.settles = none := by
              rcases waits with ⟨locking, _⟩ | ⟨value, rfl⟩
              · cases place with
                | create place => cases place <;> first | exact ⟨rfl, rfl⟩ | exact locking.elim
                | destroy place => cases place <;> first | exact ⟨rfl, rfl⟩ | exact locking.elim
                | deinit | post => exact ⟨rfl, rfl⟩
                | _ => exact locking.elim
              · exact ⟨rfl, rfl⟩
            refine Or.inr ⟨t, ?_⟩
            rw [← Option.some.inj stepped, entered]
            exact .moveTo place (idle.1.trans outside.symm) idle.2
          · cases stepped
        · cases stepped
    | proceed t malloc => exact Or.inr ⟨t, proceed_passes stepped⟩
    | work w => exact Or.inl ⟨w, _workerThread_work stepped⟩

theorem Custody.step (custody : Custody s) (guarded : Guarded s) {nprocs : Nat}
    {action : Action θ φ δ} (stepped : step nprocs s action = some s')
    : Custody s' := by
  rcases step_passes stepped with ⟨w, work⟩ | ⟨t, passes⟩
  · exact custody.work work
  · exact custody.pass guarded passes

end Libccll.Thrdpool
