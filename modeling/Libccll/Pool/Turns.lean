import Libccll.Pool.Registry

/-! Every step of a caller is a turn. -/

namespace Libccll.Thrdpool

variable {θ φ δ : Type*} {s s' : State θ φ δ} {t : Thread θ}

theorem State.find_listed {id : Int} {pool : Nat} (found : s.find id = some pool)
    : pool ∈ s.gLiPols :=
  List.mem_of_find?_eq_some found

variable [DecidableEq θ]

theorem Guarded.lockPols (guarded : Guarded s) {place : Caller φ δ}
    (locked : s.lockPols t place = some s') (sound : place.Sound s)
    (cargo : place.cargo = (s.callers t).cargo)
    : Turn s s' := by
  unfold State.lockPols at locked
  split at locked
  · exact Option.some.inj locked ▸ .stop
  · split at locked
    · rename_i free
      refine Option.some.inj locked ▸ .move ⟨fun _ => rfl, ?_⟩ sound cargo
      exact fun t' _ holds => nomatch free.symm.trans (guarded.holder t' holds)
    · cases locked

theorem Guarded.unlockPols (guarded : Guarded s) {place : Caller φ δ}
    (held : (s.callers t).Holds) (left : ¬place.Holds) (sound : place.Sound s)
    (cargo : place.cargo = (s.callers t).cargo)
    : Turn s (s.unlockPols.moveTo t place) :=
  .move ⟨fun holds => absurd holds left,
    fun _ other holds => absurd (guarded.holder_unique held holds) other⟩ sound cargo

theorem Guarded.moveTo (guarded : Guarded s) {place : Caller φ δ} 
    (holds : place.Holds → (s.callers t).Holds) (sound : place.Sound s)
    (cargo : place.cargo = (s.callers t).cargo)
    : Turn s (s.moveTo t place) :=
  .move (guarded.goes holds) sound cargo

theorem clTrpoCreate_turn (guarded : Guarded s) {nprocs : Nat} {malloc : Bool} {place : Creating}
    (here : s.callers t = .create place)
    (stepped : clTrpoCreate nprocs s t malloc place = some s')
    : Turn s s' := by
  have sound := guarded.sound t
  rw [here] at sound
  have cargo : (s.callers t).cargo = .nothing := by rw [here]; rfl
  cases place with
  | locking amount => exact guarded.lockPols stepped trivial cargo.symm
  | counting amount =>
      have leaving (value : Value) : Turn s (s.moveTo t (.leaving value)) :=
        guarded.moveTo (fun _ => by rw [here]; trivial) trivial cargo.symm
      simp only [clTrpoCreate] at stepped
      split at stepped
      · exact Option.some.inj stepped ▸ leaving _
      · split at stepped
        · exact Option.some.inj stepped ▸ leaving _
        · split at stepped
          · exact Option.some.inj stepped ▸ leaving _
          · split at stepped
            · exact Option.some.inj stepped ▸ .create here
            · exact Option.some.inj stepped ▸ .stop
  | threads pool i =>
      simp only [clTrpoCreate] at stepped
      split at stepped
      · split at stepped
        · exact Option.some.inj stepped ▸ .start here
        · exact Option.some.inj stepped ▸ .stop
      · exact Option.some.inj stepped ▸ .list here
  | spinning pool =>
      simp only [clTrpoCreate] at stepped
      split at stepped
      · exact Option.some.inj stepped ▸
          guarded.moveTo (fun _ => by rw [here]; trivial) trivial cargo.symm
      · cases stepped

theorem clTrpoDestroy_turn (guarded : Guarded s) {place : Destroying}
    (here : s.callers t = .destroy place) (stepped : clTrpoDestroy s t place = some s')
    : Turn s s' := by
  have sound := guarded.sound t
  rw [here] at sound
  have cargo : (s.callers t).cargo = .nothing := by rw [here]; rfl
  cases place with
  | locking id => exact guarded.lockPols stepped trivial cargo.symm
  | popping id =>
      have holds : (s.callers t).Holds := by rw [here]; trivial
      simp only [clTrpoDestroy] at stepped
      split at stepped
      · exact Option.some.inj stepped ▸ guarded.moveTo (fun _ => holds) trivial cargo.symm
      · exact Option.some.inj stepped ▸
          .pop holds (State.find_listed ‹_›)
            (List.mem_append_right _ (List.mem_singleton_self _)) rfl cargo
  | popped pool =>
      have holds : (s.callers t).Holds := by rw [here]; trivial
      cases pool with
      | none => exact Option.some.inj stepped ▸ guarded.unlockPols holds nofun trivial cargo.symm
      | some pool =>
          exact Option.some.inj stepped ▸
            guarded.unlockPols holds nofun ⟨sound, nofun, nofun⟩ cargo.symm

theorem clTrpoDeinit_turn (guarded : Guarded s) {place : Deiniting}
    (here : s.callers t = .deinit place) (stepped : clTrpoDeinit s t place = some s')
    : Turn s s' := by
  have cargo : (s.callers t).cargo = .nothing := by rw [here]; rfl
  cases place with
  | locking => exact guarded.lockPols stepped trivial cargo.symm
  | sizing =>
      exact Option.some.inj stepped ▸
        guarded.moveTo (fun _ => by rw [here]; trivial) trivial cargo.symm
  | looping turns =>
      have holds : (s.callers t).Holds := by rw [here]; trivial
      cases turns with
      | zero => exact Option.some.inj stepped ▸ guarded.unlockPols holds nofun trivial cargo.symm
      | succ turns =>
          simp only [clTrpoDeinit] at stepped
          split at stepped
          · exact Option.some.inj stepped ▸ guarded.moveTo (fun _ => holds) trivial cargo.symm
          · rename_i pool rest listed
            have listed : pool ∈ s.gLiPols := listed ▸ List.mem_cons_self
            exact Option.some.inj stepped ▸ .pop holds listed
              ⟨List.mem_append_right _ (List.mem_singleton_self pool), nofun, nofun⟩ rfl cargo
  | destroying =>
      exact Option.some.inj stepped ▸ .move (guarded.goes nofun) trivial cargo.symm

theorem _destroyPolThrd_turn (guarded : Guarded s) {pool i : Nat} {turns : Option Nat}
    {place : Teardown} (here : s.callers t = .tear pool i place turns)
    (stepped : _destroyPolThrd s t pool i turns place = some s')
    : Turn s s' := by
  have sound := guarded.sound t
  rw [here] at sound
  have cargo : (s.callers t).cargo = .nothing := by rw [here]; rfl
  have keeps {place : Caller φ δ} (same : place.Holds ↔ turns.isSome = true)
      : place.Holds → (s.callers t).Holds := by
    rw [here]
    exact same.mp
  cases place with
  | locking =>
      simp only [_destroyPolThrd] at stepped
      split at stepped
      · obtain ⟨_, locked, rfl⟩ := Option.map_eq_some_iff.mp stepped
        rw [State.lock_eq_some locked]
        exact .relock (keeps Iff.rfl) ⟨sound.1, sound.2.1, nofun⟩ cargo.symm
      · refine Option.some.inj stepped ▸ guarded.moveTo (keeps Iff.rfl) ⟨sound.1, ?_⟩ cargo.symm
        exact fun j below => sound.2.1 j (by omega)
  | flagging => exact Option.some.inj stepped ▸ .flag here
  | waking => exact Option.some.inj stepped ▸ .wake here
  | unlocking =>
      exact Option.some.inj stepped ▸
        .relock (keeps Iff.rfl) ⟨sound.1, sound.2.1, nofun⟩ cargo.symm
  | joining =>
      simp only [_destroyPolThrd] at stepped
      split at stepped
      · rename_i exited
        refine Option.some.inj stepped ▸
          guarded.moveTo (keeps Iff.rfl) ⟨sound.1, fun j below => ?_, nofun⟩ cargo.symm
        rcases Nat.lt_succ_iff_lt_or_eq.mp below with earlier | rfl
        · exact sound.2.1 j earlier
        · exact Or.inl exited
      · split at stepped
        · exact Option.some.inj stepped ▸ .refused here ‹_›
        · cases stepped

theorem clTrpoPost_turn (guarded : Guarded s) {malloc : Bool} {place : Posting φ δ}
    (here : s.callers t = .post place) (stepped : clTrpoPost s t malloc place = some s')
    : Turn s s' := by
  have sound := guarded.sound t
  rw [here] at sound
  cases place with
  | locking request => exact guarded.lockPols stepped trivial (by rw [here]; rfl)
  | finding request =>
      have holds : (s.callers t).Holds := by rw [here]; trivial
      simp only [clTrpoPost] at stepped
      split at stepped
      · exact Option.some.inj stepped ▸
          guarded.moveTo (fun _ => holds) trivial (by rw [here]; rfl)
      · exact Option.some.inj stepped ▸
          guarded.moveTo (fun _ => holds) ⟨State.find_listed ‹_›, nofun⟩ (by rw [here]; rfl)
  | scanning request pool i min pt =>
      have holds : (s.callers t).Holds := by rw [here]; trivial
      simp only [clTrpoPost] at stepped
      split at stepped
      · obtain ⟨_, locked, rfl⟩ := Option.map_eq_some_iff.mp stepped
        rw [State.lock_eq_some locked]
        exact .relock (fun _ => holds) ⟨sound.1, ‹_›, sound.2⟩ (by rw [here]; rfl)
      · exact Option.some.inj stepped ▸
          guarded.moveTo (fun _ => holds) sound (by rw [here]; rfl)
  | measuring request pool i min pt =>
      have holds : (s.callers t).Holds := by rw [here]; trivial
      have chosen : ∀ j ∈ some i, j < (s.pools pool).amt :=
        fun j member => Option.some.inj member ▸ sound.2.1
      simp only [clTrpoPost] at stepped
      refine Option.some.inj stepped ▸ .measure (fun _ => holds) ?_ ?_ sound.1
      · split
        · exact ⟨sound.1, chosen⟩
        · split
          · exact ⟨sound.1, chosen⟩
          · exact ⟨sound.1, sound.2.2⟩
      · rw [here]
        split
        · rfl
        · split <;> rfl
  | measured request pool i min pt stop =>
      have holds : (s.callers t).Holds := by rw [here]; trivial
      simp only [clTrpoPost] at stepped
      refine Option.some.inj stepped ▸ .relock (fun _ => holds) ?_ ?_
      · split <;> exact sound
      · rw [here]
        split <;> rfl
  | selected request pool pt =>
      simp only [clTrpoPost] at stepped
      split at stepped
      · exact Option.some.inj stepped ▸ .allocate here
      · exact Option.some.inj stepped ▸ .stop
  | filled pool pt wf =>
      cases pt with
      | none => exact Option.some.inj stepped ▸ .stop
      | some pt =>
          obtain ⟨_, locked, rfl⟩ := Option.map_eq_some_iff.mp stepped
          rw [State.lock_eq_some locked]
          exact .relock (fun _ => by rw [here]; trivial) ⟨sound.1, sound.2 pt rfl⟩
            (by rw [here]; rfl)
  | adding pool pt wf => exact Option.some.inj stepped ▸ .link here
  | linked pool pt => exact Option.some.inj stepped ▸ .signal here
  | signalled pool pt =>
      exact Option.some.inj stepped ▸
        .relock (fun _ => by rw [here]; trivial) trivial (by rw [here]; rfl)

theorem proceed_turn (guarded : Guarded s) {nprocs : Nat} {malloc : Bool}
    (stepped : s.proceed nprocs t malloc = some s')
    : Turn s s' := by
  simp only [State.proceed] at stepped
  split at stepped
  · cases stepped
  · exact clTrpoCreate_turn guarded ‹_› stepped
  · exact clTrpoDestroy_turn guarded ‹_› stepped
  · exact clTrpoDeinit_turn guarded ‹_› stepped
  · exact _destroyPolThrd_turn guarded ‹_› stepped
  · exact Option.some.inj stepped ▸ .release ‹_›
  · exact clTrpoPost_turn guarded ‹_› stepped
  · rename_i here
    exact Option.some.inj stepped ▸
      guarded.unlockPols (by rw [here]; trivial) nofun trivial (by rw [here]; rfl)

theorem enter_turn (guarded : Guarded s) {value : Value} (here : s.callers t = .outside value)
    {call : Call φ δ} : Turn s (s.enter t call) := by
  have cargo : (s.callers t).cargo = .nothing := by rw [here]; rfl
  cases call with
  | init => exact .move (guarded.goes nofun) trivial cargo.symm
  | create amount =>
      rw [State.enter]
      split
      · exact guarded.moveTo nofun trivial cargo.symm
      · exact guarded.moveTo nofun trivial cargo.symm
  | destroy id => exact guarded.moveTo nofun trivial cargo.symm
  | deinit => exact .move (guarded.goes nofun) trivial cargo.symm
  | post request =>
      rw [State.enter]
      split
      · exact guarded.moveTo nofun trivial cargo.symm
      · exact guarded.moveTo nofun trivial cargo.symm

/-- A step is one of a worker, or a turn of a caller. -/
theorem step_cases (guarded : Guarded s) {nprocs : Nat} {action : Action θ φ δ}
    (stepped : step nprocs s action = some s')
    : (∃ w, action = .work w ∧ Work s w s') ∨ Turn s s' := by
  unfold step at stepped
  split at stepped
  · cases stepped
  · cases action with
    | call t call =>
        simp only at stepped
        split at stepped
        · split at stepped
          · exact Or.inr (Option.some.inj stepped ▸ enter_turn guarded ‹_›)
          · cases stepped
        · cases stepped
    | proceed t malloc => exact Or.inr (proceed_turn guarded stepped)
    | work w => exact Or.inl ⟨w, rfl, _workerThread_work stepped⟩

theorem Guarded.step (guarded : Guarded s) {nprocs : Nat} {action : Action θ φ δ}
    (stepped : step nprocs s action = some s')
    : Guarded s' := by
  rcases step_cases guarded stepped with ⟨w, _, work⟩ | turn
  · exact guarded.work work
  · exact guarded.turn turn

end Libccll.Thrdpool
