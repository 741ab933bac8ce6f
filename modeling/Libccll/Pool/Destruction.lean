import Libccll.Pool.Jobs
import Libccll.Pool.Places

/-! Every node is freed once, provided a worker that leaves has one job at most and no join is
refused. The exit branch of `_worker_thread` frees the first node of its list as often as the list
is long, and takes none out.
-/

namespace Libccll.Thrdpool

open Foundation

variable {θ φ δ : Type*}

/-- The nodes a worker still has to free. -/
def PolThrd.owned (pt : PolThrd θ φ δ) : List (WorkFun φ δ) :=
  match pt.place with
  | .deleted wf | .freeing wf => wf :: pt.wkfnList
  | .exitFreeing _ i => pt.wkfnList.drop i
  | .exited => []
  | _ => pt.wkfnList

/-- A worker on its way out has one job at most, and counts it right. -/
def PolThrd.Spare (pt : PolThrd θ φ δ) : Prop :=
  match pt.place with
  | .exitLocking | .exitSizing => pt.wkfnList.length ≤ 1
  | .exitFreeing cnt i => pt.wkfnList.length ≤ 1 ∧ cnt = pt.wkfnList.length ∧ i ≤ cnt
  | _ => True

/-- Of the nodes posted to a worker the first ones are freed, and the others are owned. -/
structure Tidy (pt : PolThrd θ φ δ) (freed : Nat → Nat) : Prop where
  split
    : ∃ gone,
        pt.posted = gone ++ pt.owned
        ∧ (∀ wf ∈ gone, freed wf.num = 1)
        ∧ ∀ wf ∈ pt.owned, freed wf.num = 0
  spare : pt.Spare

/-- No node is freed twice, or read after it was freed. -/
structure Released (s : State θ φ δ) : Prop where
  tidy : ∀ w, Tidy (s.pts w) s.freed
  carried : ∀ t pool wf, (s.callers t).cargo = .node pool wf → s.freed wf.num = 0
  fresh : ∀ n, s.nodes ≤ n → s.freed n = 0
  unread : s.readFreed = false

theorem tidy_initial {freed : Nat → Nat} : Tidy (PolThrd.initial : PolThrd θ φ δ) freed :=
  ⟨⟨[], rfl, nofun, nofun⟩, trivial⟩

theorem released_initial : Released (State.initial : State θ φ δ) where
  tidy _ := tidy_initial
  carried := nofun
  fresh _ _ := rfl
  unread := rfl

variable {pt : PolThrd θ φ δ} {freed : Nat → Nat} {s s' : State θ φ δ} {t : Thread θ} {w : Slot}

-----------------------------------------------------------------------------------------
-- One worker
-----------------------------------------------------------------------------------------

/-- The worker changes hands with nobody. -/
theorem Tidy.keep (tidy : Tidy pt freed) {pt' : PolThrd θ φ δ} (posted : pt'.posted = pt.posted)
    (owned : pt'.owned = pt.owned) (spare : pt'.Spare)
    : Tidy pt' freed := by
  refine ⟨?_, spare⟩
  rw [posted, owned]
  exact tidy.split

/-- A node of another worker is freed. -/
theorem Tidy.other (tidy : Tidy pt freed) {freed' : Nat → Nat}
    (same : ∀ wf ∈ pt.posted, freed' wf.num = freed wf.num)
    : Tidy pt freed' := by
  obtain ⟨gone, posted, once, never⟩ := tidy.split
  refine ⟨⟨gone, posted, fun wf member => ?_, fun wf member => ?_⟩, tidy.spare⟩
  · rw [same wf (posted ▸ List.mem_append_left _ member)]
    exact once wf member
  · rw [same wf (posted ▸ List.mem_append_right _ member)]
    exact never wf member

/-- The worker frees the first of its nodes. -/
theorem Tidy.free (tidy : Tidy pt freed) {pt' : PolThrd θ φ δ} {wf : WorkFun φ δ}
    {rest : List (WorkFun φ δ)} (distinct : (pt.posted.map WorkFun.num).Nodup)
    (posted' : pt'.posted = pt.posted) (owned : pt.owned = wf :: rest) (owned' : pt'.owned = rest)
    (spare : pt'.Spare)
    : Tidy pt' (Function.update freed wf.num (freed wf.num + 1)) := by
  obtain ⟨gone, posted, once, never⟩ := tidy.split
  rw [owned] at posted never
  rw [posted, List.map_append, List.map_cons, List.nodup_append, List.nodup_cons] at distinct
  obtain ⟨_, ⟨notRest, _⟩, notGone⟩ := distinct
  refine ⟨⟨gone ++ [wf], ?_, fun x member => ?_, fun x member => ?_⟩, spare⟩
  · rw [posted', posted, owned', List.append_assoc, List.singleton_append]
  · rcases List.mem_append.mp member with old | new
    · have other : x.num ≠ wf.num := notGone _ (List.mem_map_of_mem old) _ List.mem_cons_self
      rw [Function.update_of_ne other]
      exact once x old
    · rw [List.mem_singleton.mp new, Function.update_self, never wf List.mem_cons_self]
  · rw [owned'] at member
    have other : x.num ≠ wf.num := fun same => notRest (same ▸ List.mem_map_of_mem member)
    rw [Function.update_of_ne other]
    exact never x (List.mem_cons_of_mem wf member)

/-- The list of a worker that is not on its way out, or only counts it, is unfreed. -/
theorem Tidy.listed (tidy : Tidy pt freed) (staying : ¬pt.place.Leaving ∨ pt.place = .exitSizing)
    : ∀ wf ∈ pt.wkfnList, freed wf.num = 0 := by
  obtain ⟨gone, posted, once, never⟩ := tidy.split
  have owned : pt.wkfnList ⊆ pt.owned := by
    unfold PolThrd.owned
    split
    · exact List.subset_cons_self _ _
    · exact List.subset_cons_self _ _
    · simp_all [Worker.Leaving]
    · simp_all [Worker.Leaving]
    · exact List.Subset.refl _
  exact fun wf member => never wf (owned member)

/-- A node linked to a worker that stays is owned by it. -/
theorem Tidy.link (tidy : Tidy pt freed) (staying : ¬pt.place.Leaving) {wf : WorkFun φ δ}
    (new : freed wf.num = 0)
    : Tidy { pt with wkfnList := pt.wkfnList ++ [wf], posted := pt.posted ++ [wf] } freed := by
  obtain ⟨gone, posted, once, never⟩ := tidy.split
  have owned
      : PolThrd.owned { pt with wkfnList := pt.wkfnList ++ [wf], posted := pt.posted ++ [wf] }
        = pt.owned ++ [wf] := by
    cases place : pt.place <;> simp_all [PolThrd.owned, Worker.Leaving]
  refine ⟨⟨gone, ?_, once, fun x member => ?_⟩, ?_⟩
  · rw [owned, posted, List.append_assoc]
  · rw [owned] at member
    rcases List.mem_append.mp member with old | last
    · exact never x old
    · rw [List.mem_singleton.mp last, new]
  · cases place : pt.place <;> simp_all [PolThrd.Spare, Worker.Leaving]

/-- Lock and unlock leave a worker what it owns. -/
theorem Moves.owned {place : Worker φ δ} {mtx : Option (Thread θ)} (moves : Moves pt.place place)
    : PolThrd.owned { pt with place, mtx } = pt.owned := by
  simp only [PolThrd.owned]
  generalize pt.place = old at moves ⊢
  cases moves <;> rfl

theorem Moves.spare {place : Worker φ δ} {mtx : Option (Thread θ)} (moves : Moves pt.place place)
    (spare : pt.Spare)
    : PolThrd.Spare { pt with place, mtx } := by
  simp only [PolThrd.Spare] at spare ⊢
  generalize pt.place = old at moves spare
  cases moves with
  | exitLocked => exact spare
  | peekLocked | deleteLocked | peeked | executed | deleted => trivial

/-- Reading nodes that are not freed. -/
theorem Released.touch (released : Released s) {wfs : List (WorkFun φ δ)}
    (unfreed : ∀ wf ∈ wfs, s.freed wf.num = 0)
    : Released (s.touch wfs) := by
  refine { released with unread := ?_ }
  rw [State.touch, released.unread, Bool.false_or, List.any_eq_false]
  intro wf member
  simp [unfreed wf member]

theorem Released.setPt (released : Released s) {pt : PolThrd θ φ δ} (tidy : Tidy pt s.freed)
    : Released (s.setPt w pt) := by
  refine ⟨fun w' => ?_, released.carried, released.fresh, released.unread⟩
  rcases eq_or_ne w' w with rfl | other
  · rw [State.setPt_self]
    exact tidy
  · rw [State.setPt_of_ne other]
    exact released.tidy w'

/-- The worker moves on and owns what it did. -/
theorem Released.keepPt (released : Released s) {pt : PolThrd θ φ δ}
    (posted : pt.posted = (s.pts w).posted) (owned : pt.owned = (s.pts w).owned)
    (spare : pt.Spare)
    : Released (s.setPt w pt) :=
  released.setPt ((released.tidy w).keep posted owned spare)

/-- `FREE` of the first node that a worker owns. -/
theorem Released.free (released : Released s) (jobs : Jobs s) {pt : PolThrd θ φ δ}
    {wf : WorkFun φ δ} {rest : List (WorkFun φ δ)} (posted : pt.posted = (s.pts w).posted)
    (owned : (s.pts w).owned = wf :: rest) (owned' : pt.owned = rest) (spare : pt.Spare)
    : Released ((s.free wf).setPt w pt) := by
  obtain ⟨gone, split, _⟩ := (released.tidy w).split
  have member : wf ∈ (s.pts w).posted := by
    rw [split, owned]
    exact List.mem_append_right _ List.mem_cons_self
  have other {n : Nat} (apart : n ≠ wf.num) : (s.free wf).freed n = s.freed n :=
    Function.update_of_ne apart _ _
  refine ⟨fun w' => ?_, fun t pool x carried => ?_, fun n unknown => ?_, released.unread⟩
  · rcases eq_or_ne w' w with rfl | elsewhere
    · rw [State.setPt_self]
      exact (released.tidy w').free (jobs.once w') posted owned owned' spare
    · rw [State.setPt_of_ne elsewhere]
      refine (released.tidy w').other fun x inside => other fun same => ?_
      exact elsewhere (jobs.apart w' w x inside wf member same)
  · refine (other ?_).trans (released.carried t pool x carried)
    exact ((jobs.carried t pool x carried).2 w wf member).symm
  · refine (other ?_).trans (released.fresh n unknown)
    exact Nat.ne_of_gt (Nat.lt_of_lt_of_le (jobs.known w wf member) unknown)

theorem Released.work (released : Released s) (jobs : Jobs s)
    (leaves
      : (s.pts w).place = .woken → (s.pts w).exit = true → (s.pts w).wkfnList.length ≤ 1)
    (work : Work s w s')
    : Released s' := by
  have spare := (released.tidy w).spare
  cases work with
  | crash => exact { released with }
  | start here =>
      have moved : Released (s.workTo w .waiting) :=
        released.keepPt rfl (by simp only [PolThrd.owned, here]) trivial
      exact { moved with }
  | wake here | peek here =>
      exact released.keepPt rfl (by simp only [PolThrd.owned, here]) trivial
  | leave here exit =>
      exact released.keepPt rfl (by simp only [PolThrd.owned, here]) (leaves here exit)
  | stay here => exact released.keepPt rfl (by simp only [PolThrd.owned, here]) trivial
  | move moves => exact released.keepPt rfl moves.owned (moves.spare spare)
  | @execute wf here =>
      obtain ⟨job, rest, same, first⟩ := (jobs.served w).current (some wf) (by rw [here]; rfl)
      obtain rfl : wf = job := Option.some.inj same
      have unfreed : ∀ x ∈ [wf], s.freed x.num = 0 := by
        intro x member
        refine (released.tidy w).listed (Or.inl (by rw [here]; exact id)) x ?_
        rw [List.mem_singleton.mp member, first]
        exact List.mem_cons_self
      exact (released.touch unfreed).keepPt rfl (by simp only [PolThrd.owned, State.touch, here])
        trivial
  | @delete wf here =>
      obtain ⟨rest, first, removed⟩ := (jobs.served w).deleting here
      have listed := (released.tidy w).listed (Or.inl (by rw [here]; exact id))
      have unfreed : ∀ x ∈ wf :: (s.pts w).wkfnList, s.freed x.num = 0 := by
        intro x member
        refine listed x ?_
        rcases List.mem_cons.mp member with rfl | inside
        · rw [first]
          exact List.mem_cons_self
        · exact inside
      refine (released.touch unfreed).keepPt rfl ?_ trivial
      rw [removed]
      simp only [PolThrd.owned, State.touch, here, first]
  | free here => exact released.free jobs rfl (by simp only [PolThrd.owned, here]; rfl) rfl trivial
  | size here =>
      rw [PolThrd.Spare, here] at spare
      have touched := released.touch ((released.tidy w).listed (Or.inr here))
      exact touched.keepPt rfl (by simp only [PolThrd.owned, State.touch, here, List.drop_zero])
        ⟨spare, rfl, Nat.zero_le _⟩
  | skip here more empty =>
      rw [PolThrd.Spare, here, empty] at spare
      exact absurd more (spare.2.1 ▸ Nat.not_lt_zero _)
  | @drop cnt i wf rest here more first =>
      rw [PolThrd.Spare, here] at spare
      obtain ⟨short, rfl, _⟩ := spare
      rw [first, List.length_cons] at short more
      obtain rfl : rest = [] :=
        List.length_eq_zero_iff.mp (Nat.le_zero.mp (Nat.le_of_succ_le_succ short))
      obtain rfl : i = 0 := Nat.lt_one_iff.mp more
      have one : (s.pts w).wkfnList.length = 1 := by rw [first]; rfl
      have owned : (s.pts w).owned = [wf] := by
        simp only [PolThrd.owned, here, first, List.drop_zero]
      exact released.free jobs rfl owned (congrArg (List.drop 1) first)
        ⟨Nat.le_of_eq one, rfl, Nat.le_of_eq one.symm⟩
  | @exit cnt i here done =>
      rw [PolThrd.Spare, here] at spare
      obtain ⟨_, rfl, _⟩ := spare
      refine released.keepPt rfl ?_ trivial
      simp only [PolThrd.owned, here, List.drop_eq_nil_of_le done]

variable [DecidableEq θ]

/-- A caller moves on with what it carries. -/
theorem Released.moveTo (released : Released s) {place : Caller φ δ}
    (cargo : place.cargo = (s.callers t).cargo)
    : Released (s.moveTo t place) :=
  { released with
    carried := fun t' pool wf carried =>
      released.carried t' pool wf ((cargo_moveTo cargo t').symm.trans carried) }

/-- A caller that moves on and changes a `PolThrd`, but not the nodes of its worker. -/
theorem Released.followPt (released : Released s) {pt : PolThrd θ φ δ} {place : Caller φ δ}
    (cargo : place.cargo = (s.callers t).cargo) (posted : pt.posted = (s.pts w).posted)
    (owned : pt.owned = (s.pts w).owned) (spare : pt.Spare)
    : Released ((s.setPt w pt).moveTo t place) :=
  (released.keepPt posted owned spare).moveTo cargo

/-- `list_add` hands the node over. -/
theorem Released.link (released : Released s) (guarded : Guarded s) {pool pt : Nat}
    {wf : WorkFun φ δ} (here : s.callers t = .post (.adding pool pt wf))
    : Released ((s.link (pool, pt) wf).moveTo t (.post (.linked pool pt))) := by
  have holds : (s.callers t).Holds := by rw [here]; trivial
  have sound := guarded.sound t
  rw [here] at sound
  have staying := (guarded.staying (i := pt) sound.1).2
  have new : s.freed wf.num = 0 := released.carried t pool wf (by rw [here]; rfl)
  have tidy := released.tidy (pool, pt)
  have unfreed
      : ∀ x ∈ wf :: (s.pts (pool, pt)).wkfnList.getLast?.toList, s.freed x.num = 0 := by
    intro x member
    rcases List.mem_cons.mp member with rfl | last
    · exact new
    · refine tidy.listed (Or.inl staying) x ?_
      exact List.mem_of_getLast? (Option.mem_toList.mp last)
  have linked : Released (s.link (pool, pt) wf) :=
    (released.touch unfreed).setPt (tidy.link staying new)
  exact { linked with
    carried := fun _ _ _ carried => nomatch (guarded.carries holds carried nofun).2 }

theorem Released.turn (released : Released s) (guarded : Guarded s) (turn : Turn s s')
    : Released s' := by
  cases turn with
  | stop => exact { released with }
  | move goes sound cargo => exact { released.moveTo cargo with }
  | relock holds sound cargo =>
      exact released.followPt cargo (by rfl) (by rfl) (released.tidy _).spare
  | @measure t place pool i holds sound cargo listed =>
      have unfreed := (released.tidy (pool, i)).listed (Or.inl (guarded.staying listed).2)
      exact (released.touch unfreed).moveTo cargo
  | @pop t place pool holds listed sound cargo cargo' =>
      have popped : Released (s.pop pool) := { released with }
      exact popped.moveTo (cargo.trans cargo'.symm)
  | @create t amount id here =>
      have added : Released (s.addPool id amount) := by
        refine { released with tidy := fun w => ?_ }
        change Tidy ((s.addPool id amount).pts w) s.freed
        rcases s.addPool_pts w with ⟨_, same⟩ | new
        · exact same ▸ released.tidy w
        · exact new ▸ tidy_initial
      exact added.moveTo (congrArg Caller.cargo here).symm
  | @start t pool i here =>
      have sound := guarded.sound t
      rw [here] at sound
      have absent := sound.2.2.2 i (Nat.le_refl i)
      exact released.followPt (by rw [here]; rfl) (by rfl) (by simp only [PolThrd.owned, absent])
        trivial
  | @list t pool i here =>
      have listed : Released { s with gLiPols := s.gLiPols ++ [pool] } := { released with }
      exact listed.moveTo (congrArg Caller.cargo here).symm
  | @flag t pool i turns here =>
      exact released.followPt (by rw [here]; rfl) (by rfl) (by rfl) (released.tidy (pool, i)).spare
  | @wake t pool i turns here =>
      exact released.followPt (by rw [here]; rfl) (by rfl) (by rfl) (released.tidy (pool, i)).spare
  | @refused t pool i turns here refused =>
      have moved : Released (s.moveTo t (.tear pool (i + 1) .locking turns)) :=
        released.moveTo (congrArg Caller.cargo here).symm
      exact { moved with }
  | @release t pool turns here =>
      have cargo : Cargo.nothing = (s.callers t).cargo := (congrArg Caller.cargo here).symm
      cases turns with
      | none =>
          have moved : Released (s.moveTo t (.outside .void)) := released.moveTo cargo
          exact { moved with }
      | some turns =>
          have moved : Released (s.moveTo t (.deinit (.looping turns))) := released.moveTo cargo
          exact { moved with }
  | @allocate t request pool pt here =>
      have holds : (s.callers t).Holds := by rw [here]; trivial
      refine { released with carried := ?_, fresh := ?_ }
      · intro t' pool' wf carried
        cases (guarded.carries holds carried nofun).2
        exact released.fresh s.nodes (Nat.le_refl _)
      · exact fun n unknown => released.fresh n (Nat.le_of_succ_le unknown)
  | link here => exact released.link guarded here
  | @signal t pool pt here =>
      have holds : (s.callers t).Holds := by rw [here]; trivial
      have paid : Released (s.semPost (pool, pt)) :=
        released.keepPt (by rfl) (by rfl) (released.tidy (pool, pt)).spare
      exact { paid with
        carried := fun _ _ _ carried => nomatch (guarded.carries holds carried nofun).2 }

-----------------------------------------------------------------------------------------
-- Runs
-----------------------------------------------------------------------------------------

/-- A worker that is about to see its exit flag has one job left at most, and no thread joins itself
or one that is joining it.
-/
def State.Spares (s : State θ φ δ) : Action θ φ δ → Prop
  | .work w =>
      match (s.pts w).place with
      | .woken => (s.pts w).exit = true → (s.pts w).wkfnList.length ≤ 1
      | _ => True
  | .proceed t _ =>
      match s.callers t with
      | .tear pool i .joining _ => s.edeadlk (pool, i) t = false
      | _ => True
  | .call .. => True

instance (s : State θ φ δ) (action : Action θ φ δ) : Decidable (s.Spares action) := by
  unfold State.Spares
  split
  · split <;> infer_instance
  · split <;> infer_instance
  · infer_instance

theorem Released.step (released : Released s) (guarded : Guarded s) (jobs : Jobs s)
    {nprocs : Nat} {action : Action θ φ δ} (spares : s.Spares action)
    (stepped : step nprocs s action = some s')
    : Released s' := by
  rcases step_cases guarded stepped with ⟨w, rfl, work⟩ | turn
  · refine released.work jobs (fun woken => ?_) work
    simp only [State.Spares, woken] at spares
    exact spares
  · exact released.turn guarded turn

/-- No join is refused. -/
theorem step_unjoined (guarded : Guarded s) {nprocs : Nat} {action : Action θ φ δ}
    (spares : s.Spares action) (stepped : step nprocs s action = some s')
    : s'.unjoined = s.unjoined := by
  unfold step at stepped
  split at stepped
  · cases stepped
  · cases action with
    | work w => exact (_workerThread_work stepped).frame.unjoined
    | call t call =>
        obtain ⟨place, gInit, entered, _⟩ := enter_moves s t call
        simp only at stepped
        split at stepped
        · split at stepped
          · exact Option.some.inj stepped ▸ entered ▸ rfl
          · cases stepped
        · cases stepped
    | proceed t malloc =>
        simp only at stepped
        cases proceed_turn guarded stepped with
        | @refused t' pool i turns here refused =>
            obtain rfl : t' = t := (proceed_leads stepped).own fun same => by
              change Function.update s.callers t' _ t' = _ at same
              rw [Function.update_self, here] at same
              cases same
            simp only [State.Spares, here] at spares
            exact Bool.noConfusion (spares.symm.trans refused)
        | @release t' pool turns here => cases turns <;> rfl
        | _ => rfl

/-- The pool of one worker is destroyed, which takes so many steps to leave. -/
def destroyed (steps : Nat) : List (Action Unit Unit Unit) :=
  calling (.app ()) (.destroy 0) 7 ++ working (0, 0) steps
    ++ List.replicate 3 (.proceed (.app ()) true)

/-- When no worker is ever about to leave with more than one job, and none is joined by itself or by
one that it is joining, no node is read after it was freed, none is freed twice, and those of a
pool are all freed when the pool itself is.
-/
theorem nodes_freed {nprocs : Nat} {actions : List (Action θ φ δ)} {s : State θ φ δ}
    (ran : Transition.run (Transition.restrict State.Spares (step nprocs)) State.initial actions
      = some s)
    : s.readFreed = false
      ∧ (∀ pool, ∀ n ∈ (s.pools pool).allocated, s.freed n ≤ 1)
      ∧ ∀ pool ∈ s.released, ∀ n ∈ (s.pools pool).allocated, s.freed n = 1 := by
  have preserved {s : State θ φ δ} {action : Action θ φ δ} {s' : State θ φ δ}
      (inv : Guarded s ∧ Jobs s ∧ Released s ∧ s.unjoined = [])
      (stepped : Transition.restrict State.Spares (step nprocs) s action = some s')
      : Guarded s' ∧ Jobs s' ∧ Released s' ∧ s'.unjoined = [] := by
    obtain ⟨guarded, jobs, released, joining⟩ := inv
    obtain ⟨spares, stepped⟩ := Transition.restrict_eq_some_iff.mp stepped
    exact ⟨guarded.step stepped, jobs.step guarded stepped,
      released.step guarded jobs spares stepped,
      (step_unjoined guarded spares stepped).trans joining⟩
  obtain ⟨guarded, jobs, released, joining⟩ :=
    Transition.run_invariant preserved ⟨guarded_initial, jobs_initial, released_initial, rfl⟩ ran
  refine ⟨released.unread, fun pool n allocated => ?_, fun pool member n allocated => ?_⟩
  · rcases jobs.located pool n allocated with ⟨i, _, posted⟩ | ⟨t, wf, cargo, rfl⟩
    · obtain ⟨wf, inside, rfl⟩ := List.mem_map.mp posted
      obtain ⟨gone, split, once, never⟩ := (released.tidy (pool, i)).split
      rw [split] at inside
      rcases List.mem_append.mp inside with freed | owned
      · exact Nat.le_of_eq (once wf freed)
      · rw [never wf owned]
        exact Nat.zero_le 1
    · rw [released.carried t pool wf cargo]
      exact Nat.zero_le 1
  · obtain ⟨popped, joined⟩ := guarded.released pool member
    have exited (i : Nat) (below : i < (s.pools pool).amt)
        : (s.pts (pool, i)).place = .exited :=
      (joined i below).resolve_right fun refused => nomatch joining ▸ refused
    rcases jobs.located pool n allocated with ⟨i, below, posted⟩ | ⟨t, wf, cargo, _⟩
    · obtain ⟨wf, inside, rfl⟩ := List.mem_map.mp posted
      obtain ⟨gone, split, once, never⟩ := (released.tidy (pool, i)).split
      simp only [PolThrd.owned, exited i below, List.append_nil] at split
      exact once wf (split ▸ inside)
    · exact absurd popped (guarded.listed pool (guarded.carrying cargo)).2

/-- One worker leaves after two jobs. -/
theorem nodes_freed_executed
    : let s :=
        (Transition.run (Transition.restrict State.Spares (step 1)) State.initial
          (twoJobs ++ working (0, 0) 22 ++ destroyed 5)).get (by decide)
      0 ∈ s.released ∧ s.freed 0 = 1 ∧ s.freed 1 = 1 :=
  have freed := (nodes_freed (Option.some_get _).symm).2.2 0 (by decide)
  ⟨by decide, freed 0 (by decide), freed 1 (by decide)⟩

/-- With two jobs pending the first node is freed twice, and the second one never. -/
theorem nodes_freed_pending
    : ¬∀ (actions : List (Action Unit Unit Unit)) (s : State Unit Unit Unit),
        Transition.run (step 1) State.initial actions = some s
        → s.readFreed = false
          ∧ ∀ pool ∈ s.released, ∀ n ∈ (s.pools pool).allocated, s.freed n = 1 := by
  intro claim
  have freed :=
    claim (twoJobs ++ destroyed 7)
      ((Transition.run (step 1) State.initial (twoJobs ++ destroyed 7)).get (by decide))
      (Option.some_get _).symm
  exact absurd (freed.2 0 (by decide) 0 (by decide)) (by decide)

/-- A job that destroys its own pool is back from it, and its node is not freed. -/
example
    : let s := (Transition.run (step 1) State.initial
        (twoJobs ++ working (0, 0) 6 ++ calling (.worker (0, 0)) (.destroy 0) 10)).get (by decide)
      s.unjoined = [(0, 0)] ∧ s.released = [0] ∧ s.freed 0 = 0 := by
  decide

end Libccll.Thrdpool
