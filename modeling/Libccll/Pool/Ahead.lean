import Mathlib.Algebra.Order.BigOperators.Group.Finset
import Libccll.Pool.Places
import Libccll.Pool.Placement

/-! How many jobs a new one waits for, whatever other threads do while it is posted.
Workers may take jobs while `cl_trpo_post` measures the lists, so the lists it compares are not
those it finds in the end. But nobody else links a job, so they have only become shorter.
-/

namespace Libccll.Thrdpool

open Foundation Transition

variable {θ φ δ : Type*} {s s' : State θ φ δ} {t : Thread θ} {w : Slot}

-----------------------------------------------------------------------------------------
-- Lists only get shorter
-----------------------------------------------------------------------------------------

/-- What no step does to the workers of the pools created, unless it links a job. -/
structure Lightens (s s' : State θ φ δ) : Prop where
  created : s.created ≤ s'.created
  amt : ∀ pool < s.created, (s'.pools pool).amt = (s.pools pool).amt
  posted : ∀ w : Slot, w.1 < s.created → (s'.pts w).posted = (s.pts w).posted
  shrunk
    : ∀ w : Slot, w.1 < s.created
        → (s'.pts w).wkfnList.length ≤ (s.pts w).wkfnList.length

theorem Lightens.load_le (lightens : Lightens s s') {pool : Nat} (known : pool < s.created)
    (i : Nat)
    : s'.load pool i ≤ s.load pool i :=
  lightens.shrunk (pool, i) known

/-- Nothing of the lists changes. -/
theorem Lightens.same (created : s'.created = s.created)
    (amt : ∀ pool, (s'.pools pool).amt = (s.pools pool).amt)
    (lists
      : ∀ w, (s'.pts w).posted = (s.pts w).posted ∧ (s'.pts w).wkfnList = (s.pts w).wkfnList)
    : Lightens s s' where
  created := Nat.le_of_eq created.symm
  amt pool _ := amt pool
  posted w _ := (lists w).1
  shrunk w _ := Nat.le_of_eq (congrArg List.length (lists w).2)

theorem Work.wkfnList_le (work : Work s w s')
    : (s'.pts w).wkfnList.length ≤ (s.pts w).wkfnList.length := by
  cases work with
  | crash => exact Nat.le_refl _
  | delete here =>
      rw [State.setPt_self]
      exact (List.eraseP_sublist).length_le
  | start | wake | leave | stay | move | peek | execute | free | size | skip | drop | exit =>
      exact Nat.le_of_eq (by simp [State.setPt, State.workTo, State.touch, State.free])

theorem Work.lightens (work : Work s w s') : Lightens s s' := by
  have frame := work.frame
  refine ⟨Nat.le_of_eq frame.created.symm, fun pool _ => frame.amt pool, fun w' _ => ?_,
    fun w' _ => ?_⟩
  · rcases eq_or_ne w' w with rfl | other
    · exact frame.posted
    · rw [frame.others w' other]
  · rcases eq_or_ne w' w with rfl | other
    · exact work.wkfnList_le
    · rw [frame.others w' other]

variable [DecidableEq θ]

/-- One worker changes, and neither its list nor what was posted to it. -/
theorem lightens_setPt {pt : PolThrd θ φ δ} {place : Caller φ δ} {readFreed : Bool}
    (posted : pt.posted = (s.pts w).posted) (list : pt.wkfnList = (s.pts w).wkfnList)
    : Lightens s { (s.setPt w pt).moveTo t place with readFreed } := by
  refine .same rfl (fun _ => rfl) fun w' => ?_
  change ((s.setPt w pt).pts w').posted = _ ∧ ((s.setPt w pt).pts w').wkfnList = _
  rcases eq_or_ne w' w with rfl | other
  · rw [State.setPt_self]
    exact ⟨posted, list⟩
  · rw [State.setPt_of_ne other]
    exact ⟨rfl, rfl⟩

/-- A turn that does not link a job leaves the lists as they are. -/
theorem Turn.lightens (turn : Turn s s')
    : Lightens s s'
      ∨ ∃ t pool pt wf,
          s.callers t = .post (.adding pool pt wf)
          ∧ s' = (s.link (pool, pt) wf).moveTo t (.post (.linked pool pt)) := by
  cases turn with
  | @link t pool pt wf here => exact Or.inr ⟨t, pool, pt, wf, here, rfl⟩
  | stop | move | measure | pop | list | refused =>
      exact Or.inl (.same rfl (fun _ => rfl) fun _ => ⟨rfl, rfl⟩)
  | relock | start | flag | wake | signal => exact Or.inl (lightens_setPt rfl rfl)
  | @release t pool turns =>
      cases turns <;> exact Or.inl (.same rfl (fun _ => rfl) fun _ => ⟨rfl, rfl⟩)
  | @allocate t request pool pt =>
      refine Or.inl (.same rfl (fun pool' => ?_) fun _ => ⟨rfl, rfl⟩)
      rcases eq_or_ne pool' pool with rfl | other
      · simp [State.addNode, State.moveTo]
      · simp [State.addNode, State.moveTo, other]
  | @create t amount id =>
      have old (w : Slot) (known : w.1 < s.created) : (s.addPool id amount).pts w = s.pts w :=
        if_neg (Nat.ne_of_lt known)
      refine Or.inl ⟨Nat.le_succ _, fun pool known => ?_, fun w known => ?_, fun w known => ?_⟩
      · simp [State.addPool, State.moveTo, Nat.ne_of_lt known]
      · exact congrArg PolThrd.posted (old w known)
      · exact Nat.le_of_eq (congrArg (fun pt => pt.wkfnList.length) (old w known))

theorem step_lightens (guarded : Guarded s) {nprocs : Nat} {action : Action θ φ δ}
    (stepped : step nprocs s action = some s')
    : Lightens s s'
      ∨ ∃ t pool pt wf,
          s.callers t = .post (.adding pool pt wf)
          ∧ s' = (s.link (pool, pt) wf).moveTo t (.post (.linked pool pt)) := by
  rcases step_cases guarded stepped with ⟨w, _, work⟩ | turn
  · exact Or.inl work.lightens
  · exact turn.lightens

/-- The thread calls the library, or takes the next step of its call. -/
def Action.Of (t : Thread θ) : Action θ φ δ → Prop
  | .call t' _ | .proceed t' _ => t' = t
  | .work _ => False

/-- Steps of others do not move a thread. -/
theorem step_others {nprocs : Nat} {action : Action θ φ δ}
    (stepped : step nprocs s action = some s') (other : ¬action.Of t)
    : s'.callers t = s.callers t := by
  unfold step at stepped
  split at stepped
  · cases stepped
  · cases action with
    | call t' call =>
        simp only at stepped
        split at stepped
        · split at stepped
          · exact Option.some.inj stepped ▸ enter_others (Ne.symm other)
          · cases stepped
        · cases stepped
    | proceed t' malloc => exact (proceed_leads stepped).others (Ne.symm other)
    | work w => exact congrFun (_workerThread_work stepped).frame.callers t

-----------------------------------------------------------------------------------------
-- The scan among other threads
-----------------------------------------------------------------------------------------

/-- What a post has found out about the lists of its pool as they were when it found the pool.
-/
inductive Weighs (load₀ load : Nat → Nat) (amt : Nat) (request : Request φ δ) (pool : Nat)
    : Posting φ δ → Prop where
  | scanning {i min pt} (seen : ∀ j < i, min ≤ load₀ j) (chosen : ∀ p ∈ pt, load p ≤ min)
      : Weighs load₀ load amt request pool (.scanning request pool i min pt)
  | measuring {i min pt} (seen : ∀ j < i, min ≤ load₀ j) (chosen : ∀ p ∈ pt, load p ≤ min)
      : Weighs load₀ load amt request pool (.measuring request pool i min pt)
  | measured {i min pt} (seen : ∀ j < i + 1, min ≤ load₀ j) (chosen : ∀ p ∈ pt, load p ≤ min)
      : Weighs load₀ load amt request pool (.measured request pool i min pt false)
  | stopped {i min p} (idle : load p = 0)
      : Weighs load₀ load amt request pool (.measured request pool i min (some p) true)
  | selected {pt} (least : ∀ p ∈ pt, ∀ j < amt, load p ≤ load₀ j)
      : Weighs load₀ load amt request pool (.selected request pool pt)
  | filled {pt num} (least : ∀ p ∈ pt, ∀ j < amt, load p ≤ load₀ j)
      : Weighs load₀ load amt request pool (.filled pool pt ⟨num, request.fn, request.args⟩)
  | adding {p num} (least : ∀ j < amt, load p ≤ load₀ j)
      : Weighs load₀ load amt request pool (.adding pool p ⟨num, request.fn, request.args⟩)

variable {load₀ load load' : Nat → Nat} {amt pool nprocs : Nat} {request : Request φ δ}

/-- It stays true while lists get shorter. -/
theorem Weighs.shrink {place : Posting φ δ} (weighs : Weighs load₀ load amt request pool place)
    (less : ∀ j, load' j ≤ load j)
    : Weighs load₀ load' amt request pool place := by
  cases weighs with
  | scanning seen chosen =>
      exact .scanning seen fun p member => Nat.le_trans (less p) (chosen p member)
  | measuring seen chosen =>
      exact .measuring seen fun p member => Nat.le_trans (less p) (chosen p member)
  | measured seen chosen =>
      exact .measured seen fun p member => Nat.le_trans (less p) (chosen p member)
  | stopped idle => exact .stopped (Nat.le_zero.mp (idle ▸ less _))
  | selected least =>
      exact .selected fun p member j below => Nat.le_trans (less p) (least p member j below)
  | filled least =>
      exact .filled fun p member j below => Nat.le_trans (less p) (least p member j below)
  | adding least => exact .adding fun j below => Nat.le_trans (less _) (least j below)

/-- The posting thread has linked its job, or given up. -/
def Caller.Past : Caller φ δ → Prop
  | .post (.linked ..) | .post (.signalled ..) | .leaving _ | .outside _ => True
  | _ => False

/-- Since a post found its pool, the lists have become shorter, until it links its job. -/
def Since (s₀ : State θ φ δ) (t : Thread θ) (request : Request φ δ) (pool : Nat)
    (s : State θ φ δ)
    : Prop :=
  pool < s.created
  ∧ (s.pools pool).amt = (s₀.pools pool).amt
  ∧ ((s.callers t).Past
    ∨ (∀ j, s.load pool j ≤ s₀.load pool j)
      ∧ ∃ place,
          s.callers t = .post place
          ∧ Weighs (s₀.load pool) (s.load pool) (s₀.pools pool).amt request pool place)

omit [DecidableEq θ] in
theorem holds_weighing {place : Posting φ δ} (here : s.callers t = .post place)
    (weighs : Weighs load₀ load amt request pool place)
    : (s.callers t).Holds := by
  rw [here]
  cases weighs <;> trivial

/-- The next step of a post that has not linked its job. -/
theorem weighs_step {place : Posting φ δ} {malloc : Bool} (here : s.callers t = .post place)
    (amounts : (s.pools pool).amt = amt) (less : ∀ j, s.load pool j ≤ load₀ j)
    (weighs : Weighs load₀ (s.load pool) amt request pool place)
    (stepped : clTrpoPost s t malloc place = some s')
    : (s'.callers t).Past
      ∨ ∃ place',
          s'.callers t = .post place'
          ∧ Weighs load₀ (s.load pool) amt request pool place' := by
  cases weighs with
  | @scanning i min pt seen chosen =>
      simp only [clTrpoPost] at stepped
      split at stepped
      · obtain ⟨_, locked, rfl⟩ := Option.map_eq_some_iff.mp stepped
        exact Or.inr ⟨_, State.moveTo_self, .measuring seen chosen⟩
      · rename_i past
        refine Or.inr ⟨_, Option.some.inj stepped ▸ State.moveTo_self, .selected ?_⟩
        intro p member j below
        exact Nat.le_trans (chosen p member) (seen j (by omega))
  | @measuring i min pt seen chosen =>
      refine Or.inr ⟨_, Option.some.inj stepped ▸ State.moveTo_self, ?_⟩
      change Weighs _ _ _ _ _
        (if s.load pool i = 0 then _ else if s.load pool i < min then _ else _)
      split
      · exact .stopped ‹_›
      · split
        · rename_i smaller
          refine .measured (fun j below => ?_) fun p member => ?_
          · rcases Nat.lt_succ_iff_lt_or_eq.mp below with earlier | rfl
            · exact Nat.le_trans (Nat.le_of_lt smaller) (seen j earlier)
            · exact less j
          · obtain rfl := Option.some.inj member
            exact Nat.le_refl _
        · rename_i larger
          refine .measured (fun j below => ?_) chosen
          rcases Nat.lt_succ_iff_lt_or_eq.mp below with earlier | rfl
          · exact seen j earlier
          · exact Nat.le_trans (Nat.le_of_not_lt larger) (less j)
  | measured seen chosen =>
      exact Or.inr ⟨_, Option.some.inj stepped ▸ State.moveTo_self, .scanning seen chosen⟩
  | stopped idle =>
      refine Or.inr ⟨_, Option.some.inj stepped ▸ State.moveTo_self, .selected ?_⟩
      intro p member j _
      rw [← Option.some.inj member, idle]
      exact Nat.zero_le _
  | @selected pt least =>
      simp only [clTrpoPost] at stepped
      split at stepped
      · exact Or.inr ⟨_, Option.some.inj stepped ▸ State.moveTo_self, .filled least⟩
      · exact Or.inr ⟨_, Option.some.inj stepped ▸ here, .selected least⟩
  | @filled pt num least =>
      cases pt with
      | none =>
          obtain rfl : s.stop = s' := Option.some.inj stepped
          exact Or.inr ⟨_, here, .filled least⟩
      | some p =>
          obtain ⟨_, locked, rfl⟩ := Option.map_eq_some_iff.mp stepped
          exact Or.inr ⟨_, State.moveTo_self, .adding (least p rfl)⟩
  | adding least =>
      refine Or.inl ?_
      rw [← Option.some.inj stepped, State.moveTo_self]
      trivial

/-- A thread that has linked its job only leaves, unless it makes a new call. -/
theorem past_step {malloc : Bool} (past : (s.callers t).Past)
    (stepped : s.proceed nprocs t malloc = some s')
    : (s'.callers t).Past := by
  cases here : s.callers t with
  | outside value =>
      rw [State.proceed, here] at stepped
      cases stepped
  | leaving value =>
      rw [State.proceed, here] at stepped
      rw [← Option.some.inj stepped, State.moveTo_self]
      trivial
  | post place =>
      rw [State.proceed, here] at stepped
      rw [here] at past
      cases place with
      | linked | signalled =>
          rw [← Option.some.inj stepped, State.moveTo_self]
          trivial
      | locking | finding | scanning | measuring | measured | selected | filled | adding =>
          exact past.elim
  | create | destroy | deinit | tear | release =>
      rw [here] at past
      exact past.elim

/-- What the steps of a thread are when it makes no new call. -/
theorem step_own {action : Action θ φ δ} (own : action.Of t)
    (uncalled : ∀ call, action ≠ .call t call) (stepped : step nprocs s action = some s')
    : ∃ malloc, s.proceed nprocs t malloc = some s' := by
  unfold step at stepped
  split at stepped
  · cases stepped
  · cases action with
    | call t' call =>
        obtain rfl : t' = t := own
        exact absurd rfl (uncalled call)
    | proceed t' malloc =>
        obtain rfl : t' = t := own
        exact ⟨malloc, stepped⟩
    | work w => exact own.elim

theorem Since.step {s₀ : State θ φ δ} {action : Action θ φ δ} (since : Since s₀ t request pool s)
    (guarded : Guarded s) (uncalled : ∀ call, action ≠ .call t call)
    (stepped : Thrdpool.step nprocs s action = some s')
    : Since s₀ t request pool s' := by
  obtain ⟨known, amounts, weighing⟩ := since
  rcases step_lightens guarded stepped with lightens | ⟨t', pool', pt, wf, here, linked⟩
  · refine ⟨Nat.lt_of_lt_of_le known lightens.created, (lightens.amt pool known).trans amounts, ?_⟩
    rcases Classical.em (action.Of t) with own | other
    · obtain ⟨malloc, proceeded⟩ := step_own own uncalled stepped
      rcases weighing with past | ⟨less, place, here, weighs⟩
      · exact Or.inl (past_step past proceeded)
      · rw [State.proceed, here] at proceeded
        rcases weighs_step here amounts less weighs proceeded with past | ⟨place', here', weighs⟩
        · exact Or.inl past
        · exact Or.inr ⟨fun j => Nat.le_trans (lightens.load_le known j) (less j), place', here',
            weighs.shrink (lightens.load_le known)⟩
    · rw [step_others stepped other]
      rcases weighing with past | ⟨less, place, here, weighs⟩
      · exact Or.inl past
      · exact Or.inr ⟨fun j => Nat.le_trans (lightens.load_le known j) (less j), place, here,
          weighs.shrink (lightens.load_le known)⟩
  · subst linked
    refine ⟨known, amounts, ?_⟩
    rcases eq_or_ne t' t with rfl | other
    · refine Or.inl ?_
      rw [State.moveTo_self]
      trivial
    · rw [State.moveTo_of_ne other.symm]
      rcases weighing with past | ⟨_, place, here', weighs⟩
      · exact Or.inl past
      · have holds : (s.callers t').Holds := by rw [here]; trivial
        exact absurd (guarded.holder_unique (holds_weighing here' weighs) holds) other

-----------------------------------------------------------------------------------------
-- What is executed before the job
-----------------------------------------------------------------------------------------

/-- On a worker, at most so many jobs start before this one does. -/
def StartsAfter (s s' : State θ φ δ) (w : Slot) (wf : WorkFun φ δ) (most : Nat) : Prop :=
  wf ∈ (s'.pts w).executed
  → ∃ between rest,
      (s'.pts w).executed = (s.pts w).executed ++ between ++ wf :: rest
      ∧ between.length ≤ most

/-- A thread is about to link its job, or has linked it behind those there were. -/
def Linking (s₀ : State θ φ δ) (t : Thread θ) (pool pt : Nat) (wf : WorkFun φ δ)
    (s : State θ φ δ)
    : Prop :=
  pool < s.created
  ∧ (s.callers t = .post (.adding pool pt wf)
      ∧ (s.pts (pool, pt)).posted = (s₀.pts (pool, pt)).posted
    ∨ (s₀.pts (pool, pt)).posted ++ [wf] <+: (s.pts (pool, pt)).posted)

omit [DecidableEq θ] in
theorem link_posted (s : State θ φ δ) (w : Slot) (wf : WorkFun φ δ)
    : ((s.link w wf).pts w).posted = (s.pts w).posted ++ [wf] :=
  congrArg PolThrd.posted State.setPt_self

omit [DecidableEq θ] in
theorem posted_link (s : State θ φ δ) (w w' : Slot) (wf : WorkFun φ δ)
    : (s.pts w').posted <+: ((s.link w wf).pts w').posted := by
  rcases eq_or_ne w' w with rfl | other
  · rw [link_posted]
    exact List.prefix_append _ _
  · rw [State.link, State.setPt_of_ne other]
    exact List.prefix_refl _

theorem Linking.step {s₀ : State θ φ δ} {action : Action θ φ δ} {pt : Nat} {wf : WorkFun φ δ}
    (linking : Linking s₀ t pool pt wf s) (guarded : Guarded s)
    (stepped : Thrdpool.step nprocs s action = some s')
    : Linking s₀ t pool pt wf s' := by
  obtain ⟨known, stands⟩ := linking
  rcases step_lightens guarded stepped with lightens | ⟨t', pool', pt', wf', here', linked⟩
  · refine ⟨Nat.lt_of_lt_of_le known lightens.created, ?_⟩
    have same : (s'.pts (pool, pt)).posted = (s.pts (pool, pt)).posted :=
      lightens.posted (pool, pt) known
    rw [same]
    rcases stands with ⟨here, posted⟩ | behind
    · rcases Classical.em (action.Of t) with own | other
      · have uncalled (call : Call φ δ) (calls : action = .call t call) : False := by
          subst calls
          unfold Thrdpool.step at stepped
          split at stepped
          · cases stepped
          · simp only [here] at stepped
            cases stepped
        obtain ⟨malloc, proceeded⟩ := step_own own uncalled stepped
        rw [State.proceed, here] at proceeded
        obtain rfl := Option.some.inj proceeded
        have longer := (link_posted s (pool, pt) wf).symm.trans same
        exact absurd (congrArg List.length longer) (by simp)
      · exact Or.inl ⟨(step_others stepped other).trans here, posted⟩
    · exact Or.inr behind
  · subst linked
    refine ⟨known, ?_⟩
    change _ ∧ ((s.link (pool', pt') wf').pts (pool, pt)).posted = _
      ∨ _ <+: ((s.link (pool', pt') wf').pts (pool, pt)).posted
    rcases stands with ⟨here, posted⟩ | behind
    · -- The one that links is the thread itself, as it has the lock.
      have holds : (s.callers t).Holds := by rw [here]; trivial
      have holds' : (s.callers t').Holds := by rw [here']; trivial
      obtain rfl := guarded.holder_unique holds holds'
      cases here.symm.trans here'
      rw [link_posted, posted]
      exact Or.inr (List.prefix_refl _)
    · exact Or.inr (behind.trans (posted_link s (pool', pt') (pool, pt) wf'))

omit [DecidableEq θ] in
/-- A worker starts the jobs in front of a new one before it, and these are at most those in its
list.
-/
theorem Linking.startsAfter {s₀ : State θ φ δ} {pt : Nat} {wf : WorkFun φ δ}
    (linking : Linking s₀ t pool pt wf s) (jobs₀ : Jobs s₀) (jobs : Jobs s)
    (carried : (s₀.callers t).cargo = .node pool wf)
    : StartsAfter s₀ s (pool, pt) wf (s₀.load pool pt) := by
  intro member
  have unposted : wf ∉ (s₀.pts (pool, pt)).posted := fun inside =>
    (jobs₀.carried t pool wf carried).2 (pool, pt) wf inside rfl
  have started : (s.pts (pool, pt)).executed <+: (s.pts (pool, pt)).posted :=
    (jobs.served (pool, pt)).started
  have reached : (s₀.pts (pool, pt)).posted ++ [wf] <+: (s.pts (pool, pt)).executed := by
    rcases linking.2 with ⟨_, same⟩ | behind
    · rw [same] at started
      exact absurd (started.subset member) unposted
    · rcases List.prefix_or_prefix_of_prefix started behind with shorter | longer
      · rcases List.prefix_concat_iff.mp shorter with same | before
        · exact same ▸ List.prefix_refl _
        · exact absurd (before.subset member) unposted
      · exact longer
  obtain ⟨rest, executed⟩ := reached
  obtain ⟨done, posted₀, executed₀⟩ := (jobs₀.served (pool, pt)).order
  obtain ⟨between, split⟩ := (jobs₀.served (pool, pt)).started
  refine ⟨between, rest, ?_, ?_⟩
  · rw [split, ← executed, List.append_assoc, List.singleton_append]
  · have lengths := congrArg List.length split
    rw [posted₀, executed₀, List.length_append, List.length_append, List.length_append] at lengths
    rw [State.load]
    omega

/-- From the link on, a job waits for those in front of it. -/
theorem starts_after {actions later : List (Action θ φ δ)} {pt : Nat} {wf : WorkFun φ δ}
    (ran : run (step nprocs) State.initial actions = some s)
    (adds : s.callers t = .post (.adding pool pt wf))
    (ran' : run (step nprocs) s later = some s')
    : StartsAfter s s' (pool, pt) wf (s.load pool pt) := by
  obtain ⟨guarded, jobs⟩ := jobs_run ran
  have whole : run (step nprocs) State.initial (actions ++ later) = some s' := by
    rw [run_append, ran, Option.bind_some, ran']
  have sound := guarded.sound t
  rw [adds] at sound
  have following {u : State θ φ δ} {action : Action θ φ δ} {u' : State θ φ δ}
      (inv : Guarded u ∧ Linking s t pool pt wf u) (stepped : step nprocs u action = some u')
      : Guarded u' ∧ Linking s t pool pt wf u' :=
    ⟨inv.1.step stepped, inv.2.step inv.1 stepped⟩
  have linking :=
    run_invariant following
      ⟨guarded, (guarded.listed pool sound.1).1, Or.inl ⟨adds, rfl⟩⟩ ran'
  refine linking.2.startsAfter jobs (jobs_run whole).2 ?_
  rw [adds]
  rfl

/-- Whatever other threads do while a job is posted, and afterwards: the list it is linked to is
then no longer than any list of the pool was when the pool was found, so it holds at most an even
share of the jobs; and on its worker at most so many jobs start before the new one.
-/
theorem job_waits {before during : List (Action θ φ δ)} {s₀ : State θ φ δ} {pool' pt : Nat}
    {wf : WorkFun φ δ} (ran : run (step nprocs) State.initial before = some s₀)
    (found : s₀.callers t = .post (.scanning request pool 0 10000 none))
    (ran' : run (step nprocs) s₀ during = some s) (uncalled : ∀ call, Action.call t call ∉ during)
    (adds : s.callers t = .post (.adding pool' pt wf))
    : pool' = pool
      ∧ (wf.wkfn = request.fn ∧ wf.args = request.args)
      ∧ pt < (s₀.pools pool).amt
      ∧ (∀ i < (s₀.pools pool).amt, s.load pool pt ≤ s₀.load pool i)
      ∧ (s₀.pools pool).amt * s.load pool pt
        ≤ ∑ i ∈ Finset.range (s₀.pools pool).amt, s₀.load pool i
      ∧ ∀ later s',
          run (step nprocs) s later = some s'
          → StartsAfter s s' (pool, pt) wf (s.load pool pt) := by
  obtain ⟨guarded₀, _⟩ := jobs_run ran
  have whole : run (step nprocs) State.initial (before ++ during) = some s := by
    rw [run_append, ran, Option.bind_some, ran']
  obtain ⟨guarded, jobs⟩ := jobs_run whole
  have listed : pool ∈ s₀.gLiPols := by
    have sound := guarded₀.sound t
    rw [found] at sound
    exact sound.1
  have preserved {u : State θ φ δ} {action : Action θ φ δ} {u' : State θ φ δ}
      (kind : ∀ call, action ≠ .call t call) (inv : Guarded u ∧ Since s₀ t request pool u)
      (stepped : step nprocs u action = some u')
      : Guarded u' ∧ Since s₀ t request pool u' :=
    ⟨inv.1.step stepped, inv.2.step inv.1 kind stepped⟩
  have start : Guarded s₀ ∧ Since s₀ t request pool s₀ := by
    refine ⟨guarded₀, (guarded₀.listed pool listed).1, rfl, Or.inr ⟨fun _ => Nat.le_refl _, _,
      found, ?_⟩⟩
    exact .scanning nofun nofun
  have kinds (action : Action θ φ δ) (member : action ∈ during) (call : Call φ δ)
      : action ≠ .call t call :=
    fun same => uncalled call (same ▸ member)
  have since := run_invariant_of preserved kinds start ran'
  obtain ⟨known, amounts, weighing⟩ := since.2
  have sound := guarded.sound t
  rw [adds] at sound
  rcases weighing with past | ⟨_, place, here, weighs⟩
  · rw [adds] at past
    exact past.elim
  · cases here.symm.trans adds
    cases weighs with
    | adding least =>
        have share := Finset.card_nsmul_le_sum (Finset.range (s₀.pools pool).amt)
          (fun i => s₀.load pool i) (s.load pool pt)
          fun i member => least i (Finset.mem_range.mp member)
        rw [Finset.card_range, Nat.nsmul_eq_mul] at share
        refine ⟨rfl, ⟨rfl, rfl⟩, amounts ▸ sound.2, least, share, fun later s' ran'' => ?_⟩
        exact starts_after whole adds ran''

/-- A job waits for each of two workers, and the next post has found the pool. -/
def poolFound : List (Action Unit Unit Unit) :=
  oneWaiting ++ calling (.app ()) (.post ⟨0, some (), ()⟩) 14
    ++ calling (.app ()) (.post ⟨0, some (), ()⟩) 2

/-- The first list is measured, its worker executes the job in it, and the new one is allocated.
-/
def workedMeanwhile : List (Action Unit Unit Unit) :=
  List.replicate 3 (.proceed (.app ()) true) ++ working (0, 0) 11
    ++ List.replicate 6 (.proceed (.app ()) true)

/-- The new job is linked to that list, empty by now, and starts next. -/
theorem job_waits_meanwhile
    : let s₀ := (run (step 1) State.initial poolFound).get (by decide)
      let s := (run (step 1) s₀ workedMeanwhile).get (by decide)
      (s₀.load 0 0 = 1 ∧ s₀.load 0 1 = 1 ∧ s.load 0 0 = 0)
      ∧ (∀ i < 2, s.load 0 0 ≤ s₀.load 0 i)
      ∧ ∀ later s',
          run (step 1) s later = some s' → StartsAfter s s' (0, 0) ⟨2, some (), ()⟩ 0 := by
  intro s₀ s
  have ran : run (step 1) State.initial poolFound = some s₀ := (Option.some_get _).symm
  have ran' : run (step 1) s₀ workedMeanwhile = some s := (Option.some_get _).symm
  have found
      : s₀.callers (.app ()) = .post (.scanning ⟨0, some (), ()⟩ 0 0 10000 none) := by
    rfl
  have adds : s.callers (.app ()) = .post (.adding 0 0 ⟨2, some (), ()⟩) := by rfl
  have uncalled (call : Call Unit Unit) : Action.call (.app ()) call ∉ workedMeanwhile := by
    simp [workedMeanwhile, working]
  obtain ⟨_, _, _, least, _, after⟩ := job_waits ran found ran' uncalled adds
  exact ⟨by decide, least, after⟩

end Libccll.Thrdpool
