import Libccll.Foundation.LockOrder
import Libccll.Main.Births

/-! The mutexes of the library are locked in an order, in all its functions and threads: no threads
wait for each other in a circle.
-/

namespace Libccll.Main

open Foundation LockOrder

/-- A thread locks a mutex only under those of higher ranks. -/
def Mutex.rank : Mutex → Nat
  | .gMtxObjs => 0
  | .lMtxEvt | .lMtxSub => 1
  | .gMtxPols => 2
  | .gMtxSock => 3

variable {θ : Type*}

/-- What a call does to the mutexes. A callback runs under none, but that of a timer under
`g_mtx_sock`; and workers are joined under `g_mtx_pols` and `g_mtx_sock` at most.
-/
def Op.effects (t : Thread θ) : Op → List (Effect Mutex)
  | .lock mutex => [.lock mutex]
  | .unlock mutex => [.unlock mutex]
  | .popPool _ => [.unlock .gMtxPols, .call 2]
  | .popPools | .joinWorker _ => [.call 2]
  | .joinEvt | .joinTimer => [.call 4]
  | .callback =>
      match t with
      | .timer _ => [.call 3]
      | _ => [.call 4]
  | _ => []

def effects (t : Thread θ) (ops : List Op) : List (Effect Mutex) := ops.flatMap (Op.effects t)

/-- Calls that lock mutexes in order, ranked below a bound, and unlock all of them. -/
structure Block (t : Thread θ) (bound : Nat) (ops : List Op) : Prop where
  ordered : Ordered Mutex.rank [] (effects t ops)
  below : ∀ effect ∈ effects t ops, effect.Below Mutex.rank bound

variable {t : Thread θ} {bound : Nat} {ops ops' : List Op}

theorem effects_append : effects t (ops ++ ops') = effects t ops ++ effects t ops' :=
  List.flatMap_append

theorem block_nil : Block t bound [] := ⟨rfl, fun _ member => absurd member List.not_mem_nil⟩

theorem Block.append (block : Block t bound ops) (block' : Block t bound ops')
    : Block t bound (ops ++ ops') := by
  refine ⟨?_, ?_⟩
  · rw [effects_append]
    exact block.ordered.append block'.ordered
  · rw [effects_append]
    exact List.forall_mem_append.mpr ⟨block.below, block'.below⟩

theorem Block.weaken (block : Block t bound ops) {bound' : Nat} (le : bound ≤ bound')
    : Block t bound' ops := by
  refine ⟨block.ordered, fun effect member => ?_⟩
  have below := block.below effect member
  cases effect with
  | lock m => exact Nat.lt_of_lt_of_le below le
  | unlock m => trivial
  | call n => exact Nat.le_trans below le

theorem block_flatMap {α : Type*} {items : List α} {ops : α → List Op}
    (blocks : ∀ item, Block t bound (ops item))
    : Block t bound (items.flatMap ops) := by
  induction items with
  | nil => exact block_nil
  | cons item items ih => exact (blocks item).append ih

/-- Calls under a mutex. -/
theorem Block.locked (mutex : Mutex) (block : Block t mutex.rank ops)
    : Block t (mutex.rank + 1) ([.lock mutex] ++ ops ++ [.unlock mutex]) := by
  have listed
      : effects t ([.lock mutex] ++ ops ++ [.unlock mutex])
        = .lock mutex :: (effects t ops ++ [.unlock mutex]) := by
    rw [effects_append, effects_append]
    rfl
  refine ⟨?_, ?_⟩
  · rw [listed]
    refine ⟨fun h member => absurd member List.not_mem_nil, ?_⟩
    refine Ordered.run ⟨?_, ?_⟩ block.ordered block.below
    · simp
    · simp [Ordered]
  · rw [listed]
    refine List.forall_mem_cons.mpr ⟨Nat.lt_succ_self _, ?_⟩
    refine List.forall_mem_append.mpr ⟨(block.weaken (Nat.le_succ _)).below, ?_⟩
    simp [Effect.Below]

/-- Calls that lock nothing. -/
theorem block_free (free : ∀ op ∈ ops, op.effects t = [] ∨ op.effects t = [.call bound])
    : Block t bound ops := by
  induction ops with
  | nil => exact block_nil
  | cons op ops ih =>
      obtain ⟨here, later⟩ := List.forall_mem_cons.mp free
      have single : Block t bound [op] := by
        rcases here with none | call
        · constructor <;> simp [effects, none, Ordered]
        · constructor <;> simp [effects, call, Ordered, Effect.Below]
      exact single.append (ih later)

-----------------------------------------------------------------------------------------
-- The functions of the library
-----------------------------------------------------------------------------------------

theorem block_clFree : Block t 1 clFree := block_nil.locked .gMtxObjs

theorem block_clMalloc {ok : Bool} : Block t 1 (clMalloc ok) := by
  cases ok with
  | true => exact block_clFree
  | false => exact block_nil

theorem block_frees {n : Nat} : Block t 1 (List.replicate n clFree).flatten := by
  induction n with
  | zero => exact block_nil
  | succ n ih => exact block_clFree.append ih

theorem block_releasePool (pool amt : Nat) : Block t 2 (releasePool pool amt) := by
  have destroys : Block t 2 (_destroyPolThrd pool amt) := by
    refine block_flatMap fun i => block_free ?_
    simp [Op.effects]
  have frees : Block t 2 clFree := block_clFree.weaken (by decide)
  exact (destroys.append frees).append frees

theorem block_clTrpoCreate {gInit fits : Bool} {pool : Nat} {amount : Int}
    : Block t 3 (clTrpoCreate gInit pool amount fits) := by
  have malloc : Block t 2 (clMalloc true) := block_clMalloc.weaken (by decide)
  have threads : Block t 2 (_creThrds pool amount.toNat) := by
    refine block_flatMap fun i => malloc.append (block_free ?_)
    simp [Op.effects]
  have added : Block t 2 [.addPool pool amount.toNat] := block_free (by simp [Op.effects])
  unfold clTrpoCreate
  split
  · exact block_nil
  · split
    · exact block_nil.locked .gMtxPols
    · have locked : Block t 3 _ :=
        (((malloc.append malloc).append threads).append added).locked .gMtxPols
      simpa only [List.append_assoc, List.cons_append, List.nil_append] using locked

/-- Every call of the library locks in order, and all but `cl_timer_count` get along without
`g_mtx_sock`.
-/
theorem block_call (gInit : Bool) (pool : Nat) (call : Call)
    : Block t 4 (call.ops gInit pool)
      ∧ (call ≠ .timerCount → Block t 3 (call.ops gInit pool)) := by
  have both {ops : List Op} (block : Block t 3 ops)
      : Block t 4 ops ∧ (call ≠ .timerCount → Block t 3 ops) :=
    ⟨block.weaken (by decide), fun _ => block⟩
  have free : Block t 3 clFree := block_clFree.weaken (by decide)
  have malloc {ok : Bool} : Block t 3 (clMalloc ok) := block_clMalloc.weaken (by decide)
  have sends (request : Request) : Block t 3 [.send request] := block_free (by simp [Op.effects])
  cases call with
  | timerCount => exact ⟨block_nil.locked .gMtxSock, fun other => absurd rfl other⟩
  | timerSet | timerCancel => exact both (sends _)
  | malloc ok => exact both malloc
  | free null | allocGetStat null =>
      cases null with
      | false => exact both free
      | true => exact both block_nil
  | printBytes valid | shExec valid =>
      cases valid with
      | false => exact both block_nil
      | true => exact both (malloc.append free)
  | allocingCnt | allocingBytes => exact both free
  | evtPub ok =>
      have locked : Block t 3 ([.lock .lMtxEvt] ++ clMalloc ok ++ [.unlock .lMtxEvt]) :=
        (block_clMalloc.locked .lMtxEvt).weaken (by decide)
      refine both (locked.append (block_free ?_))
      cases ok <;> simp [Op.effects]
  | evtSub subscription =>
      cases subscription with
      | nullCallback => exact both block_nil
      | existing => exact both ((block_nil.locked .lMtxSub).weaken (by decide))
      | new malloc => exact both ((block_clMalloc.locked .lMtxSub).weaken (by decide))
  | evtUnsub nullCallback found =>
      cases nullCallback with
      | true => exact both block_nil
      | false =>
          cases found with
          | true => exact both ((block_clFree.locked .lMtxSub).weaken (by decide))
          | false => exact both ((block_nil.locked .lMtxSub).weaken (by decide))
  | trpoCreate amount fits => exact both block_clTrpoCreate
  | trpoDestroy pool =>
      refine both ⟨?_, ?_⟩
      · simp [Call.ops, clTrpoDestroy, effects, Op.effects, Ordered]
      · simp [Call.ops, clTrpoDestroy, effects, Op.effects, Effect.Below, Mutex.rank]
  | trpoPost found =>
      cases gInit with
      | false => exact both block_nil
      | true =>
          have malloc : Block t 2 (clMalloc found) := block_clMalloc.weaken (by decide)
          exact both (malloc.locked .gMtxPols)

/-- `cl_init` locks nothing. -/
theorem block_setup (setup : ∀ op ∈ ops, op.Setup) : Block t 4 ops := by
  refine block_free fun op member => ?_
  have here := setup op member
  cases op with
  | lock | unlock | popPool | popPools | createWorker | joinWorker | callback => exact here.elim
  | joinEvt | joinTimer => exact Or.inr rfl
  | _ => exact Or.inl rfl

theorem block_clDeinit : Block t 4 clDeinit := by
  constructor
  · simp [clDeinit, clTrpoDeinit, clTimerDeinit, clEvtDeinit, clLogDeinit, clAllocDeinit, effects,
      Op.effects, Ordered, Mutex.rank]
  · simp [clDeinit, clTrpoDeinit, clTimerDeinit, clEvtDeinit, clLogDeinit, clAllocDeinit, effects,
      Op.effects, Effect.Below, Mutex.rank]

-----------------------------------------------------------------------------------------
-- The threads of the library
-----------------------------------------------------------------------------------------

/-- A callback under no mutex. -/
theorem block_callback : Block t 4 [.callback] := by
  refine ⟨?_, ?_⟩ <;>
    cases t <;> simp [effects, Op.effects, Ordered, Effect.Below]

theorem block_evtThread {popped : Bool} : Block t 4 (_evtThread popped) := by
  have locked : Block t 4 [.lock .lMtxEvt, .unlock .lMtxEvt] :=
    (block_nil.locked .lMtxEvt).weaken (by decide)
  refine locked.append ?_
  cases popped with
  | false => exact block_nil
  | true => exact block_callback.append (block_clFree.weaken (by decide))

theorem block_workerThread {exit : Bool} {jobs : Nat} : Block t 4 (_workerThread exit jobs) := by
  cases exit with
  | true => exact (block_frees.weaken (by decide)).append (block_free (by simp [Op.effects]))
  | false => exact block_callback.append (block_clFree.weaken (by decide))

theorem block_waitSelfConnect : Block t 4 _waitSelfConnect := by
  have malloc : Block t 4 (clMalloc true) := block_clMalloc.weaken (by decide)
  have malloc' : Block t 3 (clMalloc true) := block_clMalloc.weaken (by decide)
  have accept : Block t 4 [.accept] := block_free (by simp [Op.effects])
  exact (malloc.append accept).append (malloc'.locked .gMtxSock)

/-- The timer thread runs callbacks under `g_mtx_sock`. -/
theorem block_served {n : Nat} {served : Served} : Block (.timer n : Thread θ) 4 served.ops := by
  have callback : Block (.timer n : Thread θ) 3 [.callback] := by
    refine block_free fun op member => ?_
    rw [List.mem_singleton.mp member]
    exact Or.inr rfl
  have free : Block (.timer n : Thread θ) 3 clFree := block_clFree.weaken (by decide)
  have malloc : Block (.timer n : Thread θ) 3 (clMalloc true) :=
    block_clMalloc.weaken (by decide)
  cases served with
  | new added =>
      cases added with
      | none => exact block_nil.locked .gMtxSock
      | some added =>
          cases added with
          | true => exact malloc.locked .gMtxSock
          | false => exact (malloc.append free).locked .gMtxSock
  | cancel found =>
      cases found with
      | true => exact free.locked .gMtxSock
      | false => exact block_nil.locked .gMtxSock
  | expiry usedUp =>
      cases usedUp with
      | none => exact block_nil.locked .gMtxSock
      | some usedUp =>
          cases usedUp with
          | true => exact (callback.append free).locked .gMtxSock
          | false => exact callback.locked .gMtxSock
  | unread => exact block_nil
  | quit nodes =>
      have frees : Block (.timer n : Thread θ) 4 (List.replicate nodes clFree).flatten :=
        block_frees.weaken (by decide)
      exact (frees.append (free.weaken (by decide))).append (block_free (by simp [Op.effects]))

-----------------------------------------------------------------------------------------
-- What every step keeps
-----------------------------------------------------------------------------------------

/-- What every thread has yet to do to the mutexes. -/
def State.plan (s : State θ) (t : Thread θ) : List (Effect Mutex) := effects t (s.todo t)

/-- Every thread locks in order. -/
def Arranged (s : State θ) : Prop := Ranked Mutex.rank s.owner s.plan

variable {s s' : State θ}

theorem State.plan_of_todo {rest : List Op} {op : Op} (here : s.todo t = op :: rest)
    : s.plan t = op.effects t ++ effects t rest := by
  rw [State.plan, here]
  rfl

theorem Arranged.joinLast (arranged : Arranged s) {thread : Nat → Thread θ} {n : Nat}
    (joined : s.joinLast thread n = some s')
    : Arranged s' := by
  cases n with
  | zero => exact Option.some.inj joined ▸ arranged
  | succ n =>
      simp only [State.joinLast, State.join] at joined
      split at joined
      · cases joined
      · exact Option.some.inj joined ▸ arranged

variable [DecidableEq θ]

theorem State.plan_goto (s : State θ) (t : Thread θ) (ops : List Op)
    : (s.goto t ops).plan = Function.update s.plan t (effects t ops) := by
  funext u
  rcases eq_or_ne u t with rfl | other
  · rw [State.plan, State.goto_self, Function.update_self]
  · rw [State.plan, State.goto_of_ne other, Function.update_of_ne other]
    rfl

/-- A thread has something else to do, under the same mutexes. -/
theorem Arranged.goto (arranged : Arranged s) {ops : List Op}
    (kept : ∀ held, Ordered Mutex.rank held (s.plan t) → Ordered Mutex.rank held (effects t ops))
    : Arranged (s.goto t ops) := by
  change Ranked Mutex.rank s.owner (s.goto t ops).plan
  rw [State.plan_goto]
  exact Ranked.goto arranged kept

/-- A thread that had nothing to do begins with something. -/
theorem Arranged.begin (arranged : Arranged s) (idle : s.todo t = []) (block : Block t 4 ops)
    : Arranged (s.goto t ops) := by
  refine arranged.goto fun held before => ?_
  rw [State.plan, idle] at before
  obtain rfl : held = [] := before
  exact block.ordered

/-- A call that concerns no mutex. -/
theorem Arranged.pass (arranged : Arranged s) {op : Op} {rest : List Op}
    (here : s.todo t = op :: rest) (free : op.effects t = [] ∨ ∃ n, op.effects t = [.call n])
    : Arranged (s.goto t rest) := by
  refine arranged.goto fun held before => ?_
  rw [State.plan_of_todo here] at before
  rcases free with none | ⟨n, call⟩
  · rwa [none] at before
  · rw [call] at before
    exact before.2

theorem Arranged.lock (arranged : Arranged s) {mutex : Mutex} {rest : List Op}
    (here : s.todo t = .lock mutex :: rest)
    : Arranged
        { s.goto t rest with owner := Function.update s.owner mutex (some t) } := by
  change Ranked Mutex.rank _ (s.goto t rest).plan
  rw [State.plan_goto]
  exact Ranked.lock arranged (State.plan_of_todo here)

theorem Arranged.unlock (arranged : Arranged s) {mutex : Mutex} {rest : List Op}
    (here : s.todo t = .unlock mutex :: rest)
    : Arranged { s.goto t rest with owner := Function.update s.owner mutex none } := by
  change Ranked Mutex.rank _ (s.goto t rest).plan
  rw [State.plan_goto]
  exact Ranked.unlock arranged (State.plan_of_todo here)

/-- Pools are released instead of a call. -/
theorem Arranged.release (arranged : Arranged s) {op : Op} {rest : List Op}
    (here : s.todo t = op :: rest) {block : List Op} (releases : Block t 2 block)
    (first : List Op) (effect : op.effects t = effects t first ++ [.call 2])
    : Arranged (s.goto t (first ++ (block ++ rest))) := by
  refine arranged.goto fun held before => ?_
  rw [State.plan_of_todo here, effect] at before
  rw [effects_append, effects_append]
  revert before
  generalize effects t first = front
  intro before
  induction front generalizing held with
  | nil =>
      have before : Ordered Mutex.rank held (.call 2 :: effects t rest) := before
      exact before.run releases.ordered releases.below
  | cons effect front ih =>
      cases effect with
      | lock m | unlock m | call n => exact ⟨before.1, ih _ before.2⟩

/-- A thread makes a call. -/
theorem Arranged.perform (arranged : Arranged s) (born : Born s) {op : Op} {rest : List Op}
    (here : s.todo t = op :: rest) (performed : s.perform t rest op = some s')
    (sane : s'.misused = false)
    : Arranged s' := by
  have created : ¬s.Late t := born.not_late (Or.inl (by rw [here]; exact List.cons_ne_nil _ _))
  -- a thread is created that has nothing to do yet
  have spawn {u : Thread θ} {ops : List Op} (late : s.Late u) (block : Block u 4 ops)
      (moved : Arranged (s.goto t rest))
      : Arranged ((s.goto t rest).spawn u ops) := by
    have other : u ≠ t := fun same => created (same ▸ late)
    have idle : (s.goto t rest).todo u = [] :=
      (State.goto_of_ne other).trans (born.late u late).1
    have begun : Arranged ((s.goto t rest).goto u ops) := moved.begin idle block
    exact begun
  cases op with
  | lock mutex =>
      simp only [State.perform] at performed
      split at performed
      · rw [← Option.some.inj performed] at sane
        cases sane
      · split at performed
        · exact Option.some.inj performed ▸ arranged.lock here
        · cases performed
  | unlock mutex => exact Option.some.inj performed ▸ arranged.unlock here
  | mutexInit mutex =>
      have moved : Arranged (s.goto t rest) := arranged.pass here (Or.inl rfl)
      have freed : Ranked Mutex.rank (Function.update s.owner mutex none) (s.goto t rest).plan :=
        Ranked.free moved mutex
      exact Option.some.inj performed ▸ freed
  | createEvt =>
      have block : Block (.evt s.evts : Thread θ) 4 [.setRun true] :=
        block_free (by simp [Op.effects])
      have late : s.Late (.evt s.evts) := Nat.le_refl _
      have spawned := spawn late block (arranged.pass here (Or.inl rfl))
      exact Option.some.inj performed ▸ spawned
  | createTimer =>
      have late : s.Late (.timer s.timers) := Nat.le_refl _
      have spawned := spawn late block_waitSelfConnect (arranged.pass here (Or.inl rfl))
      exact Option.some.inj performed ▸ spawned
  | createWorker w =>
      have late : s.Late (.worker w) := by
        refine Or.inr ⟨t, ?_⟩
        rw [here]
        exact List.mem_cons_self
      exact Option.some.inj performed ▸
        spawn late (block_clFree.weaken (by decide)) (arranged.pass here (Or.inl rfl))
  | popPool pool =>
      simp only [State.perform] at performed
      split at performed
      · exact Option.some.inj performed ▸
          arranged.release here block_nil [.unlock .gMtxPols] rfl
      · rename_i entry _
        have released := arranged.release here (block_releasePool entry.1 entry.2)
          [.unlock .gMtxPols] rfl
        exact Option.some.inj performed ▸ released
  | popPools =>
      have releases
          : Block t 2 (s.liPols.flatMap fun entry => releasePool entry.1 entry.2) :=
        block_flatMap fun entry => block_releasePool entry.1 entry.2
      have released := arranged.release here releases [] rfl
      exact Option.some.inj performed ▸ released
  | joinEvt | joinTimer => exact (arranged.pass here (Or.inr ⟨4, rfl⟩)).joinLast performed
  | joinWorker w =>
      simp only [State.perform, State.join] at performed
      split at performed
      · cases performed
      · exact Option.some.inj performed ▸ arranged.pass here (Or.inr ⟨2, rfl⟩)
  | callback => cases performed
  | _ =>
      have moved : Arranged (s.goto t rest) := arranged.pass here (Or.inl rfl)
      exact Option.some.inj performed ▸ moved

/-- A thread of the application, or a callback, calls the library. -/
theorem Arranged.call (arranged : Arranged s) {call : Call} (outside : s.outside t = true)
    (spares : (Action.call t call).Spares)
    : Arranged (s.goto t (call.ops s.trpoInit s.pools ++ s.todo t)) := by
  refine arranged.goto fun held before => ?_
  rw [effects_append]
  change Ordered _ held (_ ++ s.plan t)
  -- a thread that is outside has nothing to do, or is in a callback
  have places : s.todo t = [] ∨ ∃ rest, s.todo t = .callback :: rest := by
    unfold State.outside at outside
    split at outside
    · cases outside
    · exact Or.inl ‹_›
    · exact Or.inr ⟨_, ‹_›⟩
    · cases outside
  rcases places with idle | ⟨rest, here⟩
  · rw [State.plan, idle] at before ⊢
    obtain rfl : held = [] := before
    exact (block_call s.trpoInit s.pools call).1.ordered.append rfl
  · have high : ∀ bound, Op.callback.effects t = [.call bound] → ∀ h ∈ held, bound ≤ h.rank := by
      intro bound effect
      rw [State.plan_of_todo here, effect] at before
      exact before.1
    by_cases timer : ∃ n, t = .timer n
    · obtain ⟨n, rfl⟩ := timer
      have other : call ≠ .timerCount := by
        rintro rfl
        cases spares
      have block : Block (.timer n : Thread θ) 3 _ := (block_call s.trpoInit s.pools call).2 other
      exact block.ordered.above block.below (high 3 rfl) before
    · have effect : Op.callback.effects t = [.call 4] := by
        cases t with
        | timer n => exact absurd ⟨n, rfl⟩ timer
        | _ => rfl
      have block : Block t 4 _ := (block_call s.trpoInit s.pools call).1
      exact block.ordered.above block.below (high 4 effect) before

theorem Arranged.step (arranged : Arranged s) (born : Born s) {action : Action θ}
    (spares : action.Spares) (stepped : step s action = some s') (sane : s'.misused = false)
    : Arranged s' := by
  unfold Main.step at stepped
  split at stepped
  · cases stepped
  · cases action with
    | init ok =>
        simp only at stepped
        split at stepped
        · exact Option.some.inj stepped ▸ arranged.begin ‹_› (block_setup (setup_clInit _ _ ok))
        · cases stepped
    | deinit =>
        simp only at stepped
        split at stepped
        · have begun : Arranged (s.goto .main clDeinit) := arranged.begin ‹_› block_clDeinit
          exact Option.some.inj stepped ▸ begun
        · cases stepped
    | call t call =>
        simp only at stepped
        split at stepped
        · rename_i able
          have called := arranged.call able.2 spares
          exact Option.some.inj stepped ▸ called
        · cases stepped
    | go t =>
        simp only at stepped
        split at stepped
        · cases stepped
        · rename_i here
          exact arranged.perform born here stepped sane
    | back t =>
        simp only at stepped
        split at stepped
        · rename_i here
          refine Option.some.inj stepped ▸ arranged.pass here (Or.inr ?_)
          cases t with
          | timer n => exact ⟨3, rfl⟩
          | _ => exact ⟨4, rfl⟩
        · cases stepped
    | loop n =>
        obtain ⟨_, stepped⟩ := turn_eq_some stepped
        split at stepped
        · cases stepped
        · split at stepped
          · exact Option.some.inj stepped ▸ arranged
          · exact Option.some.inj stepped ▸ arranged
    | wake n token popped =>
        have idle := turn_idle stepped
        obtain ⟨_, stepped⟩ := turn_eq_some stepped
        split at stepped
        · have begun : Arranged (s.goto (.evt n) (_evtThread popped)) :=
            arranged.begin idle block_evtThread
          exact Option.some.inj stepped ▸ begun
        · cases stepped
    | serve n served =>
        have idle := turn_idle stepped
        obtain ⟨_, _, rfl⟩ := serve_eq_some stepped
        have begun : Arranged (s.goto (.timer n) served.ops) := arranged.begin idle block_served
        exact begun
    | work w jobs =>
        have idle := turn_idle stepped
        obtain ⟨_, stepped⟩ := turn_eq_some stepped
        exact Option.some.inj stepped ▸ arranged.begin idle block_workerThread

-----------------------------------------------------------------------------------------
-- Who waits for whom
-----------------------------------------------------------------------------------------

end Libccll.Main
