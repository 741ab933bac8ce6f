import Libccll.Main.Mutexes

/-! The timer thread holds `g_mtx_sock` while a callback of a timer runs. It does not try to lock
it once more, as long as no such callback calls `cl_timer_count`.
-/

namespace Libccll.Main

open Foundation

-----------------------------------------------------------------------------------------
-- Pairs of lock and unlock
-----------------------------------------------------------------------------------------

/-- The call locks or unlocks `g_mtx_sock`. -/
def Op.OnSock : Op → Prop
  | .lock .gMtxSock | .unlock .gMtxSock => True
  | _ => False

/-- Calls that leave `g_mtx_sock` alone. -/
def Quiet (ops : List Op) : Prop := ∀ op ∈ ops, ¬op.OnSock

/-- The thread, which holds `g_mtx_sock` or not, locks it only when it does not hold it, and
unlocks it before it is through.
-/
def Paired (held : Prop) : List Op → Prop
  | [] => ¬held
  | .lock .gMtxSock :: rest => ¬held ∧ Paired True rest
  | .unlock .gMtxSock :: rest => Paired False rest
  | _ :: rest => Paired held rest

/-- A callback of a timer counts the timers. -/
def Action.counts {θ : Type*} : Action θ → Bool
  | .call (.timer _) .timerCount => true
  | _ => false

/-- It does not. -/
def Action.Spares {θ : Type*} (action : Action θ) : Prop := action.counts = false

instance {θ : Type*} (action : Action θ) : Decidable action.Spares :=
  inferInstanceAs (Decidable (_ = _))

/-- A timer thread is about to lock `g_mtx_sock` while it holds it. -/
def State.Relocks {θ : Type*} (s : State θ) (n : Nat) : Prop :=
  s.owner .gMtxSock = some (.timer n)
  ∧ (s.todo (.timer n)).head? = some (.lock .gMtxSock)

variable {held held' : Prop} {op : Op} {ops rest : List Op}

theorem paired_cons (quiet : ¬op.OnSock) : Paired held (op :: rest) ↔ Paired held rest := by
  cases op with
  | lock mutex | unlock mutex =>
      cases mutex with
      | gMtxSock => exact absurd trivial quiet
      | _ => exact Iff.rfl
  | _ => exact Iff.rfl

theorem paired_append (quiet : Quiet ops) : Paired held (ops ++ rest) ↔ Paired held rest := by
  induction ops with
  | nil => exact Iff.rfl
  | cons op ops ih =>
      obtain ⟨here, later⟩ := List.forall_mem_cons.mp quiet
      exact (paired_cons here).trans (ih later)

/-- Who does not hold it any more needs no less. -/
theorem Paired.weaken (paired : Paired held ops) (fewer : held' → held) : Paired held' ops := by
  induction ops generalizing held held' with
  | nil => exact fun holds => paired (fewer holds)
  | cons op ops ih =>
      by_cases quiet : op.OnSock
      · cases op with
        | lock mutex =>
            cases mutex with
            | gMtxSock => exact ⟨fun holds => paired.1 (fewer holds), paired.2⟩
            | _ => exact quiet.elim
        | unlock mutex =>
            cases mutex with
            | gMtxSock => exact paired
            | _ => exact quiet.elim
        | _ => exact quiet.elim
      · exact (paired_cons quiet).mpr (ih ((paired_cons quiet).mp paired) fewer)

theorem Quiet.append {ops' : List Op} (quiet : Quiet ops) (quiet' : Quiet ops')
    : Quiet (ops ++ ops') :=
  List.forall_mem_append.mpr ⟨quiet, quiet'⟩

theorem Quiet.flatMap {α : Type*} {items : List α} {ops : α → List Op}
    (quiet : ∀ item, Quiet (ops item))
    : Quiet (items.flatMap ops) := by
  intro op member
  obtain ⟨item, _, member⟩ := List.mem_flatMap.mp member
  exact quiet item op member

theorem quiet_clFree : Quiet clFree := by simp [Quiet, clFree, Op.OnSock]

theorem quiet_clMalloc {ok : Bool} : Quiet (clMalloc ok) := by
  cases ok <;> simp [Quiet, clMalloc, Op.OnSock]

theorem quiet_releasePool (pool amt : Nat) : Quiet (releasePool pool amt) := by
  have destroys : Quiet (_destroyPolThrd pool amt) :=
    Quiet.flatMap fun i => by simp [Quiet, Op.OnSock]
  exact (destroys.append quiet_clFree).append quiet_clFree

theorem quiet_clTrpoCreate {gInit fits : Bool} {pool : Nat} {amount : Int}
    : Quiet (clTrpoCreate gInit pool amount fits) := by
  have threads : Quiet (_creThrds pool amount.toNat) := Quiet.flatMap fun i =>
    quiet_clMalloc.append (by simp [Quiet, Op.OnSock])
  have start : Quiet [.lock .gMtxPols] := by simp [Quiet, Op.OnSock]
  unfold clTrpoCreate
  split
  · simp [Quiet]
  · split
    · simp [Quiet, Op.OnSock]
    · refine (((start.append quiet_clMalloc).append quiet_clMalloc).append threads).append ?_
      simp [Quiet, Op.OnSock]

theorem quiet_nil : Quiet [] := fun _ member => absurd member List.not_mem_nil

/-- Under another mutex. -/
theorem Quiet.locked (quiet : Quiet ops) {mutex : Mutex} (other : mutex ≠ .gMtxSock)
    : Quiet ([.lock mutex] ++ ops ++ [.unlock mutex]) := by
  have ends : ¬(Op.lock mutex).OnSock ∧ ¬(Op.unlock mutex).OnSock := by
    cases mutex with
    | gMtxSock => exact absurd rfl other
    | _ => exact ⟨id, id⟩
  exact List.forall_mem_append.mpr
    ⟨List.forall_mem_cons.mpr ⟨ends.1, quiet⟩, List.forall_mem_cons.mpr ⟨ends.2, quiet_nil⟩⟩

/-- No other call of the library but `cl_timer_count` needs `g_mtx_sock`. -/
theorem quiet_call {gInit : Bool} {pool : Nat} {call : Call} (other : call ≠ .timerCount)
    : Quiet (call.ops gInit pool) := by
  have pols : Mutex.gMtxPols ≠ .gMtxSock := fun same => by cases same
  have evt : Mutex.lMtxEvt ≠ .gMtxSock := fun same => by cases same
  have sub : Mutex.lMtxSub ≠ .gMtxSock := fun same => by cases same
  cases call with
  | timerCount => exact absurd rfl other
  | malloc ok => exact quiet_clMalloc
  | free null | allocGetStat null =>
      cases null with
      | false => exact quiet_clFree
      | true => exact quiet_nil
  | printBytes valid | shExec valid =>
      cases valid with
      | false => exact quiet_nil
      | true => exact quiet_clMalloc.append quiet_clFree
  | allocingCnt | allocingBytes => exact quiet_clFree
  | evtPub ok =>
      refine (quiet_clMalloc.locked evt).append ?_
      cases ok <;> simp [Quiet, Op.OnSock]
  | evtSub subscription =>
      cases subscription with
      | nullCallback => exact quiet_nil
      | existing => exact quiet_nil.locked sub
      | new ok => exact quiet_clMalloc.locked sub
  | evtUnsub nullCallback found =>
      cases nullCallback with
      | true => exact quiet_nil
      | false =>
          cases found with
          | false => exact quiet_nil.locked sub
          | true => exact quiet_clFree.locked sub
  | timerSet | timerCancel => simp [Quiet, Call.ops, Op.OnSock]
  | trpoCreate amount fits => exact quiet_clTrpoCreate
  | trpoDestroy pool => simp [Quiet, Call.ops, clTrpoDestroy, Op.OnSock]
  | trpoPost found =>
      cases gInit with
      | false => exact quiet_nil
      | true => exact quiet_clMalloc.locked pols

/-- A turn of the timer thread. -/
theorem paired_served (free : ¬held) {served : Served} : Paired held served.ops := by
  have unlocks : Paired True [.unlock .gMtxSock] := id
  cases served with
  | new added =>
      cases added with
      | none => exact ⟨free, unlocks⟩
      | some added =>
          have body : Quiet (clMalloc true ++ if added = true then [] else clFree) := by
            refine quiet_clMalloc.append ?_
            cases added with
            | true => exact quiet_nil
            | false => exact quiet_clFree
          exact ⟨free, (paired_append body).mpr unlocks⟩
  | cancel found =>
      cases found with
      | false => exact ⟨free, unlocks⟩
      | true => exact ⟨free, (paired_append quiet_clFree).mpr unlocks⟩
  | expiry usedUp =>
      cases usedUp with
      | none => exact ⟨free, unlocks⟩
      | some usedUp =>
          have body : Quiet ([.callback] ++ if usedUp = true then clFree else []) := by
            refine Quiet.append (by simp [Quiet, Op.OnSock]) ?_
            cases usedUp with
            | true => exact quiet_clFree
            | false => exact quiet_nil
          exact ⟨free, (paired_append body).mpr unlocks⟩
  | unread => exact free
  | quit nodes =>
      have frees : Quiet (List.replicate nodes clFree).flatten := by
        intro op member
        obtain ⟨ops, member, inside⟩ := List.mem_flatten.mp member
        exact quiet_clFree op (List.eq_of_mem_replicate member ▸ inside)
      have leaves : Paired held [.leave] := free
      have ends : Quiet ((List.replicate nodes clFree).flatten ++ clFree) :=
        frees.append quiet_clFree
      exact (paired_append ends).mpr leaves

theorem paired_waitSelfConnect (free : ¬held) : Paired held _waitSelfConnect := by
  have accepts : Quiet (clMalloc true ++ [.accept]) :=
    quiet_clMalloc.append (by simp [Quiet, Op.OnSock])
  have unlocks : Paired True (clMalloc true ++ [.unlock .gMtxSock]) :=
    (paired_append quiet_clMalloc).mpr id
  exact (paired_append accepts).mpr ⟨free, unlocks⟩

-----------------------------------------------------------------------------------------
-- The steps
-----------------------------------------------------------------------------------------

variable {θ : Type*}

/-- Every timer thread has its locks paired, and those not yet created have nothing to do. -/
structure Tidy (s : State θ) : Prop where
  paired : ∀ n, Paired (s.owner .gMtxSock = some (.timer n)) (s.todo (.timer n))
  unborn : ∀ n, s.timers ≤ n → s.todo (.timer n) = [] ∧ s.lives (.timer n) = false

theorem tidy_initial : Tidy (State.initial : State θ) where
  paired _ := fun holds => by cases holds
  unborn _ _ := ⟨rfl, rfl⟩

variable {s s' : State θ} {t : Thread θ}

theorem Tidy.not_relocks (tidy : Tidy s) (n : Nat) : ¬s.Relocks n := by
  rintro ⟨holds, head⟩
  obtain ⟨rest, here⟩ : ∃ rest, s.todo (.timer n) = .lock .gMtxSock :: rest := by
    cases todo : s.todo (.timer n) with
    | nil =>
        rw [todo] at head
        cases head
    | cons op rest =>
        rw [todo] at head
        exact ⟨rest, congrArg (· :: rest) (Option.some.inj head)⟩
  have paired := tidy.paired n
  rw [here] at paired
  exact paired.1 holds

/-- Who has something to do, or lives, has been created. -/
theorem Tidy.born (tidy : Tidy s) {n : Nat}
    (busy : s.todo (.timer n) ≠ [] ∨ s.lives (.timer n) = true)
    : n < s.timers := by
  by_contra late
  obtain ⟨idle, dead⟩ := tidy.unborn n (Nat.le_of_not_lt late)
  rcases busy with busy | lives
  · exact busy idle
  · exact Bool.false_ne_true (dead.symm.trans lives)

/-- A step of one thread: the other timer threads stay where they are and get no lock. -/
theorem Tidy.follow (tidy : Tidy s)
    (others
      : ∀ n, .timer n ≠ t
        → s'.todo (.timer n) = s.todo (.timer n)
          ∧ (s'.owner .gMtxSock = some (.timer n) → s.owner .gMtxSock = some (.timer n)))
    (own
      : ∀ n, t = .timer n
        → n < s.timers ∧ Paired (s'.owner .gMtxSock = some t) (s'.todo t))
    (timers : s'.timers = s.timers)
    (lives : ∀ n, s'.lives (.timer n) = true → s.lives (.timer n) = true)
    : Tidy s' := by
  have dead {n : Nat} (before : s.lives (.timer n) = false) : s'.lives (.timer n) = false :=
    Bool.eq_false_iff.mpr fun now => Bool.false_ne_true (before.symm.trans (lives n now))
  refine ⟨fun n => ?_, fun n late => ?_⟩
  · rcases eq_or_ne t (.timer n) with rfl | other
    · exact (own n rfl).2
    · obtain ⟨todo, owner⟩ := others n other.symm
      rw [todo]
      exact (tidy.paired n).weaken owner
  · rw [timers] at late
    obtain ⟨idle, before⟩ := tidy.unborn n late
    rcases eq_or_ne t (.timer n) with rfl | other
    · exact absurd (own n rfl).1 (Nat.not_lt.mpr late)
    · exact ⟨(others n other.symm).1.trans idle, dead before⟩

/-- A thread of the library begins a turn when it has nothing left to do. -/
theorem turn_idle {turn : State θ → Option (State θ)} (turned : s.turn t turn = some s')
    : s.todo t = [] := by
  unfold State.turn at turned
  split at turned
  · assumption
  · cases turned

theorem Tidy.joinLast (tidy : Tidy s) {thread : Nat → Thread θ} {n : Nat}
    (joined : s.joinLast thread n = some s')
    : Tidy s' := by
  cases n with
  | zero => exact Option.some.inj joined ▸ tidy
  | succ n =>
      simp only [State.joinLast, State.join] at joined
      split at joined
      · cases joined
      · exact Option.some.inj joined ▸ tidy

/-- Threads come to life or end, but no timer thread comes to life. -/
theorem Tidy.lives (tidy : Tidy s) {lives : Thread θ → Bool} {threads : List (Thread θ)}
    (fewer : ∀ n, lives (.timer n) = true → s.lives (.timer n) = true)
    : Tidy { s with lives, threads } where
  paired := tidy.paired
  unborn n late := by
    obtain ⟨idle, dead⟩ := tidy.unborn n late
    refine ⟨idle, Bool.eq_false_iff.mpr fun now => ?_⟩
    exact Bool.false_ne_true (dead.symm.trans (fewer n now))

variable [DecidableEq θ]

/-- A thread has something else to do. -/
theorem Tidy.goto (tidy : Tidy s) {ops : List Op}
    (own : ∀ n, t = .timer n → n < s.timers ∧ Paired (s.owner .gMtxSock = some t) ops)
    : Tidy (s.goto t ops) := by
  refine tidy.follow (t := t) (fun n other => ⟨State.goto_of_ne other, id⟩) (fun n same => ?_) rfl
    fun _ => id
  rw [State.goto_self]
  exact own n same

/-- A thread does not have the first call to make any more, but others. -/
theorem Tidy.instead (tidy : Tidy s) {op : Op} {ops rest : List Op} (here : s.todo t = op :: rest)
    (quiet : ¬op.OnSock) (quiet' : Quiet ops)
    : Tidy (s.goto t (ops ++ rest)) := by
  refine tidy.goto fun n same => ?_
  subst same
  have paired := tidy.paired n
  rw [here, paired_cons quiet] at paired
  exact ⟨tidy.born (Or.inl (by rw [here]; exact List.cons_ne_nil _ _)),
    (paired_append quiet').mpr paired⟩

/-- A thread makes a call that may change the holder of `g_mtx_sock`. -/
theorem Tidy.hold (tidy : Tidy s) {op : Op} {rest : List Op} (here : s.todo t = op :: rest)
    {owner : Mutex → Option (Thread θ)} {ready : Mutex → Bool} {misused : Bool}
    (fewer
      : ∀ n, .timer n ≠ t → owner .gMtxSock = some (.timer n)
        → s.owner .gMtxSock = some (.timer n))
    (paired
      : Paired (s.owner .gMtxSock = some t) (op :: rest)
        → Paired (owner .gMtxSock = some t) rest)
    : Tidy { s.goto t rest with owner, ready, misused } := by
  refine tidy.follow (t := t) (fun n other => ⟨State.goto_of_ne other, fewer n other⟩)
    (fun n same => ?_) rfl fun _ => id
  subst same
  have before := tidy.paired n
  rw [here] at before
  refine ⟨tidy.born (Or.inl (by rw [here]; exact List.cons_ne_nil _ _)), ?_⟩
  change Paired _ ((s.goto _ rest).todo _)
  rw [State.goto_self]
  exact paired before

/-- Another mutex changes hands. -/
theorem Tidy.holdOther (tidy : Tidy s) {op : Op} {rest : List Op} (here : s.todo t = op :: rest)
    (quiet : ¬op.OnSock) {mutex : Mutex} (other : mutex ≠ .gMtxSock) {holder : Option (Thread θ)}
    {ready : Mutex → Bool} {misused : Bool}
    : Tidy
        { s.goto t rest with owner := Function.update s.owner mutex holder, ready, misused } := by
  have same : Function.update s.owner mutex holder .gMtxSock = s.owner .gMtxSock :=
    Function.update_of_ne other.symm ..
  refine tidy.hold here (fun n _ => ?_) fun paired => ?_
  · rw [same]
    exact id
  · rw [same]
    exact (paired_cons quiet).mp paired

/-- `g_mtx_sock` has no holder any more. -/
theorem Tidy.release (tidy : Tidy s) {op : Op} {rest : List Op} (here : s.todo t = op :: rest)
    (paired : Paired (s.owner .gMtxSock = some t) (op :: rest) → Paired False rest)
    {ready : Mutex → Bool} {misused : Bool}
    : Tidy
        {
          s.goto t rest with
          owner := Function.update s.owner .gMtxSock none
          ready
          misused
        } := by
  have free {t : Thread θ} (holds : Function.update s.owner .gMtxSock none .gMtxSock = some t)
      : False := by
    rw [Function.update_self] at holds
    cases holds
  exact tidy.hold here (fun n _ holds => (free holds).elim) fun before =>
    (paired before).weaken free

theorem Tidy.lock (tidy : Tidy s) {mutex : Mutex} {rest : List Op}
    (here : s.todo t = .lock mutex :: rest)
    (performed : s.perform t rest (.lock mutex) = some s')
    : Tidy s' := by
  simp only [State.perform] at performed
  split at performed
  · rw [← Option.some.inj performed]
    refine tidy.hold here (fun n _ => id) fun paired => ?_
    by_cases quiet : (Op.lock mutex).OnSock
    · cases mutex with
      | gMtxSock => exact paired.2.weaken fun _ => trivial
      | _ => exact quiet.elim
    · exact (paired_cons quiet).mp paired
  · split at performed
    · rw [← Option.some.inj performed]
      cases mutex with
      | gMtxSock =>
          refine tidy.hold here (fun n other holds => ?_) fun paired =>
            paired.2.weaken fun _ => trivial
          rw [Function.update_self] at holds
          exact absurd (Option.some.inj holds).symm other
      | _ => exact tidy.holdOther here id (fun same => by cases same)
    · cases performed

theorem Tidy.unlock (tidy : Tidy s) {mutex : Mutex} {rest : List Op}
    (here : s.todo t = .unlock mutex :: rest)
    : Tidy { s.goto t rest with owner := Function.update s.owner mutex none } := by
  cases mutex with
  | gMtxSock => exact tidy.release here id
  | _ => exact tidy.holdOther here id (fun same => by cases same)

theorem Tidy.mutexInit (tidy : Tidy s) {mutex : Mutex} {rest : List Op}
    (here : s.todo t = .mutexInit mutex :: rest) {ready : Mutex → Bool}
    : Tidy { s.goto t rest with ready, owner := Function.update s.owner mutex none } := by
  by_cases other : mutex = .gMtxSock
  · subst other
    refine tidy.release here fun paired => ?_
    exact ((paired_cons id).mp paired).weaken False.elim
  · exact tidy.holdOther here id other

/-- Another thread than a timer thread is created. -/
theorem Tidy.spawn (tidy : Tidy s) (other : ∀ n, t ≠ .timer n) {ops : List Op}
    : Tidy (s.spawn t ops) := by
  refine (tidy.goto fun n same => absurd same (other n)).lives fun n lives => ?_
  rwa [Function.update_of_ne (other n).symm] at lives

/-- The next timer thread is created. -/
theorem Tidy.spawnTimer (tidy : Tidy s)
    : Tidy
        { s.spawn (.timer s.timers) _waitSelfConnect with timers := s.timers + 1 } := by
  refine ⟨fun n => ?_, fun n late => ?_⟩
  · change Paired (s.owner .gMtxSock = some (.timer n))
      ((s.goto (.timer s.timers) _waitSelfConnect).todo (.timer n))
    by_cases same : n = s.timers
    · subst same
      have free := tidy.paired s.timers
      rw [(tidy.unborn s.timers (Nat.le_refl _)).1] at free
      rw [State.goto_self]
      exact paired_waitSelfConnect free
    · rw [State.goto_of_ne fun same' => same (Thread.timer.inj same')]
      exact tidy.paired n
  · have later : s.timers < n := late
    have other : (.timer n : Thread θ) ≠ .timer s.timers := fun same =>
      Nat.ne_of_gt later (Thread.timer.inj same)
    obtain ⟨idle, dead⟩ := tidy.unborn n (Nat.le_of_lt later)
    exact ⟨(State.goto_of_ne other).trans idle, (Function.update_of_ne other ..).trans dead⟩

/-- A thread makes a call. -/
theorem Tidy.perform (tidy : Tidy s) {op : Op} {rest : List Op} (here : s.todo t = op :: rest)
    (performed : s.perform t rest op = some s')
    : Tidy s' := by
  have moved (quiet : ¬op.OnSock) : Tidy (s.goto t rest) :=
    tidy.instead here quiet quiet_nil
  cases op with
  | lock mutex => exact tidy.lock here performed
  | unlock mutex => exact Option.some.inj performed ▸ tidy.unlock here
  | mutexInit mutex => exact Option.some.inj performed ▸ tidy.mutexInit here
  | createEvt =>
      have spawned : Tidy ((s.goto t rest).spawn (.evt s.evts) [.setRun true]) :=
        (moved id).spawn fun n same => by cases same
      exact Option.some.inj performed ▸ { spawned with }
  | createTimer =>
      have spawned := (moved id).spawnTimer
      exact Option.some.inj performed ▸ { spawned with }
  | createWorker w =>
      exact Option.some.inj performed ▸ (moved id).spawn fun n same => by cases same
  | popPool pool =>
      simp only [State.perform] at performed
      split at performed
      · have unlock : Quiet [.unlock .gMtxPols] := by simp [Quiet, Op.OnSock]
        exact Option.some.inj performed ▸ tidy.instead here id unlock
      · rename_i entry _
        have release : Quiet (.unlock .gMtxPols :: releasePool entry.1 entry.2) :=
          List.forall_mem_cons.mpr ⟨id, quiet_releasePool entry.1 entry.2⟩
        have released := tidy.instead here id release
        exact Option.some.inj performed ▸ { released with }
  | popPools =>
      have release : Quiet (s.liPols.flatMap fun entry => releasePool entry.1 entry.2) :=
        Quiet.flatMap fun entry => quiet_releasePool entry.1 entry.2
      have released := tidy.instead here id release
      exact Option.some.inj performed ▸ { released with }
  | joinEvt | joinTimer => exact (moved id).joinLast performed
  | joinWorker w =>
      simp only [State.perform, State.join] at performed
      split at performed
      · cases performed
      · exact Option.some.inj performed ▸ moved id
  | callback => cases performed
  | leave =>
      refine Option.some.inj performed ▸ (moved id).lives fun n lives => ?_
      rcases eq_or_ne t (.timer n) with rfl | other
      · rw [Function.update_self] at lives
        cases lives
      · rwa [Function.update_of_ne other.symm] at lives
  | _ => exact Option.some.inj performed ▸ { moved id with }

/-- A library thread other than the timer thread begins a turn. -/
theorem Tidy.begin (tidy : Tidy s) (other : ∀ n, t ≠ .timer n) {ops : List Op}
    : Tidy (s.goto t ops) :=
  tidy.goto fun n same => absurd same (other n)

theorem Tidy.serve (tidy : Tidy s) {n : Nat} {served : Served} (idle : s.todo (.timer n) = [])
    (lives : s.lives (.timer n) = true)
    : Tidy (s.goto (.timer n) served.ops) := by
  have free := tidy.paired n
  rw [idle] at free
  refine tidy.goto fun m same => ?_
  obtain rfl := Thread.timer.inj same
  exact ⟨tidy.born (Or.inr lives), paired_served free⟩

/-- A thread of the application, or a callback, calls the library. -/
theorem Tidy.call (tidy : Tidy s) {call : Call} (outside : s.outside t = true)
    (spares : (Action.call t call).Spares)
    : Tidy (s.goto t (call.ops s.trpoInit s.pools ++ s.todo t)) := by
  refine tidy.goto fun n same => ?_
  subst same
  have other : call ≠ .timerCount := by
    rintro rfl
    cases spares
  have busy : s.todo (.timer n) ≠ [] := by
    intro idle
    simp only [State.outside, idle] at outside
    cases outside
  exact ⟨tidy.born (Or.inl busy), (paired_append (quiet_call other)).mpr (tidy.paired n)⟩

theorem Tidy.step (tidy : Tidy s) {action : Action θ} (spares : action.Spares)
    (stepped : step s action = some s')
    : Tidy s' := by
  unfold Main.step at stepped
  split at stepped
  · cases stepped
  · cases action with
    | init ok =>
        simp only at stepped
        split at stepped
        · exact Option.some.inj stepped ▸ tidy.begin fun n same => by cases same
        · cases stepped
    | deinit =>
        simp only at stepped
        split at stepped
        · have begun : Tidy (s.goto .main clDeinit) := tidy.begin fun n same => by cases same
          exact Option.some.inj stepped ▸ { begun with }
        · cases stepped
    | call t call =>
        simp only at stepped
        split at stepped
        · rename_i able
          have called := tidy.call able.2 spares
          exact Option.some.inj stepped ▸ { called with }
        · cases stepped
    | go t =>
        simp only at stepped
        split at stepped
        · cases stepped
        · rename_i here
          exact tidy.perform here stepped
    | back t =>
        simp only at stepped
        split at stepped
        · rename_i here
          exact Option.some.inj stepped ▸ tidy.instead here id quiet_nil
        · cases stepped
    | loop n =>
        obtain ⟨_, stepped⟩ := turn_eq_some stepped
        split at stepped
        · cases stepped
        · split at stepped
          · exact Option.some.inj stepped ▸ { tidy with }
          · refine Option.some.inj stepped ▸ tidy.lives fun m lives => ?_
            rwa [Function.update_of_ne fun same => by cases same] at lives
    | wake n token popped =>
        obtain ⟨_, stepped⟩ := turn_eq_some stepped
        split at stepped
        · have begun : Tidy (s.goto (.evt n) (_evtThread popped)) :=
            tidy.begin fun n same => by cases same
          exact Option.some.inj stepped ▸ { begun with }
        · cases stepped
    | serve n served =>
        have idle := turn_idle stepped
        obtain ⟨lives, _, rfl⟩ := serve_eq_some stepped
        have begun : Tidy (s.goto (.timer n) served.ops) := tidy.serve idle lives
        exact { begun with }
    | work w jobs =>
        obtain ⟨_, stepped⟩ := turn_eq_some stepped
        exact Option.some.inj stepped ▸ tidy.begin fun n same => by cases same

/-- The timer thread never tries to lock `g_mtx_sock` while it holds it, in runs in which no
callback of a timer counts the timers.
-/
theorem sock_not_relocked {actions : List (Action θ)} {s : State θ}
    (ran
      : Transition.run (Transition.restrict (fun _ => Action.Spares) step) State.initial actions
        = some s)
    (n : Nat)
    : ¬s.Relocks n := by
  have preserved {s : State θ} {action : Action θ} {s' : State θ} (tidy : Tidy s)
      (stepped : Transition.restrict (fun _ => Action.Spares) step s action = some s')
      : Tidy s' := by
    obtain ⟨spares, stepped⟩ := Transition.restrict_eq_some_iff.mp stepped
    exact tidy.step spares stepped
  exact (Transition.run_invariant preserved tidy_initial ran).not_relocks n

/-- A timer is set and runs out, and its callback runs. -/
def expiring : List (Action Unit) :=
  [.init fun _ => true] ++ going .main 15 ++ going (.evt 0) 1 ++ going (.timer 0) 7
    ++ [.call (.app ()) .timerSet] ++ going (.app ()) 1
    ++ [.serve 0 (.new (some true))] ++ going (.timer 0) 4
    ++ [.serve 0 (.expiry (some false))] ++ going (.timer 0) 1

/-- The callback may set and cancel timers. -/
theorem sock_not_relocked_set
    : let s :=
        (Transition.run (Transition.restrict (fun _ => Action.Spares) step) State.initial
          (expiring
            ++ [.call (.timer 0) .timerSet, .go (.timer 0), .call (.timer 0) .timerCancel])).get
          (by decide)
      s.owner .gMtxSock = some (.timer 0) ∧ ¬s.Relocks 0 :=
  ⟨by rfl, sock_not_relocked (Option.some_get _).symm 0⟩

/-- When it counts them, the timer thread waits for itself. -/
theorem sock_not_relocked_count
    : ¬∀ (actions : List (Action Unit)) (s : State Unit),
        Transition.run step State.initial actions = some s → ∀ n, ¬s.Relocks n := by
  intro claim
  have never :=
    claim (expiring ++ [.call (.timer 0) .timerCount]) _
      (Option.some_get (show _ = true by decide)).symm 0
  exact never ⟨by rfl, by rfl⟩

end Libccll.Main
