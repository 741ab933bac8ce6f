import Mathlib.Logic.Function.Basic
import Libccll.Main.Startup

/-! The mutexes that the calls of the library need, and those that `cl_init` and `cl_deinit` leave
initialised on their way.
-/

namespace Libccll.Main

-----------------------------------------------------------------------------------------
-- What is needed
-----------------------------------------------------------------------------------------

/-- The call locks the mutex, or leads to calls that do. -/
def Op.Needs (mutex : Mutex) : Op → Prop
  | .lock m => m = mutex
  | .createWorker _ | .popPool _ | .popPools => mutex = .gMtxObjs
  | _ => False

/-- The timer thread takes `g_mtx_sock` for it. -/
def Served.Locks : Served → Prop
  | .unread | .quit _ => False
  | _ => True

instance (mutex : Mutex) (op : Op) : Decidable (op.Needs mutex) := by
  unfold Op.Needs
  split <;> infer_instance

instance (served : Served) : Decidable served.Locks := by
  unfold Served.Locks
  split <;> infer_instance

-----------------------------------------------------------------------------------------
-- What `main` has to do
-----------------------------------------------------------------------------------------

/-- What the calls that are left to `main` depend on; `calm` says that `l_sm_evt` has no token. -/
structure Outlook where
  ready : Mutex → Bool
  up : Bool
  served : Bool
  calm : Bool

def Outlook.after (o : Outlook) : Op → Outlook
  | .mutexInit mutex => { o with ready := Function.update o.ready mutex true }
  | .mutexDestroy mutex => { o with ready := Function.update o.ready mutex false }
  | .setInit init => { o with up := init, served := o.served || init }
  | .semInit => { o with calm := true }
  | .semPost => { o with calm := false }
  | _ => o

/-- The call is in order there, before the next one. The event thread is created when its mutex is
initialised, or is so in the next call.
-/
def Outlook.Allows (o : Outlook) (next : Option Op) : Op → Prop
  | .mutexInit _ => o.served = false
  | .mutexDestroy _ => o.up = false
  | .setInit init => init = true → ∀ mutex, o.ready mutex = true
  | .createEvt =>
      o.served = false
      ∧ o.ready .gMtxObjs = true
      ∧ (o.ready .lMtxEvt = true ∨ (o.calm = true ∧ next = some (.mutexInit .lMtxEvt)))
  | .createTimer => o.ready .gMtxObjs = true ∧ o.ready .gMtxSock = true
  | op => ∀ mutex, op.Needs mutex → o.ready mutex = true

/-- One call after the other is in order. -/
def Covered (o : Outlook) : List Op → Prop
  | [] => True
  | op :: rest => o.Allows rest.head? op ∧ Covered (o.after op) rest

/-- Also made by other threads than `main`, and without effect on what `main` depends on. -/
def Op.Plain : Op → Prop
  | .lock _ | .unlock _ | .setRun _ | .accept | .send _ | .addPool .. | .popPool _
  | .createWorker _ | .flagExit _ | .joinWorker _ | .callback | .leave => True
  | _ => False

/-- The end of a session begins with it. -/
def Op.Closes : Op → Prop
  | .mutexDestroy .gMtxObjs | .mutexDestroy .gMtxPols | .setInit false => True
  | _ => False

/-- Plain calls that need these mutexes at most. -/
def Within (mutexes : List Mutex) (ops : List Op) : Prop :=
  ∀ op ∈ ops, op.Plain ∧ ∀ mutex, op.Needs mutex → mutex ∈ mutexes

/-- At least as much is initialised. -/
structure Outlook.Least (o o' : Outlook) : Prop where
  ready : ∀ mutex, o.ready mutex = true → o'.ready mutex = true
  up : o'.up = o.up
  served : o'.served = o.served
  calm : o.served = true ∨ (o.calm = true → o'.calm = true)

theorem Outlook.Least.after {o o' : Outlook} (least : o.Least o') (op : Op)
    : (o.after op).Least (o'.after op) := by
  obtain ⟨ready, up, served, calm⟩ := least
  cases op with
  | mutexInit m | mutexDestroy m =>
      refine ⟨fun mutex => ?_, up, served, calm⟩
      simp only [Outlook.after]
      rcases eq_or_ne mutex m with rfl | other
      · simp
      · simpa [other] using ready mutex
  | setInit init =>
      refine ⟨ready, rfl, by simp only [Outlook.after, served], ?_⟩
      rcases calm with served | calm
      · exact Or.inl (by simp only [Outlook.after, served, Bool.true_or])
      · exact Or.inr calm
  | semInit => exact ⟨ready, up, served, Or.inr fun _ => rfl⟩
  | semPost => exact ⟨ready, up, served, Or.inr id⟩
  | _ => exact ⟨ready, up, served, calm⟩

theorem Outlook.Least.allows {o o' : Outlook} (least : o.Least o') {next : Option Op} {op : Op}
    (allows : o.Allows next op)
    : o'.Allows next op := by
  obtain ⟨ready, up, served, calm⟩ := least
  cases op with
  | mutexInit m => exact served.trans allows
  | mutexDestroy m => exact up.trans allows
  | setInit init => exact fun init mutex => ready mutex (allows init mutex)
  | createEvt =>
      obtain ⟨unserved, objs, evt⟩ := allows
      refine ⟨served.trans unserved, ready _ objs, evt.imp (ready _) fun ⟨isCalm, next⟩ => ?_⟩
      refine ⟨(calm.resolve_left fun isServed => ?_) isCalm, next⟩
      exact Bool.false_ne_true (unserved.symm.trans isServed)
  | createTimer => exact allows.imp (ready _) (ready _)
  | _ => exact fun mutex needs => ready mutex (allows mutex needs)

theorem Covered.least {o o' : Outlook} (least : o.Least o') {ops : List Op}
    (covered : Covered o ops)
    : Covered o' ops := by
  induction ops generalizing o o' with
  | nil => trivial
  | cons op rest ih => exact ⟨least.allows covered.1, ih (least.after op) covered.2⟩

theorem Op.Plain.after {op : Op} (plain : op.Plain) (o : Outlook) : o.after op = o := by
  cases op <;> first | rfl | exact plain.elim

theorem Op.Plain.allows {op : Op} (plain : op.Plain) {o : Outlook} {next : Option Op}
    (ready : ∀ mutex, op.Needs mutex → o.ready mutex = true)
    : o.Allows next op := by
  cases op <;> first | exact ready | exact plain.elim

/-- Plain calls come first. -/
theorem Within.covered {o : Outlook} {mutexes : List Mutex} {ops rest : List Op}
    (within : Within mutexes ops) (ready : ∀ mutex ∈ mutexes, o.ready mutex = true)
    (covered : Covered o rest)
    : Covered o (ops ++ rest) := by
  induction ops with
  | nil => exact covered
  | cons op ops ih =>
      obtain ⟨⟨plain, needs⟩, within⟩ := List.forall_mem_cons.mp within
      refine ⟨plain.allows fun mutex needed => ready mutex (needs mutex needed), ?_⟩
      rw [plain.after]
      exact ih within

-----------------------------------------------------------------------------------------
-- The calls
-----------------------------------------------------------------------------------------

theorem Within.append {mutexes : List Mutex} {ops ops' : List Op} (within : Within mutexes ops)
    (within' : Within mutexes ops')
    : Within mutexes (ops ++ ops') :=
  List.forall_mem_append.mpr ⟨within, within'⟩

theorem Within.cons {mutexes : List Mutex} {ops : List Op} (op : Op) (plain : op.Plain)
    (needs : ∀ mutex, op.Needs mutex → mutex ∈ mutexes) (within : Within mutexes ops)
    : Within mutexes (op :: ops) :=
  List.forall_mem_cons.mpr ⟨⟨plain, needs⟩, within⟩

theorem within_nil {mutexes : List Mutex} : Within mutexes [] :=
  fun _ member => absurd member List.not_mem_nil

/-- A call that needs nothing. -/
theorem within_one {mutexes : List Mutex} (op : Op) (plain : op.Plain)
    (needless : ∀ mutex, ¬op.Needs mutex)
    : Within mutexes [op] :=
  within_nil.cons op plain fun mutex needs => absurd needs (needless mutex)

theorem Within.flatMap {α : Type*} {mutexes : List Mutex} {items : List α} {ops : α → List Op}
    (within : ∀ item, Within mutexes (ops item))
    : Within mutexes (items.flatMap ops) := by
  intro op member
  obtain ⟨item, _, inside⟩ := List.mem_flatMap.mp member
  exact within item op inside

/-- Between lock and unlock. -/
theorem Within.locked {mutexes : List Mutex} {ops : List Op} {mutex : Mutex}
    (within : Within mutexes ops) (member : mutex ∈ mutexes)
    : Within mutexes (.lock mutex :: ops ++ [.unlock mutex]) :=
  (within.cons (.lock mutex) trivial fun _ same => same ▸ member).append
    (within_one (.unlock mutex) trivial fun _ => id)

theorem within_clFree {mutexes : List Mutex} (objs : .gMtxObjs ∈ mutexes)
    : Within mutexes clFree :=
  within_nil.locked objs

theorem within_clMalloc {mutexes : List Mutex} (objs : .gMtxObjs ∈ mutexes) {ok : Bool}
    : Within mutexes (clMalloc ok) := by
  rw [clMalloc]
  split
  · exact within_clFree objs
  · exact within_nil

theorem within_frees {mutexes : List Mutex} (objs : .gMtxObjs ∈ mutexes) {n : Nat}
    : Within mutexes (List.replicate n clFree).flatten := by
  intro op inside
  obtain ⟨ops, free, inside⟩ := List.mem_flatten.mp inside
  exact within_clFree objs op (List.eq_of_mem_replicate free ▸ inside)

theorem within_releasePool (pool amt : Nat) : Within [.gMtxObjs] (releasePool pool amt) := by
  have free : Within [.gMtxObjs] clFree := within_clFree List.mem_cons_self
  refine ((Within.flatMap fun i => ?_).append free).append free
  exact (within_one (.joinWorker (pool, i)) trivial fun _ => id).cons (.flagExit (pool, i)) trivial
    fun _ needs => needs.elim

theorem within_evtThread {popped : Bool}
    : Within [.lMtxEvt, .gMtxObjs] (_evtThread popped) := by
  have free : Within [.lMtxEvt, .gMtxObjs] clFree := within_clFree (by simp)
  refine (within_nil.locked List.mem_cons_self).append ?_
  split
  · exact free.cons .callback trivial fun _ needs => needs.elim
  · exact within_nil

theorem within_waitSelfConnect : Within [.gMtxSock, .gMtxObjs] _waitSelfConnect := by
  have malloc : Within [.gMtxSock, .gMtxObjs] (clMalloc true) := within_clMalloc (by simp)
  have rest := (malloc.locked List.mem_cons_self).cons .accept trivial fun _ needs => needs.elim
  exact malloc.append rest

theorem within_served {served : Served} {mutexes : List Mutex} (objs : .gMtxObjs ∈ mutexes)
    (sock : served.Locks → .gMtxSock ∈ mutexes)
    : Within mutexes served.ops := by
  have free : Within mutexes clFree := within_clFree objs
  cases served with
  | unread => exact within_nil
  | quit nodes =>
      exact ((within_frees objs).append free).append (within_one .leave trivial fun _ => id)
  | cancel found =>
      cases found with
      | false => exact within_nil.locked (sock trivial)
      | true => exact free.locked (sock trivial)
  | new added =>
      cases added with
      | none => exact within_nil.locked (sock trivial)
      | some added =>
          refine Within.locked ((within_clMalloc objs).append ?_) (sock trivial)
          split
          · exact within_nil
          · exact free
  | expiry usedUp =>
      cases usedUp with
      | none => exact within_nil.locked (sock trivial)
      | some usedUp =>
          refine Within.locked (Within.cons .callback trivial (fun _ needs => needs.elim) ?_)
            (sock trivial)
          split
          · exact free
          · exact within_nil

theorem within_workerThread {exit : Bool} {jobs : Nat}
    : Within [.gMtxObjs] (_workerThread exit jobs) := by
  rw [_workerThread]
  split
  · exact (within_frees List.mem_cons_self).append (within_one .leave trivial fun _ => id)
  · exact (within_clFree List.mem_cons_self).cons .callback trivial fun _ needs => needs.elim

def everyMutex : List Mutex := [.gMtxObjs, .gMtxPols, .gMtxSock, .lMtxEvt, .lMtxSub]

theorem mem_everyMutex (mutex : Mutex) : mutex ∈ everyMutex := by
  cases mutex <;> simp [everyMutex]

theorem within_clTrpoCreate {gInit fits : Bool} {pool : Nat} {amount : Int}
    : Within everyMutex (clTrpoCreate gInit pool amount fits) := by
  have malloc : Within everyMutex (clMalloc true) := within_clMalloc (mem_everyMutex _)
  have threads : Within everyMutex (_creThrds pool amount.toNat) := Within.flatMap fun i =>
    malloc.append (within_nil.cons (.createWorker (pool, i)) trivial fun _ _ => mem_everyMutex _)
  rw [clTrpoCreate]
  split
  · exact within_nil
  · split
    · exact within_nil.locked (mem_everyMutex _)
    · have start := (malloc.append malloc).append threads
      refine (start.cons (.lock .gMtxPols) trivial fun _ _ => mem_everyMutex _).append ?_
      exact (within_one (.unlock .gMtxPols) trivial fun _ => id).cons (.addPool pool _) trivial
        fun _ needs => needs.elim

/-- A call of the library is plain, but for the token of `cl_evt_pub`. -/
theorem call_plain {gInit : Bool} {pool : Nat} {call : Call} {op : Op}
    (member : op ∈ call.ops gInit pool)
    : op.Plain ∨ op = .semPost := by
  have plain {ops : List Op} (within : Within everyMutex ops) (member : op ∈ ops)
      : op.Plain ∨ op = .semPost :=
    Or.inl (within op member).1
  have free : Within everyMutex clFree := within_clFree (mem_everyMutex _)
  have malloc {ok : Bool} : Within everyMutex (clMalloc ok) := within_clMalloc (mem_everyMutex _)
  cases call with
  | malloc ok => exact plain malloc member
  | free null | allocGetStat null =>
      cases null with
      | false => exact plain free member
      | true => exact plain within_nil member
  | printBytes valid | shExec valid =>
      cases valid with
      | false => exact plain within_nil member
      | true => exact plain (malloc.append free) member
  | allocingCnt | allocingBytes => exact plain free member
  | evtPub ok =>
      rcases List.mem_append.mp member with locked | token
      · exact plain (malloc.locked (mem_everyMutex _)) locked
      · refine Or.inr ?_
        split at token
        · exact List.mem_singleton.mp token
        · exact absurd token List.not_mem_nil
  | evtSub subscription =>
      cases subscription with
      | nullCallback => exact plain within_nil member
      | existing => exact plain (within_nil.locked (mem_everyMutex _)) member
      | new ok => exact plain (malloc.locked (mem_everyMutex _)) member
  | evtUnsub nullCallback found =>
      cases nullCallback with
      | true => exact plain within_nil member
      | false =>
          cases found with
          | false => exact plain (within_nil.locked (mem_everyMutex _)) member
          | true => exact plain (free.locked (mem_everyMutex _)) member
  | timerSet | timerCancel =>
      exact plain (within_one (.send _) trivial fun _ => id) member
  | timerCount => exact plain (within_nil.locked (mem_everyMutex _)) member
  | trpoCreate amount fits => exact plain within_clTrpoCreate member
  | trpoDestroy pool =>
      have destroy : Within everyMutex (clTrpoDestroy pool) :=
        (within_nil.cons (.popPool pool) trivial fun _ _ => mem_everyMutex _).cons
          (.lock .gMtxPols) trivial fun _ _ => mem_everyMutex _
      exact plain destroy member
  | trpoPost found =>
      cases gInit with
      | false => exact plain within_nil member
      | true => exact plain (malloc.locked (mem_everyMutex _)) member

-----------------------------------------------------------------------------------------
-- `cl_init` and `cl_deinit`
-----------------------------------------------------------------------------------------

theorem Covered.append {o : Outlook} {ops rest : List Op} (covered : Covered o ops)
    (covered' : Covered (ops.foldl Outlook.after o) rest)
    : Covered o (ops ++ rest) := by
  induction ops generalizing o with
  | nil => exact covered'
  | cons op ops ih =>
      obtain ⟨allows, covered⟩ := covered
      refine ⟨?_, ih covered covered'⟩
      cases ops with
      | nil =>
          cases op with
          | createEvt =>
              obtain ⟨unserved, objs, evt⟩ := allows
              exact ⟨unserved, objs, Or.inl (evt.resolve_right fun next => by cases next.2)⟩
          | _ => exact allows
      | cons _ _ => exact allows

/-- When `cl_init` runs, nothing has been served. -/
structure Outlook.Starts (o : Outlook) : Prop where
  objs : o.ready .gMtxObjs = true
  pols : o.ready .gMtxPols = true
  up : o.up = false
  served : o.served = false

variable {o : Outlook} {ok : Outcomes}

theorem covered_clEvtInit (starts : o.Starts) (init : ok .evtMutexInit = true)
    : Covered o (clEvtInit ok).ops := by
  obtain ⟨objs, pols, up, served⟩ := starts
  unfold clEvtInit
  split_ifs <;>
    simp_all [Covered, Outlook.Allows, Outlook.after, Op.Needs, clEvtDeinit, Function.update]

theorem covered_clTimerInit (starts : o.Starts) : Covered o (clTimerInit ok).ops := by
  obtain ⟨objs, pols, up, served⟩ := starts
  unfold clTimerInit _creSrvSock _creEpoll _connSrv
  split_ifs <;>
    simp_all [Covered, Outlook.Allows, Outlook.after, Op.Needs, Body.after, Body.orElse]

theorem covered_orFail {what rest : Body} (covered : Covered o what.ops)
    (covered' : what.ret = .succ → Covered (what.ops.foldl Outlook.after o) rest.ops)
    : Covered o (what.orFail rest).ops := by
  rcases ret : what.ret with _ | _
  · rw [Body.orFail_fail ret]
    exact covered
  · rw [Body.orFail, ret]
    exact covered.append (covered' ret)

/-- What `cl_init` does is in order, unless the mutex of the event thread cannot be initialised. -/
theorem covered_clInit (starts : o.Starts) {gInit : Bool} (init : ok .evtMutexInit = true)
    : Covered o (clInit false gInit ok).ops := by
  have log : Covered o (clLogInit gInit ok).ops
      ∧ (clLogInit gInit ok).ops.foldl Outlook.after o = o := by
    unfold clLogInit
    split_ifs <;> simp [Covered, Outlook.Allows, Outlook.after, Op.Needs]
  refine covered_orFail log.1 fun _ => ?_
  rw [log.2]
  refine covered_orFail (covered_clEvtInit starts init) fun evt => ?_
  have evtGood : ∀ call ∈ evtCalls, ok call = true := by
    by_contra bad
    have fails := (@clEvtInit_fail .initial ok (fun _ => false) bad).1
    cases evt.symm.trans fails
  rw [clEvtInit_succ evtGood]
  have starts' : (Outlook.mk
      (Function.update (Function.update o.ready .lMtxEvt true) .lMtxSub true) o.up o.served
      true).Starts := ⟨starts.objs, starts.pols, starts.up, starts.served⟩
  refine covered_orFail (covered_clTimerInit starts') fun timer => ?_
  have timerGood : ∀ call ∈ timerCalls, ok call = true := by
    intro call member
    refine eq_true_of_ne_false fun bad => ?_
    cases timer.symm.trans (clTimerInit_fail ⟨call, member, bad⟩).1
  rw [clTimerInit_succ timerGood]
  refine ⟨fun _ needs => needs.elim, fun _ mutex => ?_, trivial⟩
  have objs := starts.objs
  have pols := starts.pols
  cases mutex <;> simp [Outlook.after, objs, pols]

theorem covered_clDeinit (objs : o.ready .gMtxObjs = true) (pols : o.ready .gMtxPols = true)
    : Covered o clDeinit := by
  simp [clDeinit, clTrpoDeinit, clTimerDeinit, clEvtDeinit, clLogDeinit, clAllocDeinit, Covered,
    Outlook.Allows, Outlook.after, Op.Needs, objs, pols]

end Libccll.Main
