import Mathlib.Tactic.SplitIfs
import Libccll.Main.Calls

/-! `cl_init` called again and again: what each attempt leaves behind. The initialisers undo their
own steps, but `cl_init` does not undo the initialisers that have succeeded before one that fails.
-/

namespace Libccll.Main

-----------------------------------------------------------------------------------------
-- The process
-----------------------------------------------------------------------------------------

/-- The threads of the library that run and the descriptors that are open. Both are counted from the
first one on.
-/
structure World where
  sInit : Bool
  gInit : Bool
  evts : Nat
  evtThreads : List Nat
  timers : Nat
  timerThreads : List Nat
  nextFd : Nat
  fds : List Nat
  vars : Var → Nat

/-- One call of `cl_init`; `leaves` are the event threads that see `l_run` cleared meanwhile,
though nobody joins them.
-/
structure Attempt where
  ok : Outcomes
  leaves : Nat → Bool

/-- Before the first attempt. -/
def World.initial : World where
  sInit := false
  gInit := false
  evts := 0
  evtThreads := []
  timers := 0
  timerThreads := []
  nextFd := 0
  fds := []
  vars _ := 0

/-- `pthread_join` returns when the thread created last has left. -/
def World.perform (leaves : Nat → Bool) (w : World) : Op → World
  | .setInit init => { w with sInit := init }
  | .setLogInit init => { w with gInit := init }
  | .createEvt => { w with evts := w.evts + 1, evtThreads := w.evtThreads ++ [w.evts] }
  | .joinEvt =>
      { w with evtThreads := w.evtThreads.filter fun n => n + 1 ≠ w.evts ∧ leaves n = false }
  | .createTimer => { w with timers := w.timers + 1, timerThreads := w.timerThreads ++ [w.timers] }
  | .opens var =>
      {
        w with
        nextFd := w.nextFd + 1
        fds := w.nextFd :: w.fds
        vars := fun v => if v = var then w.nextFd else w.vars v
      }
  | .closes var => { w with fds := w.fds.erase (w.vars var) }
  | _ => w

def World.run (leaves : Nat → Bool) (w : World) (ops : List Op) : World :=
  ops.foldl (World.perform leaves) w

/-- What a function returns and leaves behind. -/
def World.execute (leaves : Nat → Bool) (w : World) (body : Body) : Ret × World :=
  (body.ret, w.run leaves body.ops)

def World.clInit (w : World) (attempt : Attempt) : Ret × World :=
  w.execute attempt.leaves (Main.clInit w.sInit w.gInit attempt.ok)

/-- No thread of the library runs, and no descriptor is open. -/
structure World.Clean (w : World) : Prop where
  evtThreads : w.evtThreads = []
  timerThreads : w.timerThreads = []
  fds : w.fds = []

/-- One event thread and one timer thread run. -/
structure World.Single (w : World) : Prop where
  evtThreads : w.evtThreads.length = 1
  timerThreads : w.timerThreads.length = 1

/-- What an attempt is to leave behind. -/
def Kept : Ret × World → Prop
  | (.fail, w) => w.Clean
  | (.succ, w) => w.Single

/-- Every attempt leaves behind what it is to. -/
def Atomic (w : World) : List Attempt → Prop
  | [] => True
  | attempt :: rest =>
      Kept (w.clInit attempt) ∧ Atomic (w.clInit attempt).2 rest

-----------------------------------------------------------------------------------------
-- Where an attempt fails
-----------------------------------------------------------------------------------------

def logCalls : List Sys := [.logMutexInit, .logMalloc]

def evtCalls : List Sys := [.evtSemInit, .evtPthreadCreate, .evtMutexInit, .subMutexInit]

def timerCalls : List Sys :=
  [.sockMutexInit, .fopen, .fread, .socket, .bind, .listen, .epollCreate, .timerPthreadCreate,
    .connSocket, .connect]

/-- The attempt gets past the log and the events, and fails in `cl_timer_init`. -/
def World.Breaks (w : World) (ok : Outcomes) : Prop :=
  w.sInit = false
  ∧ (w.gInit = true ∨ ∀ call ∈ logCalls, ok call = true)
  ∧ (∀ call ∈ evtCalls, ok call = true)
  ∧ ∃ call ∈ timerCalls, ok call = false

/-- No attempt fails in `cl_timer_init`. -/
def Unbroken (w : World) : List Attempt → Prop
  | [] => True
  | attempt :: rest => ¬w.Breaks attempt.ok ∧ Unbroken (w.clInit attempt).2 rest

/-- After attempts that left behind what they were to. -/
structure World.Settled (w : World) : Prop where
  up : w.sInit = true → w.Single
  down : w.sInit = false → w.Clean

theorem settled_initial : World.initial.Settled where
  up up := by cases up
  down _ := ⟨rfl, rfl, rfl⟩

variable {w : World} {ok : Outcomes} {leaves : Nat → Bool}

-----------------------------------------------------------------------------------------
-- The initialisers
-----------------------------------------------------------------------------------------

theorem World.execute_after {ops : List Op} {body : Body}
    : w.execute leaves (body.after ops) = (w.run leaves ops).execute leaves body :=
  congrArg (Prod.mk body.ret) List.foldl_append

theorem World.execute_orFail {what rest : Body} (succ : what.ret = .succ)
    : w.execute leaves (what.orFail rest) = (w.run leaves what.ops).execute leaves rest := by
  rw [Body.orFail, succ]
  exact World.execute_after

theorem Body.orFail_fail {what rest : Body} (fail : what.ret = .fail)
    : what.orFail rest = what := by
  rw [Body.orFail, fail]

theorem clLogInit_succ (good : w.gInit = true ∨ ∀ call ∈ logCalls, ok call = true)
    : (clLogInit w.gInit ok).ret = .succ
      ∧ w.run leaves (clLogInit w.gInit ok).ops = { w with gInit := true } := by
  unfold clLogInit
  split_ifs with up
  · exact ⟨rfl, by rw [← up]; rfl⟩
  · simp_all [logCalls]
  · simp_all [logCalls]
  · exact ⟨rfl, rfl⟩

theorem clLogInit_fail (bad : ¬(w.gInit = true ∨ ∀ call ∈ logCalls, ok call = true))
    : clLogInit w.gInit ok = ⟨.fail, []⟩ := by
  unfold clLogInit
  split_ifs <;> simp_all [logCalls]

theorem clEvtInit_succ (good : ∀ call ∈ evtCalls, ok call = true)
    : clEvtInit ok
      = ⟨.succ, [.semInit, .createEvt, .mutexInit .lMtxEvt, .mutexInit .lMtxSub]⟩ := by
  simp only [evtCalls, List.forall_mem_cons] at good
  simp [clEvtInit, good]

/-- When `cl_evt_init` fails, it has joined the thread it created. -/
theorem clEvtInit_fail (bad : ¬∀ call ∈ evtCalls, ok call = true)
    : (clEvtInit ok).ret = .fail
      ∧ (w.Clean → (w.run leaves (clEvtInit ok).ops).Clean)
      ∧ (w.run leaves (clEvtInit ok).ops).sInit = w.sInit := by
  have undone {w : World} {ops : List Op}
      (joined : w.evtThreads = [] → (w.run leaves ops).evtThreads = [])
      (timerThreads : (w.run leaves ops).timerThreads = w.timerThreads)
      (fds : (w.run leaves ops).fds = w.fds) (clean : w.Clean)
      : (w.run leaves ops).Clean :=
    ⟨joined clean.evtThreads, timerThreads.trans clean.timerThreads, fds.trans clean.fds⟩
  unfold clEvtInit
  split_ifs
  · exact ⟨rfl, id, rfl⟩
  · exact ⟨rfl, undone id rfl rfl, rfl⟩
  · refine ⟨rfl, undone (fun none => ?_) rfl rfl, rfl⟩
    simp [clEvtDeinit, World.run, World.perform, none]
  · refine ⟨rfl, undone (fun none => ?_) rfl rfl, rfl⟩
    simp [clEvtDeinit, World.run, World.perform, none]
  · simp_all [evtCalls]

theorem clTimerInit_succ (good : ∀ call ∈ timerCalls, ok call = true)
    : clTimerInit ok
      = ⟨.succ,
          [.mutexInit .gMtxSock, .opens .fp, .closes .fp, .opens .srvfd, .opens .epofd,
            .createTimer, .opens .clifd, .connect]⟩ := by
  simp only [timerCalls, List.forall_mem_cons] at good
  simp [clTimerInit, _creSrvSock, _creEpoll, _connSrv, Body.after, Body.orElse, good]

/-- When `cl_timer_init` fails, it leaves the event thread alone. -/
theorem clTimerInit_fail (bad : ∃ call ∈ timerCalls, ok call = false)
    : (clTimerInit ok).ret = .fail ∧ ∀ op ∈ (clTimerInit ok).ops, op ≠ .joinEvt := by
  unfold clTimerInit _creSrvSock _creEpoll _connSrv
  constructor
  · split_ifs <;> try rfl
    -- nothing has failed
    simp_all [timerCalls]
  · split_ifs <;> simp [Body.after, Body.orElse]

theorem World.perform_running {op : Op} (other : op ≠ .joinEvt)
    : w.evtThreads ⊆ (w.perform leaves op).evtThreads := by
  unfold World.perform
  split
  case h_4 => exact absurd rfl other
  case h_3 => exact List.subset_append_left _ _
  all_goals exact List.Subset.refl _

theorem World.run_running {ops : List Op} (others : ∀ op ∈ ops, op ≠ .joinEvt)
    : w.evtThreads ⊆ (w.run leaves ops).evtThreads := by
  induction ops generalizing w with
  | nil => exact List.Subset.refl _
  | cons op ops ih =>
      obtain ⟨other, others⟩ := List.forall_mem_cons.mp others
      exact List.Subset.trans (World.perform_running other) (ih others)

-----------------------------------------------------------------------------------------
-- An attempt
-----------------------------------------------------------------------------------------

/-- What is left of an attempt when the log and the events are initialised. -/
theorem World.clInit_timer {attempt : Attempt} (down : w.sInit = false)
    (log : w.gInit = true ∨ ∀ call ∈ logCalls, attempt.ok call = true)
    (evt : ∀ call ∈ evtCalls, attempt.ok call = true)
    : ∃ w' : World,
        w'.evtThreads = w.evtThreads ++ [w.evts]
        ∧ w'.timerThreads = w.timerThreads
        ∧ w.clInit attempt
          = w'.execute attempt.leaves
              ((clTimerInit attempt.ok).orFail (clTrpoInit.orFail ⟨.succ, [.setInit true]⟩)) := by
  obtain ⟨logged, ran⟩ := @clLogInit_succ w _ attempt.leaves log
  have ready := clEvtInit_succ evt
  refine ⟨{ w with gInit := true }.run attempt.leaves (clEvtInit attempt.ok).ops, ?_, ?_, ?_⟩
  · rw [ready]
    rfl
  · rw [ready]
    rfl
  · rw [World.clInit, Main.clInit, if_neg (by rw [down]; exact Bool.false_ne_true),
      World.execute_orFail logged, ran, World.execute_orFail (by rw [ready])]

theorem World.execute_timer (good : ∀ call ∈ timerCalls, ok call = true)
    : let after :=
        w.execute leaves ((clTimerInit ok).orFail (clTrpoInit.orFail ⟨.succ, [.setInit true]⟩))
      after.1 = .succ
      ∧ after.2.evtThreads = w.evtThreads
      ∧ after.2.timerThreads = w.timerThreads ++ [w.timers]
      ∧ after.2.sInit = true := by
  rw [clTimerInit_succ good]
  simp [World.execute, World.run, World.perform, Body.orFail, Body.after, clTrpoInit]

/-- An attempt that fails in `cl_timer_init` leaves the event thread behind. -/
theorem World.Breaks.unkept {attempt : Attempt} (breaks : w.Breaks attempt.ok)
    : ¬Kept (w.clInit attempt) := by
  obtain ⟨down, log, evt, timer⟩ := breaks
  obtain ⟨w', threads, _, made⟩ := World.clInit_timer down log evt
  obtain ⟨failed, others⟩ := clTimerInit_fail timer
  rw [made, Body.orFail_fail failed, World.execute, failed]
  intro clean
  have left : w.evts ∈ (w'.run attempt.leaves (clTimerInit attempt.ok).ops).evtThreads :=
    World.run_running others (threads ▸ List.mem_append_right _ (List.mem_singleton_self _))
  rw [clean.evtThreads] at left
  exact List.not_mem_nil left

/-- Any other attempt leaves behind what it is to. -/
theorem World.Settled.attempt {attempt : Attempt} (settled : w.Settled)
    (unbroken : ¬w.Breaks attempt.ok)
    : Kept (w.clInit attempt) ∧ (w.clInit attempt).2.Settled := by
  rcases Bool.eq_false_or_eq_true w.sInit with up | down
  · have same : w.clInit attempt = (.succ, w) := by
      rw [World.clInit, Main.clInit, if_pos up]
      rfl
    rw [same]
    exact ⟨settled.up up, settled⟩
  · have clean := settled.down down
    have failed {w' : World} (clean' : w'.Clean) (same : w'.sInit = w.sInit) : w'.Settled :=
      ⟨fun up => (by rw [same, down] at up; cases up), fun _ => clean'⟩
    by_cases log : w.gInit = true ∨ ∀ call ∈ logCalls, attempt.ok call = true
    · by_cases evt : ∀ call ∈ evtCalls, attempt.ok call = true
      · have timer : ∀ call ∈ timerCalls, attempt.ok call = true := fun call member =>
          eq_true_of_ne_false fun bad => unbroken ⟨down, log, evt, call, member, bad⟩
        obtain ⟨w', evtThreads, timerThreads, made⟩ := World.clInit_timer down log evt
        obtain ⟨ret, evts, timers, up⟩ := @World.execute_timer w' _ attempt.leaves timer
        rw [← made] at ret evts timers up
        rw [evtThreads, clean.evtThreads] at evts
        rw [timerThreads, clean.timerThreads] at timers
        have single : (w.clInit attempt).2.Single :=
          ⟨congrArg List.length evts, congrArg List.length timers⟩
        generalize w.clInit attempt = result at *
        obtain ⟨_, w''⟩ := result
        obtain rfl : _ = Ret.succ := ret
        exact ⟨single, fun _ => single, fun down => by rw [up] at down; cases down⟩
      · obtain ⟨logged, ran⟩ := @clLogInit_succ w _ attempt.leaves log
        obtain ⟨fails, kept, same⟩ :=
          @clEvtInit_fail { w with gInit := true } _ attempt.leaves evt
        have made : w.clInit attempt = { w with gInit := true }.execute attempt.leaves
            (clEvtInit attempt.ok) := by
          rw [World.clInit, Main.clInit, if_neg (by rw [down]; exact Bool.false_ne_true),
            World.execute_orFail logged, ran, Body.orFail_fail fails]
        have clean' := kept ⟨clean.evtThreads, clean.timerThreads, clean.fds⟩
        rw [made, World.execute, fails]
        exact ⟨clean', failed clean' same⟩
    · have same : w.clInit attempt = (.fail, w) := by
        rw [World.clInit, Main.clInit, if_neg (by rw [down]; exact Bool.false_ne_true),
          clLogInit_fail log]
        rfl
      rw [same]
      exact ⟨clean, settled⟩

-----------------------------------------------------------------------------------------
-- Histories
-----------------------------------------------------------------------------------------

theorem World.Settled.atomic_iff (settled : w.Settled) (attempts : List Attempt)
    : Atomic w attempts ↔ Unbroken w attempts := by
  induction attempts generalizing w with
  | nil => exact Iff.rfl
  | cons attempt rest ih =>
      by_cases breaks : w.Breaks attempt.ok
      · exact iff_of_false (fun kept => breaks.unkept kept.1) fun unbroken => unbroken.1 breaks
      · obtain ⟨kept, settled⟩ := settled.attempt breaks
        simp only [Atomic, Unbroken, kept, breaks, not_false_eq_true, true_and]
        exact ih settled

/-- Whatever fails and however often `cl_init` is called: a failed attempt leaves no thread and no
descriptor behind and a successful one has one thread of each kind running, if and only if no
attempt that initialises the log and the events fails after that.
-/
theorem clInit_atomic_iff (attempts : List Attempt)
    : Atomic .initial attempts ↔ Unbroken .initial attempts :=
  settled_initial.atomic_iff attempts

/-- The connection to the timer thread fails: both threads are left. -/
theorem clInit_atomic_connect : ¬∀ attempts : List Attempt, Atomic .initial attempts := by
  intro claim
  have kept := (claim [⟨fun call => call ≠ .connect, fun _ => false⟩]).1
  have left : [0] = [] := kept.evtThreads
  cases left

end Libccll.Main
