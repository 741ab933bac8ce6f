import Libccll.Timers.Registry
import Libccll.Timers.Thread

/-! `sys/timer.c`, one kernel call at a time.
In the middle of an operation the timer thread has some calls still to make, and between any two
of them other threads of the process open and close descriptors of their own.
-/

namespace Libccll.Timers.Descriptors

open Foundation

/-- Whose an open descriptor is: it belongs to a node of `g_li_sock`, or to another thread. -/
inductive Owner where
  | node (inst : Nat)
  | others
  deriving DecidableEq

/-- What the thread does to a node, in the list or at the kernel. -/
inductive Op where
  | epollDel (tmr : Timer)
  | disarm (tmr : Timer)
  | close (tmr : Timer)
  | listDel (tmr : Timer)
  deriving DecidableEq

/-- What the thread is at; behind what it has to do it may leave. -/
inductive Work where
  | waiting
  | creating (sec ms : UInt16) (repeats : UInt32) (cb : UInt64)
  | watching (sec ms : UInt16) (tmr : Timer)
  | starting (sec ms : UInt16) (tmr : Timer)
  | doing (ops : List Op) (leaves : Bool)
  | ended

/-- A call of `close` by the timer thread: the node it was for, and whose the descriptor was. -/
structure Closing where
  inst : Nat
  owner : Option Owner
  deriving DecidableEq

/-- The server, and the descriptors of the whole process. The last field is history. -/
structure State where
  server : Server
  table : Nat → Option Owner
  work : Work
  closed : List Closing

/-- The thread reads a message, is told of an expiry, or leaves its loop; it makes its next call,
which the kernel answers with `none` where it fails; another thread opens or closes a descriptor.
-/
inductive Action where
  | message (call : Call)
  | expire (fd : Nat)
  | destroy
  | proceed (answer : Option Nat)
  | openFd (fd : Nat)
  | closeFd (fd : Nat)

def Op.apply : Op → Server → Server
  | .epollDel tmr => _epollDel tmr.fd
  | .disarm tmr => timerfdSettime tmr.fd disarmed
  | .close tmr => Timers.close tmr.fd
  | .listDel tmr => Timers.listDel tmr

/-- `_cre_cli_node`, when the descriptor cannot be watched or started. -/
def creFailed (tmr : Timer) : List Op := [.listDel tmr, .close tmr]

/-- `_rmv_timer`, when it has found the node. -/
def rmvTimer (tmr : Timer) : List Op :=
  [.epollDel tmr, .disarm tmr, .close tmr, .listDel tmr, .close tmr]

/-- `_cli_timer_proc`, at the last repeat. -/
def usedUp (tmr : Timer) : List Op := [.epollDel tmr, .disarm tmr, .close tmr, .listDel tmr]

/-- The loop behind `TMROUT1722`, for one node. -/
def release (tmr : Timer) : List Op := [.epollDel tmr, .listDel tmr, .close tmr]

def State.perform (s : State) : Op → State
  | .close tmr =>
      {
        s with
        server := Timers.close tmr.fd s.server
        table := Function.update s.table tmr.fd none
        closed := s.closed ++ [⟨tmr.inst, s.table tmr.fd⟩]
      }
  | op => { s with server := op.apply s.server }

/-- `_srv_timer_proc` with the message of a call, up to its first kernel call. -/
def State.message (s : State) : Call → State
  | .clTimerSet sec ms repeats cb =>
      if s.server.liSock.any (·.cb = cb) then
        s
      else if s.server.liSock.length > maxTimerCnt then
        s
      else
        { s with work := .creating sec ms repeats.toUInt32 cb }
  | .clTimerCancel cb =>
      match s.server.liSock.find? (fun tmr => tmr.srv = false ∧ tmr.cb = cb) with
      | none => s
      | some tmr => { s with work := .doing (rmvTimer tmr) false }

/-- `_cli_timer_proc`, up to its first kernel call after the callback. -/
def State.expire (s : State) (fd : Nat) : State :=
  match s.server.liSock.find? (fun tmr => ¬(tmr.srv = true ∨ tmr.fd ≠ fd)) with
  | none => s
  | some tmr =>
      if tmr.repeats = 1 then
        { s with work := .doing (usedUp tmr) false }
      else
        { s with server := (_cliTimerProc fd s.server).2 }

/-- `timerfd_create` returns a descriptor, and the new node is enqueued. -/
def State.create (s : State) (fd : Nat) (sec ms : UInt16) (repeats : UInt32) (cb : UInt64)
    : State :=
  let inst := s.server.created + 1
  let newCli := { _creNode fd cb inst with repeats }
  {
    s with
    server :=
      listAdd newCli { s.server.setTimerFd fd (some ⟨inst, disarmed⟩) with created := inst }
    table := Function.update s.table fd (some (.node inst))
    work := .watching sec ms newCli
  }

def State.proceed (s : State) (answer : Option Nat) : Option State :=
  match s.work with
  | .creating sec ms repeats cb =>
      match answer with
      | none => some { s with work := .waiting }
      | some fd => if s.table fd = none then some (s.create fd sec ms repeats cb) else none
  | .watching sec ms tmr =>
      if answer.isNone = true then
        some { s with work := .doing (creFailed tmr) false }
      else
        some {
          s with
          server := { s.server with epoll := Function.update s.server.epoll tmr.fd true }
          work := .starting sec ms tmr
        }
  | .starting sec ms tmr =>
      if answer.isNone = true then
        some { s with work := .doing (creFailed tmr) false }
      else
        some {
          s with
          server := timerfdSettime tmr.fd (itimerspec sec ms) s.server
          work := .waiting
        }
  | .doing [] leaves => some { s with work := if leaves = true then .ended else .waiting }
  | .doing (op :: ops) leaves => some { s.perform op with work := .doing ops leaves }
  | .waiting | .ended => none

def State.idle (s : State) : Bool :=
  match s.work with
  | .waiting => true
  | _ => false

/-- The kernel never hands out a descriptor that is open, and others close their own only. -/
def step (s : State) : Action → Option State
  | .message call => if s.idle = true then some (s.message call) else none
  | .expire fd => if s.idle = true then some (s.expire fd) else none
  | .destroy =>
      if s.idle = true then
        some { s with work := .doing (s.server.liSock.flatMap release) true }
      else
        none
  | .proceed answer => s.proceed answer
  | .openFd fd =>
      if s.table fd = none then
        some { s with table := Function.update s.table fd (some .others) }
      else
        none
  | .closeFd fd =>
      if s.table fd = some .others then
        some { s with table := Function.update s.table fd none }
      else
        none

/-- After `_wait_self_connect`, when others have some descriptors open. -/
def State.initial (srvfd : Nat) (others : Nat → Bool) : State where
  server := Timers.initial srvfd
  table fd :=
    if fd = srvfd then some (.node 0) else if others fd = true then some .others else none
  work := .waiting
  closed := []

-----------------------------------------------------------------------------------------
-- An operation as a whole
-----------------------------------------------------------------------------------------

variable {s : State}

@[simp] theorem State.server_perform (s : State) (op : Op)
    : (s.perform op).server = op.apply s.server := by
  cases op <;> rfl

/-- The thread comes from one state to the other, and nobody else does anything. -/
def Reaches (s t : State) : Prop :=
  ∃ answers : List (Option Nat), Transition.run step s (answers.map .proceed) = some t

theorem Reaches.refl (s : State) : Reaches s s := ⟨[], rfl⟩

theorem Reaches.head {s t u : State} (answer : Option Nat) (first : s.proceed answer = some t)
    (rest : Reaches t u)
    : Reaches s u := by
  obtain ⟨answers, ran⟩ := rest
  refine ⟨answer :: answers, ?_⟩
  rw [List.map_cons, Transition.run_cons, step, first]
  exact ran

/-- The thread does all it has to do. -/
theorem reaches_done (s : State) (ops : List Op) (leaves : Bool)
    : ∃ t,
        Reaches { s with work := .doing ops leaves } t
          ∧ t.work = (if leaves = true then .ended else .waiting)
          ∧ t.server = ops.foldl (fun server op => op.apply server) s.server := by
  induction ops generalizing s with
  | nil => exact ⟨{ s with work := _ }, .head none rfl (.refl _), rfl, rfl⟩
  | cons op ops ih =>
      obtain ⟨t, reaches, ended, server⟩ := ih (s.perform op)
      refine ⟨t, .head none ?_ reaches, ended, ?_⟩
      · cases op <;> rfl
      · rw [server, List.foldl_cons, State.server_perform]

/-- A new node is watched and started, or taken back. -/
theorem reaches_created (s : State) (fd : Nat) (epollAdd settime : Bool) (sec ms : UInt16)
    (repeats : UInt32) (cb : UInt64)
    : ∃ t,
        Reaches (s.create fd sec ms repeats cb) t
          ∧ t.work = .waiting
          ∧ t.server
            = (_creCliNode ⟨some fd, epollAdd, settime⟩ sec ms repeats cb s.server).2 := by
  let newCli : Timer := { _creNode fd cb (s.server.created + 1) with repeats }
  let created := s.create fd sec ms repeats cb
  cases epollAdd with
  | false =>
      obtain ⟨t, reaches, ended, server⟩ := reaches_done created (creFailed newCli) false
      exact ⟨t, .head none rfl reaches, ended, server⟩
  | true =>
      let watched : State :=
        {
          created with
          server :=
            { created.server with epoll := Function.update created.server.epoll fd true }
        }
      cases settime with
      | false =>
          obtain ⟨t, reaches, ended, server⟩ := reaches_done watched (creFailed newCli) false
          exact ⟨t, .head (some 0) rfl (.head none rfl reaches), ended, server⟩
      | true => exact ⟨_, .head (some 0) rfl (.head (some 0) rfl (.refl _)), rfl, rfl⟩

/-- A message is served as a whole. -/
theorem reaches_served {kernel : Kernel} (idle : s.work = .waiting)
    (fresh : ∀ fd, kernel.timerfdCreate = some fd → s.table fd = none) (call : Call)
    : ∃ t,
        Reaches (s.message call) t
          ∧ t.work = .waiting
          ∧ t.server = call.serve kernel s.server := by
  cases call with
  | clTimerCancel cb =>
      simp only [State.message, Call.serve, _rmvTimer]
      cases s.server.liSock.find? (fun tmr => tmr.srv = false ∧ tmr.cb = cb) with
      | none => exact ⟨s, .refl s, idle, rfl⟩
      | some tmr => exact reaches_done s (rmvTimer tmr) false
  | clTimerSet sec ms repeats cb =>
      simp only [State.message, Call.serve, _addTimer]
      split
      · exact ⟨s, .refl s, idle, rfl⟩
      · split
        · exact ⟨s, .refl s, idle, rfl⟩
        · obtain ⟨create, epollAdd, settime⟩ := kernel
          cases create with
          | none => exact ⟨{ s with work := .waiting }, .head none rfl (.refl _), rfl, rfl⟩
          | some fd =>
              have created
                  : State.proceed { s with work := .creating sec ms repeats.toUInt32 cb } (some fd)
                    = some (s.create fd sec ms repeats.toUInt32 cb) :=
                if_pos (fresh fd rfl)
              obtain ⟨t, reaches, ended, server⟩ :=
                reaches_created s fd epollAdd settime sec ms repeats.toUInt32 cb
              exact ⟨t, .head (some fd) created reaches, ended, server⟩

/-- So is an expiry. -/
theorem reaches_expired (idle : s.work = .waiting) (fd : Nat)
    : ∃ t,
        Reaches (s.expire fd) t
          ∧ t.work = .waiting
          ∧ t.server = (_cliTimerProc fd s.server).2 := by
  unfold State.expire
  split
  · rename_i none
    refine ⟨s, .refl s, idle, ?_⟩
    rw [_cliTimerProc, none]
  · rename_i tmr found
    split
    · rename_i last
      obtain ⟨t, reaches, ended, server⟩ := reaches_done s (usedUp tmr) false
      refine ⟨t, reaches, ended, server.trans ?_⟩
      simp only [_cliTimerProc, found, last, if_true]
      rfl
    · exact ⟨_, .refl _, idle, rfl⟩

/-- And the end. -/
theorem reaches_released (s : State)
    : ∃ t,
        Reaches { s with work := .doing (s.server.liSock.flatMap release) true } t
          ∧ t.work = .ended
          ∧ t.server = releaseAll s.server := by
  obtain ⟨t, reaches, ended, server⟩ := reaches_done s (s.server.liSock.flatMap release) true
  refine ⟨t, reaches, ended, ?_⟩
  rw [server, List.foldl_flatMap]
  rfl

-----------------------------------------------------------------------------------------
-- What a step can be
-----------------------------------------------------------------------------------------

/-- What the thread has still to do. -/
def Work.ops : Work → List Op
  | .doing ops _ => ops
  | _ => []

/-- A descriptor is being asked for. -/
def Work.creates : Work → Bool
  | .creating .. => true
  | _ => false

/-- The node that is being made. -/
def Work.made : Work → Option Timer
  | .watching _ _ tmr | .starting _ _ tmr => some tmr
  | _ => none

/-- While no timer is being made, anything holds of it. -/
theorem none_made {holds : Timer → Prop} : ∀ tmr ∈ (none : Option Timer), holds tmr :=
  fun tmr made => absurd made (Option.not_mem_none tmr)

/-- The thread is on its way out, or gone. -/
def Work.leaves : Work → Bool
  | .doing _ leaves => leaves
  | .ended => true
  | _ => false

/-- In its loop, and about to touch no node of the list. -/
def Work.Free (work : Work) : Prop := work.ops = [] ∧ work.leaves = false

inductive Turn (s : State) : Action → State → Prop
  | others {action : Action} (table : Nat → Option Owner) :
      (∀ fd n, s.table fd = some (.node n) → table fd = some (.node n))
        → Turn s action { s with table }
  | rest {action : Action} (server : Server) (work : Work) :
      s.work.Free
        → work.Free
        → server.created = s.server.created
        → server.liSock = s.server.liSock
        → (∀ tmr ∈ work.made, tmr ∈ s.work.made)
        → (work.creates = true → s.server.liSock.length ≤ maxTimerCnt)
        → Turn s action { s with server, work }
  | counted {action : Action} (tmr : Timer) :
      s.work = .waiting → Turn s action { s with server := s.server.counted tmr }
  | create {action : Action} (fd : Nat) (sec ms : UInt16) (repeats : UInt32) (cb : UInt64) :
      s.work = .creating sec ms repeats cb
        → s.table fd = none
        → Turn s action (s.create fd sec ms repeats cb)
  | failed {action : Action} (tmr : Timer) :
      s.work.Free
        → tmr ∈ s.work.made
        → Turn s action { s with work := .doing (creFailed tmr) false }
  | usedUp {action : Action} (tmr : Timer) :
      s.work.Free
        → tmr ∈ s.server.liSock
        → tmr.srv = false
        → Turn s action { s with work := .doing (usedUp tmr) false }
  | cancel (tmr : Timer) :
      s.work.Free
        → tmr ∈ s.server.liSock
        → tmr.srv = false
        → Turn s (.message (.clTimerCancel tmr.cb)) { s with work := .doing (rmvTimer tmr) false }
  | leave {action : Action} :
      s.work.Free
        → Turn s action { s with work := .doing (s.server.liSock.flatMap release) true }
  | perform {action : Action} (op : Op) (ops : List Op) (leaves : Bool) :
      s.work = .doing (op :: ops) leaves
        → Turn s action { s.perform op with work := .doing ops leaves }
  | ended {action : Action} (leaves : Bool) :
      s.work = .doing [] leaves
        → Turn s action { s with work := if leaves = true then .ended else .waiting }

variable {t : State}

theorem State.free_of_work {place : Work} (here : s.work = place) (free : place.Free)
    : s.work.Free :=
  here ▸ free

/-- A step without an effect, between two pieces of work. -/
theorem Turn.idle (waiting : s.work = .waiting) (action : Action) : Turn s action s := by
  have free := State.free_of_work waiting ⟨rfl, rfl⟩
  refine .rest s.server s.work free free rfl rfl (fun _ => id) fun creates => ?_
  rw [waiting] at creates
  cases creates

theorem message_turn (waiting : s.work = .waiting) (call : Call)
    : Turn s (.message call) (s.message call) := by
  have free := State.free_of_work waiting ⟨rfl, rfl⟩
  have same := Turn.idle waiting (.message call)
  cases call with
  | clTimerSet sec ms repeats cb =>
      simp only [State.message]
      split
      · exact same
      · split
        · exact same
        · rename_i room
          refine .rest s.server (.creating sec ms repeats.toUInt32 cb) free ⟨rfl, rfl⟩ rfl rfl ?_
            fun _ => Nat.not_lt.mp room
          exact none_made
  | clTimerCancel cb =>
      simp only [State.message]
      split
      · exact same
      · rename_i tmr found
        have isMatch := List.find?_some found
        rw [decide_eq_true_eq] at isMatch
        obtain ⟨client, rfl⟩ := isMatch
        exact .cancel tmr free (List.mem_of_find?_eq_some found) client

theorem expire_turn (waiting : s.work = .waiting) (action : Action) (fd : Nat)
    : Turn s action (s.expire fd) := by
  have free := State.free_of_work waiting ⟨rfl, rfl⟩
  have same := Turn.idle waiting action
  unfold State.expire
  split
  · exact same
  · rename_i tmr found
    have client : tmr.srv = false := by
      have isMatch := List.find?_some found
      rw [decide_eq_true_eq, not_or] at isMatch
      exact Bool.eq_false_iff.mpr isMatch.1
    split
    · exact .usedUp tmr free (List.mem_of_find?_eq_some found) client
    · rename_i more
      simp only [_cliTimerProc, found, if_neg more]
      split
      · exact .counted tmr waiting
      · exact same

theorem proceed_turn (action : Action) {answer : Option Nat} (stepped : s.proceed answer = some t)
    : Turn s action t := by
  have nothing (work : Work) (none : work.made = none)
      : ∀ tmr ∈ work.made, tmr ∈ s.work.made := by
    rw [none]
    exact none_made
  have later (work : Work) (other : work.creates = false)
      : work.creates = true → s.server.liSock.length ≤ maxTimerCnt :=
    fun creates => absurd (other.symm.trans creates) Bool.false_ne_true
  unfold State.proceed at stepped
  split at stepped
  · rename_i sec ms repeats cb work
    have free := State.free_of_work work ⟨rfl, rfl⟩
    split at stepped
    · obtain rfl := Option.some.inj stepped
      exact .rest s.server .waiting free ⟨rfl, rfl⟩ rfl rfl (nothing _ rfl) (later _ rfl)
    · rename_i fd
      split at stepped
      · rename_i unused
        obtain rfl := Option.some.inj stepped
        exact .create fd sec ms repeats cb work unused
      · cases stepped
  · rename_i sec ms tmr work
    have free := State.free_of_work work ⟨rfl, rfl⟩
    have made : tmr ∈ s.work.made := by
      rw [work]
      rfl
    split at stepped
    · obtain rfl := Option.some.inj stepped
      exact .failed tmr free made
    · obtain rfl := Option.some.inj stepped
      refine .rest _ (.starting sec ms tmr) free ⟨rfl, rfl⟩ rfl rfl (fun t isMade => ?_)
        (later _ rfl)
      obtain rfl := Option.some.inj isMade
      exact made
  · rename_i sec ms tmr work
    have free := State.free_of_work work ⟨rfl, rfl⟩
    split at stepped
    · obtain rfl := Option.some.inj stepped
      refine .failed tmr free ?_
      rw [work]
      rfl
    · obtain rfl := Option.some.inj stepped
      exact .rest _ .waiting free ⟨rfl, rfl⟩ rfl rfl (nothing _ rfl) (later _ rfl)
  · rename_i leaves work
    obtain rfl := Option.some.inj stepped
    exact .ended leaves work
  · rename_i op ops leaves work
    obtain rfl := Option.some.inj stepped
    exact .perform op ops leaves work
  · cases stepped
  · cases stepped

theorem waiting_of_idle (idle : s.idle = true) : s.work = .waiting := by
  unfold State.idle at idle
  split at idle
  · assumption
  · cases idle

theorem step_turn {action : Action} (stepped : step s action = some t) : Turn s action t := by
  have kept {fd : Nat} {owner : Option Owner} (foreign : ∀ n, s.table fd ≠ some (.node n))
      : ∀ other n, s.table other = some (.node n)
        → Function.update s.table fd owner other = some (.node n) := by
    intro other n owned
    have apart : other ≠ fd := fun same => foreign n (same ▸ owned)
    exact (Function.update_of_ne apart ..).trans owned
  cases action with
  | message call =>
      obtain ⟨idle, same⟩ := Option.ite_none_right_eq_some.mp stepped
      obtain rfl := Option.some.inj same
      exact message_turn (waiting_of_idle idle) call
  | expire fd =>
      obtain ⟨idle, same⟩ := Option.ite_none_right_eq_some.mp stepped
      obtain rfl := Option.some.inj same
      exact expire_turn (waiting_of_idle idle) _ fd
  | destroy =>
      obtain ⟨idle, same⟩ := Option.ite_none_right_eq_some.mp stepped
      obtain rfl := Option.some.inj same
      refine .leave ?_
      rw [waiting_of_idle idle]
      exact ⟨rfl, rfl⟩
  | proceed answer => exact proceed_turn _ stepped
  | openFd fd =>
      obtain ⟨unused, same⟩ := Option.ite_none_right_eq_some.mp stepped
      obtain rfl := Option.some.inj same
      exact .others _ (kept fun n owned => by cases unused.symm.trans owned)
  | closeFd fd =>
      obtain ⟨others, same⟩ := Option.ite_none_right_eq_some.mp stepped
      obtain rfl := Option.some.inj same
      exact .others _ (kept fun n owned => by cases others.symm.trans owned)

end Libccll.Timers.Descriptors
