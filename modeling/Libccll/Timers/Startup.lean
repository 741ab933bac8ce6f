import Libccll.Timers.Closing

/-! `cl_timer_init` and the timer thread it starts, and what `cl_timer_count` returns meanwhile.
A connection succeeds as soon as somebody listens, long before the thread accepts it.
-/

namespace Libccll.Timers.Descriptors.Startup

open Foundation

/-- Where the application is, from the call of `cl_timer_init` to that of `cl_timer_deinit`. -/
inductive App where
  | mutexInit
  | creSrvSock
  | creEpoll
  | pthreadCreate
  | connSrv
  | ready
  | failed
  | deinit
  deriving DecidableEq

/-- Where the timer thread is: before or in `_wait_self_connect`, or behind it. -/
inductive Life where
  | absent
  | accepting
  | accepted (fd : Nat)
  | joining (fd : Nat)
  | serving (s : State)

structure Process where
  app : App
  connecting : Bool
  life : Life

/-- `cl_timer_init` makes its next call; or the thread goes on in `_wait_self_connect`, where a
failure ends the process; or behind it; or `cl_timer_deinit` is called.
-/
inductive Step where
  | init (ok : Bool)
  | accept (fd : Nat)
  | creSrvNode
  | epollAdd (others : Nat → Bool)
  | serve (action : Action)
  | deinit

def Process.gLiSock (p : Process) : List Timer :=
  match p.life with
  | .joining fd => [srvNode fd]
  | .serving s => s.server.liSock
  | _ => []

/-- The timer thread has the lock, from the first kernel call of an operation to the last. -/
def Process.locked (p : Process) : Bool :=
  match p.life with
  | .serving s =>
      match s.work with
      | .creating .. | .watching .. | .starting .. | .doing _ false => true
      | _ => false
  | _ => false

/-- `cl_timer_count`; it waits while the lock is taken. -/
def clTimerCount (p : Process) : Option Int :=
  if p.locked = true then none else some (Int32.ofNat p.gLiSock.length - 1).toInt

/-- How many client timers are registered. -/
def Process.clients (p : Process) : Nat := p.gLiSock.countP fun tmr => tmr.srv = false

/-- What `cl_timer_init` calls next. -/
def App.next : App → Option App
  | .mutexInit => some .creSrvSock
  | .creSrvSock => some .creEpoll
  | .creEpoll => some .pthreadCreate
  | .pthreadCreate => some .connSrv
  | .connSrv => some .ready
  | .ready | .failed | .deinit => none

def step (p : Process) : Step → Option Process
  | .init ok =>
      p.app.next.map fun app =>
        if ok = true then
          {
            app
            connecting := if app = .ready then true else p.connecting
            life := if app = .connSrv then .accepting else p.life
          }
        else
          { p with app := .failed }
  | .accept fd =>
      match p.life, p.connecting with
      | .accepting, true => some { p with connecting := false, life := .accepted fd }
      | _, _ => none
  | .creSrvNode =>
      match p.life with
      | .accepted fd =>
          if p.gLiSock.any (·.srv) = true then none else some { p with life := .joining fd }
      | _ => none
  | .epollAdd others =>
      match p.life with
      | .joining fd => some { p with life := .serving (State.initial fd others) }
      | _ => none
  | .serve action =>
      match p.life with
      | .serving s => (Descriptors.step s action).map fun s => { p with life := .serving s }
      | _ => none
  | .deinit => if p.app = .ready then some { p with app := .deinit } else none

/-- `cl_timer_init` is called for the first time. -/
def initial : Process := ⟨.mutexInit, false, .absent⟩

-----------------------------------------------------------------------------------------
-- The server node
-----------------------------------------------------------------------------------------

/-- There is one server node at most, and one while the thread is in its loop. -/
structure Headed (liSock : List Timer) (work : Work) : Prop where
  proper : ∀ tmr ∈ liSock, tmr.srv = true ↔ tmr.inst = 0
  one : liSock.countP Timer.srv ≤ 1
  bounded : liSock.length ≤ maxTimerCnt + 1
  room : work.creates = true → liSock.length ≤ maxTimerCnt
  made : ∀ tmr ∈ work.made, tmr.inst ≠ 0
  clients : work.leaves = false → ∀ tmr ∈ endings work.ops, tmr.inst ≠ 0
  head : work.leaves = false → ∃ tmr ∈ liSock, tmr.srv = true

variable {liSock liSock' : List Timer} {work work' : Work} {s t : State}

/-- Only the server node is there. -/
theorem headed_srvNode (fd : Nat) : Headed [srvNode fd] .waiting := by
  refine ⟨?_, Nat.le_refl _, Nat.le_add_left _ _, ?_, ?_, ?_, fun _ => ?_⟩
  · intro tmr member
    rw [List.mem_singleton.mp member]
    exact iff_of_true rfl rfl
  · exact fun creates => absurd creates Bool.false_ne_true
  · exact none_made
  · exact fun _ tmr member => absurd member List.not_mem_nil
  · exact ⟨srvNode fd, List.mem_singleton_self _, rfl⟩

theorem Headed.client (headed : Headed liSock work) {tmr : Timer} (member : tmr ∈ liSock)
    (client : tmr.srv = false)
    : tmr.inst ≠ 0 := by
  rw [Ne, ← headed.proper tmr member, client]
  exact Bool.false_ne_true

/-- No node is made, and none but clients are taken off the list before the thread leaves. -/
theorem Headed.goto (headed : Headed liSock work) (work' : Work)
    (nodes : liSock'.Sublist liSock) (creates : work'.creates = false)
    (made : ∀ tmr ∈ work'.made, tmr.inst ≠ 0)
    (clients : work'.leaves = false → ∀ tmr ∈ endings work'.ops, tmr.inst ≠ 0)
    (head : work'.leaves = false → ∃ tmr ∈ liSock', tmr.srv = true)
    : Headed liSock' work' := by
  refine ⟨?_, ?_, ?_, ?_, made, clients, head⟩
  · exact fun tmr member => headed.proper tmr (nodes.subset member)
  · exact Nat.le_trans nodes.countP_le headed.one
  · exact Nat.le_trans nodes.length_le headed.bounded
  · exact fun isCreating => absurd (creates.symm.trans isCreating) Bool.false_ne_true

/-- The thread begins with an operation on a client. -/
theorem Headed.start (headed : Headed liSock work) (loop : work.leaves = false) {ops : List Op}
    {tmr : Timer} (client : tmr.inst ≠ 0) (only : ∀ t ∈ endings ops, t = tmr)
    : Headed liSock (.doing ops false) := by
  refine headed.goto _ (List.Sublist.refl _) rfl ?_ (fun _ t member => ?_)
    fun _ => headed.head loop
  · exact none_made
  · rw [only t member]
    exact client

theorem Headed.counted {server : Server} (headed : Headed server.liSock .waiting) (tmr : Timer)
    : Headed (server.counted tmr).liSock .waiting := by
  obtain ⟨counted, listed, same⟩ := server.liSock_counted tmr
  rw [listed]
  refine ⟨?_, ?_, ?_, ?_, headed.made, headed.clients, fun loop => ?_⟩
  · intro t member
    obtain ⟨t', old, rfl⟩ := List.mem_map.mp member
    rw [(same t').1, (same t').2.2]
    exact headed.proper t' old
  · rw [List.countP_map]
    refine Nat.le_trans (Nat.le_of_eq ?_) headed.one
    exact List.countP_congr fun t _ => by rw [Function.comp_apply, (same t).1]
  · rw [List.length_map]
    exact headed.bounded
  · exact fun creates => absurd creates Bool.false_ne_true
  · obtain ⟨t, member, isServer⟩ := headed.head loop
    exact ⟨counted t, List.mem_map_of_mem member, (same t).1.trans isServer⟩

theorem Headed.create {sec ms : UInt16} {repeats : UInt32} {cb : UInt64}
    (headed : Headed liSock (.creating sec ms repeats cb)) {tmr : Timer} (client : tmr.srv = false)
    (numbered : tmr.inst ≠ 0)
    : Headed (liSock ++ [tmr]) (.watching sec ms tmr) := by
  refine ⟨?_, ?_, ?_, ?_, ?_, ?_, fun _ => ?_⟩
  · intro t member
    rcases List.mem_append.mp member with old | new
    · exact headed.proper t old
    · rw [List.mem_singleton.mp new, client]
      exact iff_of_false Bool.false_ne_true numbered
  · rw [List.countP_append, List.countP_singleton, client]
    exact headed.one
  · rw [List.length_append]
    exact Nat.succ_le_succ (headed.room rfl)
  · exact fun creates => absurd creates Bool.false_ne_true
  · intro t made
    obtain rfl := Option.some.inj made
    exact numbered
  · exact fun _ t member => absurd member List.not_mem_nil
  · obtain ⟨t, member, isServer⟩ := headed.head rfl
    exact ⟨t, List.mem_append_left _ member, isServer⟩

/-- The thread does something to a node: the server node is taken off the list only when it leaves.
-/
theorem Headed.perform {op : Op} {ops : List Op} {leaves : Bool}
    (headed : Headed s.server.liSock (.doing (op :: ops) leaves))
    : Headed (op.apply s.server).liSock (.doing ops leaves) := by
  have made : ∀ tmr ∈ (Work.doing ops leaves).made, tmr.inst ≠ 0 :=
    none_made
  have clients := headed.clients
  cases op with
  | epollDel tmr | disarm tmr =>
      exact headed.goto _ (List.Sublist.refl _) rfl made clients headed.head
  | close tmr =>
      refine headed.goto _ (List.Sublist.refl _) rfl made ?_ headed.head
      exact fun loop t member => clients loop t (List.mem_cons_of_mem _ member)
  | listDel tmr =>
      refine headed.goto _ List.eraseP_sublist rfl made ?_ fun loop => ?_
      · exact fun loop t member => clients loop t (List.mem_cons_of_mem _ member)
      · obtain ⟨t, member, isServer⟩ := headed.head loop
        have zero := (headed.proper t member).mp isServer
        have other : t.inst ≠ tmr.inst :=
          fun same => clients loop tmr List.mem_cons_self (same.symm.trans zero)
        refine ⟨t, ?_, isServer⟩
        change t ∈ s.server.liSock.eraseP fun u => u.inst = tmr.inst
        rwa [List.mem_eraseP_of_neg (by simpa using other)]

theorem Headed.turn (headed : Headed s.server.liSock s.work) {action : Action}
    (turn : Turn s action t)
    : Headed t.server.liSock t.work := by
  have nothing {work : Work} (none : work.made = none) : ∀ tmr ∈ work.made, tmr.inst ≠ 0 := by
    rw [none]
    exact none_made
  cases turn with
  | others table kept => exact headed
  | rest server work free rest created nodes made room =>
      rw [← nodes] at headed room
      refine ⟨headed.proper, headed.one, headed.bounded, room, ?_, ?_, fun _ => headed.head free.2⟩
      · exact fun tmr isMade => headed.made tmr (made tmr isMade)
      · rw [rest.1]
        exact fun _ tmr member => absurd member List.not_mem_nil
  | counted tmr waiting =>
      rw [waiting] at headed ⊢
      exact headed.counted tmr
  | create fd sec ms repeats cb work unused =>
      rw [work] at headed
      exact headed.create rfl (Nat.succ_ne_zero _)
  | failed tmr free made =>
      exact headed.start free.2 (headed.made tmr made) (by simp [creFailed, endings])
  | usedUp tmr free member client =>
      exact headed.start free.2 (headed.client member client) (by simp [usedUp, endings])
  | cancel tmr free member client =>
      exact headed.start free.2 (headed.client member client) (by simp [rmvTimer, endings])
  | leave free =>
      refine headed.goto _ (List.Sublist.refl _) rfl (nothing rfl) ?_ ?_
      · exact fun loop => absurd loop.symm Bool.false_ne_true
      · exact fun _ => headed.head free.2
  | perform op ops leaves work =>
      rw [work] at headed
      change Headed (s.perform op).server.liSock (.doing ops leaves)
      rw [State.server_perform]
      exact headed.perform
  | ended leaves work =>
      rw [work] at headed
      cases leaves with
      | false =>
          refine headed.goto _ (List.Sublist.refl _) rfl (nothing rfl) ?_ fun _ => headed.head rfl
          exact fun _ tmr member => absurd member List.not_mem_nil
      | true =>
          refine headed.goto _ (List.Sublist.refl _) rfl (nothing rfl) ?_ ?_
          · exact fun loop => absurd loop.symm Bool.false_ne_true
          · exact fun loop => absurd loop.symm Bool.false_ne_true

-----------------------------------------------------------------------------------------
-- The count
-----------------------------------------------------------------------------------------

def Life.Headed : Life → Prop
  | .serving s => Startup.Headed s.server.liSock s.work
  | _ => True

theorem Life.Headed.step {p q : Process} (headed : p.life.Headed) {step : Step}
    (stepped : Startup.step p step = some q)
    : q.life.Headed := by
  cases step with
  | init ok =>
      obtain ⟨app, _, rfl⟩ := Option.map_eq_some_iff.mp stepped
      split
      · change (if app = .connSrv then Life.accepting else p.life).Headed
        split
        · trivial
        · exact headed
      · exact headed
  | accept fd =>
      simp only [Startup.step] at stepped
      split at stepped
      · obtain rfl := Option.some.inj stepped
        trivial
      · cases stepped
  | creSrvNode =>
      simp only [Startup.step] at stepped
      split at stepped
      · obtain ⟨_, same⟩ := Option.ite_none_left_eq_some.mp stepped
        obtain rfl := Option.some.inj same
        trivial
      · cases stepped
  | epollAdd others =>
      simp only [Startup.step] at stepped
      split at stepped
      · rename_i fd life
        obtain rfl := Option.some.inj stepped
        exact headed_srvNode fd
      · cases stepped
  | serve action =>
      simp only [Startup.step] at stepped
      split at stepped
      · rename_i s life
        obtain ⟨t, taken, rfl⟩ := Option.map_eq_some_iff.mp stepped
        rw [life] at headed
        exact Startup.Headed.turn headed (step_turn taken)
      · cases stepped
  | deinit =>
      obtain ⟨_, same⟩ := Option.ite_none_right_eq_some.mp stepped
      obtain rfl := Option.some.inj same
      exact headed

/-- The thread has inserted its server node, and is in its loop. -/
def Process.Serves (p : Process) : Prop :=
  match p.life with
  | .joining _ => True
  | .serving s => s.work.leaves = false
  | _ => False

/-- What is in the list, at any time. -/
theorem Life.Headed.gLiSock {p : Process} (headed : p.life.Headed)
    : p.gLiSock.countP Timer.srv ≤ 1
      ∧ p.gLiSock.length ≤ maxTimerCnt + 1
      ∧ (p.Serves → ∃ tmr ∈ p.gLiSock, tmr.srv = true) := by
  unfold Process.gLiSock Process.Serves
  cases life : p.life with
  | absent | accepting | accepted fd => exact ⟨Nat.zero_le _, Nat.zero_le _, False.elim⟩
  | joining fd =>
      have headed := headed_srvNode fd
      exact ⟨headed.one, headed.bounded, fun _ => headed.head rfl⟩
  | serving s =>
      rw [life] at headed
      exact ⟨headed.one, headed.bounded, headed.head⟩

/-- The list is far too short for an `int` to overflow. -/
theorem toInt_count {n : Nat} (short : n ≤ maxTimerCnt + 1)
    : (Int32.ofNat n - 1).toInt = (n : Int) - 1 := by
  have all : ∀ n < 102, (Int32.ofNat n - 1).toInt = (n : Int) - 1 := by decide
  exact all n (Nat.lt_succ_of_le short)

/-- In every run `cl_timer_count` returns the number of client timers if and only if the server
node is in the list. So it is from the moment the timer thread has inserted it until it leaves its
loop.
-/
theorem count_exact {steps : List Step} {p : Process}
    (ran : Transition.run step initial steps = some p)
    : (∀ cnt, clTimerCount p = some cnt
        → (0 ≤ cnt ∧ cnt = p.clients ↔ ∃ tmr ∈ p.gLiSock, tmr.srv = true))
      ∧ (p.Serves → ∃ tmr ∈ p.gLiSock, tmr.srv = true) := by
  have headed : p.life.Headed :=
    Transition.run_invariant (fun headed stepped => Life.Headed.step headed stepped)
      (show initial.life.Headed from trivial) ran
  obtain ⟨one, short, serves⟩ := headed.gLiSock
  refine ⟨fun cnt counted => ?_, serves⟩
  obtain ⟨_, counted⟩ := Option.ite_none_left_eq_some.mp counted
  have value : cnt = (p.gLiSock.length : Int) - 1 := by
    rw [← Option.some.inj counted, toInt_count short]
  have both : p.gLiSock.length = p.gLiSock.countP Timer.srv + p.clients := by
    rw [List.length_eq_countP_add_countP Timer.srv, Process.clients]
    simp
  rw [← List.countP_pos_iff]
  omega

/-- One timer is set, and counted. -/
theorem count_exact_set
    : let p := (Transition.run step initial
        [.init true, .init true, .init true, .init true, .init true, .accept 4, .creSrvNode,
          .epollAdd fun _ => false, .serve (.message (.clTimerSet 1 0 1 77)),
          .serve (.proceed (some 5)), .serve (.proceed (some 0)),
          .serve (.proceed (some 0))]).get (by decide +kernel)
      0 ≤ (1 : Int) ∧ (1 : Int) = p.clients := by
  intro p
  have counted := count_exact (p := p) (Option.some_get _).symm
  exact (counted.1 1 (by decide +kernel)).mpr (counted.2 (by rfl))

/-- `cl_timer_init` has returned, and the thread has not accepted the connection yet. -/
theorem count_exact_early
    : ¬∀ (steps : List Step) (p : Process) (cnt : Int),
        Transition.run step initial steps = some p
        → p.app = .ready
        → clTimerCount p = some cnt
        → 0 ≤ cnt ∧ cnt = p.clients := by
  intro claim
  have counted := claim [.init true, .init true, .init true, .init true, .init true] _ (-1)
    (Option.some_get (by decide)).symm (by decide) (by decide)
  exact absurd counted.1 (by decide)

end Libccll.Timers.Descriptors.Startup
