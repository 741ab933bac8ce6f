import Mathlib.Data.List.Nodup
import Libccll.Main.Relocking

/-! No thread of the library is created twice: those yet to be created have nothing to do. -/

namespace Libccll.Main

open Foundation

/-- The workers that are still to be created. -/
def creates (ops : List Op) : List Slot :=
  ops.filterMap fun
    | .createWorker w => some w
    | _ => none

/-- Calls of `cl_init` and `cl_deinit`, which create no worker and take no mutex. -/
def Op.Setup : Op → Prop
  | .lock _ | .unlock _ | .popPool _ | .popPools | .createWorker _ | .joinWorker _ | .callback =>
      False
  | _ => True

theorem creates_append (ops ops' : List Op)
    : creates (ops ++ ops') = creates ops ++ creates ops' :=
  List.filterMap_append

/-- A call that is made is not to be made any more. -/
theorem creates_rest {op : Op} {rest : List Op}
    : (creates rest).Sublist (creates (op :: rest)) := by
  rw [← List.singleton_append, creates_append]
  exact List.sublist_append_right ..

theorem creates_flatMap {α : Type*} {items : List α} {ops : α → List Op}
    (none : ∀ item, creates (ops item) = [])
    : creates (items.flatMap ops) = [] := by
  induction items with
  | nil => rfl
  | cons item items ih => rw [List.flatMap_cons, creates_append, none, ih, List.append_nil]

theorem creates_clMalloc {ok : Bool} : creates (clMalloc ok) = [] := by
  cases ok <;> rfl

theorem creates_frees {n : Nat} : creates (List.replicate n clFree).flatten = [] := by
  induction n with
  | zero => rfl
  | succ n ih => rw [List.replicate_succ, List.flatten_cons, creates_append, ih]; rfl

theorem creates_releasePool (pool amt : Nat) : creates (releasePool pool amt) = [] := by
  have none : creates (_destroyPolThrd pool amt) = [] := creates_flatMap fun _ => rfl
  rw [releasePool, creates_append, creates_append, none]
  rfl

theorem creates_served (served : Served) : creates served.ops = [] := by
  cases served with
  | new added =>
      cases added with
      | none => rfl
      | some added => cases added <;> rfl
  | cancel found => cases found <;> rfl
  | expiry usedUp =>
      cases usedUp with
      | none => rfl
      | some usedUp => cases usedUp <;> rfl
  | unread => rfl
  | quit nodes =>
      rw [Served.ops, creates_append, creates_append, creates_frees]
      rfl

theorem creates_workerThread (exit : Bool) (jobs : Nat)
    : creates (_workerThread exit jobs) = [] := by
  cases exit with
  | true => exact (creates_append ..).trans (by rw [creates_frees]; rfl)
  | false => rfl

/-- `cl_trpo_create` creates the workers of its pool, one after another. -/
theorem creates_creThrds (pool amt : Nat)
    : creates (_creThrds pool amt) = (List.range amt).map fun i => (pool, i) := by
  rw [_creThrds]
  induction List.range amt with
  | nil => rfl
  | cons i is ih =>
      rw [List.flatMap_cons, creates_append, creates_append, creates_clMalloc, ih]
      rfl

/-- A call creates at most the workers of one pool, each of them once. -/
theorem creates_call {gInit : Bool} {pool : Nat} (call : Call)
    : ∃ n, creates (call.ops gInit pool) = (List.range n).map fun i => (pool, i) := by
  cases call with
  | trpoCreate amount fits =>
      rw [Call.ops, clTrpoCreate]
      split
      · exact ⟨0, rfl⟩
      · split
        · exact ⟨0, rfl⟩
        · refine ⟨amount.toNat, ?_⟩
          simp only [creates_append, creates_clMalloc, creates_creThrds, List.append_nil]
          exact List.append_nil _
  | malloc ok | evtPub ok =>
      refine ⟨0, ?_⟩
      cases ok <;> rfl
  | free null | allocGetStat null =>
      refine ⟨0, ?_⟩
      cases null <;> rfl
  | printBytes valid | shExec valid =>
      refine ⟨0, ?_⟩
      cases valid <;> rfl
  | evtSub subscription =>
      refine ⟨0, ?_⟩
      cases subscription with
      | nullCallback | existing => rfl
      | new malloc => cases malloc <;> rfl
  | evtUnsub nullCallback found =>
      refine ⟨0, ?_⟩
      cases nullCallback <;> cases found <;> rfl
  | trpoPost found =>
      refine ⟨0, ?_⟩
      cases gInit <;> cases found <;> rfl
  | _ => exact ⟨0, rfl⟩

theorem creates_setup {ops : List Op} (setup : ∀ op ∈ ops, op.Setup) : creates ops = [] := by
  rw [creates, List.filterMap_eq_nil_iff]
  intro op member
  cases op with
  | createWorker w => exact (setup _ member).elim
  | _ => rfl

-----------------------------------------------------------------------------------------
-- The calls of `cl_init`
-----------------------------------------------------------------------------------------

theorem setup_after {ops : List Op} {body : Body} (first : ∀ op ∈ ops, op.Setup)
    (later : ∀ op ∈ body.ops, op.Setup)
    : ∀ op ∈ (body.after ops).ops, op.Setup :=
  List.forall_mem_append.mpr ⟨first, later⟩

theorem setup_orFail {what rest : Body} (first : ∀ op ∈ what.ops, op.Setup)
    (later : ∀ op ∈ rest.ops, op.Setup)
    : ∀ op ∈ (what.orFail rest).ops, op.Setup := by
  unfold Body.orFail
  split
  · exact setup_after first later
  · exact first

theorem setup_orElse {what rest : Body} {undo : List Op} (first : ∀ op ∈ what.ops, op.Setup)
    (undone : ∀ op ∈ undo, op.Setup) (later : ∀ op ∈ rest.ops, op.Setup)
    : ∀ op ∈ (what.orElse undo rest).ops, op.Setup := by
  unfold Body.orElse
  split
  · exact setup_after first later
  · exact List.forall_mem_append.mpr ⟨first, undone⟩

theorem setup_clEvtInit (ok : Outcomes) : ∀ op ∈ (clEvtInit ok).ops, op.Setup := by
  unfold clEvtInit
  repeat' split
  all_goals simp [clEvtDeinit, Op.Setup]

theorem setup_clTimerInit (ok : Outcomes) : ∀ op ∈ (clTimerInit ok).ops, op.Setup := by
  have server : ∀ op ∈ (_creSrvSock ok).ops, op.Setup := by
    unfold _creSrvSock
    repeat' split
    all_goals simp [Body.after, Op.Setup]
  have epoll : ∀ op ∈ (_creEpoll ok).ops, op.Setup := by
    unfold _creEpoll
    split <;> simp [Op.Setup]
  have client : ∀ op ∈ (_connSrv ok).ops, op.Setup := by
    unfold _connSrv
    repeat' split
    all_goals simp [Op.Setup]
  unfold clTimerInit
  split
  · simp
  · refine setup_after (by simp [Op.Setup]) ?_
    refine setup_orElse server (by simp) (setup_orElse epoll (by simp [Op.Setup]) ?_)
    split
    · simp [Op.Setup]
    · exact setup_after (by simp [Op.Setup]) (setup_orElse client (by simp [Op.Setup]) (by simp))

theorem setup_clInit (sInit gInit : Bool) (ok : Outcomes)
    : ∀ op ∈ (clInit sInit gInit ok).ops, op.Setup := by
  have log : ∀ op ∈ (clLogInit gInit ok).ops, op.Setup := by
    unfold clLogInit
    repeat' split
    all_goals simp [Op.Setup]
  unfold clInit
  split
  · simp
  · refine setup_orFail log (setup_orFail (setup_clEvtInit ok) ?_)
    exact setup_orFail (setup_clTimerInit ok)
      (setup_orFail (by simp [clTrpoInit, Op.Setup]) (by simp [Op.Setup]))

-----------------------------------------------------------------------------------------
-- What every step keeps
-----------------------------------------------------------------------------------------

variable {θ : Type*}

/-- The thread is yet to be created. -/
def State.Late (s : State θ) : Thread θ → Prop
  | .main | .app _ => False
  | .evt n => s.evts ≤ n
  | .timer n => s.timers ≤ n
  | .worker w => s.pools ≤ w.1 ∨ ∃ t, w ∈ creates (s.todo t)

/-- Threads yet to be created have nothing to do, and no two calls are to create the same. -/
structure Born (s : State θ) : Prop where
  late : ∀ t, s.Late t → s.todo t = [] ∧ s.lives t = false
  known : ∀ t, ∀ w ∈ creates (s.todo t), w.1 < s.pools
  once : ∀ t, (creates (s.todo t)).Nodup
  single : ∀ t t' w, w ∈ creates (s.todo t) → w ∈ creates (s.todo t') → t = t'

variable {s s' : State θ} {t u : Thread θ}

/-- Who has something to do, or lives, has been created. -/
theorem Born.not_late (born : Born s) (busy : s.todo t ≠ [] ∨ s.lives t = true) : ¬s.Late t := by
  intro late
  obtain ⟨idle, dead⟩ := born.late t late
  rcases busy with busy | lives
  · exact busy idle
  · exact Bool.false_ne_true (dead.symm.trans lives)

/-- Nobody comes to life. -/
theorem Born.lives (born : Born s) {lives : Thread θ → Bool} {threads : List (Thread θ)}
    (fewer : ∀ t, lives t = true → s.lives t = true)
    : Born { s with lives, threads } where
  late t late := by
    have late : s.Late t := by
      cases t with
      | main | app t => exact late
      | evt n | timer n | worker w => exact late
    obtain ⟨idle, dead⟩ := born.late t late
    refine ⟨idle, Bool.eq_false_iff.mpr fun now => ?_⟩
    exact Bool.false_ne_true (dead.symm.trans (fewer t now))
  known := born.known
  once := born.once
  single := born.single

theorem Born.joinLast (born : Born s) {thread : Nat → Thread θ} {n : Nat}
    (joined : s.joinLast thread n = some s')
    : Born s' := by
  cases n with
  | zero => exact Option.some.inj joined ▸ born
  | succ n =>
      simp only [State.joinLast, State.join] at joined
      split at joined
      · cases joined
      · exact Option.some.inj joined ▸ born

/-- Who calls the library has been created. -/
theorem Born.outside (born : Born s) (outside : s.outside t = true) : ¬s.Late t := by
  cases t with
  | main | app t => exact id
  | evt n | timer n | worker w =>
      refine born.not_late (Or.inl fun idle => ?_)
      simp only [State.outside, idle] at outside
      cases outside

variable [DecidableEq θ]

/-- A thread has something else to do, with no more workers to create. -/
theorem Born.goto (born : Born s) (created : ¬s.Late t) {ops : List Op}
    (fewer : (creates ops).Sublist (creates (s.todo t)))
    : Born (s.goto t ops) := by
  have sub (u : Thread θ)
      : (creates ((s.goto t ops).todo u)).Sublist (creates (s.todo u)) := by
    rcases eq_or_ne u t with rfl | other
    · rwa [State.goto_self]
    · rw [State.goto_of_ne other]
  refine ⟨fun u late => ?_, fun u w member => born.known u w ((sub u).subset member),
    fun u => (born.once u).sublist (sub u),
    fun u u' w member member' => born.single u u' w ((sub u).subset member)
      ((sub u').subset member')⟩
  have before : s.Late u := by
    cases u with
    | main | app t => exact late
    | evt n | timer n => exact late
    | worker w =>
        rcases late with late | ⟨u', member⟩
        · exact Or.inl late
        · exact Or.inr ⟨u', (sub u').subset member⟩
  have other : u ≠ t := fun same => created (same ▸ before)
  rw [State.goto_of_ne other]
  exact born.late u before

/-- A call is made, which may create the workers of a new pool. -/
theorem Born.call (born : Born s) (created : ¬s.Late t) (call : Call)
    : Born
        {
          s.goto t (call.ops s.trpoInit s.pools ++ s.todo t) with
          pools := s.pools + 1
          threads := t :: s.threads
        } := by
  obtain ⟨n, new⟩ : ∃ n, creates (call.ops s.trpoInit s.pools)
      = (List.range n).map fun i => (s.pools, i) := creates_call call
  have todo (u : Thread θ) (w : Slot)
      (member
        : w ∈ creates ((s.goto t (call.ops s.trpoInit s.pools ++ s.todo t)).todo u))
      : w ∈ creates (s.todo u) ∨ u = t ∧ w.1 = s.pools := by
    rcases eq_or_ne u t with rfl | other
    · rw [State.goto_self, creates_append, new] at member
      rcases List.mem_append.mp member with now | before
      · obtain ⟨i, _, rfl⟩ := List.mem_map.mp now
        exact Or.inr ⟨rfl, rfl⟩
      · exact Or.inl before
    · rw [State.goto_of_ne other] at member
      exact Or.inl member
  refine ⟨fun u late => ?_, fun u w member => ?_, fun u => ?_, fun u u' w member member' => ?_⟩
  · have before : s.Late u := by
      cases u with
      | main | app t | evt n | timer n => exact late
      | worker w =>
          rcases late with late | ⟨u', member⟩
          · exact Or.inl (Nat.le_of_succ_le late)
          · rcases todo u' w member with before | ⟨_, now⟩
            · exact Or.inr ⟨u', before⟩
            · exact Or.inl (Nat.le_of_eq now.symm)
    have other : u ≠ t := fun same => created (same ▸ before)
    obtain ⟨idle, dead⟩ := born.late u before
    exact ⟨(State.goto_of_ne other).trans idle, dead⟩
  · rcases todo u w member with before | ⟨_, now⟩
    · exact Nat.lt_succ_of_lt (born.known u w before)
    · exact now ▸ Nat.lt_succ_self _
  · change (creates ((s.goto t _).todo u)).Nodup
    rcases eq_or_ne u t with rfl | other
    · rw [State.goto_self, creates_append, new]
      refine List.Nodup.append ?_ (born.once u) ?_
      · exact List.nodup_range.map fun i j same => (Prod.mk.inj same).2
      · intro w now before
        obtain ⟨i, _, rfl⟩ := List.mem_map.mp now
        exact Nat.lt_irrefl _ (born.known u _ before)
    · rw [State.goto_of_ne other]
      exact born.once u
  · rcases todo u w member with before | ⟨rfl, now⟩
    · rcases todo u' w member' with before' | ⟨_, now'⟩
      · exact born.single u u' w before before'
      · exact absurd now' (Nat.ne_of_lt (born.known u w before))
    · rcases todo u' w member' with before' | ⟨rfl, _⟩
      · exact absurd now (Nat.ne_of_lt (born.known u' w before'))
      · rfl

/-- A thread is created, which creates no worker. -/
theorem Born.spawn (born : Born s) (idle : s.todo u = []) {ops : List Op}
    (none : creates ops = []) {evts timers : Nat} (more : s.evts ≤ evts)
    (more' : s.timers ≤ timers)
    (created : ¬State.Late { s.spawn u ops with evts, timers } u)
    : Born { s.spawn u ops with evts, timers } := by
  have todo (t : Thread θ) : creates ((s.goto u ops).todo t) = creates (s.todo t) := by
    rcases eq_or_ne t u with rfl | other
    · rw [State.goto_self, none, idle]
      rfl
    · rw [State.goto_of_ne other]
  refine ⟨fun t late => ?_, fun t w member => born.known t w (todo t ▸ member),
    fun t => (congrArg List.Nodup (todo t)).mpr (born.once t),
    fun t t' w member member' => born.single t t' w (todo t ▸ member) (todo t' ▸ member')⟩
  have other : t ≠ u := fun same => created (same ▸ late)
  have before : s.Late t := by
    cases t with
    | main | app t => exact late
    | evt n => exact Nat.le_trans more late
    | timer n => exact Nat.le_trans more' late
    | worker w =>
        rcases late with late | ⟨t', member⟩
        · exact Or.inl late
        · exact Or.inr ⟨t', todo t' ▸ member⟩
  obtain ⟨nothing, dead⟩ := born.late t before
  exact ⟨(State.goto_of_ne other).trans nothing, (Function.update_of_ne other ..).trans dead⟩

/-- A thread makes a call. -/
theorem Born.perform (born : Born s) {op : Op} {rest : List Op} (here : s.todo t = op :: rest)
    (performed : s.perform t rest op = some s')
    : Born s' := by
  have created : ¬s.Late t := born.not_late (Or.inl (by rw [here]; exact List.cons_ne_nil _ _))
  have instead (ops : List Op) (none : creates ops = []) : Born (s.goto t (ops ++ rest)) := by
    refine born.goto created ?_
    rw [creates_append, none, here]
    exact creates_rest
  have moved : Born (s.goto t rest) := instead [] rfl
  cases op with
  | lock mutex =>
      simp only [State.perform] at performed
      split at performed
      · exact Option.some.inj performed ▸ { moved with }
      · split at performed
        · exact Option.some.inj performed ▸ { moved with }
        · cases performed
  | createEvt =>
      have idle := (moved.late (.evt s.evts) (Nat.le_refl _)).1
      exact Option.some.inj performed ▸
        moved.spawn idle rfl (Nat.le_succ _) (Nat.le_refl _) (Nat.not_succ_le_self _)
  | createTimer =>
      have idle := (moved.late (.timer s.timers) (Nat.le_refl _)).1
      have spawned
          : Born
              { (s.goto t rest).spawn (.timer s.timers) _waitSelfConnect with
                timers := s.timers + 1 } :=
        moved.spawn idle rfl (Nat.le_refl _) (Nat.le_succ _) (Nat.not_succ_le_self _)
      exact Option.some.inj performed ▸ { spawned with }
  | createWorker w =>
      have mine : w ∈ creates (s.todo t) := by
        rw [here]
        exact List.mem_cons_self
      have nowhere (u : Thread θ) : w ∉ creates ((s.goto t rest).todo u) := by
        rcases eq_or_ne u t with rfl | other
        · have once := born.once u
          rw [here] at once
          rw [State.goto_self]
          exact (List.nodup_cons.mp once).1
        · rw [State.goto_of_ne other]
          exact fun member => other (born.single u t w member mine)
      have late : s.Late (.worker w) := Or.inr ⟨t, mine⟩
      have other : Thread.worker w ≠ t := fun same => created (same ▸ late)
      have idle : (s.goto t rest).todo (.worker w) = [] :=
        (State.goto_of_ne other).trans (born.late _ late).1
      refine Option.some.inj performed ▸
        moved.spawn idle rfl (Nat.le_refl _) (Nat.le_refl _) ?_
      rintro (late | ⟨u, member⟩)
      · exact Nat.not_lt.mpr late (born.known t w mine)
      · change w ∈ creates (((s.goto t rest).goto (.worker w) clFree).todo u) at member
        rcases eq_or_ne u (.worker w) with rfl | other
        · rw [State.goto_self] at member
          cases member
        · rw [State.goto_of_ne other] at member
          exact nowhere u member
  | popPool pool =>
      simp only [State.perform] at performed
      split at performed
      · exact Option.some.inj performed ▸ instead [.unlock .gMtxPols] rfl
      · rename_i entry _
        have released := instead (.unlock .gMtxPols :: releasePool entry.1 entry.2)
          (creates_releasePool entry.1 entry.2)
        exact Option.some.inj performed ▸ { released with }
  | popPools =>
      have released := instead (s.liPols.flatMap fun entry => releasePool entry.1 entry.2)
        (creates_flatMap fun entry => creates_releasePool entry.1 entry.2)
      exact Option.some.inj performed ▸ { released with }
  | joinEvt | joinTimer => exact moved.joinLast performed
  | joinWorker w =>
      simp only [State.perform, State.join] at performed
      split at performed
      · cases performed
      · exact Option.some.inj performed ▸ moved
  | callback => cases performed
  | leave =>
      refine Option.some.inj performed ▸ moved.lives fun u lives => ?_
      rcases eq_or_ne u t with rfl | other
      · rw [Function.update_self] at lives
        cases lives
      · rwa [Function.update_of_ne other] at lives
  | _ => exact Option.some.inj performed ▸ { moved with }

/-- A thread that exists begins with something. -/
theorem Born.begin (born : Born s) (created : ¬s.Late t) {ops : List Op}
    (none : creates ops = [])
    : Born (s.goto t ops) :=
  born.goto created (none ▸ List.nil_sublist _)

theorem Born.step (born : Born s) {action : Action θ} (stepped : step s action = some s')
    : Born s' := by
  unfold Main.step at stepped
  split at stepped
  · cases stepped
  · cases action with
    | init ok =>
        simp only at stepped
        split at stepped
        · exact Option.some.inj stepped ▸ born.begin id (creates_setup (setup_clInit _ _ ok))
        · cases stepped
    | deinit =>
        simp only at stepped
        split at stepped
        · have begun : Born (s.goto .main clDeinit) := born.begin id rfl
          exact Option.some.inj stepped ▸ { begun with }
        · cases stepped
    | call t call =>
        simp only at stepped
        split at stepped
        · rename_i able
          exact Option.some.inj stepped ▸ born.call (born.outside able.2) call
        · cases stepped
    | go t =>
        simp only at stepped
        split at stepped
        · cases stepped
        · rename_i here
          exact born.perform here stepped
    | back t =>
        simp only at stepped
        split at stepped
        · rename_i here
          have created : ¬s.Late t :=
            born.not_late (Or.inl (by rw [here]; exact List.cons_ne_nil _ _))
          refine Option.some.inj stepped ▸ born.goto created ?_
          rw [here]
          exact creates_rest
        · cases stepped
    | loop n =>
        obtain ⟨_, stepped⟩ := turn_eq_some stepped
        split at stepped
        · cases stepped
        · split at stepped
          · exact Option.some.inj stepped ▸ { born with }
          · refine Option.some.inj stepped ▸ born.lives fun u lives => ?_
            rcases eq_or_ne u (.evt n) with rfl | other
            · rw [Function.update_self] at lives
              cases lives
            · rwa [Function.update_of_ne other] at lives
    | wake n token popped =>
        obtain ⟨lives, stepped⟩ := turn_eq_some stepped
        split at stepped
        · have begun : Born (s.goto (.evt n) (_evtThread popped)) :=
            born.begin (born.not_late (Or.inr lives)) (by cases popped <;> rfl)
          exact Option.some.inj stepped ▸ { begun with }
        · cases stepped
    | serve n served =>
        obtain ⟨lives, _, rfl⟩ := serve_eq_some stepped
        have begun : Born (s.goto (.timer n) served.ops) :=
          born.begin (born.not_late (Or.inr lives)) (creates_served served)
        exact { begun with }
    | work w jobs =>
        obtain ⟨lives, stepped⟩ := turn_eq_some stepped
        exact Option.some.inj stepped ▸
          born.begin (born.not_late (Or.inr lives)) (creates_workerThread _ jobs)

end Libccll.Main
