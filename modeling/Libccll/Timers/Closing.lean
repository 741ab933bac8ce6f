import Mathlib.Data.List.Perm.Basic
import Libccll.Timers.Descriptors

/-! Every descriptor of the timer thread is closed once, as long as no timer is canceled.
Each node in the list, and each that is about to be closed, has a close to come; together with the
ones made so far these are all the descriptors there have been.
-/

namespace Libccll.Timers.Descriptors

open Foundation

/-- The nodes whose descriptors are closed. -/
def closings : List Op → List Timer
  | [] => []
  | .close tmr :: ops => tmr :: closings ops
  | .epollDel _ :: ops | .disarm _ :: ops | .listDel _ :: ops => closings ops

/-- The nodes that are closed or taken off the list. -/
def endings : List Op → List Timer
  | [] => []
  | .close tmr :: ops | .listDel tmr :: ops => tmr :: endings ops
  | .epollDel _ :: ops | .disarm _ :: ops => endings ops

/-- The nodes whose descriptors are to be closed: now, or later on. -/
def due (liSock : List Timer) (ops : List Op) : List Timer :=
  closings ops ++ liSock.filter fun tmr => tmr ∉ endings ops

/-- What is taken off the list is there, and what is closed is not, or will be taken off. -/
def Planned : List Timer → List Op → Prop
  | _, [] => True
  | liSock, .close tmr :: ops => (tmr ∈ liSock → tmr ∈ endings ops) ∧ Planned liSock ops
  | liSock, .listDel tmr :: ops =>
      tmr ∈ liSock ∧ Planned (liSock.eraseP (·.inst = tmr.inst)) ops
  | liSock, .epollDel _ :: ops | liSock, .disarm _ :: ops => Planned liSock ops

def State.due (s : State) : List Timer := Descriptors.due s.server.liSock s.work.ops

/-- Every descriptor there has been is closed or due, and those due are open. -/
structure Ledger (s : State) : Prop where
  distinct : (s.server.liSock.map Timer.inst).Nodup
  numbered : ∀ tmr ∈ s.server.liSock, tmr.inst ≤ s.server.created
  planned : Planned s.server.liSock s.work.ops
  made : ∀ tmr ∈ s.work.made, tmr ∈ s.server.liSock
  owned : ∀ tmr ∈ s.due, s.table tmr.fd = some (.node tmr.inst)
  balance
    : (s.closed.map Closing.inst ++ s.due.map Timer.inst).Perm
        (List.range (s.server.created + 1))
  own : ∀ closing ∈ s.closed, closing.owner = some (.node closing.inst)
  emptied
    : s.work.leaves = true → ∀ tmr ∈ s.server.liSock, .listDel tmr ∈ s.work.ops

variable {liSock : List Timer} {tmr : Timer} {ops : List Op}

theorem due_nil : due liSock [] = liSock := by
  simp [due, closings, endings]

/-- A node that is closed was due. -/
theorem due_close (planned : Planned liSock (.close tmr :: ops))
    : due liSock (.close tmr :: ops) = tmr :: due liSock ops := by
  have others : liSock.filter (fun t => t ∉ endings (.close tmr :: ops))
      = liSock.filter (fun t => t ∉ endings ops) := by
    apply List.filter_congr
    intro t listed
    rw [Bool.eq_iff_iff, decide_eq_true_eq, decide_eq_true_eq, not_iff_not, endings,
      List.mem_cons, or_iff_right_iff_imp]
    rintro rfl
    exact planned.1 listed
  rw [due, others]
  rfl

/-- A node of the list is the first one with its number. -/
theorem eraseP_inst (distinct : (liSock.map Timer.inst).Nodup) (member : tmr ∈ liSock)
    : liSock.eraseP (·.inst = tmr.inst) = liSock.filter (· ≠ tmr) := by
  obtain ⟨front, back, rfl⟩ := List.append_of_mem member
  rw [List.map_append, List.map_cons, List.nodup_middle, List.nodup_cons, List.mem_append,
    not_or] at distinct
  obtain ⟨⟨inFront, inBack⟩, -⟩ := distinct
  have apart {ts : List Timer} (other : tmr.inst ∉ ts.map Timer.inst)
      : ∀ t ∈ ts, t.inst ≠ tmr.inst :=
    fun t listed same => other (same ▸ List.mem_map_of_mem listed)
  have kept {ts : List Timer} (other : tmr.inst ∉ ts.map Timer.inst)
      : ts.filter (· ≠ tmr) = ts := by
    refine List.filter_eq_self.mpr fun t listed => decide_eq_true ?_
    exact fun same => apart other t listed (same ▸ rfl)
  rw [List.eraseP_append_right _ fun t listed same => apart inFront t listed
      (of_decide_eq_true same), List.eraseP_cons_of_pos (by simp), List.filter_append,
    List.filter_cons_of_neg (by simp), kept inFront, kept inBack]

/-- A node that is taken off the list is closed later, or has been. -/
theorem due_listDel (distinct : (liSock.map Timer.inst).Nodup)
    (planned : Planned liSock (.listDel tmr :: ops))
    : due (liSock.eraseP (·.inst = tmr.inst)) ops = due liSock (.listDel tmr :: ops) := by
  have others : (liSock.eraseP (·.inst = tmr.inst)).filter (fun t => t ∉ endings ops)
      = liSock.filter (fun t => t ∉ endings (.listDel tmr :: ops)) := by
    rw [eraseP_inst distinct planned.1, List.filter_filter]
    apply List.filter_congr
    intro t _
    simp [endings, Bool.and_comm]
  rw [due, others]
  rfl

/-- One node is closed, and all others are left alone. -/
theorem due_one (distinct : liSock.Nodup) (member : tmr ∈ liSock) (closed : closings ops = [tmr])
    (ended : endings ops = [tmr, tmr])
    : (due liSock ops).Perm liSock := by
  have others : liSock.filter (fun t => t ∉ [tmr, tmr]) = liSock.erase tmr := by
    rw [distinct.erase_eq_filter]
    apply List.filter_congr
    intro t _
    rw [Bool.eq_iff_iff]
    simp
  rw [due, closed, ended, others]
  exact (List.perm_cons_erase member).symm

/-- All nodes are closed. -/
theorem due_release : (due liSock (liSock.flatMap release)).Perm liSock := by
  have closed (ts : List Timer) : closings (ts.flatMap release) = ts := by
    induction ts with
    | nil => rfl
    | cons t ts ih =>
        change t :: closings (ts.flatMap release) = t :: ts
        rw [ih]
  have ended (ts : List Timer) : ∀ t ∈ ts, t ∈ endings (ts.flatMap release) := by
    induction ts with
    | nil => exact fun _ member => absurd member List.not_mem_nil
    | cons t ts ih =>
        intro u member
        change u ∈ t :: t :: endings (ts.flatMap release)
        rcases List.mem_cons.mp member with rfl | later
        · exact List.mem_cons_self
        · exact List.mem_cons_of_mem _ (List.mem_cons_of_mem _ (ih u later))
  have none : liSock.filter (fun t => t ∉ endings (liSock.flatMap release)) = [] := by
    rw [List.filter_eq_nil_iff]
    intro t listed
    simpa using ended liSock t listed
  rw [due, closed, none, List.append_nil]

theorem planned_release (distinct : (liSock.map Timer.inst).Nodup)
    : Planned liSock (liSock.flatMap release) := by
  induction liSock with
  | nil => trivial
  | cons t ts ih =>
      obtain ⟨new, distinct⟩ := List.nodup_cons.mp distinct
      have erased : (t :: ts).eraseP (·.inst = t.inst) = ts :=
        List.eraseP_cons_of_pos (p := fun u : Timer => decide (u.inst = t.inst))
          (decide_eq_true rfl)
      change t ∈ t :: ts ∧ Planned ((t :: ts).eraseP _) (.close t :: ts.flatMap release)
      rw [erased]
      refine ⟨List.mem_cons_self, fun listed => absurd (List.mem_map_of_mem listed) new, ?_⟩
      exact ih distinct

-----------------------------------------------------------------------------------------
-- The ledger
-----------------------------------------------------------------------------------------

theorem ledger_initial (srvfd : Nat) (others : Nat → Bool)
    : Ledger (State.initial srvfd others) := by
  have due : (State.initial srvfd others).due = [srvNode srvfd] := rfl
  refine ⟨List.nodup_singleton _, ?_, trivial, ?_, ?_, List.Perm.refl _, ?_, ?_⟩
  · intro tmr member
    rw [List.mem_singleton.mp member]
    exact Nat.le_refl 0
  · exact none_made
  · rw [due]
    intro tmr member
    rw [List.mem_singleton.mp member]
    exact if_pos rfl
  · exact fun _ closed => absurd closed List.not_mem_nil
  · exact fun leaves => absurd leaves Bool.false_ne_true

variable {s t : State}

theorem Ledger.due_nodup (ledger : Ledger s) : (s.due.map Timer.inst).Nodup := by
  have distinct := ledger.balance.nodup_iff.mpr List.nodup_range
  exact (List.nodup_append.mp distinct).2.1

/-- No descriptor is opened or closed, and no node is new. -/
theorem Ledger.update (ledger : Ledger s) {server : Server} {work : Work}
    (created : server.created = s.server.created)
    (nodes : server.liSock.Sublist s.server.liSock) (planned : Planned server.liSock work.ops)
    (made : ∀ tmr ∈ work.made, tmr ∈ server.liSock)
    (due : (Descriptors.due server.liSock work.ops).Perm s.due)
    (emptied : work.leaves = true → ∀ tmr ∈ server.liSock, .listDel tmr ∈ work.ops)
    : Ledger { s with server, work } := by
  refine ⟨ledger.distinct.sublist (nodes.map _), ?_, planned, made, ?_, ?_, ledger.own, emptied⟩
  · exact fun tmr member => created ▸ ledger.numbered tmr (nodes.subset member)
  · exact fun tmr member => ledger.owned tmr (due.mem_iff.mp member)
  · rw [created]
    exact ((due.map Timer.inst).append_left _).trans ledger.balance

/-- The thread has something else to do. -/
theorem Ledger.goto (ledger : Ledger s) {work : Work} (free : s.work.ops = [])
    (planned : Planned s.server.liSock work.ops)
    (made : ∀ tmr ∈ work.made, tmr ∈ s.server.liSock)
    (due : (Descriptors.due s.server.liSock work.ops).Perm s.server.liSock)
    (emptied : work.leaves = true → ∀ tmr ∈ s.server.liSock, .listDel tmr ∈ work.ops)
    : Ledger { s with work } := by
  have before : s.due = s.server.liSock := by
    rw [State.due, free, due_nil]
  exact ledger.update rfl (List.Sublist.refl _) planned made (before ▸ due) emptied

/-- A descriptor is closed. -/
theorem Ledger.close (ledger : Ledger s) {tmr : Timer} {ops : List Op} {leaves : Bool}
    (work : s.work = .doing (.close tmr :: ops) leaves)
    : Ledger { s.perform (.close tmr) with work := .doing ops leaves } := by
  have planned : Planned s.server.liSock (.close tmr :: ops) := by
    have planned := ledger.planned
    rwa [work] at planned
  have due : s.due = tmr :: Descriptors.due s.server.liSock ops := by
    rw [State.due, work]
    exact due_close planned
  have owned := ledger.owned
  have balance := ledger.balance
  have distinct := ledger.due_nodup
  rw [due] at owned balance distinct
  have here := owned tmr List.mem_cons_self
  refine ⟨ledger.distinct, ledger.numbered, planned.2, ?_, ?_, ?_, ?_, ?_⟩
  · exact none_made
  · intro t member
    have there := owned t (List.mem_cons_of_mem _ member)
    have apart : t.fd ≠ tmr.fd := by
      intro same
      have inst : t.inst = tmr.inst := by
        rw [same, here] at there
        exact (Owner.node.inj (Option.some.inj there)).symm
      exact (List.nodup_cons.mp distinct).1 (inst ▸ List.mem_map_of_mem member)
    exact (Function.update_of_ne apart ..).trans there
  · change ((s.closed ++ [_]).map Closing.inst ++ _).Perm _
    rw [List.map_append, List.append_assoc]
    exact balance
  · intro closing member
    rcases List.mem_append.mp member with old | new
    · exact ledger.own closing old
    · rw [List.mem_singleton.mp new]
      exact here
  · intro leaving t listed
    have emptied := ledger.emptied
    rw [work] at emptied
    rcases List.mem_cons.mp (emptied leaving t listed) with same | later
    · cases same
    · exact later

theorem Ledger.perform (ledger : Ledger s) {op : Op} {ops : List Op} {leaves : Bool}
    (work : s.work = .doing (op :: ops) leaves)
    : Ledger { s.perform op with work := .doing ops leaves } := by
  have planned := ledger.planned
  have emptied := ledger.emptied
  rw [work] at planned emptied
  have due : s.due = Descriptors.due s.server.liSock (op :: ops) := by
    rw [State.due, work]
    rfl
  have made : ∀ tmr ∈ (Work.doing ops leaves).made, tmr ∈ (op.apply s.server).liSock :=
    none_made
  have later (other : ∀ tmr, op ≠ .listDel tmr) (leaving : leaves = true)
      : ∀ tmr ∈ s.server.liSock, .listDel tmr ∈ ops := by
    intro tmr listed
    rcases List.mem_cons.mp (emptied leaving tmr listed) with same | later
    · exact absurd same.symm (other tmr)
    · exact later
  cases op with
  | close tmr => exact ledger.close work
  | epollDel tmr | disarm tmr =>
      refine ledger.update rfl (List.Sublist.refl _) planned made ?_ (later (by simp))
      rw [due]
      exact List.Perm.refl _
  | listDel tmr =>
      refine ledger.update rfl List.eraseP_sublist planned.2 made ?_ ?_
      · rw [due]
        exact .of_eq (due_listDel ledger.distinct planned)
      · intro leaving t listed
        change t ∈ s.server.liSock.eraseP _ at listed
        rw [eraseP_inst ledger.distinct planned.1, List.mem_filter, decide_eq_true_eq] at listed
        rcases List.mem_cons.mp (emptied leaving t listed.1) with same | later
        · exact absurd (Op.listDel.inj same) listed.2
        · exact later

-----------------------------------------------------------------------------------------
-- Every step
-----------------------------------------------------------------------------------------

/-- The thread has nothing to do to any node. -/
theorem Ledger.rest (ledger : Ledger s) {server : Server} {work : Work}
    (created : server.created = s.server.created) (nodes : server.liSock = s.server.liSock)
    (free : s.work.ops = []) (rest : work.ops = []) (stays : work.leaves = false)
    (made : ∀ tmr ∈ work.made, tmr ∈ s.server.liSock)
    : Ledger { s with server, work } := by
  have before : s.due = s.server.liSock := by
    rw [State.due, free, due_nil]
  refine ledger.update created (by rw [nodes]) ?_ (nodes ▸ made) ?_ fun leaves => ?_
  · rw [rest]
    trivial
  · rw [rest, due_nil, before, nodes]
  · cases stays.symm.trans leaves

/-- The thread has one node to take off the list and to close. -/
theorem Ledger.one (ledger : Ledger s) {tmr : Timer} {ops : List Op} (free : s.work.ops = [])
    (member : tmr ∈ s.server.liSock) (planned : Planned s.server.liSock ops)
    (closed : closings ops = [tmr]) (ended : endings ops = [tmr, tmr])
    : Ledger { s with work := .doing ops false } := by
  refine ledger.goto free planned ?_ ?_ ?_
  · exact none_made
  · exact due_one ledger.distinct.of_map member closed ended
  · exact fun leaves => absurd leaves Bool.false_ne_true

theorem Ledger.creFailed (ledger : Ledger s) {tmr : Timer} (free : s.work.ops = [])
    (member : tmr ∈ s.server.liSock)
    : Ledger { s with work := .doing (creFailed tmr) false } := by
  refine ledger.one free member ⟨member, fun listed => ?_, trivial⟩ rfl rfl
  rw [eraseP_inst ledger.distinct member, List.mem_filter] at listed
  simp at listed

theorem Ledger.usedUp (ledger : Ledger s) {tmr : Timer} (free : s.work.ops = [])
    (member : tmr ∈ s.server.liSock)
    : Ledger { s with work := .doing (usedUp tmr) false } :=
  ledger.one free member ⟨fun _ => List.mem_singleton_self tmr, member, trivial⟩ rfl rfl

theorem Ledger.release (ledger : Ledger s) (free : s.work.ops = [])
    : Ledger { s with work := .doing (s.server.liSock.flatMap release) true } := by
  refine ledger.goto free (planned_release ledger.distinct) ?_ due_release ?_
  · exact none_made
  · exact fun _ tmr listed =>
      List.mem_flatMap.mpr ⟨tmr, listed, List.mem_cons_of_mem _ List.mem_cons_self⟩

/-- A client is counted down. -/
theorem Ledger.counted (ledger : Ledger s) (tmr : Timer) (waiting : s.work = .waiting)
    : Ledger { s with server := s.server.counted tmr } := by
  have before : s.due = s.server.liSock := by
    rw [State.due, waiting]
    exact due_nil
  obtain ⟨counted, listed, same⟩ := s.server.liSock_counted tmr
  have insts : (s.server.counted tmr).liSock.map Timer.inst = s.server.liSock.map Timer.inst := by
    rw [listed, List.map_map]
    exact List.map_congr_left fun t _ => (same t).2.2
  have after : State.due { s with server := s.server.counted tmr }
      = (s.server.counted tmr).liSock := by
    rw [State.due, waiting]
    exact due_nil
  have owned := ledger.owned
  have balance := ledger.balance
  rw [before] at owned balance
  have origin : ∀ t ∈ (s.server.counted tmr).liSock,
      ∃ t' ∈ s.server.liSock, t.fd = t'.fd ∧ t.inst = t'.inst := by
    rw [listed]
    intro t member
    obtain ⟨t', old, rfl⟩ := List.mem_map.mp member
    exact ⟨t', old, (same t').2⟩
  refine ⟨insts ▸ ledger.distinct, ?_, ?_, ?_, ?_, ?_, ledger.own, ?_⟩
  · intro t member
    obtain ⟨t', listed, _, inst⟩ := origin t member
    exact inst ▸ ledger.numbered t' listed
  · rw [waiting]
    trivial
  · rw [waiting]
    exact none_made
  · rw [after]
    intro t member
    obtain ⟨t', listed, fd, inst⟩ := origin t member
    exact fd ▸ inst ▸ owned t' listed
  · rw [after, insts]
    exact balance
  · rw [waiting]
    exact fun leaves => absurd leaves Bool.false_ne_true

/-- A cancel finds no timer. -/
def Unmatched (s : State) : Action → Prop
  | .message (.clTimerCancel cb) => ∀ tmr ∈ s.server.liSock, ¬(tmr.srv = false ∧ tmr.cb = cb)
  | _ => True

instance (s : State) (action : Action) : Decidable (Unmatched s action) := by
  unfold Unmatched
  split <;> infer_instance

/-- A new descriptor is open, and due. -/
theorem Ledger.create (ledger : Ledger s) (free : s.work.ops = []) {fd : Nat}
    (unused : s.table fd = none) (sec ms : UInt16) (repeats : UInt32) (cb : UInt64)
    : Ledger (s.create fd sec ms repeats cb) := by
  have before : s.due = s.server.liSock := by
    rw [State.due, free, due_nil]
  have after
      : (s.create fd sec ms repeats cb).due = (s.create fd sec ms repeats cb).server.liSock :=
    due_nil
  let newCli : Timer := { _creNode fd cb (s.server.created + 1) with repeats }
  have listed : (s.create fd sec ms repeats cb).server.liSock = s.server.liSock ++ [newCli] := rfl
  have owned := ledger.owned
  have balance := ledger.balance
  rw [before] at owned balance
  refine ⟨?_, ?_, trivial, ?_, ?_, ?_, ledger.own, ?_⟩
  · rw [listed, List.map_append, List.nodup_append]
    refine ⟨ledger.distinct, List.nodup_singleton _, ?_⟩
    intro n old m new same
    obtain ⟨t, member, rfl⟩ := List.mem_map.mp old
    have numbered := ledger.numbered t member
    have isNew : m = s.server.created + 1 := List.mem_singleton.mp new
    omega
  · rw [listed]
    intro t member
    rcases List.mem_append.mp member with old | new
    · exact Nat.le_succ_of_le (ledger.numbered t old)
    · rw [List.mem_singleton.mp new]
      exact Nat.le_refl _
  · intro t made
    obtain rfl := Option.some.inj made
    rw [listed]
    exact List.mem_append_right _ (List.mem_singleton_self _)
  · rw [after, listed]
    intro t member
    rcases List.mem_append.mp member with old | new
    · have there := owned t old
      have apart : t.fd ≠ fd := by
        intro same
        rw [same, unused] at there
        cases there
      exact (Function.update_of_ne apart ..).trans there
    · rw [List.mem_singleton.mp new]
      exact Function.update_self ..
  · rw [after, listed, List.map_append, ← List.append_assoc]
    change (_ ++ [s.server.created + 1]).Perm (List.range (s.server.created + 1 + 1))
    rw [List.range_succ]
    exact balance.append_right _
  · exact fun leaves => absurd leaves Bool.false_ne_true

theorem Ledger.ended (ledger : Ledger s) {leaves : Bool} (work : s.work = .doing [] leaves)
    : Ledger { s with work := if leaves = true then .ended else .waiting } := by
  have free : s.work.ops = [] := by rw [work]; rfl
  have emptied := ledger.emptied
  rw [work] at emptied
  have after : Work.ops (if leaves = true then .ended else .waiting) = [] := by
    split <;> rfl
  have made : Work.made (if leaves = true then .ended else .waiting) = none := by
    split <;> rfl
  refine ledger.goto free ?_ ?_ ?_ ?_
  · rw [after]
    trivial
  · rw [made]
    exact none_made
  · rw [after, due_nil]
  · rw [after]
    intro leaving
    split at leaving
    · rename_i isLeaving
      exact emptied isLeaving
    · cases leaving

theorem Ledger.turn (ledger : Ledger s) {action : Action} (unmatched : Unmatched s action)
    (turn : Turn s action t)
    : Ledger t := by
  cases turn with
  | others table kept =>
      exact { ledger with owned := fun tmr due => kept _ _ (ledger.owned tmr due) }
  | rest server work free rest created nodes made room =>
      exact ledger.rest created nodes free.1 rest.1 rest.2 fun tmr isMade =>
        ledger.made tmr (made tmr isMade)
  | counted tmr waiting => exact ledger.counted tmr waiting
  | create fd sec ms repeats cb work unused =>
      exact ledger.create (by rw [work]; rfl) unused sec ms repeats cb
  | failed tmr free made => exact ledger.creFailed free.1 (ledger.made tmr made)
  | usedUp tmr free member client => exact ledger.usedUp free.1 member
  | cancel tmr free member client => exact absurd ⟨client, rfl⟩ (unmatched tmr member)
  | leave free => exact ledger.release free.1
  | perform op ops leaves work => exact ledger.perform work
  | ended leaves work => exact ledger.ended work

/-- In every run in which no cancel finds its timer, the timer thread closes no descriptor but its
own ones, and each at most once. Those not closed are open; when the thread has ended, as it can
whenever it has left its loop, each has been closed.
-/
theorem closed_once {srvfd : Nat} {others : Nat → Bool} {actions : List Action} {s : State}
    (ran
      : Transition.run (Transition.restrict Unmatched step) (State.initial srvfd others) actions
        = some s)
    : (∀ closing ∈ s.closed, closing.owner = some (.node closing.inst))
      ∧ (s.closed.map Closing.inst).Nodup
      ∧ (∀ inst ≤ s.server.created,
          inst ∈ s.closed.map Closing.inst ∨ ∃ fd, s.table fd = some (.node inst))
      ∧ (∀ ops, s.work = .doing ops true → ∃ t, Reaches s t ∧ t.work = .ended)
      ∧ (s.work = .ended
        → ∀ inst ≤ s.server.created, (s.closed.map Closing.inst).count inst = 1) := by
  have ledger : Ledger s :=
    Transition.run_invariant
      (fun ledger stepped =>
        let ⟨unmatched, stepped⟩ := Transition.restrict_eq_some_iff.mp stepped
        Ledger.turn ledger unmatched (step_turn stepped))
      (ledger_initial srvfd others) ran
  have distinct := ledger.balance.nodup_iff.mpr List.nodup_range
  have once := (List.nodup_append.mp distinct).1
  have all {inst : Nat} (created : inst ≤ s.server.created)
      : inst ∈ s.closed.map Closing.inst ∨ inst ∈ s.due.map Timer.inst := by
    rw [← List.mem_append, ledger.balance.mem_iff, List.mem_range]
    exact Nat.lt_succ_of_le created
  refine ⟨ledger.own, once, fun inst created => (all created).imp_right ?_, ?_, ?_⟩
  · intro isDue
    obtain ⟨tmr, member, rfl⟩ := List.mem_map.mp isDue
    exact ⟨tmr.fd, ledger.owned tmr member⟩
  · intro ops work
    obtain ⟨t, reaches, ended, _⟩ := reaches_done s ops true
    rw [← work] at reaches
    exact ⟨t, reaches, ended⟩
  · intro ended inst created
    have empty : s.server.liSock = [] := by
      have emptied := ledger.emptied
      rw [ended] at emptied
      exact List.eq_nil_iff_forall_not_mem.mpr fun tmr listed =>
        absurd (emptied rfl tmr listed) List.not_mem_nil
    have nothing : s.due = [] := by
      rw [State.due, ended, empty]
      exact due_nil
    refine List.count_eq_one_of_mem once ((all created).resolve_right ?_)
    rw [nothing]
    exact List.not_mem_nil

/-- A timer that expires once, and the end of the thread; others take over its descriptor. -/
theorem closed_once_expired
    : let s := (Transition.run (Transition.restrict Unmatched step) (State.initial 3 fun _ => false)
        [.message (.clTimerSet 1 0 1 77), .proceed (some 5), .proceed (some 0), .proceed (some 0),
          .message (.clTimerCancel 78), .expire 5, .proceed none, .proceed none, .proceed none,
          .openFd 5, .proceed none, .proceed none, .destroy, .proceed none, .proceed none,
          .proceed none, .proceed none]).get (by decide +kernel)
      (s.closed.map Closing.inst).count 1 = 1 :=
  (closed_once (Option.some_get _).symm).2.2.2.2 (by rfl) 1 (by decide +kernel)

/-- Another thread opens a descriptor behind the first `close` of `_rmv_timer`: the second one
closes it.
-/
theorem closed_once_canceled
    : ¬∀ (actions : List Action) (s : State),
        Transition.run step (State.initial 3 fun _ => false) actions = some s
        → (∀ closing ∈ s.closed, closing.owner ≠ some .others)
          ∧ (s.closed.map Closing.inst).Nodup := by
  intro claim
  have closed := claim
    [.message (.clTimerSet 1 0 1 77), .proceed (some 5), .proceed (some 0), .proceed (some 0),
      .message (.clTimerCancel 77), .proceed none, .proceed none, .proceed none, .openFd 5,
      .proceed none, .proceed none] _ (Option.some_get (by decide +kernel)).symm
  exact closed.1 ⟨1, some .others⟩ (by decide +kernel) rfl

end Libccll.Timers.Descriptors
