import Libccll.Foundation.Transition
import Libccll.Main.Safety

/-! Every mutex is initialised when it is locked, as long as the library is not initialised again
and no mutex is destroyed before its last user is through with it.
-/

namespace Libccll.Main

open Foundation

variable {θ : Type*}

-----------------------------------------------------------------------------------------
-- What is needed
-----------------------------------------------------------------------------------------

/-- No thread but `main` needs the mutex any more, nor will the timer thread for what is in its
inbox.
-/
def State.Unneeded (s : State θ) (mutex : Mutex) : Prop :=
  (∀ t ∈ s.threads, (∀ op ∈ s.todo t, ¬op.Needs mutex) ∧ (s.lives t = true → ¬t.Needs mutex))
  ∧ (mutex = .gMtxSock → s.inbox.Last)

instance (s : State θ) (mutex : Mutex) : Decidable (s.Unneeded mutex) := by
  unfold State.Unneeded
  infer_instance

/-- Neither `cl_init` nor `cl_deinit` is called after a `cl_deinit`, and `l_mtx_evt` is initialised
when it is to be; a mutex is destroyed when no other thread needs it; and `sem_wait` is not
interrupted while `l_mtx_evt` is not initialised.
-/
def State.Orderly (s : State θ) : Action θ → Prop
  | .init ok => s.closed = false ∧ ok .evtMutexInit = true
  | .deinit => s.closed = false
  | .wake _ token _ => token = false → s.ready .lMtxEvt = true
  | .go .main =>
      match s.todo .main with
      | .mutexDestroy mutex :: _ => s.Unneeded mutex
      | _ => True
  | _ => True

instance (s : State θ) (action : Action θ) : Decidable (s.Orderly action) := by
  unfold State.Orderly
  split
  · infer_instance
  · infer_instance
  · infer_instance
  · split <;> infer_instance
  · infer_instance

variable {s s' : State θ} {t : Thread θ} {ok : Outcomes} [DecidableEq θ]

-----------------------------------------------------------------------------------------
-- The calls that only `main` makes
-----------------------------------------------------------------------------------------

section

variable {op : Op} {rest : List Op}

/-- A call that changes nothing that matters. -/
theorem Safe.idle (safe : Safe s) (here : s.todo .main = op :: rest)
    (covered : Covered s.outlook rest) (other : op ≠ .mutexInit .lMtxEvt)
    : Safe (s.goto .main rest) := by
  refine safe.goto_main covered (fun closed _ => safe.opens_rest here closed) ?_
  rw [here]
  exact fun same => other (Option.some.inj same)

theorem Safe.rest_opens (safe : Safe s) (here : s.todo .main = op :: rest)
    (closed : s.closed = false)
    : ∀ op' ∈ (s.goto .main rest).todo .main, ¬op'.Closes := by
  rw [State.goto_self]
  exact safe.opens_rest here closed

theorem Safe.rest_covered (safe : Safe s) (here : s.todo .main = op :: rest)
    : Covered (s.outlook.after op) ((s.goto .main rest).todo .main) := by
  have covered := safe.covered
  rw [here] at covered
  rw [State.goto_self]
  exact covered.2

/-- The others have to do what they had. -/
theorem Safe.rest_pending (safe : Safe s) (other : t ≠ .main)
    : ∀ op' ∈ (s.goto .main rest).todo t, op' ∈ s.todo t ∧ op'.Fine s.ready s.served := by
  rw [State.goto_of_ne other]
  exact fun op' member => ⟨member, safe.pending t other op' member⟩

theorem Safe.rest_known (safe : Safe s) (other : t ≠ .main) (unknown : t ∉ s.threads)
    : (s.goto .main rest).todo t = [] ∧ s.lives t = false := by
  rw [State.goto_of_ne other]
  exact safe.known t other unknown

theorem Safe.mutexInit (safe : Safe s) {mutex : Mutex}
    (here : s.todo .main = .mutexInit mutex :: rest) {owner : Mutex → Option (Thread θ)}
    : Safe
        {
          s.goto .main rest with
          ready := Function.update s.ready mutex true
          owner
        } := by
  have grown {m : Mutex} (ready : s.ready m = true)
      : Function.update s.ready mutex true m = true := by
    rcases eq_or_ne m mutex with rfl | apart
    · exact Function.update_self ..
    · rwa [Function.update_of_ne apart]
  refine
    { sound := safe.sound, covered := safe.rest_covered here, pending := ?_, alive := ?_,
      woken := ?_, ending := safe.ending.imp_left grown, up := ?_, opened := ?_,
      known := fun _ => safe.rest_known }
  · intro t other op' member
    obtain ⟨_, kind, needs, served⟩ := safe.rest_pending other op' member
    exact ⟨kind, fun m needed => grown (needs m needed), served⟩
  · exact fun t lives => (safe.alive t lives).imp_right grown
  · intro n lives
    refine Or.inl ?_
    rcases safe.woken n lives with ready | ⟨_, next⟩
    · exact grown ready
    · rw [here] at next
      cases next
      exact Function.update_self Mutex.lMtxEvt true s.ready
  · exact fun up => (safe.up up).imp_right fun ready m => grown (ready m)
  · intro closed
    obtain ⟨served, objs, pols, _⟩ := safe.opened closed
    exact ⟨served, grown objs, grown pols, safe.rest_opens here closed⟩

/-- A mutex is destroyed that no other thread needs. -/
theorem Safe.mutexDestroy (safe : Safe s) {mutex : Mutex}
    (here : s.todo .main = .mutexDestroy mutex :: rest) (unneeded : s.Unneeded mutex)
    : Safe { s.goto .main rest with ready := Function.update s.ready mutex false } := by
  have covered := safe.covered
  rw [here] at covered
  have down : s.sInit = false := covered.1
  have kept {m : Mutex} (other : m ≠ mutex) (ready : s.ready m = true)
      : Function.update s.ready mutex false m = true := by
    rwa [Function.update_of_ne other]
  have other : Op.mutexDestroy mutex ≠ .mutexInit .lMtxEvt := fun same => by cases same
  have dead {t : Thread θ} (needs : t.Needs mutex) : ¬s.lives t = true := by
    intro lives
    have apart : t ≠ .main := by
      rintro rfl
      exact needs
    exact (unneeded.1 t (safe.seen apart (Or.inr lives))).2 lives needs
  refine
    { sound := safe.sound, covered := safe.rest_covered here, pending := ?_, alive := ?_,
      woken := ?_, ending := ?_, up := ?_, opened := ?_, known := fun _ => safe.rest_known }
  · intro t apart op' member
    obtain ⟨member, kind, needs, served⟩ := safe.rest_pending apart op' member
    have seen := safe.seen apart (Or.inl (List.ne_nil_of_mem member))
    refine ⟨kind, fun m needed => kept (fun same => ?_) (needs m needed), served⟩
    exact (unneeded.1 t seen).1 op' member (same ▸ needed)
  · intro t lives
    obtain ⟨needs, ready⟩ := safe.alive t lives
    exact ⟨needs, kept (fun same => dead (same ▸ needs) lives) ready⟩
  · intro n lives
    refine Or.inl (kept (fun same => ?_) (safe.woken_ready here other lives))
    have needs : (Thread.evt n : Thread θ).Needs mutex := Or.inl same.symm
    exact dead needs lives
  · rcases eq_or_ne mutex .gMtxSock with same | other
    · exact Or.inr (unneeded.2 same)
    · exact safe.ending.imp_left (kept other.symm)
  · intro up
    change s.sInit = true at up
    rw [down] at up
    cases up
  · intro closed
    obtain ⟨served, objs, pols, opens⟩ := safe.opened closed
    have open_ := opens (.mutexDestroy mutex) (here ▸ List.mem_cons_self)
    refine ⟨served, kept (fun same => ?_) objs, kept (fun same => ?_) pols,
      safe.rest_opens here closed⟩
    · exact open_ (same ▸ trivial)
    · exact open_ (same ▸ trivial)

/-- `l_sm_evt` gets another value. -/
theorem Safe.tokens (safe : Safe s) (here : s.todo .main = op :: rest)
    (other : op ≠ .mutexInit .lMtxEvt) {smEvt : Nat}
    (covered : Covered { s.outlook with calm := smEvt = 0 } rest)
    : Safe { s.goto .main rest with smEvt } := by
  refine safe.follow
    { ready := rfl, sInit := rfl, served := rfl, closed := rfl, inbox := rfl, misused := rfl,
      alive := rfl, covered := ?_, main := fun closed _ => safe.rest_opens here closed,
      woken := fun next => ?_,
      pending := fun t apart op' member => Or.inl (safe.rest_pending apart op' member).1,
      known := fun _ other unknown => ⟨unknown, State.goto_of_ne other⟩ }
  · change Covered _ ((s.goto .main rest).todo .main)
    rw [State.goto_self]
    exact covered
  · rw [here] at next
    exact absurd (Option.some.inj next) other

/-- `s_init` is set once everything is initialised, and cleared when `cl_deinit` has been called. -/
theorem Safe.setInit (safe : Safe s) {init : Bool} (here : s.todo .main = .setInit init :: rest)
    : Safe { s.goto .main rest with sInit := init, served := s.served || init } := by
  have covered := safe.covered
  rw [here] at covered
  have other : Op.setInit init ≠ .mutexInit .lMtxEvt := fun same => by cases same
  refine
    { sound := safe.sound, covered := safe.rest_covered here, pending := ?_, alive := safe.alive,
      woken := ?_, ending := safe.ending, up := ?_, opened := ?_,
      known := fun _ => safe.rest_known }
  · intro t apart op' member
    obtain ⟨_, kind, needs, served⟩ := safe.rest_pending apart op' member
    exact ⟨kind, needs, fun same => by rw [served same, Bool.true_or]⟩
  · exact fun n lives => Or.inl (safe.woken_ready here other lives)
  · intro up
    change init = true at up
    exact ⟨by rw [up, Bool.or_true], covered.1 up⟩
  · intro closed
    obtain ⟨_, objs, pols, opens⟩ := safe.opened closed
    have open_ := opens (.setInit init) (here ▸ List.mem_cons_self)
    have up : init = true := by
      cases init with
      | false => exact absurd trivial open_
      | true => rfl
    exact ⟨by rw [up, Bool.or_true], objs, pols, safe.rest_opens here closed⟩

theorem Safe.go_main (safe : Safe s) (here : s.todo .main = op :: rest)
    (unneeded : ∀ mutex, op = .mutexDestroy mutex → s.Unneeded mutex)
    (performed : s.perform .main rest op = some s')
    : Safe s' := by
  have covered := safe.covered
  rw [here] at covered
  obtain ⟨allows, covered⟩ := covered
  cases op with
  | mutexInit mutex => exact Option.some.inj performed ▸ safe.mutexInit here
  | mutexDestroy mutex =>
      exact Option.some.inj performed ▸ safe.mutexDestroy here (unneeded mutex rfl)
  | semInit =>
      exact Option.some.inj performed ▸ safe.tokens here (fun same => by cases same) covered
  | semPost =>
      exact Option.some.inj performed ▸ safe.tokens here (fun same => by cases same) covered
  | semDestroy | setRun run | setLogInit init | setTrpoInit init | opens var | closes var
  | connect =>
      have moved := safe.idle here covered fun same => by cases same
      exact Option.some.inj performed ▸ { moved with }
  | joinEvt | joinTimer =>
      have moved := safe.idle here covered fun same => by cases same
      exact moved.joinLast performed
  | setInit init => exact Option.some.inj performed ▸ safe.setInit here
  | createEvt =>
      have moved := safe.idle here covered fun same => by cases same
      obtain ⟨_, objs, evt⟩ := allows
      have needs : (Thread.evt s.evts : Thread θ).Needs .gMtxObjs := Or.inr rfl
      have run {op : Op} (member : op ∈ [.setRun true]) : op.Fine s.ready s.served :=
        (within_one (.setRun true) trivial fun _ => id).fine
          (fun _ member => absurd member List.not_mem_nil) member
      have spawned := moved.spawn (fun same => by cases same) needs objs (fun n _ => ?_)
        fun _ member => run member
      · exact Option.some.inj performed ▸ { spawned with }
      · rw [State.goto_self]
        exact evt.imp_right fun ⟨calm, next⟩ => ⟨of_decide_eq_true calm, next⟩
  | createTimer =>
      have moved := safe.idle here covered fun same => by cases same
      obtain ⟨objs, sock⟩ := allows
      have needs : (Thread.timer s.timers : Thread θ).Needs .gMtxObjs := rfl
      have ready : ∀ mutex ∈ [.gMtxSock, .gMtxObjs], s.ready mutex = true := by
        simp only [List.forall_mem_cons]
        exact ⟨sock, objs, fun _ member => absurd member List.not_mem_nil⟩
      have spawned := moved.spawn (fun same => by cases same) needs objs
        (fun n same => by cases same) fun op member => within_waitSelfConnect.fine ready member
      exact Option.some.inj performed ▸ { spawned with ending := Or.inl sock }
  | popPools =>
      have objs : s.ready .gMtxObjs = true := allows _ rfl
      have within
          : Within [.gMtxObjs] (s.liPols.flatMap fun entry => releasePool entry.1 entry.2) :=
        Within.flatMap fun entry => within_releasePool entry.1 entry.2
      have ready : ∀ mutex ∈ [Mutex.gMtxObjs], s.ready mutex = true :=
        fun mutex member => List.mem_singleton.mp member ▸ objs
      have released := safe.goto_main (within.covered ready covered)
        (fun closed _ op member => ?_) ?_
      · exact Option.some.inj performed ▸ { released with }
      · rcases List.mem_append.mp member with new | old
        · exact (within op new).1.opens
        · exact safe.opens_rest here closed op old
      · rw [here]
        exact fun same => by cases same
  | _ => exact safe.plain here trivial performed

end

-----------------------------------------------------------------------------------------
-- The steps
-----------------------------------------------------------------------------------------

theorem opens_orFail {what rest : Body} (opens : ∀ op ∈ what.ops, ¬op.Closes)
    (opens' : ∀ op ∈ rest.ops, ¬op.Closes)
    : ∀ op ∈ (what.orFail rest).ops, ¬op.Closes := by
  unfold Body.orFail
  split
  · exact List.forall_mem_append.mpr ⟨opens, opens'⟩
  · exact opens

/-- `cl_init` ends no session. -/
theorem opens_clInit {sInit gInit : Bool} : ∀ op ∈ (clInit sInit gInit ok).ops, ¬op.Closes := by
  have log : ∀ op ∈ (clLogInit gInit ok).ops, ¬op.Closes := by
    unfold clLogInit
    split_ifs <;> simp [Op.Closes]
  have evt : ∀ op ∈ (clEvtInit ok).ops, ¬op.Closes := by
    unfold clEvtInit
    split_ifs <;> simp [clEvtDeinit, Op.Closes]
  have timer : ∀ op ∈ (clTimerInit ok).ops, ¬op.Closes := by
    unfold clTimerInit _creSrvSock _creEpoll _connSrv
    split_ifs <;> simp [Body.after, Body.orElse, Op.Closes]
  have init : ∀ op ∈ (clTrpoInit.orFail ⟨.succ, [.setInit true]⟩).ops, ¬op.Closes := by
    simp [clTrpoInit, Body.orFail, Body.after, Op.Closes]
  unfold clInit
  split
  · exact fun _ member => absurd member List.not_mem_nil
  · exact opens_orFail log (opens_orFail evt (opens_orFail timer init))

/-- `main` begins a call. -/
theorem Safe.enter (safe : Safe s) (idle : s.todo .main = []) {ops : List Op}
    (covered : Covered s.outlook ops) (opens : s.closed = false → ∀ op ∈ ops, ¬op.Closes)
    : Safe (s.goto .main ops) := by
  refine safe.goto_main covered (fun closed _ => opens closed) ?_
  rw [idle]
  exact fun next => by cases next

theorem Safe.init (safe : Safe s) (idle : s.todo .main = []) (closed : s.closed = false)
    (init : ok .evtMutexInit = true)
    : Safe (s.goto .main (clInit s.sInit s.logInit ok).ops) := by
  refine safe.enter idle ?_ fun _ => opens_clInit
  cases up : s.sInit with
  | true => trivial
  | false =>
      obtain ⟨served, objs, pols, _⟩ := safe.opened closed
      exact covered_clInit ⟨objs, pols, up, served.trans up⟩ init

theorem Safe.deinit (safe : Safe s) (idle : s.todo .main = []) (closed : s.closed = false)
    : Safe { s.goto .main clDeinit with closed := true } := by
  obtain ⟨_, objs, pols, _⟩ := safe.opened closed
  have closing : Safe { s with closed := true } :=
    { safe with opened := fun closed => by cases closed }
  exact closing.enter idle (covered_clDeinit objs pols) fun closed => by cases closed

/-- The event thread takes its mutex. -/
theorem Safe.wake (safe : Safe s) {n smEvt : Nat} {waiting : Nat → Bool} {popped : Bool}
    (lives : s.lives (.evt n) = true) (evt : s.ready .lMtxEvt = true) (fewer : smEvt ≤ s.smEvt)
    : Safe { s.goto (.evt n) (_evtThread popped) with waiting, smEvt } := by
  have objs := (safe.alive _ lives).2
  have begun := safe.begin (fun same => by cases same) lives (@within_evtThread popped) <| by
    simp only [List.forall_mem_cons]
    exact ⟨evt, objs, fun _ member => absurd member List.not_mem_nil⟩
  exact { begun.taken fewer with }

/-- Once it is to end, the timer thread is served nothing that it locks `g_mtx_sock` for. -/
theorem Inbox.Last.served {inbox : Inbox} (last : inbox.Last) {served : Served}
    (due : inbox.due served = true)
    : ¬served.Locks ∧ (inbox.after served).Last := by
  obtain ⟨unset, ends⟩ := last
  have next {request : Request} (first : inbox.requests.bind List.head? = some request)
      : request = .destroy := by
    obtain ⟨requests, there, head⟩ := Option.bind_eq_some_iff.mp first
    exact Option.some.inj (head.symm.trans (ends requests there))
  cases served with
  | new added => cases next (of_decide_eq_true due)
  | cancel found => cases next (of_decide_eq_true due).1
  | expiry usedUp => exact absurd unset (Nat.ne_of_gt (of_decide_eq_true due))
  | unread => exact ⟨id, unset, ends⟩
  | quit nodes => exact ⟨id, rfl, fun _ none => by cases none⟩

theorem Safe.serve (safe : Safe s) {n : Nat} {served : Served}
    (lives : s.lives (.timer n) = true) (due : s.inbox.due served = true)
    : Safe { s.goto (.timer n) served.ops with inbox := s.inbox.after served } := by
  have objs := (safe.alive _ lives).2
  have apart : (.timer n : Thread θ) ≠ .main := fun same => by cases same
  have sock (locks : served.Locks) : s.ready .gMtxSock = true :=
    safe.ending.resolve_right fun last => (last.served due).1 locks
  have ending := safe.ending.imp_right fun last => (last.served due).2
  by_cases locks : served.Locks
  · have within : Within [.gMtxSock, .gMtxObjs] served.ops :=
      within_served (by simp) fun _ => List.mem_cons_self
    have begun := safe.begin apart lives within (by
      simp only [List.forall_mem_cons]
      exact ⟨sock locks, objs, fun _ member => absurd member List.not_mem_nil⟩)
    exact { begun with ending }
  · have within : Within [.gMtxObjs] served.ops :=
      within_served List.mem_cons_self fun does => absurd does locks
    have begun := safe.begin apart lives within fun mutex member =>
      List.mem_singleton.mp member ▸ objs
    exact { begun with ending }

theorem Safe.work (safe : Safe s) {w : Slot} {exit : Bool} {jobs : Nat}
    (lives : s.lives (.worker w) = true)
    : Safe (s.goto (.worker w) (_workerThread exit jobs)) := by
  have objs := (safe.alive _ lives).2
  exact safe.begin (fun same => by cases same) lives within_workerThread
    fun mutex member => List.mem_singleton.mp member ▸ objs

theorem Safe.step {action : Action θ} (safe : Safe s) (orderly : s.Orderly action)
    (stepped : step s action = some s')
    : Safe s' := by
  have sound := safe.sound
  cases action <;> simp only [Main.step, sound, Bool.false_eq_true, if_false] at stepped
  case init ok =>
    split at stepped
    · exact Option.some.inj stepped ▸ safe.init ‹_› orderly.1 orderly.2
    · cases stepped
  case deinit =>
    split at stepped
    · exact Option.some.inj stepped ▸ safe.deinit ‹_› orderly
    · cases stepped
  case call t call =>
    split at stepped
    · rename_i able
      exact Option.some.inj stepped ▸ safe.call able.1 able.2
    · cases stepped
  case go t =>
    split at stepped
    · cases stepped
    · rename_i op rest here
      rcases eq_or_ne t .main with rfl | other
      · refine safe.go_main here (fun mutex same => ?_) stepped
        simpa [State.Orderly, here, same] using orderly
      · exact safe.go_other other here stepped
  case back t =>
    split at stepped
    · rename_i rest here
      exact Option.some.inj stepped ▸ safe.instead here trivial within_nil
        fun _ member => absurd member List.not_mem_nil
    · cases stepped
  case loop n =>
    obtain ⟨_, stepped⟩ := turn_eq_some stepped
    split at stepped
    · cases stepped
    · split at stepped
      · exact Option.some.inj stepped ▸ { safe with }
      · exact Option.some.inj stepped ▸ safe.leave
  case wake n token popped =>
    obtain ⟨lives, stepped⟩ := turn_eq_some stepped
    split at stepped
    · rename_i able
      refine Option.some.inj stepped ▸ safe.wake lives ?_ ?_
      · cases token with
        | false => exact orderly rfl
        | true =>
            refine (safe.woken n lives).resolve_right fun ⟨calm, _⟩ => ?_
            exact Nat.ne_of_gt (able.2 rfl) calm
      · split
        · exact Nat.sub_le ..
        · exact Nat.le_refl _
    · cases stepped
  case serve n served =>
    obtain ⟨lives, due, rfl⟩ := serve_eq_some stepped
    exact safe.serve lives due
  case work w jobs =>
    obtain ⟨lives, stepped⟩ := turn_eq_some stepped
    exact Option.some.inj stepped ▸ safe.work lives

/-- No mutex is locked that is not initialised, in runs whose steps are all orderly. -/
theorem mutexes_initialised {actions : List (Action θ)} {s : State θ}
    (ran : Transition.run (Transition.restrict State.Orderly step) State.initial actions = some s)
    : s.misused = false := by
  have preserved {s : State θ} {action : Action θ} {s' : State θ} (safe : Safe s)
      (stepped : Transition.restrict State.Orderly step s action = some s')
      : Safe s' := by
    obtain ⟨orderly, stepped⟩ := Transition.restrict_eq_some_iff.mp stepped
    exact safe.step orderly stepped
  exact (Transition.run_invariant preserved safe_initial ran).sound

/-- So many calls of a thread. -/
def going (t : Thread Unit) (calls : Nat) : List (Action Unit) := List.replicate calls (.go t)

/-- A session in which a timer is set and cancelled and an event published, of which the threads are
gone when it ends.
-/
def session : List (Action Unit) :=
  [.init fun _ => true] ++ going .main 15 ++ going (.evt 0) 1 ++ going (.timer 0) 7
    ++ [.call (.app ()) .timerSet] ++ going (.app ()) 1
    ++ [.serve 0 (.new (some true))] ++ going (.timer 0) 4
    ++ [.call (.app ()) .timerCancel] ++ going (.app ()) 1
    ++ [.serve 0 (.cancel true)] ++ going (.timer 0) 4
    ++ [.call (.app ()) (.evtPub true)] ++ going (.app ()) 5
    ++ [.loop 0, .wake 0 true true] ++ going (.evt 0) 2 ++ [.back (.evt 0)] ++ going (.evt 0) 2
    ++ [.loop 0, .deinit] ++ going .main 8 ++ [.serve 0 (.quit 1)] ++ going (.timer 0) 5
    ++ going .main 3 ++ [.wake 0 true false] ++ going (.evt 0) 2 ++ [.loop 0] ++ going .main 6

theorem mutexes_initialised_session
    : let s :=
        (Transition.run (Transition.restrict State.Orderly step) State.initial session).get
          (by decide +kernel)
      s.todo .main = [] ∧ s.ready .gMtxObjs = false ∧ s.misused = false :=
  ⟨by decide +kernel, by decide +kernel, mutexes_initialised (Option.some_get _).symm⟩

/-- In the next session the timer thread locks the mutex of the allocations, which is destroyed. -/
theorem mutexes_initialised_again
    : ¬∀ (actions : List (Action Unit)) (s : State Unit),
        Transition.run step State.initial actions = some s → s.misused = false := by
  intro claim
  have sound :=
    claim (session ++ [.init fun _ => true] ++ going .main 11 ++ going (.timer 1) 1) _
      (Option.some_get (show _ = true by decide +kernel)).symm
  revert sound
  decide +kernel

end Libccll.Main
