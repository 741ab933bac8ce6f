import Libccll.Main.Outlook
import Libccll.Main.Threads

/-! The invariant of the mutexes: whatever a thread has still to lock is initialised. Calls that any
thread makes keep it.
-/

namespace Libccll.Main

variable {θ : Type*}

/-- A thread of the library locks the mutex in the turns to come. -/
def Thread.Needs (mutex : Mutex) : Thread θ → Prop
  | .evt _ => mutex = .lMtxEvt ∨ mutex = .gMtxObjs
  | .timer _ | .worker _ => mutex = .gMtxObjs
  | .main | .app _ => False

instance (mutex : Mutex) (t : Thread θ) : Decidable (t.Needs mutex) := by
  unfold Thread.Needs
  split <;> infer_instance

def State.outlook (s : State θ) : Outlook := ⟨s.ready, s.sInit, s.served, s.smEvt = 0⟩

-----------------------------------------------------------------------------------------
-- The invariant
-----------------------------------------------------------------------------------------

/-- What another thread than `main` may have to do. -/
structure Op.Fine (ready : Mutex → Bool) (served : Bool) (op : Op) : Prop where
  kind : op.Plain ∨ op = .semPost
  needs : ∀ mutex, op.Needs mutex → ready mutex = true
  served : op = .semPost → served = true

theorem Within.fine {mutexes : List Mutex} {ops : List Op} (within : Within mutexes ops)
    {ready : Mutex → Bool} (are : ∀ mutex ∈ mutexes, ready mutex = true) {served : Bool} {op : Op}
    (member : op ∈ ops)
    : op.Fine ready served := by
  obtain ⟨plain, needs⟩ := within op member
  refine ⟨Or.inl plain, fun mutex needed => are mutex (needs mutex needed), fun same => ?_⟩
  rw [same] at plain
  exact plain.elim

/-- The timer thread is to read the last request next, if any, and no timer is set. -/
def Inbox.Last (inbox : Inbox) : Prop :=
  inbox.timers = 0 ∧ ∀ requests ∈ inbox.requests, requests.head? = some .destroy

instance (inbox : Inbox) : Decidable inbox.Last := by
  unfold Inbox.Last
  infer_instance

/-- The event thread may be there before its mutex, but then no token is. The timer thread may be
there without its mutex, but then it is to end.
-/
structure Safe (s : State θ) : Prop where
  sound : s.misused = false
  covered : Covered s.outlook (s.todo .main)
  pending : ∀ t, t ≠ .main → ∀ op ∈ s.todo t, op.Fine s.ready s.served
  alive : ∀ t, s.lives t = true → t.Needs .gMtxObjs ∧ s.ready .gMtxObjs = true
  woken
    : ∀ n, s.lives (.evt n) = true
        → s.ready .lMtxEvt = true
          ∨ (s.smEvt = 0 ∧ (s.todo .main).head? = some (.mutexInit .lMtxEvt))
  ending : s.ready .gMtxSock = true ∨ s.inbox.Last
  up : s.sInit = true → s.served = true ∧ ∀ mutex, s.ready mutex = true
  opened
    : s.closed = false
        → s.served = s.sInit
          ∧ s.ready .gMtxObjs = true
          ∧ s.ready .gMtxPols = true
          ∧ ∀ op ∈ s.todo .main, ¬op.Closes
  known : ∀ t, t ≠ .main → t ∉ s.threads → s.todo t = [] ∧ s.lives t = false

theorem safe_initial : Safe (State.initial : State θ) where
  sound := rfl
  covered := trivial
  pending _ _ _ member := absurd member List.not_mem_nil
  alive _ lives := by cases lives
  woken _ lives := by cases lives
  ending := Or.inr ⟨rfl, nofun⟩
  up up := by cases up
  opened _ := ⟨rfl, rfl, rfl, fun _ member => absurd member List.not_mem_nil⟩
  known _ _ _ := ⟨rfl, rfl⟩

/-- A step that initialises and destroys nothing. -/
structure Follows (s s' : State θ) : Prop where
  ready : s'.ready = s.ready
  sInit : s'.sInit = s.sInit
  served : s'.served = s.served
  closed : s'.closed = s.closed
  inbox : s'.inbox = s.inbox
  misused : s'.misused = s.misused
  covered : Covered s'.outlook (s'.todo .main)
  main
    : s.closed = false
        → (∀ op ∈ s.todo .main, ¬op.Closes)
        → ∀ op ∈ s'.todo .main, ¬op.Closes
  woken
    : (s.todo .main).head? = some (.mutexInit .lMtxEvt)
      → s.smEvt = 0
      → s.ready .lMtxEvt = true ∨ (s'.smEvt = 0 ∧ s'.todo .main = s.todo .main)
  pending : ∀ t, t ≠ .main → ∀ op ∈ s'.todo t, op ∈ s.todo t ∨ op.Fine s.ready s.served
  alive : s'.lives = s.lives
  known : ∀ t, t ≠ .main → t ∉ s'.threads → t ∉ s.threads ∧ s'.todo t = s.todo t

variable {s s' : State θ}

theorem Op.Plain.opens {op : Op} (plain : op.Plain) : ¬op.Closes := by
  cases op <;> first | exact id | exact plain.elim

theorem Safe.follow (safe : Safe s) (follows : Follows s s') : Safe s' where
  sound := follows.misused.trans safe.sound
  covered := follows.covered
  pending t other op member := by
    rw [follows.ready, follows.served]
    exact (follows.pending t other op member).elim (safe.pending t other op) id
  alive t lives := by
    rw [follows.ready]
    rw [follows.alive] at lives
    exact safe.alive t lives
  woken n lives := by
    rw [follows.ready]
    rw [follows.alive] at lives
    rcases safe.woken n lives with ready | ⟨calm, next⟩
    · exact Or.inl ready
    · refine (follows.woken next calm).imp_right fun ⟨calm', same⟩ => ⟨calm', ?_⟩
      rw [same]
      exact next
  ending := by
    rw [follows.ready, follows.inbox]
    exact safe.ending
  up := by
    rw [follows.sInit, follows.served, follows.ready]
    exact safe.up
  opened := by
    rw [follows.closed, follows.served, follows.sInit, follows.ready]
    intro closed
    obtain ⟨served, objs, pols, opens⟩ := safe.opened closed
    exact ⟨served, objs, pols, follows.main closed opens⟩
  known t other unknown := by
    obtain ⟨unknown, todo⟩ := follows.known t other unknown
    rw [todo, follows.alive]
    exact safe.known t other unknown

variable {t : Thread θ}

/-- What the next call needs is ready. -/
theorem Safe.ready (safe : Safe s) {op : Op} {rest : List Op} (here : s.todo t = op :: rest)
    (plain : op.Plain) (mutex : Mutex) (needs : op.Needs mutex)
    : s.ready mutex = true := by
  rcases eq_or_ne t .main with rfl | other
  · have covered := safe.covered
    rw [here] at covered
    have allows := covered.1
    cases op <;> first | exact allows mutex needs | exact plain.elim
  · exact (safe.pending t other op (here ▸ List.mem_cons_self)).needs mutex needs

/-- Tokens are posted once the library has been initialised. -/
theorem Safe.posted (safe : Safe s) (served : s.served = true)
    : Safe { s with smEvt := s.smEvt + 1 } := by
  have least : s.outlook.Least { s with smEvt := s.smEvt + 1 }.outlook :=
    ⟨fun _ => id, rfl, rfl, Or.inl served⟩
  refine { safe with covered := safe.covered.least least, woken := fun n lives => ?_ }
  rcases safe.woken n lives with ready | ⟨_, next⟩
  · exact Or.inl ready
  · obtain ⟨rest, here⟩ := List.head?_eq_some_iff.mp next
    have covered := safe.covered
    rw [here] at covered
    cases served.symm.trans covered.1

/-- Tokens are taken. -/
theorem Safe.taken (safe : Safe s) {smEvt : Nat} (fewer : smEvt ≤ s.smEvt)
    : Safe { s with smEvt } := by
  have calm (calm : s.smEvt = 0) : smEvt = 0 := Nat.le_zero.mp (calm ▸ fewer)
  have least : s.outlook.Least { s with smEvt }.outlook :=
    ⟨fun _ => id, rfl, rfl,
      Or.inr fun isCalm => decide_eq_true (calm (of_decide_eq_true isCalm))⟩
  refine { safe with covered := safe.covered.least least, woken := fun n lives => ?_ }
  exact (safe.woken n lives).imp_right fun ⟨isCalm, next⟩ => ⟨calm isCalm, next⟩

/-- A request comes after those that are there. -/
theorem Inbox.Last.send {inbox : Inbox} (last : inbox.Last) (request : Request)
    : (inbox.send request).Last := by
  refine ⟨last.1, fun requests member => ?_⟩
  obtain ⟨before, there, rfl⟩ := Option.map_eq_some_iff.mp member
  obtain ⟨rest, rfl⟩ := List.head?_eq_some_iff.mp (last.2 before there)
  rfl

theorem Safe.send (safe : Safe s) (request : Request)
    : Safe { s with inbox := s.inbox.send request } :=
  { safe with ending := safe.ending.imp_right fun last => last.send request }

/-- A thread that makes a call has been seen. -/
theorem Safe.see (safe : Safe s) {pools : Nat}
    : Safe { s with pools, threads := t :: s.threads } :=
  { safe with
    known := fun t' other unknown =>
      safe.known t' other fun member => unknown (List.mem_cons_of_mem t member) }

theorem turn_eq_some {turn : State θ → Option (State θ)} (turned : s.turn t turn = some s')
    : s.lives t = true ∧ turn s = some s' := by
  unfold State.turn at turned
  split at turned
  · split at turned
    · exact ⟨‹_›, turned⟩
    · cases turned
  · cases turned

/-- What the event threads that live have to do with `main`. -/
theorem Safe.woken_ready (safe : Safe s) {op : Op} {rest : List Op}
    (here : s.todo .main = op :: rest)
    (other : op ≠ .mutexInit .lMtxEvt) {n : Nat} (lives : s.lives (.evt n) = true)
    : s.ready .lMtxEvt = true := by
  refine (safe.woken n lives).resolve_right fun ⟨_, next⟩ => other ?_
  rw [here] at next
  exact Option.some.inj next

theorem Safe.opens_rest (safe : Safe s) {op : Op} {rest : List Op}
    (here : s.todo .main = op :: rest) (closed : s.closed = false)
    : ∀ op' ∈ rest, ¬op'.Closes :=
  fun op' member => (safe.opened closed).2.2.2 op' (here ▸ List.mem_cons_of_mem _ member)

theorem Safe.joinLast (safe : Safe s) {thread : Nat → Thread θ} {n : Nat}
    (joined : s.joinLast thread n = some s')
    : Safe s' := by
  cases n with
  | zero => exact Option.some.inj joined ▸ safe
  | succ n =>
      simp only [State.joinLast, State.join] at joined
      split at joined
      · cases joined
      · exact Option.some.inj joined ▸ safe

variable [DecidableEq θ]

/-- The timer thread is served what is due. -/
theorem serve_eq_some {n : Nat} {served : Served}
    (stepped
      : (s.turn (.timer n) fun s =>
          if s.inbox.due served = true then
            some { s.goto (.timer n) served.ops with inbox := s.inbox.after served }
          else
            none)
        = some s')
    : s.lives (.timer n) = true
      ∧ s.inbox.due served = true
      ∧ { s.goto (.timer n) served.ops with inbox := s.inbox.after served } = s' := by
  obtain ⟨lives, stepped⟩ := turn_eq_some stepped
  obtain ⟨due, served⟩ := Option.ite_none_right_eq_some.mp stepped
  exact ⟨lives, due, Option.some.inj served⟩

theorem State.goto_self {ops : List Op} : (s.goto t ops).todo t = ops := Function.update_self ..

theorem State.goto_of_ne {t' : Thread θ} (other : t' ≠ t) {ops : List Op}
    : (s.goto t ops).todo t' = s.todo t' :=
  Function.update_of_ne other ..

/-- Who has something to do, or lives, has been seen. -/
theorem Safe.seen (safe : Safe s) (other : t ≠ .main)
    (busy : s.todo t ≠ [] ∨ s.lives t = true)
    : t ∈ s.threads := by
  by_contra unknown
  obtain ⟨idle, dead⟩ := safe.known t other unknown
  rcases busy with busy | lives
  · exact busy idle
  · exact Bool.false_ne_true (dead.symm.trans lives)

/-- Another thread than `main` has something else to do. -/
theorem Safe.goto_other (safe : Safe s) (other : t ≠ .main) (seen : t ∈ s.threads)
    {ops : List Op} (fine : ∀ op ∈ ops, op ∈ s.todo t ∨ op.Fine s.ready s.served)
    : Safe (s.goto t ops) := by
  have main : (s.goto t ops).todo .main = s.todo .main := State.goto_of_ne other.symm
  refine safe.follow
    { ready := rfl, sInit := rfl, served := rfl, closed := rfl, inbox := rfl, misused := rfl,
      alive := rfl, covered := ?_, main := ?_, woken := ?_, pending := ?_, known := ?_ }
  · rw [main]
    exact safe.covered
  · rw [main]
    exact fun _ opens => opens
  · exact fun _ calm => Or.inr ⟨calm, main⟩
  · intro t' _ op member
    rcases eq_or_ne t' t with rfl | apart
    · rw [State.goto_self] at member
      exact fine op member
    · rw [State.goto_of_ne apart] at member
      exact Or.inl member
  · intro t' _ unknown
    have apart : t' ≠ t := by
      rintro rfl
      exact unknown seen
    exact ⟨unknown, State.goto_of_ne apart⟩

/-- `main` has something else to do. -/
theorem Safe.goto_main (safe : Safe s) {ops : List Op} (covered : Covered s.outlook ops)
    (opens
      : s.closed = false → (∀ op ∈ s.todo .main, ¬op.Closes) → ∀ op ∈ ops, ¬op.Closes)
    (head : (s.todo .main).head? ≠ some (.mutexInit .lMtxEvt))
    : Safe (s.goto .main ops) := by
  refine safe.follow
    { ready := rfl, sInit := rfl, served := rfl, closed := rfl, inbox := rfl, misused := rfl,
      alive := rfl, covered := ?_, main := ?_, woken := fun next => absurd next head,
      pending := ?_, known := fun _ other unknown => ⟨unknown, State.goto_of_ne other⟩ }
  · rw [State.goto_self]
    exact covered
  · rw [State.goto_self]
    exact opens
  · intro t' other op member
    rw [State.goto_of_ne other] at member
    exact Or.inl member

/-- A thread of the library is created; the event thread before its mutex, if there is no token. -/
theorem Safe.spawn (safe : Safe s) (apart : t ≠ .main) (needs : t.Needs .gMtxObjs)
    (objs : s.ready .gMtxObjs = true)
    (woken
      : ∀ n, t = .evt n
          → s.ready .lMtxEvt = true
            ∨ (s.smEvt = 0 ∧ (s.todo .main).head? = some (.mutexInit .lMtxEvt)))
    {ops : List Op} (fine : ∀ op ∈ ops, op.Fine s.ready s.served)
    : Safe (s.spawn t ops) := by
  have main : (s.spawn t ops).todo .main = s.todo .main := State.goto_of_ne apart.symm
  have lived {t' : Thread θ} (lives : (s.spawn t ops).lives t' = true)
      : t' = t ∨ s.lives t' = true := by
    change Function.update s.lives t true t' = true at lives
    rcases eq_or_ne t' t with same | other
    · exact Or.inl same
    · rw [Function.update_of_ne other] at lives
      exact Or.inr lives
  refine
    { sound := safe.sound, ending := safe.ending, up := safe.up, covered := ?_, pending := ?_,
      alive := ?_, woken := ?_, opened := ?_, known := ?_ }
  · rw [main]
    exact safe.covered
  · intro t' other op member
    change op ∈ (s.goto t ops).todo t' at member
    rcases eq_or_ne t' t with rfl | different
    · rw [State.goto_self] at member
      exact fine op member
    · rw [State.goto_of_ne different] at member
      exact safe.pending t' other op member
  · intro t' lives
    rcases lived lives with rfl | old
    · exact ⟨needs, objs⟩
    · exact safe.alive t' old
  · intro n lives
    rw [main]
    rcases lived lives with same | old
    · exact woken n same.symm
    · exact safe.woken n old
  · rw [main]
    exact safe.opened
  · intro t' other unknown
    change t' ∉ t :: s.threads at unknown
    rw [List.mem_cons, not_or] at unknown
    obtain ⟨idle, dead⟩ := safe.known t' other unknown.2
    refine ⟨(State.goto_of_ne unknown.1).trans idle, ?_⟩
    change Function.update s.lives t true t' = false
    rw [Function.update_of_ne unknown.1, dead]

/-- A thread leaves. -/
theorem Safe.leave (safe : Safe s) : Safe { s with lives := Function.update s.lives t false } := by
  have fewer (t' : Thread θ) (lives : Function.update s.lives t false t' = true)
      : s.lives t' = true := by
    rcases eq_or_ne t' t with rfl | apart
    · rw [Function.update_self] at lives
      cases lives
    · rwa [Function.update_of_ne apart] at lives
  refine { safe with alive := ?_, woken := ?_, known := ?_ }
  · exact fun t' lives => safe.alive t' (fewer t' lives)
  · exact fun n lives => safe.woken n (fewer _ lives)
  · intro t' other unknown
    obtain ⟨idle, dead⟩ := safe.known t' other unknown
    refine ⟨idle, Bool.eq_false_iff.mpr fun lives => ?_⟩
    exact Bool.false_ne_true (dead.symm.trans (fewer t' lives))

/-- A thread has other plain calls to make instead of the next one. -/
theorem Safe.instead (safe : Safe s) {op : Op} {ops rest : List Op} (here : s.todo t = op :: rest)
    (plain : op.Plain) {mutexes : List Mutex} (within : Within mutexes ops)
    (ready : ∀ mutex ∈ mutexes, s.ready mutex = true)
    : Safe (s.goto t (ops ++ rest)) := by
  rcases eq_or_ne t .main with rfl | other
  · have covered := safe.covered
    rw [here] at covered
    have covered := covered.2
    rw [plain.after] at covered
    refine safe.goto_main (within.covered ready covered) (fun _ opens op' member => ?_) ?_
    · rcases List.mem_append.mp member with new | old
      · exact (within op' new).1.opens
      · exact opens op' (here ▸ List.mem_cons_of_mem _ old)
    · rw [here]
      intro same
      obtain rfl := Option.some.inj same
      exact plain
  · refine safe.goto_other other (safe.seen other (Or.inl ?_)) fun op' member => ?_
    · rw [here]
      exact List.cons_ne_nil _ _
    · rcases List.mem_append.mp member with new | old
      · exact Or.inr (within.fine ready new)
      · exact Or.inl (here ▸ List.mem_cons_of_mem _ old)

theorem Safe.plain (safe : Safe s) {op : Op} {rest : List Op} (here : s.todo t = op :: rest)
    (plain : op.Plain) (performed : s.perform t rest op = some s')
    : Safe s' := by
  have ready := safe.ready here plain
  have moved : Safe (s.goto t rest) :=
    safe.instead here plain within_nil fun _ member => absurd member List.not_mem_nil
  have popped {ops : List Op} (within : Within [.gMtxObjs] ops)
      (objs : s.ready .gMtxObjs = true)
      : Safe (s.goto t (ops ++ rest)) :=
    safe.instead here plain within fun mutex member => List.mem_singleton.mp member ▸ objs
  cases op with
  | lock mutex =>
      simp only [State.perform, ready mutex rfl, Bool.true_eq_false, if_false] at performed
      split at performed
      · exact Option.some.inj performed ▸ { moved with }
      · cases performed
  | unlock mutex | setRun run | addPool pool amt | flagExit w =>
      exact Option.some.inj performed ▸ { moved with }
  | accept => exact Option.some.inj performed ▸ moved
  | send request => exact Option.some.inj performed ▸ moved.send request
  | popPool pool =>
      have unlock : Within [.gMtxObjs] [.unlock .gMtxPols] := within_one _ trivial fun _ => id
      simp only [State.perform] at performed
      split at performed
      · exact Option.some.inj performed ▸ popped unlock (ready _ rfl)
      · rename_i entry _
        have release := within_releasePool entry.1 entry.2
        have released := popped (unlock.append release) (ready _ rfl)
        exact Option.some.inj performed ▸ { released with }
  | createWorker w =>
      have objs : s.ready .gMtxObjs = true := ready _ rfl
      have needs : (Thread.worker w : Thread θ).Needs .gMtxObjs := rfl
      refine Option.some.inj performed ▸ moved.spawn (fun same => by cases same) needs objs
        (fun n same => by cases same) fun op member => ?_
      exact (within_clFree (List.mem_singleton_self _)).fine
        (fun mutex member => List.mem_singleton.mp member ▸ objs) member
  | joinWorker w =>
      simp only [State.perform, State.join] at performed
      split at performed
      · cases performed
      · exact Option.some.inj performed ▸ moved
  | callback => cases performed
  | leave => exact Option.some.inj performed ▸ moved.leave
  | _ => exact plain.elim

/-- Another thread than `main` makes a call. -/
theorem Safe.go_other (safe : Safe s) (other : t ≠ .main) {op : Op} {rest : List Op}
    (here : s.todo t = op :: rest) (performed : s.perform t rest op = some s')
    : Safe s' := by
  have fine := safe.pending t other op (here ▸ List.mem_cons_self)
  rcases fine.kind with plain | rfl
  · exact safe.plain here plain performed
  · have seen : t ∈ s.threads :=
      safe.seen other (Or.inl (by rw [here]; exact List.cons_ne_nil _ _))
    have moved : Safe (s.goto t rest) :=
      safe.goto_other other seen fun op member => Or.inl (here ▸ List.mem_cons_of_mem _ member)
    exact Option.some.inj performed ▸ moved.posted (fine.served rfl)

/-- A thread of the library begins a turn. -/
theorem Safe.begin (safe : Safe s) (other : t ≠ .main) (lives : s.lives t = true)
    {mutexes : List Mutex} {ops : List Op} (within : Within mutexes ops)
    (ready : ∀ mutex ∈ mutexes, s.ready mutex = true)
    : Safe (s.goto t ops) :=
  safe.goto_other other (safe.seen other (Or.inr lives)) fun _ member =>
    Or.inr (within.fine ready member)

theorem Safe.call (safe : Safe s) {call : Call} (up : s.sInit = true)
    (outside : s.outside t = true)
    : Safe
        {
          s.goto t (call.ops s.trpoInit s.pools ++ s.todo t) with
          pools := s.pools + 1
          threads := t :: s.threads
        } := by
  obtain ⟨served, ready⟩ := safe.up up
  have other : t ≠ .main := by
    rintro rfl
    simp [State.outside] at outside
  have seen : Safe { s with pools := s.pools + 1, threads := t :: s.threads } := safe.see
  have fine (op : Op) (member : op ∈ call.ops s.trpoInit s.pools ++ s.todo t)
      : op ∈ s.todo t ∨ op.Fine s.ready s.served := by
    rcases List.mem_append.mp member with new | old
    · exact Or.inr ⟨call_plain new, fun mutex _ => ready mutex, fun _ => served⟩
    · exact Or.inl old
  exact seen.goto_other other List.mem_cons_self fine

end Libccll.Main
