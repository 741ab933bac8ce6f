import Libccll.Event.Delivery

/-! `cl_evt_deinit` against the event thread: whether it returns, and what is left when it does.
The thread sets `l_run` when it starts and tests it before it waits for the next event;
`cl_evt_deinit` clears it and posts a token of its own.
-/

namespace Libccll.Event

open Foundation Queue

variable {θ α δ φ : Type*}

/-- Where the application stands in `cl_evt_init`. -/
inductive Init where
  | called
  | semReady
  | threadCreated
  | mtxEvtReady
  | sleeping
  | undoing
  | returned (ret : Ret)
  deriving DecidableEq

/-- A call of `cl_evt_init`, which succeeds or does not. -/
inductive InitStep where
  | semInit (ok : Bool)
  | pthreadCreate (ok : Bool)
  | mutexInit (ok : Bool)
  | sleepMs
  | deinitReturned

/-- The application and the threads of the library. -/
structure Process (θ α δ φ : Type*) where
  init : Init
  state : State θ α δ φ

/-- A step of `cl_evt_init`, or of the threads. -/
inductive ProcessStep (θ α δ φ : Type*) where
  | init (step : InitStep)
  | thread (step : Step θ α δ φ)

/-- `cl_evt_init`. -/
def clEvtInit (deinit : Deinit) (init : Init) (step : InitStep) : Option Init :=
  match init, step with
  | .called, .semInit ok => some (if ok = true then .semReady else .returned .fail)
  | .semReady, .pthreadCreate ok => some (if ok = true then .threadCreated else .returned .fail)
  | .threadCreated, .mutexInit ok => some (if ok = true then .mtxEvtReady else .sleeping)
  | .mtxEvtReady, .mutexInit ok => some (if ok = true then .returned .succ else .sleeping)
  | .sleeping, .sleepMs => some .undoing
  | .undoing, .deinitReturned =>
      match deinit with
      | .joined => some (.returned .fail)
      | _ => none
  | _, _ => none

/-- The event thread runs once it is created, `cl_evt_pub` is called once `cl_evt_init` has
succeeded, and `cl_evt_deinit` then or by `cl_evt_init` itself.
-/
def Init.Enables (init : Init) : Step θ α δ φ → Bool
  | .dispatcher _ => init ≠ .called ∧ init ≠ .semReady ∧ init ≠ .returned .fail
  | .publisher _ _ => init = .returned .succ
  | .deinit _ => init = .returned .succ ∨ init = .undoing

/-- Before `cl_evt_init`. -/
def Process.initial (liEvt : α) (heap : Heap α) (evts : α → ClEvt δ φ) [DecidableEq α]
    : Process θ α δ φ where
  init := .called
  state := Event.initial liEvt heap evts

def processStep [DecidableEq θ] [DecidableEq α] (liEvt : α) (p : Process θ α δ φ)
    : ProcessStep θ α δ φ → Option (Process θ α δ φ)
  | .init step => (clEvtInit p.state.deinit p.init step).map fun init => { p with init }
  | .thread action =>
      if p.init.Enables action = true then
        (step liEvt p.state action).map fun state => { p with state }
      else
        none

/-- The event thread has set `l_run` when `cl_evt_deinit` clears it. -/
def State.Started (s : State θ α δ φ) : Step θ α δ φ → Prop
  | .deinit .flag =>
      match s.dispatcher with
      | .created => False
      | _ => True
  | _ => True

instance (s : State θ α δ φ) (action : Step θ α δ φ) : Decidable (s.Started action) := by
  unfold State.Started
  split
  · split <;> infer_instance
  · infer_instance

def Process.Started (p : Process θ α δ φ) : ProcessStep θ α δ φ → Prop
  | .init _ => True
  | .thread action => p.state.Started action

instance (p : Process θ α δ φ) (action : ProcessStep θ α δ φ) : Decidable (p.Started action) := by
  unfold Process.Started
  split <;> infer_instance

section

variable [DecidableEq α]

/-- When the event thread tests `l_run` and finds it false, no event is queued. -/
def State.Drained (liEvt : α) (s : State θ α δ φ) : Step θ α δ φ → Prop
  | .dispatcher .loop => s.run = false → listEmpty s.heap (some liEvt) = true
  | _ => True

instance (liEvt : α) (s : State θ α δ φ) (action : Step θ α δ φ)
    : Decidable (s.Drained liEvt action) := by
  unfold State.Drained
  split <;> infer_instance

end

/-- The call of `free_fun` for an event, with the number of the event. -/
def freeFunCall (entry : Nat × ClEvt δ φ) : Option (Nat × φ × δ) :=
  entry.2.freeFun.map fun freeFun => (entry.1, freeFun, entry.2.data)

-----------------------------------------------------------------------------------------
-- What one step does
-----------------------------------------------------------------------------------------

/-- What a step of the event thread finds and leaves. -/
inductive Turn [DecidableEq α] (s : State θ α δ φ) : EvtStep → State θ α δ φ → Prop where
  | start : s.dispatcher = .created → Turn s .start { s with run := true, dispatcher := .looping }
  | wait
    : s.dispatcher = .looping → s.run = true → Turn s .loop { s with dispatcher := .waiting }
  | leave
    : s.dispatcher = .looping → s.run = false → Turn s .loop { s with dispatcher := .exited }
  | take
    : s.dispatcher = .waiting → 0 < s.smEvt
      → Turn s .semWait { s with smEvt := s.smEvt - 1, dispatcher := .woken }
  | interrupt : s.dispatcher = .waiting → Turn s .interrupt { s with dispatcher := .woken }
  | lock
    : s.dispatcher = .woken
      → Turn s .lock { s with mtxEvt := some .dispatcher, dispatcher := .locked }
  | pop (evt : α) (heap : Heap α)
    : s.dispatcher = .locked
      → Turn s .pop
          {
            s with
            heap
            dispatcher := .popped (some evt)
            popped := s.popped ++ [s.numbered evt]
          }
  | none : s.dispatcher = .locked → Turn s .pop { s with dispatcher := .popped none }
  | unlock (evt : Option α)
    : s.dispatcher = .popped evt
      → Turn s .unlock { s with mtxEvt := Option.none, dispatcher := .notifying evt }
  | notify (evt : Option α)
    : s.dispatcher = .notifying evt → Turn s .notify { s with dispatcher := .releasing evt }
  | skip : s.dispatcher = .releasing Option.none → Turn s .release { s with dispatcher := .looping }
  | release (evt : α)
    : s.dispatcher = .releasing (some evt)
      → Turn s .release
          {
            s with
            dispatcher := .looping
            live := Function.update s.live evt false
            released := s.released ++ [s.numbered evt]
            freeFunCalls := s.freeFunCalls ++ (freeFunCall (s.numbered evt)).toList
          }

theorem _evtThread_turn [DecidableEq α] {liEvt : α} {s t : State θ α δ φ} {action : EvtStep}
    (stepped : _evtThread liEvt s action = some t)
    : Turn s action t := by
  unfold _evtThread at stepped
  split at stepped
  · rename_i place
    obtain rfl := Option.some.inj stepped
    exact .start place
  · rename_i place
    obtain rfl := Option.some.inj stepped
    split
    · rename_i run
      exact .wait place run
    · rename_i run
      exact .leave place (Bool.not_eq_true _ ▸ run)
  · rename_i place
    split at stepped
    · rename_i token
      obtain rfl := Option.some.inj stepped
      exact .take place token
    · cases stepped
  · rename_i place
    obtain rfl := Option.some.inj stepped
    exact .interrupt place
  · rename_i place
    split at stepped
    · obtain rfl := Option.some.inj stepped
      exact .lock place
    · cases stepped
  · rename_i place
    split at stepped
    · obtain ⟨evt, _, deleted⟩ := Option.bind_eq_some_iff.mp stepped
      obtain ⟨heap, _, rfl⟩ := Option.map_eq_some_iff.mp deleted
      exact .pop evt heap place
    · obtain rfl := Option.some.inj stepped
      exact .none place
  · rename_i evt place
    obtain rfl := Option.some.inj stepped
    exact .unlock evt place
  · rename_i evt place
    obtain rfl := Option.some.inj stepped
    exact .notify evt place
  · rename_i place
    obtain rfl := Option.some.inj stepped
    exact .skip place
  · rename_i evt place
    obtain rfl := Option.some.inj stepped
    exact .release evt place
  · cases stepped

/-- What a step of a publisher leaves as it is. -/
structure Published (s t : State θ α δ φ) : Prop where
  dispatcher : t.dispatcher = s.dispatcher
  deinit : t.deinit = s.deinit
  run : t.run = s.run
  smEvt : s.smEvt ≤ t.smEvt
  enqueued : s.enqueued <+: t.enqueued
  popped : t.popped = s.popped
  released : t.released = s.released
  freeFunCalls : t.freeFunCalls = s.freeFunCalls

theorem clEvtPub_published [DecidableEq θ] [DecidableEq α] {liEvt : α} {s t : State θ α δ φ}
    {p : θ} {action : PubStep α δ φ} (stepped : clEvtPub liEvt s p action = some t)
    : Published s t := by
  have moved (place : Publisher α δ φ) : Published s (s.moveTo p place) :=
    ⟨rfl, rfl, rfl, le_rfl, List.prefix_rfl, rfl, rfl, rfl⟩
  unfold clEvtPub at stepped
  split at stepped
  · obtain rfl := Option.some.inj stepped
    exact moved _
  · rename_i evt _
    split at stepped
    · obtain rfl := Option.some.inj stepped
      exact { moved (.locked evt) with }
    · cases stepped
  · obtain rfl := Option.some.inj stepped
    exact moved _
  · rename_i newEvt _
    split at stepped
    · cases stepped
    · obtain rfl := Option.some.inj stepped
      exact { moved (.filled newEvt) with }
  · obtain ⟨heap, _, rfl⟩ := Option.map_eq_some_iff.mp stepped
    exact { moved (.unlocking .succ) with enqueued := List.prefix_append _ _ }
  · rename_i ret _
    obtain rfl := Option.some.inj stepped
    exact { moved (.unlocked ret) with }
  · obtain rfl := Option.some.inj stepped
    exact { moved .idle with smEvt := Nat.le_succ _ }
  · obtain rfl := Option.some.inj stepped
    exact moved _
  · cases stepped

/-- What a step of `cl_evt_deinit` finds and leaves. -/
inductive Stops (s : State θ α δ φ) : DeinitStep → State θ α δ φ → Prop where
  | flag : s.deinit = .idle → Stops s .flag { s with run := false, deinit := .flagged }
  | post : s.deinit = .flagged → Stops s .semPost { s with smEvt := s.smEvt + 1, deinit := .posted }
  | join
    : s.deinit = .posted → s.dispatcher = .exited → Stops s .join { s with deinit := .joined }

theorem clEvtDeinit_stops {s t : State θ α δ φ} {action : DeinitStep}
    (stepped : clEvtDeinit s action = some t)
    : Stops s action t := by
  unfold clEvtDeinit at stepped
  split at stepped
  · rename_i place
    obtain rfl := Option.some.inj stepped
    exact .flag place
  · rename_i place
    obtain rfl := Option.some.inj stepped
    exact .post place
  · rename_i place
    split at stepped
    · rename_i exited
      obtain rfl := Option.some.inj stepped
      exact .join place exited
    · cases stepped
  · cases stepped

-----------------------------------------------------------------------------------------
-- The handshake
-----------------------------------------------------------------------------------------

/-- Once `l_run` is cleared it stays so, and the token of `cl_evt_deinit` is still there while
the event thread waits.
-/
structure Handshake (s : State θ α δ φ) : Prop where
  cleared : s.deinit ≠ .idle → s.run = false ∧ s.dispatcher ≠ .created
  token : s.deinit = .posted → s.dispatcher = .waiting → 0 < s.smEvt

variable {s t : State θ α δ φ}

theorem Handshake.turn [DecidableEq α] (handshake : Handshake s) {action : EvtStep}
    (turn : Turn s action t)
    : Handshake t := by
  have cleared := handshake.cleared
  cases turn with
  | start place =>
      exact ⟨fun stopping => absurd place (cleared stopping).2, fun _ waiting => by cases waiting⟩
  | wait place run =>
      refine ⟨fun stopping => ⟨(cleared stopping).1, by simp⟩, fun posted _ => ?_⟩
      have stopping : s.deinit ≠ .idle := fun idle => by cases idle.symm.trans posted
      cases run.symm.trans (cleared stopping).1
  | leave | take | interrupt | lock | pop | none | unlock | notify | skip | release =>
      exact ⟨fun stopping => ⟨(cleared stopping).1, by simp⟩, fun _ waiting => by cases waiting⟩

theorem Handshake.published (handshake : Handshake s) (published : Published s t)
    : Handshake t := by
  refine ⟨fun stopping => ?_, fun posted waiting => ?_⟩
  · rw [published.run, published.dispatcher]
    exact handshake.cleared (published.deinit ▸ stopping)
  · rw [published.deinit] at posted
    rw [published.dispatcher] at waiting
    exact Nat.lt_of_lt_of_le (handshake.token posted waiting) published.smEvt

theorem Handshake.stops (handshake : Handshake s) {action : DeinitStep}
    (started : action = .flag → s.dispatcher ≠ .created) (stops : Stops s action t)
    : Handshake t := by
  cases stops with
  | flag => exact ⟨fun _ => ⟨rfl, started rfl⟩, fun posted => by cases posted⟩
  | post place =>
      exact ⟨fun _ => handshake.cleared (by simp [place]), fun _ _ => Nat.succ_pos _⟩
  | join place =>
      exact ⟨fun _ => handshake.cleared (by simp [place]), fun posted => by cases posted⟩

section

variable [DecidableEq θ] [DecidableEq α] {liEvt : α}

theorem Handshake.step (handshake : Handshake s) {action : Step θ α δ φ}
    (started : s.Started action) (stepped : step liEvt s action = some t)
    : Handshake t := by
  cases action with
  | publisher p action => exact handshake.published (clEvtPub_published stepped)
  | dispatcher action => exact handshake.turn (_evtThread_turn stepped)
  | deinit action =>
      refine handshake.stops ?_ (clEvtDeinit_stops stepped)
      rintro rfl created
      simp only [State.Started, created] at started

/-- When the event thread has always set `l_run` before `cl_evt_deinit` clears it, a token is
there for the event thread whenever the caller of `cl_evt_deinit` waits for its end and it
waits for an event.
-/
theorem shutdown_handshake {heap : Heap α} {evts : α → ClEvt δ φ}
    {actions : List (ProcessStep θ α δ φ)} {p : Process θ α δ φ}
    (ran : Transition.run (Transition.restrict Process.Started (processStep liEvt))
      (Process.initial liEvt heap evts) actions = some p)
    (joining : p.state.deinit = .posted) (waiting : p.state.dispatcher = .waiting)
    : 0 < p.state.smEvt := by
  have preserved {p p' : Process θ α δ φ} {action : ProcessStep θ α δ φ}
      (handshake : Handshake p.state)
      (stepped : Transition.restrict Process.Started (processStep liEvt) p action = some p')
      : Handshake p'.state := by
    obtain ⟨started, stepped⟩ := Transition.restrict_eq_some_iff.mp stepped
    cases action with
    | init action =>
        obtain ⟨init, _, rfl⟩ := Option.map_eq_some_iff.mp stepped
        exact handshake
    | thread action =>
        simp only [processStep] at stepped
        split at stepped
        · obtain ⟨state, taken, rfl⟩ := Option.map_eq_some_iff.mp stepped
          exact handshake.step started taken
        · cases stepped
  have start : Handshake (Process.initial liEvt heap evts : Process θ α δ φ).state :=
    ⟨fun stopping => absurd rfl stopping, fun posted => by cases posted⟩
  exact (Transition.run_invariant preserved start ran).token joining waiting

end

/-- `cl_evt_init`, all of which succeeds. -/
def initialised : List (ProcessStep Unit (Fin 3) Unit Unit) :=
  [.init (.semInit true), .init (.pthreadCreate true), .init (.mutexInit true),
    .init (.mutexInit true)]

/-- No list and no event yet. -/
def unused : Process Unit (Fin 3) Unit Unit :=
  .initial 0 (fun _ => ⟨none, none⟩) fun _ => ⟨0, (), none⟩

/-- `cl_evt_deinit` is called while the event thread waits. -/
theorem shutdown_handshake_waiting
    : let p := (Transition.run (Transition.restrict Process.Started (processStep 0)) unused
        (initialised ++ [.thread (.dispatcher .start), .thread (.dispatcher .loop),
          .thread (.deinit .flag), .thread (.deinit .semPost)])).get (by decide)
      0 < p.state.smEvt :=
  shutdown_handshake (Option.some_get _).symm (by rfl) (by rfl)

/-- The event thread starts only after `cl_evt_deinit` has cleared `l_run`, and takes the token
of `cl_evt_deinit` for one of an event.
-/
theorem shutdown_handshake_late
    : ¬∀ (actions : List (ProcessStep Unit (Fin 3) Unit Unit)) (p : Process Unit (Fin 3) Unit Unit),
        Transition.run (processStep 0) unused actions = some p
        → p.state.deinit = .posted
        → p.state.dispatcher = .waiting
        → (∀ q, p.state.publishers q = .idle)
        → 0 < p.state.smEvt := by
  intro claim
  have token :=
    claim (initialised ++ [.thread (.deinit .flag), .thread (.deinit .semPost),
        .thread (.dispatcher .start), .thread (.dispatcher .loop), .thread (.dispatcher .semWait),
        .thread (.dispatcher .lock), .thread (.dispatcher .pop), .thread (.dispatcher .unlock),
        .thread (.dispatcher .notify), .thread (.dispatcher .release),
        .thread (.dispatcher .loop)])
      _ (Option.some_get (by decide)).symm (by rfl) (by rfl) (fun _ => rfl)
  exact absurd token (by decide)

-----------------------------------------------------------------------------------------
-- What is released
-----------------------------------------------------------------------------------------

/-- An event that is popped is released, or in the hands of the event thread; `free_fun` was called
for those released, in this order. The thread stays in its loop until `cl_evt_deinit` is called,
and has left it when that returns.
-/
structure Kept (s : State θ α δ φ) : Prop where
  handed : s.popped = s.released ++ (s.dispatcher.hand.map s.numbered).toList
  freed : s.freeFunCalls = s.released.filterMap freeFunCall
  running : s.deinit = .idle → s.dispatcher ≠ .created → s.run = true
  staying : s.deinit = .idle → s.dispatcher ≠ .exited
  joined : s.deinit = .joined → s.dispatcher = .exited

/-- Events that are queued for good, and popped before the event thread leaves. -/
structure Settled (events : List (Nat × ClEvt δ φ)) (s : State θ α δ φ) : Prop where
  queued : events <+: s.enqueued
  popped : s.dispatcher = .exited → events <+: s.popped

theorem Kept.turn [DecidableEq α] (kept : Kept s) {action : EvtStep} (turn : Turn s action t)
    : Kept t := by
  have handed := kept.handed
  have freed := kept.freed
  have running := kept.running
  have joined := kept.joined
  cases turn with
  | start place =>
      rw [place] at handed joined
      exact ⟨handed, freed, fun _ _ => rfl, by simp, fun ended => by cases joined ended⟩
  | leave place cleared =>
      rw [place] at handed running joined
      have stopping : s.deinit ≠ .idle := fun idle => by
        cases cleared.symm.trans (running idle (by simp))
      exact ⟨handed, freed, fun idle => absurd idle stopping, fun idle => absurd idle stopping,
        fun _ => rfl⟩
  | wait place | take place | interrupt place | lock place | none place | unlock _ place
  | notify _ place | skip place =>
      rw [place] at handed running joined
      exact ⟨handed, freed, fun idle _ => running idle (by simp), by simp,
        fun ended => by cases joined ended⟩
  | pop evt heap place =>
      rw [place] at handed running joined
      refine ⟨?_, freed, fun idle _ => running idle (by simp), by simp,
        fun ended => by cases joined ended⟩
      rw [handed]
      simp [Dispatcher.hand, State.numbered]
  | release evt place =>
      rw [place] at handed running joined
      refine ⟨?_, ?_, fun idle _ => running idle (by simp), by simp,
        fun ended => by cases joined ended⟩
      · rw [handed]
        simp [Dispatcher.hand, State.numbered]
      · rw [List.filterMap_append, freed]
        cases called : freeFunCall (s.numbered evt) <;> simp [called]

theorem Kept.stops (kept : Kept s) {action : DeinitStep} (stops : Stops s action t)
    : Kept t := by
  cases stops with
  | flag | post =>
      exact ⟨kept.handed, kept.freed, by simp, by simp, by simp⟩
  | join _ exited => exact ⟨kept.handed, kept.freed, by simp, by simp, fun _ => exited⟩

/-- Among entries that all have numbers of their own, an entry is the only one with its number. -/
theorem filter_number {β : Type*} {entries : List (Nat × β)} {n : Nat} {b : β}
    (distinct : (entries.map Prod.fst).Nodup) (member : (n, b) ∈ entries)
    : entries.filter (·.1 = n) = [(n, b)] := by
  obtain ⟨front, back, rfl⟩ := List.append_of_mem member
  rw [List.map_append, List.map_cons, List.nodup_append, List.nodup_cons] at distinct
  obtain ⟨_, ⟨notBack, _⟩, notFront⟩ := distinct
  have front' : front.filter (·.1 = n) = [] := by
    rw [List.filter_eq_nil_iff]
    intro entry inside
    simpa using notFront entry.1 (List.mem_map_of_mem inside) n List.mem_cons_self
  have back' : back.filter (·.1 = n) = [] := by
    rw [List.filter_eq_nil_iff]
    intro entry inside same
    exact notBack (List.mem_map.mpr ⟨entry, inside, of_decide_eq_true same⟩)
  rw [List.filter_append, front', List.nil_append, List.filter_cons_of_pos (by simp), back']

/-- The calls of `free_fun` for an event that is released once. -/
theorem Kept.freeFunCalls_once (kept : Kept s) {n : Nat} {evt : ClEvt δ φ}
    (once : s.released.filter (·.1 = n) = [(n, evt)])
    : s.freeFunCalls.filter (·.1 = n)
      = (evt.freeFun.map fun freeFun => (n, freeFun, evt.data)).toList := by
  have commutes (entries : List (Nat × ClEvt δ φ))
      : (entries.filterMap freeFunCall).filter (·.1 = n)
        = (entries.filter (·.1 = n)).filterMap freeFunCall := by
    induction entries with
    | nil => rfl
    | cons entry entries ih =>
        obtain ⟨m, evt⟩ := entry
        cases freeFun : evt.freeFun <;> rcases eq_or_ne m n with same | other <;>
          simp_all [freeFunCall]
  rw [kept.freed, commutes, once]
  cases freeFun : evt.freeFun <;> simp [freeFunCall, freeFun]

section

variable [DecidableEq α] {liEvt : α} {events : List (Nat × ClEvt δ φ)}

/-- The event thread leaves its loop with nothing queued. -/
theorem Settled.turn (settled : Settled events s) (good : Good liEvt s) {action : EvtStep}
    (drained : s.Drained liEvt (.dispatcher action)) (turn : Turn s action t)
    : Settled events t := by
  cases turn with
  | leave _ cleared =>
      obtain ⟨queue, posters, holds, inv⟩ := good
      obtain rfl := holds.isEmpty_iff.mp (drained cleared)
      have order := inv.order
      rw [List.map_nil, List.append_nil] at order
      exact ⟨settled.queued, fun _ => order ▸ settled.queued⟩
  | start | wait | take | interrupt | lock | pop | none | unlock | notify | skip | release =>
      exact ⟨settled.queued, fun exited => by cases exited⟩

variable [DecidableEq θ]

/-- A publisher does not touch the event in the hands of the event thread. -/
theorem Good.numbered_hand (good : Good liEvt s) {p : θ} {action : PubStep α δ φ}
    (stepped : clEvtPub liEvt s p action = some t)
    : s.dispatcher.hand.map t.numbered = s.dispatcher.hand.map s.numbered := by
  obtain ⟨queue, posters, _, inv⟩ := good
  apply Option.map_congr
  intro a inHand
  obtain ⟨_, live, elsewhere⟩ := inv.hand a inHand
  unfold clEvtPub at stepped
  split at stepped
  · obtain rfl := Option.some.inj stepped
    rfl
  · split at stepped
    · obtain rfl := Option.some.inj stepped
      rfl
    · cases stepped
  · obtain rfl := Option.some.inj stepped
    rfl
  · split at stepped
    · cases stepped
    · rename_i newEvt _ unused
      obtain rfl := Option.some.inj stepped
      have other : a ≠ newEvt := fun same => unused (same ▸ live)
      simp only [State.numbered, State.moveTo, Function.update_of_ne other]
  · rename_i newEvt filled
    obtain ⟨heap, _, rfl⟩ := Option.map_eq_some_iff.mp stepped
    have other : a ≠ newEvt := fun same => elsewhere p (same ▸ filled)
    simp only [State.numbered, State.moveTo, Function.update_of_ne other]
  · obtain rfl := Option.some.inj stepped
    rfl
  · obtain rfl := Option.some.inj stepped
    rfl
  · obtain rfl := Option.some.inj stepped
    rfl
  · cases stepped

theorem Kept.step (kept : Kept s) (good : Good liEvt s) {action : Step θ α δ φ}
    (stepped : step liEvt s action = some t)
    : Kept t := by
  cases action with
  | publisher p action =>
      have published := clEvtPub_published stepped
      refine ⟨?_, ?_, ?_, ?_, ?_⟩
      · rw [published.popped, published.released, published.dispatcher, good.numbered_hand stepped]
        exact kept.handed
      · rw [published.freeFunCalls, published.released]
        exact kept.freed
      · rw [published.deinit, published.dispatcher, published.run]
        exact kept.running
      · rw [published.deinit, published.dispatcher]
        exact kept.staying
      · rw [published.deinit, published.dispatcher]
        exact kept.joined
  | dispatcher action => exact kept.turn (_evtThread_turn stepped)
  | deinit action => exact kept.stops (clEvtDeinit_stops stepped)

theorem Settled.step (settled : Settled events s) (good : Good liEvt s) {action : Step θ α δ φ}
    (drained : s.Drained liEvt action) (stepped : step liEvt s action = some t)
    : Settled events t := by
  cases action with
  | publisher p action =>
      have published := clEvtPub_published stepped
      refine ⟨settled.queued.trans published.enqueued, fun exited => ?_⟩
      rw [published.popped]
      exact settled.popped (published.dispatcher ▸ exited)
  | dispatcher action => exact settled.turn good drained (_evtThread_turn stepped)
  | deinit action =>
      cases clEvtDeinit_stops stepped with
      | flag | post | join => exact ⟨settled.queued, settled.popped⟩

/-- When the event thread never finds `l_run` false with an event still queued, every event that
was queued when `cl_evt_deinit` was called has been released exactly once when it returns, and
its `free_fun`, if any, was called exactly once, with its data.
-/
theorem events_released {heap : Heap α} {evts : α → ClEvt δ φ}
    {before after : List (Step θ α δ φ)} {s t u : State θ α δ φ}
    (ran : Transition.run (Transition.restrict (State.Drained liEvt) (step liEvt))
      (initial liEvt heap evts) before = some s)
    (called : step liEvt s (.deinit .flag) = some t)
    (rest : Transition.run (Transition.restrict (State.Drained liEvt) (step liEvt)) t after
      = some u)
    (returned : u.deinit = .joined)
    : ∀ n evt,
        (n, evt) ∈ s.enqueued
          → u.released.filter (·.1 = n) = [(n, evt)]
            ∧ u.freeFunCalls.filter (·.1 = n)
              = (evt.freeFun.map fun freeFun => (n, freeFun, evt.data)).toList := by
  have preserved {s t : State θ α δ φ} {action : Step θ α δ φ}
      (inv : Good liEvt s ∧ Kept s)
      (stepped : Transition.restrict (State.Drained liEvt) (step liEvt) s action = some t)
      : Good liEvt t ∧ Kept t := by
    have stepped := (Transition.restrict_eq_some_iff.mp stepped).2
    exact ⟨step_good inv.1 stepped, inv.2.step inv.1 stepped⟩
  have start : Kept (initial liEvt heap evts : State θ α δ φ) :=
    ⟨rfl, rfl, by simp [initial], by simp [initial], by simp [initial]⟩
  obtain ⟨good, kept⟩ :=
    Transition.run_invariant preserved ⟨good_initial liEvt heap evts, start⟩ ran
  have settled : Settled s.enqueued t := by
    cases clEvtDeinit_stops called with
    | flag idle => exact ⟨List.prefix_rfl, fun exited => absurd exited (kept.staying idle)⟩
  have preserved' {s' t : State θ α δ φ} {action : Step θ α δ φ}
      (inv : (Good liEvt s' ∧ Kept s') ∧ Settled s.enqueued s')
      (stepped : Transition.restrict (State.Drained liEvt) (step liEvt) s' action = some t)
      : (Good liEvt t ∧ Kept t) ∧ Settled s.enqueued t := by
    obtain ⟨drained, taken⟩ := Transition.restrict_eq_some_iff.mp stepped
    exact ⟨preserved inv.1 stepped, inv.2.step inv.1.1 drained taken⟩
  obtain ⟨⟨good', kept'⟩, settled'⟩ :=
    Transition.run_invariant preserved'
      ⟨⟨step_good good called, kept.step good called⟩, settled⟩ rest
  have exited := kept'.joined returned
  have handed := kept'.handed
  rw [exited] at handed
  replace handed : u.popped = u.released := handed.trans (List.append_nil _)
  obtain ⟨queue, posters, _, inv⟩ := good'
  have distinct : (u.released.map Prod.fst).Nodup := by
    have all : (u.enqueued.map Prod.fst).Nodup := inv.serials ▸ List.nodup_range
    rw [inv.order, List.map_append, handed] at all
    exact (List.nodup_append.mp all).1
  intro n evt published
  have released : (n, evt) ∈ u.released :=
    handed ▸ (settled'.popped exited).subset published
  have once := filter_number distinct released
  exact ⟨once, kept'.freeFunCalls_once once⟩

end

/-- An event is published while the event thread waits. -/
def publishing (block : Fin 3) (n : UInt16) : List (Step Unit (Fin 3) Unit Unit) :=
  [.publisher () (.call ⟨n, (), some ()⟩), .publisher () .lock,
    .publisher () (.malloc (some block)), .publisher () .listAdd, .publisher () .unlock,
    .publisher () .semPost]

/-- The event thread takes a token, and goes on until it tests `l_run` again. -/
def dispatching : List (Step Unit (Fin 3) Unit Unit) :=
  [.dispatcher .semWait, .dispatcher .lock, .dispatcher .pop, .dispatcher .unlock,
    .dispatcher .notify, .dispatcher .release, .dispatcher .loop]

/-- One event is published, and `cl_evt_deinit` called while it is queued. -/
theorem events_released_one
    : let before := [.dispatcher .start, .dispatcher .loop] ++ publishing 1 7
      let s := (Transition.run (Transition.restrict (State.Drained 0) (step 0)) unused.state
        before).get (by decide)
      let t := (step 0 s (.deinit .flag)).get (by decide)
      let u := (Transition.run (Transition.restrict (State.Drained 0) (step 0)) t
        ([.deinit .semPost] ++ dispatching ++ [.deinit .join])).get (by decide)
      u.released.filter (·.1 = 0) = [(0, ⟨7, (), some ()⟩)] :=
  (events_released (Option.some_get _).symm (Option.some_get _).symm (Option.some_get _).symm
    (by rfl) 0 _ (List.mem_of_getElem? (i := 0) (by rfl))).1

/-- With two events queued the event thread leaves after the first one. -/
theorem events_released_two
    : ¬∀ (before after : List (Step Unit (Fin 3) Unit Unit)) (s t u : State Unit (Fin 3) Unit Unit),
        Transition.run (step 0) unused.state before = some s
        → step 0 s (.deinit .flag) = some t
        → Transition.run (step 0) t after = some u
        → u.deinit = .joined
        → ∀ n evt, (n, evt) ∈ s.enqueued → u.released.filter (·.1 = n) = [(n, evt)] := by
  intro claim
  have released :=
    claim ([.dispatcher .start, .dispatcher .loop] ++ publishing 1 7 ++ publishing 2 8)
      ([.deinit .semPost] ++ dispatching ++ [.deinit .join])
      _ _ _ (Option.some_get (by decide)).symm (Option.some_get (by decide)).symm
      (Option.some_get (by decide)).symm (by rfl) 1 ⟨8, (), some ()⟩
      (List.mem_of_getElem? (i := 1) (by rfl))
  exact absurd (congrArg List.length released) (by decide)

end Libccll.Event
