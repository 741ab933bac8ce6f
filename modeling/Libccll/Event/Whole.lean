import Libccll.Event.Fanout
import Libccll.Event.Shutdown

/-! The whole way of an event, from `cl_evt_pub` to the callbacks.
The queue of Queue.lean and the listeners of Listeners.lean as one system: where the former takes
one step to notify, the event thread goes through the loop of the latter.
-/

namespace Libccll.Event

open Foundation Queue

variable {θ α β κ δ φ : Type*}

/-- The queue and the listeners. `commands` is history: what was subscribed and unsubscribed, and
the events for which the event thread began its loop.
-/
structure System (θ α β κ δ φ : Type*) where
  queue : State θ α δ φ
  lsnrs : Listeners β κ δ φ
  commands : List (Command β κ δ φ)

/-- A step of a publisher, of `cl_evt_deinit`, of the event thread outside and inside of its loop,
or of a thread that calls `cl_evt_sub` or `cl_evt_unsub`.
-/
inductive Move (θ α β κ δ φ : Type*) where
  | publisher (p : θ) (step : PubStep α δ φ)
  | deinit (step : DeinitStep)
  | dispatcher (step : EvtStep)
  | loop
  | sub (evtNo : UInt16) (callback : Option κ) (block : Option β)
  | unsub (evtNo : UInt16) (callback : Option κ)

section

variable [DecidableEq θ] [DecidableEq α] [DecidableEq β]

def System.initial (liEvt : α) (heap : Heap α) (evts : α → ClEvt δ φ) (liLsnrs : β)
    (heap' : Heap β) (lsnrs : β → ClEvtLsnr κ)
    : System θ α β κ δ φ where
  queue := Event.initial liEvt heap evts
  lsnrs := Listeners.initial liLsnrs heap' lsnrs
  commands := []

/-- The event thread outside of its loop. It goes on once it has left it, and releases the event. -/
def System.dispatch (liEvt : α) (liLsnrs : β) (s : System θ α β κ δ φ) (step : EvtStep)
    : Option (System θ α β κ δ φ) :=
  match s.queue.dispatcher, step with
  | .notifying (some _), .notify =>
      match s.lsnrs.notifier with
      | .releasing _ =>
          (_evtThread liEvt s.queue .notify).map fun queue => { s with queue }
      | _ => none
  | .releasing (some _), .release =>
      (notify liLsnrs s.lsnrs .release).bind fun lsnrs =>
        (_evtThread liEvt s.queue .release).map fun queue => { s with queue, lsnrs }
  | _, step => (_evtThread liEvt s.queue step).map fun queue => { s with queue }

/-- The event thread begins its loop, or goes on in it. -/
def System.loop (liLsnrs : β) (answer : List (Entry κ δ φ) → Bool) (s : System θ α β κ δ φ)
    : Option (System θ α β κ δ φ) :=
  match s.queue.dispatcher, s.lsnrs.notifier with
  | .notifying (some evt), .idle =>
      (notify liLsnrs s.lsnrs (.enter (s.queue.evts evt))).map fun lsnrs =>
        { s with lsnrs, commands := s.commands ++ [.dispatch (s.queue.evts evt)] }
  | .notifying (some _), .releasing _ => none
  | .notifying (some _), _ =>
      (s.lsnrs.due answer).bind fun step =>
        (notify liLsnrs s.lsnrs step).map fun lsnrs => { s with lsnrs }
  | _, _ => none

def System.step [DecidableEq κ] (liEvt : α) (liLsnrs : β) (answer : List (Entry κ δ φ) → Bool)
    (s : System θ α β κ δ φ)
    : Move θ α β κ δ φ → Option (System θ α β κ δ φ)
  | .publisher p step => (clEvtPub liEvt s.queue p step).map fun queue => { s with queue }
  | .deinit step => (clEvtDeinit s.queue step).map fun queue => { s with queue }
  | .dispatcher step => s.dispatch liEvt liLsnrs step
  | .loop => s.loop liLsnrs answer
  | .sub evtNo callback (some block) =>
      (execute liLsnrs answer s.lsnrs (.sub evtNo callback block)).map fun lsnrs =>
        { s with lsnrs, commands := s.commands ++ [.sub evtNo callback block] }
  | .sub evtNo callback none =>
      (clEvtSub liLsnrs s.lsnrs evtNo callback none).map fun (_, lsnrs) => { s with lsnrs }
  | .unsub evtNo callback =>
      (execute liLsnrs answer s.lsnrs (.unsub evtNo callback)).map fun lsnrs =>
        { s with lsnrs, commands := s.commands ++ [.unsub evtNo callback] }

end

/-- Nobody subscribes or unsubscribes while the event thread is in its loop. -/
def System.Apart (s : System θ α β κ δ φ) : Move θ α β κ δ φ → Prop
  | .sub _ _ _ | .unsub _ _ =>
      match s.lsnrs.notifier with
      | .idle => True
      | _ => False
  | _ => True

instance (s : System θ α β κ δ φ) (move : Move θ α β κ δ φ) : Decidable (s.Apart move) := by
  unfold System.Apart
  split
  · split <;> infer_instance
  · split <;> infer_instance
  · infer_instance

/-- The events among the commands. -/
def dispatched (commands : List (Command β κ δ φ)) : List (ClEvt δ φ) :=
  commands.flatMap fun
    | .dispatch evt => [evt]
    | _ => []

/-- The event that the event thread has popped, before its loop. -/
def System.pending (s : System θ α β κ δ φ) : List (ClEvt δ φ) :=
  match s.queue.dispatcher, s.lsnrs.notifier with
  | .popped (some evt), _ => [s.queue.evts evt]
  | .notifying (some evt), .idle => [s.queue.evts evt]
  | _, _ => []

/-- The loop is entered with an event, and left before its release. -/
def System.Aligned (s : System θ α β κ δ φ) : Prop :=
  match s.queue.dispatcher with
  | .notifying (some _) => True
  | .releasing (some _) => ∃ evt, s.lsnrs.notifier = .releasing evt
  | _ => s.lsnrs.notifier = .idle

/-- The listeners are where the reference is, or will be behind the loop. -/
def Bound [DecidableEq β] (liLsnrs : β) (answer : List (Entry κ δ φ) → Bool)
    (s : Listeners β κ δ φ) (r : Subscriptions κ δ φ)
    : Prop :=
  ∃ fuel t, finish liLsnrs answer fuel s = some t ∧ Carried liLsnrs t r

variable {liEvt : α} {liLsnrs : β} {answer : List (Entry κ δ φ) → Bool}

section

variable [DecidableEq β] {l l' : Listeners β κ δ φ} {r : Subscriptions κ δ φ}

theorem Bound.of_carried (carried : Carried liLsnrs l r) : Bound liLsnrs answer l r := by
  refine ⟨1, l, ?_, carried⟩
  have due : l.due answer = none := by simp only [Listeners.due, carried.idle]
  simp only [finish, due]

theorem Bound.carried (bound : Bound liLsnrs answer l r) (idle : l.notifier = .idle)
    : Carried liLsnrs l r := by
  obtain ⟨fuel, t, finished, carried⟩ := bound
  cases fuel with
  | zero => cases finished
  | succ fuel =>
      have due : l.due answer = none := by simp only [Listeners.due, idle]
      simp only [finish, due] at finished
      obtain rfl := Option.some.inj finished
      exact carried

/-- The loop goes on, and there is always a next step. -/
theorem Bound.step (bound : Bound liLsnrs answer l r) {step : NotifyStep δ φ}
    (due : l.due answer = some step)
    : ∃ l', notify liLsnrs l step = some l' ∧ Bound liLsnrs answer l' r := by
  obtain ⟨fuel, t, finished, carried⟩ := bound
  cases fuel with
  | zero => cases finished
  | succ fuel =>
      simp only [finish, due] at finished
      obtain ⟨l', stepped, rest⟩ := Option.bind_eq_some_iff.mp finished
      exact ⟨l', stepped, fuel, t, rest, carried⟩

/-- The event thread begins its loop. -/
theorem Bound.enter [DecidableEq κ] (answer : List (Entry κ δ φ) → Bool)
    (carried : Carried liLsnrs l r) (evt : ClEvt δ φ)
    : ∃ l',
        notify liLsnrs l (.enter evt) = some l'
        ∧ l'.notifier = .standing evt (l.heap.next liLsnrs)
        ∧ Bound liLsnrs answer l' (r.apply answer (.dispatch evt : Command β κ δ φ)) := by
  obtain ⟨t, executed, carried'⟩
      : ∃ t, execute liLsnrs answer l (.dispatch evt) = some t ∧ Carried liLsnrs t _ :=
    carried.dispatch evt
  obtain ⟨l', entered, finished⟩ := Option.bind_eq_some_iff.mp executed
  refine ⟨l', entered, ?_, _, t, finished, carried'⟩
  simp only [notify, carried.idle] at entered
  obtain rfl := Option.some.inj entered
  rfl

/-- No step of the loop takes back a call. -/
theorem notify_log {step : NotifyStep δ φ} (stepped : notify liLsnrs l step = some l')
    : l.log <+: l'.log := by
  unfold notify at stepped
  split at stepped
  · obtain rfl := Option.some.inj stepped
    exact List.prefix_rfl
  · split at stepped
    · obtain rfl := Option.some.inj stepped
      exact List.prefix_rfl
    · split at stepped
      · obtain rfl := Option.some.inj stepped
        exact List.prefix_append _ _
      · obtain rfl := Option.some.inj stepped
        exact List.prefix_rfl
  · obtain rfl := Option.some.inj stepped
    exact List.prefix_append _ _
  · obtain rfl := Option.some.inj stepped
    exact List.prefix_append _ _
  · obtain rfl := Option.some.inj stepped
    exact List.prefix_rfl
  · obtain rfl := Option.some.inj stepped
    exact List.prefix_rfl
  · obtain rfl := Option.some.inj stepped
    exact List.prefix_append _ _
  · cases stepped

/-- What was called so far are the first calls of the reference. -/
theorem Bound.log (bound : Bound liLsnrs answer l r) : l.log <+: r.log := by
  obtain ⟨fuel, t, finished, carried⟩ := bound
  rw [← carried.log]
  induction fuel generalizing l with
  | zero => cases finished
  | succ fuel ih =>
      rw [finish] at finished
      split at finished
      · obtain rfl := Option.some.inj finished
        exact List.prefix_rfl
      · obtain ⟨l', stepped, rest⟩ := Option.bind_eq_some_iff.mp finished
        exact (notify_log stepped).trans (ih rest)

/-- Only the release of the event ends the loop. -/
theorem notify_busy {step : NotifyStep δ φ} (stepped : notify liLsnrs l step = some l')
    (busy : l.notifier ≠ .idle) (leaving : ∀ evt, l.notifier ≠ .releasing evt)
    : l'.notifier ≠ .idle := by
  unfold notify at stepped
  split at stepped
  · rename_i idle
    exact absurd idle busy
  · split at stepped
    · obtain rfl := Option.some.inj stepped
      exact fun same => by cases same
    · split at stepped <;>
      · obtain rfl := Option.some.inj stepped
        exact fun same => by cases same
  · obtain rfl := Option.some.inj stepped
    exact fun same => by cases same
  · obtain rfl := Option.some.inj stepped
    exact fun same => by cases same
  · obtain rfl := Option.some.inj stepped
    exact fun same => by cases same
  · obtain rfl := Option.some.inj stepped
    exact fun same => by cases same
  · rename_i evt place
    exact absurd place (leaving evt)
  · cases stepped

end

-----------------------------------------------------------------------------------------
-- What every step keeps
-----------------------------------------------------------------------------------------

/-- The events popped are those the loop was begun for, and one that is pending; and the listeners
are bound for where the commands lead.
-/
structure Whole [DecidableEq α] [DecidableEq β] [DecidableEq κ] (liEvt : α) (liLsnrs : β)
    (answer : List (Entry κ δ φ) → Bool) (s : System θ α β κ δ φ)
    : Prop where
  good : Good liEvt s.queue
  aligned : s.Aligned
  order : s.queue.popped.map Prod.snd = dispatched s.commands ++ s.pending
  bound
    : Bound liLsnrs answer s.lsnrs (s.commands.foldl (Subscriptions.apply answer) ⟨[], []⟩)

variable {s s' : System θ α β κ δ φ}

theorem dispatched_concat (commands : List (Command β κ δ φ)) (command : Command β κ δ φ)
    : dispatched (commands ++ [command]) = dispatched commands ++ dispatched [command] :=
  List.flatMap_append

theorem apart_idle {evtNo : UInt16} {callback : Option κ} (apart : s.Apart (.unsub evtNo callback))
    : s.lsnrs.notifier = .idle := by
  simp only [System.Apart] at apart
  split at apart
  · assumption
  · exact apart.elim

/-- Without memory, `cl_evt_sub` changes nothing. -/
theorem clEvtSub_unallocated [DecidableEq β] [DecidableEq κ] {l l' : Listeners β κ δ φ}
    {evtNo : UInt16} {callback : Option κ} {ret : Ret}
    (subscribed : clEvtSub liLsnrs l evtNo callback none = some (ret, l'))
    : l' = l := by
  cases callback with
  | none =>
      cases subscribed
      rfl
  | some callback =>
      obtain ⟨existing, _, found⟩ := Option.bind_eq_some_iff.mp subscribed
      cases existing with
      | some lsnr =>
          cases found
          rfl
      | none =>
          cases found
          rfl

/-- In the loop nothing is pending. -/
theorem pending_busy {evt : α} (notifying : s.queue.dispatcher = .notifying (some evt))
    (busy : s.lsnrs.notifier ≠ .idle)
    : s.pending = [] := by
  rw [System.pending, notifying]
  split
  · rename_i same
    cases same
  · exact absurd ‹_› busy
  · rfl

section

variable [DecidableEq α] [DecidableEq β] [DecidableEq κ]

theorem whole_initial (liEvt : α) (heap : Heap α) (evts : α → ClEvt δ φ) (liLsnrs : β)
    (heap' : Heap β) (lsnrs : β → ClEvtLsnr κ) (answer : List (Entry κ δ φ) → Bool)
    : Whole liEvt liLsnrs answer
        (System.initial liEvt heap evts liLsnrs heap' lsnrs : System θ α β κ δ φ) where
  good := good_initial liEvt heap evts
  aligned := rfl
  order := rfl
  bound :=
    Bound.of_carried ⟨rfl, ⟨[], registered_initial liLsnrs heap' lsnrs, rfl⟩, rfl⟩

/-- The queue takes a step that concerns neither the event thread nor what it has popped. -/
theorem Whole.besides (whole : Whole liEvt liLsnrs answer s) {queue : State θ α δ φ}
    (good : Good liEvt queue) (dispatcher : queue.dispatcher = s.queue.dispatcher)
    (popped : queue.popped = s.queue.popped)
    (hand : queue.dispatcher.hand.map queue.evts = s.queue.dispatcher.hand.map s.queue.evts)
    : Whole liEvt liLsnrs answer { s with queue } := by
  refine ⟨good, ?_, ?_, whole.bound⟩
  · have aligned := whole.aligned
    rw [System.Aligned] at aligned ⊢
    rwa [dispatcher]
  · have same : System.pending { s with queue } = s.pending := by
      rw [dispatcher] at hand
      rw [System.pending, System.pending, dispatcher]
      rcases place : s.queue.dispatcher with _ | _ | _ | _ | _ | evt | evt | evt | _
      case popped | notifying =>
        rw [place] at hand
        cases evt with
        | none => rfl
        | some evt =>
            have kept : queue.evts evt = s.queue.evts evt := Option.some.inj hand
            cases s.lsnrs.notifier <;> simp only [kept]
      all_goals rfl
    rw [popped, whole.order, same]

/-- Outside of its loop the event thread has nothing to do with the listeners. -/
theorem Whole.idle (whole : Whole liEvt liLsnrs answer s)
    (before : ∀ evt, s.queue.dispatcher ≠ .notifying (some evt))
    (behind : ∀ evt, s.queue.dispatcher ≠ .releasing (some evt))
    : s.lsnrs.notifier = .idle := by
  have aligned := whole.aligned
  rw [System.Aligned] at aligned
  split at aligned
  · rename_i evt place
    exact absurd place (before evt)
  · rename_i evt place
    exact absurd place (behind evt)
  · exact aligned

/-- The event thread takes a step without an event, or before its loop. -/
theorem Whole.turn (whole : Whole liEvt liLsnrs answer s) {step : EvtStep}
    {queue : State θ α δ φ} (turn : Turn s.queue step queue) (good : Good liEvt queue)
    (before : ∀ evt, step = .notify → s.queue.dispatcher ≠ .notifying (some evt))
    (behind : ∀ evt, step = .release → s.queue.dispatcher ≠ .releasing (some evt))
    : Whole liEvt liLsnrs answer { s with queue } := by
  have idle : s.lsnrs.notifier = .idle := by
    apply whole.idle
    · rintro evt place
      cases turn <;> simp_all
    · rintro evt place
      cases turn <;> simp_all
  have order := whole.order
  cases turn with
  | start place | wait place | leave place | take place | interrupt place | lock place
  | none place | skip place =>
      simp only [System.pending, place] at order
      exact ⟨good, idle, order, whole.bound⟩
  | pop evt heap place =>
      simp only [System.pending, place, List.append_nil] at order
      refine ⟨good, idle, ?_, whole.bound⟩
      simp only [System.pending, List.map_append, order]
      rfl
  | unlock evt place =>
      refine ⟨good, ?_, ?_, whole.bound⟩
      · cases evt with
        | none => exact idle
        | some evt => trivial
      · cases evt with
        | none =>
            simp only [System.pending, place] at order
            exact order
        | some evt =>
            simp only [System.pending, place] at order
            simp only [System.pending, idle]
            exact order
  | notify evt place =>
      cases evt with
      | none =>
          simp only [System.pending, place] at order
          exact ⟨good, idle, order, whole.bound⟩
      | some evt => exact absurd place (before evt rfl)
  | release evt place => exact absurd place (behind evt rfl)

/-- The event thread takes a step outside of its loop. -/
theorem Whole.dispatch (whole : Whole liEvt liLsnrs answer s) {step : EvtStep}
    (stepped : s.dispatch liEvt liLsnrs step = some s')
    : Whole liEvt liLsnrs answer s' := by
  unfold System.dispatch at stepped
  split at stepped
  · rename_i evt place
    split at stepped
    · rename_i released leaving
      obtain ⟨queue, taken, rfl⟩ := Option.map_eq_some_iff.mp stepped
      have good := _evtThread_good whole.good taken
      have busy : s.lsnrs.notifier ≠ .idle := fun idle => by cases idle.symm.trans leaving
      have order := whole.order
      rw [pending_busy place busy] at order
      simp only [_evtThread, place] at taken
      obtain rfl := Option.some.inj taken
      exact ⟨good, ⟨released, leaving⟩, order, whole.bound⟩
    · cases stepped
  · rename_i evt place
    obtain ⟨lsnrs, released, rest⟩ := Option.bind_eq_some_iff.mp stepped
    obtain ⟨queue, taken, rfl⟩ := Option.map_eq_some_iff.mp rest
    have good := _evtThread_good whole.good taken
    have order := whole.order
    obtain ⟨evt', leaving⟩ : ∃ evt, s.lsnrs.notifier = .releasing evt := by
      have aligned := whole.aligned
      rwa [System.Aligned, place] at aligned
    obtain ⟨lsnrs', released', bound⟩ :=
      whole.bound.step (show s.lsnrs.due answer = some .release by rw [Listeners.due, leaving])
    obtain rfl := Option.some.inj (released'.symm.trans released)
    simp only [notify, leaving] at released
    obtain rfl := Option.some.inj released
    simp only [System.pending, place] at order
    simp only [_evtThread, place] at taken
    obtain rfl := Option.some.inj taken
    exact ⟨good, rfl, order, bound⟩
  · rename_i before behind
    obtain ⟨queue, taken, rfl⟩ := Option.map_eq_some_iff.mp stepped
    refine whole.turn (_evtThread_turn taken) (_evtThread_good whole.good taken) ?_ ?_
    · rintro evt rfl place
      exact before evt place rfl
    · rintro evt rfl place
      exact behind evt place rfl

theorem Whole.loop (whole : Whole liEvt liLsnrs answer s)
    (stepped : s.loop liLsnrs answer = some s')
    : Whole liEvt liLsnrs answer s' := by
  obtain ⟨good, aligned, order, bound⟩ := whole
  unfold System.loop at stepped
  split at stepped
  · rename_i evt place idle
    obtain ⟨lsnrs, entered, rfl⟩ := Option.map_eq_some_iff.mp stepped
    obtain ⟨lsnrs', entered', standing, bound'⟩ :=
      Bound.enter answer (bound.carried idle) (s.queue.evts evt)
    obtain rfl := Option.some.inj (entered'.symm.trans entered)
    refine ⟨good, ?_, ?_, ?_⟩
    · rw [System.Aligned, place]
      trivial
    · simp only [System.pending, place, idle] at order
      simp only [System.pending, place, standing, dispatched_concat, List.append_nil]
      exact order
    · rw [List.foldl_append]
      exact bound'
  · cases stepped
  · rename_i evt place busy leaving
    obtain ⟨step, due, rest⟩ := Option.bind_eq_some_iff.mp stepped
    obtain ⟨lsnrs, taken, rfl⟩ := Option.map_eq_some_iff.mp rest
    obtain ⟨lsnrs', taken', bound'⟩ := bound.step due
    obtain rfl := Option.some.inj (taken'.symm.trans taken)
    have busy' := notify_busy taken busy leaving
    refine ⟨good, ?_, ?_, bound'⟩
    · rw [System.Aligned, place]
      trivial
    · have pending : System.pending { s with lsnrs := lsnrs' } = [] := pending_busy place busy'
      rw [pending_busy place busy] at order
      rw [pending]
      exact order
  · cases stepped

/-- Another thread subscribes or unsubscribes outside of the loop. -/
theorem Whole.execute (whole : Whole liEvt liLsnrs answer s) {command : Command β κ δ φ}
    {lsnrs : Listeners β κ δ φ} (idle : s.lsnrs.notifier = .idle)
    (other : dispatched [command] = [])
    (executed : Event.execute liLsnrs answer s.lsnrs command = some lsnrs)
    : Whole liEvt liLsnrs answer { s with lsnrs, commands := s.commands ++ [command] } := by
  obtain ⟨good, aligned, order, bound⟩ := whole
  have carried := (bound.carried idle).execute executed
  refine ⟨good, ?_, ?_, ?_⟩
  · rw [System.Aligned] at aligned ⊢
    simp only [idle, carried.idle] at aligned ⊢
    exact aligned
  · simp only [System.pending, idle, carried.idle, dispatched_concat, other,
      List.append_nil] at order ⊢
    exact order
  · rw [List.foldl_append]
    exact Bound.of_carried carried

/-- The event thread gets through its loop: there is a next step, in it or behind it. -/
theorem Whole.onward (whole : Whole liEvt liLsnrs answer s) {evt : α}
    (place : s.queue.dispatcher = .notifying (some evt))
    : (s.loop liLsnrs answer).isSome = true
      ∨ (s.dispatch liEvt liLsnrs .notify).isSome = true := by
  have bound := whole.bound
  cases here : s.lsnrs.notifier with
  | idle =>
      obtain ⟨lsnrs, entered, _⟩ := Bound.enter answer (bound.carried here) (s.queue.evts evt)
      simp [System.loop, place, here, entered]
  | releasing evt' => simp [System.dispatch, place, here, _evtThread]
  | standing evt' lsnr | calling evt' lsnr n | consumed evt' lsnr n | leaving evt' lsnr n =>
      obtain ⟨step, due⟩ : ∃ step, s.lsnrs.due answer = some step := by
        simp [Listeners.due, here]
      obtain ⟨lsnrs, taken, _⟩ := bound.step due
      simp [System.loop, place, here, due, taken]

variable [DecidableEq θ]

theorem Whole.step (whole : Whole liEvt liLsnrs answer s) {move : Move θ α β κ δ φ}
    (apart : s.Apart move) (stepped : s.step liEvt liLsnrs answer move = some s')
    : Whole liEvt liLsnrs answer s' := by
  cases move with
  | publisher p step =>
      obtain ⟨queue, taken, rfl⟩ := Option.map_eq_some_iff.mp stepped
      have published := clEvtPub_published taken
      refine whole.besides (clEvtPub_good whole.good taken) published.dispatcher
        published.popped ?_
      have hand := congrArg (Option.map Prod.snd) (whole.good.numbered_hand taken)
      rw [Option.map_map, Option.map_map] at hand
      rw [published.dispatcher]
      exact hand
  | deinit step =>
      obtain ⟨queue, taken, rfl⟩ := Option.map_eq_some_iff.mp stepped
      have good := clEvtDeinit_good whole.good taken
      cases clEvtDeinit_stops taken with
      | flag | post | join => exact whole.besides good rfl rfl rfl
  | dispatcher step => exact whole.dispatch stepped
  | loop => exact whole.loop stepped
  | sub evtNo callback block =>
      have idle := apart_idle (show s.Apart (.unsub evtNo callback) from apart)
      cases block with
      | some block =>
          obtain ⟨lsnrs, executed, rfl⟩ := Option.map_eq_some_iff.mp stepped
          exact whole.execute idle rfl executed
      | none =>
          obtain ⟨⟨ret, lsnrs⟩, subscribed, rfl⟩ := Option.map_eq_some_iff.mp stepped
          obtain rfl := clEvtSub_unallocated subscribed
          exact whole
  | unsub evtNo callback =>
      obtain ⟨lsnrs, executed, rfl⟩ := Option.map_eq_some_iff.mp stepped
      exact whole.execute (apart_idle apart) rfl executed

/-- In every run of publishers, event thread and subscribers, of which the last come in only between
two events: the events for which callbacks are asked are the first of those enqueued, in order; what
the callbacks and `free_fun` see is what those subscribed at that time are to see; when the event
thread sleeps on an empty semaphore and no publisher has still to post, it is so for all events; and
the loop never gets stuck.
-/
theorem events_reach_listeners {heap : Heap α} {evts : α → ClEvt δ φ} {heap' : Heap β}
    {lsnrs : β → ClEvtLsnr κ} (answer : List (Entry κ δ φ) → Bool)
    {moves : List (Move θ α β κ δ φ)} {s : System θ α β κ δ φ}
    (ran
      : Transition.run (Transition.restrict System.Apart (System.step liEvt liLsnrs answer))
          (System.initial liEvt heap evts liLsnrs heap' lsnrs) moves
        = some s)
    : let r := s.commands.foldl (Subscriptions.apply answer) ⟨[], []⟩
      dispatched s.commands <+: s.queue.enqueued.map Prod.snd
      ∧ s.lsnrs.log <+: r.log
      ∧ (s.lsnrs.notifier = .idle → s.lsnrs.log = r.log)
      ∧ (s.queue.dispatcher = .waiting
        → s.queue.smEvt = 0
        → (∀ p, ¬(s.queue.publishers p).Posting)
        → dispatched s.commands = s.queue.enqueued.map Prod.snd ∧ s.lsnrs.log = r.log)
      ∧ (∀ evt,
        s.queue.dispatcher = .notifying (some evt)
          → (s.loop liLsnrs answer).isSome = true
            ∨ (s.dispatch liEvt liLsnrs .notify).isSome = true) := by
  have preserved {s t : System θ α β κ δ φ} {move : Move θ α β κ δ φ}
      (whole : Whole liEvt liLsnrs answer s)
      (stepped
        : Transition.restrict System.Apart (System.step liEvt liLsnrs answer) s move = some t)
      : Whole liEvt liLsnrs answer t := by
    obtain ⟨apart, stepped⟩ := Transition.restrict_eq_some_iff.mp stepped
    exact whole.step apart stepped
  have whole :=
    Transition.run_invariant preserved (whole_initial liEvt heap evts liLsnrs heap' lsnrs answer)
      ran
  have settled (idle : s.lsnrs.notifier = .idle) := (whole.bound.carried idle).log
  obtain ⟨queue, posters, holds, inv⟩ := whole.good
  have enqueued : s.queue.enqueued.map Prod.snd
      = dispatched s.commands ++ (s.pending ++ queue.map s.queue.evts) := by
    rw [inv.order, List.map_append, whole.order, List.append_assoc, List.map_map]
    rfl
  refine ⟨⟨_, enqueued.symm⟩, whole.bound.log, settled, fun waiting zero nobody => ?_,
    fun evt place => whole.onward place⟩
  have idle : s.lsnrs.notifier = .idle := by
    apply whole.idle <;>
    · intro evt place
      cases waiting.symm.trans place
  have none : posters = ∅ := by
    rw [Finset.eq_empty_iff_forall_notMem]
    exact fun p member => nobody p ((inv.posting p).mp member)
  have tokens := inv.tokens
  simp only [waiting, zero, none, Finset.card_empty, Dispatcher.tokens, Nat.add_zero,
    Nat.le_zero, List.length_eq_zero_iff] at tokens
  obtain rfl := tokens
  refine ⟨?_, settled idle⟩
  rw [enqueued]
  simp only [System.pending, waiting, List.map_nil, List.append_nil]

end

/-- Two callbacks are subscribed when an event comes, and the first one does not consume it. -/
theorem events_reach_listeners_two
    : let s := (Transition.run
        (Transition.restrict System.Apart (System.step (0 : Fin 2) (0 : Fin 3) fun _ => false))
        (System.initial 0 (fun _ => ⟨none, none⟩) (fun _ => ⟨0, (), (none : Option Unit)⟩) 0
          (fun _ => ⟨none, none⟩) fun _ => ⟨0, false⟩)
        [.dispatcher .start, .dispatcher .loop, .sub 7 (some true) (some 1),
          .publisher () (.call ⟨7, (), none⟩), .publisher () .lock,
          .publisher () (.malloc (some 1)), .publisher () .listAdd, .publisher () .unlock,
          .sub 7 (some false) (some 2), .publisher () .semPost, .dispatcher .semWait,
          .dispatcher .lock, .dispatcher .pop, .dispatcher .unlock, .loop, .loop, .loop, .loop,
          .loop, .loop, .loop, .loop, .dispatcher .notify, .dispatcher .release]).get (by decide)
      s.lsnrs.log <+: (s.commands.foldl (Subscriptions.apply fun _ => false) ⟨[], []⟩).log
      ∧ s.lsnrs.log
        = [.called true 7 (), .answered false, .called false 7 (), .answered false] :=
  ⟨(events_reach_listeners _ (Option.some_get _).symm).2.1, by rfl⟩

end Libccll.Event
