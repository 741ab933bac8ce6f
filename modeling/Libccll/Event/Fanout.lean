import Libccll.Event.Listeners

/-! Whom an event reaches: the callbacks subscribed to its number, in the order of their
subscription, until one of them consumes it.
-/

namespace Libccll.Event

open Foundation Queue

variable {α κ δ φ : Type*}

/-- What happens one after another when subscriptions and dispatches do not overlap. -/
inductive Command (α κ δ φ : Type*) where
  | sub (evtNo : UInt16) (callback : Option κ) (block : α)
  | unsub (evtNo : UInt16) (callback : Option κ)
  | dispatch (evt : ClEvt δ φ)

/-- What the library is for: the pairs subscribed, in order, and what was called so far. -/
structure Subscriptions (κ δ φ : Type*) where
  pairs : List (ClEvtLsnr κ)
  log : List (Entry κ δ φ)

/-- Asks the callbacks one after another until one consumes the event. -/
def deliver (answer : List (Entry κ δ φ) → Bool) (evt : ClEvt δ φ)
    : List (Entry κ δ φ) → List κ → List (Entry κ δ φ)
  | log, [] => log
  | log, cb :: cbs =>
      let asked := log ++ [.called cb evt.no evt.data]
      if answer asked = true then
        asked ++ [.answered true]
      else
        deliver answer evt (asked ++ [.answered false]) cbs

/-- The call of `free_fun`, if any. -/
def ClEvt.freed (evt : ClEvt δ φ) : List (Entry κ δ φ) :=
  (evt.freeFun.map fun freeFun => .freeFun freeFun evt.data).toList

/-- The callbacks subscribed to a number. -/
def callbacks (pairs : List (ClEvtLsnr κ)) (no : UInt16) : List κ :=
  (pairs.filter (·.no = no)).map ClEvtLsnr.cb

/-- What a command means; how a callback answers depends on what was called before. -/
def Subscriptions.apply [DecidableEq κ] (answer : List (Entry κ δ φ) → Bool)
    (r : Subscriptions κ δ φ)
    : Command α κ δ φ → Subscriptions κ δ φ
  | .sub _ none _ | .unsub _ none => r
  | .sub evtNo (some callback) _ =>
      if ⟨evtNo, callback⟩ ∈ r.pairs then
        r
      else
        { r with pairs := r.pairs ++ [⟨evtNo, callback⟩] }
  | .unsub evtNo (some callback) => { r with pairs := r.pairs.erase ⟨evtNo, callback⟩ }
  | .dispatch evt =>
      { r with log := deliver answer evt r.log (callbacks r.pairs evt.no) ++ evt.freed }

/-- The step the event thread takes next in its loop. -/
def Listeners.due (answer : List (Entry κ δ φ) → Bool) (s : Listeners α κ δ φ)
    : Option (NotifyStep δ φ) :=
  match s.notifier with
  | .idle => none
  | .standing .. => some .test
  | .calling .. => some (.answer (answer s.log))
  | .consumed .. => some .print
  | .leaving .. => some .next
  | .releasing _ => some .release

theorem due_calling {answer : List (Entry κ δ φ) → Bool} {s : Listeners α κ δ φ}
    {evt : ClEvt δ φ} {lsnr : α} {n : Nat} {consumed : Bool}
    (place : s.notifier = .calling evt lsnr n) (answered : answer s.log = consumed)
    : s.due answer = some (.answer consumed) := by
  simp only [Listeners.due, place, answered]

variable [DecidableEq α]

/-- The event thread goes on until the event is released; `none` if it has not come so far after
`fuel` steps.
-/
def finish (liLsnrs : α) (answer : List (Entry κ δ φ) → Bool) (fuel : Nat)
    (s : Listeners α κ δ φ)
    : Option (Listeners α κ δ φ) :=
  match fuel with
  | 0 => none
  | fuel + 1 =>
      match s.due answer with
      | none => some s
      | some step => (notify liLsnrs s step).bind (finish liLsnrs answer fuel)

/-- A command carried out to its end; looking at a listener takes three steps at most. -/
def execute [DecidableEq κ] (liLsnrs : α) (answer : List (Entry κ δ φ) → Bool)
    (s : Listeners α κ δ φ)
    : Command α κ δ φ → Option (Listeners α κ δ φ)
  | .sub evtNo callback block =>
      (clEvtSub liLsnrs s evtNo callback (some block)).map Prod.snd
  | .unsub evtNo callback => (clEvtUnsub liLsnrs s evtNo callback).map Prod.snd
  | .dispatch evt =>
      (notify liLsnrs s (.enter evt)).bind
        (finish liLsnrs answer (3 * s.added.length + 3))

/-- Malloc hands out a block that is not in use. -/
def Command.Fresh (s : Listeners α κ δ φ) : Command α κ δ φ → Prop
  | .sub _ _ block => s.live block = false
  | _ => True

-----------------------------------------------------------------------------------------
-- One dispatch
-----------------------------------------------------------------------------------------

variable {liLsnrs : α} {answer : List (Entry κ δ φ) → Bool} {s t : Listeners α κ δ φ}
  {nodes front back : List α} {evt : ClEvt δ φ} {fuel : Nat}

theorem finish_step {step : NotifyStep δ φ} (due : s.due answer = some step)
    (stepped : notify liLsnrs s step = some t)
    : finish liLsnrs answer (fuel + 1) s = finish liLsnrs answer fuel t := by
  simp only [finish, due, stepped, Option.bind_some]

/-- Behind the loop the event is released. -/
theorem finish_releasing (place : s.notifier = .releasing evt) (enough : 2 ≤ fuel)
    : finish liLsnrs answer fuel s
      = some { s with notifier := .idle, log := s.log ++ evt.freed } := by
  obtain ⟨fuel, rfl⟩ := Nat.exists_eq_add_of_le' enough
  have due : s.due answer = some .release := by simp only [Listeners.due, place]
  have released
      : notify liLsnrs s .release
        = some { s with notifier := .idle, log := s.log ++ evt.freed } := by
    simp only [notify, place]
    rfl
  rw [finish_step due released]
  rfl

/-- From a node on, the loop asks the callbacks of the nodes behind. -/
theorem finish_standing (answer : List (Entry κ δ φ) → Bool)
    (registered : Registered liLsnrs s (front ++ back))
    (place : s.notifier = .standing evt (back ++ [liLsnrs]).head?)
    (enough : 3 * back.length + 3 ≤ fuel)
    : ∃ t,
        finish liLsnrs answer fuel s = some t
        ∧ t.notifier = .idle
        ∧ t.log
          = deliver answer evt s.log (callbacks (back.map s.lsnrs) evt.no) ++ evt.freed
        ∧ Registered liLsnrs t (front ++ back)
        ∧ t.lsnrs = s.lsnrs := by
  induction back generalizing front s fuel with
  | nil =>
      obtain ⟨fuel, rfl⟩ : ∃ k, fuel = k + 3 := Nat.exists_eq_add_of_le' enough
      have due : s.due answer = some .test := by simp only [Listeners.due, place]
      have left : notify liLsnrs s .test = some { s with notifier := .releasing evt } := by
        simp only [notify, place, List.nil_append, List.head?_cons, if_true]
      rw [finish_step due left, finish_releasing rfl (by omega)]
      exact ⟨_, rfl, rfl, rfl, { registered with }, rfl⟩
  | cons lsnr back ih =>
      obtain ⟨fuel, rfl⟩ : ∃ k, fuel = k + 3 := Nat.exists_eq_add_of_le' (by omega)
      have enough : 3 * back.length + 3 ≤ fuel := by
        rw [List.length_cons] at enough
        omega
      have other : lsnr ≠ liLsnrs := by
        rintro rfl
        exact (List.nodup_cons.mp registered.holds.nodup).1 (by simp)
      have due : s.due answer = some .test := by simp only [Listeners.due, place]
      have follows := registered.holds.next_of_mem
      have split : front ++ lsnr :: back = (front ++ [lsnr]) ++ back := by simp
      -- the loop goes on behind the listener, whatever has been called by then
      have onward (log : List (Entry κ δ φ)) (invoked : List Nat) {fuel : Nat}
          (enough : 3 * back.length + 4 ≤ fuel)
          : ∃ t,
              finish liLsnrs answer fuel
                  { s with notifier := .leaving evt lsnr (s.serial lsnr), log, invoked }
                = some t
              ∧ t.notifier = .idle
              ∧ t.log
                = deliver answer evt log (callbacks (back.map s.lsnrs) evt.no) ++ evt.freed
              ∧ Registered liLsnrs t (front ++ lsnr :: back)
              ∧ t.lsnrs = s.lsnrs := by
        obtain ⟨fuel, rfl⟩ : ∃ k, fuel = k + 1 := Nat.exists_eq_add_of_le' (by omega)
        rw [finish_step rfl rfl]
        rw [split] at registered ⊢
        exact ih { registered with } (congrArg _ follows) (by omega)
      by_cases matching : (s.lsnrs lsnr).no = evt.no
      · have called
            : notify liLsnrs s .test
              = some {
                  s with
                  notifier := .calling evt lsnr (s.serial lsnr)
                  log := s.log ++ [.called (s.lsnrs lsnr).cb evt.no evt.data]
                  invoked := s.invoked ++ [s.serial lsnr]
                } := by
          simp only [notify, place, List.cons_append, List.head?_cons, if_neg other,
            if_pos matching]
        have asked
            : callbacks ((lsnr :: back).map s.lsnrs) evt.no
              = (s.lsnrs lsnr).cb :: callbacks (back.map s.lsnrs) evt.no := by
          simp only [callbacks, List.map_cons, List.filter_cons, matching, decide_true, if_true]
        rw [finish_step due called, asked, deliver]
        cases answered : answer (s.log ++ [.called (s.lsnrs lsnr).cb evt.no evt.data]) with
        | true =>
            obtain ⟨fuel, rfl⟩ : ∃ k, fuel = k + 1 := Nat.exists_eq_add_of_le' (by omega)
            rw [finish_step (due_calling rfl answered) rfl, finish_step rfl rfl,
              finish_releasing rfl (by omega)]
            exact ⟨_, rfl, rfl, rfl, { registered with }, rfl⟩
        | false =>
            rw [finish_step (due_calling rfl answered) rfl]
            exact onward _ _ (by omega)
      · have passed
            : notify liLsnrs s .test
              = some { s with notifier := .leaving evt lsnr (s.serial lsnr) } := by
          simp only [notify, place, List.cons_append, List.head?_cons, if_neg other,
            if_neg matching]
        have skipped
            : callbacks ((lsnr :: back).map s.lsnrs) evt.no
              = callbacks (back.map s.lsnrs) evt.no := by
          simp only [callbacks, List.map_cons, List.filter_cons, matching, decide_false,
            Bool.false_eq_true, if_false]
        rw [finish_step due passed, skipped]
        exact onward s.log s.invoked (by omega)

-----------------------------------------------------------------------------------------
-- All commands
-----------------------------------------------------------------------------------------

/-- No event is being dispatched, and list and calls are as they should be. -/
structure Carried (liLsnrs : α) (s : Listeners α κ δ φ) (r : Subscriptions κ δ φ) : Prop where
  idle : s.notifier = .idle
  pairs : ∃ nodes, Registered liLsnrs s nodes ∧ nodes.map s.lsnrs = r.pairs
  log : s.log = r.log

variable [DecidableEq κ] {r : Subscriptions κ δ φ}

theorem Carried.sub (carried : Carried liLsnrs s r) {evtNo : UInt16} {callback : κ} {block : α}
    (possible : ⟨evtNo, callback⟩ ∈ r.pairs ∨ s.live block ≠ true)
    : ∃ t,
        execute liLsnrs answer s (.sub evtNo (some callback) block) = some t
        ∧ Carried liLsnrs t (r.apply answer (.sub evtNo (some callback) block)) := by
  obtain ⟨nodes, registered, pairs⟩ := carried.pairs
  simp only [execute, Subscriptions.apply]
  rw [← pairs] at possible ⊢
  by_cases existing : ⟨evtNo, callback⟩ ∈ nodes.map s.lsnrs
  · rw [clEvtSub_existing registered existing, if_pos existing]
    exact ⟨s, rfl, carried.idle, ⟨nodes, registered, pairs⟩, carried.log⟩
  · have unused := possible.resolve_left existing
    obtain ⟨heap, added, registered'⟩ := clEvtSub_new registered existing unused
    rw [added, if_neg existing]
    exact ⟨_, rfl, carried.idle,
      ⟨nodes ++ [block], registered', registered.insert_lsnrs unused⟩, carried.log⟩

theorem Carried.unsub (carried : Carried liLsnrs s r) {evtNo : UInt16} {callback : κ}
    : ∃ t,
        execute liLsnrs answer s (.unsub evtNo (some callback)) = some t
        ∧ Carried liLsnrs t
          (r.apply answer (.unsub evtNo (some callback) : Command α κ δ φ)) := by
  obtain ⟨nodes, registered, pairs⟩ := carried.pairs
  simp only [execute, Subscriptions.apply]
  by_cases member : ⟨evtNo, callback⟩ ∈ nodes.map s.lsnrs
  · obtain ⟨lsnr, inside, same⟩ := List.mem_map.mp member
    obtain ⟨heap, removed, registered'⟩ := clEvtUnsub_member registered inside
    rw [same] at removed
    rw [removed]
    refine ⟨_, rfl, carried.idle, ⟨nodes.erase lsnr, registered', ?_⟩, carried.log⟩
    rw [← pairs, ← same]
    exact Removal.map_erase_of_nodup registered.distinct inside
  · rw [clEvtUnsub_absent registered member]
    refine ⟨s, rfl, carried.idle, ⟨nodes, registered, ?_⟩, carried.log⟩
    rw [← pairs, List.erase_of_not_mem member]

theorem Carried.dispatch (carried : Carried liLsnrs s r) (evt : ClEvt δ φ)
    : ∃ t,
        execute liLsnrs answer s (.dispatch evt) = some t
        ∧ Carried liLsnrs t (r.apply answer (.dispatch evt : Command α κ δ φ)) := by
  obtain ⟨nodes, registered, pairs⟩ := carried.pairs
  have registered'
      : Registered liLsnrs
          {
            s with
            notifier := .standing evt (s.heap.next liLsnrs)
            began := s.added.length
            invoked := []
            consumer := none
          }
          ([] ++ nodes) :=
    { registered with }
  obtain ⟨t, finished, idle, log, registered, lsnrs⟩ :=
    finish_standing answer registered' (congrArg _ registered.holds.next)
      (Nat.add_le_add_right (Nat.mul_le_mul_left 3 registered.length_le) 3)
  refine ⟨t, ?_, idle, ⟨nodes, registered, lsnrs ▸ pairs⟩, ?_⟩
  · simp only [execute, notify, carried.idle]
    exact finished
  · rw [log, Subscriptions.apply, ← pairs, ← carried.log]

theorem Carried.execute (carried : Carried liLsnrs s r) {command : Command α κ δ φ}
    (stepped : Event.execute liLsnrs answer s command = some t)
    : Carried liLsnrs t (r.apply answer command) := by
  cases command with
  | sub evtNo callback block =>
      cases callback with
      | none =>
          obtain rfl := Option.some.inj stepped
          exact carried
      | some callback =>
          have possible : ⟨evtNo, callback⟩ ∈ r.pairs ∨ s.live block ≠ true := by
            obtain ⟨nodes, registered, pairs⟩ := carried.pairs
            rw [← pairs, or_iff_not_imp_left]
            intro new used
            rw [Event.execute, clEvtSub_inUse registered new used] at stepped
            cases stepped
          obtain ⟨t', stepped', carried'⟩ := carried.sub possible
          obtain rfl := Option.some.inj (stepped'.symm.trans stepped)
          exact carried'
  | unsub evtNo callback =>
      cases callback with
      | none =>
          obtain rfl := Option.some.inj stepped
          exact carried
      | some callback =>
          obtain ⟨t', stepped', carried'⟩ := carried.unsub
          obtain rfl := Option.some.inj (stepped'.symm.trans stepped)
          exact carried'
  | dispatch evt =>
      obtain ⟨t', stepped', carried'⟩ := carried.dispatch evt
      obtain rfl := Option.some.inj (stepped'.symm.trans stepped)
      exact carried'

/-- Nothing but malloc keeps a command from being carried out. -/
theorem Carried.enabled (carried : Carried liLsnrs s r)
    (answer : List (Entry κ δ φ) → Bool) {command : Command α κ δ φ} (fresh : command.Fresh s)
    : (Event.execute liLsnrs answer s command).isSome = true := by
  rw [Option.isSome_iff_exists]
  cases command with
  | sub evtNo callback block =>
      cases callback with
      | none => exact ⟨s, rfl⟩
      | some callback =>
          have unused : s.live block ≠ true := by
            rw [ne_eq, Bool.not_eq_true]
            exact fresh
          exact (carried.sub (Or.inr unused)).imp fun t carried => carried.1
  | unsub evtNo callback =>
      cases callback with
      | none => exact ⟨s, rfl⟩
      | some callback => exact carried.unsub.imp fun t carried => carried.1
  | dispatch evt => exact (carried.dispatch evt).imp fun t carried => carried.1

/-- Whatever is subscribed, unsubscribed and dispatched one after another, and whatever the
callbacks answer: list and calls are those of the reference, and every next command is carried
out to its end.
-/
theorem fan_out {heap : Heap α} {lsnrs : α → ClEvtLsnr κ}
    (answer : List (Entry κ δ φ) → Bool) {commands : List (Command α κ δ φ)}
    {s : Listeners α κ δ φ}
    (ran : Transition.run (execute liLsnrs answer) (Listeners.initial liLsnrs heap lsnrs) commands
      = some s)
    : let r := commands.foldl (Subscriptions.apply answer) ⟨[], []⟩
      (listForEach s.heap (s.added.length + 1) liLsnrs).map (·.map s.lsnrs) = some r.pairs
      ∧ s.log = r.log
      ∧ ∀ command : Command α κ δ φ,
          command.Fresh s → (execute liLsnrs answer s command).isSome = true := by
  have start
      : Carried liLsnrs (Listeners.initial liLsnrs heap lsnrs : Listeners α κ δ φ) ⟨[], []⟩ :=
    ⟨rfl, ⟨[], registered_initial liLsnrs heap lsnrs, rfl⟩, rfl⟩
  have carried :=
    Transition.run_simulation (fun carried stepped => carried.execute stepped) start ran
  obtain ⟨nodes, registered, pairs⟩ := carried.pairs
  refine ⟨?_, carried.log, fun command fresh => carried.enabled answer fresh⟩
  rw [registered.holds.forEach (Nat.lt_succ_of_le registered.length_le), Option.map_some, pairs]

/-- Two callbacks are subscribed to the same number, and the first one consumes the event. -/
theorem fan_out_consumed
    : let s := (Transition.run (execute 0 fun log => log.length = 1)
        (Listeners.initial 0 (fun _ : Fin 3 => ⟨none, none⟩) fun _ => ⟨0, false⟩)
        [.sub 7 (some true) 1, .sub 7 (some false) 2, .dispatch ⟨7, (), some ()⟩]).get (by decide)
      s.log = [.called true 7 (), .answered true, .freeFun () ()] :=
  (fan_out _ (Option.some_get _).symm).2.1

end Libccll.Event
