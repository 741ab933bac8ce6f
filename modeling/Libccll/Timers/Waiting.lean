import Mathlib.Data.List.Nodup
import Libccll.Timers.Accounts

/-! Where the timer thread waits: in `epoll_wait` only.
`_cli_timer_proc` reads a descriptor that blocks until its timer expires, and `_srv_timer_proc`
ends the process when fewer than 20 bytes come. Whether either happens depends on what the events
of a batch say about descriptors that have changed hands since.
-/

namespace Libccll.Timers

open Foundation

/-- A timer that is started with no time never expires. -/
def Itimerspec.Armed (its : Itimerspec) : Prop := its.valueSec ≠ 0 ∨ its.valueNsec ≠ 0

instance (its : Itimerspec) : Decidable its.Armed := inferInstanceAs (Decidable (_ ∨ _))

/-- The thread, and the expiries of each timer that have not been read yet. The last field is
history: all expiries there have been.
-/
structure Live where
  state : State
  due : Nat → Nat
  elapsed : Nat → Nat

/-- A step as before, or an expiry of the timer of a descriptor. -/
inductive LiveAction where
  | thread (action : Action)
  | expire (fd : Nat)

def Live.initial (srvfd : Nat) : Live where
  state := State.initial srvfd
  due _ := 0
  elapsed _ := 0

/-- The descriptor that the thread reads next in `_cli_timer_proc`. -/
def State.reading (s : State) : Option Nat :=
  match s.loop with
  | .searching event pos _ =>
      (s.server.liSock[pos]?).bind fun tmr =>
        if tmr.fd = event.fd ∧ tmr.srv = false then some event.fd else none
  | _ => none

/-- There is something to read where `epoll_wait` reports an event. -/
def Live.Reported (l : Live) (event : Event) : Prop :=
  match event.inst with
  | none => l.state.stream ≠ []
  | some inst => 0 < l.due inst

instance (l : Live) (event : Event) : Decidable (l.Reported event) := by
  unfold Live.Reported
  split <;> infer_instance

/-- A timer expires. -/
def Live.expire (l : Live) (inst : Nat) : Live where
  state := l.state
  due := Function.update l.due inst (l.due inst + 1)
  elapsed := Function.update l.elapsed inst (l.elapsed inst + 1)

/-- A step that reads no timer. -/
def Live.proceed (l : Live) (action : Action) : Option Live :=
  (step l.state action).map fun state => { l with state }

/-- `_cli_timer_proc`, with its `read`: that fails for what is no timer, and waits for an expiry. -/
def Live.read (l : Live) (kernel : Kernel) (fd : Nat) : Option Live :=
  match l.state.server.timerfds fd with
  | none => some { l with state := { l.state with loop := .batch l.state.loop.pending.tail } }
  | some timerfd =>
      if 0 < l.due timerfd.inst then
        (step l.state (.search kernel)).map fun state =>
          { l with state, due := Function.update l.due timerfd.inst 0 }
      else
        none

def liveStep (l : Live) : LiveAction → Option Live
  | .expire fd =>
      match l.state.server.timerfds fd with
      | none => none
      | some timerfd =>
          if timerfd.its.Armed then some (l.expire timerfd.inst) else none
  | .thread (.epollWait events) =>
      if ∀ event ∈ events, l.Reported event then l.proceed (.epollWait events) else none
  | .thread (.search kernel) =>
      match l.state.reading with
      | none => l.proceed (.search kernel)
      | some fd => l.read kernel fd
  | .thread action => l.proceed action

/-- The application writes whole messages. -/
def Live.Whole (_ : Live) : LiveAction → Prop
  | .thread (.write bytes) => bytes.length = sz
  | _ => True

instance (l : Live) (action : LiveAction) : Decidable (l.Whole action) := by
  unfold Live.Whole
  split <;> infer_instance

variable {srvfd : Nat} {l l' : Live} {clients : List Timer}

-----------------------------------------------------------------------------------------
-- Events
-----------------------------------------------------------------------------------------

/-- A timer is open in one descriptor only. -/
theorem Accounted.timerfd_inj {s : Server} (accounted : Accounted srvfd s clients) {fd fd' : Nat}
    {timerfd timerfd' : TimerFd} (isOpen : s.timerfds fd = some timerfd)
    (isOpen' : s.timerfds fd' = some timerfd') (same : timerfd.inst = timerfd'.inst)
    : fd = fd' := by
  have sound := accounted.sound
  obtain ⟨tmr, client, rfl⟩ := List.mem_map.mp (accounted.opened fd timerfd isOpen)
  obtain ⟨tmr', client', rfl⟩ := List.mem_map.mp (accounted.opened fd' timerfd' isOpen')
  obtain ⟨its, known⟩ := (sound.timers tmr client).2
  obtain ⟨its', known'⟩ := (sound.timers tmr' client').2
  have inst : timerfd.inst = tmr.inst := by
    rw [Option.some.inj (isOpen.symm.trans known)]
  have inst' : timerfd'.inst = tmr'.inst := by
    rw [Option.some.inj (isOpen'.symm.trans known')]
  have insts : tmr.inst = tmr'.inst := inst.symm.trans (same.trans inst')
  rw [List.inj_on_of_nodup_map sound.insts (sound.mem_liSock.mpr (Or.inr client))
    (sound.mem_liSock.mpr (Or.inr client')) insts]

/-- The events of a batch are for different timers. -/
theorem Accounted.ready_apart {s : State} (accounted : Accounted srvfd s.server clients)
    {events : List Event} (ready : s.Ready events)
    : (events.filterMap Event.inst).Nodup := by
  obtain ⟨_, distinct, open_⟩ := ready
  rw [List.Nodup, List.pairwise_filterMap]
  refine (List.pairwise_map.mp distinct).imp_of_mem ?_
  rintro event event' member member' apart inst isInst inst' isInst' rfl
  rw [(open_ event member).2] at isInst
  rw [(open_ event' member').2] at isInst'
  obtain ⟨timerfd, isOpen, rfl⟩ := Option.map_eq_some_iff.mp isInst
  obtain ⟨timerfd', isOpen', same⟩ := Option.map_eq_some_iff.mp isInst'
  exact apart (accounted.timerfd_inj isOpen isOpen' same.symm)

/-- A client that is found is handled as an expiry. -/
theorem found_expired {s : State} (sound : Sound srvfd s.server clients) {kernel : Kernel}
    {event : Event} {pos : Nat} {events : List Event} {tmr : Timer} (client : tmr ∈ clients)
    (same : tmr.fd = event.fd)
    : s.found kernel event tmr pos events = s.expired event tmr events := by
  have isClient : ¬tmr.srv = true := by
    rw [sound.isClient tmr client]
    exact Bool.false_ne_true
  obtain ⟨front, back, rfl⟩ := List.append_of_mem client
  rw [State.found, if_neg isClient, ← same, sound.cliTimerProc]
  rfl

-----------------------------------------------------------------------------------------
-- What keeps the thread going
-----------------------------------------------------------------------------------------

/-- The stream holds whole messages, one at least while the event of the server has not been dealt
with; every other event left in the batch has an expiry that has not been read.
-/
structure Punctual (srvfd : Nat) (l : Live) : Prop where
  invariant : Invariant srvfd l.state
  accounted : l.state.Accounted srvfd
  alive : l.state.loop ≠ .crashed
  whole : sz ∣ l.state.stream.length
  message : ∀ event ∈ l.state.loop.untouched, event.fd = srvfd → l.state.stream ≠ []
  timely : ∀ event ∈ l.state.loop.pending, ∀ inst, event.inst = some inst → 0 < l.due inst
  apart : (l.state.loop.pending.filterMap Event.inst).Nodup
  few : l.state.loop.pending.length ≤ 10
  spent : ∀ inst, l.state.handled inst + l.due inst ≤ l.elapsed inst

/-- A step that deals with no event but the first of those left. -/
theorem Punctual.goto (punctual : Punctual srvfd l) {action : Action} {state : State}
    (stepped : step l.state action = some state) (alive : state.loop ≠ .crashed)
    (whole : sz ∣ state.stream.length)
    (message : ∀ event ∈ state.loop.untouched, event.fd = srvfd → state.stream ≠ [])
    (pending : state.loop.pending.Sublist l.state.loop.pending)
    (fired : state.fired = l.state.fired)
    : Punctual srvfd { l with state } where
  invariant := punctual.invariant.step stepped
  accounted := punctual.accounted.step stepped
  alive := alive
  whole := whole
  message := message
  timely event member := punctual.timely event (pending.subset member)
  apart := punctual.apart.sublist (pending.filterMap Event.inst)
  few := Nat.le_trans pending.length_le punctual.few
  spent inst := by
    rw [State.handled, fired]
    exact punctual.spent inst

theorem Punctual.expire (punctual : Punctual srvfd l) (inst : Nat)
    : Punctual srvfd (l.expire inst) := by
  refine
    { punctual with
      timely := fun event member other isInst => ?_
      spent := fun other => ?_ }
  · have before := punctual.timely event member other isInst
    change 0 < Function.update l.due inst (l.due inst + 1) other
    rcases eq_or_ne other inst with rfl | differs
    · rw [Function.update_self]
      exact Nat.succ_pos _
    · rw [Function.update_of_ne differs]
      exact before
  · have before := punctual.spent other
    change l.state.handled other + Function.update l.due inst (l.due inst + 1) other
      ≤ Function.update l.elapsed inst (l.elapsed inst + 1) other
    rcases eq_or_ne other inst with rfl | differs
    · rw [Function.update_self, Function.update_self]
      exact Nat.succ_le_succ before
    · rw [Function.update_of_ne differs, Function.update_of_ne differs]
      exact before

/-- The thread is running where it can take a step of its own. -/
theorem Punctual.tracked (punctual : Punctual srvfd l) (running : l.state.loop.Running)
    : ∃ clients,
        Tracked srvfd l.state clients ∧ Accounted srvfd l.state.server clients := by
  obtain ⟨clients, tracked⟩ := punctual.invariant.2 running
  obtain ⟨clients', accounted⟩ := punctual.accounted running
  have same : clients' = clients := by
    have list := tracked.sound.liSock.symm.trans accounted.sound.liSock
    exact (List.cons.inj list).2.symm
  exact ⟨clients, tracked, same ▸ accounted⟩

-----------------------------------------------------------------------------------------
-- Steps
-----------------------------------------------------------------------------------------

/-- A message that is read leaves whole ones. -/
theorem _srvTimerProc_whole (kernel : Kernel) {stream : List UInt8} (server : Server)
    (whole : sz ∣ stream.length) (some_ : stream ≠ [])
    : ∃ destroy server',
        _srvTimerProc kernel stream server = some (destroy, server', stream.drop sz)
        ∧ sz ∣ (stream.drop sz).length := by
  have enough : ¬stream.length < sz :=
    Nat.not_lt.mpr (Nat.le_of_dvd (List.length_pos_iff.mpr some_) whole)
  refine ⟨_, _, if_neg enough, ?_⟩
  rw [List.length_drop]
  exact Nat.dvd_sub whole (Nat.dvd_refl sz)

/-- The server reads a message. -/
theorem Punctual.served (punctual : Punctual srvfd l) {kernel : Kernel} {event : Event}
    {pos : Nat} {events : List Event} (loop : l.state.loop = .searching event pos events)
    {tmr : Timer} (listed : l.state.server.liSock[pos]? = some tmr) (same : tmr.fd = event.fd)
    (isServer : tmr.srv = true)
    (stepped : step l.state (.search kernel) = some (l.state.found kernel event tmr pos events))
    : Punctual srvfd { l with state := l.state.found kernel event tmr pos events } := by
  have running : l.state.loop.Running := by
    rw [loop]
    trivial
  obtain ⟨clients, tracked, _⟩ := punctual.tracked running
  obtain ⟨rfl, rfl⟩ := (tracked.sound.srv_pos listed).1 isServer
  have atServer : event.fd = srvfd := same.symm
  have some_ := punctual.message event (by rw [loop]; exact List.mem_cons_self) atServer
  obtain ⟨destroy, server, read, whole⟩ :=
    _srvTimerProc_whole kernel l.state.server punctual.whole some_
  cases destroy with
  | true =>
      have found : l.state.found kernel event (srvNode srvfd) 0 events
          = {
              l.state with
              server := releaseAll server
              stream := l.state.stream.drop sz
              loop := .ended
            } := by
        rw [State.found, if_pos isServer, read]
      rw [found] at stepped ⊢
      exact punctual.goto stepped Loop.noConfusion whole
        (fun _ member => absurd member List.not_mem_nil) (List.nil_sublist _) rfl
  | false =>
      have found : l.state.found kernel event (srvNode srvfd) 0 events
          = l.state.changed server (l.state.stream.drop sz) (.searching event 1 events) := by
        rw [State.found, if_pos isServer, read]
        rfl
      rw [found] at stepped ⊢
      refine punctual.goto stepped Loop.noConfusion whole (fun event' member atServer' => ?_) ?_ rfl
      · -- the batch has one event of the server only
        have distinct := tracked.distinct
        rw [loop] at distinct
        have again : event.fd ∈ events.map Event.fd :=
          List.mem_map.mpr ⟨event', member, atServer'.trans atServer.symm⟩
        exact absurd again (List.nodup_cons.mp distinct).1
      · rw [loop]
        exact List.Sublist.refl _

theorem Punctual.proceed (punctual : Punctual srvfd l) {action : Action}
    (whole : l.Whole (.thread action))
    (reported : ∀ events, action = .epollWait events → ∀ event ∈ events, l.Reported event)
    (unread : ∀ kernel, action = .search kernel → l.state.reading = none)
    (stepped : l.proceed action = some l')
    : Punctual srvfd l' := by
  obtain ⟨state, taken, rfl⟩ := Option.map_eq_some_iff.mp stepped
  have again := taken
  unfold step at taken
  split at taken
  · obtain rfl := Option.some.inj taken
    refine punctual.goto again punctual.alive ?_ (fun event member atServer => ?_)
      (List.Sublist.refl _) rfl
    · rw [List.length_append]
      exact Nat.dvd_add punctual.whole (dvd_of_eq (Eq.symm whole))
    · exact List.append_ne_nil_of_left_ne_nil (punctual.message event member atServer) _
  · rename_i events loop
    split at taken
    · rename_i ready
      obtain rfl := Option.some.inj taken
      have running : l.state.loop.Running := by
        rw [loop]
        trivial
      obtain ⟨clients, _, accounted⟩ := punctual.tracked running
      have reported := reported events rfl
      exact {
        invariant := punctual.invariant.step again
        accounted := punctual.accounted.step again
        alive := Loop.noConfusion
        whole := punctual.whole
        message := fun event member atServer => by
          have isServer : event.inst = none := by
            rw [(ready.2.2 event member).2, atServer, accounted.sound.srvOpen.2]
            rfl
          have pending := reported event member
          rw [Live.Reported, isServer] at pending
          exact pending
        timely := fun event member inst isInst => by
          have pending := reported event member
          rw [Live.Reported, isInst] at pending
          exact pending
        apart := accounted.ready_apart ready
        few := ready.1
        spent := punctual.spent
      }
    · cases taken
  · obtain rfl := Option.some.inj taken
    exact punctual.goto again Loop.noConfusion punctual.whole
      (fun _ member => absurd member List.not_mem_nil) (List.nil_sublist _) rfl
  · obtain rfl := Option.some.inj taken
    exact punctual.goto again Loop.noConfusion punctual.whole
      (fun _ member => absurd member List.not_mem_nil) (List.nil_sublist _) rfl
  · rename_i event events loop
    obtain rfl := Option.some.inj taken
    refine punctual.goto again Loop.noConfusion punctual.whole (fun event' member => ?_) ?_ rfl
    · exact punctual.message event' (by rw [loop]; exact member)
    · rw [loop]
      exact List.Sublist.refl _
  · rename_i event pos events kernel loop
    have rest (event' : Event) (member : event' ∈ events) (atServer : event'.fd = srvfd)
        : l.state.stream ≠ [] := by
      refine punctual.message event' ?_ atServer
      rw [loop]
      cases pos with
      | zero => exact List.mem_cons_of_mem event member
      | succ pos => exact member
    split at taken
    · split at taken
      · obtain rfl := Option.some.inj taken
        refine punctual.goto again Loop.noConfusion punctual.whole rest ?_ rfl
        rw [loop]
        exact List.sublist_cons_self event events
      · rename_i tmr listed
        split at taken
        · rename_i same
          obtain rfl := Option.some.inj taken
          have isServer : tmr.srv = true := by
            have skipped := unread kernel rfl
            rw [State.reading, loop] at skipped
            simp only [listed, Option.bind_some, same, true_and, ite_eq_right_iff,
              reduceCtorEq, imp_false, Bool.not_eq_false] at skipped
            exact skipped
          exact punctual.served loop listed same isServer again
        · obtain rfl := Option.some.inj taken
          refine punctual.goto again Loop.noConfusion punctual.whole rest ?_ rfl
          rw [loop]
          exact List.Sublist.refl _
    · cases taken
  · cases taken

/-- A node with the descriptor of the event ends the search. -/
theorem step_found {s t : State} {kernel : Kernel} {event : Event} {pos : Nat}
    {events : List Event} (loop : s.loop = .searching event pos events) {tmr : Timer}
    (listed : s.server.liSock[pos]? = some tmr) (same : tmr.fd = event.fd)
    (stepped : Timers.step s (.search kernel) = some t)
    : t = s.found kernel event tmr pos events := by
  simp only [Timers.step, loop, listed, if_pos same] at stepped
  split at stepped
  · exact (Option.some.inj stepped).symm
  · cases stepped

theorem State.reading_eq_some_iff {s : State} {fd : Nat}
    : s.reading = some fd
      ↔ ∃ event pos events tmr,
          s.loop = .searching event pos events
          ∧ s.server.liSock[pos]? = some tmr
          ∧ tmr.fd = event.fd
          ∧ tmr.srv = false
          ∧ event.fd = fd := by
  unfold State.reading
  constructor
  · intro reading
    split at reading
    · rename_i event pos events loop
      obtain ⟨tmr, listed, found⟩ := Option.bind_eq_some_iff.mp reading
      obtain ⟨⟨same, isClient⟩, isFd⟩ := Option.ite_none_right_eq_some.mp found
      exact ⟨event, pos, events, tmr, loop, listed, same, isClient, Option.some.inj isFd⟩
    · cases reading
  · rintro ⟨event, pos, events, tmr, loop, listed, same, isClient, rfl⟩
    rw [loop]
    simp only [listed, Option.bind_some, same, isClient, and_self, if_true]

/-- The thread reads a timer, and its callback is called. -/
theorem Punctual.read (punctual : Punctual srvfd l) {kernel : Kernel} {fd : Nat}
    (reading : l.state.reading = some fd) (stepped : l.read kernel fd = some l')
    : Punctual srvfd l' := by
  obtain ⟨event, pos, events, tmr, loop, listed, same, isClient, rfl⟩ :=
    State.reading_eq_some_iff.mp reading
  have running : l.state.loop.Running := by
    rw [loop]
    trivial
  obtain ⟨clients, tracked, _⟩ := punctual.tracked running
  have client := (tracked.sound.srv_pos listed).2 (by rw [isClient]; exact Bool.false_ne_true)
  obtain ⟨its, isOpen⟩ := (tracked.sound.timers tmr client).2
  have isInst := tracked.event_inst loop client same
  have apart := punctual.apart
  have timely := punctual.timely
  rw [loop] at apart timely
  change (List.filterMap Event.inst (event :: events)).Nodup at apart
  rw [List.filterMap_cons_some isInst, List.nodup_cons] at apart
  simp only [Live.read, ← same, isOpen] at stepped
  split at stepped
  · rename_i expired
    obtain ⟨state, taken, rfl⟩ := Option.map_eq_some_iff.mp stepped
    obtain rfl : state = l.state.expired event tmr events := by
      rw [← found_expired tracked.sound client same]
      exact step_found loop listed same taken
    exact {
      invariant := punctual.invariant.step taken
      accounted := punctual.accounted.step taken
      alive := Loop.noConfusion
      whole := punctual.whole
      message := fun event' member => by
        refine punctual.message event' ?_
        rw [loop]
        cases pos with
        | zero => exact List.mem_cons_of_mem event member
        | succ pos => exact member
      timely := fun event' member inst isInst' => by
        have other : inst ≠ tmr.inst := by
          rintro rfl
          exact apart.1 (List.mem_filterMap.mpr ⟨event', member, isInst'⟩)
        change 0 < Function.update l.due tmr.inst 0 inst
        rw [Function.update_of_ne other]
        exact timely event' (List.mem_cons_of_mem event member) inst isInst'
      apart := apart.2
      few := by
        have few := punctual.few
        rw [loop] at few
        exact Nat.le_of_succ_le few
      spent := fun inst => by
        have before := punctual.spent inst
        change (l.state.expired event tmr events).handled inst
          + Function.update l.due tmr.inst 0 inst ≤ l.elapsed inst
        rw [State.handled_expired]
        rcases eq_or_ne inst tmr.inst with rfl | other
        · rw [if_pos rfl, Function.update_self]
          exact Nat.le_trans (Nat.add_le_add_left expired _) before
        · rw [if_neg other.symm, Function.update_of_ne other]
          exact before
    }
  · cases stepped

theorem Punctual.step (punctual : Punctual srvfd l) {action : LiveAction}
    (whole : l.Whole action) (stepped : liveStep l action = some l')
    : Punctual srvfd l' := by
  unfold liveStep at stepped
  split at stepped
  · split at stepped
    · cases stepped
    · split at stepped
      · exact Option.some.inj stepped ▸ punctual.expire _
      · cases stepped
  · split at stepped
    · rename_i reported
      exact punctual.proceed whole (fun _ same => Action.epollWait.inj same ▸ reported)
        (fun _ same => by cases same) stepped
    · cases stepped
  · split at stepped
    · rename_i unread
      exact punctual.proceed whole (fun _ same => by cases same) (fun _ _ => unread) stepped
    · rename_i reading
      exact punctual.read reading stepped
  · rename_i noWait noSearch
    exact punctual.proceed whole (fun events same => absurd same (noWait events))
      (fun kernel same => absurd same (noSearch kernel)) stepped

-----------------------------------------------------------------------------------------
-- Back to epoll_wait
-----------------------------------------------------------------------------------------

/-- How many steps of its own the thread is away from `epoll_wait` at most, with 101 nodes to look
at for each event.
-/
def Loop.rank : Loop → Nat
  | .batch events => events.length * 105 + 1
  | .searching _ pos events => events.length * 105 + 2 + (102 - pos)
  | _ => 0

/-- The steps that the thread takes between two calls of `epoll_wait`. -/
def LiveAction.own : LiveAction → Bool
  | .thread .next | .thread (.search _) => true
  | _ => false

end Libccll.Timers
