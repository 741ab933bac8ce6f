import Libccll.Timers.Registry
import Libccll.Timers.Thread

/-! Callbacks are called for the timers they are registered with, as often as registered.
An event left over in a batch cannot meet a timer created later: a batch has one event of the
server at most, so once a descriptor has been closed by a message nothing is created in it.
-/

namespace Libccll.Timers

open Foundation

/-- The events of the batch that have not been dealt with. -/
def Loop.pending : Loop → List Event
  | .batch events => events
  | .searching event _ events => event :: events
  | _ => []

/-- The events of the batch that have not come past the server node. -/
def Loop.untouched : Loop → List Event
  | .batch events => events
  | .searching event 0 events => event :: events
  | .searching _ (_ + 1) events => events
  | _ => []

def Loop.Running : Loop → Prop
  | .ended | .crashed => False
  | _ => True

/-- How many expiries of a timer have been handled. -/
def State.handled (s : State) (inst : Nat) : Nat := s.fired.countP (·.tmr.inst = inst)

/-- What is left to count down after some expiries. -/
def Remains (total left : UInt32) (handled : Nat) : Prop :=
  if total = 0 then left = 0 else left ≠ 0 ∧ handled + left.toNat = total.toNat

/-- The client is the one registered, apart from the expiries counted. -/
def State.Counts (s : State) (tmr reg : Timer) : Prop :=
  reg = { tmr with repeats := reg.repeats }
  ∧ Remains reg.repeats tmr.repeats (s.handled tmr.inst)

/-- What holds while the thread runs. -/
structure Tracked (srvfd : Nat) (s : State) (clients : List Timer) : Prop where
  sound : Sound srvfd s.server clients
  distinct : (s.loop.pending.map Event.fd).Nodup
  current
    : ∀ event ∈ s.loop.pending, ∀ tmr ∈ clients,
        tmr.fd = event.fd → event.inst = some tmr.inst
  held
    : (∃ event ∈ s.loop.untouched, event.fd = srvfd)
        → ∀ event ∈ s.loop.pending, s.server.epoll event.fd = true
  counts : ∀ tmr ∈ clients, ∃ reg ∈ s.registered, s.Counts tmr reg
  registered : (s.registered.map Timer.inst).Nodup
  numbered : ∀ reg ∈ s.registered, reg.inst ≤ s.server.created
  firedNumbered : ∀ firing ∈ s.fired, firing.tmr.inst ≤ s.server.created

/-- What holds of the history, also after the thread has ended. -/
structure History (s : State) : Prop where
  current : ∀ firing ∈ s.fired, firing.event.inst = some firing.tmr.inst
  bounded : ∀ reg ∈ s.registered, reg.repeats ≠ 0 → s.handled reg.inst ≤ reg.repeats.toNat

def Invariant (srvfd : Nat) (s : State) : Prop :=
  History s ∧ (s.loop.Running → ∃ clients, Tracked srvfd s clients)

theorem invariant_initial (srvfd : Nat) : Invariant srvfd (State.initial srvfd) := by
  refine ⟨⟨nofun, nofun⟩, fun _ => ⟨[], sound_initial srvfd, List.nodup_nil, nofun, nofun, nofun,
    List.nodup_nil, nofun, nofun⟩⟩

variable {srvfd : Nat} {s t : State} {clients : List Timer}

/-- Events of the batch are dealt with one by one, or their search goes on. -/
theorem Tracked.proceed (tracked : Tracked srvfd s clients) {loop : Loop}
    (pending : loop.pending.Sublist s.loop.pending)
    (untouched : loop.untouched ⊆ s.loop.untouched)
    : Tracked srvfd { s with loop } clients :=
  { tracked with
    distinct := tracked.distinct.sublist (pending.map Event.fd)
    current := fun event member => tracked.current event (pending.subset member)
    held := fun ⟨event, member, server⟩ event' member' =>
      tracked.held ⟨event, untouched member, server⟩ event' (pending.subset member') }

/-- A new batch is one of open timers. -/
theorem Tracked.epollWait (tracked : Tracked srvfd s clients) {events : List Event}
    (ready : s.Ready events)
    : Tracked srvfd { s with loop := .batch events } clients := by
  obtain ⟨_, distinct, open_⟩ := ready
  refine
    { tracked with
      distinct, current := ?_, held := fun _ event member => (open_ event member).1 }
  intro event member tmr client same
  obtain ⟨its, timerfd⟩ := (tracked.sound.timers tmr client).2
  rw [(open_ event member).2, ← same, timerfd]
  rfl

theorem History.same (history : History s) {server : Server} {stream : List UInt8} {loop : Loop}
    : History { s with server, stream, loop } :=
  ⟨history.current, history.bounded⟩

-----------------------------------------------------------------------------------------
-- A message
-----------------------------------------------------------------------------------------

/-- The new clients a change brings: at most one, with the next number. -/
theorem Change.registered {s t : Server} {clients clients' : List Timer}
    (sound : Sound srvfd s clients) (change : Change s clients t clients')
    : t.liSock.filter (fun tmr => s.created < tmr.inst) = []
        ∧ clients' ⊆ clients
        ∧ s.created ≤ t.created
      ∨ ∃ fd repeats cb,
        t.liSock.filter (fun tmr => s.created < tmr.inst) = [s.newest fd repeats cb]
        ∧ s.Unused fd
        ∧ clients' = clients ++ [s.newest fd repeats cb]
        ∧ t.created = s.created + 1 := by
  have old (ts : List Timer) (inside : ∀ tmr ∈ ts, tmr ∈ s.liSock)
      : ts.filter (fun tmr => s.created < tmr.inst) = [] := by
    rw [List.filter_eq_nil_iff]
    intro tmr member newer
    have numbered := sound.inst_le tmr (inside tmr member)
    have newer := of_decide_eq_true newer
    omega
  cases change with
  | unchanged => exact Or.inl ⟨old _ (fun _ => id), List.Subset.refl _, Nat.le_refl _⟩
  | spent => exact Or.inl ⟨old _ (fun _ => id), List.Subset.refl _, Nat.le_succ _⟩
  | register fd sec ms repeats cb unused unknown =>
      refine Or.inr ⟨fd, repeats, cb, ?_, unused, rfl, rfl⟩
      rw [Server.withClient, List.filter_append, old _ (fun _ => id), List.nil_append]
      simp [Server.newest]
  | remove front back tmr split =>
      subst split
      refine Or.inl ⟨old _ (fun t member => List.mem_of_mem_eraseP member), ?_, Nat.le_refl _⟩
      intro t member
      rcases List.mem_append.mp member with inFront | inBack
      · exact List.mem_append_left _ inFront
      · exact List.mem_append_right _ (List.mem_cons_of_mem tmr inBack)

/-- The state after a message that made the change. -/
def State.changed (s : State) (server : Server) (stream : List UInt8) (loop : Loop) : State where
  server
  stream
  loop
  registered := s.registered ++ server.liSock.filter (fun tmr => s.server.created < tmr.inst)
  fired := s.fired

/-- No expiry has been handled of a timer that is still to come. -/
theorem Tracked.handled_next (tracked : Tracked srvfd s clients)
    : s.handled (s.server.created + 1) = 0 := by
  rw [State.handled, List.countP_eq_zero]
  intro firing member same
  have numbered := tracked.firedNumbered firing member
  have same := of_decide_eq_true same
  omega

theorem History.changed (history : History s) (tracked : Tracked srvfd s clients)
    {server : Server} {clients' : List Timer} (change : Change s.server clients server clients')
    {stream : List UInt8} {loop : Loop}
    : History (s.changed server stream loop) := by
  refine ⟨history.current, ?_⟩
  intro reg member repeats
  rcases List.mem_append.mp member with old | new
  · exact history.bounded reg old repeats
  · have next : reg.inst = s.server.created + 1 := by
      rcases change.registered tracked.sound with ⟨none, _⟩ | ⟨fd, rpe, cb, one, _⟩
      · rw [none] at new
        cases new
      · rw [one] at new
        rw [List.mem_singleton.mp new]
        rfl
    have unfired := tracked.handled_next
    change s.handled reg.inst ≤ _
    rw [next, unfired]
    exact Nat.zero_le _

theorem Tracked.changed (tracked : Tracked srvfd s clients) {event : Event}
    {events : List Event} (loop : s.loop = .searching event 0 events)
    (atServer : event.fd = srvfd) {server : Server} {clients' : List Timer}
    (change : Change s.server clients server clients') (stream : List UInt8)
    : Tracked srvfd (s.changed server stream (.searching event 1 events)) clients' := by
  have pending : s.loop.pending = event :: events := by rw [loop]; rfl
  have distinct := tracked.distinct
  have current := tracked.current
  have isOpen := tracked.held ⟨event, by rw [loop]; exact List.mem_cons_self, atServer⟩
  rw [pending] at distinct current isOpen
  have onlyServer (h : ∃ event' ∈ events, event'.fd = srvfd) : False := by
    obtain ⟨event', member, same⟩ := h
    exact (List.nodup_cons.mp distinct).1
      (atServer.trans same.symm ▸ List.mem_map_of_mem member)
  have sound := tracked.sound.change change
  rcases change.registered tracked.sound with
    ⟨none, fewer, created⟩ | ⟨fd, repeats, cb, one, unused, rfl, created⟩
  · have registered : (s.changed server stream (.searching event 1 events)).registered
        = s.registered := by
      rw [State.changed, none, List.append_nil]
    refine ⟨sound, distinct, ?_, fun h => (onlyServer h).elim, ?_, ?_, ?_, ?_⟩
    · exact fun event' member tmr client => current event' member tmr (fewer client)
    · intro tmr client
      rw [registered]
      exact tracked.counts tmr (fewer client)
    · exact registered ▸ tracked.registered
    · intro reg member
      rw [registered] at member
      exact Nat.le_trans (tracked.numbered reg member) created
    · exact fun firing member => Nat.le_trans (tracked.firedNumbered firing member) created
  · have registered : (s.changed server stream (.searching event 1 events)).registered
        = s.registered ++ [s.server.newest fd repeats cb] := by
      rw [State.changed, one]
    refine ⟨sound, distinct, ?_, fun h => (onlyServer h).elim, ?_, ?_, ?_, ?_⟩
    · intro event' member tmr client same
      rcases List.mem_append.mp client with old | new
      · exact current event' member tmr old same
      · obtain rfl := List.mem_singleton.mp new
        have watched : s.server.epoll fd = true :=
          (show fd = event'.fd from same) ▸ isOpen event' member
        rw [unused.2] at watched
        cases watched
    · intro tmr client
      rw [registered]
      rcases List.mem_append.mp client with old | new
      · obtain ⟨reg, member, counts⟩ := tracked.counts tmr old
        exact ⟨reg, List.mem_append_left _ member, counts⟩
      · obtain rfl := List.mem_singleton.mp new
        refine ⟨_, List.mem_append_right _ (List.mem_singleton_self _), rfl, ?_⟩
        have unfired := tracked.handled_next
        change Remains repeats repeats (s.handled (s.server.created + 1))
        rw [unfired, Remains]
        split
        · assumption
        · exact ⟨‹_›, Nat.zero_add _⟩
    · rw [registered, List.map_append, List.nodup_append]
      refine ⟨tracked.registered, List.nodup_singleton _, ?_⟩
      intro a listed b new
      obtain ⟨reg, member, rfl⟩ := List.mem_map.mp listed
      have numbered := tracked.numbered reg member
      have newest : b = s.server.created + 1 := List.mem_singleton.mp new
      omega
    · intro reg member
      change _ ≤ server.created
      rw [created]
      rw [registered] at member
      rcases List.mem_append.mp member with old | new
      · exact Nat.le_succ_of_le (tracked.numbered reg old)
      · rw [List.mem_singleton.mp new]
        exact Nat.le_refl _
    · intro firing member
      change _ ≤ server.created
      rw [created]
      exact Nat.le_succ_of_le (tracked.firedNumbered firing member)

-----------------------------------------------------------------------------------------
-- An expiry
-----------------------------------------------------------------------------------------

/-- The server after an expiry of one of its clients. -/
def Server.expired (s : Server) (tmr : Timer) : Server :=
  if tmr.repeats > 1 then s.counted tmr
  else if tmr.repeats = 1 then s.without tmr
  else s

/-- The state after an expiry has been handled. -/
def State.expired (s : State) (event : Event) (tmr : Timer) (events : List Event) : State :=
  {
    s with
    server := s.server.expired tmr
    loop := .batch events
    fired := s.fired ++ [⟨event, tmr⟩]
  }

theorem State.handled_expired (event : Event) (tmr : Timer) (events : List Event) (inst : Nat)
    : (s.expired event tmr events).handled inst
      = s.handled inst + if tmr.inst = inst then 1 else 0 := by
  simp only [State.handled, State.expired, List.countP_append, List.countP_singleton,
    decide_eq_true_eq]

theorem Timer.repeats_cases (tmr : Timer)
    : tmr.repeats > 1 ∨ tmr.repeats = 1 ∨ tmr.repeats = 0 := by
  simp only [gt_iff_lt, UInt32.lt_iff_toNat_lt, ← UInt32.toNat_inj]
  change 1 < _ ∨ _ = 1 ∨ _ = 0
  omega

/-- The count goes down by one with every expiry but the last. -/
theorem Remains.next {total left : UInt32} {handled : Nat}
    (remains : Remains total left handled) (more : left ≠ 1)
    : Remains total (if left = 0 then 0 else left - 1) (handled + 1)
      ∧ ¬(total ≠ 0 ∧ handled + 1 = total.toNat) := by
  simp only [Remains] at remains ⊢
  by_cases forever : total = 0
  · rw [if_pos forever] at remains
    simp only [forever, remains, if_true, ne_eq, not_true_eq_false, false_and,
      not_false_eq_true, and_self]
  · rw [if_neg forever] at remains
    obtain ⟨notZero, sum⟩ := remains
    have positive : left.toNat ≠ 0 := fun zero => notZero (UInt32.toNat_inj.mp zero)
    have notOne : left.toNat ≠ 1 := fun one => more (UInt32.toNat_inj.mp one)
    have down : (left - 1).toNat = left.toNat - 1 :=
      UInt32.toNat_sub_of_le left 1 (UInt32.le_iff_toNat_le.mpr (by change 1 ≤ _; omega))
    have stays : left - 1 ≠ 0 := by
      intro zero
      rw [zero] at down
      change 0 = _ at down
      omega
    rw [if_neg notZero, if_neg forever]
    exact ⟨⟨stays, by omega⟩, fun h => by omega⟩

theorem Remains.last {total : UInt32} {handled : Nat} (remains : Remains total 1 handled)
    : total ≠ 0 ∧ handled + 1 = total.toNat := by
  simp only [Remains] at remains
  split at remains
  · cases remains
  · exact ⟨‹_›, remains.2⟩

theorem Remains.le {total left : UInt32} {handled : Nat} (remains : Remains total left handled)
    (counted : total ≠ 0)
    : handled + 1 ≤ total.toNat := by
  simp only [Remains, if_neg counted] at remains
  have positive : left.toNat ≠ 0 := fun zero => remains.1 (UInt32.toNat_inj.mp zero)
  omega

/-- The clients after an expiry: the one that expired is counted down, taken out, or repeats
forever.
-/
theorem Sound.expired {front back : List Timer} {tmr : Timer} {server : Server}
    (sound : Sound srvfd server (front ++ tmr :: back))
    : ∃ clients',
        Sound srvfd (server.expired tmr) clients'
        ∧ (∀ t ∈ clients', t.inst ≠ tmr.inst → t ∈ front ++ tmr :: back)
        ∧ (∀ t ∈ front ++ tmr :: back, t.inst ≠ tmr.inst → t ∈ clients')
        ∧ (∀ t ∈ clients',
            t.inst = tmr.inst
              → tmr.repeats ≠ 1
                ∧ t = { tmr with repeats := if tmr.repeats = 0 then 0 else tmr.repeats - 1 })
        ∧ (tmr.repeats ≠ 1 → ∃ t ∈ clients', t.inst = tmr.inst)
        ∧ (server.expired tmr).created = server.created
        ∧ ∀ fd, fd ≠ tmr.fd → (server.expired tmr).epoll fd = server.epoll fd := by
  have others (t : Timer) (member : t ∈ front ++ back) : t.inst ≠ tmr.inst :=
    (sound.other_nodes t (List.mem_cons_of_mem _ member)).2.1
  have around (x y t : Timer) (member : t ∈ front ++ x :: back) (differs : t ≠ x)
      : t ∈ front ++ y :: back := by
    simp only [List.mem_append, List.mem_cons, differs, false_or] at member ⊢
    tauto
  simp only [Server.expired]
  rcases tmr.repeats_cases with more | one | forever
  · have notOne : tmr.repeats ≠ 1 := by
      intro one
      rw [one] at more
      exact absurd more (by decide)
    have notZero : tmr.repeats ≠ 0 := by
      intro zero
      rw [zero] at more
      exact absurd more (by decide)
    rw [if_pos more]
    refine ⟨_, sound.counted, ?_, ?_, ?_, fun _ => ?_, rfl, fun _ _ => rfl⟩
    · intro t member differs
      exact around _ tmr t member (fun same => differs (same ▸ rfl))
    · intro t member differs
      exact around tmr _ t member (fun same => differs (same ▸ rfl))
    · intro t member same
      refine ⟨notOne, ?_⟩
      rw [if_neg notZero]
      by_contra differs
      have outside := around _ tmr t member differs
      refine others t ?_ same
      simp only [List.mem_append, List.mem_cons] at member ⊢
      tauto
    · exact ⟨_, List.mem_append_right front List.mem_cons_self, rfl⟩
  · have notMore : ¬tmr.repeats > 1 := by
      rw [one]
      decide
    rw [if_neg notMore, if_pos one]
    refine ⟨_, sound.without, ?_, ?_, ?_, fun notOne => absurd one notOne, rfl, ?_⟩
    · intro t member _
      rcases List.mem_append.mp member with inFront | inBack
      · exact List.mem_append_left _ inFront
      · exact List.mem_append_right _ (List.mem_cons_of_mem tmr inBack)
    · intro t member differs
      have other : t ≠ tmr := fun same => differs (same ▸ rfl)
      simp only [List.mem_append, List.mem_cons, other, false_or] at member ⊢
      exact member
    · exact fun t member same => absurd same (others t member)
    · exact fun fd other => Function.update_of_ne other ..
  · have notMore : ¬tmr.repeats > 1 := by
      rw [forever]
      decide
    have notOne : tmr.repeats ≠ 1 := by
      rw [forever]
      decide
    rw [if_neg notMore, if_neg notOne]
    refine ⟨_, sound, fun t member _ => member, fun t member _ => member, ?_, fun _ => ?_, rfl,
      fun _ _ => rfl⟩
    · intro t member same
      refine ⟨notOne, ?_⟩
      have isTmr : t = tmr := by
        by_contra differs
        refine others t ?_ same
        simp only [List.mem_append, List.mem_cons, differs, false_or] at member ⊢
        exact member
      rw [isTmr, if_pos forever, ← forever]
    · exact ⟨tmr, List.mem_append_right front List.mem_cons_self, rfl⟩

/-- An expiry is one of the client that its event was for. -/
theorem Tracked.event_inst (tracked : Tracked srvfd s clients) {event : Event} {pos : Nat}
    {events : List Event} (loop : s.loop = .searching event pos events) {tmr : Timer}
    (client : tmr ∈ clients) (same : tmr.fd = event.fd)
    : event.inst = some tmr.inst :=
  tracked.current event (by rw [loop]; exact List.mem_cons_self) tmr client same

/-- The registration of a client, and what is left of it. -/
theorem Tracked.registration (tracked : Tracked srvfd s clients) {tmr reg : Timer}
    (client : tmr ∈ clients) (member : reg ∈ s.registered) (same : reg.inst = tmr.inst)
    : s.Counts tmr reg := by
  obtain ⟨reg', member', counts⟩ := tracked.counts tmr client
  have same' : reg'.inst = tmr.inst := by
    rw [counts.1]
  have sameReg := List.inj_on_of_nodup_map tracked.registered member member'
    (same.trans same'.symm)
  exact sameReg ▸ counts

theorem History.expired (history : History s) (tracked : Tracked srvfd s clients)
    {event : Event} {pos : Nat} {events : List Event}
    (loop : s.loop = .searching event pos events) {tmr : Timer} (client : tmr ∈ clients)
    (same : tmr.fd = event.fd)
    : History (s.expired event tmr events) := by
  constructor
  · intro firing member
    rcases List.mem_append.mp member with old | new
    · exact history.current firing old
    · rw [List.mem_singleton.mp new]
      exact tracked.event_inst loop client same
  · intro reg member repeats
    rw [State.handled_expired]
    split
    · rename_i here
      rw [← here]
      exact (tracked.registration client member here.symm).2.le repeats
    · exact history.bounded reg member repeats

theorem Tracked.expired (tracked : Tracked srvfd s clients) {event : Event} {pos : Nat}
    {events : List Event} (loop : s.loop = .searching event pos events) {tmr : Timer}
    (client : tmr ∈ clients) (same : tmr.fd = event.fd)
    : ∃ clients',
        Tracked srvfd (s.expired event tmr events) clients'
        ∧ (tmr.inst ∈ clients'.map Timer.inst ↔ tmr.repeats ≠ 1)
        ∧ ∀ t ∈ clients, t.inst ≠ tmr.inst → t ∈ clients' := by
  have pending : s.loop.pending = event :: events := by rw [loop]; rfl
  have distinct := tracked.distinct
  rw [pending] at distinct
  have later (event' : Event) (member : event' ∈ events) : event'.fd ≠ tmr.fd := by
    intro sameFd
    exact (List.nodup_cons.mp distinct).1
      (same.symm.trans sameFd.symm ▸ List.mem_map_of_mem member)
  obtain ⟨front, back, rfl⟩ := List.append_of_mem client
  obtain ⟨clients', sound, fewer, kept, self, stays, created, epoll⟩ :=
    tracked.sound.expired
  have isOld (t : Timer) (member : t ∈ clients') : ∃ t' ∈ front ++ tmr :: back,
      t'.fd = t.fd ∧ t'.inst = t.inst := by
    by_cases here : t.inst = tmr.inst
    · rw [(self t member here).2]
      exact ⟨tmr, client, rfl, rfl⟩
    · exact ⟨t, fewer t member here, rfl, rfl⟩
  refine
    ⟨clients', ⟨sound, (List.nodup_cons.mp distinct).2, ?_, ?_, ?_, tracked.registered, ?_, ?_⟩,
      ?_, kept⟩
  · intro event' member t member' sameFd
    obtain ⟨t', old, fd, inst⟩ := isOld t member'
    rw [← inst]
    exact tracked.current event' (pending ▸ List.mem_cons_of_mem event member) t' old
      (fd.trans sameFd)
  · rintro ⟨event', member, atServer⟩ event'' member''
    change (s.server.expired tmr).epoll event''.fd = true
    rw [epoll _ (later event'' member'')]
    refine tracked.held ⟨event', ?_, atServer⟩ event''
      (pending ▸ List.mem_cons_of_mem event member'')
    rw [loop]
    cases pos with
    | zero => exact List.mem_cons_of_mem event member
    | succ pos => exact member
  · intro t member
    by_cases here : t.inst = tmr.inst
    · obtain ⟨more, isNext⟩ := self t member here
      obtain ⟨reg, registered, isReg, remains⟩ := tracked.counts tmr client
      refine ⟨reg, registered, ?_, ?_⟩
      · rw [isNext]
        exact isReg
      · rw [State.handled_expired, isNext, if_pos rfl]
        exact (remains.next more).1
    · obtain ⟨reg, registered, isReg, remains⟩ := tracked.counts t (fewer t member here)
      refine ⟨reg, registered, isReg, ?_⟩
      rw [State.handled_expired, if_neg (Ne.symm here)]
      exact remains
  · intro reg member
    exact created.symm ▸ tracked.numbered reg member
  · intro firing member
    change _ ≤ (s.server.expired tmr).created
    rw [created]
    rcases List.mem_append.mp member with old | new
    · exact tracked.firedNumbered firing old
    · rw [List.mem_singleton.mp new]
      exact tracked.sound.inst_le tmr (tracked.sound.mem_liSock.mpr (Or.inr client))
  · constructor
    · intro listed
      obtain ⟨t, member, here⟩ := List.mem_map.mp listed
      exact (self t member here).1
    · intro more
      obtain ⟨t, member, here⟩ := stays more
      exact List.mem_map.mpr ⟨t, member, here⟩

-----------------------------------------------------------------------------------------
-- Every step
-----------------------------------------------------------------------------------------

/-- What a step of the running thread can be. -/
inductive Turn (srvfd : Nat) (s : State) (clients : List Timer) : State → Prop
  | proceed (stream : List UInt8) (loop : Loop) :
      Tracked srvfd { s with stream, loop } clients → Turn srvfd s clients { s with stream, loop }
  | leave (server : Server) (stream : List UInt8) (loop : Loop) :
      ¬loop.Running → Turn srvfd s clients { s with server, stream, loop }
  | message (event : Event) (events : List Event) (server : Server) (stream : List UInt8)
      (clients' : List Timer) :
      s.loop = .searching event 0 events
        → event.fd = srvfd
        → Change s.server clients server clients'
        → Turn srvfd s clients (s.changed server stream (.searching event 1 events))
  | expiry (event : Event) (pos : Nat) (events : List Event) (tmr : Timer) :
      s.loop = .searching event pos events
        → tmr ∈ clients
        → tmr.fd = event.fd
        → Turn srvfd s clients (s.expired event tmr events)

/-- The node where a search meets the server is the first. -/
theorem Sound.srv_pos (sound : Sound srvfd s.server clients) {pos : Nat} {tmr : Timer}
    (listed : s.server.liSock[pos]? = some tmr)
    : (tmr.srv = true → pos = 0 ∧ tmr = srvNode srvfd) ∧ (tmr.srv ≠ true → tmr ∈ clients) := by
  rw [sound.liSock] at listed
  cases pos with
  | zero =>
      obtain rfl := Option.some.inj listed
      exact ⟨fun _ => ⟨rfl, rfl⟩, fun client => absurd rfl client⟩
  | succ pos =>
      have client : tmr ∈ clients := List.mem_of_getElem? listed
      have notServer := sound.isClient tmr client
      exact ⟨fun server => absurd (notServer.symm.trans server) Bool.false_ne_true,
        fun _ => client⟩

theorem found_turn (tracked : Tracked srvfd s clients) {kernel : Kernel}
    (fresh : kernel.Fresh s.server) {event : Event} {pos : Nat} {events : List Event}
    {tmr : Timer} (loop : s.loop = .searching event pos events)
    (listed : s.server.liSock[pos]? = some tmr) (same : tmr.fd = event.fd)
    : Turn srvfd s clients (s.found kernel event tmr pos events) := by
  obtain ⟨server, client⟩ := tracked.sound.srv_pos listed
  simp only [State.found]
  split
  · rename_i isServer
    obtain ⟨rfl, rfl⟩ := server isServer
    cases read : _srvTimerProc kernel s.stream s.server with
    | none => exact .leave s.server s.stream .crashed not_false
    | some result =>
        obtain ⟨destroy, server', stream⟩ := result
        cases destroy with
        | true => exact .leave (releaseAll server') stream .ended not_false
        | false =>
            simp only [_srvTimerProc] at read
            split at read
            · cases read
            · obtain ⟨clients', change⟩ := tracked.sound.procMessage_change
                (fun fd answer => fresh fd answer) (fun i => s.stream.getD i 0)
              simp only [Option.some_inj, Prod.mk.injEq] at read
              rw [read.2.1] at change
              exact .message event events server' stream clients' loop same.symm change
  · rename_i notServer
    have isClient := client notServer
    obtain ⟨front, back, rfl⟩ := List.append_of_mem isClient
    have turn : Turn srvfd s (front ++ tmr :: back) (s.expired event tmr events) :=
      .expiry event pos events tmr loop isClient same
    rw [← same, tracked.sound.cliTimerProc]
    exact turn

theorem step_turn (tracked : Tracked srvfd s clients) {action : Action}
    (stepped : step s action = some t)
    : Turn srvfd s clients t := by
  unfold step at stepped
  split at stepped
  · obtain rfl := Option.some.inj stepped
    exact .proceed _ s.loop { tracked with }
  · rename_i events loop
    split at stepped
    · rename_i ready
      obtain rfl := Option.some.inj stepped
      exact .proceed s.stream (.batch events) (tracked.epollWait ready)
    · cases stepped
  · obtain rfl := Option.some.inj stepped
    exact .leave (releaseAll s.server) s.stream .ended not_false
  · obtain rfl := Option.some.inj stepped
    exact .proceed s.stream .waiting
      (tracked.proceed (List.nil_sublist _) (List.nil_subset _))
  · rename_i event events loop
    obtain rfl := Option.some.inj stepped
    refine .proceed s.stream (.searching event 0 events) (tracked.proceed ?_ ?_)
    · rw [loop]
      exact List.Sublist.refl _
    · rw [loop]
      exact List.Subset.refl _
  · rename_i event pos events kernel loop
    split at stepped
    · rename_i fresh
      have rest : (Loop.searching event (pos + 1) events).untouched ⊆ s.loop.untouched := by
        rw [loop]
        cases pos with
        | zero => exact List.subset_cons_self event events
        | succ pos => exact List.Subset.refl _
      split at stepped
      · obtain rfl := Option.some.inj stepped
        refine .proceed s.stream (.batch events) (tracked.proceed ?_ rest)
        rw [loop]
        exact List.sublist_cons_self event events
      · rename_i tmr listed
        split at stepped
        · rename_i same
          obtain rfl := Option.some.inj stepped
          exact found_turn tracked fresh loop listed same
        · obtain rfl := Option.some.inj stepped
          refine .proceed s.stream (.searching event (pos + 1) events)
            (tracked.proceed ?_ rest)
          rw [loop]
          exact List.Sublist.refl _
    · cases stepped
  · cases stepped

/-- After the end of the thread only the application writes. -/
theorem step_ended (ended : ¬s.loop.Running) {action : Action} (stepped : step s action = some t)
    : t.server = s.server ∧ t.loop = s.loop ∧ t.registered = s.registered ∧ t.fired = s.fired := by
  unfold step at stepped
  split at stepped
  · obtain rfl := Option.some.inj stepped
    exact ⟨rfl, rfl, rfl, rfl⟩
  all_goals first
    | cases stepped; done
    | rename_i loop
      exact absurd (by rw [loop]; trivial) ended

theorem Turn.invariant (turn : Turn srvfd s clients t) (tracked : Tracked srvfd s clients)
    (history : History s)
    : Invariant srvfd t := by
  cases turn with
  | proceed stream loop tracked' => exact ⟨history.same, fun _ => ⟨clients, tracked'⟩⟩
  | leave server stream loop ended => exact ⟨history.same, fun running => absurd running ended⟩
  | message event events server stream clients' loop atServer change =>
      exact ⟨history.changed tracked change,
        fun _ => ⟨clients', tracked.changed loop atServer change stream⟩⟩
  | expiry event pos events tmr loop client same =>
      obtain ⟨clients', tracked', _⟩ := tracked.expired loop client same
      exact ⟨history.expired tracked loop client same, fun _ => ⟨clients', tracked'⟩⟩

theorem Invariant.step (invariant : Invariant srvfd s) {action : Action}
    (stepped : step s action = some t)
    : Invariant srvfd t := by
  obtain ⟨history, live⟩ := invariant
  by_cases running : s.loop.Running
  · obtain ⟨clients, tracked⟩ := live running
    exact (step_turn tracked stepped).invariant tracked history
  · obtain ⟨_, loop, registered, fired⟩ := step_ended running stepped
    refine ⟨⟨fired ▸ history.current, ?_⟩, fun running' => absurd (loop ▸ running') running⟩
    intro reg member repeats
    rw [registered] at member
    rw [State.handled, fired]
    exact history.bounded reg member repeats

theorem run_invariant {actions : List Action}
    (ran : Transition.run step (State.initial srvfd) actions = some s)
    : Invariant srvfd s :=
  Transition.run_invariant (fun invariant stepped => Invariant.step invariant stepped)
    (invariant_initial srvfd) ran

-----------------------------------------------------------------------------------------
-- After a cancel
-----------------------------------------------------------------------------------------

/-- The timer is not registered any more, and so many of its expiries have been handled. -/
def Stopped (inst handled : Nat) (s : State) : Prop :=
  s.handled inst = handled
  ∧ (s.loop.Running
    → inst ≤ s.server.created ∧ inst ∉ s.server.liSock.map Timer.inst)

/-- A timer that has not been registered yet, or not any more, does not come back. -/
theorem Change.unlisted {s t : Server} {clients clients' : List Timer}
    (change : Change s clients t clients') {inst : Nat}
    (created : inst ≤ s.created) (unlisted : inst ∉ s.liSock.map Timer.inst)
    : inst ≤ t.created ∧ inst ∉ t.liSock.map Timer.inst := by
  cases change with
  | unchanged => exact ⟨created, unlisted⟩
  | spent => exact ⟨Nat.le_succ_of_le created, unlisted⟩
  | register fd sec ms repeats cb unused unknown =>
      refine ⟨Nat.le_succ_of_le created, ?_⟩
      rw [Server.withClient, List.map_append, List.mem_append]
      rintro (old | new)
      · exact unlisted old
      · have newest : inst = s.created + 1 := List.mem_singleton.mp new
        omega
  | remove front back tmr split =>
      exact ⟨created, fun listed => unlisted ((List.eraseP_sublist.map Timer.inst).subset listed)⟩

theorem Stopped.turn {inst handled : Nat} (stopped : Stopped inst handled s)
    (running : s.loop.Running) (tracked : Tracked srvfd s clients)
    (turn : Turn srvfd s clients t)
    : Stopped inst handled t := by
  obtain ⟨same, gone⟩ := stopped
  obtain ⟨created, unlisted⟩ := gone running
  cases turn with
  | proceed stream loop tracked' => exact ⟨same, fun _ => ⟨created, unlisted⟩⟩
  | leave server stream loop ended => exact ⟨same, fun running' => absurd running' ended⟩
  | message event events server stream clients' loop atServer change =>
      exact ⟨same, fun _ => change.unlisted created unlisted⟩
  | expiry event pos events tmr loop client sameFd =>
      have listed := tracked.sound.mem_liSock.mpr (Or.inr client)
      have other : tmr.inst ≠ inst := fun here => unlisted (here ▸ List.mem_map_of_mem listed)
      obtain ⟨front, back, rfl⟩ := List.append_of_mem client
      obtain ⟨clients', after, fewer, _, _, _, created', _⟩ := tracked.sound.expired
      refine ⟨?_, fun _ => ⟨created'.symm ▸ created, ?_⟩⟩
      · rw [State.handled_expired, if_neg other]
        exact same
      · intro isListed
        obtain ⟨t, member, here⟩ := List.mem_map.mp isListed
        refine unlisted (here ▸ List.mem_map_of_mem (tracked.sound.mem_liSock.mpr ?_))
        rcases after.mem_liSock.mp member with isServer | isClient
        · exact Or.inl isServer
        · exact Or.inr (fewer t isClient (here.trans_ne other.symm))

/-- Once a timer is gone, none of its expiries is handled in any later run. -/
theorem Stopped.run {inst handled : Nat} (stopped : Stopped inst handled s)
    (invariant : Invariant srvfd s) {actions : List Action}
    (ran : Transition.run step s actions = some t)
    : Stopped inst handled t := by
  have kept {s t : State} {action : Action}
      (both : Invariant srvfd s ∧ Stopped inst handled s) (stepped : step s action = some t)
      : Invariant srvfd t ∧ Stopped inst handled t := by
    obtain ⟨invariant, stopped⟩ := both
    refine ⟨invariant.step stepped, ?_⟩
    by_cases running : s.loop.Running
    · obtain ⟨clients, tracked⟩ := invariant.2 running
      exact stopped.turn running tracked (step_turn tracked stepped)
    · obtain ⟨_, loop, _, fired⟩ := step_ended running stepped
      refine ⟨?_, fun running' => absurd (loop ▸ running') running⟩
      rw [State.handled, fired]
      exact stopped.1
  exact (Transition.run_invariant kept ⟨invariant, stopped⟩ ran).2

/-- A cancel that the server reads takes its timer off the list. -/
theorem stopped_cancel (tracked : Tracked srvfd s clients) {tmr : Timer}
    (client : tmr ∈ clients) {event : Event} {pos : Nat} {events : List Event}
    (loop : s.loop = .searching event pos events) {node : Timer}
    (listed : s.server.liSock[pos]? = some node) (isServer : node.srv = true)
    (same : node.fd = event.fd) {buf : Mem} {rest : List UInt8}
    (stream : s.stream = (Call.clTimerCancel tmr.cb).message buf ++ rest) {kernel : Kernel}
    (stepped : step s (.search kernel) = some t)
    : Stopped tmr.inst (s.handled tmr.inst) t := by
  have created := tracked.sound.inst_le tmr (tracked.sound.mem_liSock.mpr (Or.inr client))
  simp only [step, loop] at stepped
  split at stepped
  · simp only [listed, if_pos same, State.found, if_pos isServer, stream,
      _srvTimerProc_message, Call.serve, Option.some_inj] at stepped
    subst stepped
    rcases tracked.sound.rmvTimer_cases tmr.cb with
      ⟨unknown, _⟩ | ⟨front, tmr', back, rfl, sameCb, removed⟩
    · exact absurd rfl (unknown tmr client)
    · have isSame : tmr' = tmr := by
        have listed' : tmr' ∈ s.server.liSock :=
          tracked.sound.mem_liSock.mpr (Or.inr (List.mem_append_right _ List.mem_cons_self))
        exact List.inj_on_of_nodup_map tracked.sound.cbs listed'
          (tracked.sound.mem_liSock.mpr (Or.inr client)) sameCb
      subst isSame
      refine ⟨rfl, fun _ => ?_⟩
      rw [removed]
      refine ⟨created, ?_⟩
      intro isListed
      obtain ⟨t, member, here⟩ := List.mem_map.mp isListed
      rw [tracked.sound.liSock_without] at member
      exact (tracked.sound.other_nodes t member).2.1 here
  · cases stepped

/-- In every run of the timer thread a callback is called for expiries of its own timer only.
A timer registered with `n` repeats has at most `n`, and is taken off the list exactly with the
last of them; one with `0` repeats never is. A timer whose cancel has been read is never called
again.
-/
theorem timers_fire (srvfd : Nat) (actions : List Action) (s : State)
    (ran : Transition.run step (State.initial srvfd) actions = some s)
    : (∀ firing ∈ s.fired, firing.event.inst = some firing.tmr.inst)
      ∧ (∀ reg ∈ s.registered, reg.repeats ≠ 0 → s.handled reg.inst ≤ reg.repeats.toNat)
      ∧ (∀ action t,
          step s action = some t
            → t.fired = s.fired
              ∨ ∃ event tmr reg,
                t.fired = s.fired ++ [⟨event, tmr⟩]
                ∧ tmr ∈ s.server.liSock
                ∧ tmr.srv = false
                ∧ tmr.cb ≠ 0
                ∧ event.inst = some tmr.inst
                ∧ reg ∈ s.registered
                ∧ reg = { tmr with repeats := reg.repeats }
                ∧ (tmr.inst ∉ t.server.liSock.map Timer.inst
                  ↔ reg.repeats ≠ 0 ∧ t.handled tmr.inst = reg.repeats.toNat)
                ∧ ∀ other ∈ s.server.liSock,
                  other.inst ≠ tmr.inst → other ∈ t.server.liSock)
      ∧ ∀ tmr ∈ s.server.liSock,
        tmr.srv = false
          → ∀ event pos events node buf rest kernel t,
            s.loop = .searching event pos events
              → s.server.liSock[pos]? = some node
              → node.srv = true
              → node.fd = event.fd
              → s.stream = (Call.clTimerCancel tmr.cb).message buf ++ rest
              → step s (.search kernel) = some t
              → ∀ later u,
                Transition.run step t later = some u
                  → u.handled tmr.inst = s.handled tmr.inst := by
  have invariant := run_invariant ran
  obtain ⟨history, live⟩ := invariant
  refine ⟨history.current, history.bounded, ?_, ?_⟩
  · intro action t stepped
    by_cases running : s.loop.Running
    · obtain ⟨clients, tracked⟩ := live running
      cases step_turn tracked stepped with
      | proceed stream loop _ => exact Or.inl rfl
      | leave server stream loop _ => exact Or.inl rfl
      | message event events server stream clients' loop atServer change => exact Or.inl rfl
      | expiry event pos events tmr loop client same =>
          obtain ⟨clients', tracked', stays, kept⟩ := tracked.expired loop client same
          obtain ⟨reg, registered, isReg, remains⟩ := tracked.counts tmr client
          have listed := tracked.sound.mem_liSock.mpr (Or.inr client)
          obtain ⟨hasCb, numbered⟩ := tracked.sound.client_ne_srvNode client
          refine Or.inr ⟨event, tmr, reg, rfl, listed, tracked.sound.isClient tmr client, hasCb,
            tracked.event_inst loop client same, registered, isReg, ?_, ?_⟩
          · have stillListed : tmr.inst ∈ (s.expired event tmr events).server.liSock.map Timer.inst
                ↔ tmr.repeats ≠ 1 := by
              rw [tracked'.sound.liSock, List.map_cons, List.mem_cons, ← stays]
              exact or_iff_right numbered
            rw [stillListed, not_not, State.handled_expired, if_pos rfl]
            constructor
            · intro one
              rw [one] at remains
              exact remains.last
            · intro used
              by_contra more
              exact (remains.next more).2 used
          · intro other isListed differs
            rw [tracked'.sound.liSock]
            rcases tracked.sound.mem_liSock.mp isListed with rfl | isClient
            · exact List.mem_cons_self
            · exact List.mem_cons_of_mem _ (kept other isClient differs)
    · obtain ⟨_, _, _, fired⟩ := step_ended running stepped
      exact Or.inl fired
  · intro tmr listed isClient event pos events node buf rest kernel t loop atPos isServer same
      stream stepped later u ran'
    have running : s.loop.Running := by
      rw [loop]
      trivial
    obtain ⟨clients, tracked⟩ := live running
    have client : tmr ∈ clients := by
      rcases tracked.sound.mem_liSock.mp listed with rfl | client
      · cases isClient
      · exact client
    have stopped := stopped_cancel tracked client loop atPos isServer same stream stepped
    exact (stopped.run (run_invariant ran |>.step stepped) ran').1

/-- A timer for one expiry, from its message to its end. -/
theorem timers_fire_once
    : let s := (Transition.run step (State.initial 3)
        [.write ((Call.clTimerSet 0 50 1 77).message fun _ => 0), .epollWait [⟨3, none⟩], .next,
          .search ⟨some 5, true, true⟩, .search ⟨none, true, true⟩, .search ⟨none, true, true⟩,
          .next, .epollWait [⟨5, some 1⟩], .next, .search ⟨none, true, true⟩,
          .search ⟨none, true, true⟩]).get (by decide +kernel)
      s.handled 1 = 1 ∧ ∀ firing ∈ s.fired, firing.event.inst = some firing.tmr.inst :=
  ⟨by decide +kernel, (timers_fire 3 _ _ (Option.some_get _).symm).1⟩

end Libccll.Timers
