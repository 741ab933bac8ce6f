import Libccll.Timers.Firing

/-! The list, the interest list of the epoll instance and the open timer descriptors agree after
every step of the running thread.
-/

namespace Libccll.Timers

open Foundation

/-- Nothing but the clients is open or watched, and there are at most 100 of them. -/
structure Accounted (srvfd : Nat) (s : Server) (clients : List Timer) : Prop where
  sound : Sound srvfd s clients
  bounded : clients.length ≤ maxTimerCnt
  opened : ∀ fd timerfd, s.timerfds fd = some timerfd → fd ∈ clients.map Timer.fd
  watched : ∀ fd, s.epoll fd = true → fd = srvfd ∨ fd ∈ clients.map Timer.fd

theorem accounted_initial (srvfd : Nat) : Accounted srvfd (initial srvfd) [] := by
  refine ⟨sound_initial srvfd, Nat.zero_le _, nofun, fun fd watched => Or.inl ?_⟩
  simpa [initial] using watched

variable {srvfd : Nat} {s : Server} {clients : List Timer}

theorem Accounted.withClient (accounted : Accounted srvfd s clients) {fd : Nat}
    (unused : s.Unused fd) (room : s.liSock.length ≤ maxTimerCnt) (sec ms : UInt16)
    (repeats : UInt32) {cb : UInt64} (unknown : ∀ tmr ∈ s.liSock, tmr.cb ≠ cb)
    : Accounted srvfd (s.withClient fd sec ms repeats cb)
        (clients ++ [s.newest fd repeats cb]) := by
  have length : s.liSock.length = clients.length + 1 := by
    rw [accounted.sound.liSock, List.length_cons]
  have listed (other : Nat)
      : other ∈ (clients ++ [s.newest fd repeats cb]).map Timer.fd
        ↔ other ∈ clients.map Timer.fd ∨ other = fd := by
    rw [List.map_append, List.mem_append, List.map_singleton, List.mem_singleton]
    rfl
  refine ⟨accounted.sound.withClient unused sec ms repeats unknown, ?_, ?_, ?_⟩
  · rw [List.length_append, List.length_singleton]
    omega
  · intro other timerfd isOpen
    rw [listed]
    rcases eq_or_ne other fd with rfl | apart
    · exact Or.inr rfl
    · simp only [Server.withClient, Function.update_of_ne apart] at isOpen
      exact Or.inl (accounted.opened other timerfd isOpen)
  · intro other isWatched
    rw [listed]
    rcases eq_or_ne other fd with rfl | apart
    · exact Or.inr (Or.inr rfl)
    · simp only [Server.withClient, Function.update_of_ne apart] at isWatched
      exact (accounted.watched other isWatched).imp_right Or.inl

theorem Accounted.without {front back : List Timer} {tmr : Timer}
    (accounted : Accounted srvfd s (front ++ tmr :: back))
    : Accounted srvfd (s.without tmr) (front ++ back) := by
  have remains {fd : Nat} (apart : fd ≠ tmr.fd)
      (listed : fd ∈ (front ++ tmr :: back).map Timer.fd)
      : fd ∈ (front ++ back).map Timer.fd := by
    simp only [List.map_append, List.map_cons, List.mem_append, List.mem_cons, apart,
      false_or] at listed ⊢
    exact listed
  refine ⟨accounted.sound.without, ?_, ?_, ?_⟩
  · have bounded := accounted.bounded
    rw [List.length_append, List.length_cons] at bounded
    rw [List.length_append]
    omega
  · intro fd timerfd isOpen
    rcases eq_or_ne fd tmr.fd with rfl | apart
    · cases (Function.update_self ..).symm.trans isOpen
    · simp only [Server.without, Function.update_of_ne apart] at isOpen
      exact remains apart (accounted.opened fd timerfd isOpen)
  · intro fd isWatched
    rcases eq_or_ne fd tmr.fd with rfl | apart
    · cases (Function.update_self ..).symm.trans isWatched
    · simp only [Server.without, Function.update_of_ne apart] at isWatched
      exact (accounted.watched fd isWatched).imp_right (remains apart)

theorem Accounted.counted {front back : List Timer} {tmr : Timer}
    (accounted : Accounted srvfd s (front ++ tmr :: back))
    : Accounted srvfd (s.counted tmr)
        (front ++ { tmr with repeats := tmr.repeats - 1 } :: back) := by
  have fds : (front ++ { tmr with repeats := tmr.repeats - 1 } :: back).map Timer.fd
      = (front ++ tmr :: back).map Timer.fd := by
    simp only [List.map_append, List.map_cons]
  refine ⟨accounted.sound.counted, ?_, fds ▸ accounted.opened, fds ▸ accounted.watched⟩
  have bounded := accounted.bounded
  rw [List.length_append, List.length_cons] at bounded ⊢
  exact bounded

-----------------------------------------------------------------------------------------
-- A message, an expiry
-----------------------------------------------------------------------------------------

theorem Accounted.addTimer (accounted : Accounted srvfd s clients) {kernel : Kernel}
    (fresh : kernel.Fresh s) (sec ms : UInt16) (repeats : UInt32) (cb : UInt64)
    : ∃ clients', Accounted srvfd (_addTimer kernel sec ms repeats cb s) clients' := by
  rcases accounted.sound.addTimer_cases (fun fd answer => fresh fd answer) sec ms repeats cb with
    same | spent | ⟨fd, unused, unknown, room, added⟩
  · exact ⟨clients, same.symm ▸ accounted⟩
  · rw [spent]
    exact ⟨clients, { accounted with sound := accounted.sound.change .spent }⟩
  · rw [added]
    exact ⟨_, accounted.withClient unused room sec ms repeats unknown⟩

theorem Accounted.rmvTimer (accounted : Accounted srvfd s clients) (cb : UInt64)
    : ∃ clients', Accounted srvfd (_rmvTimer cb s) clients' := by
  rcases accounted.sound.rmvTimer_cases cb with ⟨_, same⟩ | ⟨front, tmr, back, rfl, _, removed⟩
  · exact ⟨clients, same.symm ▸ accounted⟩
  · exact ⟨front ++ back, removed ▸ accounted.without⟩

theorem Accounted.procMessage (accounted : Accounted srvfd s clients) {kernel : Kernel}
    (fresh : kernel.Fresh s) (buf : Mem)
    : ∃ clients', Accounted srvfd (procMessage kernel buf s).2 clients' := by
  simp only [Timers.procMessage]
  split
  · exact ⟨clients, accounted⟩
  · split
    · exact ⟨clients, accounted⟩
    · split
      · exact accounted.addTimer fresh ..
      · exact accounted.rmvTimer _
      · exact ⟨clients, accounted⟩
      · exact ⟨clients, accounted⟩

/-- An expiry on any descriptor. -/
theorem Accounted.cliTimerProc (accounted : Accounted srvfd s clients) (fd : Nat)
    : ∃ clients', Accounted srvfd (_cliTimerProc fd s).2 clients' := by
  by_cases member : fd ∈ clients.map Timer.fd
  · obtain ⟨tmr, client, rfl⟩ := List.mem_map.mp member
    obtain ⟨front, back, rfl⟩ := List.append_of_mem client
    rw [accounted.sound.cliTimerProc]
    dsimp only
    split
    · exact ⟨_, accounted.counted⟩
    · split
      · exact ⟨_, accounted.without⟩
      · exact ⟨_, accounted⟩
  · have none : s.liSock.find? (fun tmr => ¬(tmr.srv = true ∨ tmr.fd ≠ fd)) = none := by
      rw [List.find?_eq_none]
      intro tmr listed found
      rcases accounted.sound.mem_liSock.mp listed with rfl | client
      · simp [srvNode] at found
      · have same : tmr.fd = fd := by
          simp only [decide_eq_true_eq, not_or, not_not] at found
          exact found.2
        exact member (same ▸ List.mem_map_of_mem client)
    refine ⟨clients, ?_⟩
    simp only [_cliTimerProc, none]
    exact accounted

/-- An `_add_timer` that fails at the kernel leaves everything as it was. -/
theorem Sound.addTimer_failed (sound : Sound srvfd s clients) {kernel : Kernel}
    (fresh : kernel.Fresh s) (refuses : kernel.Refuses) (sec ms : UInt16) (repeats : UInt32)
    (cb : UInt64)
    : (_addTimer kernel sec ms repeats cb s).liSock = s.liSock
      ∧ (_addTimer kernel sec ms repeats cb s).timerfds = s.timerfds
      ∧ (_addTimer kernel sec ms repeats cb s).epoll = s.epoll := by
  simp only [_addTimer]
  split
  · exact ⟨rfl, rfl, rfl⟩
  · split
    · exact ⟨rfl, rfl, rfl⟩
    · rcases _creCliNode_failed sound (fun fd answer => fresh fd answer) refuses sec ms repeats cb
        with same | spent
      · rw [same]
        exact ⟨rfl, rfl, rfl⟩
      · rw [spent]
        exact ⟨rfl, rfl, rfl⟩

-----------------------------------------------------------------------------------------
-- Runs
-----------------------------------------------------------------------------------------

/-- What a step that does not end the thread does to the server: nothing, or what a message or an
expiry asks for.
-/
theorem step_server {s t : State} {action : Action} (stepped : step s action = some t)
    (running : t.loop.Running)
    : t.server = s.server
      ∨ (∃ kernel buf,
        kernel.Fresh s.server ∧ t.server = (procMessage kernel buf s.server).2)
      ∨ ∃ fd, t.server = (_cliTimerProc fd s.server).2 := by
  unfold step at stepped
  split at stepped
  · obtain rfl := Option.some.inj stepped
    exact Or.inl rfl
  · split at stepped
    · obtain rfl := Option.some.inj stepped
      exact Or.inl rfl
    · cases stepped
  · obtain rfl := Option.some.inj stepped
    exact running.elim
  · obtain rfl := Option.some.inj stepped
    exact Or.inl rfl
  · obtain rfl := Option.some.inj stepped
    exact Or.inl rfl
  · rename_i event pos events kernel loop
    split at stepped
    · rename_i fresh
      split at stepped
      · obtain rfl := Option.some.inj stepped
        exact Or.inl rfl
      · rename_i tmr listed
        split at stepped
        · obtain rfl := Option.some.inj stepped
          refine Or.inr ?_
          unfold State.found at running ⊢
          split
          · rename_i isServer
            rw [if_pos isServer] at running
            refine Or.inl ⟨kernel, fun i => s.stream.getD i 0, fresh, ?_⟩
            simp only [_srvTimerProc] at running ⊢
            split at running
            · exact running.elim
            · exact running.elim
            · rename_i server stream read
              split at read
              · cases read
              · obtain ⟨-, rfl, -⟩ := Prod.mk.inj (Option.some.inj read)
                rfl
          · exact Or.inr ⟨event.fd, rfl⟩
        · obtain rfl := Option.some.inj stepped
          exact Or.inl rfl
    · cases stepped
  · cases stepped

/-- Until the thread ends, the books are right. -/
def State.Accounted (srvfd : Nat) (s : State) : Prop :=
  s.loop.Running → ∃ clients, Timers.Accounted srvfd s.server clients

theorem State.Accounted.step {srvfd : Nat} {s t : State} {action : Action}
    (kept : s.Accounted srvfd) (stepped : step s action = some t)
    : t.Accounted srvfd := by
  intro running
  have before : s.loop.Running := by
    by_contra ended
    exact ended ((step_ended ended stepped).2.1 ▸ running)
  obtain ⟨clients, accounted⟩ := kept before
  rcases step_server stepped running with same | ⟨kernel, buf, fresh, read⟩ | ⟨fd, expired⟩
  · exact ⟨clients, same ▸ accounted⟩
  · exact read ▸ accounted.procMessage fresh buf
  · exact expired ▸ accounted.cliTimerProc fd

theorem run_accounted {srvfd : Nat} {actions : List Action} {s : State}
    (ran : Transition.run step (State.initial srvfd) actions = some s)
    : s.Accounted srvfd :=
  Transition.run_invariant (fun kept stepped => State.Accounted.step kept stepped)
    (fun _ => ⟨[], accounted_initial srvfd⟩) ran

/-- While the thread runs, the server node is the first one, all others are clients with
descriptors and callbacks of their own, and theirs are the timers that are open, and watched. An
`_add_timer` that the kernel fails leaves all that as it was.
-/
theorem clients_accounted (srvfd : Nat) (actions : List Action) (s : State)
    (ran : Transition.run step (State.initial srvfd) actions = some s) (running : s.loop.Running)
    : (∃ clients,
        s.server.liSock = srvNode srvfd :: clients
        ∧ (∀ tmr ∈ clients, tmr.srv = false ∧ tmr.cb ≠ 0)
        ∧ (clients.map Timer.fd).Nodup
        ∧ (clients.map Timer.cb).Nodup
        ∧ clients.length ≤ 100
        ∧ (∀ fd, fd ∈ clients.map Timer.fd ↔ s.server.timerfds fd ≠ none)
        ∧ ∀ fd, fd ∈ clients.map Timer.fd ↔ s.server.epoll fd = true ∧ fd ≠ srvfd)
      ∧ ∀ kernel sec ms repeats cb,
        kernel.Fresh s.server
          → kernel.Refuses
          → (_addTimer kernel sec ms repeats cb s.server).liSock = s.server.liSock
            ∧ (_addTimer kernel sec ms repeats cb s.server).timerfds = s.server.timerfds
            ∧ (_addTimer kernel sec ms repeats cb s.server).epoll = s.server.epoll := by
  obtain ⟨clients, accounted⟩ := run_accounted ran running
  have sound := accounted.sound
  have fds := sound.fds
  have cbs := sound.cbs
  rw [sound.liSock, List.map_cons, List.nodup_cons] at fds cbs
  refine ⟨⟨clients, sound.liSock, ?_, fds.2, cbs.2, accounted.bounded, ?_, ?_⟩, ?_⟩
  · exact fun tmr client => ⟨sound.isClient tmr client, (sound.client_ne_srvNode client).1⟩
  · intro fd
    constructor
    · intro listed closed
      obtain ⟨tmr, client, rfl⟩ := List.mem_map.mp listed
      obtain ⟨its, isOpen⟩ := (sound.timers tmr client).2
      cases isOpen.symm.trans closed
    · intro isOpen
      obtain ⟨timerfd, isOpen⟩ := Option.ne_none_iff_exists'.mp isOpen
      exact accounted.opened fd timerfd isOpen
  · intro fd
    constructor
    · intro listed
      obtain ⟨tmr, client, rfl⟩ := List.mem_map.mp listed
      exact ⟨(sound.timers tmr client).1, fun same => fds.1 (same ▸ listed)⟩
    · rintro ⟨isWatched, apart⟩
      exact (accounted.watched fd isWatched).resolve_left apart
  · intro kernel sec ms repeats cb fresh refuses
    exact sound.addTimer_failed fresh refuses sec ms repeats cb

instance (loop : Loop) : Decidable loop.Running := by
  unfold Loop.Running
  split <;> infer_instance

/-- A timer is set, and a second one cannot be started. -/
theorem clients_accounted_refused
    : let s := (Transition.run step (State.initial 3)
        [.write ((Call.clTimerSet 1 500 2 77).message fun _ => 0), .epollWait [⟨3, none⟩], .next,
          .search ⟨some 5, true, true⟩, .search ⟨none, true, true⟩, .search ⟨none, true, true⟩,
          .write ((Call.clTimerSet 1 500 2 78).message fun _ => 0), .next, .epollWait [⟨3, none⟩],
          .next, .search ⟨some 6, true, false⟩]).get (by decide +kernel)
      (∃ clients, s.server.liSock = srvNode 3 :: clients ∧ clients.length ≤ 100)
        ∧ (_addTimer ⟨some 6, true, false⟩ 1 500 2 79 s.server).liSock = s.server.liSock := by
  intro s
  have accounted := clients_accounted 3 _ s (Option.some_get _).symm (by decide +kernel)
  obtain ⟨clients, listed, -, -, -, bounded, -⟩ := accounted.1
  exact ⟨⟨clients, listed, bounded⟩, (accounted.2 _ _ _ _ _ (by decide +kernel) (by decide)).1⟩

end Libccll.Timers
