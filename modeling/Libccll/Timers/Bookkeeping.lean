import Mathlib.Data.List.Nodup
import Libccll.Timers.Server

/-! The list of the server and the descriptors behind it stay in step, whatever the kernel
answers.
-/

namespace Libccll.Timers

/-- Behind the server node there are clients only; descriptors, numbers and callbacks are
distinct, and every client has the open timer of its number.
-/
structure Sound (srvfd : Nat) (s : Server) (clients : List Timer) : Prop where
  liSock : s.liSock = srvNode srvfd :: clients
  isClient : ∀ tmr ∈ clients, tmr.srv = false
  fds : (s.liSock.map Timer.fd).Nodup
  insts : (s.liSock.map Timer.inst).Nodup
  cbs : (s.liSock.map Timer.cb).Nodup
  timers
    : ∀ tmr ∈ clients,
        s.epoll tmr.fd = true ∧ ∃ its, s.timerfds tmr.fd = some ⟨tmr.inst, its⟩
  srvOpen : s.epoll srvfd = true ∧ s.timerfds srvfd = none
  numbered : ∀ fd timerfd, s.timerfds fd = some timerfd → timerfd.inst ≤ s.created

theorem sound_initial (srvfd : Nat) : Sound srvfd (initial srvfd) [] := by
  constructor <;> simp [initial, srvNode, _creNode]

variable {srvfd : Nat} {s : Server} {clients : List Timer}

theorem Sound.mem_liSock (sound : Sound srvfd s clients) {tmr : Timer}
    : tmr ∈ s.liSock ↔ tmr = srvNode srvfd ∨ tmr ∈ clients := by
  rw [sound.liSock, List.mem_cons]

/-- A client has a callback, and a number that is not the one of the server node. -/
theorem Sound.client_ne_srvNode (sound : Sound srvfd s clients) {tmr : Timer}
    (client : tmr ∈ clients)
    : tmr.cb ≠ 0 ∧ tmr.inst ≠ 0 := by
  have cbs := sound.cbs
  have insts := sound.insts
  rw [sound.liSock, List.map_cons] at cbs insts
  exact ⟨fun null => (List.nodup_cons.mp cbs).1 (List.mem_map.mpr ⟨tmr, client, null⟩),
    fun zero => (List.nodup_cons.mp insts).1 (List.mem_map.mpr ⟨tmr, client, zero⟩)⟩

/-- No node of the list has a descriptor that is not open. -/
theorem Sound.fd_ne_unused (sound : Sound srvfd s clients) {fd : Nat} (unused : s.Unused fd)
    : ∀ tmr ∈ s.liSock, tmr.fd ≠ fd := by
  intro tmr member same
  rcases sound.mem_liSock.mp member with rfl | isClient
  · have isOpen : s.epoll fd = true := same ▸ sound.srvOpen.1
    rw [unused.2] at isOpen
    cases isOpen
  · have isOpen := (sound.timers tmr isClient).1
    rw [same, unused.2] at isOpen
    cases isOpen

theorem Sound.inst_le (sound : Sound srvfd s clients)
    : ∀ tmr ∈ s.liSock, tmr.inst ≤ s.created := by
  intro tmr member
  rcases sound.mem_liSock.mp member with rfl | isClient
  · exact Nat.zero_le _
  · obtain ⟨its, isOpen⟩ := (sound.timers tmr isClient).2
    exact sound.numbered _ _ isOpen

-----------------------------------------------------------------------------------------
-- Registration
-----------------------------------------------------------------------------------------

/-- The node of a new registration. -/
def Server.newest (s : Server) (fd : Nat) (repeats : UInt32) (cb : UInt64) : Timer where
  srv := false
  fd
  repeats
  cb
  inst := s.created + 1

/-- The server with one more client, its timer running. -/
def Server.withClient (s : Server) (fd : Nat) (sec ms : UInt16) (repeats : UInt32)
    (cb : UInt64)
    : Server where
  liSock := s.liSock ++ [s.newest fd repeats cb]
  timerfds := Function.update s.timerfds fd (some ⟨s.created + 1, itimerspec sec ms⟩)
  epoll := Function.update s.epoll fd true
  created := s.created + 1

theorem _creCliNode_success (fd : Nat) (sec ms : UInt16) (repeats : UInt32) (cb : UInt64)
    (s : Server)
    : _creCliNode ⟨some fd, true, true⟩ sec ms repeats cb s
      = (.succ, s.withClient fd sec ms repeats cb) := by
  simp only [_creCliNode, Bool.true_eq_false, if_false, timerfdSettime, Server.setTimerFd,
    listAdd, _creNode, Function.update_self, Function.update_idem, Option.map_some,
    Server.withClient, Server.newest]

/-- A new client that could not be watched or started is gone without a trace. -/
theorem close_listDel_listAdd (sound : Sound srvfd s clients) {fd : Nat} (unused : s.Unused fd)
    (repeats : UInt32) (cb : UInt64) (timerfd : TimerFd) (watched : Bool)
    : close fd (listDel (s.newest fd repeats cb) {
          liSock := s.liSock ++ [s.newest fd repeats cb]
          timerfds := Function.update s.timerfds fd (some timerfd)
          epoll := Function.update s.epoll fd watched
          created := s.created + 1
        })
      = { s with created := s.created + 1 } := by
  have others : ∀ tmr ∈ s.liSock, ¬(decide (tmr.inst = s.created + 1) = true) := by
    intro tmr member same
    have numbered := sound.inst_le tmr member
    rw [decide_eq_true_eq] at same
    omega
  have erased : (s.liSock ++ [s.newest fd repeats cb]).eraseP (·.inst = s.created + 1)
      = s.liSock := by
    rw [List.eraseP_append_right _ others, List.eraseP_cons_of_pos (by simp [Server.newest]),
      List.append_nil]
  have timerfds : Function.update s.timerfds fd none = s.timerfds := by
    rw [← unused.1, Function.update_eq_self]
  have epoll : Function.update s.epoll fd false = s.epoll := by
    rw [← unused.2, Function.update_eq_self]
  simp only [close, listDel, _epollDel, Server.setTimerFd, Function.update_idem]
  rw [timerfds, epoll]
  congr 1

/-- The kernel refuses one of the calls. -/
def Kernel.Refuses (kernel : Kernel) : Prop :=
  kernel.timerfdCreate = none ∨ kernel.epollAdd = false ∨ kernel.timerfdSettime = false

instance (kernel : Kernel) : Decidable kernel.Refuses :=
  inferInstanceAs (Decidable (_ ∨ _ ∨ _))

/-- A registration that fails leaves nothing but a number that may be used up. -/
theorem _creCliNode_failed (sound : Sound srvfd s clients) {kernel : Kernel}
    (fresh : ∀ fd, kernel.timerfdCreate = some fd → s.Unused fd) (refuses : kernel.Refuses)
    (sec ms : UInt16) (repeats : UInt32) (cb : UInt64)
    : (_creCliNode kernel sec ms repeats cb s).2 = s
      ∨ (_creCliNode kernel sec ms repeats cb s).2 = { s with created := s.created + 1 } := by
  obtain ⟨create, epollAdd, settime⟩ := kernel
  cases create with
  | none => exact Or.inl rfl
  | some fd =>
      have unused := fresh fd rfl
      have watchedBefore : Function.update s.epoll fd (s.epoll fd) = s.epoll :=
        Function.update_eq_self ..
      refine Or.inr ?_
      cases epollAdd with
      | false =>
          refine Eq.trans ?_ (close_listDel_listAdd sound unused repeats cb
            ⟨s.created + 1, disarmed⟩ (s.epoll fd))
          rw [watchedBefore]
          rfl
      | true =>
          cases settime with
          | false => exact close_listDel_listAdd sound unused repeats cb _ true
          | true => rcases refuses with none | refused | refused <;> contradiction

/-- A registration leaves a running client, or nothing but a number that is used up. -/
theorem _creCliNode_cases (sound : Sound srvfd s clients) {kernel : Kernel}
    (fresh : ∀ fd, kernel.timerfdCreate = some fd → s.Unused fd) (sec ms : UInt16)
    (repeats : UInt32) (cb : UInt64)
    : (_creCliNode kernel sec ms repeats cb s).2 = s
      ∨ (_creCliNode kernel sec ms repeats cb s).2 = { s with created := s.created + 1 }
      ∨ ∃ fd,
        s.Unused fd
        ∧ (_creCliNode kernel sec ms repeats cb s).2 = s.withClient fd sec ms repeats cb := by
  by_cases refuses : kernel.Refuses
  · exact (_creCliNode_failed sound fresh refuses sec ms repeats cb).imp_right Or.inl
  · obtain ⟨create, epollAdd, settime⟩ := kernel
    simp only [Kernel.Refuses, not_or, Bool.not_eq_false] at refuses
    obtain ⟨created, rfl, rfl⟩ := refuses
    obtain ⟨fd, rfl⟩ := Option.ne_none_iff_exists'.mp created
    exact Or.inr (Or.inr ⟨fd, fresh fd rfl, by rw [_creCliNode_success]⟩)

theorem Sound.withClient (sound : Sound srvfd s clients) {fd : Nat} (unused : s.Unused fd)
    (sec ms : UInt16) (repeats : UInt32) {cb : UInt64} (unknown : ∀ tmr ∈ s.liSock, tmr.cb ≠ cb)
    : Sound srvfd (s.withClient fd sec ms repeats cb) (clients ++ [s.newest fd repeats cb]) := by
  have fresh := sound.fd_ne_unused unused
  have append {β : Type} {f : Timer → β} (distinct : (s.liSock.map f).Nodup)
      (new : ∀ tmr ∈ s.liSock, f tmr ≠ f (s.newest fd repeats cb))
      : ((s.liSock ++ [s.newest fd repeats cb]).map f).Nodup := by
    rw [List.map_append, List.nodup_append]
    refine ⟨distinct, List.nodup_singleton _, ?_⟩
    intro a listed b isNew
    obtain ⟨tmr, member, rfl⟩ := List.mem_map.mp listed
    exact List.mem_singleton.mp isNew ▸ new tmr member
  constructor
  · rw [Server.withClient, sound.liSock, List.cons_append]
  · intro tmr member
    rcases List.mem_append.mp member with old | new
    · exact sound.isClient tmr old
    · rw [List.mem_singleton.mp new]
      rfl
  · exact append sound.fds fresh
  · refine append sound.insts ?_
    intro tmr member
    exact Nat.ne_of_lt (Nat.lt_succ_of_le (sound.inst_le tmr member))
  · exact append sound.cbs unknown
  · intro tmr member
    rcases List.mem_append.mp member with old | new
    · have apart := fresh tmr (sound.mem_liSock.mpr (Or.inr old))
      simp only [Server.withClient, Function.update_of_ne apart]
      exact sound.timers tmr old
    · rw [List.mem_singleton.mp new]
      exact ⟨Function.update_self .., _, Function.update_self ..⟩
  · have apart : srvfd ≠ fd := fresh (srvNode srvfd) (sound.mem_liSock.mpr (Or.inl rfl))
    simp only [Server.withClient, Function.update_of_ne apart]
    exact sound.srvOpen
  · intro other timerfd isOpen
    rcases eq_or_ne other fd with rfl | apart
    · simp only [Server.withClient, Function.update_self, Option.some_inj] at isOpen
      exact isOpen ▸ Nat.le_refl _
    · simp only [Server.withClient, Function.update_of_ne apart] at isOpen
      exact Nat.le_succ_of_le (sound.numbered other timerfd isOpen)

-----------------------------------------------------------------------------------------
-- Removal
-----------------------------------------------------------------------------------------

/-- The server without a client, its descriptor closed. -/
def Server.without (s : Server) (tmr : Timer) : Server where
  liSock := s.liSock.eraseP (·.inst = tmr.inst)
  timerfds := Function.update s.timerfds tmr.fd none
  epoll := Function.update s.epoll tmr.fd false
  created := s.created

theorem listDel_cancelTimerfd (tmr : Timer) (s : Server)
    : listDel tmr (_cancelTimerfd tmr.fd (_epollDel tmr.fd s)) = s.without tmr := by
  simp only [listDel, _cancelTimerfd, close, timerfdSettime, Server.setTimerFd, _epollDel,
    Server.without, Function.update_idem]

/-- The descriptor is closed a second time, to no effect. -/
theorem close_without (tmr : Timer) (s : Server)
    : close tmr.fd (s.without tmr) = s.without tmr := by
  simp only [close, Server.setTimerFd, _epollDel, Server.without, Function.update_idem]

theorem Sound.perm {front back : List Timer} {tmr : Timer}
    (sound : Sound srvfd s (front ++ tmr :: back))
    : s.liSock.Perm (tmr :: srvNode srvfd :: (front ++ back)) := by
  rw [sound.liSock]
  exact (List.Perm.cons _ List.perm_middle).trans (List.Perm.swap _ _ _)

/-- All other nodes differ from a client in everything that identifies it. -/
theorem Sound.other_nodes {front back : List Timer} {tmr : Timer}
    (sound : Sound srvfd s (front ++ tmr :: back))
    : ∀ t ∈ srvNode srvfd :: (front ++ back),
        t.fd ≠ tmr.fd ∧ t.inst ≠ tmr.inst ∧ t.cb ≠ tmr.cb := by
  have fds := List.nodup_cons.mp ((sound.perm.map Timer.fd).nodup_iff.mp sound.fds)
  have insts := List.nodup_cons.mp ((sound.perm.map Timer.inst).nodup_iff.mp sound.insts)
  have cbs := List.nodup_cons.mp ((sound.perm.map Timer.cb).nodup_iff.mp sound.cbs)
  intro t member
  exact ⟨fun same => fds.1 (same ▸ List.mem_map_of_mem member),
    fun same => insts.1 (same ▸ List.mem_map_of_mem member),
    fun same => cbs.1 (same ▸ List.mem_map_of_mem member)⟩

theorem Sound.liSock_without {front back : List Timer} {tmr : Timer}
    (sound : Sound srvfd s (front ++ tmr :: back))
    : (s.without tmr).liSock = srvNode srvfd :: (front ++ back) := by
  have others : ∀ t ∈ srvNode srvfd :: front, ¬(decide (t.inst = tmr.inst) = true) := by
    intro t member same
    refine (sound.other_nodes t ?_).2.1 (of_decide_eq_true same)
    rw [← List.cons_append]
    exact List.mem_append_left back member
  rw [Server.without, sound.liSock, ← List.cons_append,
    List.eraseP_append_right _ others, List.eraseP_cons_of_pos (by simp)]
  rfl

theorem Sound.without {front back : List Timer} {tmr : Timer}
    (sound : Sound srvfd s (front ++ tmr :: back))
    : Sound srvfd (s.without tmr) (front ++ back) := by
  have erased := sound.liSock_without
  have distinct {β : Type} (f : Timer → β) (before : (s.liSock.map f).Nodup)
      : ((s.without tmr).liSock.map f).Nodup :=
    before.sublist (List.eraseP_sublist.map f)
  have remains {t : Timer} (member : t ∈ front ++ back) : t ∈ front ++ tmr :: back := by
    rcases List.mem_append.mp member with inFront | inBack
    · exact List.mem_append_left _ inFront
    · exact List.mem_append_right _ (List.mem_cons_of_mem tmr inBack)
  constructor
  · exact erased
  · exact fun t member => sound.isClient t (remains member)
  · exact distinct Timer.fd sound.fds
  · exact distinct Timer.inst sound.insts
  · exact distinct Timer.cb sound.cbs
  · intro t member
    have other := (sound.other_nodes t (List.mem_cons_of_mem _ member)).1
    simp only [Server.without, Function.update_of_ne other]
    exact sound.timers t (remains member)
  · have other : srvfd ≠ tmr.fd := (sound.other_nodes _ List.mem_cons_self).1
    simp only [Server.without, Function.update_of_ne other]
    exact sound.srvOpen
  · intro fd timerfd isOpen
    rcases eq_or_ne fd tmr.fd with rfl | other
    · cases (Function.update_self ..).symm.trans isOpen
    · simp only [Server.without, Function.update_of_ne other] at isOpen
      exact sound.numbered fd timerfd isOpen

/-- `_rmv_timer` looks for the callback among the clients. -/
theorem Sound.find?_cb (sound : Sound srvfd s clients) (cb : UInt64)
    : s.liSock.find? (fun tmr => tmr.srv = false ∧ tmr.cb = cb) = clients.find? (·.cb = cb) := by
  rw [sound.liSock, List.find?_cons_of_neg (by simp [srvNode]), ← List.head?_filter,
    ← List.head?_filter]
  congr 1
  apply List.filter_congr
  intro tmr member
  simp [sound.isClient tmr member]

/-- `_rmv_timer` takes out the client of the callback, if there is one. -/
theorem Sound.rmvTimer_cases (sound : Sound srvfd s clients) (cb : UInt64)
    : (∀ tmr ∈ clients, tmr.cb ≠ cb) ∧ _rmvTimer cb s = s
      ∨ ∃ front tmr back,
        clients = front ++ tmr :: back
        ∧ tmr.cb = cb
        ∧ _rmvTimer cb s = s.without tmr := by
  simp only [_rmvTimer, sound.find?_cb]
  cases found : clients.find? (·.cb = cb) with
  | none =>
      refine Or.inl ⟨?_, rfl⟩
      intro tmr member same
      exact List.find?_eq_none.mp found tmr member (decide_eq_true same)
  | some tmr =>
      obtain ⟨isMatch, front, back, rfl, _⟩ := List.find?_eq_some_iff_append.mp found
      refine Or.inr ⟨front, tmr, back, rfl, of_decide_eq_true isMatch, ?_⟩
      dsimp only
      rw [listDel_cancelTimerfd, close_without]

-----------------------------------------------------------------------------------------
-- A message, an expiry
-----------------------------------------------------------------------------------------

/-- The ways a message can change the server. -/
inductive Change (s : Server) (clients : List Timer) : Server → List Timer → Prop
  | unchanged : Change s clients s clients
  | spent : Change s clients { s with created := s.created + 1 } clients
  | register (fd : Nat) (sec ms : UInt16) (repeats : UInt32) (cb : UInt64) :
      s.Unused fd
        → (∀ tmr ∈ s.liSock, tmr.cb ≠ cb)
        → Change s clients (s.withClient fd sec ms repeats cb)
          (clients ++ [s.newest fd repeats cb])
  | remove (front back : List Timer) (tmr : Timer) :
      clients = front ++ tmr :: back → Change s clients (s.without tmr) (front ++ back)

/-- `_add_timer` registers a client only for a callback without one, while there is room. -/
theorem Sound.addTimer_cases (sound : Sound srvfd s clients) {kernel : Kernel}
    (fresh : ∀ fd, kernel.timerfdCreate = some fd → s.Unused fd) (sec ms : UInt16)
    (repeats : UInt32) (cb : UInt64)
    : _addTimer kernel sec ms repeats cb s = s
      ∨ _addTimer kernel sec ms repeats cb s = { s with created := s.created + 1 }
      ∨ ∃ fd,
        s.Unused fd
        ∧ (∀ tmr ∈ s.liSock, tmr.cb ≠ cb)
        ∧ s.liSock.length ≤ maxTimerCnt
        ∧ _addTimer kernel sec ms repeats cb s = s.withClient fd sec ms repeats cb := by
  simp only [_addTimer]
  split
  · exact Or.inl rfl
  · rename_i unknown
    split
    · exact Or.inl rfl
    · rename_i room
      refine (_creCliNode_cases sound fresh sec ms repeats cb).imp_right (Or.imp_right ?_)
      rintro ⟨fd, unused, added⟩
      refine ⟨fd, unused, ?_, Nat.not_lt.mp room, added⟩
      intro tmr member same
      exact unknown (List.any_eq_true.mpr ⟨tmr, member, decide_eq_true same⟩)

theorem Sound.addTimer_change (sound : Sound srvfd s clients) {kernel : Kernel}
    (fresh : ∀ fd, kernel.timerfdCreate = some fd → s.Unused fd) (sec ms : UInt16)
    (repeats : UInt32) (cb : UInt64)
    : ∃ clients', Change s clients (_addTimer kernel sec ms repeats cb s) clients' := by
  rcases sound.addTimer_cases fresh sec ms repeats cb with
    same | spent | ⟨fd, unused, unknown, _, added⟩
  · rw [same]
    exact ⟨clients, .unchanged⟩
  · rw [spent]
    exact ⟨clients, .spent⟩
  · rw [added]
    exact ⟨_, .register fd sec ms repeats cb unused unknown⟩

theorem Sound.rmvTimer_change (sound : Sound srvfd s clients) (cb : UInt64)
    : ∃ clients', Change s clients (_rmvTimer cb s) clients' := by
  rcases sound.rmvTimer_cases cb with ⟨_, same⟩ | ⟨front, tmr, back, split, _, removed⟩
  · rw [same]
    exact ⟨clients, .unchanged⟩
  · rw [removed]
    exact ⟨front ++ back, .remove front back tmr split⟩

/-- Every message makes one of the changes. -/
theorem Sound.procMessage_change (sound : Sound srvfd s clients) {kernel : Kernel}
    (fresh : ∀ fd, kernel.timerfdCreate = some fd → s.Unused fd) (buf : Mem)
    : ∃ clients', Change s clients (procMessage kernel buf s).2 clients' := by
  simp only [procMessage]
  split
  · exact ⟨clients, .unchanged⟩
  · split
    · exact ⟨clients, .unchanged⟩
    · split
      · exact sound.addTimer_change fresh ..
      · exact sound.rmvTimer_change _
      · exact ⟨clients, .unchanged⟩
      · exact ⟨clients, .unchanged⟩

theorem Sound.change (sound : Sound srvfd s clients) {t : Server} {clients' : List Timer}
    (change : Change s clients t clients')
    : Sound srvfd t clients' := by
  cases change with
  | unchanged => exact sound
  | spent =>
      exact { sound with
        numbered := fun fd timerfd isOpen => Nat.le_succ_of_le (sound.numbered fd timerfd isOpen) }
  | register fd sec ms repeats cb unused unknown =>
      exact sound.withClient unused sec ms repeats unknown
  | remove front back tmr split =>
      subst split
      exact sound.without

/-- The server after a client has been counted down. -/
def Server.counted (s : Server) (tmr : Timer) : Server :=
  let counted := { tmr with repeats := tmr.repeats - 1 }
  { s with liSock := s.liSock.map fun t => if t = tmr then counted else t }

/-- Counting down changes nothing else of any node. -/
theorem Server.liSock_counted (s : Server) (tmr : Timer)
    : ∃ f : Timer → Timer,
        (s.counted tmr).liSock = s.liSock.map f
        ∧ ∀ t, (f t).srv = t.srv ∧ (f t).fd = t.fd ∧ (f t).inst = t.inst := by
  refine ⟨fun t => if t = tmr then { tmr with repeats := tmr.repeats - 1 } else t, rfl, ?_⟩
  intro t
  dsimp only
  split
  · rename_i same
    subst same
    exact ⟨rfl, rfl, rfl⟩
  · exact ⟨rfl, rfl, rfl⟩

/-- What an expiry does to its client, and to no other. -/
theorem Sound.cliTimerProc {front back : List Timer} {tmr : Timer}
    (sound : Sound srvfd s (front ++ tmr :: back))
    : _cliTimerProc tmr.fd s
      = (some tmr,
          if tmr.repeats > 1 then s.counted tmr
          else if tmr.repeats = 1 then s.without tmr
          else s) := by
  have isClient := sound.isClient tmr (List.mem_append_right front List.mem_cons_self)
  have others : ∀ t ∈ srvNode srvfd :: front, t.fd ≠ tmr.fd := by
    intro t member
    refine (sound.other_nodes t ?_).1
    rw [← List.cons_append]
    exact List.mem_append_left back member
  have search : s.liSock.find? (fun t => ¬(t.srv = true ∨ t.fd ≠ tmr.fd)) = some tmr := by
    rw [sound.liSock, ← List.cons_append, List.find?_append, List.find?_eq_none.mpr,
      Option.none_or, List.find?_cons_of_pos]
    · simp [isClient]
    · intro t member
      simp [others t member]
  simp only [_cliTimerProc, search, listDel_cancelTimerfd, Server.counted]
  split
  · rfl
  · split <;> rfl

theorem Sound.liSock_counted {front back : List Timer} {tmr : Timer}
    (sound : Sound srvfd s (front ++ tmr :: back))
    : (s.counted tmr).liSock
      = srvNode srvfd :: (front ++ { tmr with repeats := tmr.repeats - 1 } :: back) := by
  have kept (ts : List Timer) (inside : ∀ t ∈ ts, t ∈ srvNode srvfd :: (front ++ back))
      : ts.map (fun t => if t = tmr then { tmr with repeats := tmr.repeats - 1 } else t) = ts := by
    rw [List.map_congr_left (g := id), List.map_id]
    intro t member
    have other : t ≠ tmr := fun same => (sound.other_nodes t (inside t member)).1 (same ▸ rfl)
    exact if_neg other
  have first := kept (srvNode srvfd :: front) (by
    intro t member
    rw [← List.cons_append]
    exact List.mem_append_left back member)
  have second := kept back (by
    intro t member
    exact List.mem_cons_of_mem _ (List.mem_append_right front member))
  simp only [Server.counted, sound.liSock]
  rw [← List.cons_append, List.map_append, first, List.map_cons, if_pos rfl, second,
    List.cons_append]

theorem Sound.counted {front back : List Timer} {tmr : Timer}
    (sound : Sound srvfd s (front ++ tmr :: back))
    : Sound srvfd (s.counted tmr)
        (front ++ { tmr with repeats := tmr.repeats - 1 } :: back) := by
  have listed := sound.liSock_counted
  have same {β : Type} (f : Timer → β) (ignores : f { tmr with repeats := tmr.repeats - 1 } = f tmr)
      : (s.counted tmr).liSock.map f = s.liSock.map f := by
    rw [listed, sound.liSock]
    simp only [List.map_cons, List.map_append, ignores]
  have members {t : Timer}
      (member : t ∈ front ++ { tmr with repeats := tmr.repeats - 1 } :: back)
      : ∃ t' ∈ front ++ tmr :: back, t'.srv = t.srv ∧ t'.fd = t.fd ∧ t'.inst = t.inst := by
    rcases List.mem_append.mp member with inFront | inRest
    · exact ⟨t, List.mem_append_left _ inFront, rfl, rfl, rfl⟩
    · rcases List.mem_cons.mp inRest with rfl | inBack
      · exact ⟨tmr, List.mem_append_right front List.mem_cons_self, rfl, rfl, rfl⟩
      · exact ⟨t, List.mem_append_right front (List.mem_cons_of_mem tmr inBack), rfl, rfl, rfl⟩
  constructor
  · exact listed
  · intro t member
    obtain ⟨t', member', srv, _, _⟩ := members member
    exact srv ▸ sound.isClient t' member'
  · exact (same Timer.fd rfl).symm ▸ sound.fds
  · exact (same Timer.inst rfl).symm ▸ sound.insts
  · exact (same Timer.cb rfl).symm ▸ sound.cbs
  · intro t member
    obtain ⟨t', member', _, fd, inst⟩ := members member
    exact fd ▸ inst ▸ sound.timers t' member'
  · exact sound.srvOpen
  · exact sound.numbered

end Libccll.Timers
