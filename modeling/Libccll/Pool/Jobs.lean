import Libccll.Pool.Turns

/-! Every posted job is executed, once and in order.
As long as a worker has not been told to leave, its list is as long as the tokens of its
semaphore, the one it has taken and the one a poster still owes it.
-/

namespace Libccll.Thrdpool

open Foundation

variable {θ φ δ : Type*}

/-- Tokens taken whose job is still in the list. -/
def Worker.tokens : Worker φ δ → Nat
  | .woken | .peekLocking | .peeking | .peeked _ | .calling _ | .executing _ | .deleteLocking _
  | .deleting _ => 1
  | _ => 0

/-- What the worker took for the first job. -/
def Worker.current : Worker φ δ → Option (Option (WorkFun φ δ))
  | .peeked wf | .calling wf => some wf
  | .executing wf | .deleteLocking wf | .deleting wf => some (some wf)
  | _ => none

/-- A job that has been started and is still in the list. -/
def Worker.running : Worker φ δ → List (WorkFun φ δ)
  | .executing wf | .deleteLocking wf | .deleting wf => [wf]
  | _ => []

/-- About to take the first job. -/
def Worker.Peeks : Worker φ δ → Prop
  | .peekLocking | .peeking => True
  | _ => False

/-- The jobs of a worker, to which the poster of the last one may owe its token. -/
structure Served (pt : PolThrd θ φ δ) (owed : Prop) : Prop where
  tokens
    : pt.exit = false
      → (owed → pt.wkfnList.length = pt.smp + pt.place.tokens + 1)
        ∧ (¬owed → pt.wkfnList.length = pt.smp + pt.place.tokens)
  peeks : pt.place.Peeks → pt.wkfnList ≠ []
  current
    : ∀ wf, pt.place.current = some wf → ∃ job rest, wf = some job ∧ pt.wkfnList = job :: rest
  order
    : ∃ done, pt.posted = done ++ pt.wkfnList ∧ pt.executed = done ++ pt.place.running

theorem served_initial {owed : Prop} (paid : ¬owed)
    : Served (PolThrd.initial : PolThrd θ φ δ) owed where
  tokens _ := ⟨fun h => absurd h paid, fun _ => rfl⟩
  peeks := nofun
  current := nofun
  order := ⟨[], rfl, rfl⟩

variable {pt : PolThrd θ φ δ} {owed : Prop} {s s' : State θ φ δ} {t : Thread θ} {w : Slot}

theorem Served.congr {owed' : Prop} (served : Served pt owed) (same : owed' ↔ owed)
    : Served pt owed' :=
  propext same ▸ served

/-- A woken worker that stays has a job. -/
theorem Served.woken (served : Served pt owed) (place : pt.place = .woken)
    (staying : pt.exit = false)
    : pt.wkfnList ≠ [] := by
  obtain ⟨owing, paid⟩ := served.tokens staying
  rw [place] at owing paid
  rw [← List.length_pos_iff]
  rcases em owed with debt | none
  · rw [owing debt]
    exact Nat.succ_pos _
  · rw [paid none]
    exact Nat.succ_pos _

/-- Jobs are started in the order in which they were posted. -/
theorem Served.started (served : Served pt owed) : pt.executed <+: pt.posted := by
  obtain ⟨done, posted, executed⟩ := served.order
  rw [posted, executed, List.prefix_append_right_inj]
  match place : pt.place with
  | .executing wf | .deleteLocking wf | .deleting wf =>
      obtain ⟨job, rest, same, jobs⟩ := served.current (some wf) (by rw [place]; rfl)
      cases same
      exact jobs ▸ ⟨rest, rfl⟩
  | .absent | .started | .waiting | .woken | .exitLocking | .exitSizing | .exitFreeing ..
  | .exited | .peekLocking | .peeking | .peeked _ | .calling _ | .deleted _ | .freeing _ =>
      exact List.nil_prefix

/-- The worker moves on without touching list and semaphore. -/
theorem Served.workTo (served : Served pt owed) (place : Worker φ δ) {mtx : Option (Thread θ)}
    (tokens : pt.exit = false → place.tokens = pt.place.tokens)
    (peeks : place.Peeks → pt.wkfnList ≠ [])
    (current
      : ∀ wf, place.current = some wf → ∃ job rest, wf = some job ∧ pt.wkfnList = job :: rest)
    (running : place.running = pt.place.running)
    : Served { pt with place, mtx } owed where
  tokens staying := by
    rw [tokens staying]
    exact served.tokens staying
  peeks
  current
  order := by
    rw [running]
    exact served.order

/-- The worker moves on to where it neither has nor looks for a job. -/
theorem Served.workIdly (served : Served pt owed) (place : Worker φ δ) {mtx : Option (Thread θ)}
    (tokens : pt.exit = false → place.tokens = pt.place.tokens) (looking : ¬place.Peeks)
    (taken : place.current = none) (running : place.running = pt.place.running)
    : Served { pt with place, mtx } owed := by
  refine served.workTo place tokens (fun peeks => absurd peeks looking) (fun wf some => ?_) running
  cases taken.symm.trans some

/-- The job to delete is the first one. -/
theorem Served.deleting (served : Served pt owed) {wf : WorkFun φ δ}
    (here : pt.place = .deleting wf)
    : ∃ rest,
        pt.wkfnList = wf :: rest
        ∧ pt.wkfnList.eraseP (fun x => decide (x.num = wf.num)) = rest := by
  obtain ⟨job, rest, same, jobs⟩ := served.current (some wf) (by rw [here]; rfl)
  obtain rfl : wf = job := Option.some.inj same
  exact ⟨rest, jobs, by simp [jobs]⟩

/-- Lock and unlock change neither jobs nor tokens. -/
theorem Moves.same {place place' : Worker φ δ} (moves : Moves place place')
    : place'.tokens = place.tokens
      ∧ (place'.Peeks → place.Peeks)
      ∧ place'.current = place.current
      ∧ place'.running = place.running := by
  cases moves <;> exact ⟨rfl, id, rfl, rfl⟩

/-- `list_add` by the poster, which then owes the token. -/
theorem Served.link {owed' : Prop} (served : Served pt owed) (paid : ¬owed) (owes : owed')
    (wf : WorkFun φ δ)
    : Served { pt with wkfnList := pt.wkfnList ++ [wf], posted := pt.posted ++ [wf] } owed' where
  tokens staying := by
    have tokens := (served.tokens staying).2 paid
    rw [List.length_append, tokens]
    exact ⟨fun _ => rfl, fun none => absurd owes none⟩
  peeks _ := List.concat_ne_nil wf pt.wkfnList
  current taken here := by
    obtain ⟨job, rest, same, jobs⟩ := served.current taken here
    exact ⟨job, rest ++ [wf], same, by rw [jobs, List.cons_append]⟩
  order := by
    obtain ⟨done, posted, executed⟩ := served.order
    exact ⟨done, by rw [posted, List.append_assoc], executed⟩

/-- `sem_post` by the poster. -/
theorem Served.signal {owed' : Prop} (served : Served pt owed) (owes : owed) (paid : ¬owed')
    : Served { pt with smp := pt.smp + 1 } owed' where
  tokens staying := by
    have tokens := (served.tokens staying).1 owes
    refine ⟨fun owes' => absurd owes' paid, fun _ => ?_⟩
    rw [tokens, Nat.add_right_comm]
  peeks := served.peeks
  current := served.current
  order := served.order

theorem Served.work (served : Served (s.pts w) owed) (work : Work s w s')
    : Served (s'.pts w) owed := by
  cases work with
  | crash => exact served
  | start here =>
      change Served ((s.workTo w .waiting).pts w) owed
      rw [State.workTo, State.setPt_self]
      exact served.workIdly .waiting (fun _ => by rw [here]; rfl) id rfl (by rw [here]; rfl)
  | wake here token =>
      rw [State.setPt_self]
      refine ⟨fun staying => ?_, False.elim, fun _ taken => (by cases taken), ?_⟩
      · have tokens := served.tokens staying
        rw [here] at tokens
        change (owed → _ = (s.pts w).smp - 1 + 1 + 1) ∧ (¬owed → _ = (s.pts w).smp - 1 + 1)
        rw [Nat.sub_add_cancel token]
        exact tokens
      · have order := served.order
        rw [here] at order
        exact order
  | leave here exit =>
      rw [State.workTo, State.setPt_self]
      exact served.workIdly .exitLocking
        (fun staying => absurd (staying.symm.trans exit) Bool.false_ne_true) id rfl
        (by rw [here]; rfl)
  | stay here staying =>
      rw [State.workTo, State.setPt_self]
      exact served.workTo .peekLocking (fun _ => by rw [here]; rfl)
        (fun _ => served.woken here staying) (fun _ taken => by cases taken) (by rw [here]; rfl)
  | move moves =>
      obtain ⟨tokens, peeks, current, running⟩ := moves.same
      rw [State.setPt_self]
      refine served.workTo _ (fun _ => tokens) (fun h => served.peeks (peeks h)) ?_ running
      rw [current]
      exact served.current
  | peek here =>
      rw [State.workTo, State.setPt_self]
      obtain ⟨job, rest, jobs⟩ := List.exists_cons_of_ne_nil (served.peeks (by rw [here]; trivial))
      refine served.workTo (.peeked _) (fun _ => by rw [here]; rfl) False.elim ?_
        (by rw [here]; rfl)
      intro wf taken
      exact ⟨job, rest, by rw [← Option.some.inj taken, jobs]; rfl, jobs⟩
  | @execute wf here =>
      rw [State.setPt_self]
      obtain ⟨done, posted, executed⟩ := served.order
      rw [here] at executed
      refine ⟨?_, False.elim, ?_, done, posted, ?_⟩
      · have tokens := served.tokens
        rw [here] at tokens
        exact tokens
      · have current := served.current
        rw [here] at current
        exact current
      · simp only [executed, Worker.running, List.append_nil]
  | @delete wf here =>
      obtain ⟨rest, jobs, removed⟩ := served.deleting here
      rw [State.setPt_self, removed]
      obtain ⟨done, posted, executed⟩ := served.order
      rw [here] at executed
      refine ⟨fun staying => ?_, False.elim, fun _ taken => (by cases taken), done ++ [wf], ?_, ?_⟩
      · obtain ⟨owing, paid⟩ := served.tokens staying
        rw [here, jobs, List.length_cons] at owing paid
        exact ⟨fun debt => Nat.succ.inj (owing debt), fun none => Nat.succ.inj (paid none)⟩
      · simp only [posted, jobs, List.append_assoc, List.singleton_append]
      · simp only [executed, Worker.running, List.append_nil]
  | free here | size here | skip here | drop here =>
      rw [State.workTo, State.setPt_self]
      exact served.workIdly _ (fun _ => by rw [here]; rfl) id rfl (by rw [here]; rfl)
  | exit here =>
      rw [State.setPt_self]
      exact served.workIdly .exited (fun _ => by rw [here]; rfl) id rfl (by rw [here]; rfl)

-----------------------------------------------------------------------------------------
-- All workers
-----------------------------------------------------------------------------------------

/-- A caller has linked a job of the worker and not posted its token yet. -/
def State.Owed (s : State θ φ δ) (w : Slot) : Prop := ∃ t, (s.callers t).cargo = .token w

/-- Every job is posted once and to one worker, which serves its jobs in order. -/
structure Jobs (s : State θ φ δ) : Prop where
  served : ∀ w, Served (s.pts w) (s.Owed w)
  known : ∀ w, ∀ wf ∈ (s.pts w).posted, wf.num < s.nodes
  once : ∀ w, ((s.pts w).posted.map WorkFun.num).Nodup
  apart
    : ∀ w w', ∀ wf ∈ (s.pts w).posted, ∀ wf' ∈ (s.pts w').posted, wf.num = wf'.num → w = w'
  carried
    : ∀ t pool wf,
        (s.callers t).cargo = .node pool wf
          → wf.num < s.nodes ∧ ∀ w, ∀ wf' ∈ (s.pts w).posted, wf'.num ≠ wf.num
  located
    : ∀ pool, ∀ n ∈ (s.pools pool).allocated,
        (∃ i < (s.pools pool).amt, n ∈ (s.pts (pool, i)).posted.map WorkFun.num)
        ∨ ∃ t wf, (s.callers t).cargo = .node pool wf ∧ wf.num = n

theorem jobs_initial : Jobs (State.initial : State θ φ δ) where
  served _ := served_initial nofun
  known := nofun
  once _ := List.nodup_nil
  apart := nofun
  carried := nofun
  located := nofun

/-- No node is allocated or linked. -/
theorem Jobs.unposted (jobs : Jobs s) (served : ∀ w, Served (s'.pts w) (s'.Owed w))
    (carried
      : ∀ t pool wf,
          (s'.callers t).cargo = .node pool wf ↔ (s.callers t).cargo = .node pool wf)
    (nodes : s'.nodes = s.nodes)
    (posted : ∀ w, (s'.pts w).posted = (s.pts w).posted ∨ (s'.pts w).posted = [])
    (pools
      : ∀ pool, ∀ n ∈ (s'.pools pool).allocated,
          n ∈ (s.pools pool).allocated
          ∧ (s'.pools pool).amt = (s.pools pool).amt
          ∧ ∀ i, (s'.pts (pool, i)).posted = (s.pts (pool, i)).posted)
    : Jobs s' := by
  have old (w : Slot) : (s'.pts w).posted ⊆ (s.pts w).posted := by
    rcases posted w with same | none
    · rw [same]
      exact List.Subset.refl _
    · rw [none]
      exact List.nil_subset _
  refine ⟨served, ?_, fun w => ?_, ?_, ?_, ?_⟩
  · exact fun w wf member => nodes ▸ jobs.known w wf (old w member)
  · rcases posted w with same | none
    · rw [same]
      exact jobs.once w
    · rw [none]
      exact List.nodup_nil
  · exact fun w w' wf member wf' member' =>
      jobs.apart w w' wf (old w member) wf' (old w' member')
  · intro t pool wf held
    obtain ⟨known, unposted⟩ := jobs.carried t pool wf ((carried t pool wf).mp held)
    exact ⟨nodes ▸ known, fun w wf' member => unposted w wf' (old w member)⟩
  · intro pool n member
    obtain ⟨member, amt, posted⟩ := pools pool n member
    simp only [carried, amt, posted]
    exact jobs.located pool n member

/-- Nothing changes hands. -/
theorem Jobs.keep (jobs : Jobs s)
    (cargo : ∀ t, (s'.callers t).cargo = (s.callers t).cargo)
    (served : ∀ w, Served (s.pts w) (s.Owed w) → Served (s'.pts w) (s.Owed w))
    (nodes : s'.nodes = s.nodes)
    (posted : ∀ w, (s'.pts w).posted = (s.pts w).posted ∨ (s'.pts w).posted = [])
    (pools
      : ∀ pool, ∀ n ∈ (s'.pools pool).allocated,
          n ∈ (s.pools pool).allocated
          ∧ (s'.pools pool).amt = (s.pools pool).amt
          ∧ ∀ i, (s'.pts (pool, i)).posted = (s.pts (pool, i)).posted)
    : Jobs s' := by
  have owed (w : Slot) : s'.Owed w ↔ s.Owed w := by simp only [State.Owed, cargo]
  exact jobs.unposted (fun w => (served w (jobs.served w)).congr (owed w))
    (fun t pool wf => by rw [cargo]) nodes posted pools

/-- What is carried is carried by the owner of the lock. -/
theorem Guarded.carrier (guarded : Guarded s) (holds : (s.callers t).Holds) {t' : Thread θ}
    (other : t' ≠ t)
    : (s.callers t').cargo = .nothing := by
  have unheld : ¬(s.callers t').Holds := fun holds' => other (guarded.holder_unique holds holds')
  match place : s.callers t' with
  | .post (.filled ..) | .post (.adding ..) | .post (.linked ..) =>
      rw [place] at unheld
      exact absurd trivial unheld
  | .outside _ | .leaving _ | .deinit _ | .create _ | .destroy _ | .tear .. | .release ..
  | .post (.locking _) | .post (.finding _) | .post (.scanning ..) | .post (.measuring ..)
  | .post (.measured ..) | .post (.selected ..) | .post (.signalled ..) => rfl

/-- Nodes are carried to listed pools. -/
theorem Guarded.carrying (guarded : Guarded s) {pool : Nat} {wf : WorkFun φ δ}
    (cargo : (s.callers t).cargo = .node pool wf)
    : pool ∈ s.gLiPols := by
  have sound := guarded.sound t
  match place : s.callers t with
  | .post (.filled ..) | .post (.adding ..) =>
      rw [place] at sound cargo
      cases cargo
      exact sound.1
  | .outside _ | .leaving _ | .deinit _ | .create _ | .destroy _ | .tear .. | .release ..
  | .post (.locking _) | .post (.finding _) | .post (.scanning ..) | .post (.measuring ..)
  | .post (.measured ..) | .post (.selected ..) | .post (.linked ..) | .post (.signalled ..) =>
      rw [place] at cargo
      cases cargo

/-- While the owner of the lock carries no token, none is owed. -/
theorem Guarded.paid (guarded : Guarded s) (holds : (s.callers t).Holds) {w : Slot}
    (mine : (s.callers t).cargo ≠ .token w)
    : ¬s.Owed w := by
  rintro ⟨t', cargo⟩
  rcases eq_or_ne t' t with rfl | other
  · exact mine cargo
  · exact nomatch (guarded.carrier holds other).symm.trans cargo

/-- A worker of a listed pool that waits on a zero semaphore, with nothing being posted, has
executed all its jobs.
-/
theorem Jobs.idle (jobs : Jobs s) (guarded : Guarded s) {pool i : Nat} (listed : pool ∈ s.gLiPols)
    (waiting : (s.pts (pool, i)).place = .waiting) (zero : (s.pts (pool, i)).smp = 0)
    (unposting : ∀ t place, s.callers t ≠ .post place)
    : (s.pts (pool, i)).executed = (s.pts (pool, i)).posted := by
  have paid : ¬s.Owed (pool, i) := by
    rintro ⟨t, cargo⟩
    match place : s.callers t with
    | .post posting => exact unposting t posting place
    | .outside _ | .leaving _ | .deinit _ | .create _ | .destroy _ | .tear .. | .release .. =>
        rw [place] at cargo
        cases cargo
  have served := jobs.served (pool, i)
  have tokens := (served.tokens (guarded.staying listed).1).2 paid
  rw [waiting, zero] at tokens
  have empty : (s.pts (pool, i)).wkfnList = [] := List.length_eq_zero_iff.mp tokens
  obtain ⟨done, posted, executed⟩ := served.order
  rw [posted, executed, empty, waiting]
  rfl

theorem Jobs.work (jobs : Jobs s) (work : Work s w s') : Jobs s' := by
  have frame := work.frame
  have posted (w' : Slot) : (s'.pts w').posted = (s.pts w').posted := by
    rcases eq_or_ne w' w with rfl | other
    · exact frame.posted
    · rw [frame.others w' other]
  refine jobs.keep (fun t => by rw [frame.callers]) (fun w' served => ?_) frame.nodes
    (fun w' => Or.inl (posted w')) fun pool n member =>
      ⟨frame.allocated pool ▸ member, frame.amt pool, fun i => posted (pool, i)⟩
  rcases eq_or_ne w' w with rfl | other
  · exact served.work work
  · rw [frame.others w' other]
    exact served

variable [DecidableEq θ]

theorem cargo_moveTo {place : Caller φ δ} (cargo : place.cargo = (s.callers t).cargo)
    (t' : Thread θ)
    : ((s.moveTo t place).callers t').cargo = (s.callers t').cargo := by
  rcases eq_or_ne t' t with rfl | other
  · rw [State.moveTo_self, cargo]
  · rw [State.moveTo_of_ne other]

/-- A `PolThrd` changes, apart from the jobs posted to it. -/
theorem Jobs.keepPt (jobs : Jobs s) {pt : PolThrd θ φ δ} {place : Caller φ δ}
    (cargo : place.cargo = (s.callers t).cargo)
    (served : Served (s.pts w) (s.Owed w) → Served pt (s.Owed w))
    (posted : pt.posted = (s.pts w).posted)
    : Jobs ((s.setPt w pt).moveTo t place) := by
  have same (w' : Slot) : ((s.setPt w pt).pts w').posted = (s.pts w').posted := by
    rcases eq_or_ne w' w with rfl | other
    · rw [State.setPt_self, posted]
    · rw [State.setPt_of_ne other]
  refine jobs.keep (cargo_moveTo cargo) (fun w' => ?_) rfl (fun w' => Or.inl (same w'))
    fun _ _ member => ⟨member, rfl, fun i => same _⟩
  change _ → Served ((s.setPt w pt).pts w') _
  rcases eq_or_ne w' w with rfl | other
  · rw [State.setPt_self]
    exact served
  · rw [State.setPt_of_ne other]
    exact id

/-- The owner of the lock is the only one to carry something. -/
theorem Guarded.carries (guarded : Guarded s) (holds : (s.callers t).Holds) {place : Caller φ δ}
    {cargo : Cargo φ δ} {t' : Thread θ}
    (carried : (Function.update s.callers t place t').cargo = cargo) (something : cargo ≠ .nothing)
    : t' = t ∧ place.cargo = cargo := by
  rcases eq_or_ne t' t with rfl | other
  · rw [Function.update_self] at carried
    exact ⟨rfl, carried⟩
  · rw [Function.update_of_ne other, guarded.carrier holds other] at carried
    exact absurd carried.symm something

/-- A new node is carried. -/
theorem Jobs.allocate (jobs : Jobs s) (guarded : Guarded s) {request : Request φ δ} {pool : Nat}
    {pt : Option Nat} (here : s.callers t = .post (.selected request pool pt))
    : Jobs
        ((s.addNode pool).moveTo t
          (.post (.filled pool pt ⟨s.nodes, request.fn, request.args⟩))) := by
  have holds : (s.callers t).Holds := by rw [here]; trivial
  refine ⟨fun w => ?_, fun w wf member => Nat.lt_succ_of_lt (jobs.known w wf member), jobs.once,
    jobs.apart, ?_, ?_⟩
  · refine (jobs.served w).congr ⟨?_, ?_⟩
    · rintro ⟨t', owed⟩
      cases (guarded.carries holds owed (by rintro ⟨⟩)).2
    · exact fun owed => absurd owed (guarded.paid holds (by rw [here]; rintro ⟨⟩))
  · intro t' pool' wf carried
    obtain ⟨rfl, same⟩ := guarded.carries holds carried (by rintro ⟨⟩)
    cases same
    exact ⟨Nat.lt_succ_self _, fun w wf' member => Nat.ne_of_lt (jobs.known w wf' member)⟩
  · intro pool' n member
    have amt : ((s.addNode pool).pools pool').amt = (s.pools pool').amt := by
      rcases eq_or_ne pool' pool with rfl | other
      · simp [State.addNode]
      · simp [State.addNode, other]
    have new : n ∈ (s.pools pool').allocated ∨ pool' = pool ∧ n = s.nodes := by
      rcases eq_or_ne pool' pool with rfl | other
      · simpa [State.addNode, State.moveTo] using member
      · exact Or.inl (by simpa [State.addNode, State.moveTo, other] using member)
    rcases new with old | ⟨rfl, rfl⟩
    · rcases jobs.located pool' n old with ⟨i, below, posted⟩ | ⟨t', wf, cargo, _⟩
      · exact Or.inl ⟨i, amt.symm ▸ below, posted⟩
      · rcases eq_or_ne t' t with rfl | other
        · rw [here] at cargo
          cases cargo
        · cases (guarded.carrier holds other).symm.trans cargo
    · exact Or.inr ⟨t, _, congrArg Caller.cargo State.moveTo_self, rfl⟩

/-- `list_add` hands the node over to the worker, and leaves a token to post. -/
theorem Jobs.link (jobs : Jobs s) (guarded : Guarded s) {pool pt : Nat} {wf : WorkFun φ δ}
    (here : s.callers t = .post (.adding pool pt wf))
    : Jobs ((s.link (pool, pt) wf).moveTo t (.post (.linked pool pt))) := by
  have holds : (s.callers t).Holds := by rw [here]; trivial
  have sound := guarded.sound t
  rw [here] at sound
  obtain ⟨known, unposted⟩ := jobs.carried t pool wf (by rw [here]; rfl)
  have posted (w : Slot)
      : w = (pool, pt)
          ∧ ((s.link (pool, pt) wf).pts w).posted = (s.pts w).posted ++ [wf]
        ∨ w ≠ (pool, pt) ∧ (s.link (pool, pt) wf).pts w = s.pts w := by
    rcases eq_or_ne w (pool, pt) with rfl | other
    · exact Or.inl ⟨rfl, congrArg PolThrd.posted State.setPt_self⟩
    · exact Or.inr ⟨other, State.setPt_of_ne other⟩
  have member {w : Slot} {x : WorkFun φ δ} (inside : x ∈ ((s.link (pool, pt) wf).pts w).posted)
      : x ∈ (s.pts w).posted ∨ w = (pool, pt) ∧ x = wf := by
    rcases posted w with ⟨rfl, linked⟩ | ⟨other, same⟩
    · rw [linked] at inside
      exact (List.mem_append.mp inside).imp_right fun h => ⟨rfl, List.mem_singleton.mp h⟩
    · exact Or.inl (same ▸ inside)
  refine ⟨fun w => ?_, fun w x inside => ?_, fun w => ?_, fun w w' x inside x' inside' same => ?_,
    ?_, ?_⟩
  · rcases eq_or_ne w (pool, pt) with rfl | other
    · have served := (jobs.served (pool, pt)).link (guarded.paid holds (by rw [here]; nofun))
        (⟨t, congrArg Caller.cargo State.moveTo_self⟩
          : ((s.link (pool, pt) wf).moveTo t (.post (.linked pool pt))).Owed (pool, pt)) wf
      exact (State.setPt_self (s := s) (w := (pool, pt))).symm ▸ served
    · have served := jobs.served w
      rw [← State.setPt_of_ne other] at served
      refine served.congr ⟨?_, fun owed => absurd owed (guarded.paid holds (by rw [here]; nofun))⟩
      rintro ⟨t', owed⟩
      cases (guarded.carries holds owed nofun).2
      exact absurd rfl other
  · rcases member inside with old | ⟨_, rfl⟩
    · exact jobs.known w x old
    · exact known
  · rcases posted w with ⟨rfl, linked⟩ | ⟨other, same⟩
    · change (((s.link (pool, pt) wf).pts (pool, pt)).posted.map WorkFun.num).Nodup
      rw [linked, List.map_append, List.nodup_append]
      refine ⟨jobs.once _, by simp, fun n old n' new => ?_⟩
      obtain ⟨x, inside, rfl⟩ := List.mem_map.mp old
      rw [List.mem_singleton.mp new]
      exact unposted _ x inside
    · exact same.symm ▸ jobs.once w
  · rcases member inside with old | ⟨rfl, rfl⟩ <;> rcases member inside' with old' | ⟨rfl, rfl⟩
    · exact jobs.apart w w' x old x' old' same
    · exact absurd same (unposted w x old)
    · exact absurd same.symm (unposted w' x' old')
    · rfl
  · intro t' pool' x carried
    exact nomatch (guarded.carries holds carried nofun).2
  · intro pool' n allocated
    rcases jobs.located pool' n allocated with ⟨i, below, old⟩ | ⟨t', x, cargo, rfl⟩
    · refine Or.inl ⟨i, below, ?_⟩
      obtain ⟨x, inside, rfl⟩ := List.mem_map.mp old
      refine List.mem_map_of_mem ?_
      rcases posted (pool', i) with ⟨_, linked⟩ | ⟨_, same⟩
      · exact linked ▸ List.mem_append_left _ inside
      · exact same.symm ▸ inside
    · rcases eq_or_ne t' t with rfl | other
      · rw [here] at cargo
        cases cargo
        refine Or.inl ⟨pt, sound.2, List.mem_map_of_mem ?_⟩
        rcases posted (pool, pt) with ⟨_, linked⟩ | ⟨other, _⟩
        · exact linked ▸ List.mem_append_right _ (List.mem_singleton_self wf)
        · exact absurd rfl other
      · exact nomatch (guarded.carrier holds other).symm.trans cargo

/-- `sem_post` pays the token. -/
theorem Jobs.signal (jobs : Jobs s) (guarded : Guarded s) {pool pt : Nat}
    (here : s.callers t = .post (.linked pool pt))
    : Jobs ((s.semPost (pool, pt)).moveTo t (.post (.signalled pool pt))) := by
  have holds : (s.callers t).Holds := by rw [here]; trivial
  have paid (w : Slot)
      : ¬((s.semPost (pool, pt)).moveTo t (.post (.signalled pool pt))).Owed w := by
    rintro ⟨t', owed⟩
    exact nomatch (guarded.carries holds owed nofun).2
  have posted (w : Slot) : ((s.semPost (pool, pt)).pts w).posted = (s.pts w).posted := by
    rcases eq_or_ne w (pool, pt) with rfl | other
    · rw [State.semPost, State.setPt_self]
    · rw [State.semPost, State.setPt_of_ne other]
  refine jobs.unposted (fun w => ?_) (fun t' pool' wf => ⟨fun carried => ?_, fun carried => ?_⟩) rfl
    (fun w => Or.inl (posted w)) fun pool' n member => ⟨member, rfl, fun i => posted _⟩
  · change Served ((s.semPost (pool, pt)).pts w) _
    rcases eq_or_ne w (pool, pt) with rfl | other
    · rw [State.semPost, State.setPt_self]
      exact (jobs.served _).signal ⟨t, by rw [here]; rfl⟩ (paid _)
    · rw [State.semPost, State.setPt_of_ne other]
      refine (jobs.served w).congr ⟨fun owed => absurd owed (paid w), fun owed => ?_⟩
      refine absurd owed (guarded.paid holds ?_)
      rw [here]
      exact fun same => other (by cases same; rfl)
  · exact nomatch (guarded.carries holds carried nofun).2
  · rcases eq_or_ne t' t with rfl | other
    · rw [here] at carried
      cases carried
    · exact nomatch (guarded.carrier holds other).symm.trans carried

theorem Jobs.turn (jobs : Jobs s) (guarded : Guarded s) (turn : Turn s s') : Jobs s' := by
  cases turn with
  | stop => exact { jobs with }
  | move goes sound cargo =>
      exact jobs.keep (cargo_moveTo cargo) (fun _ => id) rfl (fun _ => Or.inl rfl)
        fun _ _ member => ⟨member, rfl, fun _ => rfl⟩
  | @relock t place w mtx holds sound cargo =>
      exact jobs.keepPt cargo (fun served => { served with }) (by rfl)
  | @measure t place pool i holds sound cargo listed =>
      exact jobs.keep (cargo_moveTo cargo) (fun _ => id) rfl (fun _ => Or.inl rfl)
        fun _ _ member => ⟨member, rfl, fun _ => rfl⟩
  | @pop t place pool holds listed sound cargo cargo' =>
      exact jobs.keep (cargo_moveTo (cargo.trans cargo'.symm)) (fun _ => id) rfl
        (fun _ => Or.inl rfl) fun _ _ member => ⟨member, rfl, fun _ => rfl⟩
  | @create t amount id here =>
      have holds : (s.callers t).Holds := by rw [here]; trivial
      have cargo : (s.callers t).cargo = .nothing := by rw [here]; rfl
      refine jobs.keep (cargo_moveTo cargo.symm) (fun w served => ?_) rfl (fun w => ?_)
        fun pool n member => ?_
      · change Served ((s.addPool id amount).pts w) _
        rcases s.addPool_pts w with ⟨_, same⟩ | new
        · exact same ▸ served
        · exact new ▸ served_initial (guarded.paid holds (by rw [here]; nofun))
      · change ((s.addPool id amount).pts w).posted = _ ∨ ((s.addPool id amount).pts w).posted = []
        rcases s.addPool_pts w with ⟨_, same⟩ | new
        · exact Or.inl (by rw [same])
        · exact Or.inr (by rw [new]; rfl)
      · change n ∈ ((s.addPool id amount).pools pool).allocated at member
        rcases eq_or_ne pool s.created with rfl | old
        · simp [State.addPool] at member
        · refine ⟨?_, ?_, fun i => congrArg PolThrd.posted (if_neg old)⟩
          · simpa [State.addPool, old] using member
          · simp [State.addPool, State.moveTo, old]
  | @start t pool i here =>
      have sound := guarded.sound t
      rw [here] at sound
      have absent := sound.2.2.2 i (Nat.le_refl i)
      refine jobs.keepPt (by rw [here]; rfl) (fun served => ?_) (by rfl)
      exact served.workIdly .started (fun _ => by rw [absent]; rfl) id rfl (by rw [absent]; rfl)
  | @list t pool i here =>
      exact jobs.keep (cargo_moveTo (by rw [here]; rfl)) (fun _ => id) rfl (fun _ => Or.inl rfl)
        fun _ _ member => ⟨member, rfl, fun _ => rfl⟩
  | @flag t pool i turns here =>
      exact jobs.keepPt (by rw [here]; rfl)
        (fun served => { served with tokens := fun staying => by cases staying }) (by rfl)
  | @wake t pool i turns here =>
      have sound := guarded.sound t
      rw [here] at sound
      have exit := sound.2.2 rfl
      refine jobs.keepPt (by rw [here]; rfl) (fun served => ?_) (by rfl)
      exact
        { served with
          tokens := fun staying => absurd (staying.symm.trans exit) Bool.false_ne_true }
  | @refused t pool i turns here refused =>
      exact jobs.keep (cargo_moveTo (by rw [here]; rfl)) (fun _ => id) rfl (fun _ => Or.inl rfl)
        fun _ _ member => ⟨member, rfl, fun _ => rfl⟩
  | @release t pool turns here =>
      cases turns <;>
        exact jobs.keep (cargo_moveTo (by rw [here]; rfl)) (fun _ => id) rfl (fun _ => Or.inl rfl)
          fun _ _ member => ⟨member, rfl, fun _ => rfl⟩
  | allocate here => exact jobs.allocate guarded here
  | link here => exact jobs.link guarded here
  | signal here => exact jobs.signal guarded here

theorem Jobs.step (jobs : Jobs s) (guarded : Guarded s) {nprocs : Nat} {action : Action θ φ δ}
    (stepped : step nprocs s action = some s')
    : Jobs s' := by
  rcases step_cases guarded stepped with ⟨w, _, work⟩ | turn
  · exact jobs.work work
  · exact jobs.turn guarded turn

-----------------------------------------------------------------------------------------
-- Runs
-----------------------------------------------------------------------------------------

theorem jobs_run {nprocs : Nat} {actions : List (Action θ φ δ)}
    (ran : Transition.run (step nprocs) State.initial actions = some s)
    : Guarded s ∧ Jobs s := by
  have preserved {s : State θ φ δ} {action : Action θ φ δ} {s' : State θ φ δ}
      (inv : Guarded s ∧ Jobs s) (stepped : step nprocs s action = some s')
      : Guarded s' ∧ Jobs s' :=
    ⟨inv.1.step stepped, inv.2.step inv.1 stepped⟩
  exact Transition.run_invariant preserved ⟨guarded_initial, jobs_initial⟩ ran

/-- Whatever callers and workers do: each job is executed at most once, by one worker and in the
order of its list; a worker that has taken a token and is not told to leave has a job, and none
takes the list head for one; when a listed pool is idle, all its jobs have been executed.
-/
theorem jobs_executed {nprocs : Nat} {actions : List (Action θ φ δ)} {s : State θ φ δ}
    (ran : Transition.run (step nprocs) State.initial actions = some s)
    : (∀ w, ((s.pts w).executed.map WorkFun.num).Nodup)
      ∧ (∀ w w', ∀ wf ∈ (s.pts w).executed, ∀ wf' ∈ (s.pts w').executed,
          wf.num = wf'.num → w = w')
      ∧ (∀ w, (s.pts w).executed <+: (s.pts w).posted)
      ∧ (∀ w, (s.pts w).place = .woken → (s.pts w).exit = false → (s.pts w).wkfnList ≠ [])
      ∧ (∀ w, (s.pts w).place.Peeks → (s.pts w).wkfnList ≠ [])
      ∧ (∀ w, (s.pts w).place.current ≠ some none)
      ∧ ∀ pool ∈ s.gLiPols,
          (∀ i < (s.pools pool).amt,
            (s.pts (pool, i)).place = .waiting ∧ (s.pts (pool, i)).smp = 0)
          → (∀ t place, s.callers t ≠ .post place)
          → (∀ i < (s.pools pool).amt, (s.pts (pool, i)).executed = (s.pts (pool, i)).posted)
            ∧ ∀ n ∈ (s.pools pool).allocated, ∃ i < (s.pools pool).amt,
                n ∈ (s.pts (pool, i)).executed.map WorkFun.num := by
  obtain ⟨guarded, jobs⟩ := jobs_run ran
  have started (w : Slot) : (s.pts w).executed <+: (s.pts w).posted := (jobs.served w).started
  refine ⟨fun w => ?_, ?_, started, fun w => (jobs.served w).woken,
    fun w => (jobs.served w).peeks, ?_, ?_⟩
  · exact (jobs.once w).sublist ((started w).sublist.map WorkFun.num)
  · exact fun w w' wf member wf' member' =>
      jobs.apart w w' wf ((started w).subset member) wf' ((started w').subset member')
  · intro w head
    obtain ⟨job, _, same, _⟩ := (jobs.served w).current none head
    cases same
  · intro pool listed waiting unposting
    have idle (i : Nat) (below : i < (s.pools pool).amt)
        : (s.pts (pool, i)).executed = (s.pts (pool, i)).posted :=
      jobs.idle guarded listed (waiting i below).1 (waiting i below).2 unposting
    refine ⟨idle, fun n allocated => ?_⟩
    rcases jobs.located pool n allocated with ⟨i, below, posted⟩ | ⟨t, wf, cargo, _⟩
    · exact ⟨i, below, (idle i below).symm ▸ posted⟩
    · match place : s.callers t with
      | .post posting => exact absurd place (unposting t posting)
      | .outside _ | .leaving _ | .deinit _ | .create _ | .destroy _ | .tear .. | .release .. =>
          rw [place] at cargo
          cases cargo

/-- A call and so many of its steps. -/
def calling (t : Thread θ) (call : Call φ δ) (steps : Nat) : List (Action θ φ δ) :=
  .call t call :: List.replicate steps (.proceed t true)

/-- So many steps of a worker. -/
def working (w : Slot) (steps : Nat) : List (Action θ φ δ) := List.replicate steps (.work w)

/-- A pool of one worker, and two jobs posted to it. -/
def twoJobs : List (Action Unit Unit Unit) :=
  calling (.app ()) .init 0 ++ calling (.app ()) (.create 1) 4 ++ working (0, 0) 1
    ++ List.replicate 2 (.proceed (.app ()) true)
    ++ calling (.app ()) (.post ⟨0, some (), ()⟩) 11
    ++ calling (.app ()) (.post ⟨0, some (), ()⟩) 12

/-- One worker executes two jobs. -/
theorem jobs_executed_two
    : let s :=
        (Transition.run (step 1) State.initial (twoJobs ++ working (0, 0) 22)).get (by decide)
      (s.pts (0, 0)).executed <+: (s.pts (0, 0)).posted
      ∧ (s.pts (0, 0)).executed.map WorkFun.num = [0, 1] :=
  ⟨(jobs_executed (Option.some_get _).symm).2.2.1 (0, 0), by rfl⟩

end Libccll.Thrdpool
