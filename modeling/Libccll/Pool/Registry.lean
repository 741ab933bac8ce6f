import Libccll.Foundation.Transition
import Libccll.Pool.Workers

/-! The list of pools and its lock: what the threads that call the library rely on.
`Turn` says once what a step can do; the invariants of the pools are preserved by every turn.
-/

namespace Libccll.Thrdpool

variable {θ φ δ : Type*}

-----------------------------------------------------------------------------------------
-- Places
-----------------------------------------------------------------------------------------

/-- Between lock and unlock of `g_mtx_pols`. -/
def Caller.Holds : Caller φ δ → Prop
  | .create (.counting _) | .create (.threads ..) | .create (.spinning _) => True
  | .destroy (.popping _) | .destroy (.popped _) => True
  | .deinit .sizing | .deinit (.looping _) => True
  | .tear _ _ _ turns | .release _ turns => turns.isSome = true
  | .post (.locking _) => False
  | .post _ | .leaving _ => True
  | _ => False

/-- What a posting thread still has to hand over: a node, or the token for one it linked. -/
inductive Cargo (φ δ : Type*) where
  | nothing
  | node (pool : Nat) (wf : WorkFun φ δ)
  | token (w : Slot)

def Caller.cargo : Caller φ δ → Cargo φ δ
  | .post (.filled pool _ wf) | .post (.adding pool _ wf) => .node pool wf
  | .post (.linked pool pt) => .token (pool, pt)
  | _ => .nothing

/-- `pthread_join` of the worker has returned: it had exited, or was not waited for. -/
def State.Joined (s : State θ φ δ) (w : Slot) : Prop :=
  (s.pts w).place = .exited ∨ w ∈ s.unjoined

/-- Where a caller stands, it has seen that much of the pools. -/
def Caller.Sound (s : State θ φ δ) : Caller φ δ → Prop
  | .create (.threads pool i) =>
      pool < s.created
      ∧ pool ∉ s.gLiPols
      ∧ pool ∉ s.popped
      ∧ ∀ j, i ≤ j → (s.pts (pool, j)).place = .absent
  | .destroy (.popped (some pool)) => pool ∈ s.popped
  | .tear pool i place _ =>
      pool ∈ s.popped
      ∧ (∀ j < i, s.Joined (pool, j))
      ∧ (place = .waking → (s.pts (pool, i)).exit = true)
  | .release pool _ =>
      pool ∈ s.popped ∧ ∀ j < (s.pools pool).amt, s.Joined (pool, j)
  | .post (.scanning _ pool _ _ pt) | .post (.measured _ pool _ _ pt _)
  | .post (.selected _ pool pt) | .post (.filled pool pt _) =>
      pool ∈ s.gLiPols ∧ ∀ j ∈ pt, j < (s.pools pool).amt
  | .post (.measuring _ pool i _ pt) =>
      pool ∈ s.gLiPols ∧ i < (s.pools pool).amt ∧ ∀ j ∈ pt, j < (s.pools pool).amt
  | .post (.adding pool pt _) | .post (.linked pool pt) | .post (.signalled pool pt) =>
      pool ∈ s.gLiPols ∧ pt < (s.pools pool).amt
  | _ => True

/-- The pools. Only workers of a pool that has been popped are told to leave. -/
structure Registered (s : State θ φ δ) : Prop where
  listed : ∀ pool ∈ s.gLiPols, pool < s.created ∧ pool ∉ s.popped
  distinct : s.gLiPols.Nodup
  popped : ∀ pool ∈ s.popped, pool < s.created
  exiting : ∀ w, (s.pts w).exit = true → w.1 ∈ s.popped
  leaving : ∀ w, (s.pts w).place.Leaving → (s.pts w).exit = true
  released
    : ∀ pool ∈ s.released,
        pool ∈ s.popped ∧ ∀ j < (s.pools pool).amt, s.Joined (pool, j)

/-- The pools and their callers, of which one holds the lock. -/
structure Guarded (s : State θ φ δ) : Prop extends Registered s where
  holder : ∀ t, (s.callers t).Holds → s.gMtxPols = some t
  sound : ∀ t, (s.callers t).Sound s

theorem guarded_initial : Guarded (State.initial : State θ φ δ) where
  listed := nofun
  distinct := List.nodup_nil
  popped := nofun
  exiting := nofun
  leaving := nofun
  released := nofun
  holder := nofun
  sound _ := trivial

-----------------------------------------------------------------------------------------
-- Turns
-----------------------------------------------------------------------------------------

section

variable [DecidableEq θ]

/-- The thread may go on to a place, with the lock left in these hands. -/
structure Goes (s : State θ φ δ) (t : Thread θ) (place : Caller φ δ) (g : Option (Thread θ))
    : Prop where
  holds : place.Holds → g = some t
  others : ∀ t', t' ≠ t → (s.callers t').Holds → g = some t'

/-- What a step of a caller can do. -/
inductive Turn (s : State θ φ δ) : State θ φ δ → Prop where
  | stop : Turn s s.stop
  | move {t place g gInit gMtxDestroyed} (goes : Goes s t place g) (sound : place.Sound s)
      (cargo : place.cargo = (s.callers t).cargo)
      : Turn s { s.moveTo t place with gMtxPols := g, gInit, gMtxDestroyed }
  | relock {t place w mtx} (holds : place.Holds → (s.callers t).Holds) (sound : place.Sound s)
      (cargo : place.cargo = (s.callers t).cargo)
      : Turn s ((s.setPt w { s.pts w with mtx }).moveTo t place)
  | measure {t place pool i} (holds : place.Holds → (s.callers t).Holds) (sound : place.Sound s)
      (cargo : place.cargo = (s.callers t).cargo) (listed : pool ∈ s.gLiPols)
      : Turn s ((s.touch (s.pts (pool, i)).wkfnList).moveTo t place)
  | pop {t place pool} (holds : (s.callers t).Holds) (listed : pool ∈ s.gLiPols)
      (sound : place.Sound (s.pop pool)) (cargo : place.cargo = .nothing)
      (cargo' : (s.callers t).cargo = .nothing)
      : Turn s ((s.pop pool).moveTo t place)
  | create {t amount id} (here : s.callers t = .create (.counting amount))
      : Turn s ((s.addPool id amount).moveTo t (.create (.threads s.created 0)))
  | start {t pool i} (here : s.callers t = .create (.threads pool i))
      : Turn s ((s.workTo (pool, i) .started).moveTo t (.create (.threads pool (i + 1))))
  | list {t pool i} (here : s.callers t = .create (.threads pool i))
      : Turn s { s.moveTo t (.create (.spinning pool)) with gLiPols := s.gLiPols ++ [pool] }
  | flag {t pool i turns} (here : s.callers t = .tear pool i .flagging turns)
      : Turn s
          ((s.setPt (pool, i) { s.pts (pool, i) with exit := true }).moveTo t
            (.tear pool i .waking turns))
  | wake {t pool i turns} (here : s.callers t = .tear pool i .waking turns)
      : Turn s ((s.semPost (pool, i)).moveTo t (.tear pool i .unlocking turns))
  | refused {t pool i turns} (here : s.callers t = .tear pool i .joining turns)
      (refused : s.edeadlk (pool, i) t = true)
      : Turn s
          {
            s.moveTo t (.tear pool (i + 1) .locking turns) with
            unjoined := s.unjoined ++ [(pool, i)]
          }
  | release {t pool turns} (here : s.callers t = .release pool turns)
      : Turn s (s.releasePool t pool turns)
  | allocate {t request pool pt} (here : s.callers t = .post (.selected request pool pt))
      : Turn s
          ((s.addNode pool).moveTo t
            (.post (.filled pool pt ⟨s.nodes, request.fn, request.args⟩)))
  | link {t pool pt wf} (here : s.callers t = .post (.adding pool pt wf))
      : Turn s ((s.link (pool, pt) wf).moveTo t (.post (.linked pool pt)))
  | signal {t pool pt} (here : s.callers t = .post (.linked pool pt))
      : Turn s ((s.semPost (pool, pt)).moveTo t (.post (.signalled pool pt)))

end

variable {s s' : State θ φ δ} {t : Thread θ} {w : Slot}

/-- Only the owner of the lock is between lock and unlock. -/
theorem Guarded.holder_unique (guarded : Guarded s) {t' : Thread θ}
    (holds : (s.callers t).Holds) (holds' : (s.callers t').Holds)
    : t' = t :=
  Option.some.inj ((guarded.holder t' holds').symm.trans (guarded.holder t holds))

/-- A worker of a listed pool has not been told to leave. -/
theorem Guarded.staying (guarded : Guarded s) {pool i : Nat} (listed : pool ∈ s.gLiPols)
    : (s.pts (pool, i)).exit = false ∧ ¬(s.pts (pool, i)).place.Leaving := by
  have staying : (s.pts (pool, i)).exit = false :=
    Bool.eq_false_iff.mpr fun exit => (guarded.listed pool listed).2 (guarded.exiting _ exit)
  exact ⟨staying, fun leaving => nomatch staying.symm.trans (guarded.leaving _ leaving)⟩

/-- The workers of a new pool are fresh. -/
theorem State.addPool_pts {id : Int} {amount : Nat} (w : Slot)
    : w.1 ≠ s.created ∧ (s.addPool id amount).pts w = s.pts w
      ∨ (s.addPool id amount).pts w = .initial := by
  rcases eq_or_ne w.1 s.created with new | old
  · exact Or.inr (if_pos new)
  · exact Or.inl ⟨old, if_neg old⟩

theorem State.moveTo_self [DecidableEq θ] {place : Caller φ δ}
    : (s.moveTo t place).callers t = place := by
  simp [State.moveTo]

theorem State.moveTo_of_ne [DecidableEq θ] {place : Caller φ δ} {t' : Thread θ} (other : t' ≠ t)
    : (s.moveTo t place).callers t' = s.callers t' := by
  simp [State.moveTo, other]

/-- What stays of the pools known to a caller. -/
structure Extends (s s' : State θ φ δ) : Prop where
  created : s.created ≤ s'.created
  popped : s.popped ⊆ s'.popped
  amt : ∀ pool < s.created, (s'.pools pool).amt = (s.pools pool).amt
  exit : ∀ w, w.1 ∈ s.popped → (s.pts w).exit = true → (s'.pts w).exit = true
  exited : ∀ w, w.1 ∈ s.popped → (s.pts w).place = .exited → (s'.pts w).place = .exited
  unjoined : s.unjoined ⊆ s'.unjoined

theorem Extends.refl (s : State θ φ δ) : Extends s s :=
  ⟨Nat.le_refl _, List.Subset.refl _, fun _ _ => rfl, fun _ _ => id, fun _ _ => id,
    List.Subset.refl _⟩

theorem Extends.joined (ext : Extends s s') (popped : w.1 ∈ s.popped) (joined : s.Joined w)
    : s'.Joined w :=
  joined.imp (ext.exited w popped) fun member => ext.unjoined member

/-- What only the owner of the lock changes. -/
structure Same (s s' : State θ φ δ) : Prop where
  gLiPols : s'.gLiPols = s.gLiPols
  popped : s'.popped = s.popped
  absent : ∀ w, (s.pts w).place = .absent → (s'.pts w).place = .absent

theorem Same.refl (s : State θ φ δ) : Same s s := ⟨rfl, rfl, fun _ => id⟩

/-- What a caller has seen stays true; what it saw under the lock does while it holds that. -/
theorem Caller.Sound.extends {c : Caller φ δ} (sound : c.Sound s) (pools : Registered s)
    (ext : Extends s s') (same : c.Holds → Same s s')
    : c.Sound s' := by
  have torn {pool i : Nat} (popped : pool ∈ s.popped)
      (joined : ∀ j < i, s.Joined (pool, j))
      : ∀ j < i, s'.Joined (pool, j) :=
    fun j below => ext.joined popped (joined j below)
  have open_ {pool : Nat} (same : Same s s') (listed : pool ∈ s.gLiPols)
      : pool ∈ s'.gLiPols ∧ (s'.pools pool).amt = (s.pools pool).amt :=
    ⟨same.gLiPols ▸ listed, ext.amt pool (pools.listed pool listed).1⟩
  match c with
  | .create (.threads pool i) =>
      obtain ⟨lists, popped, absent⟩ := same trivial
      obtain ⟨created, unlisted, unpopped, rest⟩ := sound
      exact ⟨Nat.lt_of_lt_of_le created ext.created, lists ▸ unlisted, popped ▸ unpopped,
        fun j above => absent _ (rest j above)⟩
  | .destroy (.popped (some pool)) => exact ext.popped sound
  | .tear pool i place turns =>
      obtain ⟨popped, joined, flagged⟩ := sound
      exact ⟨ext.popped popped, torn popped joined, fun h => ext.exit _ popped (flagged h)⟩
  | .release pool turns =>
      obtain ⟨popped, joined⟩ := sound
      refine ⟨ext.popped popped, ?_⟩
      rw [ext.amt pool (pools.popped pool popped)]
      exact torn popped joined
  | .post (.scanning _ pool _ _ pt) | .post (.measured _ pool _ _ pt _)
  | .post (.selected _ pool pt) | .post (.filled pool pt _) =>
      obtain ⟨listed, amt⟩ := open_ (same trivial) sound.1
      exact ⟨listed, amt ▸ sound.2⟩
  | .post (.measuring _ pool i _ pt) =>
      obtain ⟨listed, amt⟩ := open_ (same trivial) sound.1
      exact ⟨listed, amt ▸ sound.2⟩
  | .post (.adding pool pt _) | .post (.linked pool pt) | .post (.signalled pool pt) =>
      obtain ⟨listed, amt⟩ := open_ (same trivial) sound.1
      exact ⟨listed, amt ▸ sound.2⟩
  | .outside _ | .leaving _ | .deinit _ | .create (.locking _) | .create (.counting _)
  | .create (.spinning _) | .destroy (.locking _) | .destroy (.popping _)
  | .destroy (.popped none) | .post (.locking _) | .post (.finding _) => trivial

theorem Registered.setPt (pools : Registered s) {pt : PolThrd θ φ δ} {readFreed : Bool}
    (exiting : pt.exit = true → w.1 ∈ s.popped) (leaving : pt.place.Leaving → pt.exit = true)
    (exited : w.1 ∈ s.popped → (s.pts w).place = .exited → pt.place = .exited)
    : Registered { s.setPt w pt with readFreed } := by
  have at_ (w' : Slot)
      : w' = w ∧ { s.setPt w pt with readFreed }.pts w' = pt
        ∨ { s.setPt w pt with readFreed }.pts w' = s.pts w' := by
    rcases eq_or_ne w' w with rfl | other
    · exact Or.inl ⟨rfl, State.setPt_self⟩
    · exact Or.inr (State.setPt_of_ne other)
  refine { pools with exiting := ?_, leaving := ?_, released := ?_ }
  · intro w'
    rcases at_ w' with ⟨rfl, same⟩ | same <;> rw [same]
    · exact exiting
    · exact pools.exiting w'
  · intro w'
    rcases at_ w' with ⟨rfl, same⟩ | same <;> rw [same]
    · exact leaving
    · exact pools.leaving w'
  · intro pool member
    obtain ⟨popped, joined⟩ := pools.released pool member
    refine ⟨popped, fun j below => (joined j below).imp_left fun left => ?_⟩
    rcases at_ (pool, j) with ⟨rfl, same⟩ | same <;> rw [same]
    · exact exited popped left
    · exact left

theorem Extends.setPt {pt : PolThrd θ φ δ} {readFreed : Bool}
    (exit : w.1 ∈ s.popped → (s.pts w).exit = true → pt.exit = true)
    (exited : w.1 ∈ s.popped → (s.pts w).place = .exited → pt.place = .exited)
    : Extends s { s.setPt w pt with readFreed } := by
  refine { Extends.refl s with exit := ?_, exited := ?_ }
  · intro w' popped
    change _ → ((s.setPt w pt).pts w').exit = true
    rcases eq_or_ne w' w with rfl | other
    · rw [State.setPt_self]
      exact exit popped
    · rw [State.setPt_of_ne other]
      exact id
  · intro w' popped
    change _ → ((s.setPt w pt).pts w').place = .exited
    rcases eq_or_ne w' w with rfl | other
    · rw [State.setPt_self]
      exact exited popped
    · rw [State.setPt_of_ne other]
      exact id

theorem Same.setPt {pt : PolThrd θ φ δ} {readFreed : Bool}
    (absent : (s.pts w).place = .absent → pt.place = .absent)
    : Same s { s.setPt w pt with readFreed } := by
  refine ⟨rfl, rfl, fun w' => ?_⟩
  change _ → ((s.setPt w pt).pts w').place = .absent
  rcases eq_or_ne w' w with rfl | other
  · rw [State.setPt_self]
    exact absent
  · rw [State.setPt_of_ne other]
    exact id

/-- A caller that keeps the lock, or lack of it. -/
theorem Guarded.goes (guarded : Guarded s) {place : Caller φ δ}
    (holds : place.Holds → (s.callers t).Holds)
    : Goes s t place s.gMtxPols :=
  ⟨fun h => guarded.holder t (holds h), fun t' _ h => guarded.holder t' h⟩

theorem Registered.pop (pools : Registered s) {pool : Nat} (listed : pool ∈ s.gLiPols)
    : Registered (s.pop pool) where
  listed k member := by
    obtain ⟨other, member⟩ := pools.distinct.mem_erase_iff.mp member
    obtain ⟨created, unpopped⟩ := pools.listed k member
    refine ⟨created, fun popped => ?_⟩
    rcases List.mem_append.mp popped with popped | popped
    · exact unpopped popped
    · exact other (List.mem_singleton.mp popped)
  distinct := pools.distinct.erase pool
  popped k member := by
    rcases List.mem_append.mp member with popped | popped
    · exact pools.popped k popped
    · exact List.mem_singleton.mp popped ▸ (pools.listed pool listed).1
  exiting w exit := List.mem_append_left _ (pools.exiting w exit)
  leaving := pools.leaving
  released k member :=
    ⟨List.mem_append_left _ (pools.released k member).1, (pools.released k member).2⟩

theorem Extends.pop {pool : Nat} : Extends s (s.pop pool) :=
  { Extends.refl s with popped := List.subset_append_left _ _ }

theorem Registered.addPool (pools : Registered s) {id : Int} {amount : Nat}
    : Registered (s.addPool id amount) where
  listed k member := ⟨Nat.lt_succ_of_lt (pools.listed k member).1, (pools.listed k member).2⟩
  distinct := pools.distinct
  popped k member := Nat.lt_succ_of_lt (pools.popped k member)
  exiting w := by
    rcases s.addPool_pts w with ⟨_, same⟩ | new
    · exact same ▸ pools.exiting w
    · exact new ▸ nofun
  leaving w := by
    rcases s.addPool_pts w with ⟨_, same⟩ | new
    · exact same ▸ pools.leaving w
    · exact new ▸ nofun
  released k member := by
    obtain ⟨popped, joined⟩ := pools.released k member
    have other : k ≠ s.created := Nat.ne_of_lt (pools.popped k popped)
    refine ⟨popped, fun j below => ?_⟩
    simp only [State.addPool, Function.update_of_ne other] at below
    simp only [State.Joined, State.addPool, if_neg other]
    exact joined j below

theorem Extends.addPool (pools : Registered s) {id : Int} {amount : Nat}
    : Extends s (s.addPool id amount) where
  created := Nat.le_succ _
  popped := List.Subset.refl _
  amt k below := by simp [State.addPool, Nat.ne_of_lt below]
  exit w popped := by simp [State.addPool, Nat.ne_of_lt (pools.popped _ popped)]
  exited w popped := by simp [State.addPool, Nat.ne_of_lt (pools.popped _ popped)]
  unjoined := List.Subset.refl _

theorem Frame.registered (frame : Frame s w s') (pools : Registered s) : Registered s' where
  listed := by
    rw [frame.gLiPols, frame.created, frame.popped]
    exact pools.listed
  distinct := frame.gLiPols ▸ pools.distinct
  popped := by
    rw [frame.created, frame.popped]
    exact pools.popped
  exiting w' := by
    rw [frame.popped]
    rcases eq_or_ne w' w with rfl | other
    · rw [frame.exit]
      exact pools.exiting w'
    · rw [frame.others w' other]
      exact pools.exiting w'
  leaving w' := by
    rcases eq_or_ne w' w with rfl | other
    · rw [frame.exit]
      exact fun leaving => (frame.leaving leaving).elim id (pools.leaving w')
    · rw [frame.others w' other]
      exact pools.leaving w'
  released pool := by
    rw [frame.released, frame.popped, frame.amt]
    intro member
    obtain ⟨popped, joined⟩ := pools.released pool member
    refine ⟨popped, fun j below => ?_⟩
    refine (joined j below).imp (fun exited => ?_) fun member => frame.unjoined.symm ▸ member
    rw [frame.others (pool, j) fun same => frame.staying (same ▸ exited)]
    exact exited

theorem Frame.extends (frame : Frame s w s') : Extends s s' where
  created := Nat.le_of_eq frame.created.symm
  popped := fun _ => frame.popped.symm ▸ id
  amt pool _ := frame.amt pool
  exit w' _ exit := by
    rcases eq_or_ne w' w with rfl | other
    · rw [frame.exit, exit]
    · rw [frame.others w' other, exit]
  exited w' _ exited := by
    rw [frame.others w' fun same => frame.staying (same ▸ exited), exited]
  unjoined := fun _ => frame.unjoined.symm ▸ id

theorem Guarded.work (guarded : Guarded s) (work : Work s w s') : Guarded s' := by
  have frame := work.frame
  have same : Same s s' := by
    refine ⟨frame.gLiPols, frame.popped, fun w' absent => ?_⟩
    rw [frame.others w' fun same => frame.present (same ▸ absent), absent]
  refine { toRegistered := frame.registered guarded.toRegistered, holder := ?_, sound := ?_ }
  · rw [frame.callers, frame.gMtxPols]
    exact guarded.holder
  · intro t
    rw [frame.callers]
    exact (guarded.sound t).extends guarded.toRegistered frame.extends fun _ => same

variable [DecidableEq θ]

/-- A caller that moves on after such a change. -/
theorem Guarded.follow (guarded : Guarded s) (s' : State θ φ δ) (place : Caller φ δ)
    (callers : s'.callers = s.callers) (pools : Registered s') (ext : Extends s s')
    (unchanged : (s.callers t).Holds ∨ Same s s')
    {g : Option (Thread θ)} (goes : Goes s t place g) (sound : place.Sound s')
    {gInit gMtxDestroyed : Bool}
    : Guarded { s'.moveTo t place with gMtxPols := g, gInit, gMtxDestroyed } := by
  refine
    { toRegistered := ⟨pools.1, pools.2, pools.3, pools.4, pools.5, pools.6⟩,
      holder := ?_,
      sound := ?_ }
  · intro t'
    change (Function.update s'.callers t place t').Holds → _
    rcases eq_or_ne t' t with rfl | other
    · rw [Function.update_self]
      exact goes.holds
    · rw [Function.update_of_ne other, callers]
      exact goes.others t' other
  · intro t'
    change (Function.update s'.callers t place t').Sound s'
    rcases eq_or_ne t' t with rfl | other
    · rw [Function.update_self]
      exact sound
    · rw [Function.update_of_ne other, callers]
      refine (guarded.sound t').extends guarded.toRegistered ext fun holds => ?_
      rcases unchanged with holder | unchanged
      · exact absurd (guarded.holder_unique holder holds) other
      · exact unchanged

/-- A caller that moves on and changes a `PolThrd`, but not where its worker is to go. -/
theorem Guarded.followPt (guarded : Guarded s) {pt : PolThrd θ φ δ} (place : Caller φ δ)
    (exit : pt.exit = (s.pts w).exit) (here : pt.place = (s.pts w).place)
    (holds : place.Holds → (s.callers t).Holds) (sound : place.Sound s) {readFreed : Bool}
    : Guarded ({ s.setPt w pt with readFreed }.moveTo t place) := by
  have pools := guarded.toRegistered
  have ext : Extends s { s.setPt w pt with readFreed } :=
    .setPt (fun _ => exit.trans) fun _ => here.trans
  have same : Same s { s.setPt w pt with readFreed } := .setPt here.trans
  refine guarded.follow { s.setPt w pt with readFreed } place rfl ?_ ext (Or.inr same)
    (guarded.goes holds) (sound.extends pools ext fun _ => same)
  refine pools.setPt ?_ ?_ fun _ => here.trans
  · rw [exit]
    exact pools.exiting w
  · rw [exit, here]
    exact pools.leaving w

theorem Guarded.turn (guarded : Guarded s) (turn : Turn s s') : Guarded s' := by
  have pools := guarded.toRegistered
  cases turn with
  | stop => exact { guarded with }
  | move goes sound cargo =>
      exact guarded.follow s _ rfl pools (.refl s) (Or.inr (.refl s)) goes sound
  | relock holds sound cargo => exact guarded.followPt _ (by rfl) (by rfl) holds sound
  | @measure t place pool i holds sound cargo listed =>
      exact guarded.follow (s.touch (s.pts (pool, i)).wkfnList) place rfl { pools with }
        { Extends.refl s with } (Or.inr { Same.refl s with }) (guarded.goes holds) sound
  | @pop t place pool holds listed sound cargo cargo' =>
      exact guarded.follow (s.pop pool) place rfl (pools.pop listed) .pop (Or.inl holds)
        (guarded.goes fun _ => holds) sound
  | @create t amount id here =>
      have holds : (s.callers t).Holds := by rw [here]; trivial
      refine guarded.follow (s.addPool id amount) (.create (.threads s.created 0)) rfl
        pools.addPool (.addPool pools) (Or.inl holds) (guarded.goes fun _ => holds)
        ⟨Nat.lt_succ_self _, ?_, ?_, ?_⟩
      · exact fun listed => absurd (pools.listed _ listed).1 (Nat.lt_irrefl _)
      · exact fun popped => absurd (pools.popped _ popped) (Nat.lt_irrefl _)
      · exact fun j _ => by simp [State.addPool, PolThrd.initial]
  | @start t pool i here =>
      have holds : (s.callers t).Holds := by rw [here]; trivial
      have sound := guarded.sound t
      rw [here] at sound
      obtain ⟨created, unlisted, unpopped, absent⟩ := sound
      have leaving {P : Prop} (popped : pool ∈ s.popped) : P := absurd popped unpopped
      refine guarded.follow (s.workTo (pool, i) .started) (.create (.threads pool (i + 1))) rfl
        (pools.setPt (pools.exiting _) False.elim fun h => leaving h)
        (.setPt (fun _ => id) fun h => leaving h) (Or.inl holds) (guarded.goes fun _ => holds)
        ⟨created, unlisted, unpopped, fun j above => ?_⟩
      have other : (pool, j) ≠ (pool, i) := fun same => by
        cases same
        omega
      simpa [State.workTo, State.setPt, other] using absent j (Nat.le_of_succ_le above)
  | @list t pool i here =>
      have holds : (s.callers t).Holds := by rw [here]; trivial
      have sound := guarded.sound t
      rw [here] at sound
      obtain ⟨created, unlisted, unpopped, _⟩ := sound
      refine guarded.follow { s with gLiPols := s.gLiPols ++ [pool] } (.create (.spinning pool))
        rfl { pools with listed := ?_, distinct := ?_ } { Extends.refl s with } (Or.inl holds)
        (guarded.goes fun _ => holds) trivial
      · intro k member
        rcases List.mem_append.mp member with old | new
        · exact pools.listed k old
        · rw [List.mem_singleton.mp new]
          exact ⟨created, unpopped⟩
      · refine List.nodup_append.mpr ⟨pools.distinct, by simp, ?_⟩
        exact fun k listed k' new same => unlisted (List.mem_singleton.mp new ▸ same ▸ listed)
  | @flag t pool i turns here =>
      have sound := guarded.sound t
      rw [here] at sound
      obtain ⟨popped, joined, _⟩ := sound
      have ext : Extends s (s.setPt (pool, i) { s.pts (pool, i) with exit := true }) :=
        .setPt (fun _ _ => rfl) fun _ => id
      refine guarded.follow (s.setPt (pool, i) { s.pts (pool, i) with exit := true })
        (.tear pool i .waking turns) rfl
        (pools.setPt (fun _ => popped) (fun _ => rfl) fun _ => id) ext (Or.inr (.setPt id))
        (guarded.goes fun holds => by rw [here]; exact holds) ⟨popped, ?_, ?_⟩
      · exact fun j below => ext.joined popped (joined j below)
      · exact fun _ => congrArg PolThrd.exit State.setPt_self
  | @wake t pool i turns here =>
      have sound := guarded.sound t
      rw [here] at sound
      exact guarded.followPt (.tear pool i .unlocking turns) (by rfl) (by rfl)
        (fun holds => by rw [here]; exact holds) ⟨sound.1, sound.2.1, fun same => by cases same⟩
  | @refused t pool i turns here refused =>
      have sound := guarded.sound t
      rw [here] at sound
      obtain ⟨popped, joined, _⟩ := sound
      have ext : Extends s { s with unjoined := s.unjoined ++ [(pool, i)] } :=
        { Extends.refl s with unjoined := List.subset_append_left _ _ }
      refine guarded.follow { s with unjoined := s.unjoined ++ [(pool, i)] }
        (.tear pool (i + 1) .locking turns) rfl { pools with released := fun k member => ?_ } ext
        (Or.inr { Same.refl s with }) (guarded.goes fun holds => by rw [here]; exact holds)
        ⟨popped, fun j below => ?_, fun same => by cases same⟩
      · obtain ⟨gone, joined⟩ := pools.released k member
        exact ⟨gone, fun j below => ext.joined gone (joined j below)⟩
      · rcases Nat.lt_succ_iff_lt_or_eq.mp below with earlier | rfl
        · exact ext.joined popped (joined j earlier)
        · exact Or.inr (List.mem_append_right _ (List.mem_singleton_self _))
  | @release t pool turns here =>
      have sound := guarded.sound t
      rw [here] at sound
      have released : Registered { s with released := s.released ++ [pool] } := by
        refine { pools with released := fun k member => ?_ }
        rcases List.mem_append.mp member with old | new
        · exact pools.released k old
        · exact List.mem_singleton.mp new ▸ sound
      have ext : Extends s { s with released := s.released ++ [pool] } := { Extends.refl s with }
      have same : Same s { s with released := s.released ++ [pool] } := { Same.refl s with }
      cases turns with
      | none =>
          exact guarded.follow { s with released := s.released ++ [pool] } (.outside .void) rfl
            released ext (Or.inr same) (guarded.goes False.elim) trivial
      | some turns =>
          exact guarded.follow { s with released := s.released ++ [pool] }
            (.deinit (.looping turns)) rfl released ext (Or.inr same)
            (guarded.goes fun _ => by rw [here]; rfl) trivial
  | @allocate t request pool pt here =>
      have sound := guarded.sound t
      rw [here] at sound
      have amt (k : Nat) : ((s.addNode pool).pools k).amt = (s.pools k).amt := by
        rcases eq_or_ne k pool with rfl | other
        · simp [State.addNode]
        · simp [State.addNode, other]
      have ext : Extends s (s.addNode pool) := { Extends.refl s with amt := fun k _ => amt k }
      have pools' : Registered (s.addNode pool) := by
        refine { pools with released := fun k member => ?_ }
        rw [amt]
        exact pools.released k member
      refine guarded.follow (s.addNode pool) (.post (.filled pool pt _)) rfl pools' ext
        (Or.inr { Same.refl s with }) (guarded.goes fun _ => by rw [here]; trivial) ⟨sound.1, ?_⟩
      rw [amt]
      exact sound.2
  | @link t pool pt wf here =>
      have sound := guarded.sound t
      rw [here] at sound
      exact guarded.followPt (.post (.linked pool pt)) (by rfl) (by rfl)
        (fun _ => by rw [here]; trivial) sound
  | @signal t pool pt here =>
      have sound := guarded.sound t
      rw [here] at sound
      exact guarded.followPt (.post (.signalled pool pt)) (by rfl) (by rfl)
        (fun _ => by rw [here]; trivial) sound

end Libccll.Thrdpool
