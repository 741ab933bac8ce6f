import Libccll.Event.Listeners

/-! Whether `cl_evt_sub` and `cl_evt_unsub` return what has become of the pair. -/

namespace Libccll.Event

open Foundation
open Queue (Heap listForEach)

variable {α κ δ φ : Type*} [DecidableEq α]

/-- The pairs that a walk of the list meets. -/
def Listeners.pairs (liLsnrs : α) (s : Listeners α κ δ φ) : Option (List (ClEvtLsnr κ)) :=
  (listForEach s.heap (s.added.length + 1) liLsnrs).map (·.map s.lsnrs)

variable {liLsnrs : α} {s t : Listeners α κ δ φ} {nodes : List α}

theorem Registered.pairs (registered : Registered liLsnrs s nodes)
    : s.pairs liLsnrs = some (nodes.map s.lsnrs) := by
  rw [Listeners.pairs, registered.holds.forEach (Nat.lt_succ_of_le registered.length_le),
    Option.map_some]

/-- The loop of the event thread leaves the list alone. -/
theorem Registered.notify (registered : Registered liLsnrs s nodes) {step : NotifyStep δ φ}
    (stepped : Event.notify liLsnrs s step = some t)
    : Registered liLsnrs t nodes := by
  unfold Event.notify at stepped
  split at stepped
  case h_2 =>
    split at stepped
    · cases stepped
      exact { registered with }
    · split at stepped
      · cases stepped
        exact { registered with }
      · cases stepped
        exact { registered with }
  all_goals
    cases stepped
    try exact { registered with }

variable [DecidableEq κ]

/-- `cl_evt_sub` returns SUCC exactly when it leaves the pair in the list once, and changes
nothing else in the list.
-/
def SubTruthful (liLsnrs : α) (s : Listeners α κ δ φ) (pair : ClEvtLsnr κ) (block : Option α)
    : Prop :=
  ∃ ret t before after,
    clEvtSub liLsnrs s pair.no (some pair.cb) block = some (ret, t)
    ∧ s.pairs liLsnrs = some before
    ∧ t.pairs liLsnrs = some after
    ∧ (ret = .succ ↔ after.count pair = 1)
    ∧ after.filter (· ≠ pair) = before.filter (· ≠ pair)
    ∧ before <+: after

/-- `cl_evt_unsub` returns SUCC exactly when the pair was in the list, and removes it only. -/
def UnsubTruthful (liLsnrs : α) (s : Listeners α κ δ φ) (pair : ClEvtLsnr κ) : Prop :=
  ∃ ret t before after,
    clEvtUnsub liLsnrs s pair.no (some pair.cb) = some (ret, t)
    ∧ s.pairs liLsnrs = some before
    ∧ t.pairs liLsnrs = some after
    ∧ (ret = .succ ↔ pair ∈ before)
    ∧ pair ∉ after
    ∧ after = before.erase pair

/-- In every reachable state the list is as its history says. -/
theorem registered_step {action : Action α κ δ φ}
    (registered : ∃ nodes, Registered liLsnrs s nodes)
    (stepped : s.step liLsnrs action = some t)
    : ∃ nodes, Registered liLsnrs t nodes := by
  obtain ⟨nodes, registered⟩ := registered
  cases action with
  | sub evtNo callback block =>
      obtain ⟨⟨ret, t'⟩, subscribed, rfl⟩ := Option.map_eq_some_iff.mp stepped
      rcases clEvtSub_cases registered subscribed with rfl | ⟨_, newLsnr, _, _, _, registered'⟩
      · exact ⟨nodes, registered⟩
      · exact ⟨nodes ++ [newLsnr], registered'⟩
  | unsub evtNo callback =>
      obtain ⟨⟨ret, t'⟩, unsubscribed, rfl⟩ := Option.map_eq_some_iff.mp stepped
      rcases clEvtUnsub_cases registered unsubscribed with rfl | ⟨_, lsnr, _, _, _, _, registered'⟩
      · exact ⟨nodes, registered⟩
      · exact ⟨nodes.erase lsnr, registered'⟩
  | thread step => exact ⟨nodes, registered.notify stepped⟩

variable {pair : ClEvtLsnr κ} {block : Option α}

theorem Registered.sub_existing (registered : Registered liLsnrs s nodes)
    (member : pair ∈ nodes.map s.lsnrs)
    : SubTruthful liLsnrs s pair block := by
  have once : (nodes.map s.lsnrs).count pair = 1 :=
    List.count_eq_one_of_mem registered.distinct member
  exact ⟨_, _, _, _, clEvtSub_existing registered member block, registered.pairs,
    registered.pairs, iff_of_true rfl once, rfl, List.prefix_rfl⟩

theorem Registered.sub_allocated (registered : Registered liLsnrs s nodes)
    (new : pair ∉ nodes.map s.lsnrs) {newLsnr : α} (unused : s.live newLsnr = false)
    : SubTruthful liLsnrs s pair (some newLsnr) := by
  obtain ⟨heap, added, registered'⟩ := clEvtSub_new registered new (Bool.eq_false_iff.mp unused)
  have after := registered'.pairs
  rw [registered.insert_lsnrs (Bool.eq_false_iff.mp unused)] at after
  refine ⟨_, _, _, _, added, registered.pairs, after, iff_of_true rfl ?_, ?_,
    List.prefix_append _ _⟩
  · rw [List.count_append, List.count_eq_zero_of_not_mem new, List.count_singleton_self]
  · simp

/-- Without memory, `cl_evt_sub` returns SUCC although it adds nothing. -/
theorem Registered.sub_unallocated (registered : Registered liLsnrs s nodes)
    (new : pair ∉ nodes.map s.lsnrs)
    : ¬SubTruthful liLsnrs s pair none := by
  rintro ⟨ret, t, before, after, returned, _, pairs, truthful, _⟩
  simp only [clEvtSub, registered.find_absent new, Option.bind_some] at returned
  obtain ⟨rfl, rfl⟩ := Prod.mk.inj (Option.some.inj returned)
  obtain rfl := Option.some.inj (registered.pairs.symm.trans pairs)
  have once := truthful.mp rfl
  rw [List.count_eq_zero_of_not_mem new] at once
  cases once

theorem Registered.unsub (registered : Registered liLsnrs s nodes)
    : UnsubTruthful liLsnrs s pair := by
  by_cases member : pair ∈ nodes.map s.lsnrs
  · obtain ⟨lsnr, inside, same⟩ := List.mem_map.mp member
    obtain ⟨heap, removed, registered'⟩ := clEvtUnsub_member registered inside
    rw [same] at removed
    have after : (s.remove heap lsnr).pairs liLsnrs = some ((nodes.map s.lsnrs).erase pair) := by
      rw [registered'.pairs, ← same]
      exact congrArg some (Removal.map_erase_of_nodup registered.distinct inside)
    exact ⟨_, _, _, _, removed, registered.pairs, after, iff_of_true rfl member,
      registered.distinct.not_mem_erase, rfl⟩
  · exact ⟨_, _, _, _, clEvtUnsub_absent registered member, registered.pairs, registered.pairs,
      iff_of_false (by decide) member, member, (List.erase_of_not_mem member).symm⟩

/-- In every reachable state, and whatever malloc hands out, both functions return what has become
of a pair, if and only if the pair is in the list already or malloc succeeds.
-/
theorem subscriptions_truthful {heap : Heap α} {lsnrs : α → ClEvtLsnr κ}
    {actions : List (Action α κ δ φ)}
    (ran
      : Transition.run (Listeners.step liLsnrs) (Listeners.initial liLsnrs heap lsnrs) actions
        = some s)
    (pair : ClEvtLsnr κ) (unused : ∀ newLsnr ∈ block, s.live newLsnr = false)
    : SubTruthful liLsnrs s pair block ∧ UnsubTruthful liLsnrs s pair
      ↔ (∃ pairs, s.pairs liLsnrs = some pairs ∧ pair ∈ pairs) ∨ block.isSome = true := by
  obtain ⟨nodes, registered⟩ : ∃ nodes, Registered liLsnrs s nodes :=
    Transition.run_invariant registered_step ⟨[], registered_initial liLsnrs heap lsnrs⟩ ran
  rw [and_iff_left registered.unsub]
  by_cases member : pair ∈ nodes.map s.lsnrs
  · exact iff_of_true (registered.sub_existing member) (Or.inl ⟨_, registered.pairs, member⟩)
  · cases block with
    | some newLsnr =>
        exact iff_of_true (registered.sub_allocated member (unused newLsnr rfl)) (Or.inr rfl)
    | none =>
        refine iff_of_false (registered.sub_unallocated member) ?_
        rintro (⟨pairs, listed, inside⟩ | allocated)
        · obtain rfl := Option.some.inj (registered.pairs.symm.trans listed)
          exact member inside
        · cases allocated

/-- One listener subscribed. -/
def oneListener : List (Action Bool Unit Unit Unit) := [.sub 7 (some ()) (some true)]

/-- It is found again, though there is no memory for another one. -/
theorem subscriptions_truthful_again
    : let s :=
        (Transition.run (Listeners.step false)
          (Listeners.initial false (fun _ : Bool => ⟨none, none⟩) fun _ => ⟨0, ()⟩) oneListener).get
          (by decide)
      SubTruthful false s ⟨7, ()⟩ none ∧ UnsubTruthful false s ⟨7, ()⟩ :=
  (subscriptions_truthful (Option.some_get _).symm ⟨7, ()⟩ (by decide)).mpr
    (Or.inl ⟨[⟨7, ()⟩], by decide, by decide⟩)

/-- Without memory for the first one, SUCC is returned and nothing is subscribed. -/
theorem subscriptions_truthful_unallocated
    : ¬(SubTruthful false
          (Listeners.initial false (fun _ => ⟨none, none⟩) fun _ => ⟨0, ()⟩
            : Listeners Bool Unit Unit Unit)
          ⟨7, ()⟩ none
        ∧ UnsubTruthful false
          (Listeners.initial false (fun _ => ⟨none, none⟩) fun _ => ⟨0, ()⟩
            : Listeners Bool Unit Unit Unit)
          ⟨7, ()⟩) :=
  fun truthful => (registered_initial false _ _).sub_unallocated List.not_mem_nil truthful.1

end Libccll.Event
