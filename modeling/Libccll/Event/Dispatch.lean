import Libccll.Event.Listeners

/-! The loop of the event thread while listeners come and go.
It holds no lock, and follows the link of a listener only after its callback: it gets through
the list when nobody takes away the listener it stands at.
-/

namespace Libccll.Event

open Foundation Queue

variable {α κ δ φ : Type*}

/-- No listener is unsubscribed while the loop stands at it; and none is gone when its own callback
returns.
-/
def Listeners.Undisturbed [DecidableEq α] (liLsnrs : α) (s : Listeners α κ δ φ)
    : Action α κ δ φ → Prop
  | .unsub evtNo (some callback) =>
      match s.notifier with
      | .standing _ (some lsnr) => lsnr ≠ liLsnrs → s.lsnrs lsnr ≠ ⟨evtNo, callback⟩
      | .consumed _ lsnr _ | .leaving _ lsnr _ => s.lsnrs lsnr ≠ ⟨evtNo, callback⟩
      | _ => True
  | .thread (.answer _) =>
      match s.notifier with
      | .calling _ _ n => n ∉ s.removed
      | _ => True
  | _ => True

instance [DecidableEq α] [DecidableEq κ] (liLsnrs : α) (s : Listeners α κ δ φ)
    (action : Action α κ δ φ)
    : Decidable (s.Undisturbed liLsnrs action) := by
  unfold Listeners.Undisturbed
  split
  · split <;> infer_instance
  · split <;> infer_instance
  · infer_instance

-----------------------------------------------------------------------------------------
-- How far the loop has come
-----------------------------------------------------------------------------------------

/-- Every listener numbered below `n` that the event is for has been invoked once, if it was
there when the loop began and still is; no other has been invoked.
-/
structure Passed (evt : ClEvt δ φ) (s : Listeners α κ δ φ) (n : Nat) : Prop where
  behind
    : ∀ m lsnr,
        m < n → m < s.began → m ∉ s.removed → s.added[m]? = some lsnr → lsnr.no = evt.no
          → s.invoked.count m = 1
  ahead : ∀ m, n ≤ m → s.invoked.count m = 0

/-- Where the loop stands, and how far it has come by then. -/
def Located (liLsnrs : α) (s : Listeners α κ δ φ) (nodes : List α) : Prop :=
  match s.notifier with
  | .idle => True
  | .standing _ none => False
  | .standing evt (some lsnr) =>
      lsnr = liLsnrs ∧ (∃ n, s.began ≤ n ∧ Passed evt s n)
        ∨ lsnr ∈ nodes ∧ Passed evt s (s.serial lsnr)
  | .calling evt lsnr n =>
      n < s.added.length
        ∧ Passed evt s (n + 1)
        ∧ (n ∉ s.removed → lsnr ∈ nodes ∧ s.serial lsnr = n)
  | .consumed evt lsnr n =>
      s.consumer = some n ∧ lsnr ∈ nodes ∧ s.serial lsnr = n ∧ Passed evt s (n + 1)
  | .leaving evt lsnr n => lsnr ∈ nodes ∧ s.serial lsnr = n ∧ Passed evt s (n + 1)
  | .releasing evt =>
      (∃ n, s.began ≤ n ∧ Passed evt s n)
        ∨ ∃ n, s.consumer = some n ∧ Passed evt s (n + 1)

/-- What holds in every state. -/
structure Surviving [DecidableEq α] (liLsnrs : α) (s : Listeners α κ δ φ) (nodes : List α)
    : Prop where
  registered : Registered liLsnrs s nodes
  began : s.began ≤ s.added.length
  located : Located liLsnrs s nodes

variable {liLsnrs : α} {s t : Listeners α κ δ φ} {nodes : List α} {evt : ClEvt δ φ}

/-- All listeners between two numbers are gone, or came only now. -/
theorem Passed.skip {n k : Nat} (passed : Passed evt s n) (le : n ≤ k)
    (between : ∀ m, n ≤ m → m < k → m < s.began → m ∈ s.removed)
    : Passed evt s k := by
  refine ⟨fun m lsnr below began left known matching => ?_, fun m above => ?_⟩
  · rcases Nat.lt_or_ge m n with behind | notBehind
    · exact passed.behind m lsnr behind began left known matching
    · exact absurd (between m notBehind below began) left
  · exact passed.ahead m (Nat.le_trans le above)

/-- Listeners added later and listeners removed do not matter. -/
theorem Passed.follow {n : Nat} (passed : Passed evt s n) (began : t.began = s.began)
    (early : s.began ≤ s.added.length) (added : s.added <+: t.added)
    (removed : s.removed ⊆ t.removed) (invoked : t.invoked = s.invoked)
    : Passed evt t n := by
  refine ⟨fun m lsnr below before left known matching => ?_, fun m above => ?_⟩
  · rw [began] at before
    obtain ⟨later, split⟩ := added
    rw [← split, List.getElem?_append_left (Nat.lt_of_lt_of_le before early)] at known
    rw [invoked]
    exact passed.behind m lsnr below before (fun gone => left (removed gone)) known matching
  · rw [invoked]
    exact passed.ahead m above

/-- The callback of a listener is called. -/
theorem Passed.call {lsnr : α} {entry : Entry κ δ φ} (passed : Passed evt s (s.serial lsnr))
    : Passed evt
        {
          s with
          notifier := .calling evt lsnr (s.serial lsnr)
          log := s.log ++ [entry]
          invoked := s.invoked ++ [s.serial lsnr]
        }
        (s.serial lsnr + 1) := by
  refine ⟨fun m found below early left known matching => ?_, fun m above => ?_⟩
  · rcases Nat.lt_succ_iff_lt_or_eq.mp below with behind | rfl
    · rw [List.count_append, passed.behind m found behind early left known matching,
        List.count_singleton, beq_eq_false_iff_ne.mpr (Nat.ne_of_gt behind)]
      rfl
    · rw [List.count_append, passed.ahead _ le_rfl, List.count_singleton_self]
  · have beyond : s.serial lsnr ≠ m := Nat.ne_of_lt above
    rw [List.count_append, passed.ahead m (Nat.le_of_succ_le above), List.count_singleton,
      beq_eq_false_iff_ne.mpr beyond]
    rfl

/-- A subscription or an unsubscription that spares the listener the loop stands at. -/
theorem Located.follow {nodes' : List α} (located : Located liLsnrs s nodes)
    (early : s.began ≤ s.added.length) (notifier : t.notifier = s.notifier)
    (began : t.began = s.began) (added : s.added <+: t.added) (removed : s.removed ⊆ t.removed)
    (invoked : t.invoked = s.invoked) (consumer : t.consumer = s.consumer)
    (kept
      : ∀ a ∈ nodes, s.serial a ∉ t.removed → a ∈ nodes' ∧ t.serial a = s.serial a)
    (standing
      : ∀ evt lsnr,
          s.notifier = .standing evt (some lsnr) → lsnr ∈ nodes → s.serial lsnr ∉ t.removed)
    (leaving
      : ∀ evt lsnr n,
          s.notifier = .leaving evt lsnr n ∨ s.notifier = .consumed evt lsnr n
          → lsnr ∈ nodes
          → s.serial lsnr ∉ t.removed)
    : Located liLsnrs t nodes' := by
  have passed {evt : ClEvt δ φ} {n : Nat} (passed : Passed evt s n) : Passed evt t n :=
    passed.follow began early added removed invoked
  unfold Located at located ⊢
  rw [notifier, began, consumer]
  cases place : s.notifier with
  | idle => trivial
  | standing evt pos =>
      cases pos with
      | none => simp only [place] at located
      | some lsnr =>
          simp only [place] at located ⊢
          rcases located with ⟨atHead, n, began, all⟩ | ⟨member, before⟩
          · exact Or.inl ⟨atHead, n, began, passed all⟩
          · obtain ⟨member', serial⟩ := kept lsnr member (standing evt lsnr place member)
            exact Or.inr ⟨member', serial ▸ passed before⟩
  | calling evt lsnr n =>
      simp only [place] at located ⊢
      obtain ⟨known, before, still⟩ := located
      refine ⟨Nat.lt_of_lt_of_le known added.length_le, passed before, fun left => ?_⟩
      obtain ⟨member, serial⟩ := still fun gone => left (removed gone)
      obtain ⟨member', serial'⟩ := kept lsnr member (serial ▸ left)
      exact ⟨member', serial'.trans serial⟩
  | consumed evt lsnr n =>
      simp only [place] at located ⊢
      obtain ⟨consumed, member, serial, before⟩ := located
      obtain ⟨member', serial'⟩ := kept lsnr member (leaving evt lsnr n (Or.inr place) member)
      exact ⟨consumed, member', serial'.trans serial, passed before⟩
  | leaving evt lsnr n =>
      simp only [place] at located ⊢
      obtain ⟨member, serial, before⟩ := located
      obtain ⟨member', serial'⟩ := kept lsnr member (leaving evt lsnr n (Or.inl place) member)
      exact ⟨member', serial'.trans serial, passed before⟩
  | releasing evt =>
      simp only [place] at located ⊢
      rcases located with ⟨n, began, all⟩ | ⟨n, consumed, before⟩
      · exact Or.inl ⟨n, began, passed all⟩
      · exact Or.inr ⟨n, consumed, passed before⟩

section

variable [DecidableEq α]

-----------------------------------------------------------------------------------------
-- The steps of the loop
-----------------------------------------------------------------------------------------

/-- The link of a listener leads past listeners that are gone, or came only now. -/
theorem Passed.advance {front back : List α} {n : Nat} (passed : Passed evt s n)
    (registered : Registered liLsnrs s (front ++ back)) (began : s.began ≤ s.added.length)
    (before : ∀ a ∈ front, s.serial a < n) (after : ∀ a ∈ back, n ≤ s.serial a)
    : ∃ lsnr,
        (back ++ [liLsnrs]).head? = some lsnr
        ∧ (lsnr = liLsnrs ∧ (∃ n, s.began ≤ n ∧ Passed evt s n)
          ∨ lsnr ∈ front ++ back ∧ Passed evt s (s.serial lsnr)) := by
  -- a listener still there is in front, or behind
  have placed (m : Nat) (above : n ≤ m) (known : m < s.added.length) (left : m ∉ s.removed)
      : m ∈ back.map s.serial := by
    have member := registered.mem_serial_iff.mpr ⟨known, left⟩
    rw [List.map_append] at member
    rcases List.mem_append.mp member with front | back
    · obtain ⟨a, inside, rfl⟩ := List.mem_map.mp front
      exact absurd (before a inside) (Nat.not_lt.mpr above)
    · exact back
  cases back with
  | nil =>
      refine ⟨liLsnrs, rfl, Or.inl ⟨rfl, max n s.began, Nat.le_max_right .., ?_⟩⟩
      refine passed.skip (Nat.le_max_left ..) fun m above _ early => ?_
      by_contra left
      have known := Nat.lt_of_lt_of_le early began
      exact absurd (placed m above known left) List.not_mem_nil
  | cons lsnr back =>
      refine ⟨lsnr, rfl, Or.inr ⟨by simp, ?_⟩⟩
      refine passed.skip (after lsnr List.mem_cons_self) fun m above below early => ?_
      by_contra left
      have known := Nat.lt_of_lt_of_le early began
      have sorted := registered.sorted
      rw [List.map_append, List.map_cons, List.pairwise_append, List.pairwise_cons] at sorted
      rcases List.mem_cons.mp (placed m above known left) with same | behind
      · exact absurd same (Nat.ne_of_lt below)
      · exact absurd (sorted.2.1.1 m behind) (Nat.not_lt.mpr (Nat.le_of_lt below))

theorem Surviving.notify (surviving : Surviving liLsnrs s nodes) {step : NotifyStep δ φ}
    (undisturbed : s.Undisturbed liLsnrs (.thread step))
    (stepped : Event.notify liLsnrs s step = some t)
    : Surviving liLsnrs t nodes := by
  obtain ⟨registered, began, located⟩ := surviving
  have notHead : liLsnrs ∉ nodes := (List.nodup_cons.mp registered.holds.nodup).1
  unfold Event.notify at stepped
  unfold Located at located
  split at stepped
  · rename_i evt place
    have entered := Option.some.inj stepped
    have registered' : Registered liLsnrs t ([] ++ nodes) := by
      rw [← entered]
      exact { registered with }
    have passed : Passed evt t 0 := by
      rw [← entered]
      exact ⟨fun m _ below => absurd below (Nat.not_lt_zero m), fun _ _ => rfl⟩
    have began' : t.began ≤ t.added.length := by
      rw [← entered]
    obtain ⟨lsnr, first, here⟩ :=
      passed.advance registered' began' (by simp) (fun _ _ => Nat.zero_le _)
    refine ⟨registered', began', ?_⟩
    have standing : t.notifier = .standing evt (some lsnr) := by
      rw [← entered, ← first]
      exact congrArg _ registered.holds.next
    unfold Located
    rw [standing]
    exact here
  · rename_i evt lsnr place
    simp only [place] at located
    split at stepped
    · rename_i atHead
      obtain rfl := Option.some.inj stepped
      rcases located with ⟨_, all⟩ | ⟨member, _⟩
      · exact ⟨{ registered with }, began,
          Or.inl (all.imp fun n passed => ⟨passed.1, { passed.2 with }⟩)⟩
      · exact absurd (atHead ▸ member) notHead
    · rename_i inside
      obtain ⟨member, passed⟩ := located.resolve_left fun atHead => inside atHead.1
      have known := (registered.mem_serial_iff.mp (List.mem_map_of_mem member)).1
      split at stepped
      · obtain rfl := Option.some.inj stepped
        exact ⟨{ registered with }, began, known, passed.call, fun _ => ⟨member, rfl⟩⟩
      · rename_i other
        obtain rfl := Option.some.inj stepped
        have passed' : Passed evt s (s.serial lsnr + 1) := by
          refine ⟨fun m found below early left known matching => ?_, fun m above => ?_⟩
          · rcases Nat.lt_succ_iff_lt_or_eq.mp below with behind | rfl
            · exact passed.behind m found behind early left known matching
            · obtain rfl := Option.some.inj (known.symm.trans (registered.content lsnr member))
              exact absurd matching other
          · exact passed.ahead m (Nat.le_of_succ_le above)
        exact ⟨{ registered with }, began, member, rfl, { passed' with }⟩
  · rename_i evt lsnr n place
    obtain rfl := Option.some.inj stepped
    simp only [place] at located
    simp only [Listeners.Undisturbed, place] at undisturbed
    obtain ⟨member, serial⟩ := located.2.2 undisturbed
    exact ⟨{ registered with }, began, rfl, member, serial, { located.2.1 with }⟩
  · rename_i evt lsnr n place
    obtain rfl := Option.some.inj stepped
    simp only [place] at located
    simp only [Listeners.Undisturbed, place] at undisturbed
    obtain ⟨member, serial⟩ := located.2.2 undisturbed
    exact ⟨{ registered with }, began, member, serial, { located.2.1 with }⟩
  · rename_i evt lsnr n place
    obtain rfl := Option.some.inj stepped
    simp only [place] at located
    obtain ⟨consumed, member, rfl, passed⟩ := located
    exact ⟨{ registered with }, began, Or.inr ⟨_, consumed, { passed with }⟩⟩
  · rename_i evt lsnr n place
    have left := Option.some.inj stepped
    simp only [place] at located
    obtain ⟨member, rfl, passed⟩ := located
    obtain ⟨front, back, rfl⟩ := List.append_of_mem member
    have sorted := registered.sorted
    rw [List.map_append, List.map_cons, List.pairwise_append, List.pairwise_cons] at sorted
    have registered' : Registered liLsnrs t ((front ++ [lsnr]) ++ back) := by
      rw [← left, List.append_assoc]
      exact { registered with }
    have passed' : Passed evt t (s.serial lsnr + 1) := by
      rw [← left]
      exact { passed with }
    have began' : t.began ≤ t.added.length := by
      rw [← left]
      exact began
    have before : ∀ a ∈ front ++ [lsnr], t.serial a < s.serial lsnr + 1 := by
      intro a inside
      rw [← left]
      rcases List.mem_append.mp inside with earlier | here
      · exact Nat.lt_succ_of_lt
          (sorted.2.2 _ (List.mem_map_of_mem earlier) _ List.mem_cons_self)
      · exact List.mem_singleton.mp here ▸ Nat.lt_succ_self _
    have after : ∀ a ∈ back, s.serial lsnr + 1 ≤ t.serial a := by
      intro a inside
      rw [← left]
      exact sorted.2.1.1 _ (List.mem_map_of_mem inside)
    obtain ⟨a, first, here⟩ := passed'.advance registered' began' before after
    have standing : t.notifier = .standing evt (some a) := by
      rw [← left, ← first]
      exact congrArg _ registered.holds.next_of_mem
    rw [List.append_assoc, List.singleton_append] at registered' here
    refine ⟨registered', began', ?_⟩
    unfold Located
    rw [standing]
    exact here
  · rename_i evt place
    obtain rfl := Option.some.inj stepped
    exact ⟨{ registered with }, began, trivial⟩
  · cases stepped

-----------------------------------------------------------------------------------------
-- All steps
-----------------------------------------------------------------------------------------

variable [DecidableEq κ]

theorem Surviving.sub (surviving : Surviving liLsnrs s nodes) {evtNo : UInt16}
    {callback : Option κ} {block : Option α} {ret : Ret}
    (stepped : clEvtSub liLsnrs s evtNo callback block = some (ret, t))
    : ∃ nodes', Surviving liLsnrs t nodes' := by
  obtain ⟨registered, began, located⟩ := surviving
  rcases clEvtSub_cases registered stepped with rfl | ⟨heap, newLsnr, lsnr, fresh, rfl, registered'⟩
  · exact ⟨nodes, registered, began, located⟩
  · have still (a : α) (member : a ∈ nodes) : s.serial a ∉ s.removed :=
      (registered.mem_serial_iff.mp (List.mem_map_of_mem member)).2
    have early : s.began ≤ (s.added ++ [lsnr]).length := by
      rw [List.length_append]
      exact Nat.le_add_right_of_le began
    refine ⟨nodes ++ [newLsnr], registered', early, ?_⟩
    refine located.follow began rfl rfl (List.prefix_append _ _) (List.Subset.refl _) rfl rfl ?_
      (fun _ lsnr _ member => still lsnr member) (fun _ lsnr _ _ member => still lsnr member)
    intro a member _
    have other : a ≠ newLsnr := fun same => fresh (same ▸ member)
    exact ⟨List.mem_append_left _ member, Function.update_of_ne other ..⟩

theorem Surviving.unsub (surviving : Surviving liLsnrs s nodes) {evtNo : UInt16}
    {callback : Option κ} {ret : Ret}
    (undisturbed : s.Undisturbed liLsnrs (.unsub evtNo callback : Action α κ δ φ))
    (stepped : clEvtUnsub liLsnrs s evtNo callback = some (ret, t))
    : ∃ nodes', Surviving liLsnrs t nodes' := by
  obtain ⟨registered, began, located⟩ := surviving
  rcases clEvtUnsub_cases registered stepped with
    rfl | ⟨heap, lsnr, member, rfl, rfl, rfl, registered'⟩
  · exact ⟨nodes, registered, began, located⟩
  · have still (a : α) (inside : a ∈ nodes) (other : s.lsnrs a ≠ s.lsnrs lsnr)
        : s.serial a ∉ s.removed ++ [s.serial lsnr] := by
      rw [List.mem_append, List.mem_singleton, not_or]
      refine ⟨(registered.mem_serial_iff.mp (List.mem_map_of_mem inside)).2, fun same => ?_⟩
      exact other (congrArg s.lsnrs (registered.serial_inj inside member same))
    refine ⟨nodes.erase lsnr, registered', began, ?_⟩
    refine located.follow began rfl rfl List.prefix_rfl (List.subset_append_left _ _) rfl rfl
      ?_ ?_ ?_
    · intro a inside left
      have other : a ≠ lsnr := by
        rintro rfl
        exact left (List.mem_append_right _ (List.mem_singleton_self _))
      exact ⟨(List.mem_erase_of_ne other).mpr inside, rfl⟩
    · intro evt a place inside
      simp only [Listeners.Undisturbed, place] at undisturbed
      refine still a inside (undisturbed ?_)
      rintro rfl
      exact (List.nodup_cons.mp registered.holds.nodup).1 inside
    · intro evt a n place inside
      rcases place with place | place
      all_goals
        simp only [Listeners.Undisturbed, place] at undisturbed
        exact still a inside undisturbed

theorem Surviving.step (surviving : Surviving liLsnrs s nodes) {action : Action α κ δ φ}
    (undisturbed : s.Undisturbed liLsnrs action)
    (stepped : Listeners.step liLsnrs s action = some t)
    : ∃ nodes', Surviving liLsnrs t nodes' := by
  cases action with
  | sub evtNo callback block =>
      obtain ⟨⟨ret, _⟩, taken, rfl⟩ := Option.map_eq_some_iff.mp stepped
      exact surviving.sub taken
  | unsub evtNo callback =>
      obtain ⟨⟨ret, _⟩, taken, rfl⟩ := Option.map_eq_some_iff.mp stepped
      exact surviving.unsub undisturbed taken
  | thread step => exact ⟨nodes, surviving.notify undisturbed stepped⟩

/-- When no listener is taken away from under the loop, it never stands at a block that was
freed, or follows the link or prints the number of a listener that was removed; and when it is
through, each listener the event is for that was there when it began and still is has been invoked
exactly once, unless one before it consumed the event.
-/
theorem dispatch_survives {heap : Heap α} {lsnrs : α → ClEvtLsnr κ}
    {actions : List (Action α κ δ φ)} {s : Listeners α κ δ φ}
    (ran : Transition.run
      (Transition.restrict (Listeners.Undisturbed liLsnrs) (Listeners.step liLsnrs))
      (Listeners.initial liLsnrs heap lsnrs) actions = some s)
    : (∀ evt pos,
        s.notifier = .standing evt pos → ∃ lsnr, pos = some lsnr ∧ s.live lsnr = true)
      ∧ (∀ evt lsnr n,
        s.notifier = .leaving evt lsnr n ∨ s.notifier = .consumed evt lsnr n
          → s.live lsnr = true ∧ n ∉ s.removed)
      ∧ ∀ evt,
        s.notifier = .releasing evt
          → ∀ n lsnr,
              n < s.began → n ∉ s.removed → s.added[n]? = some lsnr → lsnr.no = evt.no
                → s.invoked.count n = 1 ∨ ∃ m < n, s.consumer = some m := by
  have preserved {s t : Listeners α κ δ φ} {action : Action α κ δ φ}
      (surviving : ∃ nodes, Surviving liLsnrs s nodes)
      (stepped : Transition.restrict (Listeners.Undisturbed liLsnrs) (Listeners.step liLsnrs) s
        action = some t)
      : ∃ nodes, Surviving liLsnrs t nodes := by
    obtain ⟨nodes, surviving⟩ := surviving
    obtain ⟨undisturbed, taken⟩ := Transition.restrict_eq_some_iff.mp stepped
    exact surviving.step undisturbed taken
  obtain ⟨nodes, registered, began, located⟩ :=
    Transition.run_invariant preserved
      ⟨[], registered_initial liLsnrs heap lsnrs, le_rfl, trivial⟩ ran
  unfold Located at located
  refine ⟨fun evt pos place => ?_, fun evt lsnr n place => ?_, fun evt place => ?_⟩
  · rw [place] at located
    cases pos with
    | none => exact located.elim
    | some lsnr =>
        refine ⟨lsnr, rfl, ?_⟩
        rcases located with ⟨rfl, _⟩ | ⟨member, _⟩
        · exact registered.headLive
        · exact registered.live lsnr member
  · have here : lsnr ∈ nodes ∧ s.serial lsnr = n := by
      rcases place with place | place
      · rw [place] at located
        exact ⟨located.1, located.2.1⟩
      · rw [place] at located
        exact ⟨located.2.1, located.2.2.1⟩
    obtain ⟨member, rfl⟩ := here
    exact ⟨registered.live lsnr member,
      (registered.mem_serial_iff.mp (List.mem_map_of_mem member)).2⟩
  · rw [place] at located
    intro n lsnr early left known matching
    rcases located with ⟨k, all, passed⟩ | ⟨k, consumed, passed⟩
    · exact Or.inl (passed.behind n lsnr (Nat.lt_of_lt_of_le early all) early left known matching)
    · rcases Nat.lt_or_ge k n with before | notBefore
      · exact Or.inr ⟨k, before, consumed⟩
      · exact Or.inl (passed.behind n lsnr (Nat.lt_succ_of_le notBefore) early left known matching)

end

/-- Three listeners, the first and the last of them to event 7. -/
def subscribed : List (Action (Fin 4) Nat Unit Unit) :=
  [.sub 7 (some 0) (some 1), .sub 8 (some 0) (some 2), .sub 7 (some 1) (some 3)]

/-- No listener yet. -/
def unsubscribed : Listeners (Fin 4) Nat Unit Unit :=
  .initial 0 (fun _ => ⟨none, none⟩) fun _ => ⟨0, 0⟩

/-- The first callback unsubscribes the listener in between, which the event is not for. -/
theorem dispatch_survives_between
    : let s := (Transition.run (Transition.restrict (Listeners.Undisturbed 0) (Listeners.step 0))
        unsubscribed
        (subscribed ++ [.thread (.enter ⟨7, (), none⟩), .thread .test, .unsub 8 (some 0),
          .thread (.answer false), .thread .next, .thread .test, .thread (.answer false),
          .thread .next, .thread .test])).get (by decide)
      s.invoked.count 2 = 1 ∨ ∃ m < 2, s.consumer = some m :=
  (dispatch_survives (Option.some_get _).symm).2.2 ⟨7, (), none⟩ (by rfl) 2 ⟨7, 1⟩ (by decide)
    (by decide) (by decide) (by decide)

/-- The first callback unsubscribes its own listener and does not consume the event: the loop is
about to follow the link of a listener that is gone.
-/
theorem dispatch_survives_itself
    : ¬∀ (actions : List (Action (Fin 4) Nat Unit Unit)) (s : Listeners (Fin 4) Nat Unit Unit),
        Transition.run (Listeners.step 0) unsubscribed actions = some s
        → ∀ evt lsnr n, s.notifier = .leaving evt lsnr n → n ∉ s.removed := by
  intro claim
  have left :=
    claim (subscribed ++ [.thread (.enter ⟨7, (), none⟩), .thread .test, .unsub 7 (some 0),
        .thread (.answer false)])
      _ (Option.some_get (by decide)).symm ⟨7, (), none⟩ 1 0 (by rfl)
  exact left (by decide)

end Libccll.Event
