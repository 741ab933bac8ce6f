import Mathlib.Data.Fintype.Defs
import Libccll.Event.Shutdown

/-! The event system initialised again after `cl_evt_deinit`.
`l_li_evt` is not emptied, but the semaphore starts from zero. So each life is that of a system
whose semaphore has been lent a token for every event left over, which never gets spent.
-/

namespace Libccll.Event

open Foundation Queue

variable {θ α δ φ : Type*}

/-- Where there is no call of `cl_evt_pub`. -/
def Publisher.resting : Publisher α δ φ → Bool
  | .idle => true
  | _ => false

/-- The semaphore and the mutex are new, and the event thread has not run; all else stays. -/
def State.revive (s : State θ α δ φ) : State θ α δ φ :=
  { s with mtxEvt := none, smEvt := 0, dispatcher := .created, deinit := .idle }

/-- The system in one of its lives. The last two fields are history: how many events were queued
when this life began, and how often `sem_wait` was interrupted in it.
-/
structure Life (θ α δ φ : Type*) where
  state : State θ α δ φ
  left : Nat
  interrupts : Nat

/-- A step of the threads, or `cl_evt_init`, which succeeds. -/
inductive LifeStep (θ α δ φ : Type*) where
  | thread (action : Step θ α δ φ)
  | init

def Step.interrupts : Step θ α δ φ → Nat
  | .dispatcher .interrupt => 1
  | _ => 0

/-- The first life, behind `cl_evt_init`. -/
def Life.initial [DecidableEq α] (liEvt : α) (heap : Heap α) (evts : α → ClEvt δ φ)
    : Life θ α δ φ where
  state := Event.initial liEvt heap evts
  left := 0
  interrupts := 0

def lifeStep [DecidableEq θ] [DecidableEq α] (liEvt : α) (l : Life θ α δ φ)
    : LifeStep θ α δ φ → Option (Life θ α δ φ)
  | .thread action =>
      (step liEvt l.state action).map fun state =>
        { l with state, interrupts := l.interrupts + action.interrupts }
  | .init =>
      match l.state.deinit with
      | .joined =>
          some {
            state := l.state.revive
            left := l.state.enqueued.length - l.state.popped.length
            interrupts := 0
          }
      | _ => none

/-- Nobody publishes while the system is down. -/
def Life.Quiet (l : Life θ α δ φ) : LifeStep θ α δ φ → Prop
  | .thread _ => True
  | .init => ∀ p, (l.state.publishers p).resting = true

instance [Fintype θ] (l : Life θ α δ φ) : DecidablePred l.Quiet
  | .thread _ => isTrue trivial
  | .init => inferInstanceAs (Decidable (∀ p, (l.state.publishers p).resting = true))

-----------------------------------------------------------------------------------------
-- Tokens that are lent
-----------------------------------------------------------------------------------------

/-- With so many more tokens. -/
def State.lend (s : State θ α δ φ) (n : Nat) : State θ α δ φ := { s with smEvt := s.smEvt + n }

variable {s t : State θ α δ φ} {liEvt : α} {n : Nat}

section

variable [DecidableEq α]

theorem _evtThread_lend {action : EvtStep} (stepped : _evtThread liEvt s action = some t)
    : _evtThread liEvt (s.lend n) action = some (t.lend n) := by
  unfold _evtThread at stepped
  split at stepped
  · rename_i place
    obtain rfl := Option.some.inj stepped
    simp only [_evtThread, State.lend, place]
  · rename_i place
    obtain rfl := Option.some.inj stepped
    simp only [_evtThread, State.lend, place]
  · rename_i place
    split at stepped
    · rename_i token
      obtain rfl := Option.some.inj stepped
      simp only [_evtThread, State.lend, place, if_pos (Nat.add_pos_left token n),
        Nat.sub_add_comm token]
    · cases stepped
  · rename_i place
    obtain rfl := Option.some.inj stepped
    simp only [_evtThread, State.lend, place]
  · rename_i place
    split at stepped
    · rename_i free
      obtain rfl := Option.some.inj stepped
      simp only [_evtThread, State.lend, place, if_pos free]
    · cases stepped
  · rename_i place
    split at stepped
    · rename_i more
      obtain ⟨evt, first, deleted⟩ := Option.bind_eq_some_iff.mp stepped
      obtain ⟨heap, removed, rfl⟩ := Option.map_eq_some_iff.mp deleted
      rw [first] at more
      simp only [_evtThread, State.lend, place, first, if_pos more, Option.bind_some, removed,
        Option.map_some]
      rfl
    · rename_i empty
      obtain rfl := Option.some.inj stepped
      simp only [_evtThread, State.lend, place, if_neg empty]
  · rename_i place
    obtain rfl := Option.some.inj stepped
    simp only [_evtThread, State.lend, place]
  · rename_i place
    obtain rfl := Option.some.inj stepped
    simp only [_evtThread, State.lend, place]
  · rename_i place
    obtain rfl := Option.some.inj stepped
    simp only [_evtThread, State.lend, place]
  · rename_i place
    obtain rfl := Option.some.inj stepped
    simp only [_evtThread, State.lend, place]
    rfl
  · cases stepped

omit [DecidableEq α] in
theorem clEvtDeinit_lend {action : DeinitStep} (stepped : clEvtDeinit s action = some t)
    : clEvtDeinit (s.lend n) action = some (t.lend n) := by
  cases clEvtDeinit_stops stepped with
  | flag place => simp only [clEvtDeinit, State.lend, place]
  | post place => simp only [clEvtDeinit, State.lend, place, Nat.add_right_comm]
  | join place exited => simp only [clEvtDeinit, State.lend, place, exited]

end

variable [DecidableEq θ] [DecidableEq α]

theorem clEvtPub_lend {p : θ} {action : PubStep α δ φ}
    (stepped : clEvtPub liEvt s p action = some t)
    : clEvtPub liEvt (s.lend n) p action = some (t.lend n) := by
  unfold clEvtPub at stepped
  split at stepped
  · rename_i place
    obtain rfl := Option.some.inj stepped
    simp only [clEvtPub, State.lend, place, State.moveTo]
  · rename_i place
    split at stepped
    · rename_i free
      obtain rfl := Option.some.inj stepped
      simp only [clEvtPub, State.lend, place, State.moveTo]
      exact if_pos free
    · cases stepped
  · rename_i place
    obtain rfl := Option.some.inj stepped
    simp only [clEvtPub, State.lend, place, State.moveTo]
  · rename_i place
    split at stepped
    · cases stepped
    · rename_i unused
      obtain rfl := Option.some.inj stepped
      simp only [clEvtPub, State.lend, place, State.moveTo]
      exact if_neg unused
  · rename_i place
    obtain ⟨heap, added, rfl⟩ := Option.map_eq_some_iff.mp stepped
    simp only [clEvtPub, State.lend, place, added, Option.map_some, State.moveTo]
  · rename_i place
    obtain rfl := Option.some.inj stepped
    simp only [clEvtPub, State.lend, place, State.moveTo]
  · rename_i place
    obtain rfl := Option.some.inj stepped
    simp only [clEvtPub, State.lend, place, State.moveTo, Nat.add_right_comm]
  · rename_i place
    obtain rfl := Option.some.inj stepped
    simp only [clEvtPub, State.lend, place, State.moveTo]
  · cases stepped

/-- A token more does not stop a step. -/
theorem step_lend {action : Step θ α δ φ} (stepped : step liEvt s action = some t)
    : step liEvt (s.lend n) action = some (t.lend n) := by
  cases action with
  | publisher p action => exact clEvtPub_lend stepped
  | dispatcher action => exact _evtThread_lend stepped
  | deinit action => exact clEvtDeinit_lend stepped

-----------------------------------------------------------------------------------------
-- No event without its token
-----------------------------------------------------------------------------------------

/-- The token of `cl_evt_deinit`. -/
def Deinit.tokens : Deinit → Nat
  | .posted | .joined => 1
  | _ => 0

/-- Every token belongs to an event that is still queued, unless `cl_evt_deinit` has posted it or
an interrupt has used it up.
-/
def Covered (s : State θ α δ φ) (interrupts : Nat) : Prop :=
  ∃ posters : Finset θ,
    (∀ p, p ∈ posters ↔ (s.publishers p).Posting)
    ∧ s.smEvt + posters.card + s.dispatcher.tokens + s.popped.length
      ≤ s.enqueued.length + interrupts + s.deinit.tokens

variable {interrupts : Nat}

omit [DecidableEq θ] in
theorem Covered.turn (covered : Covered s interrupts) {action : EvtStep} (turn : Turn s action t)
    : Covered t (interrupts + (Step.dispatcher action : Step θ α δ φ).interrupts) := by
  obtain ⟨posters, posting, tokens⟩ := covered
  refine ⟨posters, ?_⟩
  cases turn with
  | pop evt heap place =>
      rw [place] at tokens
      refine ⟨posting, ?_⟩
      simp only [Dispatcher.tokens, Step.interrupts, List.length_append, List.length_singleton]
        at tokens ⊢
      omega
  | start place | wait place | leave place | take place | interrupt place | lock place
  | none place | unlock _ place | notify _ place | skip place | release _ place =>
      rw [place] at tokens
      refine ⟨posting, ?_⟩
      simp only [Dispatcher.tokens, Step.interrupts] at tokens ⊢
      omega

omit [DecidableEq θ] [DecidableEq α] in
theorem Covered.stops (covered : Covered s interrupts) {action : DeinitStep}
    (stops : Stops s action t)
    : Covered t interrupts := by
  obtain ⟨posters, posting, tokens⟩ := covered
  refine ⟨posters, ?_⟩
  cases stops with
  | flag place | post place | join place =>
      rw [place] at tokens
      refine ⟨posting, ?_⟩
      simp only [Deinit.tokens] at tokens ⊢
      omega

omit [DecidableEq α] in
/-- A publisher that moves on without enqueuing or posting an event. -/
theorem Covered.moveTo (covered : Covered s interrupts) {p : θ} {place : Publisher α δ φ}
    (keeps : place.Posting ↔ (s.publishers p).Posting)
    : Covered (s.moveTo p place) interrupts := by
  obtain ⟨posters, posting, tokens⟩ := covered
  refine ⟨posters, fun q => ?_, tokens⟩
  change _ ↔ (Function.update s.publishers p place q).Posting
  rcases update_cases s.publishers p place q with ⟨rfl, here⟩ | ⟨_, there⟩
  · rw [here]
    exact (posting q).trans keeps.symm
  · rw [there]
    exact posting q

theorem Covered.pub (covered : Covered s interrupts) {p : θ} {action : PubStep α δ φ}
    (stepped : clEvtPub liEvt s p action = some t)
    : Covered t interrupts := by
  unfold clEvtPub at stepped
  split at stepped
  · rename_i place
    obtain rfl := Option.some.inj stepped
    exact covered.moveTo (by rw [place]; rfl)
  · rename_i evt place
    split at stepped
    · obtain rfl := Option.some.inj stepped
      have moved : Covered (s.moveTo p (.locked evt)) interrupts :=
        covered.moveTo (by rw [place]; rfl)
      exact moved
    · cases stepped
  · rename_i place
    obtain rfl := Option.some.inj stepped
    exact covered.moveTo (by rw [place]; rfl)
  · rename_i newEvt place
    split at stepped
    · cases stepped
    · obtain rfl := Option.some.inj stepped
      have moved : Covered (s.moveTo p (.filled newEvt)) interrupts :=
        covered.moveTo (by rw [place]; rfl)
      exact moved
  · rename_i newEvt place
    obtain ⟨heap, _, rfl⟩ := Option.map_eq_some_iff.mp stepped
    obtain ⟨posters, posting, tokens⟩ := covered
    have notYet : p ∉ posters := by
      rw [posting, place]
      exact not_false
    refine ⟨insert p posters, fun q => ?_, ?_⟩
    · change _ ↔ (Function.update s.publishers p (.unlocking .succ) q).Posting
      rw [Finset.mem_insert]
      rcases update_cases s.publishers p (.unlocking .succ) q with ⟨rfl, here⟩ | ⟨other, there⟩
      · simp only [here, true_or, Publisher.Posting]
      · simp only [there, other, false_or, posting]
    · rw [Finset.card_insert_of_notMem notYet]
      simp only [State.moveTo, List.length_append, List.length_singleton]
      omega
  · rename_i ret place
    obtain rfl := Option.some.inj stepped
    have moved : Covered (s.moveTo p (.unlocked ret)) interrupts := by
      refine covered.moveTo ?_
      rw [place]
      cases ret <;> rfl
    exact moved
  · rename_i place
    obtain rfl := Option.some.inj stepped
    obtain ⟨posters, posting, tokens⟩ := covered
    have member : p ∈ posters := by
      rw [posting, place]
      trivial
    have fewer := Finset.card_erase_add_one member
    refine ⟨posters.erase p, fun q => ?_, ?_⟩
    · change _ ↔ (Function.update s.publishers p .idle q).Posting
      rw [Finset.mem_erase]
      rcases update_cases s.publishers p .idle q with ⟨rfl, here⟩ | ⟨other, there⟩
      · simp only [here, ne_eq, not_true_eq_false, false_and, Publisher.Posting]
      · simp only [there, ne_eq, other, not_false_eq_true, true_and, posting]
    · simp only [State.moveTo]
      omega
  · rename_i place
    obtain rfl := Option.some.inj stepped
    exact covered.moveTo (by rw [place]; rfl)
  · cases stepped

theorem Covered.step (covered : Covered s interrupts) {action : Step θ α δ φ}
    (stepped : Event.step liEvt s action = some t)
    : Covered t (interrupts + action.interrupts) := by
  cases action with
  | publisher p action => exact covered.pub stepped
  | dispatcher action => exact covered.turn (_evtThread_turn stepped)
  | deinit action => exact covered.stops (clEvtDeinit_stops stepped)

-----------------------------------------------------------------------------------------
-- All lives
-----------------------------------------------------------------------------------------

/-- What holds in every life, with the tokens that are lent. -/
structure Living (liEvt : α) (l : Life θ α δ φ) : Prop where
  good : Good liEvt (l.state.lend l.left)
  kept : Kept (l.state.lend l.left)
  covered : Covered (l.state.lend l.left) l.interrupts

omit [DecidableEq θ] in
theorem living_initial (liEvt : α) (heap : Heap α) (evts : α → ClEvt δ φ)
    : Living liEvt (Life.initial liEvt heap evts : Life θ α δ φ) := by
  refine ⟨good_initial liEvt heap evts, ⟨rfl, rfl,
    by simp [Life.initial, State.lend, Event.initial], nofun, nofun⟩, ∅, ?_, Nat.le_refl _⟩
  simp [Life.initial, State.lend, Event.initial, Publisher.Posting]

omit [DecidableEq θ] in
/-- A new life begins in such a state, with the events that are still queued. -/
theorem Living.revive {l : Life θ α δ φ} (living : Living liEvt l)
    (joined : l.state.deinit = .joined) (quiet : ∀ p, (l.state.publishers p).resting = true)
    : Living liEvt
        ⟨l.state.revive, l.state.enqueued.length - l.state.popped.length, 0⟩ := by
  obtain ⟨queue, posters, holds, inv⟩ := living.good
  have idle (p : θ) : l.state.publishers p = .idle := by
    have resting := quiet p
    cases place : l.state.publishers p <;> rw [place] at resting <;> first | rfl | cases resting
  have queued : l.state.enqueued.length - l.state.popped.length = queue.length := by
    have order : l.state.enqueued = l.state.popped ++ queue.map l.state.numbered := inv.order
    rw [order, List.length_append, List.length_map, Nat.add_sub_cancel_left]
  have unposting (p : θ) : ¬(l.state.publishers p).Posting := by rw [idle]; exact not_false
  have uncritical (p : θ) : ¬(l.state.publishers p).Critical := by rw [idle]; exact not_false
  rw [queued]
  constructor
  · refine ⟨queue, ∅, holds, ?_⟩
    exact {
      inv with
      posting := fun p => ⟨fun member => absurd member (Finset.notMem_empty p),
        fun posting => absurd posting (unposting p)⟩
      tokens := by simp [State.lend, State.revive]
      owner := fun p critical => absurd critical (uncritical p)
      ownerThread := nofun
      filled := fun p a filled => by cases (idle p).symm.trans filled
      hand := nofun
    }
  · have handed := living.kept.handed
    have exited : l.state.dispatcher = .exited := living.kept.joined joined
    refine ⟨?_, living.kept.freed, fun _ created => absurd rfl created, nofun, nofun⟩
    change l.state.popped = l.state.released ++ []
    change l.state.popped = l.state.released ++ (l.state.dispatcher.hand.map _).toList at handed
    rw [exited] at handed
    exact handed
  · refine ⟨∅, fun p => ⟨fun member => absurd member (Finset.notMem_empty p),
      fun posting => absurd posting (unposting p)⟩, ?_⟩
    have order : l.state.enqueued = l.state.popped ++ queue.map l.state.numbered := inv.order
    have lengths := congrArg List.length order
    rw [List.length_append, List.length_map] at lengths
    change 0 + queue.length + 0 + 0 + l.state.popped.length ≤ l.state.enqueued.length + 0 + 0
    omega

theorem Living.step {l l' : Life θ α δ φ} (living : Living liEvt l) {step : LifeStep θ α δ φ}
    (quiet : l.Quiet step) (stepped : lifeStep liEvt l step = some l')
    : Living liEvt l' := by
  cases step with
  | thread action =>
      obtain ⟨state, taken, rfl⟩ := Option.map_eq_some_iff.mp stepped
      have lent := step_lend (n := l.left) taken
      exact ⟨step_good living.good lent, living.kept.step living.good lent,
        living.covered.step lent⟩
  | init =>
      unfold lifeStep at stepped
      simp only at stepped
      split at stepped
      · rename_i joined
        exact Option.some.inj stepped ▸ living.revive joined quiet
      · cases stepped

/-- In every run, however often the system is initialised again: the events popped are the first
of all those enqueued, each with a number of its own, and are those released, in this order, and
the one in hand. When the event thread sleeps on an empty semaphore while no publisher has still to
post, there are at most as many events still queued as there were when this life began; and, until
`cl_evt_deinit` posts its token, as many but for those that an interrupt has let through.
-/
theorem lives_lag [Fintype θ] {heap : Heap α} {evts : α → ClEvt δ φ}
    {steps : List (LifeStep θ α δ φ)} {l : Life θ α δ φ}
    (ran
      : Transition.run (Transition.restrict Life.Quiet (lifeStep liEvt))
          (Life.initial liEvt heap evts) steps
        = some l)
    : (l.state.enqueued.map Prod.fst).Nodup
      ∧ l.state.popped
        = l.state.released ++ (l.state.dispatcher.hand.map l.state.numbered).toList
      ∧ ∃ waiting,
          l.state.enqueued = l.state.popped ++ waiting
          ∧ (l.state.dispatcher = .waiting
            → l.state.smEvt = 0
            → (∀ p, ¬(l.state.publishers p).Posting)
            → waiting.length ≤ l.left
              ∧ (l.state.deinit = .idle ∨ l.state.deinit = .flagged
                → l.left ≤ waiting.length + l.interrupts)) := by
  have preserved {l l' : Life θ α δ φ} {step : LifeStep θ α δ φ} (living : Living liEvt l)
      (stepped : Transition.restrict Life.Quiet (lifeStep liEvt) l step = some l')
      : Living liEvt l' := by
    obtain ⟨quiet, stepped⟩ := Transition.restrict_eq_some_iff.mp stepped
    exact living.step quiet stepped
  have living := Transition.run_invariant preserved (living_initial liEvt heap evts) ran
  obtain ⟨queue, posters, holds, inv⟩ := living.good
  obtain ⟨posters', posting', tokens'⟩ := living.covered
  have order : l.state.enqueued = l.state.popped ++ queue.map l.state.numbered := inv.order
  have numbers : (l.state.enqueued.map Prod.fst).Nodup := inv.serials ▸ List.nodup_range
  refine ⟨numbers, living.kept.handed, _, order, fun waiting zero nobody => ?_⟩
  have none {posters : Finset θ} (posting : ∀ p, p ∈ posters ↔ (l.state.publishers p).Posting)
      : posters = ∅ := by
    rw [Finset.eq_empty_iff_forall_notMem]
    exact fun p member => nobody p ((posting p).mp member)
  have tokens := inv.tokens
  rw [none inv.posting] at tokens
  rw [none posting'] at tokens'
  change queue.length ≤ l.state.smEvt + l.left + 0 + l.state.dispatcher.tokens at tokens
  change l.state.smEvt + l.left + 0 + l.state.dispatcher.tokens + l.state.popped.length
    ≤ l.state.enqueued.length + l.interrupts + l.state.deinit.tokens at tokens'
  rw [waiting, zero] at tokens tokens'
  have lengths := congrArg List.length order
  rw [List.length_append, List.length_map] at lengths
  rw [List.length_map]
  simp only [Dispatcher.tokens] at tokens tokens'
  refine ⟨by omega, fun unposted => ?_⟩
  have noToken : l.state.deinit.tokens = 0 := by
    rcases unposted with place | place
    all_goals
      rw [place]
      rfl
  rw [noToken] at tokens'
  omega

/-- Two events are published, and `cl_evt_deinit` lets one of them through. In the next life one
more is published.
-/
def reborn (block block' : Fin 3) : List (LifeStep Unit (Fin 3) Unit Unit) :=
  let waits : List (Step Unit (Fin 3) Unit Unit) := [.dispatcher .start, .dispatcher .loop]
  let stops : List (Step Unit (Fin 3) Unit Unit) := [.deinit .flag, .deinit .semPost]
  (waits ++ publishing block 7 ++ publishing block' 8 ++ stops ++ dispatching).map .thread
    ++ [.thread (.deinit .join), .init]
    ++ (waits ++ publishing block 9 ++ dispatching).map .thread

/-- The event thread takes the token of the last event for the one left over. -/
theorem lives_lag_reborn
    : let l := (Transition.run (Transition.restrict Life.Quiet (lifeStep 0))
        (Life.initial 0 unused.state.heap unused.state.evts) (reborn 1 2)).get (by decide)
      ∃ waiting,
        l.state.enqueued = l.state.popped ++ waiting
        ∧ waiting.length ≤ 1
        ∧ 1 ≤ waiting.length := by
  intro l
  obtain ⟨_, _, waiting, order, resting⟩ := lives_lag (l := l) (Option.some_get _).symm
  have lag := resting (by rfl) (by rfl) (fun _ => id)
  exact ⟨waiting, order, lag.1, lag.2 (Or.inl (by rfl))⟩

end Libccll.Event
