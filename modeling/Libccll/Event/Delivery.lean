import Mathlib.Data.Finset.Card
import Libccll.Event.Queue
import Libccll.Queue.Fifo

/-! No event is lost or delivered twice.
Every queued event is covered by a token of the semaphore, by a publisher that has still to
post, or by the token the event thread has just taken.
-/

namespace Libccll.Event

open Foundation Queue

variable {θ α δ φ : Type*}

/-- Between enqueuing an event and posting it. -/
def Publisher.Posting : Publisher α δ φ → Prop
  | .unlocking .succ | .unlocked .succ => True
  | _ => False

/-- Between lock and unlock. -/
def Publisher.Critical : Publisher α δ φ → Prop
  | .locked _ | .filled _ | .unlocking _ => True
  | _ => False

/-- Tokens taken whose event is still queued. -/
def Dispatcher.tokens : Dispatcher α → Nat
  | .woken | .locked => 1
  | _ => 0

/-- The event in the hands of the event thread. -/
def Dispatcher.hand : Dispatcher α → Option α
  | .popped evt | .notifying evt | .releasing evt => evt
  | _ => none

/-- The event thread between lock and unlock. -/
def Dispatcher.Critical : Dispatcher α → Prop
  | .locked | .popped _ => True
  | _ => False

/-- What holds in every state, for the queued blocks and the publishers still to post. -/
structure Invariant (liEvt : α) (s : State θ α δ φ) (queue : List α) (posters : Finset θ)
    : Prop where
  order : s.enqueued = s.popped ++ queue.map s.numbered
  serials : s.enqueued.map Prod.fst = List.range s.enqueued.length
  posting : ∀ p, p ∈ posters ↔ (s.publishers p).Posting
  tokens : queue.length ≤ s.smEvt + posters.card + s.dispatcher.tokens
  owner : ∀ p, (s.publishers p).Critical → s.mtxEvt = some (.publisher p)
  ownerThread : s.dispatcher.Critical → s.mtxEvt = some .dispatcher
  headLive : s.live liEvt = true
  queueLive : ∀ a ∈ queue, s.live a = true
  filled
    : ∀ p a, s.publishers p = .filled a → s.live a = true ∧ a ∉ liEvt :: queue
  hand
    : ∀ a,
        s.dispatcher.hand = some a
          → a ∉ liEvt :: queue ∧ s.live a = true ∧ ∀ p, s.publishers p ≠ .filled a

variable {liEvt : α} {s : State θ α δ φ} {queue : List α} {posters : Finset θ}

/-- Only the owner of the lock is between lock and unlock. -/
theorem Invariant.owner_unique (inv : Invariant liEvt s queue posters) {p q : θ}
    (owned : s.mtxEvt = some (.publisher p)) (critical : (s.publishers q).Critical)
    : q = p :=
  Owner.publisher.inj (Option.some.inj ((inv.owner q critical).symm.trans owned))

/-- While the lock is free no thread is between lock and unlock. -/
theorem Invariant.uncritical (inv : Invariant liEvt s queue posters) (free : s.mtxEvt = none)
    : (∀ p, ¬(s.publishers p).Critical) ∧ ¬s.dispatcher.Critical := by
  constructor
  · intro p critical
    cases free.symm.trans (inv.owner p critical)
  · intro critical
    cases free.symm.trans (inv.ownerThread critical)

/-- The event thread moves on without touching queue and blocks. -/
theorem Invariant.dispatch (inv : Invariant liEvt s queue posters) {place : Dispatcher α}
    {mtxEvt : Option (Owner θ)} {smEvt : Nat}
    (tokens : queue.length ≤ smEvt + posters.card + place.tokens)
    (hand : ∀ a, place.hand = some a → s.dispatcher.hand = some a)
    (owner : ∀ p, (s.publishers p).Critical → mtxEvt = some (.publisher p))
    (ownerThread : place.Critical → mtxEvt = some .dispatcher)
    : Invariant liEvt { s with dispatcher := place, mtxEvt, smEvt } queue posters :=
  { inv with tokens, owner, ownerThread, hand := fun a inHand => inv.hand a (hand a inHand) }

/-- `list_del` of the first event puts it into the hands of the event thread. -/
theorem Invariant.pop {a : α} (inv : Invariant liEvt s (a :: queue) posters)
    (place : s.dispatcher = .locked) (distinct : (liEvt :: a :: queue).Nodup) {heap : Heap α}
    : Invariant liEvt
        {
          s with
          heap
          dispatcher := .popped (some a)
          popped := s.popped ++ [s.numbered a]
        }
        queue posters := by
  have owned : s.mtxEvt = some .dispatcher := inv.ownerThread (by rw [place]; trivial)
  refine {
    inv with
    order := ?_
    tokens := ?_
    ownerThread := fun _ => owned
    queueLive := fun b queued => inv.queueLive b (List.mem_cons_of_mem a queued)
    filled := ?_
    hand := ?_
  }
  · refine inv.order.trans ?_
    rw [List.map_cons, List.append_assoc]
    rfl
  · have tokens := inv.tokens
    rw [place] at tokens
    simp only [List.length_cons, Dispatcher.tokens] at tokens ⊢
    omega
  · intro p b filled
    obtain ⟨live, notIn⟩ := inv.filled p b filled
    simp only [List.mem_cons, not_or] at notIn ⊢
    exact ⟨live, notIn.1, notIn.2.2⟩
  · intro b inHand
    obtain rfl : a = b := Option.some.inj inHand
    simp only [List.nodup_cons, List.mem_cons, not_or] at distinct ⊢
    refine ⟨⟨Ne.symm distinct.1.1, distinct.2.1⟩, inv.queueLive a List.mem_cons_self, ?_⟩
    intro p filled
    exact (inv.filled p a filled).2 (List.mem_cons_of_mem liEvt List.mem_cons_self)

section

variable [DecidableEq α]

/-- The block of a delivered event is freed when no one else can reach it. -/
theorem Invariant.release (inv : Invariant liEvt s queue posters) {a : α}
    (place : s.dispatcher = .releasing (some a)) {released : List (Nat × ClEvt δ φ)}
    {freeFunCalls : List (Nat × φ × δ)}
    : Invariant liEvt
        {
          s with
          dispatcher := .looping
          live := Function.update s.live a false
          released
          freeFunCalls
        }
        queue posters := by
  obtain ⟨notIn, _, elsewhere⟩ := inv.hand a (by rw [place]; rfl)
  have kept (b : α) (other : b ≠ a) (live : s.live b = true)
      : Function.update s.live a false b = true := by
    rw [Function.update_of_ne other]
    exact live
  have tokens := inv.tokens
  rw [place] at tokens
  refine {
    inv with
    tokens
    ownerThread := nofun
    headLive := kept liEvt (fun same => notIn (same ▸ List.mem_cons_self)) inv.headLive
    queueLive := ?_
    filled := ?_
    hand := nofun
  }
  · intro b queued
    refine kept b ?_ (inv.queueLive b queued)
    exact fun same => notIn (same ▸ List.mem_cons_of_mem liEvt queued)
  · intro p b filled
    obtain ⟨live, apart⟩ := inv.filled p b filled
    exact ⟨kept b (fun same => elsewhere p (same ▸ filled)) live, apart⟩

/-- The heap represents a queue for which the invariant holds. -/
def Good (liEvt : α) (s : State θ α δ φ) : Prop :=
  ∃ queue posters, Holds s.heap liEvt queue ∧ Invariant liEvt s queue posters

theorem good_initial (liEvt : α) (heap : Heap α) (evts : α → ClEvt δ φ)
    : Good liEvt (initial liEvt heap evts : State θ α δ φ) := by
  refine ⟨[], ∅, holds_init heap liEvt, ?_⟩
  constructor <;>
    simp [initial, Publisher.Posting, Publisher.Critical, Dispatcher.hand, Dispatcher.Critical]

theorem _evtThread_good {action : EvtStep} {t : State θ α δ φ} (good : Good liEvt s)
    (stepped : _evtThread liEvt s action = some t)
    : Good liEvt t := by
  obtain ⟨queue, posters, holds, inv⟩ := good
  have tokens := inv.tokens
  unfold _evtThread at stepped
  split at stepped
  · rename_i place
    obtain rfl := Option.some.inj stepped
    rw [place] at tokens
    have moved : Invariant liEvt { s with dispatcher := .looping } queue posters :=
      inv.dispatch tokens nofun inv.owner nofun
    exact ⟨queue, posters, holds, { moved with }⟩
  · rename_i place
    obtain rfl := Option.some.inj stepped
    rw [place] at tokens
    refine ⟨queue, posters, holds, inv.dispatch ?_ ?_ inv.owner ?_⟩ <;> split <;>
      first | exact tokens | nofun
  · rename_i place
    split at stepped
    · obtain rfl := Option.some.inj stepped
      rw [place] at tokens
      refine ⟨queue, posters, holds, inv.dispatch ?_ nofun inv.owner nofun⟩
      simp only [Dispatcher.tokens] at tokens ⊢
      omega
    · cases stepped
  · rename_i place
    obtain rfl := Option.some.inj stepped
    rw [place] at tokens
    exact ⟨queue, posters, holds, inv.dispatch (Nat.le_succ_of_le tokens) nofun inv.owner nofun⟩
  · rename_i place
    split at stepped
    · rename_i free
      obtain rfl := Option.some.inj stepped
      rw [place] at tokens
      exact ⟨queue, posters, holds, inv.dispatch tokens nofun
        (fun p critical => absurd critical ((inv.uncritical free).1 p)) (fun _ => rfl)⟩
    · cases stepped
  · rename_i place
    split at stepped
    · rename_i notEmpty
      cases queue with
      | nil => exact absurd holds.next notEmpty
      | cons a queue =>
          rw [holds.next, List.cons_append, List.head?_cons, Option.bind_some] at stepped
          obtain ⟨heap, deleted, rfl⟩ := Option.map_eq_some_iff.mp stepped
          obtain ⟨heap', deleted', holds'⟩ := holds.listDel_first
          obtain rfl : heap' = heap := Option.some.inj (deleted'.symm.trans deleted)
          exact ⟨queue, posters, holds', inv.pop place holds.nodup⟩
    · rename_i empty
      obtain rfl := Option.some.inj stepped
      cases queue with
      | nil =>
          exact ⟨[], posters, holds, inv.dispatch (Nat.zero_le _) nofun inv.owner
            (fun _ => inv.ownerThread (by rw [place]; trivial))⟩
      | cons a queue =>
          have first := (not_not.mp empty).symm.trans holds.next
          rw [List.cons_append, List.head?_cons, Option.some_inj] at first
          exact absurd (first ▸ List.mem_cons_self) (List.nodup_cons.mp holds.nodup).1
  · rename_i evt place
    obtain rfl := Option.some.inj stepped
    rw [place] at tokens
    have owned := inv.ownerThread (by rw [place]; trivial)
    refine ⟨queue, posters, holds, inv.dispatch tokens ?_ ?_ nofun⟩
    · intro a inHand
      rw [place]
      exact inHand
    · intro p critical
      cases owned.symm.trans (inv.owner p critical)
  · rename_i evt place
    obtain rfl := Option.some.inj stepped
    rw [place] at tokens
    refine ⟨queue, posters, holds, inv.dispatch tokens ?_ inv.owner nofun⟩
    intro a inHand
    rw [place]
    exact inHand
  · rename_i place
    obtain rfl := Option.some.inj stepped
    rw [place] at tokens
    exact ⟨queue, posters, holds, inv.dispatch tokens nofun inv.owner nofun⟩
  · rename_i evt place
    obtain rfl := Option.some.inj stepped
    exact ⟨queue, posters, holds, inv.release place⟩
  · cases stepped

theorem clEvtDeinit_good {action : DeinitStep} {t : State θ α δ φ} (good : Good liEvt s)
    (stepped : clEvtDeinit s action = some t)
    : Good liEvt t := by
  obtain ⟨queue, posters, holds, inv⟩ := good
  have tokens := inv.tokens
  unfold clEvtDeinit at stepped
  split at stepped
  · obtain rfl := Option.some.inj stepped
    exact ⟨queue, posters, holds, { inv with }⟩
  · obtain rfl := Option.some.inj stepped
    exact ⟨queue, posters, holds, { inv with tokens := by dsimp only; omega }⟩
  · split at stepped
    · obtain rfl := Option.some.inj stepped
      exact ⟨queue, posters, holds, { inv with }⟩
    · cases stepped
  · cases stepped

end

variable [DecidableEq θ]

/-- What an updated function is at each argument. -/
theorem update_cases {β : Type*} (f : θ → β) (p : θ) (value : β) (q : θ)
    : q = p ∧ Function.update f p value q = value
      ∨ q ≠ p ∧ Function.update f p value q = f q := by
  rcases eq_or_ne q p with rfl | other
  · exact Or.inl ⟨rfl, Function.update_self ..⟩
  · exact Or.inr ⟨other, Function.update_of_ne other ..⟩

/-- A publisher that moves on without touching queue and blocks. -/
theorem Invariant.moveTo (inv : Invariant liEvt s queue posters) {p : θ}
    {place : Publisher α δ φ} {mtxEvt : Option (Owner θ)} {smEvt : Nat} {posters' : Finset θ}
    (posting : ∀ q, q ∈ posters' ↔ (Function.update s.publishers p place q).Posting)
    (tokens : queue.length ≤ smEvt + posters'.card + s.dispatcher.tokens)
    (mine : place.Critical → mtxEvt = some (.publisher p))
    (others : ∀ q, q ≠ p → (s.publishers q).Critical → mtxEvt = some (.publisher q))
    (thread : s.dispatcher.Critical → mtxEvt = some .dispatcher)
    (unfilled : ∀ a, place ≠ .filled a)
    : Invariant liEvt
        { s with publishers := Function.update s.publishers p place, mtxEvt, smEvt } queue
        posters' := by
  refine { inv with posting, tokens, owner := ?_, ownerThread := thread, filled := ?_, hand := ?_ }
  · intro q critical
    rcases update_cases s.publishers p place q with ⟨rfl, here⟩ | ⟨other, there⟩
    · exact mine (here ▸ critical)
    · exact others q other (there ▸ critical)
  · intro q a filled
    rcases update_cases s.publishers p place q with ⟨rfl, here⟩ | ⟨_, there⟩
    · exact absurd (here.symm.trans filled) (unfilled a)
    · exact inv.filled q a (there.symm.trans filled)
  · intro a inHand
    obtain ⟨apart, live, elsewhere⟩ := inv.hand a inHand
    refine ⟨apart, live, ?_⟩
    intro q filled
    rcases update_cases s.publishers p place q with ⟨rfl, here⟩ | ⟨_, there⟩
    · exact unfilled a (here.symm.trans filled)
    · exact elsewhere q (there.symm.trans filled)

/-- A move that neither starts nor ends the time between enqueuing and posting. -/
theorem Invariant.posting_kept (inv : Invariant liEvt s queue posters) {p : θ}
    {place : Publisher α δ φ} (keeps : place.Posting ↔ (s.publishers p).Posting) (q : θ)
    : q ∈ posters ↔ (Function.update s.publishers p place q).Posting := by
  rcases update_cases s.publishers p place q with ⟨rfl, here⟩ | ⟨_, there⟩
  · rw [here, keeps]
    exact inv.posting q
  · rw [there]
    exact inv.posting q

/-- The semaphore takes over the token of the publisher. -/
theorem Invariant.post (inv : Invariant liEvt s queue posters) {p : θ}
    (place : s.publishers p = .unlocked .succ)
    : Invariant liEvt { s.moveTo p .idle with smEvt := s.smEvt + 1 } queue
        (posters.erase p) := by
  have member : p ∈ posters := by
    rw [inv.posting, place]
    trivial
  refine inv.moveTo ?_ ?_ (fun critical => absurd critical not_false)
    (fun q _ => inv.owner q) inv.ownerThread nofun
  · intro q
    rw [Finset.mem_erase]
    rcases update_cases s.publishers p .idle q with ⟨rfl, here⟩ | ⟨other, there⟩
    · simp only [here, ne_eq, not_true_eq_false, false_and, Publisher.Posting]
    · rw [there, inv.posting]
      simp only [ne_eq, other, not_false_eq_true, true_and]
  · have tokens := inv.tokens
    have fewer := Finset.card_erase_add_one member
    omega

variable [DecidableEq α]

/-- Malloc hands out a block that nobody else holds. -/
theorem Invariant.malloc (inv : Invariant liEvt s queue posters) {p : θ} {evt : ClEvt δ φ}
    {newEvt : α} (place : s.publishers p = .locked evt) (unused : s.live newEvt ≠ true)
    : Invariant liEvt
        {
          s.moveTo p (.filled newEvt) with
          live := Function.update s.live newEvt true
          evts := Function.update s.evts newEvt evt
        }
        queue posters := by
  have apart (a : α) (live : s.live a = true) : a ≠ newEvt := by
    rintro rfl
    exact unused live
  have owned := inv.owner p (by rw [place]; trivial)
  have fresh : newEvt ∉ liEvt :: queue := by
    intro member
    rcases List.mem_cons.mp member with rfl | queued
    · exact unused inv.headLive
    · exact unused (inv.queueLive newEvt queued)
  have stillLive (a : α) (live : s.live a = true)
      : Function.update s.live newEvt true a = true := by
    rw [Function.update_of_ne (apart a live)]
    exact live
  refine {
    inv with
    order := ?_
    posting := inv.posting_kept (by rw [place]; rfl)
    owner := ?_
    headLive := stillLive liEvt inv.headLive
    queueLive := fun a queued => stillLive a (inv.queueLive a queued)
    filled := ?_
    hand := ?_
  }
  · refine inv.order.trans (congrArg (s.popped ++ ·) (List.map_congr_left ?_))
    intro a queued
    simp only [State.numbered, State.moveTo,
      Function.update_of_ne (apart a (inv.queueLive a queued))]
  · intro q critical
    rcases update_cases s.publishers p (.filled newEvt) q with ⟨rfl, _⟩ | ⟨_, there⟩
    · exact owned
    · exact inv.owner q (there ▸ critical)
  · intro q a filled
    rcases update_cases s.publishers p (.filled newEvt) q with ⟨rfl, here⟩ | ⟨_, there⟩
    · obtain rfl : newEvt = a := Publisher.filled.inj (here.symm.trans filled)
      exact ⟨Function.update_self .., fresh⟩
    · obtain ⟨live, notIn⟩ := inv.filled q a (there.symm.trans filled)
      exact ⟨stillLive a live, notIn⟩
  · intro a inHand
    obtain ⟨notIn, live, elsewhere⟩ := inv.hand a inHand
    refine ⟨notIn, stillLive a live, ?_⟩
    intro q filled
    rcases update_cases s.publishers p (.filled newEvt) q with ⟨rfl, here⟩ | ⟨_, there⟩
    · exact apart a live (Publisher.filled.inj (here.symm.trans filled)).symm
    · exact elsewhere q (there.symm.trans filled)

/-- `list_add` puts the event behind all others and makes its publisher one that has to post. -/
theorem Invariant.enqueue (inv : Invariant liEvt s queue posters) {p : θ} {newEvt : α}
    {heap : Heap α} (place : s.publishers p = .filled newEvt)
    : Invariant liEvt
        {
          s.moveTo p (.unlocking .succ) with
          heap
          serial := Function.update s.serial newEvt s.enqueued.length
          enqueued := s.enqueued ++ [(s.enqueued.length, s.evts newEvt)]
        }
        (queue ++ [newEvt]) (insert p posters) := by
  obtain ⟨live, fresh⟩ := inv.filled p newEvt place
  have owned := inv.owner p (by rw [place]; trivial)
  have notYet : p ∉ posters := by
    rw [inv.posting, place]
    exact not_false
  have alone (q : θ) (a : α) (filled : s.publishers q = .filled a) : q = p :=
    inv.owner_unique owned (by rw [filled]; trivial)
  refine {
    inv with
    order := ?_
    serials := ?_
    posting := ?_
    tokens := ?_
    owner := ?_
    queueLive := ?_
    filled := ?_
    hand := ?_
  }
  · have kept : queue.map s.numbered
        = queue.map fun a => (Function.update s.serial newEvt s.enqueued.length a, s.evts a) := by
      apply List.map_congr_left
      intro a queued
      have other : a ≠ newEvt := fun same => fresh (same ▸ List.mem_cons_of_mem liEvt queued)
      rw [Function.update_of_ne other]
      rfl
    change s.enqueued ++ [(s.enqueued.length, s.evts newEvt)]
      = s.popped ++ (queue ++ [newEvt]).map fun a =>
          (Function.update s.serial newEvt s.enqueued.length a, s.evts a)
    rw [List.map_append, ← List.append_assoc, ← kept, ← inv.order]
    simp only [List.map_cons, List.map_nil, Function.update_self]
  · simp only [List.map_append, List.map_cons, List.map_nil, inv.serials, List.length_append,
      List.length_singleton, List.range_succ]
  · intro q
    change _ ↔ (Function.update s.publishers p (.unlocking .succ) q).Posting
    rw [Finset.mem_insert]
    rcases update_cases s.publishers p (.unlocking .succ) q with ⟨rfl, here⟩ | ⟨other, there⟩
    · simp only [here, true_or, Publisher.Posting]
    · rw [there, inv.posting]
      simp only [other, false_or]
  · have tokens := inv.tokens
    rw [List.length_append, List.length_singleton, Finset.card_insert_of_notMem notYet]
    change _ ≤ s.smEvt + _ + s.dispatcher.tokens
    omega
  · intro q critical
    rcases update_cases s.publishers p (.unlocking .succ) q with ⟨rfl, _⟩ | ⟨_, there⟩
    · exact owned
    · exact inv.owner q (there ▸ critical)
  · intro a queued
    rcases List.mem_append.mp queued with queued | new
    · exact inv.queueLive a queued
    · exact List.mem_singleton.mp new ▸ live
  · intro q a filled
    rcases update_cases s.publishers p (.unlocking .succ) q with ⟨rfl, here⟩ | ⟨other, there⟩
    · cases here.symm.trans filled
    · exact absurd (alone q a (there.symm.trans filled)) other
  · intro a inHand
    obtain ⟨notIn, live', elsewhere⟩ := inv.hand a inHand
    refine ⟨?_, live', ?_⟩
    · intro member
      have other : a ≠ newEvt := fun same => elsewhere p (same ▸ place)
      simp only [List.mem_cons, List.mem_append, List.not_mem_nil, other, or_false]
        at member notIn
      exact notIn member
    · intro q filled
      rcases update_cases s.publishers p (.unlocking .succ) q with ⟨rfl, here⟩ | ⟨other, there⟩
      · cases here.symm.trans filled
      · exact elsewhere q (there.symm.trans filled)

-----------------------------------------------------------------------------------------
-- Every step
-----------------------------------------------------------------------------------------

theorem clEvtPub_good {p : θ} {action : PubStep α δ φ} {t : State θ α δ φ}
    (good : Good liEvt s) (stepped : clEvtPub liEvt s p action = some t)
    : Good liEvt t := by
  obtain ⟨queue, posters, holds, inv⟩ := good
  unfold clEvtPub at stepped
  split at stepped
  · rename_i evt place
    obtain rfl := Option.some.inj stepped
    exact ⟨queue, posters, holds, inv.moveTo (inv.posting_kept (by rw [place]; rfl)) inv.tokens
      nofun (fun q _ => inv.owner q) inv.ownerThread nofun⟩
  · rename_i evt place
    split at stepped
    · rename_i free
      obtain rfl := Option.some.inj stepped
      obtain ⟨nobody, notThread⟩ := inv.uncritical free
      exact ⟨queue, posters, holds, inv.moveTo (inv.posting_kept (by rw [place]; rfl)) inv.tokens
        (fun _ => rfl) (fun q _ critical => absurd critical (nobody q))
        (fun critical => absurd critical notThread) nofun⟩
    · cases stepped
  · rename_i evt place
    obtain rfl := Option.some.inj stepped
    exact ⟨queue, posters, holds, inv.moveTo (inv.posting_kept (by rw [place]; rfl)) inv.tokens
      (fun _ => inv.owner p (by rw [place]; trivial)) (fun q _ => inv.owner q) inv.ownerThread
      nofun⟩
  · rename_i evt newEvt place
    split at stepped
    · cases stepped
    · rename_i unused
      obtain rfl := Option.some.inj stepped
      exact ⟨queue, posters, holds, inv.malloc place unused⟩
  · rename_i newEvt place
    obtain ⟨heap, added, rfl⟩ := Option.map_eq_some_iff.mp stepped
    obtain ⟨heap', added', holds'⟩ := holds.listAdd (inv.filled p newEvt place).2
    obtain rfl : heap' = heap := Option.some.inj (added'.symm.trans added)
    exact ⟨queue ++ [newEvt], insert p posters, holds', inv.enqueue place⟩
  · rename_i ret place
    obtain rfl := Option.some.inj stepped
    have owned := inv.owner p (by rw [place]; trivial)
    refine ⟨queue, posters, holds, inv.moveTo (inv.posting_kept ?_) inv.tokens nofun ?_ ?_ nofun⟩
    · rw [place]
      cases ret <;> rfl
    · intro q other critical
      exact absurd (inv.owner_unique owned critical) other
    · intro critical
      cases owned.symm.trans (inv.ownerThread critical)
  · rename_i place
    obtain rfl := Option.some.inj stepped
    exact ⟨queue, posters.erase p, holds, inv.post place⟩
  · rename_i place
    obtain rfl := Option.some.inj stepped
    exact ⟨queue, posters, holds, inv.moveTo (inv.posting_kept (by rw [place]; rfl)) inv.tokens
      nofun (fun q _ => inv.owner q) inv.ownerThread nofun⟩
  · cases stepped

theorem step_good {action : Step θ α δ φ} {t : State θ α δ φ} (good : Good liEvt s)
    (stepped : step liEvt s action = some t)
    : Good liEvt t := by
  cases action with
  | publisher p action => exact clEvtPub_good good stepped
  | dispatcher action => exact _evtThread_good good stepped
  | deinit action => exact clEvtDeinit_good good stepped

/-- In every run, with any number of publishers, the events popped are the first of those
enqueued, each of which has a number of its own; and when the event thread sleeps on an empty
semaphore while no publisher has still to post, everything enqueued has been popped.
-/
theorem events_delivered (liEvt : α) (heap : Heap α) (evts : α → ClEvt δ φ)
    (actions : List (Step θ α δ φ)) (s : State θ α δ φ)
    (ran : Transition.run (step liEvt) (initial liEvt heap evts) actions = some s)
    : s.popped <+: s.enqueued
      ∧ (s.enqueued.map Prod.fst).Nodup
      ∧ (s.dispatcher = .waiting
        → s.smEvt = 0
        → (∀ p, ¬(s.publishers p).Posting)
        → listEmpty s.heap (some liEvt) = true ∧ s.popped = s.enqueued) := by
  obtain ⟨queue, posters, holds, inv⟩ :=
    Transition.run_invariant (fun good stepped => step_good good stepped)
      (good_initial liEvt heap evts) ran
  refine ⟨⟨_, inv.order.symm⟩, inv.serials ▸ List.nodup_range, ?_⟩
  intro waiting zero nobody
  have none : posters = ∅ := by
    rw [Finset.eq_empty_iff_forall_notMem]
    exact fun p member => nobody p ((inv.posting p).mp member)
  have tokens := inv.tokens
  simp only [waiting, zero, none, Finset.card_empty, Dispatcher.tokens, Nat.add_zero,
    Nat.le_zero, List.length_eq_zero_iff] at tokens
  obtain rfl := tokens
  exact ⟨holds.isEmpty, by rw [inv.order, List.map_nil, List.append_nil]⟩

/-- The list operations of `cl_evt_pub` and `_evt_thread` never follow a `NULL` link. -/
theorem Good.defined (good : Good liEvt s)
    : (∀ p newEvt,
        s.publishers p = .filled newEvt → (clEvtPub liEvt s p .listAdd).isSome = true)
      ∧ (s.dispatcher = .locked → (_evtThread liEvt s .pop).isSome = true) := by
  obtain ⟨queue, posters, holds, inv⟩ := good
  constructor
  · intro p newEvt place
    obtain ⟨heap, added, _⟩ := holds.listAdd (inv.filled p newEvt place).2
    simp only [clEvtPub, place, added, Option.map_some, Option.isSome_some]
  · intro place
    cases queue with
    | nil =>
        have empty : s.heap.next liEvt = some liEvt := holds.next
        simp only [_evtThread, place, empty, ne_eq, not_true_eq_false, if_false,
          Option.isSome_some]
    | cons a queue =>
        have first : s.heap.next liEvt = some a := holds.next
        obtain ⟨heap, deleted, _⟩ := holds.listDel_first
        have other : some a ≠ some liEvt := by
          intro same
          exact (List.nodup_cons.mp holds.nodup).1 (Option.some.inj same ▸ List.mem_cons_self)
        simp only [_evtThread, place, first, if_pos other, Option.bind_some, deleted,
          Option.map_some, Option.isSome_some]

/-- One event on its way: published while the event thread waits, and popped by it. -/
theorem events_delivered_one
    : let s := (Transition.run (step (0 : Fin 2))
        (initial 0 (fun _ => ⟨none, none⟩) (fun _ => ⟨0, (), (none : Option Unit)⟩))
        [.dispatcher .start, .dispatcher .loop, .publisher () (.call ⟨7, (), none⟩),
          .publisher () .lock, .publisher () (.malloc (some 1)), .publisher () .listAdd,
          .publisher () .unlock, .publisher () .semPost, .dispatcher .semWait,
          .dispatcher .lock, .dispatcher .pop]).get (by decide)
      s.popped <+: s.enqueued ∧ s.popped = [(0, ⟨7, (), none⟩)] :=
  ⟨(events_delivered _ _ _ _ _ (Option.some_get _).symm).1, by rfl⟩

end Libccll.Event
