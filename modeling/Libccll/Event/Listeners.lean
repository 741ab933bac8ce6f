import Mathlib.Data.List.Nodup
import Libccll.Event.Queue
import Libccll.Foundation.Removal
import Libccll.Queue.Fifo

/-! `evt/event.c`: `cl_evt_sub`, `cl_evt_unsub` and the loop of the event thread over the list
`l_li_lsnrs`. The first two hold `l_mtx_sub` and are one step each; the loop does not, so that
others come in between any two of its own steps.
-/

namespace Libccll.Event

open Foundation
open Queue (Heap Holds listAdd listDel listForEach)

variable {α κ δ φ : Type*}

/-- `CL_EVT_LSNR`, apart from its links. -/
structure ClEvtLsnr (κ : Type*) where
  no : UInt16
  cb : κ
  deriving DecidableEq

/-- Where the event thread stands in the loop, with the event it has popped: about to look at
the node `lsnr` points to, in a callback, about to print the number of a listener that has
consumed it, about to go on to the next node, or behind the loop. The number is that of the
listener it has looked at.
-/
inductive Notifier (α δ φ : Type*) where
  | idle
  | standing (evt : ClEvt δ φ) (lsnr : Option α)
  | calling (evt : ClEvt δ φ) (lsnr : α) (n : Nat)
  | consumed (evt : ClEvt δ φ) (lsnr : α) (n : Nat)
  | leaving (evt : ClEvt δ φ) (lsnr : α) (n : Nat)
  | releasing (evt : ClEvt δ φ)

/-- What the callbacks and `free_fun` see. -/
inductive Entry (κ δ φ : Type*) where
  | called (cb : κ) (no : UInt16) (data : δ)
  | answered (consumed : Bool)
  | freeFun (freeFun : φ) (data : δ)
  deriving DecidableEq

/-- The listeners and the event thread. The last seven fields are history: the number each
listener got when it was added, the listeners added and the numbers of those removed so far;
all calls; and of the last event how many listeners had been added before, the numbers of those
invoked, and the one that consumed it.
-/
structure Listeners (α κ δ φ : Type*) where
  heap : Heap α
  lsnrs : α → ClEvtLsnr κ
  live : α → Bool
  notifier : Notifier α δ φ
  serial : α → Nat
  added : List (ClEvtLsnr κ)
  removed : List Nat
  log : List (Entry κ δ φ)
  began : Nat
  invoked : List Nat
  consumer : Option Nat

/-- The steps of the loop; a callback answers whether it has consumed the event. -/
inductive NotifyStep (δ φ : Type*) where
  | enter (evt : ClEvt δ φ)
  | test
  | answer (consumed : Bool)
  | print
  | next
  | release

inductive Action (α κ δ φ : Type*) where
  | sub (evtNo : UInt16) (callback : Option κ) (block : Option α)
  | unsub (evtNo : UInt16) (callback : Option κ)
  | thread (step : NotifyStep δ φ)

variable [DecidableEq α]

/-- Before the first subscription. -/
def Listeners.initial (liLsnrs : α) (heap : Heap α) (lsnrs : α → ClEvtLsnr κ)
    : Listeners α κ δ φ where
  heap := Queue.initListNode heap (some liLsnrs)
  lsnrs
  live a := decide (a = liLsnrs)
  notifier := .idle
  serial _ := 0
  added := []
  removed := []
  log := []
  began := 0
  invoked := []
  consumer := none

/-- A block becomes a listener. -/
def Listeners.insert (s : Listeners α κ δ φ) (heap : Heap α) (newLsnr : α) (lsnr : ClEvtLsnr κ)
    : Listeners α κ δ φ :=
  {
    s with
    heap
    lsnrs := Function.update s.lsnrs newLsnr lsnr
    live := Function.update s.live newLsnr true
    serial := Function.update s.serial newLsnr s.added.length
    added := s.added ++ [lsnr]
  }

/-- A listener is freed. -/
def Listeners.remove (s : Listeners α κ δ φ) (heap : Heap α) (lsnr : α) : Listeners α κ δ φ :=
  {
    s with
    heap
    live := Function.update s.live lsnr false
    removed := s.removed ++ [s.serial lsnr]
  }

section

variable [DecidableEq κ]

/-- Where the loops of `cl_evt_sub` and `cl_evt_unsub` stop: at the first listener that is the
pair, if any. No list is longer than there were listeners.
-/
def Listeners.find (liLsnrs : α) (s : Listeners α κ δ φ) (evtNo : UInt16) (callback : κ)
    : Option (Option α) :=
  (listForEach s.heap (s.added.length + 1) liLsnrs).map fun nodes =>
    nodes.find? fun lsnr => (s.lsnrs lsnr).no = evtNo ∧ (s.lsnrs lsnr).cb = callback

/-- `cl_evt_sub`, for which malloc hands out the block. -/
def clEvtSub (liLsnrs : α) (s : Listeners α κ δ φ) (evtNo : UInt16) (callback : Option κ)
    (block : Option α)
    : Option (Ret × Listeners α κ δ φ) :=
  match callback with
  | none => some (.fail, s)
  | some callback =>
      (s.find liLsnrs evtNo callback).bind fun existing =>
        match existing, block with
        | some _, _ => some (.succ, s)
        | none, none => some (.succ, s)
        | none, some newLsnr =>
            if s.live newLsnr = true then
              none
            else
              (listAdd s.heap (some newLsnr) (some liLsnrs)).map fun heap =>
                (.succ, s.insert heap newLsnr ⟨evtNo, callback⟩)

/-- `cl_evt_unsub`. -/
def clEvtUnsub (liLsnrs : α) (s : Listeners α κ δ φ) (evtNo : UInt16) (callback : Option κ)
    : Option (Ret × Listeners α κ δ φ) :=
  match callback with
  | none => some (.fail, s)
  | some callback =>
      (s.find liLsnrs evtNo callback).bind fun found =>
        match found with
        | none => some (.fail, s)
        | some lsnr =>
            (listDel s.heap (some lsnr)).map fun heap => (.succ, s.remove heap lsnr)

end

/-- The part of `_evt_thread` between unlock and `FREE(evt)`. -/
def notify (liLsnrs : α) (s : Listeners α κ δ φ) (step : NotifyStep δ φ)
    : Option (Listeners α κ δ φ) :=
  match s.notifier, step with
  | .idle, .enter evt =>
      some {
        s with
        notifier := .standing evt (s.heap.next liLsnrs)
        began := s.added.length
        invoked := []
        consumer := none
      }
  | .standing evt (some lsnr), .test =>
      if lsnr = liLsnrs then
        some { s with notifier := .releasing evt }
      else if (s.lsnrs lsnr).no = evt.no then
        some {
          s with
          notifier := .calling evt lsnr (s.serial lsnr)
          log := s.log ++ [.called (s.lsnrs lsnr).cb evt.no evt.data]
          invoked := s.invoked ++ [s.serial lsnr]
        }
      else
        some { s with notifier := .leaving evt lsnr (s.serial lsnr) }
  | .calling evt lsnr n, .answer true =>
      some {
        s with
        notifier := .consumed evt lsnr n
        log := s.log ++ [.answered true]
        consumer := some n
      }
  | .calling evt lsnr n, .answer false =>
      some { s with notifier := .leaving evt lsnr n, log := s.log ++ [.answered false] }
  -- what is printed is `lsnr->no`, of a listener that may be gone by now
  | .consumed evt _ _, .print => some { s with notifier := .releasing evt }
  | .leaving evt lsnr _, .next =>
      some { s with notifier := .standing evt (s.heap.next lsnr) }
  | .releasing evt, .release =>
      some {
        s with
        notifier := .idle
        log := s.log ++ (evt.freeFun.map fun freeFun => .freeFun freeFun evt.data).toList
      }
  | _, _ => none

def Listeners.step [DecidableEq κ] (liLsnrs : α) (s : Listeners α κ δ φ)
    : Action α κ δ φ → Option (Listeners α κ δ φ)
  | .sub evtNo callback block => (clEvtSub liLsnrs s evtNo callback block).map Prod.snd
  | .unsub evtNo callback => (clEvtUnsub liLsnrs s evtNo callback).map Prod.snd
  | .thread step => notify liLsnrs s step

-----------------------------------------------------------------------------------------
-- The list and its history
-----------------------------------------------------------------------------------------

/-- The nodes of the list are blocks in use, each with the listener of its number; these are the
listeners added and not removed, in the order in which they were added, and all different.
-/
structure Registered (liLsnrs : α) (s : Listeners α κ δ φ) (nodes : List α) : Prop where
  holds : Holds s.heap liLsnrs nodes
  headLive : s.live liLsnrs = true
  live : ∀ a ∈ nodes, s.live a = true
  content : ∀ a ∈ nodes, s.added[s.serial a]? = some (s.lsnrs a)
  known : ∀ n ∈ s.removed, n < s.added.length
  order : nodes.map s.serial = (List.range s.added.length).filter (· ∉ s.removed)
  distinct : (nodes.map s.lsnrs).Nodup

variable {liLsnrs : α} {s t : Listeners α κ δ φ} {nodes : List α} {evtNo : UInt16} {callback : κ}

theorem registered_initial (liLsnrs : α) (heap : Heap α) (lsnrs : α → ClEvtLsnr κ)
    : Registered liLsnrs (Listeners.initial liLsnrs heap lsnrs : Listeners α κ δ φ) [] where
  holds := Queue.holds_init heap liLsnrs
  headLive := decide_eq_true rfl
  live := by simp
  content := by simp
  known := by simp [Listeners.initial]
  order := rfl
  distinct := List.nodup_nil

/-- The numbers grow along the list. -/
theorem Registered.sorted (registered : Registered liLsnrs s nodes)
    : (nodes.map s.serial).Pairwise (· < ·) := by
  rw [registered.order]
  exact List.pairwise_lt_range.filter _

theorem Registered.mem_serial_iff (registered : Registered liLsnrs s nodes) {n : Nat}
    : n ∈ nodes.map s.serial ↔ n < s.added.length ∧ n ∉ s.removed := by
  rw [registered.order, List.mem_filter, List.mem_range, decide_eq_true_eq]

/-- Two nodes with the same number are the same. -/
theorem Registered.serial_inj (registered : Registered liLsnrs s nodes) {a b : α}
    (ha : a ∈ nodes) (hb : b ∈ nodes) (same : s.serial a = s.serial b)
    : a = b :=
  List.inj_on_of_nodup_map (registered.sorted.imp Nat.ne_of_lt) ha hb same

/-- Two nodes with the same listener are the same. -/
theorem Registered.lsnrs_inj (registered : Registered liLsnrs s nodes) {a b : α}
    (ha : a ∈ nodes) (hb : b ∈ nodes) (same : s.lsnrs a = s.lsnrs b)
    : a = b :=
  List.inj_on_of_nodup_map registered.distinct ha hb same

theorem Registered.length_le (registered : Registered liLsnrs s nodes)
    : nodes.length ≤ s.added.length := by
  have bound := List.length_filter_le (fun n => decide (n ∉ s.removed))
    (List.range s.added.length)
  rwa [← registered.order, List.length_map, List.length_range] at bound

theorem Registered.insert (registered : Registered liLsnrs s nodes) {heap : Heap α}
    {newLsnr : α} {lsnr : ClEvtLsnr κ} (unused : s.live newLsnr ≠ true)
    (new : lsnr ∉ nodes.map s.lsnrs) (holds : Holds heap liLsnrs (nodes ++ [newLsnr]))
    : Registered liLsnrs (s.insert heap newLsnr lsnr) (nodes ++ [newLsnr]) := by
  have apart (a : α) (member : a ∈ nodes) : a ≠ newLsnr := by
    rintro rfl
    exact unused (registered.live a member)
  have notIn : newLsnr ∉ nodes := fun member => apart newLsnr member rfl
  have distinct : nodes.Nodup := (List.nodup_cons.mp registered.holds.nodup).2
  refine ⟨holds, ?_, ?_, ?_, ?_, ?_, ?_⟩
  · have other : liLsnrs ≠ newLsnr := by
      rintro rfl
      exact unused registered.headLive
    exact (Function.update_of_ne other ..).trans registered.headLive
  · intro a member
    rcases List.mem_append.mp member with old | last
    · exact (Function.update_of_ne (apart a old) ..).trans (registered.live a old)
    · rw [List.mem_singleton.mp last]
      exact Function.update_self ..
  · intro a member
    simp only [Listeners.insert]
    rcases List.mem_append.mp member with old | last
    · rw [Function.update_of_ne (apart a old), Function.update_of_ne (apart a old)]
      have content := registered.content a old
      exact (List.getElem?_append_left (List.getElem?_eq_some_iff.mp content).1).trans content
    · rw [List.mem_singleton.mp last, Function.update_self, Function.update_self,
        List.getElem?_concat_length]
  · intro n gone
    exact Nat.lt_of_lt_of_le (registered.known n gone) (by simp [Listeners.insert])
  · have last : s.added.length ∉ s.removed := fun gone =>
      Nat.lt_irrefl _ (registered.known _ gone)
    have stays : [s.added.length].filter (· ∉ s.removed) = [s.added.length] := by
      simp [last]
    change (nodes ++ [newLsnr]).map (Function.update s.serial newLsnr s.added.length)
      = (List.range (s.added ++ [lsnr]).length).filter (· ∉ s.removed)
    rw [List.length_append, List.length_singleton, List.range_succ, List.filter_append,
      stays, ← registered.order, List.map_append, distinct.map_update, if_neg notIn,
      List.map_singleton, Function.update_self]
  · simp only [Listeners.insert, List.map_append, List.map_cons, List.map_nil,
      Function.update_self, distinct.map_update, if_neg notIn, List.nodup_append,
      List.nodup_singleton, List.mem_singleton, true_and]
    refine ⟨registered.distinct, ?_⟩
    rintro x member _ rfl rfl
    exact new member

/-- The pairs, with one more listener. -/
theorem Registered.insert_lsnrs (registered : Registered liLsnrs s nodes) {heap : Heap α}
    {newLsnr : α} {lsnr : ClEvtLsnr κ} (unused : s.live newLsnr ≠ true)
    : (nodes ++ [newLsnr]).map (s.insert heap newLsnr lsnr).lsnrs
      = nodes.map s.lsnrs ++ [lsnr] := by
  have notIn : newLsnr ∉ nodes := fun member => unused (registered.live newLsnr member)
  have distinct : nodes.Nodup := (List.nodup_cons.mp registered.holds.nodup).2
  simp only [Listeners.insert, List.map_append, distinct.map_update, if_neg notIn,
    List.map_singleton, Function.update_self]

theorem Registered.remove (registered : Registered liLsnrs s nodes) {heap : Heap α} {lsnr : α}
    (member : lsnr ∈ nodes) (holds : Holds heap liLsnrs (nodes.erase lsnr))
    : Registered liLsnrs (s.remove heap lsnr) (nodes.erase lsnr) := by
  have nodup := registered.holds.nodup
  have distinct : nodes.Nodup := (List.nodup_cons.mp nodup).2
  have old (a : α) (left : a ∈ nodes.erase lsnr) : a ≠ lsnr ∧ a ∈ nodes :=
    (List.Nodup.mem_erase_iff distinct).mp left
  have serial : s.serial lsnr < s.added.length :=
    (registered.mem_serial_iff.mp (List.mem_map_of_mem member)).1
  refine ⟨holds, ?_, ?_, ?_, ?_, ?_, ?_⟩
  · have other : liLsnrs ≠ lsnr := by
      rintro rfl
      exact (List.nodup_cons.mp nodup).1 member
    exact (Function.update_of_ne other ..).trans registered.headLive
  · intro a left
    exact (Function.update_of_ne (old a left).1 ..).trans (registered.live a (old a left).2)
  · intro a left
    exact registered.content a (old a left).2
  · intro n gone
    rcases List.mem_append.mp gone with before | now
    · exact registered.known n before
    · exact List.mem_singleton.mp now ▸ serial
  · exact Removal.map_erase_eq_filter id registered.order
      (registered.sorted.imp Nat.ne_of_lt) member
  · exact registered.distinct.sublist (List.erase_sublist.map s.lsnrs)

variable [DecidableEq κ]

/-- What the loops of `cl_evt_sub` and `cl_evt_unsub` find. -/
theorem Registered.find (registered : Registered liLsnrs s nodes)
    : s.find liLsnrs evtNo callback
      = some (nodes.find? fun lsnr => s.lsnrs lsnr = ⟨evtNo, callback⟩) := by
  have walked := registered.holds.forEach (Nat.lt_succ_of_le registered.length_le)
  rw [Listeners.find, walked, Option.map_some]
  refine congrArg (fun test => some (nodes.find? test)) (funext fun lsnr => ?_)
  rcases s.lsnrs lsnr with ⟨no, cb⟩
  simp only [ClEvtLsnr.mk.injEq]

/-- The loop of `cl_evt_sub` finds a pair in the list. -/
theorem Registered.find_member (registered : Registered liLsnrs s nodes) {lsnr : α}
    (member : lsnr ∈ nodes)
    : s.find liLsnrs (s.lsnrs lsnr).no (s.lsnrs lsnr).cb = some (some lsnr) := by
  have found : (nodes.find? fun a => s.lsnrs a = s.lsnrs lsnr).isSome = true :=
    List.find?_isSome.mpr ⟨lsnr, member, decide_eq_true rfl⟩
  obtain ⟨a, found⟩ := Option.isSome_iff_exists.mp found
  have same : s.lsnrs a = s.lsnrs lsnr := by simpa using List.find?_some found
  obtain rfl := registered.lsnrs_inj (List.mem_of_find?_eq_some found) member same
  exact registered.find.trans (congrArg some found)

/-- It finds no other pair. -/
theorem Registered.find_absent (registered : Registered liLsnrs s nodes)
    (absent : ⟨evtNo, callback⟩ ∉ nodes.map s.lsnrs)
    : s.find liLsnrs evtNo callback = some none := by
  refine registered.find.trans (congrArg some (List.find?_eq_none.mpr fun a inside same => ?_))
  exact absent (List.mem_map.mpr ⟨a, inside, of_decide_eq_true same⟩)

theorem clEvtSub_existing (registered : Registered liLsnrs s nodes)
    (member : ⟨evtNo, callback⟩ ∈ nodes.map s.lsnrs) (block : Option α)
    : clEvtSub liLsnrs s evtNo (some callback) block = some (.succ, s) := by
  obtain ⟨a, inside, same⟩ := List.mem_map.mp member
  have found := registered.find_member inside
  rw [same] at found
  simp only [clEvtSub, found, Option.bind_some]

theorem clEvtSub_new (registered : Registered liLsnrs s nodes)
    (new : ⟨evtNo, callback⟩ ∉ nodes.map s.lsnrs) {newLsnr : α} (unused : s.live newLsnr ≠ true)
    : ∃ heap,
        clEvtSub liLsnrs s evtNo (some callback) (some newLsnr)
          = some (.succ, s.insert heap newLsnr ⟨evtNo, callback⟩)
        ∧ Registered liLsnrs (s.insert heap newLsnr ⟨evtNo, callback⟩) (nodes ++ [newLsnr]) := by
  have fresh : newLsnr ∉ liLsnrs :: nodes := by
    intro member
    rcases List.mem_cons.mp member with rfl | inside
    · exact unused registered.headLive
    · exact unused (registered.live newLsnr inside)
  obtain ⟨heap, added, holds⟩ := registered.holds.listAdd fresh
  refine ⟨heap, ?_, registered.insert unused new holds⟩
  simp only [clEvtSub, registered.find_absent new, Option.bind_some, if_neg unused, added,
    Option.map_some]

/-- Malloc hands out no block that is in use. -/
theorem clEvtSub_inUse (registered : Registered liLsnrs s nodes)
    (new : ⟨evtNo, callback⟩ ∉ nodes.map s.lsnrs) {newLsnr : α} (used : s.live newLsnr = true)
    : clEvtSub liLsnrs s evtNo (some callback) (some newLsnr) = none := by
  simp only [clEvtSub, registered.find_absent new, Option.bind_some, if_pos used]

theorem clEvtUnsub_member (registered : Registered liLsnrs s nodes) {lsnr : α}
    (member : lsnr ∈ nodes)
    : ∃ heap,
        clEvtUnsub liLsnrs s (s.lsnrs lsnr).no (some (s.lsnrs lsnr).cb)
          = some (.succ, s.remove heap lsnr)
        ∧ Registered liLsnrs (s.remove heap lsnr) (nodes.erase lsnr) := by
  obtain ⟨heap, deleted, holds⟩ := registered.holds.listDel member
  refine ⟨heap, ?_, registered.remove member holds⟩
  simp only [clEvtUnsub, registered.find_member member, Option.bind_some, deleted,
    Option.map_some]

theorem clEvtUnsub_absent (registered : Registered liLsnrs s nodes)
    (absent : ⟨evtNo, callback⟩ ∉ nodes.map s.lsnrs)
    : clEvtUnsub liLsnrs s evtNo (some callback) = some (.fail, s) := by
  simp only [clEvtUnsub, registered.find_absent absent, Option.bind_some]

/-- `cl_evt_sub` adds a listener, or nothing. -/
theorem clEvtSub_cases (registered : Registered liLsnrs s nodes) {callback : Option κ}
    {block : Option α} {ret : Ret}
    (stepped : clEvtSub liLsnrs s evtNo callback block = some (ret, t))
    : t = s
      ∨ ∃ heap newLsnr lsnr,
          newLsnr ∉ nodes
          ∧ t = s.insert heap newLsnr lsnr
          ∧ Registered liLsnrs t (nodes ++ [newLsnr]) := by
  cases callback with
  | none =>
      cases stepped
      exact Or.inl rfl
  | some callback =>
      by_cases existing : ⟨evtNo, callback⟩ ∈ nodes.map s.lsnrs
      · rw [clEvtSub_existing registered existing] at stepped
        cases stepped
        exact Or.inl rfl
      · cases block with
        | none =>
            simp only [clEvtSub, registered.find_absent existing, Option.bind_some] at stepped
            cases stepped
            exact Or.inl rfl
        | some newLsnr =>
            by_cases used : s.live newLsnr = true
            · rw [clEvtSub_inUse registered existing used] at stepped
              cases stepped
            · obtain ⟨heap, added, registered'⟩ := clEvtSub_new registered existing used
              rw [added] at stepped
              cases stepped
              exact Or.inr ⟨heap, newLsnr, _, fun member => used (registered.live _ member), rfl,
                registered'⟩

/-- `cl_evt_unsub` removes the listener that is the pair, or nothing. -/
theorem clEvtUnsub_cases (registered : Registered liLsnrs s nodes) {callback : Option κ}
    {ret : Ret} (stepped : clEvtUnsub liLsnrs s evtNo callback = some (ret, t))
    : t = s
      ∨ ∃ heap lsnr,
          lsnr ∈ nodes
          ∧ callback = some (s.lsnrs lsnr).cb
          ∧ evtNo = (s.lsnrs lsnr).no
          ∧ t = s.remove heap lsnr
          ∧ Registered liLsnrs t (nodes.erase lsnr) := by
  cases callback with
  | none =>
      cases stepped
      exact Or.inl rfl
  | some callback =>
      by_cases member : ⟨evtNo, callback⟩ ∈ nodes.map s.lsnrs
      · obtain ⟨lsnr, inside, same⟩ := List.mem_map.mp member
        obtain ⟨heap, removed, registered'⟩ := clEvtUnsub_member registered inside
        rw [same] at removed
        rw [removed] at stepped
        cases stepped
        exact Or.inr ⟨heap, lsnr, inside, by rw [same], by rw [same], rfl, registered'⟩
      · rw [clEvtUnsub_absent registered member] at stepped
        cases stepped
        exact Or.inl rfl

end Libccll.Event
