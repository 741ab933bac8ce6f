import Libccll.Queue.Refinement

/-! A heap with one list that is appended to and popped from. -/

namespace Libccll.Queue

open Foundation

variable {α : Type*} [DecidableEq α] {heap : Heap α} {head x : α} {nodes : List α}

/-- The only list in the heap is the one of `head`, with these nodes. -/
def Holds (heap : Heap α) (head : α) (nodes : List α) : Prop :=
  ∃ lists,
    Represents heap lists ∧ ∀ other, lists.of other = if other = head then some nodes else none

theorem holds_init (heap : Heap α) (head : α)
    : Holds (initListNode heap (some head)) head [] := by
  refine ⟨Lists.empty.init head, (represents_empty heap).init head, ?_⟩
  intro other
  simp only [Lists.init, Lists.empty, Option.filter_none]

theorem Holds.nodup (holds : Holds heap head nodes) : (head :: nodes).Nodup := by
  obtain ⟨lists, represents, only⟩ := holds
  exact represents.valid.ring_nodup ((only head).trans (if_pos rfl))

/-- The pointer from the head leads to the first node, and back to the head without one. -/
theorem Holds.next (holds : Holds heap head nodes)
    : heap.next head = (nodes ++ [head]).head? := by
  obtain ⟨lists, represents, only⟩ := holds
  exact (represents.ring ((only head).trans (if_pos rfl))).head_links.2

theorem Holds.isEmpty_iff (holds : Holds heap head nodes)
    : listEmpty heap (some head) = true ↔ nodes = [] := by
  obtain ⟨lists, represents, only⟩ := holds
  exact represents.isEmpty ((only head).trans (if_pos rfl))

theorem Holds.isEmpty (holds : Holds heap head []) : listEmpty heap (some head) = true :=
  holds.isEmpty_iff.mpr rfl

/-- The pointer from a node leads to the one behind it, and from the last one to the head. -/
theorem Holds.next_of_mem {front back : List α} (holds : Holds heap head (front ++ x :: back))
    : heap.next x = (back ++ [head]).head? := by
  obtain ⟨lists, represents, only⟩ := holds
  exact (represents.ring ((only head).trans (if_pos rfl))).links.2

theorem Holds.forEach (holds : Holds heap head nodes) {fuel : Nat}
    (enough : nodes.length < fuel)
    : listForEach heap fuel head = some nodes := by
  obtain ⟨lists, represents, only⟩ := holds
  exact represents.forEach ((only head).trans (if_pos rfl)) enough

theorem Holds.listAdd (holds : Holds heap head nodes) (fresh : x ∉ head :: nodes)
    : ∃ heap',
        listAdd heap (some x) (some head) = some heap' ∧ Holds heap' head (nodes ++ [x]) := by
  obtain ⟨lists, represents, only⟩ := holds
  obtain ⟨other, notIn⟩ := not_or.mp (List.mem_cons.not.mp fresh)
  have listed : lists.of head = some nodes := (only head).trans (if_pos rfl)
  have free : lists.Free x := by
    intro h ns listed'
    rw [only] at listed'
    split at listed'
    · exact Option.some.inj listed' ▸ notIn
    · cases listed'
  obtain ⟨heap', added, represents'⟩ := represents.listAdd listed free other
  refine ⟨heap', added, _, represents', ?_⟩
  intro h
  simp only [Lists.put, listed, Option.map_some]
  split
  · rfl
  · rename_i differs
    rw [only h, if_neg differs, ite_self]

theorem Holds.listDel (holds : Holds heap head nodes) (member : x ∈ nodes)
    : ∃ heap', listDel heap (some x) = some heap' ∧ Holds heap' head (nodes.erase x) := by
  obtain ⟨lists, represents, only⟩ := holds
  have listed : lists.of head = some nodes := (only head).trans (if_pos rfl)
  obtain ⟨heap', deleted, represents'⟩ := represents.listDel listed member
  refine ⟨heap', deleted, _, represents', ?_⟩
  intro h
  simp only [Lists.delete, only]
  split <;> rfl

theorem Holds.listDel_first (holds : Holds heap head (x :: nodes))
    : ∃ heap', Queue.listDel heap (some x) = some heap' ∧ Holds heap' head nodes := by
  obtain ⟨heap', deleted, holds'⟩ := holds.listDel List.mem_cons_self
  rw [List.erase_cons_head] at holds'
  exact ⟨heap', deleted, holds'⟩

end Libccll.Queue
