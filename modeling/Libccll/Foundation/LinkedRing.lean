import Mathlib.Data.List.Chain
import Mathlib.Data.List.Nodup
import Mathlib.Logic.Function.Basic

/-! Circular doubly linked lists: rings of nodes whose two pointers are inverse to each other.
Insertion and removal are splices between two segments that keep all their own links.
-/

namespace Foundation.LinkedRing

variable {α : Type*} {next prev next' prev' : α → Option α} {head x p n : α}
  {front back : List α}

/-- `b` follows `a`, and `a` precedes `b`. -/
structure Linked (next prev : α → Option α) (a b : α) : Prop where
  next : next a = some b
  prev : prev b = some a

/-- Following `next` from `head` passes the nodes and comes back, and `prev` goes the same way
backwards.
-/
def Ring (next prev : α → Option α) (head : α) (nodes : List α) : Prop :=
  List.IsChain (Linked next prev) (head :: nodes ++ [head])

/-- A head that points to itself is an empty ring. -/
theorem ring_nil : Ring next prev head [] ↔ next head = some head ∧ prev head = some head := by
  simp only [Ring, List.cons_append, List.nil_append, List.isChain_pair]
  exact ⟨fun linked => ⟨linked.next, linked.prev⟩, fun ⟨next, prev⟩ => ⟨next, prev⟩⟩

/-- A ring only depends on the links of its own nodes. -/
theorem Ring.congr {nodes : List α} (ring : Ring next prev head nodes)
    (kept : ∀ a ∈ head :: nodes, next' a = next a ∧ prev' a = prev a)
    : Ring next' prev' head nodes := by
  have inside (a : α) (member : a ∈ head :: nodes ++ [head]) : a ∈ head :: nodes := by
    rcases List.mem_append.mp member with member | member
    · exact member
    · exact List.mem_singleton.mp member ▸ List.mem_cons_self
  refine List.IsChain.imp_of_mem_imp ?_ ring
  intro a b ha hb linked
  exact ⟨(kept a (inside a ha)).1.trans linked.next, (kept b (inside b hb)).2.trans linked.prev⟩

/-- A ring is two segments and the link between them. -/
theorem ring_append (last : (head :: front).getLast? = some p)
    (first : (back ++ [head]).head? = some n)
    : Ring next prev head (front ++ back)
      ↔ List.IsChain (Linked next prev) (head :: front)
        ∧ List.IsChain (Linked next prev) (back ++ [head])
        ∧ Linked next prev p n := by
  rw [Ring, ← List.cons_append, List.append_assoc, List.isChain_append, last, first]
  simp only [Option.mem_some_iff, forall_eq']

/-- A ring around `x` is two segments, each linked to `x`. -/
theorem ring_append_cons (last : (head :: front).getLast? = some p)
    (first : (back ++ [head]).head? = some n)
    : Ring next prev head (front ++ x :: back)
      ↔ List.IsChain (Linked next prev) (head :: front)
        ∧ List.IsChain (Linked next prev) (back ++ [head])
        ∧ Linked next prev p x
        ∧ Linked next prev x n := by
  have link : List.IsChain (Linked next prev) (x :: back ++ [head])
      ↔ Linked next prev x n ∧ List.IsChain (Linked next prev) (back ++ [head]) := by
    rw [List.cons_append, List.isChain_cons, first]
    simp only [Option.mem_some_iff, forall_eq']
  rw [ring_append last rfl, link]
  exact ⟨fun ⟨segment, ⟨link, segment'⟩, link'⟩ => ⟨segment, segment', link', link⟩,
    fun ⟨segment, segment', link', link⟩ => ⟨segment, ⟨link, segment'⟩, link'⟩⟩

theorem exists_getLast_front (head : α) (front : List α)
    : ∃ p ∈ head :: front, (head :: front).getLast? = some p :=
  ⟨_, List.getLast_mem (List.cons_ne_nil head front),
    List.getLast?_eq_some_getLast (List.cons_ne_nil head front)⟩

theorem exists_head_back (head : α) (back : List α)
    : ∃ n ∈ back ++ [head], (back ++ [head]).head? = some n := by
  cases back with
  | nil => exact ⟨head, List.mem_singleton_self head, rfl⟩
  | cons n back => exact ⟨n, List.mem_cons_self, rfl⟩

/-- What the two pointers of a node in the ring are. -/
theorem Ring.links (ring : Ring next prev head (front ++ x :: back))
    : prev x = (head :: front).getLast? ∧ next x = (back ++ [head]).head? := by
  obtain ⟨p, _, last⟩ := exists_getLast_front head front
  obtain ⟨n, _, first⟩ := exists_head_back head back
  obtain ⟨_, _, before, after⟩ := (ring_append_cons last first).mp ring
  exact ⟨before.prev.trans last.symm, after.next.trans first.symm⟩

/-- The pointer from the end of the front leads to the start of the back. -/
theorem Ring.next_last (ring : Ring next prev head (front ++ back))
    (last : (head :: front).getLast? = some p)
    : next p = (back ++ [head]).head? := by
  obtain ⟨n, _, first⟩ := exists_head_back head back
  obtain ⟨_, _, link⟩ := (ring_append last first).mp ring
  exact link.next.trans first.symm

/-- What the two pointers of the head are. -/
theorem Ring.head_links {nodes : List α} (ring : Ring next prev head nodes)
    : prev head = (head :: nodes).getLast? ∧ next head = (nodes ++ [head]).head? := by
  obtain ⟨p, _, last⟩ := exists_getLast_front head nodes
  obtain ⟨n, _, first⟩ := exists_head_back head nodes
  constructor
  · rw [← List.append_nil nodes] at ring
    exact ((ring_append last rfl).mp ring).2.2.prev.trans last.symm
  · have ring : Ring next prev head ([] ++ nodes) := ring
    exact ((ring_append rfl first).mp ring).2.2.next.trans first.symm

/-- The head precedes itself exactly in an empty ring. -/
theorem Ring.prev_head_iff {nodes : List α} (ring : Ring next prev head nodes)
    (distinct : (head :: nodes).Nodup)
    : prev head = some head ↔ nodes = [] := by
  rw [ring.head_links.1]
  constructor
  · intro last
    cases nodes with
    | nil => rfl
    | cons a nodes =>
        rw [List.getLast?_cons_cons] at last
        exact absurd (List.mem_of_getLast? last) (List.nodup_cons.mp distinct).1
  · intro empty
    rw [empty]
    rfl

section Splice

variable [DecidableEq α]

/-- Linking `x` in between `p` and `n` puts it into the ring. -/
theorem Ring.insert (ring : Ring next prev head (front ++ back))
    (distinct : (head :: (front ++ back)).Nodup) (fresh : x ∉ head :: (front ++ back))
    (last : (head :: front).getLast? = some p) (first : (back ++ [head]).head? = some n)
    : Ring (Function.update (Function.update next p (some x)) x (some n))
        (Function.update (Function.update prev x (some p)) n (some x)) head
        (front ++ x :: back) := by
  obtain ⟨segment, segment', link⟩ := (ring_append last first).mp ring
  have pMem : p ∈ head :: front := List.mem_of_getLast? last
  have nMem : n ∈ back ++ [head] := List.mem_of_mem_head? first
  have px : p ≠ x := by
    rintro rfl
    exact fresh (by simp only [List.mem_cons, List.mem_append] at pMem ⊢; tauto)
  have nx : n ≠ x := by
    rintro rfl
    exact fresh (by
      simp only [List.mem_cons, List.mem_append, List.not_mem_nil] at nMem ⊢
      tauto)
  -- within a segment that `n` does not end a link of, no link is touched
  have kept (c : List α) (xc : x ∉ c) (nc : n ∉ c.tail)
      (chain : List.IsChain (Linked next prev) c)
      : List.IsChain (Linked (Function.update (Function.update next p (some x)) x (some n))
          (Function.update (Function.update prev x (some p)) n (some x))) c := by
    refine List.IsChain.imp_of_mem_tail_imp ?_ chain
    intro a b ha hb linked
    have bn : b ≠ n := fun same => nc (same ▸ hb)
    have bx : b ≠ x := fun same => xc (same ▸ List.mem_of_mem_tail hb)
    have ax : a ≠ x := fun same => xc (same ▸ ha)
    have ap : a ≠ p := by
      rintro rfl
      exact bn (Option.some.inj (linked.next.symm.trans link.next))
    constructor
    · rw [Function.update_of_ne ax, Function.update_of_ne ap, linked.next]
    · rw [Function.update_of_ne bn, Function.update_of_ne bx, linked.prev]
  have nFront : n ∉ front := by
    intro member
    simp only [List.nodup_cons, List.nodup_append, List.mem_append] at distinct
    rcases List.mem_append.mp nMem with inBack | atHead
    · exact distinct.2.2.2 n member n inBack rfl
    · exact distinct.1 (Or.inl (List.mem_singleton.mp atHead ▸ member))
  have nBack : n ∉ (back ++ [head]).tail := by
    cases back with
    | nil => exact List.not_mem_nil
    | cons b back =>
        obtain rfl : b = n := Option.some.inj first
        simp only [List.nodup_cons, List.nodup_append, List.mem_append, List.mem_cons] at distinct
        simp only [List.cons_append, List.tail_cons, List.mem_append, List.mem_singleton]
        rintro (member | rfl)
        · exact distinct.2.2.1.1 member
        · exact distinct.1 (Or.inr (Or.inl rfl))
  refine (ring_append_cons last first).mpr ⟨?_, ?_, ?_, ?_⟩
  · exact kept _ (fun member => fresh (by
      simp only [List.mem_cons, List.mem_append] at member ⊢; tauto)) nFront segment
  · exact kept _ (fun member => fresh (by
      simp only [List.mem_cons, List.mem_append, List.not_mem_nil] at member ⊢; tauto))
      nBack segment'
  · constructor
    · rw [Function.update_of_ne px, Function.update_self]
    · rw [Function.update_of_ne nx.symm, Function.update_self]
  · exact ⟨Function.update_self .., Function.update_self ..⟩

/-- Linking the neighbours of `x` to each other takes it out of the ring. -/
theorem Ring.remove (ring : Ring next prev head (front ++ x :: back))
    (distinct : (head :: (front ++ x :: back)).Nodup)
    (last : (head :: front).getLast? = some p) (first : (back ++ [head]).head? = some n)
    : Ring (Function.update (Function.update next p (some n)) x none)
        (Function.update (Function.update prev n (some p)) x none) head (front ++ back) := by
  obtain ⟨segment, segment', before, after⟩ := (ring_append_cons last first).mp ring
  have xFront : x ∉ head :: front := by
    simp only [List.nodup_cons, List.nodup_append, List.mem_append, List.mem_cons] at distinct ⊢
    rintro (rfl | member)
    · exact distinct.1 (Or.inr (Or.inl rfl))
    · exact distinct.2.2.2 x member x (Or.inl rfl) rfl
  have xBack : x ∉ back ++ [head] := by
    simp only [List.nodup_cons, List.nodup_append, List.mem_append, List.mem_cons,
      List.not_mem_nil, or_false] at distinct ⊢
    rintro (member | rfl)
    · exact distinct.2.2.1.1 member
    · exact distinct.1 (Or.inr (Or.inl rfl))
  have px : p ≠ x := fun same => xFront (same ▸ List.mem_of_getLast? last)
  have nx : n ≠ x := fun same => xBack (same ▸ List.mem_of_mem_head? first)
  have kept (c : List α) (xc : x ∉ c) (chain : List.IsChain (Linked next prev) c)
      : List.IsChain (Linked (Function.update (Function.update next p (some n)) x none)
          (Function.update (Function.update prev n (some p)) x none)) c := by
    refine List.IsChain.imp_of_mem_imp ?_ chain
    intro a b ha hb linked
    have ax : a ≠ x := fun same => xc (same ▸ ha)
    have bx : b ≠ x := fun same => xc (same ▸ hb)
    have ap : a ≠ p := by
      rintro rfl
      exact bx (Option.some.inj (linked.next.symm.trans before.next))
    have bn : b ≠ n := by
      rintro rfl
      exact ax (Option.some.inj (linked.prev.symm.trans after.prev))
    constructor
    · rw [Function.update_of_ne ax, Function.update_of_ne ap, linked.next]
    · rw [Function.update_of_ne bx, Function.update_of_ne bn, linked.prev]
  refine (ring_append last first).mpr ⟨kept _ xFront segment, kept _ xBack segment', ?_⟩
  constructor
  · rw [Function.update_of_ne px, Function.update_self]
  · rw [Function.update_of_ne nx, Function.update_self]

end Splice

end Foundation.LinkedRing
