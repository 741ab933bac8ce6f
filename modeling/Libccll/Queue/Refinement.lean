import Libccll.Foundation.LinkedRing
import Libccll.Foundation.Transition
import Libccll.Queue.List
import Libccll.Queue.Sequences

/-! The heap of `next` and `prev` pointers represents the sequences after every run of calls. -/

namespace Libccll.Queue

open Foundation

variable {α : Type*}

/-- Every sequence is a ring in the heap, and removed nodes point nowhere. -/
structure Represents (heap : Heap α) (lists : Lists α) : Prop where
  valid : lists.Valid
  ring
    : ∀ {head nodes},
        lists.of head = some nodes → LinkedRing.Ring heap.next heap.prev head nodes
  null : ∀ {x}, x ∈ lists.removed → heap.next x = none ∧ heap.prev x = none

/-- Any heap represents that there is no head yet. -/
theorem represents_empty (heap : Heap α) : Represents heap Lists.empty :=
  ⟨Lists.empty_valid, nofun, fun gone => absurd gone (Set.notMem_empty _)⟩

variable [DecidableEq α]

/-- The call on the heap. -/
def Op.step (heap : Heap α) : Op α → Option (Heap α)
  | .initListNode list => some (Queue.initListNode heap (some list))
  | .listAdd new head => Queue.listAdd heap (some new) (some head)
  | .listAddHead new head => Queue.listAddHead heap (some new) (some head)
  | .listDel node => Queue.listDel heap (some node)

-----------------------------------------------------------------------------------------
-- Each call
-----------------------------------------------------------------------------------------

theorem Represents.init {heap : Heap α} {lists : Lists α} (represents : Represents heap lists)
    (x : α)
    : Represents (initListNode heap (some x)) (lists.init x) := by
  constructor
  · exact represents.valid.init x
  · intro head nodes listed
    rw [initListNode_next, initListNode_prev]
    rcases Lists.of_init.mp listed with ⟨rfl, rfl⟩ | ⟨other, old, free⟩
    · exact LinkedRing.ring_nil.mpr ⟨Function.update_self .., Function.update_self ..⟩
    · apply (represents.ring old).congr
      intro a member
      have ax : a ≠ x := by
        rcases List.mem_cons.mp member with rfl | inNodes
        · exact other
        · exact fun same => free (same ▸ inNodes)
      exact ⟨Function.update_of_ne ax .., Function.update_of_ne ax ..⟩
  · intro y gone
    have yx : y ≠ x := gone.2
    obtain ⟨next, prev⟩ := represents.null gone.1
    rw [initListNode_next, initListNode_prev, Function.update_of_ne yx, Function.update_of_ne yx]
    exact ⟨next, prev⟩

/-- `__list_add` between neighbours `p` and `n` of a ring puts the node between them. -/
theorem Represents.put {heap : Heap α} {lists : Lists α} (represents : Represents heap lists)
    {x head p n : α} {front back : List α} {change : List α → List α}
    (listed : lists.of head = some (front ++ back)) (free : lists.Free x) (other : x ≠ head)
    (last : (head :: front).getLast? = some p) (first : (back ++ [head]).head? = some n)
    (changed : change (front ++ back) = front ++ x :: back)
    : Represents (_listAdd heap (some p) (some x) (some n)) (lists.put x head change) := by
  have distinct := represents.valid.ring_nodup listed
  have fresh : x ∉ head :: (front ++ back) := by
    intro member
    rcases List.mem_cons.mp member with same | inNodes
    · exact other same
    · exact free head _ listed inNodes
  have pMem : p ∈ head :: (front ++ back) := by
    have := List.mem_of_getLast? last
    simp only [List.mem_cons, List.mem_append] at this ⊢
    tauto
  have nMem : n ∈ head :: (front ++ back) := by
    have := List.mem_of_mem_head? first
    simp only [List.mem_cons, List.mem_append, List.not_mem_nil] at this ⊢
    tauto
  have kept (a : α) (apart : a ∉ head :: (front ++ back)) (ax : a ≠ x)
      : (_listAdd heap (some p) (some x) (some n)).next a = heap.next a
        ∧ (_listAdd heap (some p) (some x) (some n)).prev a = heap.prev a := by
    have ap : a ≠ p := fun same => apart (same ▸ pMem)
    have an : a ≠ n := fun same => apart (same ▸ nMem)
    simp only [_listAdd_next, _listAdd_prev, Function.update_of_ne ax, Function.update_of_ne ap,
      Function.update_of_ne an, and_self]
  constructor
  · apply represents.valid.put free listed other
    rw [changed]
    exact List.perm_middle
  · intro head' nodes' listed'
    rcases (Lists.of_put listed).mp listed' with ⟨rfl, rfl⟩ | ⟨differs, notNew, old⟩
    · rw [_listAdd_next, _listAdd_prev, changed]
      exact (represents.ring listed).insert distinct fresh last first
    · apply (represents.ring old).congr
      intro a member
      apply kept a (represents.valid.ring_apart listed old differs a member)
      rcases List.mem_cons.mp member with rfl | inNodes
      · exact notNew
      · exact fun same => free head' nodes' old (same ▸ inNodes)
  · intro y gone
    obtain ⟨next, prev⟩ := kept y (represents.valid.removed_apart gone.1 listed) gone.2
    rw [next, prev]
    exact represents.null gone.1

theorem Represents.listAdd {heap : Heap α} {lists : Lists α}
    (represents : Represents heap lists) {x head : α} {nodes : List α}
    (listed : lists.of head = some nodes) (free : lists.Free x) (other : x ≠ head)
    : ∃ heap',
        listAdd heap (some x) (some head) = some heap'
        ∧ Represents heap' (lists.put x head (· ++ [x])) := by
  obtain ⟨p, _, last⟩ := LinkedRing.exists_getLast_front head nodes
  have prev := (represents.ring listed).head_links.1.trans last
  refine ⟨_, by simp only [Queue.listAdd, Option.bind_eq_bind, Option.bind_some, prev]; rfl, ?_⟩
  rw [← List.append_nil nodes] at listed
  refine represents.put listed free other last rfl ?_
  rw [List.append_nil]

theorem Represents.listAddHead {heap : Heap α} {lists : Lists α}
    (represents : Represents heap lists) {x head : α} {nodes : List α}
    (listed : lists.of head = some nodes) (free : lists.Free x) (other : x ≠ head)
    : ∃ heap',
        listAddHead heap (some x) (some head) = some heap'
        ∧ Represents heap' (lists.put x head (x :: ·)) := by
  obtain ⟨n, _, first⟩ := LinkedRing.exists_head_back head nodes
  have next := (represents.ring listed).head_links.2.trans first
  refine ⟨_, by simp only [Queue.listAddHead, Option.bind_eq_bind, Option.bind_some, next]; rfl,
    ?_⟩
  have listed : lists.of head = some ([] ++ nodes) := listed
  exact represents.put listed free other rfl first rfl

theorem Represents.listDel {heap : Heap α} {lists : Lists α}
    (represents : Represents heap lists) {x head : α} {nodes : List α}
    (listed : lists.of head = some nodes) (member : x ∈ nodes)
    : ∃ heap', listDel heap (some x) = some heap' ∧ Represents heap' (lists.delete x) := by
  obtain ⟨front, back, rfl⟩ := List.append_of_mem member
  obtain ⟨p, pMem, last⟩ := LinkedRing.exists_getLast_front head front
  obtain ⟨n, nMem, first⟩ := LinkedRing.exists_head_back head back
  have distinct := represents.valid.ring_nodup listed
  have ring := represents.ring listed
  obtain ⟨prev, next⟩ := ring.links
  have held : ¬lists.Free x := fun free => free head _ listed member
  have px : p ≠ x := by
    simp only [List.nodup_cons, List.nodup_append, List.mem_append, List.mem_cons] at distinct
    rintro rfl
    rcases List.mem_cons.mp pMem with rfl | inFront
    · exact distinct.1 (Or.inr (Or.inl rfl))
    · exact distinct.2.2.2 p inFront p (Or.inl rfl) rfl
  obtain ⟨heap', deleted, nexts, prevs⟩ :=
    listDel_between heap x p n (prev.trans last) (next.trans first) px
  have kept (a : α) (apart : a ∉ head :: (front ++ x :: back))
      : heap'.next a = heap.next a ∧ heap'.prev a = heap.prev a := by
    simp only [List.mem_cons, List.mem_append, List.not_mem_nil, not_or] at apart pMem nMem
    have ax : a ≠ x := apart.2.2.1
    have ap : a ≠ p := by
      rintro rfl
      tauto
    have an : a ≠ n := by
      rintro rfl
      tauto
    simp only [nexts, prevs, Function.update_of_ne ax, Function.update_of_ne ap,
      Function.update_of_ne an, and_self]
  refine ⟨heap', deleted, represents.valid.delete held, ?_, ?_⟩
  · intro head' nodes' listed'
    obtain ⟨nodes, old, rfl⟩ := Lists.of_delete.mp listed'
    rcases eq_or_ne head' head with rfl | differs
    · obtain rfl := Option.some.inj (listed.symm.trans old)
      have apart : x ∉ front := by
        simp only [List.nodup_cons, List.nodup_append, List.mem_cons] at distinct
        exact fun inFront => distinct.2.2.2 x inFront x (Or.inl rfl) rfl
      rw [List.erase_append_right _ apart, List.erase_cons_head, nexts, prevs]
      exact ring.remove distinct last first
    · have notIn : x ∉ nodes :=
        fun inNodes => differs (represents.valid.apart old inNodes listed member)
      rw [List.erase_of_not_mem notIn]
      apply (represents.ring old).congr
      intro a inRing
      exact kept a (represents.valid.ring_apart listed old differs a inRing)
  · intro y gone
    rcases Set.mem_insert_iff.mp gone with rfl | gone
    · simp only [nexts, prevs, Function.update_self, and_self]
    · obtain ⟨next', prev'⟩ := kept y (represents.valid.removed_apart gone listed)
      rw [next', prev']
      exact represents.null gone

/-- Every allowed call goes through, and the heap represents what it is for. -/
theorem Represents.step {heap : Heap α} {lists : Lists α} (represents : Represents heap lists)
    {op : Op α} (allowed : lists.Allowed op)
    : ∃ heap', op.step heap = some heap' ∧ Represents heap' (lists.apply op) := by
  cases op with
  | initListNode list => exact ⟨_, rfl, represents.init list⟩
  | listAdd new head =>
      obtain ⟨free, isHead, other⟩ := allowed
      obtain ⟨nodes, listed⟩ := Option.isSome_iff_exists.mp isHead
      exact represents.listAdd listed free other
  | listAddHead new head =>
      obtain ⟨free, isHead, other⟩ := allowed
      obtain ⟨nodes, listed⟩ := Option.isSome_iff_exists.mp isHead
      exact represents.listAddHead listed free other
  | listDel node =>
      simp only [Lists.Allowed, Lists.Free, not_forall, not_not] at allowed
      obtain ⟨head, nodes, listed, member⟩ := allowed
      exact represents.listDel listed member

theorem Represents.run {heap : Heap α} {lists : Lists α} (represents : Represents heap lists)
    {ops : List (Op α)} (allowed : lists.AllowedRun ops)
    : ∃ heap',
        Transition.run Op.step heap ops = some heap'
        ∧ Represents heap' (lists.applyAll ops) := by
  induction ops generalizing heap lists with
  | nil => exact ⟨heap, rfl, represents⟩
  | cons op ops ih =>
      obtain ⟨first, later⟩ := allowed
      obtain ⟨middle, stepped, represents'⟩ := represents.step first
      obtain ⟨heap', ran, final⟩ := ih represents' later
      exact ⟨heap', by rw [Transition.run_cons, stepped, Option.bind_some, ran], final⟩

-----------------------------------------------------------------------------------------
-- What callers read
-----------------------------------------------------------------------------------------

theorem listForEachFrom_chain {heap : Heap α} {head : α} {nodes : List α} (fuel : Nat)
    (chain : List.IsChain (LinkedRing.Linked heap.next heap.prev) (nodes ++ [head]))
    (apart : head ∉ nodes) (enough : nodes.length < fuel)
    : listForEachFrom heap head fuel (nodes ++ [head]).head? = some nodes := by
  induction nodes generalizing fuel with
  | nil =>
      obtain ⟨fuel, rfl⟩ := Nat.exists_eq_succ_of_ne_zero (Nat.ne_of_gt enough)
      simp only [List.nil_append, List.head?_cons, listForEachFrom, if_pos]
  | cons a nodes ih =>
      obtain ⟨fuel, rfl⟩ := Nat.exists_eq_succ_of_ne_zero (Nat.ne_of_gt (Nat.zero_lt_of_lt enough))
      rw [List.cons_append, List.isChain_cons] at chain
      obtain ⟨b, _, first⟩ := LinkedRing.exists_head_back head nodes
      have link := (chain.1 b first).next
      have other : some a ≠ some head := by
        intro same
        exact apart (Option.some.inj same ▸ List.mem_cons_self)
      have rest := ih fuel chain.2 (fun member => apart (List.mem_cons_of_mem a member))
        (Nat.lt_of_succ_lt_succ enough)
      rw [first] at rest
      simp only [List.cons_append, List.head?_cons, listForEachFrom, if_neg other, link, rest,
        Option.map_some]

/-- Traversal visits the sequence. -/
theorem Represents.forEach {heap : Heap α} {lists : Lists α}
    (represents : Represents heap lists) {head : α} {nodes : List α}
    (listed : lists.of head = some nodes) {fuel : Nat} (enough : nodes.length < fuel)
    : listForEach heap fuel head = some nodes := by
  have ring := represents.ring listed
  have chain := (List.isChain_cons.mp ring).2
  rw [listForEach, ring.head_links.2]
  exact listForEachFrom_chain fuel chain
    (represents.valid.headsFree listed head nodes listed) enough

theorem listSizeFrom_chain {heap : Heap α} {head a : α} {nodes : List α} (fuel : Nat)
    (chain : List.IsChain (LinkedRing.Linked heap.next heap.prev) (a :: nodes ++ [head]))
    (apart : head ∉ nodes) (enough : nodes.length < fuel)
    : listSizeFrom heap head fuel a = some nodes.length := by
  induction nodes generalizing fuel a with
  | nil =>
      obtain ⟨fuel, rfl⟩ := Nat.exists_eq_succ_of_ne_zero (Nat.ne_of_gt enough)
      have link := (List.isChain_pair.mp chain).next
      simp only [listSizeFrom, link, if_pos, List.length_nil]
  | cons b nodes ih =>
      obtain ⟨fuel, rfl⟩ := Nat.exists_eq_succ_of_ne_zero (Nat.ne_of_gt (Nat.zero_lt_of_lt enough))
      obtain ⟨link, chain⟩ := List.isChain_cons_cons.mp chain
      have other : head ≠ b := by
        rintro rfl
        exact apart List.mem_cons_self
      have rest := ih fuel chain (fun member => apart (List.mem_cons_of_mem b member))
        (Nat.lt_of_succ_lt_succ enough)
      simp only [listSizeFrom, link.next, if_neg other, rest, Option.map_some, List.length_cons]

theorem Represents.size {heap : Heap α} {lists : Lists α} (represents : Represents heap lists)
    {head : α} {nodes : List α} (listed : lists.of head = some nodes) {fuel : Nat}
    (enough : nodes.length < fuel)
    : listSize heap fuel (some head) = some nodes.length :=
  listSizeFrom_chain fuel (represents.ring listed)
    (represents.valid.headsFree listed head nodes listed) enough

theorem Represents.isEmpty {heap : Heap α} {lists : Lists α}
    (represents : Represents heap lists) {head : α} {nodes : List α}
    (listed : lists.of head = some nodes)
    : listEmpty heap (some head) = true ↔ nodes = [] := by
  rw [← (represents.ring listed).prev_head_iff (represents.valid.ring_nodup listed)]
  simp only [listEmpty, decide_eq_true_eq]

/-- Lists that a call does not name are the same afterwards. -/
theorem Lists.of_apply_untouched {lists : Lists α} {op : Op α} {head : α} {nodes : List α}
    (listed : lists.of head = some nodes) (untouched : ¬op.Touches head nodes)
    : (lists.apply op).of head = some nodes := by
  cases op with
  | initListNode list =>
      obtain ⟨other, free⟩ := not_or.mp untouched
      exact Lists.of_init.mpr (Or.inr ⟨other, listed, free⟩)
  | listAdd new target =>
      obtain ⟨other, notNew⟩ := not_or.mp untouched
      simp only [Lists.apply, Lists.put, if_neg other, if_neg notNew, listed]
  | listAddHead new target =>
      obtain ⟨other, notNew⟩ := not_or.mp untouched
      simp only [Lists.apply, Lists.put, if_neg other, if_neg notNew, listed]
  | listDel node =>
      exact Lists.of_delete.mpr ⟨nodes, listed, (List.erase_of_not_mem untouched).symm⟩

/-- Refinement: after every run of allowed calls, on any heap to start with, each head is the
ring of its sequence and is read as that sequence; the next call clears the links of the node
it removes and leaves the lists it does not name as they are.
-/
theorem lists_refined (heap : Heap α) (ops : List (Op α))
    (allowed : Lists.empty.AllowedRun ops)
    : ∃ heap',
        Transition.run Op.step heap ops = some heap'
        ∧ (∀ head nodes,
            (Lists.empty.applyAll ops).of head = some nodes
              → LinkedRing.Ring heap'.next heap'.prev head nodes
                ∧ (∀ fuel,
                    nodes.length < fuel
                      → listForEach heap' fuel head = some nodes
                        ∧ listSize heap' fuel (some head) = some nodes.length)
                ∧ (listEmpty heap' (some head) = true ↔ nodes = []))
        ∧ (∀ x ∈ (Lists.empty.applyAll ops).removed,
            heap'.next x = none ∧ heap'.prev x = none)
        ∧ ∀ op,
          (Lists.empty.applyAll ops).Allowed op
            → ∃ heap'',
              op.step heap' = some heap''
              ∧ (∀ x, op = .listDel x → heap''.next x = none ∧ heap''.prev x = none)
              ∧ ∀ head nodes,
                (Lists.empty.applyAll ops).of head = some nodes
                  → ¬op.Touches head nodes
                  → ∀ fuel,
                    nodes.length < fuel
                      → listForEach heap' fuel head = some nodes
                        ∧ listForEach heap'' fuel head = some nodes := by
  obtain ⟨heap', ran, represents⟩ := (represents_empty heap).run allowed
  refine ⟨heap', ran, ?_, fun x gone => represents.null gone, ?_⟩
  · intro head nodes listed
    exact ⟨represents.ring listed,
      fun fuel enough => ⟨represents.forEach listed enough, represents.size listed enough⟩,
      represents.isEmpty listed⟩
  · intro op next
    obtain ⟨heap'', stepped, represents'⟩ := represents.step next
    refine ⟨heap'', stepped, ?_, ?_⟩
    · rintro x rfl
      exact represents'.null (Set.mem_insert x _)
    · intro head nodes listed untouched fuel enough
      exact ⟨represents.forEach listed enough,
        represents'.forEach (Lists.of_apply_untouched listed untouched) enough⟩

/-- Two heads; one gets two nodes, at either end, and loses one of them again. -/
theorem lists_refined_twoHeads
    : ∃ heap',
        Transition.run Op.step (fun _ : Fin 4 => ⟨none, none⟩)
            [.initListNode 0, .initListNode 1, .listAdd 2 0, .listAddHead 3 0, .listDel 2]
          = some heap'
        ∧ listForEach heap' 2 0 = some [3] := by
  obtain ⟨heap', ran, read, _⟩ := lists_refined (fun _ : Fin 4 => ⟨none, none⟩)
    [.initListNode 0, .initListNode 1, .listAdd 2 0, .listAddHead 3 0, .listDel 2] (by decide)
  exact ⟨heap', ran, ((read 0 [3] (by decide)).2.1 2 (by decide)).1⟩

end Libccll.Queue
