import Mathlib.Algebra.Group.Basic
import Mathlib.Algebra.Group.Int.Defs
import Libccll.Foundation.LinkedRing
import Libccll.Queue.List

/-! `list_pop` and `list_pop2` in the body of a loop over the list. An address is one of a link
member, or of the container the member lies in at an offset.
-/

namespace Libccll.Queue

open Foundation

variable {α : Type*}

/-- The heap, and the addresses of links whose container was given back with `free`. -/
structure Memory (α : Type*) where
  heap : Heap α
  freed : List α

/-- What a loop has done: the memory it leaves, the nodes its body was run on and those that the
body was handed out.
-/
structure Walk (α : Type*) where
  memory : Memory α
  visited : List α
  popped : List α

-----------------------------------------------------------------------------------------
-- Links
-----------------------------------------------------------------------------------------

section

variable [DecidableEq α]

/-- The links at an address; `none` behind `NULL`, and of what was given back. -/
def Memory.load (memory : Memory α) (ptr : Option α) : Option (Clist α) := do
  let a ← ptr
  if a ∈ memory.freed then
    none
  else
    return memory.heap a

/-- `list_del`, which accesses the node and both its neighbours. -/
def Memory.listDel (memory : Memory α) (node : Option α) : Option (Memory α) := do
  let links ← memory.load node
  let _ ← memory.load links.prev
  let _ ← memory.load links.next
  let heap ← Queue.listDel memory.heap node
  return ⟨heap, memory.freed⟩

/-- `list_pop`: the memory, where it leaves `ptr_node_for_rm`, and `ptr_node_rm`. -/
def listPop (memory : Memory α) (ptrNodeForRm : α) : Option (Memory α × Option α × α) := do
  let links ← memory.load (some ptrNodeForRm)
  let ptrNodeRm := ptrNodeForRm
  let memory ← memory.listDel (some ptrNodeForRm)
  return (memory, links.prev, ptrNodeRm)

variable {memory : Memory α} {a p n : α}

theorem Memory.load_eq (alive : a ∉ memory.freed)
    : memory.load (some a) = some (memory.heap a) :=
  if_neg alive

/-- `list_del` of a node between two others. -/
theorem Memory.listDel_between (prev : memory.heap.prev a = some p)
    (next : memory.heap.next a = some n) (other : p ≠ a) (alive : a ∉ memory.freed)
    (alive' : p ∉ memory.freed) (alive'' : n ∉ memory.freed)
    : ∃ heap,
        memory.listDel (some a) = some ⟨heap, memory.freed⟩
        ∧ heap.next
          = Function.update (Function.update memory.heap.next p (some n)) a none
        ∧ heap.prev
          = Function.update (Function.update memory.heap.prev n (some p)) a none := by
  obtain ⟨heap, deleted, next', prev'⟩ := Queue.listDel_between memory.heap a p n prev next other
  refine ⟨heap, ?_, next', prev'⟩
  have prev : (memory.heap a).prev = some p := prev
  have next : (memory.heap a).next = some n := next
  simp only [Memory.listDel, load_eq alive, prev, next, load_eq alive', load_eq alive'', deleted,
    Option.bind_eq_bind, Option.bind_some]
  rfl

/-- `list_del` leaves `NULL` in the node only. -/
theorem Memory.listDel_linked {memory' : Memory α} {x : α}
    (deleted : memory.listDel (some x) = some memory') (other : a ≠ x)
    (linked : memory.heap.next a ≠ none)
    : memory'.heap.next a ≠ none := by
  simp only [Memory.listDel, Option.bind_eq_bind, Option.bind_eq_some_iff] at deleted
  obtain ⟨_, _, _, _, _, _, heap, deleted, same⟩ := deleted
  obtain rfl := Option.some.inj same
  simp only [Queue.listDel, Option.bind_eq_bind, Option.bind_eq_some_iff] at deleted
  obtain ⟨p, prev, n, next, same⟩ := deleted
  obtain rfl := Option.some.inj same
  simp only [Heap.next_setNext, Heap.next_setPrev] at next ⊢
  have linked' : memory.heap.next x ≠ none := by
    intro null
    rw [null] at next
    rcases eq_or_ne x p with rfl | differs
    · rw [Function.update_self] at next
      cases next
    · rw [Function.update_of_ne differs, null] at next
      cases next
  rw [Function.update_of_ne other]
  rcases eq_or_ne a p with rfl | differs
  · rwa [Function.update_self]
  · rwa [Function.update_of_ne differs]

end

-----------------------------------------------------------------------------------------
-- Containers
-----------------------------------------------------------------------------------------

section

variable [AddGroup α]

/-- `container_of` with the offset of a member. -/
def containerOf (ptr : Option α) (member : α) : Option α := ptr.map fun a => a - member

/-- `&ptr->member`. -/
def memberOf (ptr : Option α) (member : α) : Option α := ptr.map fun c => c + member

variable {ptr : Option α} {head member c : α} {kept rest : List α} {walk : Walk α}

theorem containerOf_zero : containerOf ptr 0 = ptr := by
  cases ptr <;> simp [containerOf]

theorem memberOf_containerOf : memberOf (containerOf ptr member) member = ptr := by
  cases ptr <;> simp [memberOf, containerOf]

/-- The addresses of the head and of nodes. -/
def ringOf (head member : α) (nodes : List α) : List α := head :: nodes.map fun c => c + member

theorem ringOf_append
    : ringOf head member (kept ++ rest)
      = head :: kept.map (fun c => c + member) ++ rest.map fun c => c + member := by
  rw [ringOf, List.map_append, List.cons_append]

/-- Every node was visited once and in order, the chosen ones were handed out with links that are
`NULL`, and the others are the list.
-/
structure Walk.Removed (walk : Walk α) (member head : α) (chosen : α → Bool) (nodes : List α)
    : Prop where
  visited : walk.visited = nodes
  popped : walk.popped = nodes.filter chosen
  null
    : ∀ c ∈ walk.popped,
        walk.memory.heap.next (c + member) = none ∧ walk.memory.heap.prev (c + member) = none
  ring
    : LinkedRing.Ring walk.memory.heap.next walk.memory.heap.prev head
        ((nodes.filter fun c => !chosen c).map fun c => c + member)

/-- The walk stands between nodes it has kept and nodes it has not visited; the others that it has
visited are popped.
-/
structure Walk.Along (walk : Walk α) (head member : α) (kept rest : List α) : Prop where
  ring
    : LinkedRing.Ring walk.memory.heap.next walk.memory.heap.prev head
        (kept.map (fun c => c + member) ++ rest.map fun c => c + member)
  distinct : (ringOf head member (kept ++ rest)).Nodup
  alive : ∀ a ∈ ringOf head member (kept ++ rest), a ∉ walk.memory.freed
  outside : ∀ c ∈ walk.popped, c + member ∉ ringOf head member (kept ++ rest)
  null
    : ∀ c ∈ walk.popped,
        walk.memory.heap.next (c + member) = none ∧ walk.memory.heap.prev (c + member) = none

/-- A loop at the first node of a well-formed list. -/
theorem Walk.along_start {heap : Heap α} {nodes : List α}
    (ring : LinkedRing.Ring heap.next heap.prev head (nodes.map fun c => c + member))
    (distinct : (head :: nodes.map fun c => c + member).Nodup)
    : (⟨⟨heap, []⟩, [], []⟩ : Walk α).Along head member [] nodes where
  ring := ring
  distinct := distinct
  alive := fun _ _ => List.not_mem_nil
  outside := fun _ popped => absurd popped List.not_mem_nil
  null := fun _ popped => absurd popped List.not_mem_nil

/-- The node is kept. -/
theorem Walk.Along.keep (along : walk.Along head member kept (c :: rest)) (visited : List α)
    : (⟨walk.memory, visited, walk.popped⟩ : Walk α).Along head member (kept ++ [c]) rest := by
  obtain ⟨ring, distinct, alive, outside, null⟩ := along
  rw [List.append_cons] at distinct alive outside
  rw [List.map_cons, List.append_cons] at ring
  refine ⟨?_, distinct, alive, outside, null⟩
  rw [List.map_append]
  exact ring

end

-----------------------------------------------------------------------------------------
-- Loops
-----------------------------------------------------------------------------------------

variable [DecidableEq α] [AddGroup α]

/-- `list_pop2`. Two of its three members are the one with the name `list`, at the offset `list`,
whatever `member` is.
-/
def listPop2 (list member : α) (memory : Memory α) (ptrNodeForRm : α)
    : Option (Memory α × Option α × α) := do
  let links ← memory.load (some (ptrNodeForRm + list))
  let ptrNodeRm := ptrNodeForRm
  let memory ← memory.listDel (some (ptrNodeForRm + list))
  return (memory, containerOf links.prev member, ptrNodeRm)

/-- The body of a loop, which pops the node it is at when that is a chosen one, and may give it
back afterwards, with the links at two offsets.
-/
def Walk.body (list member : α) (pop : Memory α → α → Option (Memory α × Option α × α))
    (chosen freed : α → Bool) (walk : Walk α) (pos : α)
    : Option (Walk α × Option α) :=
  if chosen pos = true then do
    let (memory, cursor, rm) ← pop walk.memory pos
    let gone := if freed rm = true then [rm + list, rm + member] else []
    return (⟨⟨memory.heap, gone ++ memory.freed⟩, walk.visited ++ [pos], walk.popped ++ [rm]⟩,
      cursor)
  else
    return (⟨walk.memory, walk.visited ++ [pos], walk.popped⟩, some pos)

/-- `list_for_each2` from a position on, for so many passes at most. -/
def listForEach2From (head member : α) (body : Walk α → α → Option (Walk α × Option α))
    : Nat → Walk α → Option α → Option (Walk α)
  | 0, _, _ => none
  | passes + 1, walk, pos =>
      if memberOf pos member = some head then
        some walk
      else do
        let (walk, pos) ← body walk (← pos)
        let links ← walk.memory.load (memberOf pos member)
        listForEach2From head member body passes walk (containerOf links.next member)

/-- `list_for_each2` with a body that pops by `list_pop2`. -/
def listForEach2Pop2 (list member : α) (chosen freed : α → Bool) (head : α) (passes : Nat)
    (heap : Heap α)
    : Option (Walk α) :=
  listForEach2From head member (Walk.body list member (listPop2 list member) chosen freed)
    passes ⟨⟨heap, []⟩, [], []⟩ (containerOf (heap.next head) member)

/-- `list_for_each` with a body that pops by `list_pop`: the nodes are the links themselves. -/
def listForEachPop (chosen freed : α → Bool) (head : α) (passes : Nat) (heap : Heap α)
    : Option (Walk α) :=
  listForEach2From head 0 (Walk.body 0 0 listPop chosen freed) passes ⟨⟨heap, []⟩, [], []⟩
    (containerOf (heap.next head) 0)

variable {memory : Memory α} {head list member c p : α} {chosen freed : α → Bool}
  {kept rest : List α} {walk : Walk α}

/-- With offsets of 0, `list_pop2` is `list_pop`. -/
theorem listPop2_zero : listPop2 (0 : α) 0 = listPop := by
  funext memory pos
  simp only [listPop2, listPop, add_zero, containerOf_zero]

/-- The chosen node is popped, and the cursor goes back to the last node kept. -/
theorem Walk.Along.pop (along : walk.Along head member kept (c :: rest))
    (last : (head :: kept.map fun c => c + member).getLast? = some p)
    : ∃ heap,
        listPop2 member member walk.memory c
          = some (⟨heap, walk.memory.freed⟩, containerOf (some p) member, c)
        ∧ ∀ visited gone,
            gone ⊆ [c + member]
            → (⟨⟨heap, gone ++ walk.memory.freed⟩, visited, walk.popped ++ [c]⟩ : Walk α).Along
                head member kept rest := by
  obtain ⟨ring, distinct, alive, outside, null⟩ := along
  rw [ringOf_append, List.map_cons] at distinct alive outside
  rw [List.map_cons] at ring
  obtain ⟨n, inBack, first⟩ := LinkedRing.exists_head_back head (rest.map fun c => c + member)
  obtain ⟨gone, distinct'⟩ := List.nodup_cons.mp (List.nodup_middle.mp distinct)
  have smaller {a : α} (inside : a ∈ ringOf head member (kept ++ rest))
      : a ∈ head :: kept.map (fun c => c + member)
          ++ (c + member) :: rest.map fun c => c + member := by
    rw [ringOf_append] at inside
    simp only [List.mem_append, List.mem_cons] at inside ⊢
    tauto
  have inFront : p ∈ head :: kept.map fun c => c + member := List.mem_of_getLast? last
  have pInside : p ∈ ringOf head member (kept ++ rest) := by
    rw [ringOf_append]
    exact List.mem_append_left _ inFront
  have nInside : n ∈ ringOf head member (kept ++ rest) := by
    rw [ringOf_append]
    simp only [List.mem_append, List.mem_cons, List.not_mem_nil, or_false] at inBack ⊢
    tauto
  rw [← ringOf_append] at gone distinct'
  have other : p ≠ c + member := fun same => gone (same ▸ pInside)
  obtain ⟨heap, deleted, next, prev⟩ :=
    Memory.listDel_between (ring.links.1.trans last) (ring.links.2.trans first) other
      (alive _ (List.mem_append_right _ List.mem_cons_self)) (alive p (smaller pInside))
      (alive n (smaller nInside))
  have old : (walk.memory.heap (c + member)).prev = some p := ring.links.1.trans last
  refine ⟨heap, ?_, fun visited back within => ⟨?_, distinct', ?_, ?_, ?_⟩⟩
  · simp only [listPop2, deleted, old, Option.bind_eq_bind, Option.bind_some,
      Memory.load_eq (alive _ (List.mem_append_right _ List.mem_cons_self))]
    rfl
  · change LinkedRing.Ring heap.next heap.prev _ _
    rw [next, prev]
    exact ring.remove distinct last first
  · intro a inside freed'
    rcases List.mem_append.mp freed' with back' | before
    · exact gone (List.mem_singleton.mp (within back') ▸ inside)
    · exact alive a (smaller inside) before
  · intro d popped inside
    rcases List.mem_append.mp popped with before | new
    · exact outside d before (smaller inside)
    · exact gone (List.mem_singleton.mp new ▸ inside)
  · intro d popped
    change heap.next _ = none ∧ heap.prev _ = none
    rw [next, prev]
    rcases List.mem_append.mp popped with before | new
    · have apart := outside d before
      have otherC : d + member ≠ c + member :=
        fun same => apart (same ▸ List.mem_append_right _ List.mem_cons_self)
      have otherP : d + member ≠ p := fun same => apart (same ▸ smaller pInside)
      have otherN : d + member ≠ n := fun same => apart (same ▸ smaller nInside)
      rw [Function.update_of_ne otherC, Function.update_of_ne otherP,
        Function.update_of_ne otherC, Function.update_of_ne otherN]
      exact null d before
    · rw [List.mem_singleton.mp new]
      exact ⟨Function.update_self .., Function.update_self ..⟩

/-- The walk goes on to the next node, from a node kept or from the head. -/
theorem Walk.Along.load_last (along : walk.Along head member kept rest)
    (last : (head :: kept.map fun c => c + member).getLast? = some p)
    : ∃ links,
        walk.memory.load (some p) = some links
        ∧ links.next = (rest.map (fun c => c + member) ++ [head]).head? := by
  have inside : p ∈ ringOf head member (kept ++ rest) := by
    rw [ringOf_append]
    exact List.mem_append_left _ (List.mem_of_getLast? last)
  exact ⟨_, Memory.load_eq (along.alive p inside), along.ring.next_last last⟩

/-- One pass, at the next node: it is kept, or popped when it is a chosen one. -/
theorem Walk.Along.turn (freed : α → Bool) (along : walk.Along head member kept (c :: rest))
    (same : chosen c = true → list = member) (passes : Nat)
    : ∃ walk',
        listForEach2From head member
            (Walk.body list member (listPop2 list member) chosen freed) (passes + 1) walk (some c)
          = listForEach2From head member
              (Walk.body list member (listPop2 list member) chosen freed) passes walk'
              (containerOf (rest.map (fun c => c + member) ++ [head]).head? member)
        ∧ walk'.visited = walk.visited ++ [c]
        ∧ walk'.popped = walk.popped ++ [c].filter chosen
        ∧ walk'.Along head member (kept ++ [c].filter fun c => !chosen c) rest := by
  have other : memberOf (some c) member ≠ some head := by
    intro same
    have distinct := along.distinct
    rw [ringOf, List.nodup_cons] at distinct
    refine distinct.1 (List.mem_map.mpr ⟨c, ?_, Option.some.inj same⟩)
    exact List.mem_append_right _ List.mem_cons_self
  rw [listForEach2From, if_neg other]
  simp only [Option.bind_eq_bind, Option.bind_some]
  by_cases pops : chosen c = true
  · obtain rfl := same pops
    obtain ⟨p, _, last⟩ := LinkedRing.exists_getLast_front head (kept.map fun c => c + list)
    obtain ⟨heap, popped, onward⟩ := along.pop last
    have along' :=
      onward (walk.visited ++ [c])
        (if freed c = true then [c + list, c + list] else []) (by split <;> simp)
    obtain ⟨links, loaded, next⟩ := along'.load_last last
    rw [List.filter_cons_of_pos pops, List.filter_cons_of_neg (by simp [pops]), List.filter_nil,
      List.filter_nil, List.append_nil]
    refine ⟨_, ?_, ?_, ?_, along'⟩
    · simp only [Walk.body, if_pos pops, popped, Option.bind_eq_bind, Option.bind_some]
      change (Option.bind (Memory.load _ (memberOf (containerOf (some p) list) list)) _) = _
      rw [memberOf_containerOf, loaded, Option.bind_some, next]
    · rfl
    · rfl
  · have along' := along.keep (walk.visited ++ [c])
    have last
        : (head :: (kept ++ [c]).map fun c => c + member).getLast? = some (c + member) := by
      rw [List.map_append, ← List.cons_append]
      exact List.getLast?_concat
    obtain ⟨links, loaded, next⟩ := along'.load_last last
    rw [List.filter_cons_of_neg pops, List.filter_cons_of_pos (by simp [pops]), List.filter_nil,
      List.filter_nil, List.append_nil]
    refine ⟨_, ?_, ?_, ?_, along'⟩
    · simp only [Walk.body, if_neg pops]
      change (Option.bind (Memory.load _ (some (c + member))) _) = _
      rw [loaded, Option.bind_some, next]
    · rfl
    · rfl

/-- A loop whose chosen nodes can be popped visits the rest and pops the chosen ones. -/
theorem listForEach2From_along {passes : Nat} (freed : α → Bool)
    (along : walk.Along head member kept rest) (same : ∀ c ∈ rest, chosen c = true → list = member)
    (enough : rest.length < passes)
    : ∃ walk',
        listForEach2From head member
            (Walk.body list member (listPop2 list member) chosen freed) passes walk
            (containerOf (rest.map (fun c => c + member) ++ [head]).head? member)
          = some walk'
        ∧ walk'.visited = walk.visited ++ rest
        ∧ walk'.popped = walk.popped ++ rest.filter chosen
        ∧ walk'.Along head member (kept ++ rest.filter fun c => !chosen c) [] := by
  induction rest generalizing walk kept passes with
  | nil =>
      obtain ⟨passes, rfl⟩ := Nat.exists_eq_add_of_lt enough
      refine ⟨walk, ?_, (List.append_nil _).symm, (List.append_nil _).symm, ?_⟩
      · rw [listForEach2From, memberOf_containerOf]
        exact if_pos rfl
      · rwa [List.filter_nil, List.append_nil]
  | cons c rest ih =>
      obtain ⟨passes, rfl⟩ := Nat.exists_eq_add_of_lt enough
      have enough' : rest.length < (c :: rest).length + passes := by
        rw [List.length_cons]
        omega
      have here : containerOf (some (c + member)) member = some c := by
        simp [containerOf]
      obtain ⟨walk₁, turned, visited₁, popped₁, along₁⟩ :=
        along.turn freed (same c List.mem_cons_self) ((c :: rest).length + passes)
      obtain ⟨walk', ran, visited, popped, ended⟩ :=
        ih along₁ (fun d inside => same d (List.mem_cons_of_mem c inside)) enough'
      rw [List.map_cons, List.cons_append, List.head?_cons, here]
      refine ⟨walk', turned.trans ran, ?_, ?_, ?_⟩
      · rw [visited, visited₁, List.append_assoc, List.singleton_append]
      · rw [popped, popped₁, List.append_assoc, ← List.filter_append, List.singleton_append]
      · rwa [List.append_assoc, ← List.filter_append, List.singleton_append] at ended

-----------------------------------------------------------------------------------------
-- Another member
-----------------------------------------------------------------------------------------

/-- A loop that pops another member cuts no link of the list it is about. -/
theorem listForEach2From_linked {passes : Nat} {pos : Option α} {walk' : Walk α}
    (ran
      : listForEach2From head member (Walk.body list member (listPop2 list member) chosen freed)
          passes walk pos
        = some walk')
    : ∃ later,
        walk'.visited = walk.visited ++ later
        ∧ ∀ a,
            (∀ d ∈ later, d + list ≠ a)
            → walk.memory.heap.next a ≠ none
            → walk'.memory.heap.next a ≠ none := by
  induction passes generalizing walk pos with
  | zero => cases ran
  | succ passes ih =>
      rw [listForEach2From] at ran
      split at ran
      · obtain rfl := Option.some.inj ran
        exact ⟨[], (List.append_nil _).symm, fun a _ linked => linked⟩
      · simp only [Option.bind_eq_bind, Option.bind_eq_some_iff] at ran
        obtain ⟨c, _, ⟨middle, cursor⟩, passed, links, _, ran⟩ := ran
        obtain ⟨later, visited, kept⟩ := ih ran
        have step
            : middle.visited = walk.visited ++ [c]
              ∧ ∀ a,
                  c + list ≠ a
                  → walk.memory.heap.next a ≠ none
                  → middle.memory.heap.next a ≠ none := by
          rw [Walk.body] at passed
          split at passed
          · simp only [listPop2, Option.bind_eq_bind, Option.bind_eq_some_iff] at passed
            obtain ⟨⟨memory, cursor', rm⟩, ⟨_, _, memory', deleted, popped⟩, passed⟩ := passed
            obtain ⟨rfl, _⟩ := Prod.mk.inj (Option.some.inj popped)
            obtain ⟨rfl, _⟩ := Prod.mk.inj (Option.some.inj passed)
            refine ⟨rfl, fun a other linked => ?_⟩
            have linked' := Memory.listDel_linked deleted (Ne.symm other) linked
            exact linked'
          · obtain ⟨rfl, _⟩ := Prod.mk.inj (Option.some.inj passed)
            exact ⟨rfl, fun a _ linked => linked⟩
        refine ⟨c :: later, ?_, fun a apart linked => ?_⟩
        · rw [visited, step.1, List.append_assoc, List.singleton_append]
        · obtain ⟨other, apart⟩ := List.forall_mem_cons.mp apart
          exact kept a apart (step.2 a other linked)

-----------------------------------------------------------------------------------------
-- Removal
-----------------------------------------------------------------------------------------

variable {heap : Heap α} {nodes : List α}

theorem listForEachPop_eq {passes : Nat}
    : listForEachPop chosen freed head passes heap
      = listForEach2Pop2 0 0 chosen freed head passes heap := by
  rw [listForEachPop, listForEach2Pop2, listPop2_zero]

/-- Popping by the member that the list is linked by removes the chosen nodes. -/
theorem listForEach2Pop2_removed (chosen freed : α → Bool)
    (ring : LinkedRing.Ring heap.next heap.prev head (nodes.map fun c => c + member))
    (distinct : (head :: nodes.map fun c => c + member).Nodup)
    (same : ∀ c ∈ nodes, chosen c = true → list = member)
    : ∃ passes walk,
        listForEach2Pop2 list member chosen freed head passes heap = some walk
        ∧ walk.Removed member head chosen nodes := by
  obtain ⟨walk, ran, visited, popped, ended⟩ :=
    listForEach2From_along freed (Walk.along_start ring distinct) same (Nat.lt_succ_self _)
  refine ⟨nodes.length + 1, walk, ?_, ?_⟩
  · rw [listForEach2Pop2, ring.head_links.2]
    exact ran
  · have ring := ended.ring
    rw [List.map_nil, List.append_nil] at ring
    exact ⟨visited, popped, ended.null, ring⟩

/-- Popping by another member removes no chosen node, unless members share an address. -/
theorem listForEach2Pop2_not_removed {passes : Nat}
    (ring : LinkedRing.Ring heap.next heap.prev head (nodes.map fun c => c + member))
    (apart : ∀ c ∈ nodes, ∀ d ∈ nodes, d + list ≠ c + member) (inside : c ∈ nodes)
    (pops : chosen c = true)
    (ran : listForEach2Pop2 list member chosen freed head passes heap = some walk)
    : ¬walk.Removed member head chosen nodes := by
  intro removed
  obtain ⟨later, visited, kept⟩ := listForEach2From_linked ran
  have all : later = nodes := visited.symm.trans removed.visited
  obtain ⟨front, back, rfl⟩ := List.append_of_mem inside
  rw [List.map_append, List.map_cons] at ring
  have linked : heap.next (c + member) ≠ none := by
    obtain ⟨n, _, first⟩ :=
      LinkedRing.exists_head_back head (back.map fun c => c + member)
    rw [ring.links.2, first]
    exact Option.some_ne_none n
  refine kept (c + member) (fun d popped => ?_) linked (removed.null c ?_).1
  · exact apart c inside d (all ▸ popped)
  · rw [removed.popped]
    exact List.mem_filter.mpr ⟨inside, pops⟩

/-- A loop over a well-formed list whose body pops the chosen nodes, and gives back some of them,
removes these by `list_pop`. By `list_pop2` it does so if and only if the list is linked by the
member with the name `list`, or nothing is chosen.
-/
theorem listForEachPop_removed (chosen freed : α → Bool)
    : (∀ (heap : Heap α) head nodes,
          LinkedRing.Ring heap.next heap.prev head nodes
          → (head :: nodes).Nodup
          → ∃ passes walk,
              listForEachPop chosen freed head passes heap = some walk
              ∧ walk.Removed 0 head chosen nodes)
      ∧ ∀ (heap : Heap α) head nodes list member,
          LinkedRing.Ring heap.next heap.prev head (nodes.map fun c => c + member)
          → (head :: nodes.map fun c => c + member).Nodup
          → (list ≠ member → ∀ c ∈ nodes, ∀ d ∈ nodes, d + list ≠ c + member)
          → ((∃ passes walk,
                listForEach2Pop2 list member chosen freed head passes heap = some walk
                ∧ walk.Removed member head chosen nodes)
            ↔ list = member ∨ ∀ c ∈ nodes, chosen c = false) := by
  constructor
  · intro heap head nodes ring distinct
    have plain : nodes.map (fun c => c + 0) = nodes := by simp
    simp only [listForEachPop_eq]
    rw [← plain] at ring distinct
    exact listForEach2Pop2_removed chosen freed ring distinct fun _ _ _ => rfl
  · intro heap head nodes list member ring distinct apart
    constructor
    · rintro ⟨passes, walk, ran, removed⟩
      by_contra differs
      rw [not_or] at differs
      obtain ⟨other, some⟩ := differs
      refine some fun c inside => Bool.eq_false_iff.mpr fun pops => ?_
      exact listForEach2Pop2_not_removed ring (apart other) inside pops ran removed
    · intro same
      refine listForEach2Pop2_removed chosen freed ring distinct fun c inside pops => ?_
      rcases same with same | nothing
      · exact same
      · cases pops.symm.trans (nothing c inside)

/-- A list of three containers at 100, 200 and 300, linked at the offset 8, with its head at 400. -/
def threeContainers : Heap ℤ := fun a =>
  if a = 400 then ⟨some 108, some 308⟩
  else if a = 108 then ⟨some 208, some 400⟩
  else if a = 208 then ⟨some 308, some 108⟩
  else if a = 308 then ⟨some 400, some 208⟩
  else ⟨none, none⟩

theorem threeContainers_ring
    : LinkedRing.Ring threeContainers.next threeContainers.prev 400 [108, 208, 308] := by
  simp only [LinkedRing.Ring, List.cons_append, List.nil_append, List.isChain_cons_cons,
    List.isChain_singleton, and_true]
  exact ⟨⟨rfl, rfl⟩, ⟨rfl, rfl⟩, ⟨rfl, rfl⟩, ⟨rfl, rfl⟩⟩

/-- The first two are popped by `list_pop`, and the last two by `list_pop2`. -/
theorem listForEachPop_removed_three
    : (∃ passes walk,
          listForEachPop (fun a => decide (a < 300)) (fun _ => true) 400 passes threeContainers
            = some walk
          ∧ walk.Removed 0 400 (fun a => decide (a < 300)) [108, 208, 308])
      ∧ ∃ passes walk,
          listForEach2Pop2 8 8 (fun c => decide (100 < c)) (fun _ => true) 400 passes
              threeContainers
            = some walk
          ∧ walk.Removed 8 400 (fun c => decide (100 < c)) [100, 200, 300] :=
  ⟨(listForEachPop_removed _ _).1 _ _ _ threeContainers_ring (by decide),
    ((listForEachPop_removed _ _).2 _ 400 [100, 200, 300] 8 8 threeContainers_ring (by decide)
      fun differs => absurd rfl differs).mpr (Or.inl rfl)⟩

/-- A container at 100 in two lists: by its member `list` at the offset 8 in the one of the head
500, and by a member at the offset 24 in the one of the head 400.
-/
def twiceListed : Heap ℤ := fun a =>
  if a = 400 then ⟨some 124, some 124⟩
  else if a = 124 then ⟨some 400, some 400⟩
  else if a = 500 then ⟨some 108, some 108⟩
  else if a = 108 then ⟨some 500, some 500⟩
  else ⟨none, none⟩

/-- `list_pop2` does not remove it from the second. -/
theorem listForEachPop_removed_twice
    : LinkedRing.Ring twiceListed.next twiceListed.prev 500 [108]
      ∧ LinkedRing.Ring twiceListed.next twiceListed.prev 400 ([100].map fun c => c + 24)
      ∧ (400 :: [100].map fun c : ℤ => c + 24).Nodup
      ∧ ¬∃ passes walk,
          listForEach2Pop2 8 24 (fun _ => true) (fun _ => false) 400 passes twiceListed
            = some walk
          ∧ walk.Removed 24 400 (fun _ => true) [100] := by
  have ring
      : LinkedRing.Ring twiceListed.next twiceListed.prev 400 ([100].map fun c => c + 24) := by
    simp only [LinkedRing.Ring, List.map_cons, List.map_nil, List.cons_append, List.nil_append,
      List.isChain_cons_cons, List.isChain_singleton, and_true]
    exact ⟨⟨rfl, rfl⟩, ⟨rfl, rfl⟩⟩
  refine ⟨?_, ring, by decide, ?_⟩
  · simp only [LinkedRing.Ring, List.cons_append, List.nil_append, List.isChain_cons_cons,
      List.isChain_singleton, and_true]
    exact ⟨⟨rfl, rfl⟩, ⟨rfl, rfl⟩⟩
  · rintro ⟨passes, walk, ran, removed⟩
    refine listForEach2Pop2_not_removed ring ?_ (List.mem_singleton_self 100) rfl ran removed
    decide

end Libccll.Queue
