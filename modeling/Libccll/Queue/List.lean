import Mathlib.Data.Option.Basic
import Mathlib.Logic.Function.Basic

/-! `queue/inc/list.h`: intrusive circular doubly linked lists in a shared heap.
A pointer is `none` when it is `NULL`; an operation is `none` when it follows a `NULL` pointer.
-/

namespace Libccll.Queue

/-- The two links of a `CLIST`. -/
structure Clist (α : Type*) where
  next : Option α
  prev : Option α

/-- The `CLIST` at every address. -/
abbrev Heap (α : Type*) := α → Clist α

variable {α : Type*} [DecidableEq α]

/-- The store `a->next = link`. -/
def Heap.setNext (heap : Heap α) (a : α) (link : Option α) : Heap α :=
  Function.update heap a { heap a with next := link }

/-- The store `a->prev = link`. -/
def Heap.setPrev (heap : Heap α) (a : α) (link : Option α) : Heap α :=
  Function.update heap a { heap a with prev := link }

/-- All `next` links. -/
def Heap.next (heap : Heap α) (a : α) : Option α := (heap a).next

/-- All `prev` links. -/
def Heap.prev (heap : Heap α) (a : α) : Option α := (heap a).prev

@[simp] theorem Heap.next_setNext (heap : Heap α) (a : α) (link : Option α)
    : (heap.setNext a link).next = Function.update heap.next a link := by
  funext b
  rcases eq_or_ne b a with rfl | other
  · simp [Heap.next, Heap.setNext]
  · simp [Heap.next, Heap.setNext, other]

@[simp] theorem Heap.prev_setNext (heap : Heap α) (a : α) (link : Option α)
    : (heap.setNext a link).prev = heap.prev := by
  funext b
  rcases eq_or_ne b a with rfl | other
  · simp [Heap.prev, Heap.setNext]
  · simp [Heap.prev, Heap.setNext, other]

@[simp] theorem Heap.next_setPrev (heap : Heap α) (a : α) (link : Option α)
    : (heap.setPrev a link).next = heap.next := by
  funext b
  rcases eq_or_ne b a with rfl | other
  · simp [Heap.next, Heap.setPrev]
  · simp [Heap.next, Heap.setPrev, other]

@[simp] theorem Heap.prev_setPrev (heap : Heap α) (a : α) (link : Option α)
    : (heap.setPrev a link).prev = Function.update heap.prev a link := by
  funext b
  rcases eq_or_ne b a with rfl | other
  · simp [Heap.prev, Heap.setPrev]
  · simp [Heap.prev, Heap.setPrev, other]

-----------------------------------------------------------------------------------------
-- Operations
-----------------------------------------------------------------------------------------

def initListNode (heap : Heap α) (list : Option α) : Heap α :=
  match list with
  | none => heap
  | some list => (heap.setPrev list (some list)).setNext list (some list)

def _listAdd (heap : Heap α) (prev new next : Option α) : Heap α :=
  match prev, new, next with
  | some prev, some new, some next =>
      (((heap.setNext prev (some new)).setPrev new (some prev)).setNext new (some next)).setPrev
        next (some new)
  | _, _, _ => heap

def listAddHead (heap : Heap α) (new head : Option α) : Option (Heap α) := do
  let head ← head
  return _listAdd heap (some head) new (heap.next head)

def listAdd (heap : Heap α) (new head : Option α) : Option (Heap α) := do
  let head ← head
  return _listAdd heap (heap.prev head) new (some head)

def listDel (heap : Heap α) (node : Option α) : Option (Heap α) :=
  match node with
  | none => some heap
  | some node => do
      let prev ← heap.prev node
      let heap := heap.setNext prev (heap.next node)
      let next ← heap.next node
      let heap := heap.setPrev next (heap.prev node)
      return (heap.setPrev node none).setNext node none

def listEmpty (heap : Heap α) (head : Option α) : Bool :=
  match head with
  | none => true
  | some head => heap.prev head = some head

/-- The loop of `list_size`, with `a` where it stands; `none` while it has not come to an end
after `fuel` passes.
-/
def listSizeFrom (heap : Heap α) (head : α) (fuel : Nat) (a : α) : Option Nat :=
  match fuel with
  | 0 => none
  | fuel + 1 =>
      match heap.next a with
      | none => some 0
      | some b =>
          if head = b then
            some 0
          else
            (listSizeFrom heap head fuel b).map (· + 1)

def listSize (heap : Heap α) (fuel : Nat) (head : Option α) : Option Nat :=
  match head with
  | none => some 0
  | some head => listSizeFrom heap head fuel head

/-- The nodes a `list_for_each` visits from `pos` on; `none` when it follows a `NULL` pointer
or has not come to an end after `fuel` passes.
-/
def listForEachFrom (heap : Heap α) (head : α) (fuel : Nat) (pos : Option α)
    : Option (List α) :=
  match fuel with
  | 0 => none
  | fuel + 1 =>
      if pos = some head then
        some []
      else
        match pos with
        | none => none
        | some pos => (listForEachFrom heap head fuel (heap.next pos)).map (pos :: ·)

/-- `list_for_each`, and `list_for_each2` up to the offset of the member in its container. -/
def listForEach (heap : Heap α) (fuel : Nat) (head : α) : Option (List α) :=
  listForEachFrom heap head fuel (heap.next head)

-----------------------------------------------------------------------------------------
-- What the operations store
-----------------------------------------------------------------------------------------

theorem initListNode_next (heap : Heap α) (list : α)
    : (initListNode heap (some list)).next = Function.update heap.next list (some list) := by
  simp only [initListNode, Heap.next_setNext, Heap.next_setPrev]

theorem initListNode_prev (heap : Heap α) (list : α)
    : (initListNode heap (some list)).prev = Function.update heap.prev list (some list) := by
  simp only [initListNode, Heap.prev_setNext, Heap.prev_setPrev]

theorem _listAdd_next (heap : Heap α) (prev new next : α)
    : (_listAdd heap (some prev) (some new) (some next)).next
      = Function.update (Function.update heap.next prev (some new)) new (some next) := by
  simp only [_listAdd, Heap.next_setNext, Heap.next_setPrev]

theorem _listAdd_prev (heap : Heap α) (prev new next : α)
    : (_listAdd heap (some prev) (some new) (some next)).prev
      = Function.update (Function.update heap.prev new (some prev)) next (some new) := by
  simp only [_listAdd, Heap.prev_setNext, Heap.prev_setPrev]

/-- `list_del` between two other nodes. -/
theorem listDel_between (heap : Heap α) (node prev next : α) (hp : heap.prev node = some prev)
    (hn : heap.next node = some next) (other : prev ≠ node)
    : ∃ heap',
        listDel heap (some node) = some heap'
        ∧ heap'.next
          = Function.update (Function.update heap.next prev (some next)) node none
        ∧ heap'.prev
          = Function.update (Function.update heap.prev next (some prev)) node none := by
  have kept : (heap.setNext prev (some next)).next node = some next := by
    rw [Heap.next_setNext, Function.update_of_ne other.symm, hn]
  refine ⟨(((heap.setNext prev (some next)).setPrev next (some prev)).setPrev node
    none).setNext node none, ?_, ?_, ?_⟩
  · simp only [listDel, hp, hn, Option.bind_eq_bind, Option.bind_some, kept,
      Heap.prev_setNext]
    rfl
  · simp only [Heap.next_setNext, Heap.next_setPrev]
  · simp only [Heap.prev_setNext, Heap.prev_setPrev]

end Libccll.Queue
