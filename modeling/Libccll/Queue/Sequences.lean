import Mathlib.Data.Fintype.Basic
import Mathlib.Data.List.Nodup
import Mathlib.Data.Set.Insert

/-! What intrusive lists are for: heads with a sequence of nodes each, in which a node is at
most once. A node that becomes a head, or a head that becomes a node, gives up what it was.
-/

namespace Libccll.Queue

/-- The calls of a program that uses lists. -/
inductive Op (α : Type*) where
  | initListNode (list : α)
  | listAdd (new head : α)
  | listAddHead (new head : α)
  | listDel (node : α)

/-- The sequence of every head, and the nodes removed and not used since. -/
structure Lists (α : Type*) where
  of : α → Option (List α)
  removed : Set α

variable {α : Type*}

/-- Whether a call names the list: its head, its node, or the node that becomes a head. -/
def Op.Touches (head : α) (nodes : List α) : Op α → Prop
  | .initListNode list => head = list ∨ list ∈ nodes
  | .listAdd new target | .listAddHead new target => head = target ∨ head = new
  | .listDel node => node ∈ nodes

/-- No head yet. -/
def Lists.empty : Lists α where
  of _ := none
  removed := ∅

/-- A node that is in no list. -/
def Lists.Free (lists : Lists α) (x : α) : Prop :=
  ∀ head nodes, lists.of head = some nodes → x ∉ nodes

/-- What callers see to: an added node is in no list and its new list has a head; a deleted
node is in a list.
-/
def Lists.Allowed (lists : Lists α) : Op α → Prop
  | .initListNode _ => True
  | .listAdd new head | .listAddHead new head =>
      lists.Free new ∧ (lists.of head).isSome ∧ new ≠ head
  | .listDel node => ¬lists.Free node

/-- No node is in two places, heads are not nodes, and removed nodes are neither. -/
structure Lists.Valid (lists : Lists α) : Prop where
  distinct : ∀ {head nodes}, lists.of head = some nodes → nodes.Nodup
  apart
    : ∀ {x head nodes head' nodes'},
        lists.of head = some nodes → x ∈ nodes → lists.of head' = some nodes' → x ∈ nodes'
          → head = head'
  headsFree : ∀ {head nodes}, lists.of head = some nodes → lists.Free head
  removedFree : ∀ {x}, x ∈ lists.removed → lists.of x = none ∧ lists.Free x

theorem Lists.empty_valid : (Lists.empty : Lists α).Valid := by
  constructor <;> intros <;> simp_all [Lists.empty]

/-- Head and nodes of a list are all different. -/
theorem Lists.Valid.ring_nodup {lists : Lists α} (valid : lists.Valid) {head : α}
    {nodes : List α} (listed : lists.of head = some nodes)
    : (head :: nodes).Nodup :=
  List.nodup_cons.mpr ⟨valid.headsFree listed head nodes listed, valid.distinct listed⟩

/-- Two lists have no address in common. -/
theorem Lists.Valid.ring_apart {lists : Lists α} (valid : lists.Valid) {head head' : α}
    {nodes nodes' : List α} (listed : lists.of head = some nodes)
    (listed' : lists.of head' = some nodes') (other : head' ≠ head)
    : ∀ a ∈ head' :: nodes', a ∉ head :: nodes := by
  intro a member member'
  rcases List.mem_cons.mp member with rfl | inNodes' <;>
    rcases List.mem_cons.mp member' with rfl | inNodes
  · exact other rfl
  · exact valid.headsFree listed' head nodes listed inNodes
  · exact valid.headsFree listed head' nodes' listed' inNodes'
  · exact other (valid.apart listed' inNodes' listed inNodes)

/-- A removed node is in no list and heads none. -/
theorem Lists.Valid.removed_apart {lists : Lists α} (valid : lists.Valid) {x head : α}
    {nodes : List α} (gone : x ∈ lists.removed) (listed : lists.of head = some nodes)
    : x ∉ head :: nodes := by
  obtain ⟨noHead, free⟩ := valid.removedFree gone
  intro member
  rcases List.mem_cons.mp member with rfl | inNodes
  · cases noHead.symm.trans listed
  · exact free head nodes listed inNodes

variable [DecidableEq α]

/-- Starts an empty list; a list that had the head as a node is no longer one. -/
def Lists.init (lists : Lists α) (x : α) : Lists α where
  of head := if head = x then some [] else (lists.of head).filter (x ∉ ·)
  removed := lists.removed \ {x}

/-- Puts a node into the list of `head`; a list it was the head of is no longer one. -/
def Lists.put (lists : Lists α) (x head : α) (change : List α → List α) : Lists α where
  of other :=
    if other = head then
      (lists.of head).map change
    else if other = x then
      none
    else
      lists.of other
  removed := lists.removed \ {x}

/-- Removes exactly that node. -/
def Lists.delete (lists : Lists α) (x : α) : Lists α where
  of head := (lists.of head).map (List.erase · x)
  removed := insert x lists.removed

def Lists.apply (lists : Lists α) : Op α → Lists α
  | .initListNode list => lists.init list
  | .listAdd new head => lists.put new head (· ++ [new])
  | .listAddHead new head => lists.put new head (new :: ·)
  | .listDel node => lists.delete node

/-- A run of calls in which every call is allowed. -/
def Lists.AllowedRun (lists : Lists α) : List (Op α) → Prop
  | [] => True
  | op :: ops => lists.Allowed op ∧ (lists.apply op).AllowedRun ops

instance [Fintype α] (lists : Lists α) (x : α) : Decidable (lists.Free x) :=
  decidable_of_iff (∀ head, ∀ nodes ∈ lists.of head, x ∉ nodes) Iff.rfl

instance [Fintype α] (lists : Lists α) (op : Op α) : Decidable (lists.Allowed op) :=
  match op with
  | .initListNode _ => isTrue trivial
  | .listAdd new head | .listAddHead new head =>
      inferInstanceAs (Decidable (lists.Free new ∧ (lists.of head).isSome ∧ new ≠ head))
  | .listDel node => inferInstanceAs (Decidable ¬lists.Free node)

instance decidableAllowedRun [Fintype α] (lists : Lists α) (ops : List (Op α))
    : Decidable (lists.AllowedRun ops) :=
  match ops with
  | [] => isTrue trivial
  | op :: ops =>
      have := decidableAllowedRun (lists.apply op) ops
      inferInstanceAs (Decidable (lists.Allowed op ∧ (lists.apply op).AllowedRun ops))

def Lists.applyAll (lists : Lists α) (ops : List (Op α)) : Lists α :=
  ops.foldl Lists.apply lists

-----------------------------------------------------------------------------------------
-- The calls keep lists valid
-----------------------------------------------------------------------------------------

theorem Lists.of_init {lists : Lists α} {x head : α} {nodes : List α}
    : (lists.init x).of head = some nodes
      ↔ head = x ∧ nodes = [] ∨ head ≠ x ∧ lists.of head = some nodes ∧ x ∉ nodes := by
  simp only [Lists.init]
  split
  · rename_i same
    simp [same, eq_comm]
  · rename_i other
    simp [other, Option.filter_eq_some_iff]

theorem Lists.of_delete {lists : Lists α} {x head : α} {nodes : List α}
    : (lists.delete x).of head = some nodes
      ↔ ∃ nodes', lists.of head = some nodes' ∧ nodes = nodes'.erase x := by
  simp only [Lists.delete, Option.map_eq_some_iff, @eq_comm _ nodes]

theorem Lists.Valid.init {lists : Lists α} (valid : lists.Valid) (x : α)
    : (lists.init x).Valid := by
  constructor
  · intro head nodes listed
    rcases Lists.of_init.mp listed with ⟨_, rfl⟩ | ⟨_, listed, _⟩
    · exact List.nodup_nil
    · exact valid.distinct listed
  · intro y head nodes head' nodes' listed member listed' member'
    rcases Lists.of_init.mp listed with ⟨_, rfl⟩ | ⟨_, listed, _⟩
    · cases member
    · rcases Lists.of_init.mp listed' with ⟨_, rfl⟩ | ⟨_, listed', _⟩
      · cases member'
      · exact valid.apart listed member listed' member'
  · intro head nodes listed head' nodes' listed' member
    rcases Lists.of_init.mp listed' with ⟨_, rfl⟩ | ⟨_, listed', free⟩
    · cases member
    · rcases Lists.of_init.mp listed with ⟨rfl, _⟩ | ⟨_, listed, _⟩
      · exact free member
      · exact valid.headsFree listed head' nodes' listed' member
  · intro y gone
    obtain ⟨noHead, free⟩ := valid.removedFree gone.1
    constructor
    · simp only [Lists.init, if_neg (show y ≠ x from gone.2), noHead, Option.filter_none]
    · intro head nodes listed member
      rcases Lists.of_init.mp listed with ⟨_, rfl⟩ | ⟨_, listed, _⟩
      · cases member
      · exact free head nodes listed member

/-- What the lists are after a node was put into one of them. -/
theorem Lists.of_put {lists : Lists α} {x head : α} {nodes : List α}
    {change : List α → List α} (listed : lists.of head = some nodes) {other : α}
    {nodes' : List α}
    : (lists.put x head change).of other = some nodes'
      ↔ other = head ∧ nodes' = change nodes
        ∨ other ≠ head ∧ other ≠ x ∧ lists.of other = some nodes' := by
  simp only [Lists.put]
  split
  · rename_i same
    simp [same, listed, eq_comm]
  · rename_i differs
    simp only [differs, false_and, false_or, ne_eq, not_false_eq_true, true_and]
    split <;> rename_i case <;> simp only [case, reduceCtorEq, not_true_eq_false,
      not_false_eq_true, false_and, true_and]

theorem Lists.Valid.put {lists : Lists α} (valid : lists.Valid) {x head : α}
    {nodes : List α} {change : List α → List α} (free : lists.Free x)
    (listed : lists.of head = some nodes) (other : x ≠ head)
    (changed : (change nodes).Perm (x :: nodes))
    : (lists.put x head change).Valid := by
  have member_iff {y : α} : y ∈ change nodes ↔ y = x ∨ y ∈ nodes := by
    rw [changed.mem_iff, List.mem_cons]
  constructor
  · intro h ns listed'
    rcases (Lists.of_put listed).mp listed' with ⟨_, rfl⟩ | ⟨_, _, listed'⟩
    · rw [changed.nodup_iff]
      exact List.nodup_cons.mpr ⟨free head nodes listed, valid.distinct listed⟩
    · exact valid.distinct listed'
  · intro y h ns h' ns' listed₁ member₁ listed₂ member₂
    rcases (Lists.of_put listed).mp listed₁ with ⟨rfl, rfl⟩ | ⟨differs₁, _, old₁⟩ <;>
      rcases (Lists.of_put listed).mp listed₂ with ⟨rfl, rfl⟩ | ⟨differs₂, _, old₂⟩
    · rfl
    · rcases member_iff.mp member₁ with rfl | member₁
      · exact absurd member₂ (free h' ns' old₂)
      · exact valid.apart listed member₁ old₂ member₂
    · rcases member_iff.mp member₂ with rfl | member₂
      · exact absurd member₁ (free h ns old₁)
      · exact valid.apart old₁ member₁ listed member₂
    · exact valid.apart old₁ member₁ old₂ member₂
  · intro h ns listed₁ h' ns' listed₂ member
    have free' : lists.Free h := by
      rcases (Lists.of_put listed).mp listed₁ with ⟨rfl, _⟩ | ⟨_, _, old₁⟩
      · exact valid.headsFree listed
      · exact valid.headsFree old₁
    rcases (Lists.of_put listed).mp listed₂ with ⟨_, rfl⟩ | ⟨_, _, old₂⟩
    · rcases member_iff.mp member with rfl | member
      · rcases (Lists.of_put listed).mp listed₁ with ⟨same, _⟩ | ⟨_, differs, _⟩
        · exact other same
        · exact differs rfl
      · exact free' head nodes listed member
    · exact free' h' ns' old₂ member
  · intro y gone
    have apart := valid.removed_apart gone.1 listed
    obtain ⟨noHead, free'⟩ := valid.removedFree gone.1
    constructor
    · simp only [Lists.put, if_neg (show y ≠ head by rintro rfl; simp at apart),
        if_neg (show y ≠ x from gone.2), noHead]
    · intro h ns listed' member
      rcases (Lists.of_put listed).mp listed' with ⟨_, rfl⟩ | ⟨_, _, old⟩
      · rcases member_iff.mp member with same | member
        · exact gone.2 same
        · exact apart (List.mem_cons_of_mem head member)
      · exact free' h ns old member

theorem Lists.Valid.delete {lists : Lists α} (valid : lists.Valid) {x : α}
    (held : ¬lists.Free x)
    : (lists.delete x).Valid := by
  have notHead : lists.of x = none := by
    cases listed : lists.of x with
    | none => rfl
    | some nodes => exact absurd (valid.headsFree listed) held
  constructor
  · intro head nodes listed
    obtain ⟨nodes, old, rfl⟩ := Lists.of_delete.mp listed
    exact (valid.distinct old).erase x
  · intro y head nodes head' nodes' listed member listed' member'
    obtain ⟨nodes, old, rfl⟩ := Lists.of_delete.mp listed
    obtain ⟨nodes', old', rfl⟩ := Lists.of_delete.mp listed'
    exact valid.apart old (List.mem_of_mem_erase member) old'
      (List.mem_of_mem_erase member')
  · intro head nodes listed head' nodes' listed' member
    obtain ⟨nodes, old, rfl⟩ := Lists.of_delete.mp listed
    obtain ⟨nodes', old', rfl⟩ := Lists.of_delete.mp listed'
    exact valid.headsFree old head' nodes' old' (List.mem_of_mem_erase member)
  · intro y gone
    have noHead : lists.of y = none := by
      rcases Set.mem_insert_iff.mp gone with rfl | gone
      · exact notHead
      · exact (valid.removedFree gone).1
    refine ⟨by simp only [Lists.delete, noHead, Option.map_none], ?_⟩
    intro head nodes listed member
    obtain ⟨nodes, old, rfl⟩ := Lists.of_delete.mp listed
    rcases Set.mem_insert_iff.mp gone with rfl | gone
    · exact (valid.distinct old).not_mem_erase member
    · exact (valid.removedFree gone).2 head nodes old (List.mem_of_mem_erase member)

end Libccll.Queue
