import Mathlib.Algebra.BigOperators.Group.List.Basic
import Mathlib.Algebra.GroupWithZero.Nat
import Mathlib.Data.Finset.Card
import Mathlib.Data.List.Nodup
import Mathlib.Order.Interval.Finset.Nat

/-! A heap that hands out blocks of memory and takes them back.
Blocks in use do not overlap, an address may be handed out again as soon as its block is back,
and every block has a number that no other block ever gets.
-/

namespace Foundation

/-- A block in use: its number, where it begins and how long it is. -/
structure Block where
  id : Nat
  addr : Nat
  size : Nat
  deriving DecidableEq

/-- The blocks in use, how many were handed out so far, and the numbers of those taken back. -/
structure Arena where
  blocks : List Block
  made : Nat
  released : List Nat

/-- Different addresses, and no byte in common. -/
def Block.Apart (b c : Block) : Prop :=
  b.addr ≠ c.addr ∧ (b.addr + b.size ≤ c.addr ∨ c.addr + c.size ≤ b.addr)

/-- The addresses of a block. -/
def Block.range (b : Block) : Finset Nat := Finset.Ico b.addr (b.addr + b.size)

def Arena.empty : Arena := ⟨[], 0, []⟩

/-- There is room for a block below the limit; nothing is ever at address zero. -/
def Arena.Fits (limit : Nat) (arena : Arena) (addr size : Nat) : Prop :=
  0 < addr
  ∧ addr < limit
  ∧ addr + size ≤ limit
  ∧ ∀ c ∈ arena.blocks, Block.Apart ⟨arena.made, addr, size⟩ c

/-- The block handed out next. -/
def Arena.next (arena : Arena) (addr size : Nat) : Block := ⟨arena.made, addr, size⟩

def Arena.alloc (arena : Arena) (addr size : Nat) : Arena :=
  {
    arena with
    blocks := arena.blocks ++ [arena.next addr size]
    made := arena.made + 1
  }

/-- Takes back the block at an address; `none` when there is none. -/
def Arena.release (arena : Arena) (addr : Nat) : Option (Block × Arena) :=
  (arena.blocks.find? (·.addr = addr)).map fun b =>
    (b, { arena with blocks := arena.blocks.erase b, released := arena.released ++ [b.id] })

instance (b c : Block) : Decidable (b.Apart c) := by
  unfold Block.Apart
  infer_instance

instance (limit : Nat) (arena : Arena) (addr size : Nat)
    : Decidable (arena.Fits limit addr size) := by
  unfold Arena.Fits
  infer_instance

/-- What holds of a heap that is only used by `alloc`, where there is room, and `release`. -/
structure Arena.WellFormed (limit : Nat) (arena : Arena) : Prop where
  apart : arena.blocks.Pairwise Block.Apart
  inside : ∀ b ∈ arena.blocks, 0 < b.addr ∧ b.addr < limit ∧ b.addr + b.size ≤ limit
  numbered : (arena.blocks.map Block.id).Nodup
  old : ∀ b ∈ arena.blocks, b.id < arena.made
  back : ∀ n ∈ arena.released, n < arena.made ∧ n ∉ arena.blocks.map Block.id
  once : arena.released.Nodup

variable {limit : Nat} {arena : Arena} {b c : Block}

theorem Block.Apart.symm (apart : b.Apart c) : c.Apart b :=
  ⟨apart.1.symm, apart.2.symm⟩

instance symm_apart : Std.Symm Block.Apart := ⟨fun _ _ => Block.Apart.symm⟩

theorem Arena.wellFormed_empty (limit : Nat) : Arena.empty.WellFormed limit := by
  constructor <;> simp [Arena.empty]

/-- There is room above all blocks. -/
theorem Arena.fits_above {addr size : Nat} (above : ∀ b ∈ arena.blocks, b.addr + b.size < addr)
    (room : addr + size ≤ limit) (positive : 0 < addr) (below : addr < limit)
    : arena.Fits limit addr size := by
  refine ⟨positive, below, room, fun c member => ⟨?_, Or.inr (Nat.le_of_lt (above c member))⟩⟩
  have higher := above c member
  exact Nat.ne_of_gt (Nat.lt_of_le_of_lt (Nat.le_add_right _ _) higher)

theorem Arena.alloc_below {addr size e : Nat} (above : ∀ b ∈ arena.blocks, b.addr + b.size < addr)
    (room : addr + size < e)
    : ∀ b ∈ (arena.alloc addr size).blocks, b.addr + b.size < e := by
  intro b member
  rcases List.mem_append.mp member with inside | last
  · exact (above b inside).trans (Nat.lt_of_le_of_lt (Nat.le_add_right _ _) room)
  · rw [List.mem_singleton.mp last]
    exact room

/-- Blocks in use with the same address are the same. -/
theorem Arena.WellFormed.eq_of_addr (formed : arena.WellFormed limit) (hb : b ∈ arena.blocks)
    (hc : c ∈ arena.blocks) (same : b.addr = c.addr)
    : b = c := by
  by_contra other
  exact (formed.apart.forall hb hc other).1 same

/-- Blocks in use with the same number are the same. -/
theorem Arena.WellFormed.eq_of_id (formed : arena.WellFormed limit) (hb : b ∈ arena.blocks)
    (hc : c ∈ arena.blocks) (same : b.id = c.id)
    : b = c :=
  List.inj_on_of_nodup_map formed.numbered hb hc same

theorem Arena.WellFormed.not_released (formed : arena.WellFormed limit) (member : b ∈ arena.blocks)
    : b.id ∉ arena.released :=
  fun back => (formed.back b.id back).2 (List.mem_map_of_mem member)

theorem Arena.WellFormed.alloc (formed : arena.WellFormed limit) {addr size : Nat}
    (fits : arena.Fits limit addr size)
    : (arena.alloc addr size).WellFormed limit := by
  obtain ⟨positive, below, room, apart⟩ := fits
  have new : arena.made ∉ arena.blocks.map Block.id := by
    intro member
    obtain ⟨c, inside, same⟩ := List.mem_map.mp member
    exact Nat.ne_of_lt (formed.old c inside) same
  have mem_iff {d : Block}
      : d ∈ (arena.alloc addr size).blocks ↔ d ∈ arena.blocks ∨ d = arena.next addr size := by
    rw [Arena.alloc, List.mem_append, List.mem_singleton]
  refine ⟨?_, ?_, ?_, ?_, ?_, formed.once⟩
  · rw [Arena.alloc, List.pairwise_append]
    refine ⟨formed.apart, List.pairwise_singleton .., ?_⟩
    intro c inside d last
    rw [List.mem_singleton.mp last]
    exact (apart c inside).symm
  · intro d member
    rcases mem_iff.mp member with inside | rfl
    · exact formed.inside d inside
    · exact ⟨positive, below, room⟩
  · rw [Arena.alloc, List.map_append, List.nodup_append]
    refine ⟨formed.numbered, List.nodup_singleton _, ?_⟩
    intro n inside m last same
    rw [List.mem_singleton.mp last] at same
    exact new (by rwa [same] at inside)
  · intro d member
    rcases mem_iff.mp member with inside | rfl
    · exact Nat.lt_succ_of_lt (formed.old d inside)
    · exact Nat.lt_succ_self _
  · intro n back
    obtain ⟨old, gone⟩ := formed.back n back
    refine ⟨Nat.lt_succ_of_lt old, ?_⟩
    rw [Arena.alloc, List.map_append, List.mem_append, List.map_singleton, List.mem_singleton]
    rintro (inside | rfl)
    · exact gone inside
    · exact Nat.lt_irrefl _ old

/-- A block in use is the one that is taken back at its address. -/
theorem Arena.WellFormed.release_eq (formed : arena.WellFormed limit) (member : b ∈ arena.blocks)
    : arena.release b.addr
      = some (b,
          { arena with blocks := arena.blocks.erase b, released := arena.released ++ [b.id] }) := by
  have found : (arena.blocks.find? (·.addr = b.addr)).isSome = true :=
    List.find?_isSome.mpr ⟨b, member, decide_eq_true rfl⟩
  obtain ⟨c, found⟩ := Option.isSome_iff_exists.mp found
  have same : c.addr = b.addr := by simpa using List.find?_some found
  obtain rfl := formed.eq_of_addr (List.mem_of_find?_eq_some found) member same
  rw [Arena.release, found, Option.map_some]

theorem Arena.WellFormed.nodup (formed : arena.WellFormed limit) : arena.blocks.Nodup :=
  formed.numbered.of_map Block.id

theorem Arena.WellFormed.release (formed : arena.WellFormed limit) (member : b ∈ arena.blocks)
    : Arena.WellFormed limit
        { arena with blocks := arena.blocks.erase b, released := arena.released ++ [b.id] } := by
  have mem_iff {c : Block} : c ∈ arena.blocks.erase b ↔ c ≠ b ∧ c ∈ arena.blocks :=
    formed.nodup.mem_erase_iff
  have sublist : (arena.blocks.erase b).Sublist arena.blocks := List.erase_sublist
  refine ⟨formed.apart.sublist sublist, ?_, formed.numbered.sublist (sublist.map Block.id), ?_, ?_,
    ?_⟩
  · exact fun c left => formed.inside c (mem_iff.mp left).2
  · exact fun c left => formed.old c (mem_iff.mp left).2
  · intro n back
    rcases List.mem_append.mp back with before | now
    · obtain ⟨old, gone⟩ := formed.back n before
      exact ⟨old, fun left => gone ((sublist.map Block.id).subset left)⟩
    · obtain rfl := List.mem_singleton.mp now
      refine ⟨formed.old b member, fun left => ?_⟩
      obtain ⟨c, inside, same⟩ := List.mem_map.mp left
      exact (mem_iff.mp inside).1 (formed.eq_of_id (mem_iff.mp inside).2 member same)
  · rw [List.nodup_append]
    refine ⟨formed.once, List.nodup_singleton _, ?_⟩
    intro n back m now same
    rw [List.mem_singleton.mp now] at same
    exact formed.not_released member (same ▸ back)

-----------------------------------------------------------------------------------------
-- Room
-----------------------------------------------------------------------------------------

/-- As many addresses are taken as the blocks are long together. -/
theorem card_ranges {blocks : List Block} (apart : blocks.Pairwise Block.Apart)
    : (blocks.toFinset.biUnion Block.range).card = (blocks.map Block.size).sum := by
  induction blocks with
  | nil => rfl
  | cons b blocks ih =>
      obtain ⟨others, apart⟩ := List.pairwise_cons.mp apart
      have disjoint : Disjoint b.range (blocks.toFinset.biUnion Block.range) := by
        rw [Finset.disjoint_biUnion_right]
        intro c member
        rw [Finset.disjoint_left]
        intro n inB inC
        have away := (others c (List.mem_toFinset.mp member)).2
        rw [Block.range, Finset.mem_Ico] at inB inC
        omega
      rw [List.toFinset_cons, Finset.biUnion_insert, Finset.card_union_of_disjoint disjoint,
        ih apart, List.map_cons, List.sum_cons, Block.range, Nat.card_Ico,
        Nat.add_sub_cancel_left]

/-- Blocks in use are together shorter than the limit. -/
theorem Arena.WellFormed.sum_lt (formed : arena.WellFormed limit) (positive : 0 < limit)
    {some : List Block} (distinct : some.Nodup) (used : ∀ b ∈ some, b ∈ arena.blocks)
    : (some.map Block.size).sum < limit := by
  have apart : some.Pairwise Block.Apart :=
    distinct.pairwise_of_forall_ne fun b hb c hc other =>
      formed.apart.forall (used b hb) (used c hc) other
  have within : some.toFinset.biUnion Block.range ⊆ Finset.Ico 1 limit := by
    intro n member
    obtain ⟨b, inside, inB⟩ := Finset.mem_biUnion.mp member
    obtain ⟨positive, -, below⟩ := formed.inside b (used b (List.mem_toFinset.mp inside))
    rw [Block.range, Finset.mem_Ico] at inB
    rw [Finset.mem_Ico]
    omega
  have bound := Finset.card_le_card within
  rw [card_ranges apart, Nat.card_Ico] at bound
  omega

end Foundation
