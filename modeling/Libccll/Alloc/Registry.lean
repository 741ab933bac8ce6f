import Libccll.Alloc.Calls

/-! The registry of `comm/alloc.c` follows the heap: whenever its lock is free, it holds one
record for every block that `cl_malloc` registered and `cl_free` has not released.
-/

namespace Libccll.Alloc

open Foundation

variable {θ : Type*} {s : State θ} {t : θ}

/-- The blocks registered and not released, with their sizes. -/
def State.tracked (s : State θ) : List (Nat × Nat) :=
  s.registered.filter fun entry => entry.1 ∉ s.released

/-- There is one record for each of them. -/
theorem Shared.tracked_length (shared : Shared s) : s.tracked.length = s.gLiObjs.length := by
  rw [State.tracked, ← shared.listed, List.length_map]

/-- While the lock is free, no block has just been freed under it. -/
theorem Shared.unlocked (shared : Shared s) (free : s.mtxObjs = none) (u : θ) (ptr : Block)
    (pos : Obj)
    : s.places u ≠ .freed ptr pos := by
  intro freed
  have locked := (shared.lock u).mp (by rw [freed]; trivial)
  cases free.symm.trans locked

/-- The records are about different blocks in use. -/
theorem Shared.addrs_nodup (shared : Shared s) (free : s.mtxObjs = none)
    : (s.gLiObjs.map Obj.addr).Nodup := by
  refine List.Nodup.map_on ?_ (shared.nodesApart.of_map _)
  intro a ha b hb same
  have mem := shared.heap.eq_of_addr (shared.inUse (shared.unlocked free) ha)
    (shared.inUse (shared.unlocked free) hb) same
  exact List.inj_on_of_nodup_map shared.made_nodup ha hb (congrArg Block.id mem)

/-- The sum of all sizes is one of `size_t`. -/
theorem foldl_size {objs : List Obj} (bytes : Nat)
    (below : bytes + (objs.map Obj.size).sum < sizeLimit)
    : objs.foldl (fun bytes obj => (bytes + obj.size) % sizeLimit) bytes
      = bytes + (objs.map Obj.size).sum := by
  induction objs generalizing bytes with
  | nil => rfl
  | cons obj objs ih =>
      rw [List.map_cons, List.sum_cons, ← Nat.add_assoc] at below ⊢
      have here : bytes + obj.size < sizeLimit := Nat.lt_of_le_of_lt (Nat.le_add_right _ _) below
      rw [List.foldl_cons, Nat.mod_eq_of_lt here, ih _ below]

/-- The blocks in use fit into the address space, and so does the sum of their sizes. -/
theorem Shared.bytes (shared : Shared s) (free : s.mtxObjs = none)
    : clAllocingBytes s = (s.gLiObjs.map Obj.size).sum := by
  have distinct : (s.gLiObjs.map Obj.mem).Nodup := by
    refine List.Nodup.map_on ?_ (shared.nodesApart.of_map _)
    intro a ha b hb same
    exact List.inj_on_of_nodup_map shared.made_nodup ha hb (congrArg Block.id same)
  have used : ∀ b ∈ s.gLiObjs.map Obj.mem, b ∈ s.arena.blocks := by
    intro b member
    obtain ⟨obj, listed, rfl⟩ := List.mem_map.mp member
    exact shared.inUse (shared.unlocked free) listed
  have below := shared.heap.sum_lt (Nat.two_pow_pos 64) distinct used
  rw [List.map_map] at below
  rw [clAllocingBytes, foldl_size 0 (by rwa [Nat.zero_add]), Nat.zero_add]

variable [DecidableEq θ]

/-- Nothing but the lock keeps a call from going on: what it frees is in use. -/
theorem Custody.enabled (custody : Custody s) (calling : s.idle t = false)
    : (Alloc.step s (.proceed t none)).isSome = true ∨ ∃ u, u ≠ t ∧ s.mtxObjs = some u := by
  have shared := custody.shared
  have here := custody.here t
  have waits (unlocked : ¬(s.places t).Locked) (taken : s.mtxObjs.isNone ≠ true)
      : ∃ u, u ≠ t ∧ s.mtxObjs = some u := by
    have owned : s.mtxObjs ≠ none := fun free => taken (by rw [free]; rfl)
    obtain ⟨u, owner⟩ := Option.ne_none_iff_exists'.mp owned
    refine ⟨u, ?_, owner⟩
    rintro rfl
    exact unlocked ((shared.lock u).mpr owner)
  cases place : s.places t with
  | outside => simp [State.idle, place] at calling
  | filled size newMem obj =>
      by_cases free : s.mtxObjs.isNone = true
      · exact Or.inl (by simp [Alloc.step, Alloc.clMalloc, place, free])
      · exact Or.inr (waits (by simp [place, Place.Locked]) free)
  | freeing ptr =>
      by_cases free : s.mtxObjs.isNone = true
      · exact Or.inl (by simp [Alloc.step, Alloc.clMalloc, Alloc.clFree, place, free])
      · exact Or.inr (waits (by simp [place, Place.Locked]) free)
  | failing size newMem =>
      rw [place] at here
      exact Or.inl (by simp [Alloc.step, Alloc.clMalloc, place, shared.free_eq here.1.1.1])
  | found ptr pos =>
      rw [place] at here
      exact Or.inl (by
        simp [Alloc.step, Alloc.clMalloc, Alloc.clFree, place, shared.free_eq here.1.1])
  | unlinked ptr pos =>
      rw [place] at here
      exact Or.inl (by
        simp [Alloc.step, Alloc.clMalloc, Alloc.clFree, place, shared.free_eq here.1.1.1])
  | wild ptr =>
      rw [place] at here
      exact Or.inl (by
        simp [Alloc.step, Alloc.clMalloc, Alloc.clFree, place, shared.free_eq here.1.1.1])
  | mallocing | gotMem | adding | added | clearing =>
      exact Or.inl (by simp [Alloc.step, Alloc.clMalloc, place])
  | searching ptr =>
      refine Or.inl ?_
      simp only [Alloc.step, Alloc.clMalloc, Alloc.clFree, place, Option.none_or]
      split <;> rfl
  | freed | released | missed =>
      exact Or.inl (by simp [Alloc.step, Alloc.clMalloc, Alloc.clFree, place])

omit [DecidableEq θ] in
/-- While the lock is free the records are about different blocks, each in use and as long as the
record says, and just those registered and not released; the counts are theirs, the first one as a
`uint32_t`.
-/
theorem Shared.listing (shared : Shared s) (free : s.mtxObjs = none)
    : (s.gLiObjs.map Obj.addr).Nodup
      ∧ (∀ obj ∈ s.gLiObjs, obj.mem ∈ s.arena.blocks)
      ∧ s.gLiObjs.map (fun obj => (obj.made, obj.size)) = s.tracked
      ∧ clAllocingCnt s = s.tracked.length % 2 ^ 32
      ∧ clAllocingBytes s = (s.tracked.map Prod.snd).sum := by
  refine ⟨shared.addrs_nodup free, fun obj listed => ?_, shared.listed, ?_, ?_⟩
  · exact shared.inUse (shared.unlocked free) listed
  · rw [clAllocingCnt, sizeLimit, Nat.mod_mod_of_dvd _ (Nat.pow_dvd_pow 2 (by decide : 32 ≤ 64)),
      shared.tracked_length]
  · rw [shared.bytes free, State.tracked, ← shared.listed, List.map_map]
    rfl

/-- `cl_malloc` from its call to its return. -/
def mallocCall (size : Int32) (e : Nat) : List (Action Unit) :=
  [.clMalloc () size, .proceed () (some e), .proceed () (some (e + 128)), .proceed () none,
    .proceed () none, .proceed () none, .proceed () none]

-----------------------------------------------------------------------------------------
-- As many blocks as an uint32_t has values
-----------------------------------------------------------------------------------------

/-- No call is going on, and all blocks lie below an address. -/
structure Quiet (s : State Unit) (e : Nat) : Prop where
  outside : s.places () = .outside
  unlocked : s.mtxObjs = none
  below : ∀ b ∈ s.arena.blocks, b.addr + b.size < e

theorem Quiet.mallocCall {s : State Unit} {e : Nat} (quiet : Quiet s e) (positive : 0 < e)
    (room : e + 256 ≤ sizeLimit)
    : ∃ s',
        Transition.run step s (mallocCall 1 e) = some s'
          ∧ Quiet s' (e + 256)
          ∧ s'.gLiObjs.length = s.gLiObjs.length + 1 := by
  have one : sizeT 1 = 1 := rfl
  have first : s.arena.Fits sizeLimit e (sizeT 1) :=
    Arena.fits_above quiet.below (by omega) positive (by omega)
  have between : ∀ b ∈ (s.arena.alloc e (sizeT 1)).blocks, b.addr + b.size < e + 128 :=
    Arena.alloc_below quiet.below (by omega)
  have second : (s.arena.alloc e (sizeT 1)).Fits sizeLimit (e + 128) objSz :=
    Arena.fits_above between (by rw [objSz]; omega) (by omega) (by omega)
  have below : ∀ b ∈ ((s.arena.alloc e (sizeT 1)).alloc (e + 128) objSz).blocks,
      b.addr + b.size < e + 256 :=
    Arena.alloc_below between (by rw [objSz]; omega)
  simp only [Alloc.mallocCall, Transition.run, Alloc.step, Alloc.clMalloc, State.idle,
    quiet.outside, quiet.unlocked, State.enter, State.malloc, State.moveTo, State.finish, first,
    second, Function.update_self, Option.isNone_none, if_true, Option.map_some, Option.bind_some,
    Option.some_or]
  exact ⟨_, rfl, ⟨by simp, rfl, below⟩, List.length_append⟩

/-- Any number of blocks can be registered, as long as there is room. -/
theorem exists_registered (n : Nat) (room : 256 * (n + 1) ≤ sizeLimit)
    : ∃ actions s,
        Transition.run step initial actions = some s
          ∧ Quiet s (256 * (n + 1))
          ∧ s.gLiObjs.length = n := by
  induction n with
  | zero => exact ⟨[], initial, rfl, ⟨rfl, rfl, by simp [initial, Arena.empty]⟩, rfl⟩
  | succ n ih =>
      obtain ⟨actions, s, ran, quiet, len⟩ := ih (by omega)
      obtain ⟨s', called, quiet', len'⟩ := quiet.mallocCall (by omega) (by omega)
      refine ⟨actions ++ mallocCall 1 (256 * (n + 1)), s', ?_, quiet', by rw [len', len]⟩
      rw [Transition.run_append, ran, Option.bind_some, called]

end Libccll.Alloc
