import Mathlib.Tactic.IntervalCases
import Libccll.Cipher.Layout
import Libccll.Cipher.Stream

/-! The data loop: chunks land at random free places and never disturb a used cell.
The only used cell a pass rewrites is its own index cell.
-/

namespace Libccll.Klciph

open Foundation

-----------------------------------------------------------------------------------------
-- The cells of one chunk
-----------------------------------------------------------------------------------------

/-- Cell `t` of a chunk at `idx`. -/
def dataCell (idx : Cell) (t : Nat) : Cell := incIdx^[t] idx

theorem dataCell_succ (idx : Cell) (t : Nat) : dataCell idx (t + 1) = incIdx (dataCell idx t) :=
  Function.iterate_succ_apply' incIdx t idx

theorem incIdx_val (i : Cell) : (incIdx i).val = (i.val + 1) % 256 := by
  rw [incIdx_eq, Fin.val_add]
  rfl

theorem dataCell_val (idx : Cell) (t : Nat) : (dataCell idx t).val = (idx.val + t) % 256 := by
  induction t with
  | zero => exact (Nat.mod_eq_of_lt idx.isLt).symm
  | succ t ih =>
      rw [dataCell_succ, incIdx_val, ih]
      omega

theorem dataCell_inj {idx : Cell} {s t : Nat} (hs : s < 256) (ht : t < 256)
    : dataCell idx s = dataCell idx t ↔ s = t := by
  refine ⟨fun same => ?_, fun same => same ▸ rfl⟩
  have values := congrArg Fin.val same
  rw [dataCell_val, dataCell_val] at values
  have := idx.isLt
  omega

theorem fourFree_iff {bucket : Bucket} {idx : Cell}
    : fourFree bucket idx = true ↔ ∀ t < 4, bucket (dataCell idx t) = false := by
  constructor
  · intro free t ht
    simp only [fourFree, Bool.and_eq_true, Bool.not_eq_true'] at free
    obtain ⟨⟨⟨free0, free1⟩, free2⟩, free3⟩ := free
    interval_cases t <;> assumption
  · intro free
    simp only [fourFree, Bool.and_eq_true, Bool.not_eq_true']
    exact ⟨⟨⟨free 0 (by omega), free 1 (by omega)⟩, free 2 (by omega)⟩, free 3 (by omega)⟩

/-- A drawn data index has four free cells. -/
theorem getDataIdx_free {bucket : Bucket} {frd rest : List UInt8} {idx : Cell}
    (drawn : getDataIdx bucket frd = .ok (idx, rest))
    : fourFree bucket idx = true := by
  obtain ⟨_, _, _, _, _, free, rfl⟩ := getDataIdx_ok_iff.mp drawn
  exact free

-----------------------------------------------------------------------------------------
-- Storing one chunk
-----------------------------------------------------------------------------------------

/-- Bytes `0 .. n-1` of `data` under `key`, from `idx` on. -/
def putRun (data : Mem) (key : UInt8) (idx : Cell) (cells : Cells) : Nat → Cells
  | 0 => cells
  | n + 1 => (putRun data key idx cells n).putByte (dataCell idx n) (data n ^^^ key)

/-- The unrolled stores of `_put_data` are at most four of that run. -/
theorem putData_eq_putRun {len : Nat} (positive : 0 < len) (data : Mem) (start idx : Cell)
    (keys : Keys) (cells : Cells)
    : putData data len start idx keys cells
      = putRun data (dataKey keys start) idx cells (min 4 len) := by
  by_cases one : len = 1
  · subst one
    rfl
  by_cases two : len = 2
  · subst two
    rfl
  by_cases three : len = 3
  · subst three
    rfl
  have four : min 4 len = 4 := by omega
  rw [four]
  simp only [putData, one, two, three, if_false]
  rfl

theorem putRun_bucket (data : Mem) (key : UInt8) (idx : Cell) (cells : Cells) (n : Nat)
    (x : Cell)
    : (putRun data key idx cells n).bucket x = true
      ↔ cells.bucket x = true ∨ ∃ t < n, x = dataCell idx t := by
  induction n with
  | zero => simp [putRun]
  | succ n ih =>
      simp only [putRun, Cells.putByte, Cells.mark, Cells.put, Function.update_apply]
      split
      · rename_i same
        simpa using Or.inr ⟨n, by omega, same⟩
      · rename_i differs
        rw [ih]
        refine or_congr_right ⟨?_, ?_⟩
        · rintro ⟨t, ht, same⟩
          exact ⟨t, by omega, same⟩
        · rintro ⟨t, ht, same⟩
          have : t ≠ n := fun eq => differs (eq ▸ same)
          exact ⟨t, by omega, same⟩

theorem putRun_buffer_of_ne {data : Mem} {key : UInt8} {idx : Cell} {cells : Cells} {n : Nat}
    {x : Cell} (away : ∀ t < n, x ≠ dataCell idx t)
    : (putRun data key idx cells n).buffer x = cells.buffer x := by
  induction n with
  | zero => rfl
  | succ n ih =>
      simp only [putRun, Cells.putByte, Cells.mark, Cells.put]
      rw [Function.update_of_ne (away n (by omega))]
      exact ih (fun t ht => away t (by omega))

theorem putRun_buffer_dataCell {data : Mem} {key : UInt8} {idx : Cell} {cells : Cells}
    {n t : Nat} (small : n ≤ 256) (ht : t < n)
    : (putRun data key idx cells n).buffer (dataCell idx t) = data t ^^^ key := by
  induction n with
  | zero => omega
  | succ n ih =>
      simp only [putRun, Cells.putByte, Cells.mark, Cells.put, Function.update_apply]
      by_cases last : t = n
      · simp [last]
      · rw [if_neg (fun same => last ((dataCell_inj (by omega) (by omega)).mp same))]
        exact ih (by omega) (by omega)

-----------------------------------------------------------------------------------------
-- One pass of the loop
-----------------------------------------------------------------------------------------

/-- The arrays after pass `i` with position `idx`. -/
def chunkCells (plain : Mem) (plen : Nat) (keys : Keys) (i : Nat) (start idx : Cell)
    (cells : Cells)
    : Cells :=
  putData (fun t => plain (4 * i + t)) (plen - 4 * i) start idx keys
    (cells.put start (UInt8.ofFin idx ^^^ indexKey keys start))

section

variable {plain : Mem} {plen : Nat} {keys : Keys} {i : Nat} {start idx : Cell} {cells : Cells}

theorem putChunk_ok_iff {cells' : Cells} {frd rest : List UInt8}
    : putChunk plain plen keys i start cells frd = .ok (cells', rest)
      ↔ ∃ idx,
          getDataIdx cells.bucket frd = .ok (idx, rest)
          ∧ cells' = chunkCells plain plen keys i start idx cells := by
  unfold putChunk
  rw [Draw.bind_ok_iff]
  constructor
  · rintro ⟨idx, middle, drawn, last⟩
    obtain ⟨rfl, rfl⟩ := Draw.pure_ok_iff.mp last
    exact ⟨idx, Draw.failAs_ok_iff.mp drawn, rfl⟩
  · rintro ⟨idx, drawn, rfl⟩
    exact ⟨idx, rest, Draw.failAs_ok_iff.mpr drawn, rfl⟩

theorem chunkCells_bucket (more : 4 * i < plen) (x : Cell)
    : (chunkCells plain plen keys i start idx cells).bucket x = true
      ↔ cells.bucket x = true ∨ ∃ t < min 4 (plen - 4 * i), x = dataCell idx t := by
  rw [chunkCells, putData_eq_putRun (by omega), putRun_bucket]
  rfl

theorem chunkCells_dataCell (more : 4 * i < plen) {t : Nat} (ht : t < min 4 (plen - 4 * i))
    : (chunkCells plain plen keys i start idx cells).buffer (dataCell idx t)
      = plain (4 * i + t) ^^^ dataKey keys start := by
  rw [chunkCells, putData_eq_putRun (by omega), putRun_buffer_dataCell (by omega) ht]

/-- Apart from its data cells a pass writes its index cell only. -/
theorem chunkCells_of_ne (more : 4 * i < plen) {x : Cell}
    (away : ∀ t < min 4 (plen - 4 * i), x ≠ dataCell idx t)
    : (chunkCells plain plen keys i start idx cells).buffer x
      = if x = start then UInt8.ofFin idx ^^^ indexKey keys start else cells.buffer x := by
  rw [chunkCells, putData_eq_putRun (by omega), putRun_buffer_of_ne away]
  simp only [Cells.put, Function.update_apply]

end

/-- Chunk `i` of the plaintext can be read back through index cell `start`. -/
def ChunkAt (buffer : Buffer) (plain : Mem) (plen : Nat) (keys : Keys) (i : Nat)
    (start idx : Cell)
    : Prop :=
  buffer start = UInt8.ofFin idx ^^^ indexKey keys start
  ∧ ∀ t < min 4 (plen - 4 * i),
    buffer (dataCell idx t) = plain (4 * i + t) ^^^ dataKey keys start

/-- What a pass does to the arrays, given the position it drew. -/
structure ChunkPut (plain : Mem) (plen : Nat) (keys : Keys) (i : Nat) (start idx : Cell)
    (before after : Cells)
    : Prop where
  free : fourFree before.bucket idx = true
  stored : ChunkAt after.buffer plain plen keys i start idx
  used
    : ∀ x,
        after.bucket x = true
        ↔ before.bucket x = true ∨ ∃ t < min 4 (plen - 4 * i), x = dataCell idx t
  kept : ∀ x, before.bucket x = true → x ≠ start → after.buffer x = before.buffer x

/-- A pass that succeeds has drawn a position with four free cells and stored its chunk. -/
theorem putChunk_spec {plain : Mem} {plen : Nat} {keys : Keys} {i : Nat} {start : Cell}
    {cells cells' : Cells} {frd rest : List UInt8}
    (reserved : cells.bucket start = true) (more : 4 * i < plen)
    (ran : putChunk plain plen keys i start cells frd = .ok (cells', rest))
    : ∃ idx,
        getDataIdx cells.bucket frd = .ok (idx, rest)
        ∧ ChunkPut plain plen keys i start idx cells cells' := by
  obtain ⟨idx, drawn, rfl⟩ := putChunk_ok_iff.mp ran
  have free := getDataIdx_free drawn
  have fresh := fourFree_iff.mp free
  -- the position is free, so it misses every used cell
  have misses {x : Cell} (used : cells.bucket x = true)
      : ∀ t < min 4 (plen - 4 * i), x ≠ dataCell idx t := by
    rintro t ht rfl
    rw [fresh t (by omega)] at used
    cases used
  refine ⟨idx, drawn, free, ⟨?_, ?_⟩, chunkCells_bucket more, ?_⟩
  · rw [chunkCells_of_ne more (misses reserved), if_pos rfl]
  · intro t ht
    exact chunkCells_dataCell more ht
  · intro x used other
    rw [chunkCells_of_ne more (misses used), if_neg other]

-----------------------------------------------------------------------------------------
-- The whole loop
-----------------------------------------------------------------------------------------

/-- After the loop every chunk can be read back, and the cells used before hold what they
held, index cells aside.
-/
theorem putChunks_spec {plain : Mem} {plen : Nat} {keys : Keys} (arr1 : List Cell) (i : Nat)
    (cells cells' : Cells) (frd rest : List UInt8)
    (reserved : ∀ start ∈ arr1, cells.bucket start = true) (distinct : arr1.Nodup)
    (more : ∀ j < arr1.length, 4 * (i + j) < plen)
    (ran : putChunks plain plen keys i arr1 cells frd = .ok (cells', rest))
    : (∀ x, cells.bucket x = true → x ∉ arr1 → cells'.buffer x = cells.buffer x)
      ∧ ∀ j (h : j < arr1.length),
        ∃ idx, ChunkAt cells'.buffer plain plen keys (i + j) arr1[j] idx := by
  induction arr1 generalizing i cells frd with
  | nil =>
      obtain ⟨rfl, rfl⟩ := Draw.pure_ok_iff.mp ran
      exact ⟨fun _ _ _ => rfl, fun j h => absurd h (Nat.not_lt_zero j)⟩
  | cons start arr1 ih =>
      obtain ⟨middle, frd', first, later⟩ := Draw.bind_ok_iff.mp ran
      obtain ⟨notLater, distinct'⟩ := List.nodup_cons.mp distinct
      obtain ⟨idx, _, put⟩ :=
        putChunk_spec (reserved start (by simp)) (more 0 (by simp)) first
      have grown : ∀ x, cells.bucket x = true → middle.bucket x = true :=
        fun x used => (put.used x).mpr (Or.inl used)
      obtain ⟨kept, chunks⟩ := ih (i + 1) middle frd'
        (fun next member => grown next (reserved next (by simp [member]))) distinct'
        (fun j h => by
          have := more (j + 1) (by simpa using h)
          omega)
        later
      refine ⟨?_, ?_⟩
      · intro x used other
        simp only [List.mem_cons, not_or] at other
        rw [kept x (grown x used) other.2, put.kept x used other.1]
      · intro j h
        cases j with
        | zero =>
            refine ⟨idx, ?_, ?_⟩
            · change cells'.buffer start = _
              rw [kept start (grown start (reserved start (by simp))) notLater]
              exact put.stored.1
            · intro t ht
              have marked : middle.bucket (dataCell idx t) = true :=
                (put.used _).mpr (Or.inr ⟨t, ht, rfl⟩)
              -- pending index cells were used before, the data cells were free
              have notIndex : dataCell idx t ∉ arr1 := by
                intro member
                have used := reserved _ (List.mem_cons_of_mem start member)
                rw [fourFree_iff.mp put.free t (by omega)] at used
                cases used
              rw [kept _ marked notIndex]
              exact put.stored.2 t ht
        | succ j =>
            obtain ⟨idx', chunk⟩ := chunks j (by simpa using h)
            refine ⟨idx', ?_⟩
            rw [show i + (j + 1) = i + 1 + j by omega]
            exact chunk

end Libccll.Klciph
