import Mathlib.Algebra.Group.Action.Defs
import Libccll.Cipher.RoundTrip
import Libccll.Foundation.Orbit

/-! No placement made so far can make a message impossible to encode.
The used cells form few segments, so a run of four free cells is left before every chunk,
up to the thirtieth one of a message of `maxPlainBytes`.
-/

namespace Libccll.Klciph

open Foundation

-----------------------------------------------------------------------------------------
-- States at the start of a pass
-----------------------------------------------------------------------------------------

/-- The run up to the start of pass `j` of the data loop. -/
def encUntil (plain : Mem) (plen : Nat) (now : Tm) (j : Nat) : Frd Exit (Frame × Cells) := do
  let frame ← openFrame plen now
  let cells ← putChunks plain plen frame.keys 0 (frame.arr1.take j) frame.cells
  pure (frame, cells)

/-- The used cells are those of the frame and four at each of the `positions`. -/
def Occupied (begidx : Cell) (n : Nat) (positions : List Cell) (bucket : Bucket) : Prop :=
  ∀ x,
    bucket x = true
    ↔ x = begIdx
      ∨ (∃ k < 11 + n, x = walk begidx k)
      ∨ ∃ idx ∈ positions, ∃ t < 4, x = dataCell idx t

theorem Laid.occupied {chidx : Fin ch14sSz} {begidx : Cell} {plen : Nat} {now : Tm}
    {frame : Frame} (laid : Laid chidx begidx plen now frame)
    : Occupied begidx (idxAmt plen) [] frame.cells.bucket := by
  intro x
  simp [laid.taken x]

/-- A full chunk adds its position. -/
theorem Occupied.put {begidx start idx : Cell} {n plen i : Nat} {positions : List Cell}
    {plain : Mem} {keys : Keys} {before after : Cells}
    (occupied : Occupied begidx n positions before.bucket)
    (put : ChunkPut plain plen keys i start idx before after) (full : 4 * (i + 1) ≤ plen)
    : Occupied begidx n (idx :: positions) after.bucket := by
  have four : min 4 (plen - 4 * i) = 4 := by omega
  intro x
  rw [put.used x, occupied x, four]
  constructor
  · intro used
    rcases used with (begin_ | framed | ⟨idx', member, placed⟩) | placed
    · exact Or.inl begin_
    · exact Or.inr (Or.inl framed)
    · exact Or.inr (Or.inr ⟨idx', List.mem_cons_of_mem idx member, placed⟩)
    · exact Or.inr (Or.inr ⟨idx, List.mem_cons_self, placed⟩)
  · intro used
    rcases used with begin_ | framed | ⟨idx', member, placed⟩
    · exact Or.inl (Or.inl begin_)
    · exact Or.inl (Or.inr (Or.inl framed))
    · rcases List.mem_cons.mp member with same | member
      · exact Or.inr (same ▸ placed)
      · exact Or.inl (Or.inr (Or.inr ⟨idx', member, placed⟩))

/-- Passes over full chunks add one position each. -/
theorem putChunks_occupied {plain : Mem} {plen : Nat} {keys : Keys} {begidx : Cell} {n : Nat}
    (arr1 : List Cell) (i : Nat) (positions : List Cell) (cells cells' : Cells)
    (frd rest : List UInt8) (occupied : Occupied begidx n positions cells.bucket)
    (reserved : ∀ start ∈ arr1, cells.bucket start = true)
    (full : 4 * (i + arr1.length) ≤ plen)
    (ran : putChunks plain plen keys i arr1 cells frd = .ok (cells', rest))
    : (∀ x, cells.bucket x = true → cells'.bucket x = true)
      ∧ ∃ positions',
        positions'.length = positions.length + arr1.length
        ∧ Occupied begidx n positions' cells'.bucket := by
  induction arr1 generalizing i positions cells frd with
  | nil =>
      obtain ⟨rfl, rfl⟩ := Draw.pure_ok_iff.mp ran
      exact ⟨fun _ used => used, positions, rfl, occupied⟩
  | cons start arr1 ih =>
      simp only [List.length_cons] at full
      obtain ⟨middle, frd', first, later⟩ := Draw.bind_ok_iff.mp ran
      obtain ⟨idx, _, put⟩ := putChunk_spec (reserved start List.mem_cons_self) (by omega) first
      have grown : ∀ x, cells.bucket x = true → middle.bucket x = true :=
        fun x used => (put.used x).mpr (Or.inl used)
      obtain ⟨grown', positions', count, occupied'⟩ := ih (i + 1) (idx :: positions) middle frd'
        (occupied.put put (by omega))
        (fun next member => grown next (reserved next (List.mem_cons_of_mem start member)))
        (by omega) later
      refine ⟨fun x used => grown' x (grown x used), positions', ?_, occupied'⟩
      simp only [count, List.length_cons]
      omega

-----------------------------------------------------------------------------------------
-- Counting the cells
-----------------------------------------------------------------------------------------

theorem incIdx_injective : Function.Injective incIdx := by
  intro i j same
  have values := congrArg Fin.val same
  rw [incIdx_val, incIdx_val] at values
  have := i.isLt
  have := j.isLt
  exact Fin.ext (by omega)

/-- The used cells as a finite set. -/
def usedCells (bucket : Bucket) : Finset Cell :=
  Finset.univ.filter (fun x => bucket x = true)

theorem mem_usedCells {bucket : Bucket} {x : Cell}
    : x ∈ usedCells bucket ↔ bucket x = true := by
  simp [usedCells]

/-- Segments of used cells start at `begIdx`, at the begin index or at a data position. -/
theorem Occupied.starts {begidx : Cell} {n : Nat} {positions : List Cell} {bucket : Bucket}
    (occupied : Occupied begidx n positions bucket)
    : Orbit.Starts incIdx (usedCells bucket) (begIdx :: begidx :: positions).toFinset := by
  intro x free used
  rw [mem_usedCells] at free used
  have notUsed {y : Cell} (same : incIdx y = incIdx x) : bucket y ≠ true :=
    incIdx_injective same ▸ free
  rw [List.mem_toFinset]
  rcases (occupied _).mp used with begin_ | ⟨k, hk, framed⟩ | ⟨idx, member, t, ht, placed⟩
  · exact begin_ ▸ List.mem_cons_self
  · cases k with
    | zero => simp [framed]
    | succ k =>
        -- the cell before is the previous one of the walk, or `begIdx`
        exfalso
        rw [walk_succ] at framed
        have previous : bucket (walk begidx k) = true :=
          (occupied _).mpr (Or.inr (Or.inl ⟨k, by omega, rfl⟩))
        by_cases before : walk begidx k = begIdx - 1
        · have skipped : incIdx begIdx = nextCell (begIdx - 1) := by decide
          rw [before, ← skipped] at framed
          exact notUsed framed.symm ((occupied _).mpr (Or.inl rfl))
        · have step : incIdx (walk begidx k) = nextCell (walk begidx k) := by
            unfold incIdx nextCell
            simp [before]
          exact notUsed (step.trans framed.symm) previous
  · cases t with
    | zero =>
        rw [placed]
        exact List.mem_cons_of_mem _ (List.mem_cons_of_mem _ member)
    | succ t =>
        exfalso
        rw [dataCell_succ] at placed
        exact notUsed placed.symm
          ((occupied _).mpr (Or.inr (Or.inr ⟨idx, member, t, by omega, rfl⟩)))

theorem Occupied.card_le {begidx : Cell} {n : Nat} {positions : List Cell} {bucket : Bucket}
    (occupied : Occupied begidx n positions bucket)
    : (usedCells bucket).card ≤ 12 + n + 4 * positions.length := by
  have listed : usedCells bucket
      ⊆ (begIdx :: ((List.range (11 + n)).map (walk begidx)
          ++ positions.flatMap (fun idx => (List.range 4).map (dataCell idx)))).toFinset := by
    intro x member
    rw [mem_usedCells] at member
    rw [List.mem_toFinset]
    rcases (occupied x).mp member with begin_ | ⟨k, hk, framed⟩ | ⟨idx, placed, t, ht, at_⟩
    · exact begin_ ▸ List.mem_cons_self
    · apply List.mem_cons_of_mem
      apply List.mem_append_left
      exact List.mem_map.mpr ⟨k, List.mem_range.mpr hk, framed.symm⟩
    · apply List.mem_cons_of_mem
      apply List.mem_append_right
      exact List.mem_flatMap.mpr
        ⟨idx, placed, List.mem_map.mpr ⟨t, List.mem_range.mpr ht, at_.symm⟩⟩
  have few := (Finset.card_le_card listed).trans (List.toFinset_card_le _)
  simp only [List.length_cons, List.length_append, List.length_map, List.length_range,
    List.length_flatMap, List.map_const', List.sum_replicate, smul_eq_mul] at few
  omega

/-- Before each chunk of a message that is not too long, four free cells in a row are left.
With 30 index cells and 29 chunks placed, 158 cells at most are used in 31 segments.
-/
theorem Occupied.exists_four_free {begidx : Cell} {n : Nat} {positions : List Cell}
    {bucket : Bucket} (occupied : Occupied begidx n positions bucket) (few : n ≤ 30)
    (another : positions.length < n)
    : ∃ idx, ∀ t < 4, bucket (dataCell idx t) = false := by
  have segments := List.toFinset_card_le (begIdx :: begidx :: positions)
  simp only [List.length_cons] at segments
  have cells := occupied.card_le
  obtain ⟨idx, free⟩ := Orbit.exists_free_run incIdx_injective occupied.starts 3 (by
    rw [Fintype.card_fin]
    omega)
  refine ⟨idx, fun t ht => ?_⟩
  have clear := free t (by omega)
  rw [mem_usedCells, Bool.not_eq_true] at clear
  exact clear

-----------------------------------------------------------------------------------------
-- The encoder uses its random bytes from the front
-----------------------------------------------------------------------------------------

theorem getDataIdx_causal (bucket : Bucket) : Draw.Causal (getDataIdx bucket) :=
  (Draw.Causal.retry () 220 _).bind (fun _ => Draw.Causal.pure _)

theorem openFrame_causal (plen : Nat) (now : Tm) : Draw.Causal (openFrame plen now) :=
  Draw.Causal.bind (((Draw.Causal.next ()).bind (fun _ => Draw.Causal.pure _)).failAs _)
    (fun _ => Draw.Causal.bind
      (((Draw.Causal.retry () 200 _).bind (fun _ => Draw.Causal.pure _)).failAs _)
      (fun _ => Draw.Causal.bind
        (((Draw.Causal.block () 256).bind (fun _ => Draw.Causal.pure _)).failAs _)
        (fun _ => Draw.Causal.ofOption _ _)))

theorem putChunk_causal (plain : Mem) (plen : Nat) (keys : Keys) (i : Nat) (start : Cell)
    (cells : Cells)
    : Draw.Causal (putChunk plain plen keys i start cells) :=
  Draw.Causal.bind ((getDataIdx_causal cells.bucket).failAs _) (fun _ => Draw.Causal.pure _)

theorem putChunks_causal (plain : Mem) (plen : Nat) (keys : Keys) (arr1 : List Cell) (i : Nat)
    (cells : Cells)
    : Draw.Causal (putChunks plain plen keys i arr1 cells) := by
  induction arr1 generalizing i cells with
  | nil => exact Draw.Causal.pure cells
  | cons start arr1 ih =>
      exact Draw.Causal.bind (putChunk_causal plain plen keys i start cells)
        (fun next => ih (i + 1) next)

theorem encUntil_causal (plain : Mem) (plen : Nat) (now : Tm) (j : Nat)
    : Draw.Causal (encUntil plain plen now j) :=
  Draw.Causal.bind (openFrame_causal plen now)
    (fun frame => Draw.Causal.bind (putChunks_causal plain plen frame.keys _ 0 frame.cells)
      (fun _ => Draw.Causal.pure _))

-----------------------------------------------------------------------------------------
-- Completing a message
-----------------------------------------------------------------------------------------

/-- The passes over a concatenated list run one part after the other. -/
theorem putChunks_append {plain : Mem} {plen : Nat} {keys : Keys} (first second : List Cell)
    (i : Nat) (cells middle final : Cells) (frd frd' rest : List UInt8)
    (ran : putChunks plain plen keys i first cells frd = .ok (middle, frd'))
    (later
      : putChunks plain plen keys (i + first.length) second middle frd' = .ok (final, rest))
    : putChunks plain plen keys i (first ++ second) cells frd = .ok (final, rest) := by
  induction first generalizing i cells frd with
  | nil =>
      obtain ⟨rfl, rfl⟩ := Draw.pure_ok_iff.mp ran
      exact later
  | cons start first ih =>
      obtain ⟨next, frd1, one, more⟩ := Draw.bind_ok_iff.mp ran
      have shifted : i + 1 + first.length = i + (first.length + 1) := by omega
      exact Draw.bind_ok_iff.mpr
        ⟨next, frd1, one, ih (i + 1) next frd1 more (by rwa [shifted])⟩

/-- A free position can be drawn with a single byte. -/
theorem exists_putChunk (plain : Mem) (plen : Nat) (keys : Keys) (i : Nat) (start : Cell)
    {cells : Cells} {idx : Cell} (free : ∀ t < 4, cells.bucket (dataCell idx t) = false)
    : ∃ cells',
        ∀ rest,
          putChunk plain plen keys i start cells (UInt8.ofFin idx :: rest)
          = .ok (cells', rest) := by
  refine ⟨_, fun rest => Draw.bind_ok_iff.mpr ⟨idx, rest, ?_, rfl⟩⟩
  have four : fourFree cells.bucket (UInt8.ofFin idx).toFin = true := fourFree_iff.mpr free
  exact Draw.failAs_ok_iff.mpr
    (Draw.bind_ok_iff.mpr ⟨UInt8.ofFin idx, rest, Draw.retry_of_accepted four, rfl⟩)

/-- The remaining passes succeed on some bytes, one for each. -/
theorem exists_putChunks (plain : Mem) {plen : Nat} (keys : Keys) {begidx : Cell}
    (short : plen ≤ maxPlainBytes) (arr1 : List Cell) (i : Nat) (positions : List Cell)
    (cells : Cells) (occupied : Occupied begidx (idxAmt plen) positions cells.bucket)
    (reserved : ∀ start ∈ arr1, cells.bucket start = true)
    (placed : positions.length = i) (left : i + arr1.length = idxAmt plen)
    : ∃ more cells', putChunks plain plen keys i arr1 cells more = .ok (cells', []) := by
  induction arr1 generalizing i positions cells with
  | nil => exact ⟨[], cells, rfl⟩
  | cons start arr1 ih =>
      simp only [List.length_cons] at left
      have amount : 4 * idxAmt plen < plen + 4 := by
        simp only [idxAmt]
        omega
      obtain ⟨idx, free⟩ := occupied.exists_four_free (idxAmt_le short) (by omega)
      obtain ⟨next, one⟩ := exists_putChunk plain plen keys i start free
      cases arr1 with
      | nil => exact ⟨[UInt8.ofFin idx], next, Draw.bind_ok_iff.mpr ⟨next, [], one [], rfl⟩⟩
      | cons start' arr1 =>
          simp only [List.length_cons] at left ih
          obtain ⟨idx', _, put⟩ :=
            putChunk_spec (reserved start List.mem_cons_self) (by omega) (one [])
          obtain ⟨more, cells', later⟩ := ih (i + 1) (idx' :: positions) next
            (occupied.put put (by omega))
            (fun start'' member =>
              (put.used _).mpr (Or.inl (reserved start'' (List.mem_cons_of_mem _ member))))
            (by simp [placed]) (by omega)
          exact ⟨UInt8.ofFin idx :: more, cells',
            Draw.bind_ok_iff.mpr ⟨next, more, one more, later⟩⟩

/-- The start of a pass: a frame around its begin index, and `j` full chunks. -/
theorem encUntil_occupied {plain : Mem} {plen j : Nat} {now : Tm} {frd rest : List UInt8}
    {frame : Frame} {cells : Cells} (short : plen ≤ maxPlainBytes) (another : j < idxAmt plen)
    (ran : encUntil plain plen now j frd = .ok ((frame, cells), rest))
    : ∃ begidx positions,
        Occupied begidx (idxAmt plen) positions cells.bucket
        ∧ positions.length = j
        ∧ frame.arr1.length = idxAmt plen
        ∧ ∀ start ∈ frame.arr1, cells.bucket start = true := by
  obtain ⟨frame', frd1, opened, ran⟩ := Draw.bind_ok_iff.mp ran
  obtain ⟨cells', frd2, placed, done⟩ := Draw.bind_ok_iff.mp ran
  obtain ⟨same, rfl⟩ := Draw.pure_ok_iff.mp done
  cases same
  obtain ⟨chidx, begidx, other, laid⟩ := openFrame_laid short opened
  have length : (frame.arr1.take j).length = j := by
    rw [List.length_take, laid.length_arr1]
    omega
  obtain ⟨grown, positions, count, occupied⟩ :=
    putChunks_occupied (frame.arr1.take j) 0 [] frame.cells cells frd1 frd2 laid.occupied
      (fun start member => laid.reserved start (List.mem_of_mem_take member))
      (by
        simp only [idxAmt] at another
        omega)
      placed
  refine ⟨begidx, positions, occupied, ?_, laid.length_arr1,
    fun start member => grown start (laid.reserved start member)⟩
  rw [count, length]
  exact Nat.zero_add j

/-- Capacity: no search for a frame cell fails, four cells in a row are free before every
chunk, and from there some random bytes complete the message.
-/
theorem clKlciphEnc_capacity (plain out : Mem) (plen : Nat) (clen : Int) (now : Tm)
    (positive : 1 ≤ plen) (short : plen ≤ 120)
    : (∀ chidx begidx buffer,
        begidx ≠ 97 → layFrame chidx begidx buffer plen now ≠ none)
      ∧ ∀ (random : List UInt8) (j : Nat) (frame : Frame) (cells : Cells)
          (rest : List UInt8),
        j < idxAmt plen
        → encUntil plain plen now j random = .ok ((frame, cells), rest)
        → (∃ idx : UInt8, ∀ t < 4, cells.bucket (Fin.ofNat 256 (idx.toNat + t)) = false)
          ∧ ∃ used more,
            random = used ++ rest
            ∧ (clKlciphEnc (some (used ++ more)) now (some plain) plen (some out)
                (some clen)).ret
              = .succ := by
  refine ⟨?_, ?_⟩
  · intro chidx begidx buffer other failed
    obtain ⟨frame, laid, _⟩ := layFrame_laid other short chidx buffer now
    rw [failed] at laid
    cases laid
  · intro random j frame cells rest another ran
    obtain ⟨begidx, positions, occupied, placed, length, reserved⟩ :=
      encUntil_occupied short another ran
    refine ⟨?_, ?_⟩
    · obtain ⟨idx, free⟩ := occupied.exists_four_free (idxAmt_le short) (by omega)
      refine ⟨UInt8.ofFin idx, fun t ht => ?_⟩
      rw [← free t ht]
      congr 1
      exact Fin.ext (dataCell_val idx t).symm
    · obtain ⟨more, final, completed⟩ :=
        exists_putChunks plain frame.keys short (frame.arr1.drop j) j positions cells occupied
          (fun start member => reserved start (List.mem_of_mem_drop member)) placed
          (by
            rw [List.length_drop, length]
            omega)
      obtain ⟨used, split, again⟩ := encUntil_causal plain plen now j random _ rest ran
      refine ⟨used, more, split, ?_⟩
      obtain ⟨frame', frd1, opened, later⟩ := Draw.bind_ok_iff.mp (again more)
      obtain ⟨cells', frd2, first, done⟩ := Draw.bind_ok_iff.mp later
      obtain ⟨same, rfl⟩ := Draw.pure_ok_iff.mp done
      cases same
      have taken : (frame.arr1.take j).length = j := by
        rw [List.length_take, length]
        omega
      have all := putChunks_append (frame.arr1.take j) (frame.arr1.drop j) 0 frame.cells cells
        final frd1 frd2 [] first (by rwa [taken, Nat.zero_add])
      rw [List.take_append_drop] at all
      have body : encBody plain plen now (used ++ frd2) = .ok (final.buffer, []) :=
        Draw.bind_ok_iff.mpr ⟨frame, frd1, opened, Draw.bind_ok_iff.mpr ⟨final, [], all, rfl⟩⟩
      have inRange : ¬((plen : Int) < 1 ∨ (plen : Int) > maxPlainBytes) := by
        simp only [maxPlainBytes]
        omega
      simp only [clKlciphEnc, if_neg inRange, Int.toNat_natCast, body]

/-- Random bytes: the characteristic, the begin index, what the buffer is filled with, and the
places of three chunks.
-/
def drawnBytes : List UInt8 :=
  [3, 5] ++ (List.range 256).map (fun i => .ofNat (7 * i + 1)) ++ [128, 200, 44]

def noon : Tm := ⟨9, 19, 12, 15, by decide, by decide, by decide, by decide⟩

/-- With two of the three chunks of a message in place, some further bytes complete it. -/
theorem clKlciphEnc_capacity_twoChunks
    : ∃ rest used more,
        drawnBytes = used ++ rest
        ∧ (clKlciphEnc (some (used ++ more)) noon (some (fun i => .ofNat i)) 12
            (some (fun _ => 0)) (some 0)).ret
          = .succ := by
  have succeeds : (encUntil (fun i => .ofNat i) 12 noon 2 drawnBytes).toBool = true := by
    decide +kernel
  cases ran : encUntil (fun i => .ofNat i) 12 noon 2 drawnBytes with
  | error exit =>
      rw [ran] at succeeds
      cases succeeds
  | ok result =>
      obtain ⟨⟨frame, cells⟩, rest⟩ := result
      have capacity :=
        (clKlciphEnc_capacity (fun i => .ofNat i) (fun _ => 0) 12 0 noon (by decide)
          (by decide)).2 _ 2 frame cells rest (by decide) ran
      exact ⟨rest, capacity.2⟩

end Libccll.Klciph
