import Mathlib.Data.List.OfFn
import Mathlib.Tactic.IntervalCases
import Libccll.Cipher.Exits

/-! Which accepted buffers the encoder can have written.
An encoded message is written cell by cell into its random fill. A buffer that is its own
fill is written back unchanged, provided its clock reading exists and its positions are
places where the data loop could have put a chunk.
-/

namespace Libccll.Klciph

open Foundation

-----------------------------------------------------------------------------------------
-- Reading positions and time off a buffer
-----------------------------------------------------------------------------------------

/-- The position that index cell `i` lists. -/
def positionOf (buffer : Buffer) (i : Nat) : Cell :=
  let start := walk (begidxOf buffer) (7 + i)
  (buffer start ^^^ indexKey (keysOf buffer) start).toFin

/-- A buffer with `n` index cells as the encoder lays it out: a begin index off its own
cell, a minute and a second that a clock shows, and positions apart from the header and
from each other.
-/
structure Genuine (buffer : Buffer) (n : Nat) : Prop where
  begidx : begidxOf buffer ≠ begIdx
  minute : (buffer (walk (begidxOf buffer) (7 + n)) ^^^ (keysOf buffer).key1).toNat < 60
  second : (buffer (walk (begidxOf buffer) (7 + n + 3)) ^^^ (keysOf buffer).key2).toNat ≤ 60
  header
    : ∀ i < n, Disjoint (fourCells (positionOf buffer i)) (headerCells (begidxOf buffer) n)
  apart
    : ∀ i < n,
        ∀ j < n,
          i ≠ j → Disjoint (fourCells (positionOf buffer i)) (fourCells (positionOf buffer j))

/-- An index cell under its key names its position. -/
theorem positionOf_index {buffer : Buffer} (i : Nat)
    : buffer (walk (begidxOf buffer) (7 + i))
      = UInt8.ofFin (positionOf buffer i)
        ^^^ indexKey (keysOf buffer) (walk (begidxOf buffer) (7 + i)) := by
  change _ = (buffer _ ^^^ _) ^^^ _
  rw [UInt8.xor_assoc, UInt8.xor_self, UInt8.xor_zero]

theorem positionOf_eq {buffer : Buffer} {i : Nat} {idx : Cell}
    (index
      : buffer (walk (begidxOf buffer) (7 + i))
        = UInt8.ofFin idx ^^^ indexKey (keysOf buffer) (walk (begidxOf buffer) (7 + i)))
    : positionOf buffer i = idx := by
  rw [positionOf, index, UInt8.xor_assoc, UInt8.xor_self, UInt8.xor_zero]
  rfl

-----------------------------------------------------------------------------------------
-- What the encoder writes is genuine
-----------------------------------------------------------------------------------------

/-- The passes leave their positions in the index cells, apart from the used cells and from
each other. By induction on the index cells.
-/
theorem putChunks_positions {plain : Mem} {plen : Nat} {keys : Keys} (arr1 : List Cell)
    (i : Nat) (used : Set Cell) (cells cells' : Cells) (frd rest : List UInt8)
    (marks : Marks cells.bucket used) (reserved : ∀ start ∈ arr1, start ∈ used)
    (distinct : arr1.Nodup) (left : i + arr1.length = idxAmt plen)
    (ran : putChunks plain plen keys i arr1 cells frd = .ok (cells', rest))
    : ∃ positions : List Cell,
        positions.length = arr1.length
        ∧ (∀ j (h : j < arr1.length) (h' : j < positions.length),
          cells'.buffer arr1[j] = UInt8.ofFin positions[j] ^^^ indexKey keys arr1[j])
        ∧ (∀ idx ∈ positions, Disjoint (fourCells idx) used)
        ∧ positions.Pairwise fun idx idx' => Disjoint (fourCells idx) (fourCells idx') := by
  induction arr1 generalizing i used cells frd with
  | nil => exact ⟨[], rfl, by simp, by simp, List.Pairwise.nil⟩
  | cons start arr1 ih =>
      simp only [List.length_cons, idxAmt] at left
      obtain ⟨notLater, distinct'⟩ := List.nodup_cons.mp distinct
      have marked {x : Cell} (member : x ∈ start :: arr1) : cells.bucket x = true :=
        (marks x).mpr (reserved x member)
      obtain ⟨middle, frd', one, more⟩ := Draw.bind_ok_iff.mp ran
      obtain ⟨idx, _, put⟩ :=
        putChunk_spec (marked List.mem_cons_self) (show 4 * i < plen by omega) one
      have clear := (marks.fourFree_iff idx).mp put.free
      have grown {x : Cell} (member : x ∈ start :: arr1) : middle.bucket x = true :=
        (put.used x).mpr (Or.inl (marked member))
      have written : cells'.buffer start = UInt8.ofFin idx ^^^ indexKey keys start := by
        obtain ⟨kept, _⟩ := putChunks_spec arr1 (i + 1) middle cells' frd' rest
          (fun next member => grown (List.mem_cons_of_mem _ member)) distinct'
          (fun j h => by omega) more
        rw [kept start (grown List.mem_cons_self) notLater]
        exact put.stored.1
      obtain ⟨positions, length, indices, unused, pairwise⟩ : ∃ positions : List Cell,
          positions.length = arr1.length
          ∧ (∀ j (h : j < arr1.length) (h' : j < positions.length),
            cells'.buffer arr1[j] = UInt8.ofFin positions[j] ^^^ indexKey keys arr1[j])
          ∧ (∀ next ∈ positions, Disjoint (fourCells next) (used ∪ fourCells idx))
          ∧ positions.Pairwise fun idx idx' => Disjoint (fourCells idx) (fourCells idx') := by
        cases arr1 with
        | nil => exact ⟨[], rfl, by simp, by simp, List.Pairwise.nil⟩
        | cons start' arr1 =>
            simp only [List.length_cons] at left
            refine ih (i + 1) _ middle frd' (put.marks marks (by omega))
              (fun next member => Or.inl (reserved next (List.mem_cons_of_mem _ member)))
              distinct' ?_ more
            simp only [List.length_cons, idxAmt]
            omega
      refine ⟨idx :: positions, by simp [length], ?_, ?_, List.pairwise_cons.mpr ⟨?_, pairwise⟩⟩
      · intro j h h'
        cases j with
        | zero => exact written
        | succ j => exact indices j (by simpa using h) (by simpa using h')
      · intro next member
        rcases List.mem_cons.mp member with rfl | later
        · exact clear
        · exact (Set.disjoint_union_right.mp (unused next later)).1
      · intro next later
        exact (Set.disjoint_union_right.mp (unused next later)).2.symm

/-- A byte of a clock field is that field. -/
theorem toNat_ofNat_of_lt {n : Nat} (small : n < 256) : (UInt8.ofNat n).toNat = n := by
  rw [UInt8.toNat_ofNat']
  omega

theorem encBody_genuine {plain : Mem} {plen : Nat} {now : Tm} {frd rest : List UInt8}
    {buffer : Buffer} (short : plen ≤ maxPlainBytes)
    (ran : encBody plain plen now frd = .ok (buffer, rest))
    : Genuine buffer (idxAmt plen) := by
  obtain ⟨frame, frd', opened, ran⟩ := Draw.bind_ok_iff.mp ran
  obtain ⟨cells, frd'', placed, last⟩ := Draw.bind_ok_iff.mp ran
  obtain ⟨rfl, rfl⟩ := Draw.pure_ok_iff.mp last
  obtain ⟨chidx, begidx, other, laid⟩ := openFrame_laid short opened
  have length := laid.length_arr1
  have distinct := laid.distinct other short
  obtain ⟨carries, _⟩ := laid.placed other short placed
  obtain ⟨positions, count, indices, unused, pairwise⟩ :=
    putChunks_positions frame.arr1 0 (headerCells begidx (idxAmt plen)) frame.cells cells frd'
      frd'' laid.taken (fun start member => (laid.taken start).mp (laid.reserved start member))
      distinct (by rw [length, Nat.zero_add]) placed
  have found {i : Nat} (hi : i < idxAmt plen)
      : ∃ h : i < positions.length, positionOf cells.buffer i = positions[i] := by
    have listed : i < frame.arr1.length := by omega
    have entry : frame.arr1[i] = walk begidx (7 + i) := by simp [laid.arr1]
    have index := indices i listed (by omega)
    rw [entry] at index
    refine ⟨by omega, positionOf_eq ?_⟩
    rw [carries.begidxOf, carries.keysOf, index]
  have time (i : Nat) (h : i < 4) := carries.time i h
  constructor
  · rw [carries.begidxOf]
    exact other
  · have minute := time 0 (by omega)
    rw [Nat.add_zero] at minute
    rw [carries.begidxOf, carries.keysOf, minute]
    have small := now.min_lt
    simp only [timeBytes, List.getElem_cons_zero, UInt8.xor_assoc, UInt8.xor_self,
      UInt8.xor_zero, toNat_ofNat_of_lt (show now.tmMin < 256 by omega)]
    exact small
  · rw [carries.begidxOf, carries.keysOf, time 3 (by omega)]
    have small := now.sec_le
    simp only [timeBytes, List.getElem_cons_zero, List.getElem_cons_succ, UInt8.xor_assoc,
      UInt8.xor_self, UInt8.xor_zero, toNat_ofNat_of_lt (show now.tmSec < 256 by omega)]
    exact small
  · intro i hi
    obtain ⟨h, position⟩ := found hi
    rw [position, carries.begidxOf]
    exact unused _ (List.getElem_mem h)
  · intro i hi j hj differ
    obtain ⟨h, position⟩ := found hi
    obtain ⟨h', position'⟩ := found hj
    rw [position, position']
    rcases Nat.lt_or_gt_of_ne differ with before | after
    · exact List.pairwise_iff_getElem.mp pairwise i j h h' before
    · exact (List.pairwise_iff_getElem.mp pairwise j i h' h after).symm

-----------------------------------------------------------------------------------------
-- A buffer written over itself
-----------------------------------------------------------------------------------------

/-- A pass that stores what the buffer holds already. -/
theorem chunkCells_replay {plain : Mem} {plen : Nat} {keys : Keys} {i : Nat} {start idx : Cell}
    {cells : Cells} (more : 4 * i < plen)
    (chunk : ChunkAt cells.buffer plain plen keys i start idx)
    : (chunkCells plain plen keys i start idx cells).buffer = cells.buffer := by
  obtain ⟨index, data⟩ := chunk
  funext x
  by_cases inChunk : ∃ t < min 4 (plen - 4 * i), x = dataCell idx t
  · obtain ⟨t, ht, rfl⟩ := inChunk
    rw [chunkCells_dataCell more ht, data t ht]
  · rw [chunkCells_of_ne more fun t ht eq => inChunk ⟨t, ht, eq⟩]
    split
    · rename_i atStart
      rw [atStart, index]
    · rfl

/-- On bytes that name the positions of a buffer, the passes leave it as it is. -/
theorem putChunks_replay (plain : Mem) {plen : Nat} (keys : Keys) (arr1 positions : List Cell)
    (i : Nat) (used : Set Cell) (cells : Cells) (marks : Marks cells.bucket used)
    (reserved : ∀ start ∈ arr1, start ∈ used) (left : i + arr1.length = idxAmt plen)
    (length : positions.length = arr1.length)
    (chunks
      : ∀ j (h : j < arr1.length) (h' : j < positions.length),
          ChunkAt cells.buffer plain plen keys (i + j) arr1[j] positions[j])
    (unused : ∀ idx ∈ positions, Disjoint (fourCells idx) used)
    (pairwise : positions.Pairwise fun idx idx' => Disjoint (fourCells idx) (fourCells idx'))
    : ∃ cells',
        putChunks plain plen keys i arr1 cells (positions.map UInt8.ofFin) = .ok (cells', [])
        ∧ cells'.buffer = cells.buffer := by
  induction arr1 generalizing positions i used cells with
  | nil =>
      obtain rfl := List.length_eq_zero_iff.mp length
      exact ⟨cells, rfl, rfl⟩
  | cons start arr1 ih =>
      obtain ⟨idx, positions, rfl⟩ :=
        List.exists_cons_of_length_pos (show 0 < positions.length by simp [length])
      simp only [List.length_cons, idxAmt, Nat.add_right_cancel_iff] at left length
      have more : 4 * i < plen := by omega
      have clear := unused idx List.mem_cons_self
      have chunk : ChunkAt cells.buffer plain plen keys i start idx :=
        chunks 0 (by simp) (by simp)
      have one : putChunk plain plen keys i start cells
            (UInt8.ofFin idx :: positions.map UInt8.ofFin)
          = .ok (chunkCells plain plen keys i start idx cells, positions.map UInt8.ofFin) :=
        putChunk_ok_iff.mpr ⟨idx, getDataIdx_ok_iff.mpr
          ⟨[], UInt8.ofFin idx, rfl, Nat.zero_le 220, by simp,
            (marks.fourFree_iff idx).mpr clear, rfl⟩, rfl⟩
      have same := chunkCells_replay more chunk
      obtain ⟨apart, pairwise'⟩ := List.pairwise_cons.mp pairwise
      have later : ∃ cells',
          putChunks plain plen keys (i + 1) arr1 (chunkCells plain plen keys i start idx cells)
            (positions.map UInt8.ofFin)
          = .ok (cells', [])
          ∧ cells'.buffer = (chunkCells plain plen keys i start idx cells).buffer := by
        cases arr1 with
        | nil =>
            obtain rfl := List.length_eq_zero_iff.mp length
            exact ⟨_, rfl, rfl⟩
        | cons start' arr1 =>
            simp only [List.length_cons] at left
            refine ih positions (i + 1) (used ∪ fourCells idx) _ ?_
              (fun next member => Or.inl (reserved next (List.mem_cons_of_mem _ member))) ?_
              length ?_ ?_ pairwise'
            · intro x
              rw [chunkCells_bucket more, marks x, show min 4 (plen - 4 * i) = 4 by omega]
              rfl
            · simp only [List.length_cons, idxAmt]
              omega
            · intro j h h'
              rw [same, show i + 1 + j = i + (j + 1) by omega]
              exact chunks (j + 1) (by simpa using h) (by simpa using h')
            · intro next member
              exact Set.disjoint_union_right.mpr
                ⟨unused next (List.mem_cons_of_mem _ member), (apart next member).symm⟩
      obtain ⟨cells', ran, kept⟩ := later
      exact ⟨cells', Draw.bind_ok_iff.mpr ⟨_, _, one, ran⟩, kept.trans same⟩

/-- A frame laid over a buffer that carries its message leaves it as it is. -/
theorem layFrame_replay {buffer : Buffer} {chidx : Fin ch14sSz} {begidx : Cell} {keys : Keys}
    {plen : Nat} {now : Tm} (other : begidx ≠ begIdx) (short : plen ≤ maxPlainBytes)
    (carries : Carries buffer chidx begidx keys plen now)
    : ∃ frame,
        layFrame chidx begidx buffer plen now = some frame
        ∧ Laid chidx begidx plen now frame
        ∧ frame.keys = keys
        ∧ frame.cells.buffer = buffer := by
  have few := idxAmt_le short
  obtain ⟨frame, started, laid, kept⟩ := layFrame_filled other short chidx buffer now
  -- the key cells are not written
  have unwritten {k : Nat} (key : k = 2 ∨ k = 6)
      : ¬Written begidx (idxAmt plen) (walk begidx k) := by
    rintro (same | same | same | same | ⟨i, hi, same⟩)
    · exact walk_ne_begIdx other _ same
    all_goals
      have := (walk_inj other (by omega) (by omega)).mp same
      omega
  have key1 : frame.keys.key1 = keys.key1 := by
    rw [← laid.carries.key1, kept _ (unwritten (Or.inl rfl)), carries.key1]
  have key2 : frame.keys.key2 = keys.key2 := by
    rw [← laid.carries.key2, kept _ (unwritten (Or.inr rfl)), carries.key2]
  have sameKeys : frame.keys = keys := by
    cases framed : frame.keys
    simp only [framed] at key1 key2
    rw [key1, key2]
  refine ⟨frame, started, laid, sameKeys, ?_⟩
  have carried := laid.carries
  rw [sameKeys] at carried
  funext x
  by_cases written : Written begidx (idxAmt plen) x
  · rcases written with same | same | same | same | ⟨i, hi, same⟩
    · rw [same, carried.begin_, carries.begin_]
    · rw [same, carried.ch2, carries.ch2]
    · rw [same, carried.ch1, carries.ch1]
    · rw [same, carried.len, carries.len]
    · rw [same, carried.time i hi, carries.time i hi]
  · exact kept x written

/-- Random bytes on which a message is written over itself: the number of its characteristic,
its begin index, the message and its positions.
-/
def replayBytes (buffer : Buffer) (chidx : Fin ch14sSz) (n : Nat) : List UInt8 :=
  UInt8.ofNat chidx.val :: buffer begIdx
    :: (List.ofFn buffer ++ ((List.range n).map (positionOf buffer)).map UInt8.ofFin)

theorem encBody_replay {buffer : Buffer} {chidx : Fin ch14sSz} {plain : Mem} {plen : Nat}
    {now : Tm} (short : plen ≤ maxPlainBytes) (genuine : Genuine buffer (idxAmt plen))
    (carries : Carries buffer chidx (begidxOf buffer) (keysOf buffer) plen now)
    (data
      : ∀ i < idxAmt plen,
          ChunkAt buffer plain plen (keysOf buffer) i (walk (begidxOf buffer) (7 + i))
            (positionOf buffer i))
    : encBody plain plen now (replayBytes buffer chidx (idxAmt plen)) = .ok (buffer, []) := by
  obtain ⟨frame, started, laid, keys, filled⟩ := layFrame_replay genuine.begidx short carries
  have length := laid.length_arr1
  have first : (UInt8.ofNat chidx.val).toNat % ch14sSz = chidx.val := by
    rw [toNat_ofNat_of_lt (Nat.lt_trans chidx.isLt (by decide))]
    exact Nat.mod_eq_of_lt chidx.isLt
  have fill : (fun i : Cell => (List.ofFn buffer).getD i.val 0) = buffer := by
    funext i
    rw [List.getD_eq_getElem?_getD, List.getElem?_ofFn, dif_pos i.isLt, Option.getD_some]
  have opened : openFrame plen now (replayBytes buffer chidx (idxAmt plen))
      = .ok (frame, ((List.range (idxAmt plen)).map (positionOf buffer)).map UInt8.ofFin) := by
    refine openFrame_ok_iff.mpr ⟨UInt8.ofNat chidx.val, buffer begIdx, List.ofFn buffer,
      ⟨⟨[], rfl, Nat.zero_le 200, by simp⟩, genuine.begidx, List.length_ofFn⟩, ?_⟩
    simp only [frameOn, first, fill]
    exact started
  obtain ⟨cells, ran, same⟩ := putChunks_replay plain frame.keys frame.arr1
    ((List.range (idxAmt plen)).map (positionOf buffer)) 0
    (headerCells (begidxOf buffer) (idxAmt plen)) frame.cells laid.taken
    (fun start member => (laid.taken start).mp (laid.reserved start member))
    (by rw [length, Nat.zero_add]) (by simp [length])
    (fun j h h' => by
      have entry : frame.arr1[j] = walk (begidxOf buffer) (7 + j) := by simp [laid.arr1]
      have position : ((List.range (idxAmt plen)).map (positionOf buffer))[j]
          = positionOf buffer j := by simp
      rw [entry, position, filled, keys, Nat.zero_add]
      exact data j (by omega))
    (fun idx member => by
      obtain ⟨i, hi, rfl⟩ := List.mem_map.mp member
      exact genuine.header i (List.mem_range.mp hi))
    (by
      refine List.pairwise_iff_getElem.mpr fun i j h h' before => ?_
      simp only [List.length_map, List.length_range] at h h'
      simp only [List.getElem_map, List.getElem_range]
      exact genuine.apart i h j h' (Nat.ne_of_lt before))
  refine Draw.bind_ok_iff.mpr ⟨frame, _, opened, Draw.bind_ok_iff.mpr ⟨cells, [], ran, ?_⟩⟩
  exact Draw.pure_ok_iff.mpr ⟨same.trans filled, rfl⟩

-----------------------------------------------------------------------------------------
-- What the decoder has checked
-----------------------------------------------------------------------------------------

theorem joinCh_low (ch2 ch1 : UInt8) : (joinCh ch2 ch1).toUInt8 = ch2 := by
  apply UInt8.toBitVec_inj.mp
  ext i h
  simp [joinCh]

theorem joinCh_high (ch2 ch1 : UInt8) : (joinCh ch2 ch1 >>> 8).toUInt8 = ch1 := by
  apply UInt8.toBitVec_inj.mp
  ext i h
  simp only [joinCh, UInt16.toBitVec_toUInt8]
  simp only [UInt16.toBitVec_shiftRight, UInt16.toBitVec_or, UInt8.toBitVec_toUInt16]
  interval_cases i <;> simp

/-- The time read from a buffer with `n` index cells. -/
def stampIn (buffer : Buffer) (n : Nat) : Stamp where
  min := buffer (walk (begidxOf buffer) (7 + n)) ^^^ (keysOf buffer).key1
  day := buffer (walk (begidxOf buffer) (7 + n + 1)) ^^^ (keysOf buffer).key1
  hour := buffer (walk (begidxOf buffer) (7 + n + 2)) ^^^ (keysOf buffer).key2
  sec := buffer (walk (begidxOf buffer) (7 + n + 3)) ^^^ (keysOf buffer).key2

/-- The header and the clock that an accepted buffer shows. -/
structure Shows (buffer : Buffer) (chidx : Fin ch14sSz) (plen : Nat) (now : Tm) : Prop where
  short : plen ≤ maxPlainBytes
  ch2 : buffer (walk (begidxOf buffer) 0) = (ch14s.get chidx).toUInt8
  ch1
    : buffer (walk (begidxOf buffer) 1) ^^^ (keysOf buffer).key2
      = (ch14s.get chidx >>> 8).toUInt8
  len : buffer (walk (begidxOf buffer) 4) ^^^ (keysOf buffer).key1 = UInt8.ofNat plen
  fresh : stampFresh (stampIn buffer (idxAmt plen)) now = true

theorem decBuffer_shows {buffer : Buffer} {maxPlen : Int} {now : Tm} {bytes : List UInt8}
    (accepted : decBuffer buffer maxPlen now = some (some bytes))
    : ∃ chidx, Shows buffer chidx bytes.length now := by
  simp only [decBuffer, readHeader_walk, readStamp_walk, Option.bind_eq_bind, Option.bind_some]
    at accepted
  split at accepted
  · cases accepted
  · rename_i listed
    split at accepted
    · cases accepted
    · rename_i short
      split at accepted
      · cases accepted
      · rename_i fresh
        obtain ⟨full, _, accepted⟩ := Option.bind_eq_some_iff.mp accepted
        split at accepted
        · cases accepted
        · rename_i count
          split at accepted
          · cases accepted
          · obtain rfl := Option.some.inj (Option.some.inj accepted)
            obtain ⟨chidx, bound, entry⟩ := List.mem_iff_getElem.mp (not_not.mp listed)
            have length : (full.take (full.length
                  - (4 - (buffer (walk (begidxOf buffer) 4) ^^^ (keysOf buffer).key1).toNat % 4)
                    % 4)).length
                = (buffer (walk (begidxOf buffer) 4) ^^^ (keysOf buffer).key1).toNat := by
              rw [List.length_take, ← not_not.mp count]
              omega
            rw [length]
            have table : ch14s.get ⟨chidx, by simpa using bound⟩
                = joinCh (buffer (walk (begidxOf buffer) 0))
                  (buffer (walk (begidxOf buffer) 1) ^^^ (keysOf buffer).key2) := entry
            refine ⟨⟨chidx, by simpa using bound⟩, Nat.le_of_not_lt short, ?_, ?_, ?_, ?_⟩
            · rw [table, joinCh_low]
            · rw [table, joinCh_high]
            · exact UInt8.toNat_inj.mp (by simp)
            · simpa [stampIn] using fresh

/-- The plaintext that the positions of a buffer lead to. -/
def plainIn (buffer : Buffer) : Mem :=
  fun j =>
    buffer (dataCell (positionOf buffer (j / 4)) (j % 4))
      ^^^ dataKey (keysOf buffer) (walk (begidxOf buffer) (7 + j / 4))

theorem chunkAt_plainIn (buffer : Buffer) (plen i : Nat)
    : ChunkAt buffer (plainIn buffer) plen (keysOf buffer) i (walk (begidxOf buffer) (7 + i))
        (positionOf buffer i) := by
  refine ⟨positionOf_index i, fun t ht => ?_⟩
  have chunk : (4 * i + t) / 4 = i := by omega
  have byte : (4 * i + t) % 4 = t := by omega
  rw [plainIn, chunk, byte, UInt8.xor_assoc, UInt8.xor_self, UInt8.xor_zero]

/-- The clock of the sender, with day and hour from the receiver's, who found them equal. -/
def senderClock (buffer : Buffer) {n : Nat} (genuine : Genuine buffer n) (now : Tm) : Tm where
  tmSec := (stampIn buffer n).sec.toNat
  tmMin := (stampIn buffer n).min.toNat
  tmHour := now.tmHour
  tmMday := now.tmMday
  sec_le := genuine.second
  min_lt := genuine.minute
  hour_lt := now.hour_lt
  mday_le := now.mday_le

/-- A genuine buffer that passes the checks carries a message of its sender. -/
theorem Shows.carries {buffer : Buffer} {chidx : Fin ch14sSz} {plen : Nat} {now : Tm}
    (seen : Shows buffer chidx plen now) (genuine : Genuine buffer (idxAmt plen))
    : Carries buffer chidx (begidxOf buffer) (keysOf buffer) plen
        (senderClock buffer genuine now) := by
  have unmask {a b key : UInt8} (masked : a ^^^ key = b) : a = b ^^^ key := by
    rw [← masked, UInt8.xor_assoc, UInt8.xor_self, UInt8.xor_zero]
  have fresh := seen.fresh
  simp only [stampFresh, Bool.and_eq_true, decide_eq_true_eq] at fresh
  obtain ⟨⟨⟨day, hour⟩, _⟩, _⟩ := fresh
  constructor
  · rfl
  · exact seen.ch2
  · exact unmask seen.ch1
  · rfl
  · exact unmask seen.len
  · rfl
  · intro i h
    have four : i < 4 := h
    interval_cases i
    · exact unmask UInt8.ofNat_toNat.symm
    · exact unmask day
    · exact unmask hour
    · exact unmask UInt8.ofNat_toNat.symm

-----------------------------------------------------------------------------------------
-- Both calls together
-----------------------------------------------------------------------------------------

/-- A body that ends in `buffer` exists exactly when the accepted buffer is genuine. -/
theorem encBody_ends_iff {buffer : Buffer} {maxPlen : Int} {now : Tm} {bytes : List UInt8}
    (accepted : decBuffer buffer maxPlen now = some (some bytes)) (positive : 0 < bytes.length)
    {plain : Mem} (delivered : ∀ t (h : t < bytes.length), plain t = bytes[t])
    : (∃ frd sent rest, encBody plain bytes.length sent frd = .ok (buffer, rest))
      ↔ Genuine buffer (idxAmt bytes.length) := by
  obtain ⟨chidx, seen⟩ := decBuffer_shows accepted
  constructor
  · rintro ⟨frd, sent, rest, ran⟩
    exact encBody_genuine seen.short ran
  · intro genuine
    have carries := seen.carries genuine
    have message : Sealed buffer chidx (begidxOf buffer) (keysOf buffer) (plainIn buffer)
        bytes.length (senderClock buffer genuine now) :=
      ⟨genuine.begidx, positive, seen.short, carries,
        fun i _ => ⟨_, chunkAt_plainIn buffer bytes.length i⟩⟩
    -- what was delivered is what the positions lead to
    obtain ⟨bytes', _, correct, decoded⟩ := decBuffer_sealed message maxPlen now
    rw [accepted] at decoded
    have same : bytes = bytes' := by
      split at decoded
      · exact Option.some.inj (Option.some.inj decoded)
      · cases decoded
    subst same
    refine ⟨_, _, [], encBody_replay seen.short genuine carries fun i hi => ?_⟩
    obtain ⟨index, data⟩ := chunkAt_plainIn buffer bytes.length i
    refine ⟨index, fun t ht => ?_⟩
    have within : 4 * i + t < bytes.length := by omega
    rw [data t ht, delivered _ within, correct _ within]

/-- A call writes out exactly what its body ends in. -/
theorem clKlciphEnc_emits_body (c plain out : Mem) {plen : Nat} (positive : 0 < plen)
    (short : plen ≤ maxPlainBytes) (clen : Int)
    : (∃ random sent written,
        (clKlciphEnc (some random) sent (some plain) plen (some out) (some clen)).ret = .succ
        ∧ (clKlciphEnc (some random) sent (some plain) plen (some out) (some clen)).cipher
          = some written
        ∧ ∀ i < 256, written i = c i)
      ↔ ∃ frd sent rest, encBody plain plen sent frd = .ok ((fun i : Cell => c i), rest) := by
  simp only [maxPlainBytes] at short
  have inRange : ¬((plen : Int) < 1 ∨ (plen : Int) > maxPlainBytes) := by
    simp only [maxPlainBytes]
    omega
  constructor
  · rintro ⟨random, sent, written, succeeded, output, same⟩
    simp only [clKlciphEnc, if_neg inRange, Int.toNat_natCast] at succeeded output
    refine ⟨random, sent, ?_⟩
    split at succeeded
    · rename_i buffer rest ran
      simp only [ran] at output
      obtain rfl := Option.some.inj output
      have wrote : buffer = fun i : Cell => c i := by
        funext i
        rw [← memcpy_buffer out buffer i, same i i.isLt]
      exact ⟨rest, wrote ▸ ran⟩
    · cases succeeded
    · cases succeeded
  · rintro ⟨frd, sent, rest, ran⟩
    simp only [clKlciphEnc, if_neg inRange, Int.toNat_natCast]
    refine ⟨frd, sent, _, by rw [ran], by rw [ran], fun i hi => ?_⟩
    exact memcpy_buffer out (fun i : Cell => c i) ⟨i, hi⟩

/-- Of the messages that the decoder accepts and that deliver a byte, the encoder can write
exactly the genuine ones.
-/
theorem clKlciphEnc_emits_iff (c dst out : Mem) (oldLen clen : Int) (now : Tm)
    (result : DecOut) (p : Mem) (plen : Int)
    (returned : clKlciphDec (some c) 256 (some dst) (some oldLen) 120 now = some result)
    (accepted : result.ret = .succ) (delivered : result.plain = some p)
    (length : result.plen = some plen) (positive : 1 ≤ plen)
    : (∃ random sent written,
        (clKlciphEnc (some random) sent (some p) plen (some out) (some clen)).ret = .succ
        ∧ (clKlciphEnc (some random) sent (some p) plen (some out) (some clen)).cipher
          = some written
        ∧ ∀ i < 256, written i = c i)
      ↔ Genuine (fun i => c i) (idxAmt plen.toNat) := by
  simp only [clKlciphDec, ne_eq, not_true_eq_false, if_false] at returned
  cases decoded : decBuffer (fun i => c i) 120 now with
  | none =>
      rw [decoded] at returned
      cases returned
  | some verdict =>
      rw [decoded] at returned
      cases verdict with
      | none =>
          cases returned
          cases accepted
      | some bytes =>
          obtain rfl := Option.some.inj returned
          obtain rfl := Option.some.inj delivered
          obtain rfl := Option.some.inj length
          obtain ⟨_, seen⟩ := decBuffer_shows decoded
          rw [Int.toNat_natCast, clKlciphEnc_emits_body c _ out (by omega) seen.short clen]
          refine encBody_ends_iff decoded (by omega) fun t h => ?_
          rw [memcpy_copied h, List.getD_eq_getElem?_getD, List.getElem?_eq_getElem h]
          rfl

/-- A message of five bytes that lists position 128 for both its chunks, under zero keys. -/
def listedTwice : Mem := fun i =>
  if i = 0 then 0x27
  else if i = 1 then 0x08
  else if i = 4 then 5
  else if i = 7 ∨ i = 8 then 128
  else if i = 10 then 1
  else 0

theorem listedTwice_accepted
    : clKlciphDec (some listedTwice) 256 (some fun _ => 7) (some 0) 120 default
      = some {
          ret := .succ
          plain := some (memcpy (fun _ => 7) (fun i => [0, 0, 0, 0, 0].getD i 0) 5)
          plen := some 5
        } := by
  have decoded
      : decBuffer (fun i => listedTwice i) 120 default = some (some [0, 0, 0, 0, 0]) := by
    decide +kernel
  simp only [clKlciphDec, decoded, ne_eq, not_true_eq_false, if_false]
  rfl

theorem clKlciphEnc_emits_iff_listedTwice
    : ∃ result p,
        clKlciphDec (some listedTwice) 256 (some fun _ => 7) (some 0) 120 default = some result
        ∧ result.plain = some p
        ∧ ((∃ random sent written,
            (clKlciphEnc (some random) sent (some p) 5 (some fun _ => 0) (some 0)).ret = .succ
            ∧ (clKlciphEnc (some random) sent (some p) 5 (some fun _ => 0) (some 0)).cipher
              = some written
            ∧ ∀ i < 256, written i = listedTwice i)
          ↔ Genuine (fun i => listedTwice i) (idxAmt 5)) :=
  ⟨_, _, listedTwice_accepted, rfl, clKlciphEnc_emits_iff listedTwice (fun _ => 7) (fun _ => 0) 0
    0 default _ _ 5 listedTwice_accepted rfl rfl rfl (by decide)⟩

/-- It is accepted, and no call of the encoder writes it. -/
theorem clKlciphDec_listedTwice
    : ¬∀ (c dst out : Mem) (oldLen clen : Int) (now : Tm) (result : DecOut) (p : Mem)
        (plen : Int),
        clKlciphDec (some c) 256 (some dst) (some oldLen) 120 now = some result
        → result.ret = .succ
        → result.plain = some p
        → result.plen = some plen
        → ∃ random sent written,
          (clKlciphEnc (some random) sent (some p) plen (some out) (some clen)).ret = .succ
          ∧ (clKlciphEnc (some random) sent (some p) plen (some out) (some clen)).cipher
            = some written
          ∧ ∀ i < 256, written i = c i := by
  intro emitted
  have emission := emitted listedTwice (fun _ => 7) (fun _ => 0) 0 0 default _ _ 5
    listedTwice_accepted rfl rfl rfl
  obtain ⟨frd, sent, rest, ran⟩ :=
    (clKlciphEnc_emits_body listedTwice _ _ (show 0 < 5 by decide) (by decide) 0).mp emission
  have genuine := encBody_genuine (by decide) ran
  have apart := genuine.apart 0 (by decide) 1 (by decide) (by decide)
  have twice : positionOf (fun i => listedTwice i) 0 = positionOf (fun i => listedTwice i) 1 := by
    decide +kernel
  rw [twice] at apart
  exact Set.disjoint_left.mp apart ⟨0, by decide, rfl⟩ ⟨0, by decide, rfl⟩

end Libccll.Klciph
