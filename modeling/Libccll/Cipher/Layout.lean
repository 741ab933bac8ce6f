import Mathlib.Data.Fin.Basic
import Mathlib.Tactic.Cases
import Libccll.Cipher.Klciph

/-! Where the encoder puts the header, the index cells and the time.
Both directions go around the ring of cells and leave out `begIdx`; the encoder finds the
cells by searching `bucket`, the decoder by stepping with `getNextIdx`.
-/

namespace Libccll.Klciph

-----------------------------------------------------------------------------------------
-- The walk around the ring without `begIdx`
-----------------------------------------------------------------------------------------

/-- `getNextIdx` on cells. -/
def nextCell (c : Cell) : Cell :=
  if c = 255 then 0 else if c = begIdx - 1 then begIdx + 1 else c + 1

/-- The cell `k` steps after the begin index. -/
def walk (begidx : Cell) (k : Nat) : Cell := nextCell^[k] begidx

/-- Distance of a cell from the one after `begIdx`, which itself comes last. -/
def ringRank (c : Cell) : Nat := (c.val + 158) % 256

theorem nextCell_val (c : Cell)
    : (nextCell c).val
      = if c.val = 255 then 0 else if c.val = 96 then 98 else c.val + 1 := by
  unfold nextCell begIdx
  by_cases last : c = 255
  · simp [last]
  · have notLast : c.val ≠ 255 := fun same => last (Fin.ext same)
    by_cases before : c = 96
    · simp [before]
    · have notBefore : c.val ≠ 96 := fun same => before (Fin.ext same)
      have before' : c ≠ 97 - 1 := before
      simp only [last, before', notLast, notBefore, if_false, Fin.val_add, Fin.val_one]
      omega

theorem incIdx_eq (i : Cell) : incIdx i = i + 1 := by
  unfold incIdx
  split
  · rename_i last
    subst last
    rfl
  · rfl

theorem getNextIdx_val (c : Cell) : getNextIdx c.val = (nextCell c).val := by
  rw [nextCell_val]
  rfl

@[simp] theorem walk_zero (begidx : Cell) : walk begidx 0 = begidx := rfl

theorem walk_succ (begidx : Cell) (k : Nat)
    : walk begidx (k + 1) = nextCell (walk begidx k) :=
  Function.iterate_succ_apply' nextCell k begidx

theorem walk_one (begidx : Cell) : walk begidx 1 = nextCell begidx := rfl

/-- The decoder's steps follow the walk. -/
@[simp] theorem getNextIdx_walk (begidx : Cell) (k : Nat)
    : getNextIdx (walk begidx k).val = (walk begidx (k + 1)).val := by
  rw [getNextIdx_val, walk_succ]

theorem getNextIdx_iterate_walk (begidx : Cell) (n k : Nat)
    : getNextIdx^[n] (walk begidx k).val = (walk begidx (k + n)).val := by
  induction n with
  | zero => rfl
  | succ n ih => rw [Function.iterate_succ_apply', ih, getNextIdx_walk, Nat.add_assoc]

theorem ringRank_lt {c : Cell} (other : c ≠ begIdx) : ringRank c < 255 := by
  have hc := c.isLt
  have notBegin : c.val ≠ 97 := fun same => other (Fin.ext same)
  simp only [ringRank]
  omega

/-- One step advances the rank, around a ring of 255 cells. -/
theorem ringRank_nextCell {c : Cell} (other : c ≠ begIdx)
    : ringRank (nextCell c) = (ringRank c + 1) % 255 := by
  have hc := c.isLt
  have notBegin : c.val ≠ 97 := fun same => other (Fin.ext same)
  simp only [ringRank, nextCell_val]
  split
  · omega
  · split <;> omega

theorem nextCell_ne_begIdx (c : Cell) (other : c ≠ begIdx) : nextCell c ≠ begIdx := by
  intro same
  have rank := ringRank_nextCell other
  rw [same] at rank
  have last : ringRank begIdx = 255 := by decide
  omega

theorem walk_ne_begIdx {begidx : Cell} (other : begidx ≠ begIdx) (k : Nat)
    : walk begidx k ≠ begIdx := by
  induction k with
  | zero => exact other
  | succ k ih =>
      rw [walk_succ]
      exact nextCell_ne_begIdx _ ih

theorem ringRank_walk {begidx : Cell} (other : begidx ≠ begIdx) (k : Nat)
    : ringRank (walk begidx k) = (ringRank begidx + k) % 255 := by
  induction k with
  | zero => exact (Nat.mod_eq_of_lt (ringRank_lt other)).symm
  | succ k ih =>
      rw [walk_succ, ringRank_nextCell (walk_ne_begIdx other k), ih]
      omega

/-- The first 255 cells of a walk are distinct. -/
theorem walk_inj {begidx : Cell} (other : begidx ≠ begIdx) {j k : Nat} (hj : j < 255)
    (hk : k < 255)
    : walk begidx j = walk begidx k ↔ j = k := by
  refine ⟨fun same => ?_, fun same => same ▸ rfl⟩
  have ranks := congrArg ringRank same
  rw [ringRank_walk other, ringRank_walk other] at ranks
  omega

-----------------------------------------------------------------------------------------
-- The search for the next free cell
-----------------------------------------------------------------------------------------

/-- The cells in use are `begIdx` and the first `m` of the walk. -/
def Taken (begidx : Cell) (m : Nat) (bucket : Bucket) : Prop :=
  ∀ x, bucket x = true ↔ x = begIdx ∨ ∃ k < m, x = walk begidx k

/-- Marking the next cell of the walk takes one more. -/
theorem Taken.mark {begidx : Cell} {m : Nat} {bucket : Bucket} (taken : Taken begidx m bucket)
    : Taken begidx (m + 1) (Function.update bucket (walk begidx m) true) := by
  intro x
  rw [Function.update_apply]
  split
  · rename_i same
    simpa using Or.inr ⟨m, by omega, same⟩
  · rename_i differs
    rw [taken x]
    refine or_congr_right ⟨?_, ?_⟩
    · rintro ⟨k, hk, same⟩
      exact ⟨k, by omega, same⟩
    · rintro ⟨k, hk, same⟩
      refine ⟨k, ?_, same⟩
      have : k ≠ m := fun eq => differs (eq ▸ same)
      omega

theorem getFreePos_first {bucket : Bucket} {start : Cell}
    (free : bucket (incIdx start) = false)
    : getFreePos bucket start = some (incIdx start) := by
  change getFreePosIn bucket (255 + 1) start = _
  rw [getFreePosIn]
  simp [free]

theorem getFreePos_second {bucket : Bucket} {start : Cell}
    (used : bucket (incIdx start) = true) (free : bucket (incIdx (incIdx start)) = false)
    : getFreePos bucket start = some (incIdx (incIdx start)) := by
  change getFreePosIn bucket (254 + 1 + 1) start = _
  rw [getFreePosIn, getFreePosIn]
  simp [used, free]

/-- From the last cell taken, the search returns the next one of the walk. It passes one
used cell at most, namely `begIdx`.
-/
theorem getFreePos_walk {begidx : Cell} {m : Nat} {bucket : Bucket}
    (other : begidx ≠ begIdx) (taken : Taken begidx (m + 1) bucket) (room : m + 1 < 255)
    : getFreePos bucket (walk begidx m) = some (walk begidx (m + 1)) := by
  have free : bucket (walk begidx (m + 1)) = false := by
    rw [Bool.eq_false_iff]
    intro used
    rcases (taken _).mp used with same | ⟨k, hk, same⟩
    · exact walk_ne_begIdx other _ same
    · have := (walk_inj other room (by omega)).mp same
      omega
  have begUsed : bucket begIdx = true := (taken _).mpr (Or.inl rfl)
  rw [walk_succ] at free ⊢
  by_cases before : walk begidx m = begIdx - 1
  · have skip : incIdx (begIdx - 1) = begIdx := by decide
    have after : incIdx begIdx = nextCell (begIdx - 1) := by decide
    rw [before] at free ⊢
    rw [← after, ← skip] at free ⊢
    exact getFreePos_second (skip.symm ▸ begUsed) free
  · have step : incIdx (walk begidx m) = nextCell (walk begidx m) := by
      unfold incIdx nextCell
      simp [before]
    rw [← step] at free ⊢
    exact getFreePos_first free

-----------------------------------------------------------------------------------------
-- Begin, characteristic, keys and length
-----------------------------------------------------------------------------------------

theorem putCharacteristic_eq (chidx : Fin ch14sSz) (begidx : Cell) (cells : Cells)
    : putCharacteristic chidx begidx cells
      = ({
          bucket :=
            Function.update (Function.update cells.bucket begidx true) (nextCell begidx) true
          buffer :=
            Function.update (Function.update cells.buffer begidx (ch14s.get chidx).toUInt8)
              (nextCell begidx) (ch14s.get chidx >>> 8).toUInt8
        }, nextCell begidx) := by
  unfold putCharacteristic nextCell
  by_cases before : begidx = begIdx - 1
  · subst before
    rfl
  · by_cases last : begidx = 255
    · subst last
      rfl
    · simp [before, last, Cells.put, Cells.mark]

/-- Steps 2 and 3 use the first two cells of the walk, next to `begIdx`. -/
theorem putCharacteristic_begin (chidx : Fin ch14sSz) (begidx : Cell) (buffer : Buffer)
    : ∃ cells,
        putCharacteristic chidx begidx (putBegin begidx buffer) = (cells, walk begidx 1)
        ∧ Taken begidx 2 cells.bucket
        ∧ ∀ x, cells.buffer x
          = if x = walk begidx 1 then (ch14s.get chidx >>> 8).toUInt8
            else if x = walk begidx 0 then (ch14s.get chidx).toUInt8
            else if x = begIdx then UInt8.ofFin begidx
            else buffer x := by
  have empty : Taken begidx 0 (putBegin begidx buffer).bucket := by
    intro x
    simp only [putBegin, Cells.put, Cells.mark, Function.update_apply]
    split <;> simp_all
  refine ⟨_, putCharacteristic_eq chidx begidx _, empty.mark.mark, fun x => ?_⟩
  simp only [Function.update_apply, putBegin, Cells.put, Cells.mark, walk_one, walk_zero]
  rfl

/-- Steps 4 to 7 always find their cells: `key1`, `len` and `key2` are the cells 2, 4
and 6 of the walk, with an unused cell after each of the first two.
-/
theorem putKeysAndLen_eq {begidx : Cell} {cells : Cells} (other : begidx ≠ begIdx)
    (taken : Taken begidx 2 cells.bucket) (plen : Nat)
    : ∃ cells',
        putKeysAndLen plen (walk begidx 1) cells
          = some (cells',
              {
                key1 := cells.buffer (walk begidx 2)
                key2 := cells.buffer (walk begidx 6)
              }, walk begidx 6)
        ∧ Taken begidx 7 cells'.bucket
        ∧ ∀ x, cells'.buffer x
          = if x = walk begidx 1 then
              cells.buffer (walk begidx 1) ^^^ cells.buffer (walk begidx 6)
            else if x = walk begidx 4 then
              UInt8.ofNat plen ^^^ cells.buffer (walk begidx 2)
            else cells.buffer x := by
  have apart {j k : Nat} (hj : j < 255) (hk : k < 255) (differ : j ≠ k)
      : walk begidx j ≠ walk begidx k :=
    fun same => differ ((walk_inj other hj hk).mp same)
  have apart14 := apart (j := 1) (k := 4) (by omega) (by omega) (by omega)
  have apart64 := apart (j := 6) (k := 4) (by omega) (by omega) (by omega)
  have apart41 := apart14.symm
  have taken3 := taken.mark
  have taken4 := taken3.mark
  have taken5 := taken4.mark
  have taken6 := taken5.mark
  have found2 := getFreePos_walk other taken (by omega)
  have found3 := getFreePos_walk other taken3 (by omega)
  have found4 := getFreePos_walk other taken4 (by omega)
  have found5 := getFreePos_walk other taken5 (by omega)
  have found6 := getFreePos_walk other taken6 (by omega)
  simp only [Nat.reduceAdd] at found2 found3 found4 found5 found6
  simp only [putKeysAndLen, Option.bind_eq_bind, Cells.put, Cells.mark, found2, found3, found4,
    found5, found6, Option.bind_some, Function.update_of_ne apart64,
    Function.update_of_ne apart14, Function.update_of_ne apart41, Function.update_self]
  refine ⟨_, rfl, taken6.mark, ?_⟩
  intro x
  simp only [Function.update_apply]
  split_ifs <;> simp_all

-----------------------------------------------------------------------------------------
-- Index cells and time
-----------------------------------------------------------------------------------------

/-- The index cells are the next `n` of the walk, and no byte is stored yet. -/
theorem makePlaceholders_eq {begidx : Cell} (other : begidx ≠ begIdx) (n m : Nat)
    (cells : Cells) (taken : Taken begidx (m + 1) cells.bucket) (room : m + 1 + n < 255)
    : ∃ cells',
        makePlaceholders n cells (walk begidx m)
          = some ((List.range' (m + 1) n).map (walk begidx), cells', walk begidx (m + n))
        ∧ Taken begidx (m + 1 + n) cells'.bucket
        ∧ cells'.buffer = cells.buffer := by
  induction n generalizing m cells with
  | zero => exact ⟨cells, rfl, taken, rfl⟩
  | succ n ih =>
      have found := getFreePos_walk other taken (by omega)
      obtain ⟨cells', made, taken', same⟩ :=
        ih (m + 1) (cells.mark (walk begidx (m + 1))) taken.mark (by omega)
      refine ⟨cells', ?_, ?_, same⟩
      · simp only [makePlaceholders, found, made, Option.bind_eq_bind, Option.bind_some,
          List.range'_succ, List.map_cons]
        rw [Nat.add_right_comm m 1 n, Nat.add_assoc m n 1]
      · rw [Nat.add_right_comm (m + 1) 1 n] at taken'
        exact taken'

/-- The time bytes fill the next cells of the walk, and nothing else changes. -/
theorem putTime_eq {begidx : Cell} (other : begidx ≠ begIdx) (tarr : List UInt8) (m : Nat)
    (cells : Cells) (taken : Taken begidx (m + 1) cells.bucket)
    (room : m + 1 + tarr.length < 255)
    : ∃ cells',
        putTime tarr cells (walk begidx m) = some cells'
        ∧ Taken begidx (m + 1 + tarr.length) cells'.bucket
        ∧ (∀ i (h : i < tarr.length), cells'.buffer (walk begidx (m + 1 + i)) = tarr[i])
        ∧ ∀ x,
          (∀ i < tarr.length, x ≠ walk begidx (m + 1 + i))
          → cells'.buffer x = cells.buffer x := by
  induction tarr generalizing m cells with
  | nil => exact ⟨cells, rfl, taken, fun i h => absurd h (Nat.not_lt_zero i), fun _ _ => rfl⟩
  | cons value tarr ih =>
      simp only [List.length_cons] at room
      have found := getFreePos_walk other taken (by omega)
      let next := (cells.put (walk begidx (m + 1)) value).mark (walk begidx (m + 1))
      have next_taken : Taken begidx (m + 1 + 1) next.bucket := taken.mark
      obtain ⟨cells', put, taken', stored, kept⟩ := ih (m + 1) next next_taken (by omega)
      refine ⟨cells', ?_, ?_, ?_, ?_⟩
      · simpa only [putTime, found, Option.bind_eq_bind, Option.bind_some] using put
      · simpa only [List.length_cons, Nat.add_assoc, Nat.add_comm 1] using taken'
      · intro i h
        cases i with
        | zero =>
            have untouched := kept (walk begidx (m + 1)) (fun i hi same => by
              have := (walk_inj other (by omega) (by omega)).mp same
              omega)
            simpa [next, Cells.put, Cells.mark] using untouched
        | succ i =>
            have later := stored i (by simpa using h)
            simpa only [List.getElem_cons_succ, Nat.add_assoc, Nat.add_comm 1] using later
      · intro x away
        rw [kept x (fun i hi => by
          have := away (i + 1) (by simpa using hi)
          simpa only [Nat.add_assoc, Nat.add_comm 1] using this)]
        have first := away 0 (by simp)
        simp [next, Cells.put, Cells.mark, Function.update_of_ne first]

-----------------------------------------------------------------------------------------
-- The finished frame
-----------------------------------------------------------------------------------------

/-- The buffer holds the header and the time of a message. -/
structure Carries (buffer : Buffer) (chidx : Fin ch14sSz) (begidx : Cell) (keys : Keys)
    (plen : Nat) (now : Tm)
    : Prop where
  begin_ : buffer begIdx = UInt8.ofFin begidx
  ch2 : buffer (walk begidx 0) = (ch14s.get chidx).toUInt8
  ch1 : buffer (walk begidx 1) = (ch14s.get chidx >>> 8).toUInt8 ^^^ keys.key2
  key1 : buffer (walk begidx 2) = keys.key1
  len : buffer (walk begidx 4) = UInt8.ofNat plen ^^^ keys.key1
  key2 : buffer (walk begidx 6) = keys.key2
  time
    : ∀ i (h : i < (timeBytes now keys).length),
        buffer (walk begidx (7 + idxAmt plen + i)) = (timeBytes now keys)[i]

/-- What the data loop starts from. -/
structure Laid (chidx : Fin ch14sSz) (begidx : Cell) (plen : Nat) (now : Tm) (frame : Frame)
    : Prop where
  taken : Taken begidx (11 + idxAmt plen) frame.cells.bucket
  arr1 : frame.arr1 = (List.range' 7 (idxAmt plen)).map (walk begidx)
  carries : Carries frame.cells.buffer chidx begidx frame.keys plen now

theorem idxAmt_le {plen : Nat} (short : plen ≤ maxPlainBytes) : idxAmt plen ≤ 30 := by
  simp only [idxAmt, maxPlainBytes] at *
  omega

/-- The cells a frame with `n` index cells writes. -/
def Written (begidx : Cell) (n : Nat) (x : Cell) : Prop :=
  x = begIdx ∨ x = walk begidx 0 ∨ x = walk begidx 1 ∨ x = walk begidx 4
    ∨ ∃ i < 4, x = walk begidx (7 + n + i)

/-- No search for a header, index or time cell fails, for any begin index but `begIdx`, and
the other cells keep the random fill.
-/
theorem layFrame_filled {begidx : Cell} (other : begidx ≠ begIdx) {plen : Nat}
    (short : plen ≤ maxPlainBytes) (chidx : Fin ch14sSz) (buffer : Buffer) (now : Tm)
    : ∃ frame,
        layFrame chidx begidx buffer plen now = some frame
        ∧ Laid chidx begidx plen now frame
        ∧ ∀ x, ¬Written begidx (idxAmt plen) x → frame.cells.buffer x = buffer x := by
  have few := idxAmt_le short
  have apart {j k : Nat} (hj : j < 255) (hk : k < 255) (differ : j ≠ k)
      : walk begidx j ≠ walk begidx k :=
    fun same => differ ((walk_inj other hj hk).mp same)
  obtain ⟨cells2, started, taken2, buffer2⟩ := putCharacteristic_begin chidx begidx buffer
  obtain ⟨cells7, keyed, taken7, buffer7⟩ := putKeysAndLen_eq other taken2 plen
  obtain ⟨cellsN, placed, takenN, bufferN⟩ :=
    makePlaceholders_eq other (idxAmt plen) 6 cells7 taken7 (by omega)
  let keys : Keys :=
    { key1 := cells2.buffer (walk begidx 2), key2 := cells2.buffer (walk begidx 6) }
  have four : (timeBytes now keys).length = 4 := rfl
  rw [Nat.add_right_comm 6 1 (idxAmt plen)] at takenN
  obtain ⟨cells, timed, taken, stored, kept⟩ :=
    putTime_eq other (timeBytes now keys) (6 + idxAmt plen) cellsN takenN (by omega)
  -- the header cells come before those of the time
  have header (k : Nat) (hk : k < 7)
      : cells.buffer (walk begidx k)
        = if k = 1 then cells2.buffer (walk begidx 1) ^^^ keys.key2
          else if k = 4 then UInt8.ofNat plen ^^^ keys.key1
          else cells2.buffer (walk begidx k) := by
    rw [kept _ (fun i hi => apart (by omega) (by omega) (by omega)), bufferN, buffer7]
    simp only [walk_inj other (j := k) (k := 1) (by omega) (by omega),
      walk_inj other (j := k) (k := 4) (by omega) (by omega), keys]
  have apart10 := apart (j := 0) (k := 1) (by omega) (by omega) (by omega)
  refine ⟨{ cells, keys, arr1 := (List.range' 7 (idxAmt plen)).map (walk begidx) }, ?_,
    ⟨?_, rfl, ?_⟩, ?_⟩
  · simp only [layFrame, started, keyed, placed, Option.bind_eq_bind, Option.bind_some]
    simp only [keys] at timed
    rw [timed]
    rfl
  · rw [four] at taken
    rw [show 11 + idxAmt plen = 6 + idxAmt plen + 1 + 4 by omega]
    exact taken
  · constructor
    · have begins : ∀ k, begIdx ≠ walk begidx k := fun k => (walk_ne_begIdx other k).symm
      rw [kept _ (fun i _ => begins _), bufferN, buffer7, if_neg (begins 1), if_neg (begins 4),
        buffer2, if_neg (begins 1), if_neg (begins 0), if_pos rfl]
    · rw [header 0 (by omega), if_neg (by omega), if_neg (by omega), buffer2, if_neg apart10,
        if_pos rfl]
    · rw [header 1 (by omega), if_pos rfl, buffer2, if_pos rfl]
    · rw [header 2 (by omega)]
      rfl
    · rw [header 4 (by omega)]
      rfl
    · rw [header 6 (by omega)]
      rfl
    · intro i h
      rw [← stored i h]
      congr 2
      omega
  · intro x unwritten
    simp only [Written, not_or, not_exists, not_and] at unwritten
    obtain ⟨notBegin, not0, not1, not4, notTime⟩ := unwritten
    have early : 6 + idxAmt plen + 1 = 7 + idxAmt plen := by omega
    rw [kept x (fun i hi => by rw [early]; exact notTime i (by omega)), bufferN, buffer7,
      if_neg not1, if_neg not4, buffer2, if_neg not1, if_neg not0, if_neg notBegin]

theorem layFrame_laid {begidx : Cell} (other : begidx ≠ begIdx) {plen : Nat}
    (short : plen ≤ maxPlainBytes) (chidx : Fin ch14sSz) (buffer : Buffer) (now : Tm)
    : ∃ frame,
        layFrame chidx begidx buffer plen now = some frame
        ∧ Laid chidx begidx plen now frame := by
  obtain ⟨frame, laid, facts, _⟩ := layFrame_filled other short chidx buffer now
  exact ⟨frame, laid, facts⟩

end Libccll.Klciph
