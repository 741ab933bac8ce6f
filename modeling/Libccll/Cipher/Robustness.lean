import Mathlib.Data.List.Basic
import Libccll.Cipher.Klciph

/-! The decoder on arbitrary input.
Whatever the buffer says about positions, length and number of index cells, every access
stays inside `buffer` and `plain_buf`, and the caller's memory changes only on success.
-/

namespace Libccll.Klciph

-----------------------------------------------------------------------------------------
-- Positions in the buffer
-----------------------------------------------------------------------------------------

theorem getNextIdx_lt {idx : Nat} (inside : idx < 256) : getNextIdx idx < 256 := by
  have before : begIdx.val = 97 := rfl
  unfold getNextIdx
  split
  · omega
  · split <;> omega

theorem getNextIdx_iterate_lt {idx : Nat} (inside : idx < 256) (n : Nat)
    : getNextIdx^[n] idx < 256 := by
  induction n generalizing idx with
  | zero => exact inside
  | succ n ih => exact ih (getNextIdx_lt inside)

/-- A read inside the array succeeds. -/
theorem readAt_inside {buffer : Buffer} {i : Nat} (inside : i < 256)
    : readAt buffer i = some (buffer ⟨i, inside⟩) :=
  dif_pos inside

/-- The six first steps end at a position inside the buffer. -/
theorem readHeader_inside (buffer : Buffer)
    : ∃ header, readHeader buffer = some header ∧ header.idx < 256 := by
  have begidx : begIdx.val < 256 := begIdx.isLt
  have idx0 : (buffer ⟨begIdx.val, begidx⟩).toNat < 256 := UInt8.toNat_lt _
  have idx1 := getNextIdx_lt idx0
  have idx2 := getNextIdx_lt idx1
  have idx4 := getNextIdx_lt (getNextIdx_lt idx2)
  have idx6 := getNextIdx_lt (getNextIdx_lt idx4)
  simp only [readHeader, Option.bind_eq_bind, readAt_inside begidx, Option.bind_some,
    readAt_inside idx0, readAt_inside idx1, readAt_inside idx2, readAt_inside idx4,
    readAt_inside idx6]
  exact ⟨_, rfl, idx6⟩

theorem readStamp_inside (buffer : Buffer) (keys : Keys) (n : Nat) {idx : Nat}
    (inside : idx < 256)
    : ∃ stamp, readStamp buffer keys n idx = some stamp := by
  have idx1 := getNextIdx_lt (getNextIdx_iterate_lt inside n)
  have idx2 := getNextIdx_lt idx1
  have idx3 := getNextIdx_lt idx2
  have idx4 := getNextIdx_lt idx3
  simp only [readStamp, Option.bind_eq_bind, readAt_inside idx1, readAt_inside idx2,
    readAt_inside idx3, readAt_inside idx4, Option.bind_some]
  exact ⟨_, rfl⟩

-----------------------------------------------------------------------------------------
-- Bytes put into `plain_buf`
-----------------------------------------------------------------------------------------

theorem pushPlain_room {plainBuf : List UInt8} {value : UInt8}
    (room : plainBuf.length < maxPlainBytes)
    : pushPlain plainBuf value = some (plainBuf ++ [value]) :=
  if_pos room

/-- One pass puts four bytes, wherever its index cell points. -/
theorem readChunk_inside (buffer : Buffer) (keys : Keys) {idx : Nat} (inside : idx < 256)
    {plainBuf : List UInt8} (room : plainBuf.length + 4 ≤ maxPlainBytes)
    : ∃ longer,
        readChunk buffer keys idx plainBuf = some longer
        ∧ longer.length = plainBuf.length + 4 := by
  have anywhere (where_ : UInt8) : where_.toNat < 256 := UInt8.toNat_lt where_
  have room0 : plainBuf.length < maxPlainBytes := by omega
  have room1 (a : UInt8) : (plainBuf ++ [a]).length < maxPlainBytes := by
    rw [List.length_append, List.length_singleton]
    omega
  have room2 (a b : UInt8) : (plainBuf ++ [a] ++ [b]).length < maxPlainBytes := by
    simp only [List.length_append, List.length_singleton]
    omega
  have room3 (a b c : UInt8) : (plainBuf ++ [a] ++ [b] ++ [c]).length < maxPlainBytes := by
    simp only [List.length_append, List.length_singleton]
    omega
  simp only [readChunk, Option.bind_eq_bind, readAt_inside inside, Option.bind_some,
    readAt_inside (anywhere _), pushPlain_room room0, pushPlain_room (room1 _),
    pushPlain_room (room2 _ _), pushPlain_room (room3 _ _ _)]
  exact ⟨_, rfl, by simp only [List.length_append, List.length_singleton]⟩

/-- Step 8 with `n` passes left, by induction on them. -/
theorem readChunks_inside (buffer : Buffer) (keys : Keys) (n : Nat) {idx : Nat}
    (inside : idx < 256) {plainBuf : List UInt8}
    (room : plainBuf.length + 4 * n ≤ maxPlainBytes)
    : ∃ longer,
        readChunks buffer keys n idx plainBuf = some longer
        ∧ longer.length = plainBuf.length + 4 * n := by
  induction n generalizing idx plainBuf with
  | zero => exact ⟨plainBuf, rfl, rfl⟩
  | succ n ih =>
      have next := getNextIdx_lt inside
      obtain ⟨middle, read, length⟩ :=
        readChunk_inside buffer keys next (show plainBuf.length + 4 ≤ maxPlainBytes by omega)
      obtain ⟨longer, later, total⟩ := ih next (show middle.length + 4 * n ≤ maxPlainBytes by omega)
      refine ⟨longer, ?_, by omega⟩
      simp only [readChunks, Option.bind_eq_bind, read, Option.bind_some, later]

/-- The number of passes that a length within bounds asks for fits `plain_buf`. -/
theorem four_idxAmt_le {len : Nat} (short : len ≤ maxPlainBytes)
    : 4 * idxAmt len ≤ maxPlainBytes := by
  simp only [maxPlainBytes, idxAmt] at short ⊢
  omega

-----------------------------------------------------------------------------------------
-- The whole call
-----------------------------------------------------------------------------------------

/-- No access is outside an array, and what is delivered fits both buffers. -/
theorem decBuffer_inside (buffer : Buffer) (maxPlen : Int) (now : Tm)
    : ∃ result,
        decBuffer buffer maxPlen now = some result
        ∧ ∀ bytes,
            result = some bytes → bytes.length ≤ maxPlen ∧ bytes.length ≤ maxPlainBytes := by
  obtain ⟨header, headed, inside⟩ := readHeader_inside buffer
  simp only [decBuffer, Option.bind_eq_bind, headed, Option.bind_some]
  split
  · exact ⟨none, rfl, by simp⟩
  · split
    · exact ⟨none, rfl, by simp⟩
    · rename_i short
      have short := Nat.le_of_not_lt short
      obtain ⟨stamp, stamped⟩ :=
        readStamp_inside buffer header.keys (idxAmt header.len.toNat) inside
      simp only [stamped, Option.bind_some]
      split
      · exact ⟨none, rfl, by simp⟩
      · have room := four_idxAmt_le short
        obtain ⟨plainBuf, read, length⟩ :=
          readChunks_inside buffer header.keys (idxAmt header.len.toNat) inside
            (show [].length + 4 * idxAmt header.len.toNat ≤ maxPlainBytes by simpa using room)
        simp only [read, Option.bind_some]
        split
        · exact ⟨none, rfl, by simp⟩
        · split
          · exact ⟨none, rfl, by simp⟩
          · rename_i count fits
            refine ⟨_, rfl, fun bytes delivered => ?_⟩
            obtain rfl := Option.some.inj delivered
            rw [List.length_take]
            omega

/-- Every call returns, having accessed nothing outside its arrays.
It fails and leaves the caller's memory alone, or succeeds with at most `max_plen` and at
most 120 bytes, and writes no byte of `plain` behind them.
-/
theorem clKlciphDec_robust (cipher : Option Mem) (clen : Int) (plain : Option Mem)
    (plen : Option Int) (maxPlen : Int) (now : Tm)
    : ∃ result,
        clKlciphDec cipher clen plain plen maxPlen now = some result
        ∧ (result.ret = .fail ∧ result.plain = plain ∧ result.plen = plen
          ∨ result.ret = .succ
            ∧ ∃ out written k,
              plain = some out
              ∧ result.plain = some written
              ∧ result.plen = some k
              ∧ 0 ≤ k
              ∧ k ≤ min maxPlen 120
              ∧ ∀ i : Nat, k ≤ i → written i = out i) := by
  unfold clKlciphDec
  split
  · rename_i cipher out count
    split
    · exact ⟨_, rfl, Or.inl ⟨rfl, rfl, rfl⟩⟩
    · obtain ⟨result, decoded, fits⟩ :=
        decBuffer_inside (fun i => cipher i) maxPlen now
      rw [decoded]
      cases result with
      | none => exact ⟨_, rfl, Or.inl ⟨rfl, rfl, rfl⟩⟩
      | some bytes =>
          obtain ⟨enough, short⟩ := fits bytes rfl
          simp only [maxPlainBytes] at short
          refine ⟨_, rfl, Or.inr ⟨rfl, out, _, _, rfl, rfl, rfl, Int.natCast_nonneg _, ?_, ?_⟩⟩
          · omega
          · intro i behind
            exact memcpy_kept (by omega)
  · exact ⟨_, rfl, Or.inl ⟨rfl, rfl, rfl⟩⟩

end Libccll.Klciph
