import Mathlib.Data.List.Nodup
import Mathlib.Tactic.IntervalCases
import Libccll.Cipher.Placement

/-! Decoding undoes encoding.
A sealed buffer is one whose header, time and chunks the decoder finds where the encoder
put them; the encoder produces sealed buffers, and the decoder reads them completely.
-/

namespace Libccll.Klciph

open Foundation

/-- The buffer holds a whole message of `plen` bytes, stamped `now`. -/
structure Sealed (buffer : Buffer) (chidx : Fin ch14sSz) (begidx : Cell) (keys : Keys)
    (plain : Mem) (plen : Nat) (now : Tm)
    : Prop where
  other : begidx ≠ begIdx
  positive : 0 < plen
  short : plen ≤ maxPlainBytes
  carries : Carries buffer chidx begidx keys plen now
  chunks
    : ∀ i < idxAmt plen, ∃ idx, ChunkAt buffer plain plen keys i (walk begidx (7 + i)) idx

-----------------------------------------------------------------------------------------
-- The encoder seals
-----------------------------------------------------------------------------------------

/-- On an opening the frame is always laid. -/
theorem Opening.laid {frd fill rest : List UInt8} {first b : UInt8}
    (opening : Opening frd first b fill rest) {plen : Nat} (short : plen ≤ maxPlainBytes)
    (now : Tm)
    : ∃ frame,
        frameOn first b fill plen now = some frame
        ∧ Laid (Fin.ofNat ch14sSz first.toNat) b.toFin plen now frame :=
  layFrame_laid opening.other short _ _ now

/-- The steps before the data loop end with a laid frame. -/
theorem openFrame_laid {plen : Nat} {now : Tm} {frd rest : List UInt8} {frame : Frame}
    (short : plen ≤ maxPlainBytes) (ran : openFrame plen now frd = .ok (frame, rest))
    : ∃ chidx begidx, begidx ≠ begIdx ∧ Laid chidx begidx plen now frame := by
  obtain ⟨first, b, fill, opening, started⟩ := openFrame_ok_iff.mp ran
  obtain ⟨frame', laid', facts⟩ := opening.laid short now
  obtain rfl : frame' = frame := Option.some.inj (laid'.symm.trans started)
  exact ⟨_, _, opening.other, facts⟩

/-- The index cells of a laid frame are distinct used cells of the walk. -/
theorem Laid.mem_arr1 {chidx : Fin ch14sSz} {begidx : Cell} {plen : Nat} {now : Tm}
    {frame : Frame} (laid : Laid chidx begidx plen now frame) {start : Cell}
    : start ∈ frame.arr1 ↔ ∃ i < idxAmt plen, start = walk begidx (7 + i) := by
  rw [laid.arr1, List.mem_map]
  constructor
  · rintro ⟨k, member, rfl⟩
    obtain ⟨i, hi, rfl⟩ := List.mem_range'.mp member
    exact ⟨i, hi, by rw [Nat.one_mul]⟩
  · rintro ⟨i, hi, rfl⟩
    exact ⟨7 + i, List.mem_range'.mpr ⟨i, hi, by rw [Nat.one_mul]⟩, rfl⟩

theorem Laid.reserved {chidx : Fin ch14sSz} {begidx : Cell} {plen : Nat} {now : Tm}
    {frame : Frame} (laid : Laid chidx begidx plen now frame)
    : ∀ start ∈ frame.arr1, frame.cells.bucket start = true := by
  intro start member
  obtain ⟨i, hi, rfl⟩ := laid.mem_arr1.mp member
  exact (laid.taken _).mpr (Or.inr ⟨7 + i, by omega, rfl⟩)

theorem Laid.distinct {chidx : Fin ch14sSz} {begidx : Cell} {plen : Nat} {now : Tm}
    {frame : Frame} (laid : Laid chidx begidx plen now frame) (other : begidx ≠ begIdx)
    (short : plen ≤ maxPlainBytes)
    : frame.arr1.Nodup := by
  have few := idxAmt_le short
  rw [laid.arr1]
  apply List.Nodup.map_on _ List.nodup_range'
  intro j hj k hk same
  obtain ⟨i, hi, rfl⟩ := List.mem_range'.mp hj
  obtain ⟨i', hi', rfl⟩ := List.mem_range'.mp hk
  exact (walk_inj other (by omega) (by omega)).mp same

theorem Laid.length_arr1 {chidx : Fin ch14sSz} {begidx : Cell} {plen : Nat} {now : Tm}
    {frame : Frame} (laid : Laid chidx begidx plen now frame)
    : frame.arr1.length = idxAmt plen := by
  rw [laid.arr1, List.length_map, List.length_range']

/-- Header and time survive any change to index and unused cells. -/
theorem Laid.carries_of_kept {chidx : Fin ch14sSz} {begidx : Cell} {plen : Nat} {now : Tm}
    {frame : Frame} (laid : Laid chidx begidx plen now frame) (other : begidx ≠ begIdx)
    (short : plen ≤ maxPlainBytes) {buffer : Buffer}
    (kept
      : ∀ x,
          frame.cells.bucket x = true → x ∉ frame.arr1 → buffer x = frame.cells.buffer x)
    : Carries buffer chidx begidx frame.keys plen now := by
  have few := idxAmt_le short
  have same (k : Nat) (hk : k < 11 + idxAmt plen) (notIndex : k < 7 ∨ 7 + idxAmt plen ≤ k)
      : buffer (walk begidx k) = frame.cells.buffer (walk begidx k) := by
    apply kept _ ((laid.taken _).mpr (Or.inr ⟨k, hk, rfl⟩))
    intro member
    obtain ⟨i, hi, eq⟩ := laid.mem_arr1.mp member
    have := (walk_inj other (by omega) (by omega)).mp eq
    omega
  have begins : buffer begIdx = frame.cells.buffer begIdx := by
    apply kept _ ((laid.taken _).mpr (Or.inl rfl))
    intro member
    obtain ⟨i, _, eq⟩ := laid.mem_arr1.mp member
    exact walk_ne_begIdx other _ eq.symm
  have carries := laid.carries
  constructor
  · exact begins.trans carries.begin_
  · exact (same 0 (by omega) (by omega)).trans carries.ch2
  · exact (same 1 (by omega) (by omega)).trans carries.ch1
  · exact (same 2 (by omega) (by omega)).trans carries.key1
  · exact (same 4 (by omega) (by omega)).trans carries.len
  · exact (same 6 (by omega) (by omega)).trans carries.key2
  · intro i h
    have four : (timeBytes now frame.keys).length = 4 := rfl
    exact (same (7 + idxAmt plen + i) (by omega) (by omega)).trans (carries.time i h)

/-- What the data loop leaves of a frame, and what it puts into it. -/
theorem Laid.placed {chidx : Fin ch14sSz} {begidx : Cell} {plen : Nat} {now : Tm}
    {frame : Frame} (laid : Laid chidx begidx plen now frame) (other : begidx ≠ begIdx)
    (short : plen ≤ maxPlainBytes) {plain : Mem} {cells : Cells} {frd rest : List UInt8}
    (placed : putChunks plain plen frame.keys 0 frame.arr1 frame.cells frd = .ok (cells, rest))
    : Carries cells.buffer chidx begidx frame.keys plen now
      ∧ ∀ i < idxAmt plen,
        ∃ idx, ChunkAt cells.buffer plain plen frame.keys i (walk begidx (7 + i)) idx := by
  have length := laid.length_arr1
  obtain ⟨kept, chunks⟩ :=
    putChunks_spec frame.arr1 0 frame.cells cells frd rest laid.reserved
      (laid.distinct other short)
      (fun j h => by
        rw [length] at h
        simp only [idxAmt] at h
        omega)
      placed
  refine ⟨laid.carries_of_kept other short kept, fun i hi => ?_⟩
  have listed : i < frame.arr1.length := by omega
  obtain ⟨idx, chunk⟩ := chunks i listed
  have entry : frame.arr1[i] = walk begidx (7 + i) := by
    simp [laid.arr1]
  rw [Nat.zero_add, entry] at chunk
  exact ⟨idx, chunk⟩

/-- A body that runs to its end leaves a sealed buffer. -/
theorem encBody_sealed {plain : Mem} {plen : Nat} {now : Tm} {frd rest : List UInt8}
    {buffer : Buffer} (positive : 0 < plen) (short : plen ≤ maxPlainBytes)
    (ran : encBody plain plen now frd = .ok (buffer, rest))
    : ∃ chidx begidx keys, Sealed buffer chidx begidx keys plain plen now := by
  obtain ⟨frame, frd', opened, ran⟩ := Draw.bind_ok_iff.mp ran
  obtain ⟨cells, frd'', placed, done⟩ := Draw.bind_ok_iff.mp ran
  obtain ⟨rfl, rfl⟩ := Draw.pure_ok_iff.mp done
  obtain ⟨chidx, begidx, other, laid⟩ := openFrame_laid short opened
  obtain ⟨carries, chunks⟩ := laid.placed other short placed
  exact ⟨chidx, begidx, frame.keys, other, positive, short, carries, chunks⟩

-----------------------------------------------------------------------------------------
-- The decoder reads header and time
-----------------------------------------------------------------------------------------

@[simp] theorem readAt_val (buffer : Buffer) (c : Cell)
    : readAt buffer c.val = some (buffer c) := by
  simp [readAt]

/-- The begin index a buffer names. -/
def begidxOf (buffer : Buffer) : Cell := (buffer begIdx).toFin

/-- The keys found from there. -/
def keysOf (buffer : Buffer) : Keys where
  key1 := buffer (walk (begidxOf buffer) 2)
  key2 := buffer (walk (begidxOf buffer) 6)

/-- The decoder's `ch14`. -/
def joinCh (ch2 ch1 : UInt8) : UInt16 := ch2.toUInt16 ||| ((ch1.toUInt16 <<< 8) &&& 0xff00)

/-- The header read from any buffer, by positions of the walk. -/
theorem readHeader_walk (buffer : Buffer)
    : readHeader buffer
      = some {
          ch14 :=
            joinCh (buffer (walk (begidxOf buffer) 0))
              (buffer (walk (begidxOf buffer) 1) ^^^ (keysOf buffer).key2)
          len := buffer (walk (begidxOf buffer) 4) ^^^ (keysOf buffer).key1
          keys := keysOf buffer
          idx := (walk (begidxOf buffer) 6).val
        } := by
  have begins : (buffer begIdx).toNat = (walk (begidxOf buffer) 0).val := rfl
  simp only [readHeader, Option.bind_eq_bind, readAt_val, Option.bind_some, begins,
    getNextIdx_walk, Nat.reduceAdd]
  rfl

/-- The stamp read from any buffer. -/
theorem readStamp_walk (buffer : Buffer) (keys : Keys) (begidx : Cell) (n : Nat)
    : readStamp buffer keys n (walk begidx 6).val
      = some {
          min := buffer (walk begidx (7 + n)) ^^^ keys.key1
          day := buffer (walk begidx (7 + n + 1)) ^^^ keys.key1
          hour := buffer (walk begidx (7 + n + 2)) ^^^ keys.key2
          sec := buffer (walk begidx (7 + n + 3)) ^^^ keys.key2
        } := by
  have start : 6 + n + 1 = 7 + n := by omega
  simp only [readStamp, Option.bind_eq_bind, getNextIdx_iterate_walk, getNextIdx_walk, start,
    Nat.add_assoc, Nat.reduceAdd, readAt_val, Option.bind_some]

/-- Both bytes of a characteristic make up its table entry again. -/
theorem ch14s_split (chidx : Fin ch14sSz)
    : joinCh (ch14s.get chidx).toUInt8 (ch14s.get chidx >>> 8).toUInt8 = ch14s.get chidx := by
  revert chidx
  decide

theorem ch14s_mem (chidx : Fin ch14sSz) : ch14s.get chidx ∈ ch14s.toList := by
  revert chidx
  decide

/-- A carried message names its begin index and keys. -/
theorem Carries.begidxOf {buffer : Buffer} {chidx : Fin ch14sSz} {begidx : Cell} {keys : Keys}
    {plen : Nat} {now : Tm} (carries : Carries buffer chidx begidx keys plen now)
    : begidxOf buffer = begidx := by
  rw [Klciph.begidxOf, carries.begin_]
  rfl

theorem Carries.keysOf {buffer : Buffer} {chidx : Fin ch14sSz} {begidx : Cell} {keys : Keys}
    {plen : Nat} {now : Tm} (carries : Carries buffer chidx begidx keys plen now)
    : keysOf buffer = keys := by
  rw [Klciph.keysOf, carries.begidxOf, carries.key1, carries.key2]

theorem readHeader_carries {buffer : Buffer} {chidx : Fin ch14sSz} {begidx : Cell}
    {keys : Keys} {plen : Nat} {now : Tm}
    (carries : Carries buffer chidx begidx keys plen now)
    : readHeader buffer
      = some {
          ch14 := ch14s.get chidx
          len := UInt8.ofNat plen
          keys
          idx := (walk begidx 6).val
        } := by
  rw [readHeader_walk, carries.keysOf, carries.begidxOf, carries.ch2, carries.ch1, carries.len]
  simp only [UInt8.xor_assoc, UInt8.xor_self, UInt8.xor_zero, ch14s_split]

/-- The stamp of a message made at `now`. -/
def stampOf (now : Tm) : Stamp where
  min := UInt8.ofNat now.tmMin
  day := UInt8.ofNat now.tmMday
  hour := UInt8.ofNat now.tmHour
  sec := UInt8.ofNat now.tmSec

theorem readStamp_carries {buffer : Buffer} {chidx : Fin ch14sSz} {begidx : Cell}
    {keys : Keys} {plen : Nat} {now : Tm}
    (carries : Carries buffer chidx begidx keys plen now)
    : readStamp buffer keys (idxAmt plen) (walk begidx 6).val = some (stampOf now) := by
  have time0 := carries.time 0 (by simp [timeBytes])
  have time1 := carries.time 1 (by simp [timeBytes])
  have time2 := carries.time 2 (by simp [timeBytes])
  have time3 := carries.time 3 (by simp [timeBytes])
  simp only [timeBytes, List.getElem_cons_zero, List.getElem_cons_succ, Nat.add_zero]
    at time0 time1 time2 time3
  simp only [readStamp_walk, time0, time1, time2, time3, UInt8.xor_assoc, UInt8.xor_self,
    UInt8.xor_zero, stampOf]

/-- Two clock readings the decoder takes for at most six seconds apart. -/
def ClocksFresh (sent now : Tm) : Prop :=
  now.tmMday = sent.tmMday
  ∧ now.tmHour = sent.tmHour
  ∧ (sent.tmMin * 60 + sent.tmSec : Int) ≤ now.tmMin * 60 + now.tmSec
  ∧ (now.tmMin * 60 + now.tmSec : Int) ≤ sent.tmMin * 60 + sent.tmSec + 6

instance (sent now : Tm) : Decidable (ClocksFresh sent now) :=
  inferInstanceAs (Decidable (_ ∧ _ ∧ _ ∧ _))

/-- The narrowing of the clock fields to bytes loses nothing. -/
theorem ofNat_inj_of_lt {a b : Nat} (ha : a < 256) (hb : b < 256)
    : UInt8.ofNat a = UInt8.ofNat b ↔ a = b := by
  refine ⟨fun same => ?_, fun same => same ▸ rfl⟩
  have values := congrArg UInt8.toNat same
  simp only [UInt8.toNat_ofNat'] at values
  omega

theorem stampFresh_stampOf (sent now : Tm)
    : stampFresh (stampOf sent) now = true ↔ ClocksFresh sent now := by
  have sec := sent.sec_le
  have min := sent.min_lt
  have hour := sent.hour_lt
  have mday := sent.mday_le
  have sec' := now.sec_le
  have min' := now.min_lt
  have hour' := now.hour_lt
  have mday' := now.mday_le
  simp only [stampFresh, stampOf, ClocksFresh, Bool.and_eq_true, decide_eq_true_eq,
    ofNat_inj_of_lt (show sent.tmMday < 256 by omega) (show now.tmMday < 256 by omega),
    ofNat_inj_of_lt (show sent.tmHour < 256 by omega) (show now.tmHour < 256 by omega),
    UInt8.toNat_ofNat']
  omega

-----------------------------------------------------------------------------------------
-- The decoder reads the chunks
-----------------------------------------------------------------------------------------

theorem incWhere_ofFin (idx : Cell) : incWhere (UInt8.ofFin idx) = UInt8.ofFin (incIdx idx) := by
  revert idx
  decide +kernel

/-- The four bytes found for a chunk, whatever stands behind a short last one. -/
def chunkBytes (buffer : Buffer) (keys : Keys) (start idx : Cell) : List UInt8 :=
  (List.range 4).map (fun t => buffer (dataCell idx t) ^^^ dataKey keys start)

theorem readChunk_chunkAt {buffer : Buffer} {plain : Mem} {plen : Nat} {keys : Keys} {i : Nat}
    {start idx : Cell} (chunk : ChunkAt buffer plain plen keys i start idx)
    (plainBuf : List UInt8) (room : plainBuf.length + 4 ≤ maxPlainBytes)
    : readChunk buffer keys start.val plainBuf
      = some (plainBuf ++ chunkBytes buffer keys start idx) := by
  have index : (if start.val % 2 = 1 then buffer start ^^^ keys.key1
      else buffer start ^^^ keys.key2) = UInt8.ofFin idx := by
    rw [chunk.1]
    by_cases odd : start.val % 2 = 1 <;>
      simp only [indexKey, isOdd, odd, decide_true, decide_false, if_true, if_false,
        Bool.false_eq_true, UInt8.xor_assoc, UInt8.xor_self, UInt8.xor_zero]
  have key : (if start.val % 2 = 1 then keys.key2 else keys.key1) = dataKey keys start := by
    simp [dataKey, isOdd]
  have cell (c : Cell) : (UInt8.ofFin c).toNat = c.val := rfl
  have push (bytes : List UInt8) (value : UInt8) (h : bytes.length < maxPlainBytes)
      : pushPlain bytes value = some (bytes ++ [value]) := by
    simp [pushPlain, h]
  simp only [readChunk, decide_eq_true_eq, Option.bind_eq_bind, readAt_val, Option.bind_some,
    index, key, cell, incWhere_ofFin]
  rw [push _ _ (by omega), Option.bind_some, push _ _ (by simp; omega), Option.bind_some,
    push _ _ (by simp; omega), Option.bind_some, push _ _ (by simp; omega)]
  simp [chunkBytes, List.range_succ, dataCell]

/-- Passes from `i` on extend a correct prefix of the plaintext to a longer one. -/
theorem readChunks_spec {buffer : Buffer} {plain : Mem} {plen : Nat} {keys : Keys}
    {begidx : Cell} (n i : Nat) (plainBuf : List UInt8) (length : plainBuf.length = 4 * i)
    (room : 4 * (i + n) ≤ maxPlainBytes)
    (chunks
      : ∀ j < i + n, ∃ idx, ChunkAt buffer plain plen keys j (walk begidx (7 + j)) idx)
    (correct : ∀ t (h : t < plainBuf.length), t < plen → plainBuf[t] = plain t)
    : ∃ bytes,
        readChunks buffer keys n (walk begidx (6 + i)).val plainBuf = some bytes
        ∧ bytes.length = 4 * (i + n)
        ∧ ∀ t (h : t < bytes.length), t < plen → bytes[t] = plain t := by
  induction n generalizing i plainBuf with
  | zero => exact ⟨plainBuf, rfl, length, correct⟩
  | succ n ih =>
      obtain ⟨idx, chunk⟩ := chunks i (by omega)
      have read := readChunk_chunkAt chunk plainBuf (by omega)
      have longer : (plainBuf ++ chunkBytes buffer keys (walk begidx (7 + i)) idx).length
          = 4 * (i + 1) := by
        simp [chunkBytes, length]
        omega
      obtain ⟨bytes, later, total, correct'⟩ := ih (i + 1) _ longer (by omega)
        (fun j hj => chunks j (by omega))
        (fun t h ht => by
          rw [List.getElem_append]
          split
          · exact correct t _ ht
          · rename_i past
            have stored := chunk.2 (t - plainBuf.length) (by omega)
            simp only [chunkBytes, List.getElem_map, List.getElem_range, stored,
              UInt8.xor_assoc, UInt8.xor_self, UInt8.xor_zero]
            congr 1
            omega)
      refine ⟨bytes, ?_, by omega, correct'⟩
      have next : 6 + i + 1 = 7 + i := by omega
      rw [show 6 + (i + 1) = 7 + i by omega] at later
      simp only [readChunks, getNextIdx_walk, next, read, Option.bind_eq_bind, Option.bind_some]
      exact later

/-- The decoder accepts a sealed buffer exactly when the clocks and the room allow it,
and then delivers the plaintext.
-/
theorem decBuffer_sealed {buffer : Buffer} {chidx : Fin ch14sSz} {begidx : Cell} {keys : Keys}
    {plain : Mem} {plen : Nat} {sent : Tm}
    (message : Sealed buffer chidx begidx keys plain plen sent) (maxPlen : Int) (now : Tm)
    : ∃ bytes : List UInt8,
        bytes.length = plen
        ∧ (∀ t (h : t < bytes.length), bytes[t] = plain t)
        ∧ decBuffer buffer maxPlen now
          = some (if ClocksFresh sent now ∧ plen ≤ maxPlen then some bytes else none) := by
  have short := message.short
  simp only [maxPlainBytes] at short
  have len : (UInt8.ofNat plen).toNat = plen := by
    simp only [UInt8.toNat_ofNat']
    omega
  have few := idxAmt_le message.short
  obtain ⟨full, read, length, correct⟩ :=
    readChunks_spec (idxAmt plen) 0 [] rfl (by simp only [maxPlainBytes]; omega)
      (fun j hj => message.chunks j (by omega)) (fun t h => absurd h (Nat.not_lt_zero t))
  have k : full.length - (4 - plen % 4) % 4 = plen := by
    rw [length]
    simp only [idxAmt]
    omega
  refine ⟨full.take plen, by rw [List.length_take]; omega, ?_, ?_⟩
  · intro t h
    rw [List.length_take] at h
    rw [List.getElem_take]
    exact correct t (by omega) (by omega)
  · have fits : ¬ plen > maxPlainBytes := by simpa using message.short
    simp only [Nat.add_zero] at read
    simp only [decBuffer, readHeader_carries message.carries, ch14s_mem, len, fits,
      readStamp_carries message.carries, read, k, Option.bind_eq_bind, Option.bind_some,
      not_true_eq_false, if_false, ne_eq, Bool.not_eq_true']
    by_cases fresh : ClocksFresh sent now
    · have accepted := (stampFresh_stampOf sent now).mpr fresh
      by_cases enough : (plen : Int) ≤ maxPlen
      · simp [accepted, fresh, enough, Int.not_lt.mpr enough]
      · simp [accepted, enough, Int.not_le.mp enough]
    · have rejected : stampFresh (stampOf sent) now = false := by
        rw [← Bool.not_eq_true, stampFresh_stampOf]
        exact fresh
      simp [rejected, fresh]

-----------------------------------------------------------------------------------------
-- Both calls together
-----------------------------------------------------------------------------------------

/-- What `memcpy` copies of a buffer to the caller. -/
theorem memcpy_buffer (dst : Mem) (buffer : Buffer) (x : Cell)
    : memcpy dst (fun i => buffer (Fin.ofNat 256 i)) 256 x = buffer x := by
  rw [memcpy_copied x.isLt]
  congr 1
  exact Fin.ext (Nat.mod_eq_of_lt x.isLt)

/-- A successful call wrote out a sealed buffer. -/
theorem clKlciphEnc_sealed {random : Option (List UInt8)} {now : Tm} {plain out : Mem}
    {plen clen : Int}
    (encoded
      : (clKlciphEnc random now (some plain) plen (some out) (some clen)).ret = .succ)
    : ∃ c,
        (clKlciphEnc random now (some plain) plen (some out) (some clen)).cipher = some c
        ∧ 0 ≤ plen
        ∧ ∃ chidx begidx keys,
          Sealed (fun i => c i) chidx begidx keys plain plen.toNat now := by
  unfold clKlciphEnc at encoded ⊢
  dsimp only at encoded ⊢
  split at encoded
  · cases encoded
  · rename_i inRange
    rw [if_neg inRange]
    cases random with
    | none => cases encoded
    | some frd =>
        dsimp only at encoded ⊢
        split at encoded
        · rename_i buffer rest ran
          simp only [maxPlainBytes] at inRange
          obtain ⟨chidx, begidx, keys, message⟩ :=
            encBody_sealed (by omega) (by simp only [maxPlainBytes]; omega) ran
          refine ⟨_, rfl, by omega, chidx, begidx, keys, ?_⟩
          rw [funext (memcpy_buffer out buffer)]
          exact message
        · cases encoded
        · cases encoded

/-- On what a successful call wrote out, the decoder succeeds exactly when clocks and room
allow it, and then delivers the plaintext.
-/
theorem clKlciphDec_sealed {random : Option (List UInt8)} {sent : Tm} {plain out : Mem}
    {plen clen : Int}
    (encoded
      : (clKlciphEnc random sent (some plain) plen (some out) (some clen)).ret = .succ)
    (dst : Mem) (oldLen maxPlen : Int) (now : Tm)
    : ∃ result,
        clKlciphDec
            (clKlciphEnc random sent (some plain) plen (some out) (some clen)).cipher 256
            (some dst) (some oldLen) maxPlen now
          = some result
        ∧ (result.ret = .succ ↔ ClocksFresh sent now ∧ plen ≤ maxPlen)
        ∧ (result.ret = .succ
          → result.plen = some plen
            ∧ ∃ received,
              result.plain = some received ∧ ∀ i : Nat, i < plen → received i = plain i) := by
  obtain ⟨c, written, nonneg, chidx, begidx, keys, message⟩ := clKlciphEnc_sealed encoded
  obtain ⟨bytes, length, correct, decoded⟩ := decBuffer_sealed message maxPlen now
  have same : ((plen.toNat : Nat) : Int) = plen := Int.toNat_of_nonneg nonneg
  rw [same] at decoded
  simp only [clKlciphDec, written, ne_eq, not_true_eq_false, if_false, decoded]
  by_cases accepted : ClocksFresh sent now ∧ plen ≤ maxPlen
  · simp only [if_pos accepted]
    refine ⟨_, rfl, ⟨fun _ => accepted, fun _ => rfl⟩,
      fun _ => ⟨by simp [length, same], _, rfl, ?_⟩⟩
    intro i hi
    have inside : i < bytes.length := by omega
    rw [memcpy_copied inside, List.getD_eq_getElem?_getD, List.getElem?_eq_getElem inside]
    exact correct i inside
  · simp only [if_neg accepted]
    refine ⟨_, rfl, ⟨?_, fun holds => absurd holds accepted⟩, ?_⟩ <;>
      intro failed <;> cases failed

/-- Round trip: whatever the encoder writes, on any random bytes, is accepted exactly when
the clocks are fresh and the destination is large enough, and is then the plaintext.
-/
theorem clKlciphDec_clKlciphEnc (random : Option (List UInt8)) (sent : Tm) (plain out : Mem)
    (plen clen : Int)
    (encoded
      : (clKlciphEnc random sent (some plain) plen (some out) (some clen)).ret = .succ)
    (dst : Mem) (oldLen maxPlen : Int) (now : Tm)
    : ∃ result,
        clKlciphDec
            (clKlciphEnc random sent (some plain) plen (some out) (some clen)).cipher 256
            (some dst) (some oldLen) maxPlen now
          = some result
        ∧ (result.ret = .succ
          ↔ now.tmMday = sent.tmMday
            ∧ now.tmHour = sent.tmHour
            ∧ 0 ≤ (now.tmMin * 60 + now.tmSec : Int) - (sent.tmMin * 60 + sent.tmSec)
            ∧ (now.tmMin * 60 + now.tmSec : Int) - (sent.tmMin * 60 + sent.tmSec) ≤ 6
            ∧ plen ≤ maxPlen)
        ∧ (result.ret = .succ
          → result.plen = some plen
            ∧ ∃ received,
              result.plain = some received ∧ ∀ i : Nat, i < plen → received i = plain i) := by
  obtain ⟨result, ran, accepted, delivered⟩ :=
    clKlciphDec_sealed encoded dst oldLen maxPlen now
  refine ⟨result, ran, accepted.trans ?_, delivered⟩
  simp only [ClocksFresh]
  omega

/-- A two-byte message made at midnight is accepted at once. -/
theorem clKlciphDec_clKlciphEnc_midnight
    : ∃ result,
        clKlciphDec
            (clKlciphEnc (some (0 :: 0 :: (List.replicate 256 0 ++ [128]))) default
              (some (fun _ => 7)) 2 (some (fun _ => 0)) (some 0)).cipher
            256 (some (fun _ => 0)) (some 0) 120 default
          = some result
        ∧ result.ret = .succ := by
  obtain ⟨result, ran, accepted, _⟩ := clKlciphDec_clKlciphEnc
    (some (0 :: 0 :: (List.replicate 256 0 ++ [128]))) default (fun _ => 7) (fun _ => 0) 2 0
    (by decide +kernel) (fun _ => 0) 0 120 default
  exact ⟨result, ran, accepted.mpr (by decide)⟩

end Libccll.Klciph
