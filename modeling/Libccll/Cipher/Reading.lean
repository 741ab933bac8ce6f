import Libccll.Cipher.Acceptance
import Libccll.Cipher.Robustness

/-! What the decoder makes of a buffer, whoever wrote it.
It checks the cell of the begin index and those of the header and the time, and follows the
index cells. The data cells are only handed on, and no other cell is looked at.
-/

namespace Libccll.Klciph

open Foundation

/-- The length that a buffer names. -/
def lenIn (buffer : Buffer) : Nat :=
  (buffer (walk (begidxOf buffer) 4) ^^^ (keysOf buffer).key1).toNat

/-- The characteristic that a buffer shows. -/
def chIn (buffer : Buffer) : UInt16 :=
  joinCh (buffer (walk (begidxOf buffer) 0))
    (buffer (walk (begidxOf buffer) 1) ^^^ (keysOf buffer).key2)

/-- How far behind the begin index the cells stand that are checked, or lead to others: in the
header, and, unless the length is refused, the index cells and the time.
-/
def frameSteps (buffer : Buffer) : List Nat :=
  [0, 1, 2, 4, 6]
    ++ if lenIn buffer ≤ maxPlainBytes then List.range' 7 (idxAmt (lenIn buffer) + 4) else []

/-- These cells, and that of the begin index. -/
def frameCells (buffer : Buffer) : List Cell :=
  begIdx :: (frameSteps buffer).map (walk (begidxOf buffer))

/-- The cell from which a byte of the plaintext is read. -/
def byteCell (buffer : Buffer) (j : Nat) : Cell :=
  dataCell (positionOf buffer (j / 4)) (j % 4)

/-- The checks of the decoder. -/
def Admits (buffer : Buffer) (maxPlen : Int) (now : Tm) : Prop :=
  chIn buffer ∈ ch14s.toList
  ∧ lenIn buffer ≤ maxPlainBytes
  ∧ stampFresh (stampIn buffer (idxAmt (lenIn buffer))) now = true
  ∧ (lenIn buffer : Int) ≤ maxPlen

instance (buffer : Buffer) (maxPlen : Int) (now : Tm) : Decidable (Admits buffer maxPlen now) :=
  inferInstanceAs (Decidable (_ ∧ _ ∧ _ ∧ _))

/-- The plaintext that a buffer leads to. -/
def bytesIn (buffer : Buffer) : List UInt8 :=
  (List.range (lenIn buffer)).map (plainIn buffer)

-----------------------------------------------------------------------------------------
-- The decoder on any buffer
-----------------------------------------------------------------------------------------

/-- The passes over any buffer. -/
theorem readChunks_plainIn (buffer : Buffer) {plen : Nat} (short : plen ≤ maxPlainBytes)
    : ∃ full,
        readChunks buffer (keysOf buffer) (idxAmt plen) (walk (begidxOf buffer) 6).val []
          = some full
        ∧ full.length = 4 * idxAmt plen
        ∧ full.take plen = (List.range plen).map (plainIn buffer) := by
  have chunks (j : Nat) (_ : j < 0 + idxAmt plen)
      : ∃ idx,
          ChunkAt buffer (plainIn buffer) plen (keysOf buffer) j
            (walk (begidxOf buffer) (7 + j)) idx :=
    ⟨_, chunkAt_plainIn buffer plen j⟩
  obtain ⟨full, read, length, correct⟩ :=
    readChunks_spec (idxAmt plen) 0 [] rfl (by rw [Nat.zero_add]; exact four_idxAmt_le short)
      chunks (fun t h => absurd h (Nat.not_lt_zero t))
  rw [Nat.zero_add] at length
  have within : plen ≤ full.length := by
    rw [length]
    simp only [idxAmt]
    omega
  refine ⟨full, read, length, List.ext_getElem (by simp [within]) fun t h h' => ?_⟩
  rw [List.length_map, List.length_range] at h'
  rw [List.getElem_take, correct t (by omega) h', List.getElem_map, List.getElem_range]

/-- The decoder delivers what a buffer leads to exactly when it admits it. -/
theorem decBuffer_eq (buffer : Buffer) (maxPlen : Int) (now : Tm)
    : decBuffer buffer maxPlen now
      = some (if Admits buffer maxPlen now then some (bytesIn buffer) else none) := by
  simp only [decBuffer, readHeader_walk, readStamp_walk, Option.bind_eq_bind, Option.bind_some]
  change (if chIn buffer ∉ ch14s.toList then _ else if maxPlainBytes < lenIn buffer then _ else
    if (!stampFresh (stampIn buffer (idxAmt (lenIn buffer))) now) = true then _ else _) = _
  split
  · rename_i unlisted
    rw [if_neg fun admits => unlisted admits.1]
    rfl
  · rename_i listed
    split
    · rename_i long
      rw [if_neg fun admits => Nat.not_lt.mpr admits.2.1 long]
      rfl
    · rename_i short
      split
      · rename_i stale
        rw [if_neg fun admits => by simp [admits.2.2.1] at stale]
        rfl
      · rename_i fresh
        obtain ⟨full, read, length, taken⟩ :=
          readChunks_plainIn buffer (Nat.le_of_not_lt short)
        have count : full.length - (4 - lenIn buffer % 4) % 4 = lenIn buffer := by
          rw [length]
          simp only [idxAmt]
          omega
        change (readChunks buffer (keysOf buffer) (idxAmt (lenIn buffer)) _ []).bind _ = _
        rw [read, Option.bind_some]
        change (if full.length - (4 - lenIn buffer % 4) % 4 ≠ lenIn buffer then _ else
          if maxPlen < ((full.length - (4 - lenIn buffer % 4) % 4 : Nat) : Int) then _ else _) = _
        rw [count, if_neg (not_not.mpr rfl)]
        split
        · rename_i narrow
          rw [if_neg fun admits => Int.not_lt.mpr admits.2.2.2 narrow]
          rfl
        · rename_i room
          have admits : Admits buffer maxPlen now :=
            ⟨not_not.mp listed, Nat.le_of_not_lt short, by simpa using fresh,
              Int.not_lt.mp room⟩
          rw [if_pos admits]
          change some (some (full.take (full.length - (4 - lenIn buffer % 4) % 4))) = _
          rw [count, taken]
          rfl

-----------------------------------------------------------------------------------------
-- Buffers with the same frame
-----------------------------------------------------------------------------------------

variable {c d : Buffer}

theorem begIdx_mem_frameCells : begIdx ∈ frameCells c := List.mem_cons_self

theorem walk_mem_frameCells {k : Nat} (step : k ∈ frameSteps c)
    : walk (begidxOf c) k ∈ frameCells c :=
  List.mem_cons_of_mem _ (List.mem_map_of_mem step)

theorem index_mem_frameCells (short : lenIn c ≤ maxPlainBytes) {i : Nat}
    (inside : i < idxAmt (lenIn c) + 4)
    : walk (begidxOf c) (7 + i) ∈ frameCells c := by
  apply walk_mem_frameCells
  rw [frameSteps, if_pos short]
  exact List.mem_append_right _ (List.mem_range'_1.mpr (by omega))

/-- A buffer that agrees with another on its frame is read alike, but for the data cells. -/
theorem same_frame (same : ∀ x ∈ frameCells c, d x = c x)
    : begidxOf d = begidxOf c
      ∧ keysOf d = keysOf c
      ∧ chIn d = chIn c
      ∧ lenIn d = lenIn c
      ∧ (lenIn c ≤ maxPlainBytes
        → stampIn d (idxAmt (lenIn c)) = stampIn c (idxAmt (lenIn c))
          ∧ ∀ i < idxAmt (lenIn c), positionOf d i = positionOf c i) := by
  have header {k : Nat} (listed : k ∈ [0, 1, 2, 4, 6])
      : d (walk (begidxOf c) k) = c (walk (begidxOf c) k) :=
    same _ (walk_mem_frameCells (List.mem_append_left _ listed))
  have later (short : lenIn c ≤ maxPlainBytes) {i : Nat} (inside : i < idxAmt (lenIn c) + 4)
      : d (walk (begidxOf c) (7 + i)) = c (walk (begidxOf c) (7 + i)) :=
    same _ (index_mem_frameCells short inside)
  have begins : begidxOf d = begidxOf c := by
    rw [begidxOf, same begIdx begIdx_mem_frameCells]
    rfl
  have keys : keysOf d = keysOf c := by
    rw [keysOf, begins, header (by decide), header (by decide)]
    rfl
  refine ⟨begins, keys, ?_, ?_, fun short => ⟨?_, fun i inside => ?_⟩⟩
  · rw [chIn, begins, keys, header (by decide), header (by decide)]
    rfl
  · rw [lenIn, begins, keys, header (by decide)]
    rfl
  · rw [stampIn, begins, keys]
    simp only [Nat.add_assoc]
    rw [later short (by omega), later short (by omega), later short (by omega),
      later short (by omega)]
    rfl
  · rw [positionOf, begins, keys]
    change (d _ ^^^ _).toFin = _
    rw [later short (by omega)]
    rfl

/-- The same checks pass, and the bytes differ as their cells do. -/
theorem decBuffer_same_frame (same : ∀ x ∈ frameCells c, d x = c x) (maxPlen : Int) (now : Tm)
    : (Admits d maxPlen now ↔ Admits c maxPlen now)
      ∧ lenIn d = lenIn c
      ∧ (lenIn c ≤ maxPlainBytes
        → ∀ j < lenIn c,
            plainIn c j ^^^ plainIn d j = c (byteCell c j) ^^^ d (byteCell c j)) := by
  obtain ⟨begins, keys, characteristic, length, rest⟩ := same_frame same
  refine ⟨?_, length, fun short j inside => ?_⟩
  · rw [Admits, Admits, characteristic, length]
    refine and_congr_right fun _ => and_congr_right fun short => ?_
    rw [(rest short).1]
  · have positions := (rest short).2
    have chunk : j / 4 < idxAmt (lenIn c) := by
      simp only [idxAmt]
      omega
    rw [plainIn, plainIn, begins, keys, positions _ chunk, byteCell]
    -- both bytes are under the same key
    generalize dataKey (keysOf c) _ = key
    rw [UInt8.xor_assoc, UInt8.xor_comm key, UInt8.xor_assoc, UInt8.xor_self, UInt8.xor_zero]

/-- The frame of any buffer is small. -/
theorem length_frameCells (buffer : Buffer) : (frameCells buffer).length ≤ 40 := by
  simp only [frameCells, frameSteps, List.length_cons, List.length_map, List.length_append,
    List.length_nil]
  split
  · rename_i short
    have few := idxAmt_le short
    rw [List.length_range']
    omega
  · rw [List.length_nil]
    omega

/-- What a call of the decoder returns for any buffer. -/
theorem clKlciphDec_eq (c dst : Mem) (oldLen maxPlen : Int) (now : Tm)
    : clKlciphDec (some c) 256 (some dst) (some oldLen) maxPlen now
      = some
          (if Admits (fun i => c i) maxPlen now then
            {
              ret := .succ
              plain := some (memcpy dst (plainIn fun i => c i) (lenIn fun i => c i))
              plen := some (lenIn fun i => c i)
            }
          else
            { ret := .fail, plain := some dst, plen := some oldLen }) := by
  simp only [clKlciphDec, ne_eq, not_true_eq_false, if_false, decBuffer_eq]
  rcases Classical.em (Admits (fun i => c i) maxPlen now) with admits | rejected
  · have length : (bytesIn fun i => c i).length = lenIn fun i => c i := by simp [bytesIn]
    have copied : memcpy dst (fun i => (bytesIn fun i => c i).getD i 0) (lenIn fun i => c i)
        = memcpy dst (plainIn fun i => c i) (lenIn fun i => c i) := by
      funext i
      rcases Nat.lt_or_ge i (lenIn fun i => c i) with inside | outside
      · rw [memcpy_copied inside, memcpy_copied inside]
        simp [bytesIn, inside]
      · rw [memcpy_kept outside, memcpy_kept outside]
    simp only [if_pos admits, length, copied]
  · simp only [if_neg rejected]

/-- The decoder looks at the frame, of at most forty cells, and at the cells of the bytes. Two
buffers with the same frame are both accepted or both rejected, and what is delivered of them
differs byte by byte as the cells do from which the bytes are read.
-/
theorem clKlciphDec_malleable (c d dst : Mem) (oldLen maxPlen : Int) (now : Tm)
    (same : ∀ x ∈ frameCells fun i => c i, d x = c x)
    : (frameCells fun i => c i).length ≤ 40
      ∧ ∃ one two,
          clKlciphDec (some c) 256 (some dst) (some oldLen) maxPlen now = some one
          ∧ clKlciphDec (some d) 256 (some dst) (some oldLen) maxPlen now = some two
          ∧ one.ret = two.ret
          ∧ one.plen = two.plen
          ∧ (one.ret = .succ
            → ∃ (n : Nat) (p q : Mem),
                one.plen = some (n : Int)
                ∧ one.plain = some p
                ∧ two.plain = some q
                ∧ ∀ j < n,
                    p j ^^^ q j
                    = c (byteCell (fun i => c i) j) ^^^ d (byteCell (fun i => c i) j)) := by
  obtain ⟨admits, length, bytes⟩ :=
    decBuffer_same_frame (c := fun i => c i) (d := fun i => d i) same maxPlen now
  refine ⟨length_frameCells _, _, _, clKlciphDec_eq c dst oldLen maxPlen now,
    clKlciphDec_eq d dst oldLen maxPlen now, ?_⟩
  rcases Classical.em (Admits (fun i => c i) maxPlen now) with here | rejected
  · rw [if_pos here, if_pos (admits.mpr here), length]
    refine ⟨rfl, rfl, fun _ => ⟨_, _, _, rfl, rfl, rfl, ?_⟩⟩
    intro j inside
    rw [memcpy_copied inside, memcpy_copied inside]
    exact bytes here.2.1 j inside
  · rw [if_neg rejected, if_neg fun there => rejected (admits.mp there)]
    exact ⟨rfl, rfl, nofun⟩

/-- `listedTwice` with other bytes in the cell of its first byte and in a cell that is not read.
-/
def tampered : Mem := fun i => if i = 128 then 0x41 else if i = 250 then 9 else listedTwice i

/-- It is accepted as well, with another first byte. -/
theorem clKlciphDec_malleable_tampered
    : ∃ one two,
        clKlciphDec (some listedTwice) 256 (some fun _ => 7) (some 0) 120 default = some one
        ∧ clKlciphDec (some tampered) 256 (some fun _ => 7) (some 0) 120 default = some two
        ∧ one.ret = .succ
        ∧ two.ret = .succ
        ∧ ∃ p q, one.plain = some p ∧ two.plain = some q ∧ p 0 ^^^ q 0 = 0x41 := by
  obtain ⟨_, one, two, ran, ran', ret, _, after⟩ :=
    clKlciphDec_malleable listedTwice tampered (fun _ => 7) 0 120 default (by decide +kernel)
  have accepted : one.ret = .succ := by
    rw [listedTwice_accepted] at ran
    exact Option.some.inj ran ▸ rfl
  obtain ⟨n, p, q, length, plain, plain', bytes⟩ := after accepted
  refine ⟨one, two, ran, ran', accepted, ret ▸ accepted, p, q, plain, plain', ?_⟩
  have positive : 0 < n := by
    rw [listedTwice_accepted] at ran
    obtain rfl := Option.some.inj ran
    have five : (5 : Int) = n := Option.some.inj length
    omega
  rw [bytes 0 positive]
  decide +kernel

end Libccll.Klciph
