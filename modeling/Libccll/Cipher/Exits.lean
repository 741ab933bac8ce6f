import Mathlib.Data.Set.Lattice
import Mathlib.Order.CompletePartialOrder
import Libccll.Cipher.RoundTrip

/-! The ways out of the encoder.
Whatever way a call takes, a failed one leaves the caller's memory alone. The random device
is closed on all ways but one: the data loop, where a draw that fails returns in place.
-/

namespace Libccll.Klciph

open Foundation

-----------------------------------------------------------------------------------------
-- Random bytes that complete a message
-----------------------------------------------------------------------------------------

/-- The cells of begin index, header, index and time around `begidx`. -/
def headerCells (begidx : Cell) (n : Nat) : Set Cell :=
  {x | x = begIdx ∨ ∃ k < 11 + n, x = walk begidx k}

/-- The four cells from a position on. -/
def fourCells (idx : Cell) : Set Cell := {x | ∃ t < 4, x = dataCell idx t}

/-- The bytes place `n` chunks apart from each other and from `used`: each position comes
after at most 220 bytes that collide.
-/
def Placeable (used : Set Cell) : Nat → List UInt8 → Prop
  | 0, _ => True
  | n + 1, frd =>
      ∃ rejected b rest,
        frd = rejected ++ b :: rest
        ∧ rejected.length ≤ 220
        ∧ (∀ r ∈ rejected, ¬Disjoint (fourCells r.toFin) used)
        ∧ Disjoint (fourCells b.toFin) used
        ∧ Placeable (used ∪ fourCells b.toFin) n rest

/-- Bytes that open a message of `plen` bytes also place its chunks. -/
def Completes (plen : Nat) (frd : List UInt8) : Prop :=
  ∀ first b fill rest,
    Opening frd first b fill rest
    → Placeable (headerCells b.toFin (idxAmt plen)) (idxAmt plen) rest

-----------------------------------------------------------------------------------------
-- The data loop
-----------------------------------------------------------------------------------------

/-- The used cells of `bucket`. -/
def Marks (bucket : Bucket) (used : Set Cell) : Prop := ∀ x, bucket x = true ↔ x ∈ used

theorem Marks.fourFree_iff {bucket : Bucket} {used : Set Cell} (marks : Marks bucket used)
    (idx : Cell)
    : fourFree bucket idx = true ↔ Disjoint (fourCells idx) used := by
  rw [Klciph.fourFree_iff, Set.disjoint_left]
  constructor
  · rintro free x ⟨t, ht, rfl⟩ member
    have marked := (marks _).mpr member
    rw [free t ht] at marked
    cases marked
  · intro apart t ht
    rw [← Bool.not_eq_true, marks]
    exact apart ⟨t, ht, rfl⟩

/-- A pass over a full chunk marks its four cells. -/
theorem ChunkPut.marks {plain : Mem} {plen : Nat} {keys : Keys} {i : Nat} {start idx : Cell}
    {before after : Cells} {used : Set Cell}
    (put : ChunkPut plain plen keys i start idx before after) (marks : Marks before.bucket used)
    (full : 4 * (i + 1) ≤ plen)
    : Marks after.bucket (used ∪ fourCells idx) := by
  have four : min 4 (plen - 4 * i) = 4 := by omega
  intro x
  rw [put.used, four, marks, Set.mem_union]
  rfl

/-- The passes left succeed exactly on bytes that place their chunks, by induction on the
index cells. Only the last chunk may be short, and nothing is placed after it.
-/
theorem putChunks_ok_iff (plain : Mem) {plen : Nat} (keys : Keys) (arr1 : List Cell) (i : Nat)
    (used : Set Cell) (cells : Cells) (frd : List UInt8) (marks : Marks cells.bucket used)
    (reserved : ∀ start ∈ arr1, start ∈ used) (left : i + arr1.length = idxAmt plen)
    : (∃ result, putChunks plain plen keys i arr1 cells frd = .ok result)
      ↔ Placeable used arr1.length frd := by
  induction arr1 generalizing i used cells frd with
  | nil => exact ⟨fun _ => trivial, fun _ => ⟨_, rfl⟩⟩
  | cons start arr1 ih =>
      simp only [List.length_cons, idxAmt] at left
      have marked : cells.bucket start = true :=
        (marks start).mpr (reserved start List.mem_cons_self)
      -- what the later passes start from, once this one has drawn `idx`
      have later {idx : Cell} {cells' : Cells} {rest : List UInt8}
          (put : ChunkPut plain plen keys i start idx cells cells')
          : (∃ result, putChunks plain plen keys (i + 1) arr1 cells' rest = .ok result)
            ↔ Placeable (used ∪ fourCells idx) arr1.length rest := by
        cases arr1 with
        | nil => exact ⟨fun _ => trivial, fun _ => ⟨_, rfl⟩⟩
        | cons start' arr1 =>
            refine ih (i + 1) _ cells' rest (put.marks marks ?_)
              (fun next member => Or.inl (reserved next (List.mem_cons_of_mem _ member))) ?_
            · simp only [List.length_cons] at left
              omega
            · simp only [idxAmt]
              omega
      constructor
      · rintro ⟨⟨final, rest'⟩, ran⟩
        obtain ⟨cells', rest, one, more⟩ := Draw.bind_ok_iff.mp ran
        obtain ⟨idx, drawn, put⟩ := putChunk_spec marked (by omega) one
        obtain ⟨rejected, b, rfl, few, refusals, free, rfl⟩ := getDataIdx_ok_iff.mp drawn
        refine ⟨rejected, b, rest, rfl, few, fun r member apart => ?_,
          (marks.fourFree_iff _).mp free, (later put).mp ⟨_, more⟩⟩
        have accepted := (marks.fourFree_iff _).mpr apart
        rw [refusals r member] at accepted
        cases accepted
      · rintro ⟨rejected, b, rest, rfl, few, refusals, apart, placed⟩
        have drawn : getDataIdx cells.bucket (rejected ++ b :: rest) = .ok (b.toFin, rest) :=
          getDataIdx_ok_iff.mpr ⟨rejected, b, rfl, few,
            fun r member => Bool.eq_false_iff.mpr fun free =>
              refusals r member ((marks.fourFree_iff _).mp free),
            (marks.fourFree_iff _).mpr apart, rfl⟩
        have one : putChunk plain plen keys i start cells (rejected ++ b :: rest) = .ok (_, rest) :=
          putChunk_ok_iff.mpr ⟨_, drawn, rfl⟩
        obtain ⟨idx, drawn', put⟩ := putChunk_spec marked (show 4 * i < plen by omega) one
        obtain rfl : b.toFin = idx := by
          rw [drawn] at drawn'
          injection drawn' with same
          exact congrArg Prod.fst same
        obtain ⟨result, more⟩ := (later put).mpr placed
        exact ⟨result, Draw.bind_ok_iff.mpr ⟨_, rest, one, more⟩⟩

-----------------------------------------------------------------------------------------
-- Which way a failure takes
-----------------------------------------------------------------------------------------

/-- Before the data loop a failure closes the device. -/
theorem openFrame_error {plen : Nat} {now : Tm} {frd : List UInt8} {exit : Exit}
    (short : plen ≤ maxPlainBytes) (failed : openFrame plen now frd = .error exit)
    : exit = .errOcrRet4633 := by
  rcases Draw.bind_error_iff.mp failed with failed | ⟨chidx, frd1, _, failed⟩
  · exact Draw.failAs_error failed
  · rcases Draw.bind_error_iff.mp failed with failed | ⟨begidx, frd2, begun, failed⟩
    · exact Draw.failAs_error failed
    · rcases Draw.bind_error_iff.mp failed with failed | ⟨buffer, frd3, _, failed⟩
      · exact Draw.failAs_error failed
      · -- the searches for free cells find one
        obtain ⟨_, _, _, _, _, other, rfl⟩ :=
          getBeginIdx_ok_iff.mp (Draw.failAs_ok_iff.mp begun)
        obtain ⟨frame, laid, _⟩ := layFrame_laid other short chidx buffer now
        rw [laid] at failed
        cases Draw.ofOption_error failed

/-- In the data loop a failure returns in place. -/
theorem putChunks_error {plain : Mem} {plen : Nat} {keys : Keys} (arr1 : List Cell) (i : Nat)
    (cells : Cells) (frd : List UInt8) {exit : Exit}
    (failed : putChunks plain plen keys i arr1 cells frd = .error exit)
    : exit = .returnFail := by
  induction arr1 generalizing i cells frd with
  | nil => cases failed
  | cons start arr1 ih =>
      rcases Draw.bind_error_iff.mp failed with failed | ⟨cells', rest, _, failed⟩
      · rcases Draw.bind_error_iff.mp failed with failed | ⟨idx, frd', _, failed⟩
        · exact Draw.failAs_error failed
        · cases failed
      · exact ih (i + 1) cells' rest failed

/-- The device stays open exactly when the frame could be laid and a chunk not be placed. -/
theorem encBody_returnFail_iff (plain : Mem) {plen : Nat} (short : plen ≤ maxPlainBytes)
    (now : Tm) (frd : List UInt8)
    : encBody plain plen now frd = .error .returnFail ↔ ¬Completes plen frd := by
  have loop {first b : UInt8} {fill rest : List UInt8} {frame : Frame}
      (opening : Opening frd first b fill rest)
      (started : frameOn first b fill plen now = some frame)
      : (∃ result, putChunks plain plen frame.keys 0 frame.arr1 frame.cells rest = .ok result)
        ↔ Placeable (headerCells b.toFin (idxAmt plen)) (idxAmt plen) rest := by
    obtain ⟨frame', started', laid⟩ := opening.laid short now
    obtain rfl : frame' = frame := Option.some.inj (started'.symm.trans started)
    have placing := putChunks_ok_iff plain frame'.keys frame'.arr1 0
      (headerCells b.toFin (idxAmt plen)) frame'.cells rest laid.taken
      (fun start member => (laid.taken start).mp (laid.reserved start member))
      (by rw [laid.length_arr1, Nat.zero_add])
    rwa [laid.length_arr1] at placing
  constructor
  · intro failed complete
    rcases Draw.bind_error_iff.mp failed with failed | ⟨frame, rest, opened, failed⟩
    · cases openFrame_error short failed
    · obtain ⟨first, b, fill, opening, started⟩ := openFrame_ok_iff.mp opened
      obtain ⟨result, ran⟩ := (loop opening started).mpr (complete first b fill rest opening)
      rcases Draw.bind_error_iff.mp failed with failed | ⟨cells, rest', _, failed⟩
      · rw [ran] at failed
        cases failed
      · cases failed
  · intro incomplete
    simp only [Completes, not_forall] at incomplete
    obtain ⟨first, b, fill, rest, opening, stuck⟩ := incomplete
    obtain ⟨frame, started, _⟩ := opening.laid short now
    refine Draw.bind_error_iff.mpr (Or.inr ⟨frame, rest,
      openFrame_ok_iff.mpr ⟨first, b, fill, opening, started⟩, ?_⟩)
    refine Draw.bind_error_iff.mpr (Or.inl ?_)
    cases ran : putChunks plain plen frame.keys 0 frame.arr1 frame.cells rest with
    | ok result => exact absurd ((loop opening started).mp ⟨result, ran⟩) stuck
    | error exit => rw [putChunks_error _ _ _ _ ran]

-----------------------------------------------------------------------------------------
-- The whole call
-----------------------------------------------------------------------------------------

/-- A call that left nothing behind: what it opened it closed, at most once, and a failure
changed none of the caller's memory.
-/
def EncOut.Clean (out : EncOut) (cipher : Option Mem) (clen : Option Int) : Prop :=
  out.opened ≤ 1
  ∧ out.closed = out.opened
  ∧ (out.ret = .fail → out.cipher = cipher ∧ out.clen = clen)

/-- A call leaves something behind exactly when it gets to place chunks and the random bytes
do not place them all.
-/
theorem clKlciphEnc_clean_iff (random : Option (List UInt8)) (now : Tm) (plain : Option Mem)
    (plen : Int) (cipher : Option Mem) (clen : Option Int)
    : (clKlciphEnc random now plain plen cipher clen).Clean cipher clen
      ↔ ∀ frd,
          random = some frd
          → plain ≠ none
          → cipher ≠ none
          → clen ≠ none
          → 1 ≤ plen
          → plen ≤ 120
          → Completes plen.toNat frd := by
  have refused : ({ ret := .fail, cipher, clen, opened := 0, closed := 0 } : EncOut).Clean
      cipher clen :=
    ⟨Nat.zero_le 1, rfl, fun _ => ⟨rfl, rfl⟩⟩
  unfold clKlciphEnc
  split
  · rename_i plain out count
    simp only [ne_eq, reduceCtorEq, not_false_eq_true, forall_const]
    split
    · rename_i outside
      simp only [maxPlainBytes] at outside
      exact ⟨fun _ frd _ low high => absurd outside (by omega), fun _ => refused⟩
    · rename_i inside
      simp only [maxPlainBytes] at inside
      cases random with
      | none => exact ⟨fun _ frd absent => (by cases absent), fun _ => refused⟩
      | some frd =>
          have short : plen.toNat ≤ maxPlainBytes := by
            simp only [maxPlainBytes]
            omega
          have leaks := encBody_returnFail_iff plain short now frd
          have complete : (∀ frd', some frd = some frd' → 1 ≤ plen → plen ≤ 120
              → Completes plen.toNat frd') ↔ Completes plen.toNat frd :=
            ⟨fun all => all frd rfl (by omega) (by omega),
              fun one frd' same _ _ => Option.some.inj same ▸ one⟩
          rw [complete]
          dsimp only
          split
          · rename_i buffer rest ran
            refine ⟨fun _ => ?_, fun _ => ⟨Nat.le_refl 1, rfl, fun failed => by cases failed⟩⟩
            by_contra incomplete
            rw [leaks.mpr incomplete] at ran
            cases ran
          · rename_i ran
            refine ⟨fun _ => ?_, fun _ => ⟨Nat.le_refl 1, rfl, fun _ => ⟨rfl, rfl⟩⟩⟩
            by_contra incomplete
            rw [leaks.mpr incomplete] at ran
            cases ran
          · rename_i ran
            refine ⟨fun clean => ?_, fun one => absurd one (leaks.mp ran)⟩
            obtain ⟨_, closed, _⟩ := clean
            cases closed
  · rename_i missing
    refine ⟨fun _ frd _ plain' cipher' clen' => ?_, fun _ => refused⟩
    obtain ⟨p, rfl⟩ := Option.ne_none_iff_exists'.mp plain'
    obtain ⟨c, rfl⟩ := Option.ne_none_iff_exists'.mp cipher'
    obtain ⟨n, rfl⟩ := Option.ne_none_iff_exists'.mp clen'
    exact absurd rfl (missing p c n rfl rfl)

/-- On a device that delivers zeros, every position collides with the header. -/
theorem clKlciphEnc_zeros_leak
    : ¬∀ (random : Option (List UInt8)) (now : Tm) (plain : Option Mem) (plen : Int)
        (cipher : Option Mem) (clen : Option Int),
        (clKlciphEnc random now plain plen cipher clen).Clean cipher clen := by
  intro clean
  obtain ⟨_, closed, _⟩ := clean (some (List.replicate 500 0)) default (some (fun _ => 7)) 1
    (some (fun _ => 0)) (some 0)
  revert closed
  decide +kernel

end Libccll.Klciph
