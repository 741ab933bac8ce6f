import Libccll.Cipher.Klciph

/-! What each step of the encoder asks of the random device, as the shape of the bytes it
reads.
-/

namespace Libccll.Klciph

open Foundation

theorem getCharIdx_ok_iff {frd rest : List UInt8} {chidx : Fin ch14sSz}
    : getCharIdx frd = .ok (chidx, rest)
      ↔ ∃ first, frd = first :: rest ∧ chidx = Fin.ofNat ch14sSz first.toNat := by
  unfold getCharIdx
  rw [Draw.bind_ok_iff]
  constructor
  · rintro ⟨first, middle, drawn, last⟩
    obtain ⟨rfl, rfl⟩ := Draw.pure_ok_iff.mp last
    exact ⟨first, Draw.next_ok_iff.mp drawn, rfl⟩
  · rintro ⟨first, rfl, rfl⟩
    exact ⟨first, rest, Draw.next_ok_iff.mpr rfl, Draw.pure_ok_iff.mpr ⟨rfl, rfl⟩⟩

/-- At most 200 bytes 97, then the begin index. -/
theorem getBeginIdx_ok_iff {frd rest : List UInt8} {begidx : Cell}
    : getBeginIdx frd = .ok (begidx, rest)
      ↔ ∃ rejected b,
          frd = rejected ++ b :: rest
          ∧ rejected.length ≤ 200
          ∧ (∀ r ∈ rejected, r.toFin = begIdx)
          ∧ b.toFin ≠ begIdx
          ∧ begidx = b.toFin := by
  unfold getBeginIdx
  rw [Draw.bind_ok_iff]
  constructor
  · rintro ⟨b, middle, drawn, last⟩
    obtain ⟨rfl, rfl⟩ := Draw.pure_ok_iff.mp last
    obtain ⟨rejected, split, few, refusals, accepted⟩ := Draw.retry_ok_iff.mp drawn
    refine ⟨rejected, b, split, few, fun r member => ?_, of_decide_eq_true accepted, rfl⟩
    exact not_not.mp (of_decide_eq_false (refusals r member))
  · rintro ⟨rejected, b, split, few, refusals, accepted, rfl⟩
    refine ⟨b, rest, Draw.retry_ok_iff.mpr ⟨rejected, split, few, fun r member => ?_,
      decide_eq_true accepted⟩, Draw.pure_ok_iff.mpr ⟨rfl, rfl⟩⟩
    exact decide_eq_false (not_not.mpr (refusals r member))

theorem initBuffer_ok_iff {frd rest : List UInt8} {buffer : Buffer}
    : initBuffer frd = .ok (buffer, rest)
      ↔ ∃ fill,
          frd = fill ++ rest ∧ fill.length = 256 ∧ buffer = fun i => fill.getD i.val 0 := by
  unfold initBuffer
  rw [Draw.bind_ok_iff]
  constructor
  · rintro ⟨fill, middle, drawn, last⟩
    obtain ⟨rfl, rfl⟩ := Draw.pure_ok_iff.mp last
    obtain ⟨split, length⟩ := Draw.block_ok_iff.mp drawn
    exact ⟨fill, split, length, rfl⟩
  · rintro ⟨fill, split, length, rfl⟩
    exact ⟨fill, rest, Draw.block_ok_iff.mpr ⟨split, length⟩, Draw.pure_ok_iff.mpr ⟨rfl, rfl⟩⟩

/-- At most 220 bytes that collide, then one that does not. -/
theorem getDataIdx_ok_iff {bucket : Bucket} {frd rest : List UInt8} {idx : Cell}
    : getDataIdx bucket frd = .ok (idx, rest)
      ↔ ∃ rejected b,
          frd = rejected ++ b :: rest
          ∧ rejected.length ≤ 220
          ∧ (∀ r ∈ rejected, fourFree bucket r.toFin = false)
          ∧ fourFree bucket b.toFin = true
          ∧ idx = b.toFin := by
  unfold getDataIdx
  rw [Draw.bind_ok_iff]
  constructor
  · rintro ⟨b, middle, drawn, last⟩
    obtain ⟨rfl, rfl⟩ := Draw.pure_ok_iff.mp last
    obtain ⟨rejected, split, few, refusals, accepted⟩ := Draw.retry_ok_iff.mp drawn
    exact ⟨rejected, b, split, few, refusals, accepted, rfl⟩
  · rintro ⟨rejected, b, split, few, refusals, accepted, rfl⟩
    exact ⟨b, rest, Draw.retry_ok_iff.mpr ⟨rejected, split, few, refusals, accepted⟩,
      Draw.pure_ok_iff.mpr ⟨rfl, rfl⟩⟩

/-- The bytes up to the data loop: characteristic, begin index and the fill of the buffer. -/
structure Opening (frd : List UInt8) (first : UInt8) (b : UInt8) (fill rest : List UInt8)
    : Prop where
  split
    : ∃ rejected,
        frd = first :: (rejected ++ b :: (fill ++ rest))
        ∧ rejected.length ≤ 200
        ∧ ∀ r ∈ rejected, r.toFin = begIdx
  other : b.toFin ≠ begIdx
  length : fill.length = 256

/-- The frame laid on an opening. -/
def frameOn (first b : UInt8) (fill : List UInt8) (plen : Nat) (now : Tm) : Option Frame :=
  layFrame ⟨first.toNat % ch14sSz, Nat.mod_lt _ (by decide)⟩ b.toFin
    (fun i => fill.getD i.val 0) plen now

theorem openFrame_ok_iff {plen : Nat} {now : Tm} {frd rest : List UInt8} {frame : Frame}
    : openFrame plen now frd = .ok (frame, rest)
      ↔ ∃ first b fill,
          Opening frd first b fill rest ∧ frameOn first b fill plen now = some frame := by
  unfold openFrame
  constructor
  · intro ran
    obtain ⟨chidx, frd1, drawn, ran⟩ := Draw.bind_ok_iff.mp ran
    obtain ⟨begidx, frd2, begun, ran⟩ := Draw.bind_ok_iff.mp ran
    obtain ⟨buffer, frd3, filled, ran⟩ := Draw.bind_ok_iff.mp ran
    obtain ⟨laid, rfl⟩ := Draw.ofOption_ok_iff.mp ran
    obtain ⟨first, rfl, rfl⟩ := getCharIdx_ok_iff.mp (Draw.failAs_ok_iff.mp drawn)
    obtain ⟨rejected, b, rfl, few, refusals, other, rfl⟩ :=
      getBeginIdx_ok_iff.mp (Draw.failAs_ok_iff.mp begun)
    obtain ⟨fill, rfl, length, rfl⟩ := initBuffer_ok_iff.mp (Draw.failAs_ok_iff.mp filled)
    exact ⟨first, b, fill, ⟨⟨rejected, rfl, few, refusals⟩, other, length⟩, laid⟩
  · rintro ⟨first, b, fill, ⟨⟨rejected, rfl, few, refusals⟩, other, length⟩, laid⟩
    refine Draw.bind_ok_iff.mpr ⟨_, _, Draw.failAs_ok_iff.mpr
      (getCharIdx_ok_iff.mpr ⟨first, rfl, rfl⟩), ?_⟩
    refine Draw.bind_ok_iff.mpr ⟨_, _, Draw.failAs_ok_iff.mpr
      (getBeginIdx_ok_iff.mpr ⟨rejected, b, rfl, few, refusals, other, rfl⟩), ?_⟩
    refine Draw.bind_ok_iff.mpr ⟨_, _, Draw.failAs_ok_iff.mpr
      (initBuffer_ok_iff.mpr ⟨fill, rfl, length, rfl⟩), ?_⟩
    exact Draw.ofOption_ok_iff.mpr ⟨laid, rfl⟩

end Libccll.Klciph
