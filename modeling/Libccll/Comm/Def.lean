import Mathlib.Data.Nat.Notation

/-! The result type of comm/inc/def.h and caller memory as the library functions see it. -/

namespace Libccll

/-- `FAIL = -1` and `SUCC = 0`. -/
inductive Ret where
  | fail
  | succ
  deriving DecidableEq, Repr

/-- The bytes a caller's pointer leads to, by offset. -/
abbrev Mem := Nat → UInt8

/-- Copy the first `n` bytes of `src` over those of `dst`. -/
def memcpy (dst src : Mem) (n : Nat) : Mem :=
  fun i => if i < n then src i else dst i

@[simp] theorem memcpy_copied {dst src : Mem} {n i : Nat} (h : i < n)
    : memcpy dst src n i = src i := by
  simp [memcpy, h]

@[simp] theorem memcpy_kept {dst src : Mem} {n i : Nat} (h : n ≤ i)
    : memcpy dst src n i = dst i := by
  simp [memcpy, Nat.not_lt.mpr h]

end Libccll
