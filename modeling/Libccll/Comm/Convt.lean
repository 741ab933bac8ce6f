import Libccll.Comm.Def
import Libccll.Foundation.Printing

/-! `comm/convt.c`: a number of bytes as people read it. -/

namespace Libccll.Convt

open Foundation CString Printing

/-- `units` -/
def units : List (List UInt8) := [text "B", text "KB", text "MB", text "GB"]

/-- The loop on `size` and `unit_index`, for the units that are left: `size` is a number of bytes
over a power of 1024.
-/
def unitFrom (size : Nat) : Nat → Nat → Nat
  | 0, unitIndex => unitIndex
  | left + 1, unitIndex =>
      if 1024 * 1024 ^ unitIndex ≤ size then unitFrom size left (unitIndex + 1) else unitIndex

/-- What `cl_bytes_to_readable_str` prints. -/
def readable (bytes : Nat) : List UInt8 :=
  let size := double bytes
  let unitIndex := unitFrom size 3 0
  let scale := 1024 ^ unitIndex
  let number :=
    if unitIndex = 0 then decimal ((bytes : Int).bmod (2 ^ 64))
    else if size < 10 * scale then fixed 2 size scale
    else if size < 100 * scale then fixed 1 size scale
    else fixed 0 size scale
  number ++ chr ' ' :: units.getD unitIndex []

/-- `cl_bytes_to_readable_str`, with a `NULL` pointer as `none`. -/
def clBytesToReadableStr (bytes : Nat) (readableStr : Option Buffer)
    : Option (Ret × Option Buffer) :=
  match readableStr with
  | none => some (.fail, none)
  | some dst => (fill dst (readable bytes ++ [0])).map fun dst => (.succ, some dst)

theorem unitFrom_le {size left unitIndex : Nat}
    : unitFrom size left unitIndex ≤ unitIndex + left := by
  induction left generalizing unitIndex with
  | zero => exact Nat.le_refl _
  | succ left ih =>
      rw [unitFrom]
      split
      · have further : unitFrom size left (unitIndex + 1) ≤ unitIndex + 1 + left := ih
        omega
      · omega

/-- A `size_t` takes 29 bytes at most, and has no NUL among them. -/
theorem readable_short {bytes : Nat} (small : bytes < 2 ^ 64)
    : (readable bytes).length ≤ 29 ∧ 0 ∉ readable bytes := by
  have doubled : double bytes + 1 < 10 ^ 20 := by
    have bound : double bytes ≤ 2 * bytes := double_le
    have room : 2 * 2 ^ 64 + 1 < 10 ^ 20 := by decide
    omega
  have unit : (units.getD (unitFrom (double bytes) 3 0) []).length ≤ 2
      ∧ 0 ∉ units.getD (unitFrom (double bytes) 3 0) [] := by
    have index : unitFrom (double bytes) 3 0 ≤ 3 := unitFrom_le
    generalize unitFrom (double bytes) 3 0 = unitIndex at index ⊢
    revert unitIndex
    decide
  have plain : (decimal ((bytes : Int).bmod (2 ^ 64))).length ≤ 21 := by
    have magnitude : ((bytes : Int).bmod (2 ^ 64)).natAbs < 10 ^ 20 := by
      have low := Int.le_bmod (x := bytes) (m := 2 ^ 64) (by decide)
      have high := Int.bmod_lt (x := bytes) (m := 2 ^ 64) (by decide)
      omega
    have width := length_digits_le (by decide) (by decide : 0 < 20) magnitude
    rw [decimal]
    split
    · rw [List.length_cons]
      omega
    · omega
  have number
      : ∀ places, (fixed places (double bytes) (1024 ^ unitFrom (double bytes) 3 0)).length
          ≤ 21 + places :=
    fun places => length_fixed_le doubled
  simp only [readable, List.length_append, List.length_cons, List.mem_append, List.mem_cons, not_or]
  refine ⟨?_, ?_, by decide, unit.2⟩
  · split
    · omega
    · split
      · have width := number 2
        omega
      · split
        · have width := number 1
          omega
        · have width := number 0
          omega
  · split
    · exact zero_notMem_decimal
    · split
      · exact zero_notMem_fixed
      · split <;> exact zero_notMem_fixed

end Libccll.Convt
