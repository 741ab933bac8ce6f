import Libccll.Foundation.Decimal

/-! Numbers as `printf` prints them. -/

namespace Foundation.Printing

open CString Decimal

/-- A string constant. -/
def text (s : String) : List UInt8 := s.toList.map chr

/-- The digits of a number to a base. -/
def digits (base n : Nat) : List UInt8 := (Nat.toDigits base n).map chr

/-- `%d` and `%ld`. -/
def decimal (v : Int) : List UInt8 :=
  if v < 0 then chr '-' :: digits 10 v.natAbs else digits 10 v.natAbs

/-- `%p`, as the GNU library has it. -/
def pointer (a : Nat) : List UInt8 :=
  if a = 0 then text "(nil)" else text "0x" ++ digits 16 a

/-- The whole number next to a fraction, and the even one of two that are as near. -/
def roundHalfEven (n d : Nat) : Nat :=
  if 2 * (n % d) < d ∨ 2 * (n % d) = d ∧ n / d % 2 = 0 then n / d else n / d + 1

/-- `%f` of a fraction, with so many places behind the point. -/
def fixed (places n d : Nat) : List UInt8 :=
  let r := roundHalfEven (n * 10 ^ places) d
  digits 10 (r / 10 ^ places)
    ++ if places = 0 then [] else chr '.' :: pad places (r % 10 ^ places)

/-- A `size_t` as a `double`, which has 53 bits for it. -/
def double (n : Nat) : Nat :=
  if n < 2 ^ 53 then
    n
  else
    roundHalfEven n (2 ^ (n.log2 - 52)) * 2 ^ (n.log2 - 52)

-----------------------------------------------------------------------------------------
-- Characters
-----------------------------------------------------------------------------------------

variable {base n d : Nat}

theorem digitChar_visible (n : Nat) : chr n.digitChar ≠ 0 := by
  rcases Nat.lt_or_ge n 16 with below | above
  · revert n
    decide
  · have star : n.digitChar = '*' := by
      unfold Nat.digitChar
      iterate 16 rw [if_neg (by omega)]
    rw [star]
    decide

theorem zero_notMem_digits (large : 1 < base) : 0 ∉ digits base n := by
  induction n using Nat.strongRecOn with
  | _ n ih =>
      rcases Nat.lt_or_ge n base with below | above
      · rw [digits, Nat.toDigits_of_lt_base below, List.map_singleton, List.mem_singleton]
        exact (digitChar_visible n).symm
      · have smaller : n / base < n := Nat.div_lt_self (by omega) large
        rw [digits, Nat.toDigits_of_base_le large above, List.map_append, List.map_singleton,
          List.mem_append, List.mem_singleton, not_or]
        exact ⟨ih _ smaller, (digitChar_visible _).symm⟩

theorem zero_notMem_decimal {v : Int} : 0 ∉ decimal v := by
  have visible : 0 ∉ digits 10 v.natAbs := zero_notMem_digits (by decide)
  rw [decimal]
  split
  · exact List.not_mem_cons_of_ne_of_not_mem (by decide) visible
  · exact visible

theorem zero_notMem_pointer {a : Nat} : 0 ∉ pointer a := by
  rw [pointer]
  split
  · decide
  · rw [List.mem_append, not_or]
    exact ⟨by decide, zero_notMem_digits (by decide)⟩

theorem zero_notMem_pad {n v : Nat} : 0 ∉ pad n v := by
  intro member
  have digit := isDigit_iff.mp (isDigit_pad n v 0 member)
  exact absurd digit.1 (by decide)

theorem zero_notMem_fixed {places : Nat} : 0 ∉ fixed places n d := by
  rw [fixed, List.mem_append, not_or]
  refine ⟨zero_notMem_digits (by decide), ?_⟩
  split
  · exact List.not_mem_nil
  · exact List.not_mem_cons_of_ne_of_not_mem (by decide) zero_notMem_pad

-----------------------------------------------------------------------------------------
-- Widths
-----------------------------------------------------------------------------------------

theorem length_digits_le (large : 1 < base) {width : Nat} (positive : 0 < width)
    (small : n < base ^ width)
    : (digits base n).length ≤ width := by
  rw [digits, List.length_map]
  exact (Nat.length_toDigits_le_iff large positive).mpr small

theorem roundHalfEven_le : roundHalfEven n d ≤ n / d + 1 := by
  rw [roundHalfEven]
  split
  · exact Nat.le_succ _
  · exact Nat.le_refl _

/-- Rounding to 53 bits adds less than the number itself. -/
theorem double_le : double n ≤ 2 * n := by
  rw [double]
  split
  · omega
  · rename_i large
    have unit : 2 ^ (n.log2 - 52) ≤ n := by
      refine Nat.le_trans (Nat.pow_le_pow_right (by decide) (Nat.sub_le _ 52)) ?_
      exact Nat.log2_self_le (by omega)
    have floor : n / 2 ^ (n.log2 - 52) * 2 ^ (n.log2 - 52) ≤ n := Nat.div_mul_le_self _ _
    calc roundHalfEven n (2 ^ (n.log2 - 52)) * 2 ^ (n.log2 - 52)
      _ ≤ (n / 2 ^ (n.log2 - 52) + 1) * 2 ^ (n.log2 - 52) :=
        Nat.mul_le_mul_right _ roundHalfEven_le
      _ = n / 2 ^ (n.log2 - 52) * 2 ^ (n.log2 - 52) + 2 ^ (n.log2 - 52) := Nat.succ_mul _ _
      _ ≤ 2 * n := by omega

/-- A number with up to twenty digits in front of the point. -/
theorem length_fixed_le {places : Nat} (small : n + 1 < 10 ^ 20)
    : (fixed places n d).length ≤ 21 + places := by
  have whole : roundHalfEven (n * 10 ^ places) d / 10 ^ places < 10 ^ 20 := by
    refine Nat.lt_of_le_of_lt ?_ small
    refine Nat.div_le_of_le_mul (Nat.le_trans roundHalfEven_le ?_)
    have positive : 1 ≤ 10 ^ places := Nat.one_le_pow _ _ (by decide)
    have below : n * 10 ^ places / d ≤ n * 10 ^ places := Nat.div_le_self _ _
    rw [Nat.mul_add, Nat.mul_one, Nat.mul_comm (10 ^ places) n]
    omega
  have front := length_digits_le (by decide) (by decide : 0 < 20) whole
  rw [fixed, List.length_append]
  split
  · rw [List.length_nil]
    omega
  · rw [List.length_cons, length_pad]
    omega

end Foundation.Printing
