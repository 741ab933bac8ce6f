import Mathlib.Algebra.Order.Field.Rat
import Mathlib.Data.Rat.Cast.Order
import Mathlib.Tactic.FieldSimp
import Mathlib.Tactic.Linarith
import Mathlib.Tactic.Positivity
import Libccll.Foundation.Scanning

/-! Rounding to whole numbers, to places of a unit and to doubles: how far it goes, and that it
keeps the order.
-/

namespace Foundation.Printing

variable {n m d k p unit : Nat}

-----------------------------------------------------------------------------------------
-- Whole numbers
-----------------------------------------------------------------------------------------

/-- Half a unit at most is added or taken away. -/
theorem roundHalfEven_near (positive : 0 < d)
    : 2 * (roundHalfEven n d * d) ≤ 2 * n + d ∧ 2 * n ≤ 2 * (roundHalfEven n d * d) + d := by
  have split := Nat.div_add_mod n d
  have less := Nat.mod_lt n positive
  rw [Nat.mul_comm] at split
  rw [roundHalfEven]
  split
  · omega
  · rw [Nat.add_mul]
    omega

theorem roundHalfEven_mono (le : n ≤ m) : roundHalfEven n d ≤ roundHalfEven m d := by
  rcases Nat.lt_or_eq_of_le (Nat.div_le_div_right (c := d) le) with less | same
  · have above : m / d ≤ roundHalfEven m d := by
      rw [roundHalfEven]
      split <;> omega
    exact Nat.le_trans roundHalfEven_le (Nat.le_trans less above)
  · have split := Nat.div_add_mod n d
    have split' := Nat.div_add_mod m d
    have rest : n % d ≤ m % d := by
      rw [same] at split
      omega
    rw [roundHalfEven, roundHalfEven, same]
    split <;> split <;> omega

theorem roundHalfEven_mul (positive : 0 < d) : roundHalfEven (k * d) d = k := by
  rw [roundHalfEven, Nat.mul_mod_left, Nat.mul_div_cancel k positive]
  exact if_pos (Or.inl positive)

/-- A whole number above stays above, and one below stays below. -/
theorem roundHalfEven_le_of_le (positive : 0 < d) (le : n ≤ k * d) : roundHalfEven n d ≤ k :=
  Nat.le_trans (roundHalfEven_mono le) (Nat.le_of_eq (roundHalfEven_mul positive))

theorem le_roundHalfEven_of_le (positive : 0 < d) (le : k * d ≤ n) : k ≤ roundHalfEven n d :=
  Nat.le_trans (Nat.le_of_eq (roundHalfEven_mul positive).symm) (roundHalfEven_mono le)

-----------------------------------------------------------------------------------------
-- Places of a unit
-----------------------------------------------------------------------------------------

/-- A number rounded to so many places of a unit. -/
def rounded (p unit n : Nat) : ℚ := (roundHalfEven (n * 10 ^ p) unit : ℚ) / 10 ^ p * unit

theorem rounded_mono (le : n ≤ m) : rounded p unit n ≤ rounded p unit m := by
  have whole : roundHalfEven (n * 10 ^ p) unit ≤ roundHalfEven (m * 10 ^ p) unit :=
    roundHalfEven_mono (Nat.mul_le_mul_right _ le)
  have whole' : (roundHalfEven (n * 10 ^ p) unit : ℚ) ≤ roundHalfEven (m * 10 ^ p) unit := by
    exact_mod_cast whole
  rw [rounded, rounded]
  gcongr

/-- A number of whole units stays as it is. -/
theorem rounded_of_dvd (positive : 0 < unit) (whole : unit ∣ n) : rounded p unit n = n := by
  obtain ⟨k, rfl⟩ := whole
  rw [rounded, Nat.mul_comm unit, Nat.mul_right_comm, roundHalfEven_mul positive, Nat.cast_mul,
    Nat.cast_mul, Nat.cast_pow, Nat.cast_ofNat, mul_div_cancel_right₀ _ (by positivity)]

/-- Half of the last place is added or taken away at most. -/
theorem rounded_near (positive : 0 < unit) : |rounded p unit n - n| ≤ unit / (2 * 10 ^ p) := by
  obtain ⟨above, below⟩ := roundHalfEven_near (n := n * 10 ^ p) positive
  have above : (2 * (roundHalfEven (n * 10 ^ p) unit * unit) : ℚ) ≤ 2 * (n * 10 ^ p) + unit := by
    exact_mod_cast above
  have below : (2 * (n * 10 ^ p) : ℚ) ≤ 2 * (roundHalfEven (n * 10 ^ p) unit * unit) + unit := by
    exact_mod_cast below
  have scale : (0 : ℚ) < 10 ^ p := by positivity
  have same : rounded p unit n - n
      = (2 * (roundHalfEven (n * 10 ^ p) unit * unit) - 2 * (n * 10 ^ p)) / (2 * 10 ^ p) := by
    rw [rounded]
    field_simp
  rw [same, abs_div, abs_of_pos (show (0 : ℚ) < 2 * 10 ^ p by positivity)]
  gcongr
  rw [abs_le]
  constructor <;> linarith

/-- How wide a number gets that is no more than so many units. -/
theorem length_fixed_of_le (positive : 0 < unit) (le : n ≤ k * unit) (width : Nat)
    (some : 0 < width) (fits : k < 10 ^ width)
    : (fixed p n unit).length ≤ width + if p = 0 then 0 else p + 1 := by
  have rounds : roundHalfEven (n * 10 ^ p) unit ≤ k * 10 ^ p := by
    refine roundHalfEven_le_of_le positive ?_
    rw [Nat.mul_right_comm]
    exact Nat.mul_le_mul_right _ le
  have whole : roundHalfEven (n * 10 ^ p) unit / 10 ^ p < 10 ^ width := by
    refine Nat.lt_of_le_of_lt (Nat.div_le_of_le_mul ?_) fits
    rw [Nat.mul_comm (10 ^ p) k]
    exact rounds
  have front := length_digits_le (by decide) some whole
  rw [fixed, List.length_append]
  split
  · exact front
  · rw [List.length_cons, Decimal.length_pad]
    exact Nat.add_le_add_right front _

-----------------------------------------------------------------------------------------
-- Doubles
-----------------------------------------------------------------------------------------

/-- The unit in the last place of a number with more than 53 bits, between the powers of two
around the number.
-/
theorem unit_bounds (large : 2 ^ 53 ≤ n)
    : 2 ^ n.log2 = 2 ^ 52 * 2 ^ (n.log2 - 52)
      ∧ 2 ^ (n.log2 + 1) = 2 ^ 53 * 2 ^ (n.log2 - 52)
      ∧ 2 ^ n.log2 ≤ n
      ∧ n < 2 ^ (n.log2 + 1) := by
  have positive : n ≠ 0 := by omega
  have bits : 53 ≤ n.log2 := (Nat.le_log2 positive).mpr large
  refine ⟨?_, ?_, Nat.log2_self_le positive, Nat.lt_log2_self⟩
  · rw [← Nat.pow_add]
    congr 1
    omega
  · rw [← Nat.pow_add]
    congr 1
    omega

/-- A double has as many bits as its number, or is the next power of two. -/
theorem double_bounds (large : 2 ^ 53 ≤ n)
    : 2 ^ n.log2 ≤ double n ∧ double n ≤ 2 ^ (n.log2 + 1) := by
  obtain ⟨low, high, above, below⟩ := unit_bounds large
  have unit : 0 < 2 ^ (n.log2 - 52) := Nat.two_pow_pos _
  rw [double, if_neg (Nat.not_lt.mpr large)]
  constructor
  · rw [low] at above ⊢
    exact Nat.mul_le_mul_right _ (le_roundHalfEven_of_le unit above)
  · rw [high] at below ⊢
    exact Nat.mul_le_mul_right _ (roundHalfEven_le_of_le unit (Nat.le_of_lt below))

/-- A number of so many bits is no more than the next power of two as a double. -/
theorem double_le_pow {bits : Nat} (small : n < 2 ^ bits) : double n ≤ 2 ^ bits := by
  rcases Nat.lt_or_ge n (2 ^ 53) with few | large
  · rw [double, if_pos few]
    exact Nat.le_of_lt small
  · have most : n.log2 < bits := (Nat.log2_lt (by omega)).mpr small
    exact Nat.le_trans (double_bounds large).2 (Nat.pow_le_pow_right (by decide) most)

/-- A double is off by one part in 2^53 at most. -/
theorem double_near
    : 2 ^ 53 * double n ≤ 2 ^ 53 * n + n ∧ 2 ^ 53 * n ≤ 2 ^ 53 * double n + n := by
  rcases Nat.lt_or_ge n (2 ^ 53) with small | large
  · rw [double, if_pos small]
    omega
  · obtain ⟨low, _, above, _⟩ := unit_bounds large
    have near := roundHalfEven_near (n := n) (Nat.two_pow_pos (n.log2 - 52))
    rw [double, if_neg (Nat.not_lt.mpr large)]
    rw [low] at above
    omega

theorem double_mono (le : n ≤ m) : double n ≤ double m := by
  rcases Nat.lt_or_ge m (2 ^ 53) with small | large
  · rw [double, double, if_pos small, if_pos (Nat.lt_of_le_of_lt le small)]
    exact le
  · obtain ⟨_, _, below, _⟩ := unit_bounds large
    have low := (double_bounds large).1
    rcases Nat.lt_or_ge n (2 ^ 53) with small' | large'
    · have bits : 53 ≤ m.log2 := (Nat.le_log2 (by omega)).mpr large
      have power : 2 ^ 53 ≤ 2 ^ m.log2 := Nat.pow_le_pow_right (by decide) bits
      rw [double, if_pos small']
      omega
    · have bits : n.log2 ≤ m.log2 :=
        (Nat.le_log2 (by omega)).mpr (Nat.le_trans (unit_bounds large').2.2.1 le)
      rcases Nat.lt_or_eq_of_le bits with fewer | same
      · have power : 2 ^ (n.log2 + 1) ≤ 2 ^ m.log2 := Nat.pow_le_pow_right (by decide) fewer
        exact Nat.le_trans (double_bounds large').2 (Nat.le_trans power low)
      · rw [double, double, if_neg (Nat.not_lt.mpr large), if_neg (Nat.not_lt.mpr large'), same]
        exact Nat.mul_le_mul_right _ (roundHalfEven_mono le)

end Foundation.Printing
