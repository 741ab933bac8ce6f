import Libccll.Comm.Convt
import Libccll.Foundation.Rounding

/-! What `cl_bytes_to_readable_str` tells the reader: the amount that its text stands for, next to
the number of bytes.
-/

namespace Libccll.Convt

open Foundation CString Decimal Printing Scanning

/-- How many bytes a text speaks of: a decimal number, a blank and a unit. -/
def amount (s : List UInt8) : Option ℚ :=
  let number := before (chr ' ') s
  let whole := before (chr '.') number
  let places := number.drop (whole.length + 1)
  (units.idxOf? (s.drop (number.length + 1))).map fun unitIndex =>
    (value whole + value places / 10 ^ places.length) * 1024 ^ unitIndex

/-- The places behind the point. -/
def places (size unitIndex : Nat) : Nat :=
  if unitIndex = 0 then 0
  else if size < 10 * 1024 ^ unitIndex then 2
  else if size < 100 * 1024 ^ unitIndex then 1
  else 0

variable {size size' unitIndex left bytes bytes' n p : Nat}

-----------------------------------------------------------------------------------------
-- The unit
-----------------------------------------------------------------------------------------

/-- The unit is the largest one that the number reaches. -/
theorem unitFrom_reached (size left unitIndex : Nat)
    : unitFrom size left unitIndex = unitIndex ∨ 1024 ^ unitFrom size left unitIndex ≤ size := by
  induction left generalizing unitIndex with
  | zero => exact Or.inl rfl
  | succ left ih =>
      rw [unitFrom]
      split
      · rename_i reached
        rcases ih (unitIndex + 1) with same | further
        · rw [same, Nat.pow_succ, Nat.mul_comm]
          exact Or.inr reached
        · exact Or.inr further
      · exact Or.inl rfl

theorem unitFrom_next (size left unitIndex : Nat)
    : unitFrom size left unitIndex = unitIndex + left
      ∨ size < 1024 * 1024 ^ unitFrom size left unitIndex := by
  induction left generalizing unitIndex with
  | zero => exact Or.inl rfl
  | succ left ih =>
      rw [unitFrom]
      split
      · rw [Nat.add_comm left, ← Nat.add_assoc]
        exact ih (unitIndex + 1)
      · rename_i below
        exact Or.inr (Nat.not_le.mp below)

theorem unitFrom_mono (le : size ≤ size') : unitFrom size 3 0 ≤ unitFrom size' 3 0 := by
  by_contra fewer
  have reached := unitFrom_reached size 3 0
  have next := unitFrom_next size' 3 0
  have most : unitFrom size 3 0 ≤ 0 + 3 := unitFrom_le
  have power : 1024 ^ (unitFrom size' 3 0 + 1) ≤ 1024 ^ unitFrom size 3 0 :=
    Nat.pow_le_pow_right (by decide) (by omega)
  rw [Nat.pow_succ, Nat.mul_comm] at power
  omega

-----------------------------------------------------------------------------------------
-- The text
-----------------------------------------------------------------------------------------

theorem digits_absent {c : UInt8} (other : isDigit c = false) (n : Nat) : c ∉ digits 10 n := by
  intro member
  rw [isDigit_digits n c member] at other
  cases other

theorem pad_absent {c : UInt8} (other : isDigit c = false) (n v : Nat) : c ∉ pad n v := by
  intro member
  rw [isDigit_pad n v c member] at other
  cases other

theorem unit_known (known : unitIndex ≤ 3)
    : units.idxOf? (units.getD unitIndex []) = some unitIndex := by
  revert unitIndex
  decide

/-- A number printed with `%f` speaks of that which it was rounded to. -/
theorem amount_fixed (known : unitIndex ≤ 3)
    : amount (fixed p n (1024 ^ unitIndex) ++ chr ' ' :: units.getD unitIndex [])
      = some (rounded p (1024 ^ unitIndex) n) := by
  have blank : chr ' ' ∉ fixed p n (1024 ^ unitIndex) := by
    rw [fixed, List.mem_append, not_or]
    refine ⟨digits_absent (by decide) _, ?_⟩
    split
    · exact List.not_mem_nil
    · exact List.not_mem_cons_of_ne_of_not_mem (by decide) (pad_absent (by decide) _ _)
  have behind : (fixed p n (1024 ^ unitIndex) ++ chr ' ' :: units.getD unitIndex []).drop
        ((fixed p n (1024 ^ unitIndex)).length + 1)
      = units.getD unitIndex [] := by
    rw [← List.drop_drop, List.drop_left, List.drop_one, List.tail_cons]
  simp only [amount, before_append blank, behind, unit_known known, Option.map_some,
    Option.some_inj]
  rw [rounded, Nat.cast_pow, Nat.cast_ofNat]
  congr 1
  rw [fixed]
  generalize roundHalfEven (n * 10 ^ p) (1024 ^ unitIndex) = r
  have point : chr '.' ∉ digits 10 (r / 10 ^ p) := digits_absent (by decide) _
  rcases Nat.eq_zero_or_pos p with rfl | some
  · have past : (digits 10 (r / 10 ^ 0)).length ≤ (digits 10 (r / 10 ^ 0)).length + 1 :=
      Nat.le_succ _
    rw [if_pos rfl, List.append_nil, before_absent point, List.drop_eq_nil_of_le past,
      value_digits, pow_zero, Nat.div_one]
    simp [value]
  · have number : (digits 10 (r / 10 ^ p) ++ chr '.' :: pad p (r % 10 ^ p)).drop
        ((digits 10 (r / 10 ^ p)).length + 1)
        = pad p (r % 10 ^ p) := by
      rw [← List.drop_drop, List.drop_left, List.drop_one, List.tail_cons]
    have positive : 0 < 10 ^ p := Nat.pow_pos (by decide)
    have split : (r : ℚ) = 10 ^ p * (r / 10 ^ p : Nat) + (r % 10 ^ p : Nat) := by
      exact_mod_cast (Nat.div_add_mod r (10 ^ p)).symm
    rw [if_neg (Nat.ne_of_gt some), before_append point, number, value_digits,
      value_pad (Nat.mod_lt _ positive), length_pad, split]
    field_simp

/-- What is printed, whole bytes too. -/
theorem readable_eq (small : bytes < 2 ^ 64)
    : readable bytes
      = fixed (places (double bytes) (unitFrom (double bytes) 3 0)) (double bytes)
          (1024 ^ unitFrom (double bytes) 3 0)
        ++ chr ' ' :: units.getD (unitFrom (double bytes) 3 0) [] := by
  simp only [readable, places]
  congr 1
  split
  · rename_i unit
    have next := unitFrom_next (double bytes) 3 0
    rw [unit] at next ⊢
    have few : double bytes < 1024 := next.resolve_left (by decide)
    have same : double bytes = bytes := by
      rcases Nat.lt_or_ge bytes (2 ^ 53) with exact' | large
      · exact if_pos exact'
      · have bits : 53 ≤ bytes.log2 := (Nat.le_log2 (by omega)).mpr large
        have power : 2 ^ 53 ≤ 2 ^ bytes.log2 := Nat.pow_le_pow_right (by decide) bits
        have low := (double_bounds large).1
        omega
    rw [same] at few ⊢
    have plain : (bytes : Int).bmod (2 ^ 64) = bytes := Int.bmod_eq_of_le (by omega) (by omega)
    have rounded : roundHalfEven (bytes * 10 ^ 0) (1024 ^ 0) = bytes :=
      roundHalfEven_mul Nat.one_pos
    rw [plain, decimal, if_neg (by omega), fixed, rounded, if_pos rfl, List.append_nil]
    simp
  · split
    · rfl
    · split <;> rfl

-----------------------------------------------------------------------------------------
-- The amount
-----------------------------------------------------------------------------------------

/-- What is shown of a number of bytes. -/
def shown (size : Nat) : ℚ :=
  rounded (places size (unitFrom size 3 0)) (1024 ^ unitFrom size 3 0) size

/-- Between two numbers lies a number of whole units of both, which is shown as it is. -/
theorem shown_le_of_between {k : Nat} (whole : 1024 ^ unitFrom size 3 0 ∣ k)
    (whole' : 1024 ^ unitFrom size' 3 0 ∣ k) (below : size ≤ k) (above : k ≤ size')
    : shown size ≤ shown size' :=
  calc
    shown size
    _ ≤ rounded (places size (unitFrom size 3 0)) (1024 ^ unitFrom size 3 0) k :=
      rounded_mono below
    _ = k := rounded_of_dvd (Nat.pow_pos (by decide)) whole
    _ = rounded (places size' (unitFrom size' 3 0)) (1024 ^ unitFrom size' 3 0) k :=
      (rounded_of_dvd (Nat.pow_pos (by decide)) whole').symm
    _ ≤ shown size' := rounded_mono above

theorem shown_mono (le : size ≤ size') : shown size ≤ shown size' := by
  have reached := unitFrom_reached size' 3 0
  have next := unitFrom_next size 3 0
  have most : unitFrom size' 3 0 ≤ 0 + 3 := unitFrom_le
  rcases Nat.lt_or_eq_of_le (unitFrom_mono le) with fewer | same
  · -- the larger unit once
    have power : 1024 ^ (unitFrom size 3 0 + 1) ≤ 1024 ^ unitFrom size' 3 0 :=
      Nat.pow_le_pow_right (by decide) fewer
    rw [Nat.pow_succ, Nat.mul_comm] at power
    exact shown_le_of_between (Nat.pow_dvd_pow _ (Nat.le_of_lt fewer)) (Nat.dvd_refl _)
      (by omega) (by omega)
  · by_cases alike : places size (unitFrom size 3 0) = places size' (unitFrom size' 3 0)
    · rw [shown, shown, alike, same]
      exact rounded_mono le
    · -- ten or a hundred of the unit, where a place is left out
      have between {c : Nat} (below : size ≤ c * 1024 ^ unitFrom size' 3 0)
          (above : c * 1024 ^ unitFrom size' 3 0 ≤ size')
          : shown size ≤ shown size' :=
        shown_le_of_between (same ▸ Nat.dvd_mul_left _ c) (Nat.dvd_mul_left _ c) below above
      rw [same] at alike
      generalize unitFrom size' 3 0 = unitIndex at alike between
      simp only [places] at alike
      by_cases tens : size < 10 * 1024 ^ unitIndex ∧ 10 * 1024 ^ unitIndex ≤ size'
      · exact between (Nat.le_of_lt tens.1) tens.2
      · by_cases hundreds : size < 100 * 1024 ^ unitIndex ∧ 100 * 1024 ^ unitIndex ≤ size'
        · exact between (Nat.le_of_lt hundreds.1) hundreds.2
        · refine absurd ?_ alike
          split
          · rfl
          · split <;> split <;> (try split) <;> (try split) <;> omega

/-- The places are as many as make three digits. -/
theorem places_three (unit : unitIndex ≠ 0) (reached : 1024 ^ unitIndex ≤ size)
    : 100 * 1024 ^ unitIndex ≤ size * 10 ^ places size unitIndex := by
  rw [places, if_neg unit]
  split
  · omega
  · split <;> omega

/-- Half a percent at most is added or taken away, and half a unit. -/
theorem shown_near (size : Nat)
    : |shown size - size| ≤ size / 200
      ∧ |shown size - size| ≤ ((1024 ^ unitFrom size 3 0 : Nat) : ℚ) / 2 := by
  have near : |shown size - size|
      ≤ (1024 ^ unitFrom size 3 0 : Nat) / (2 * 10 ^ places size (unitFrom size 3 0)) :=
    rounded_near (Nat.pow_pos (by decide))
  rcases Nat.eq_zero_or_pos (unitFrom size 3 0) with bytes | unit
  · have whole : shown size = size := by
      rw [shown, bytes]
      exact rounded_of_dvd Nat.one_pos (Nat.one_dvd _)
    rw [whole, sub_self, abs_zero]
    constructor <;> positivity
  · have reached := unitFrom_reached size 3 0
    have three := places_three (Nat.ne_of_gt unit) (reached.resolve_left (Nat.ne_of_gt unit))
    have three : (100 * (1024 ^ unitFrom size 3 0 : Nat) : ℚ)
        ≤ size * 10 ^ places size (unitFrom size 3 0) := by
      exact_mod_cast three
    have nonneg : (0 : ℚ) ≤ (1024 ^ unitFrom size 3 0 : Nat) := Nat.cast_nonneg _
    generalize ((1024 ^ unitFrom size 3 0 : Nat) : ℚ) = unit at near three nonneg ⊢
    have scale : (1 : ℚ) ≤ 10 ^ places size (unitFrom size 3 0) := one_le_pow₀ (by norm_num)
    generalize (10 : ℚ) ^ places size (unitFrom size 3 0) = scale at near three scale
    constructor
    · refine near.trans ?_
      rw [div_le_div_iff₀ (by positivity) (by norm_num)]
      linarith
    · exact near.trans (div_le_div_of_nonneg_left nonneg (by norm_num) (by linarith))

/-- The bits that a double leaves out do not matter. -/
theorem shown_double_near : |shown (double bytes) - bytes| ≤ bytes / 200 := by
  rcases Nat.lt_or_ge bytes (2 ^ 53) with small | large
  · have same : double bytes = bytes := if_pos small
    rw [same]
    exact (shown_near bytes).1
  · obtain ⟨above, below⟩ := double_near (n := bytes)
    have above : (2 ^ 53 * double bytes : ℚ) ≤ 2 ^ 53 * bytes + bytes := by exact_mod_cast above
    have below : (2 ^ 53 * bytes : ℚ) ≤ 2 ^ 53 * double bytes + bytes := by exact_mod_cast below
    have large : (2 ^ 53 : ℚ) ≤ bytes := by exact_mod_cast large
    have largest : 1024 ^ unitFrom (double bytes) 3 0 ≤ 1024 ^ (0 + 3) :=
      Nat.pow_le_pow_right (by decide) unitFrom_le
    have largest : ((1024 ^ unitFrom (double bytes) 3 0 : Nat) : ℚ) ≤ 1024 ^ 3 := by
      exact_mod_cast largest
    obtain ⟨low, high⟩ := abs_le.mp (shown_near (double bytes)).2
    rw [abs_le]
    constructor <;> linarith

theorem length_unit_le (known : unitIndex ≤ 3) : (units.getD unitIndex []).length ≤ 2 := by
  revert unitIndex
  decide

/-- Fourteen bytes are enough for a `size_t`. -/
theorem readable_length (small : bytes < 2 ^ 64) : (readable bytes).length ≤ 14 := by
  have known : unitFrom (double bytes) 3 0 ≤ 3 := unitFrom_le
  have name := length_unit_le known
  have most : double bytes ≤ 2 ^ 64 := double_le_pow small
  have next := unitFrom_next (double bytes) 3 0
  have positive : 0 < 1024 ^ unitFrom (double bytes) 3 0 := Nat.pow_pos (by decide)
  have number : (fixed (places (double bytes) (unitFrom (double bytes) 3 0)) (double bytes)
      (1024 ^ unitFrom (double bytes) 3 0)).length ≤ 11 := by
    have below : double bytes ≤ 2 ^ 34 * 1024 ^ unitFrom (double bytes) 3 0 := by
      rcases next with largest | below
      · rw [largest]
        exact most
      · omega
    have plain := length_fixed_of_le (p := 0) positive below 11 (by decide) (by decide)
    rw [places]
    split
    · exact plain
    · split
      · rename_i tens
        exact Nat.le_trans (length_fixed_of_le positive (Nat.le_of_lt tens) 2 (by decide)
          (by decide)) (by decide)
      · split
        · rename_i hundreds
          exact Nat.le_trans (length_fixed_of_le positive (Nat.le_of_lt hundreds) 3 (by decide)
            (by decide)) (by decide)
        · exact plain
  rw [readable_eq small, List.length_append, List.length_cons]
  omega

theorem clBytesToReadableStr_shown (small : bytes < 2 ^ 64) {dst : Buffer}
    (room : 15 ≤ dst.length)
    : ∃ str,
        clBytesToReadableStr bytes (some dst) = some (.succ, some str)
        ∧ Holds str 0 (readable bytes)
        ∧ amount (readable bytes) = some (shown (double bytes)) := by
  have short := readable_length small
  obtain ⟨str, stored, _, holds⟩ :=
    fill_terminated dst (readable_short small).2 (by omega)
  refine ⟨str, ?_, holds, ?_⟩
  · rw [clBytesToReadableStr, stored]
    rfl
  · rw [readable_eq small]
    exact amount_fixed unitFrom_le

/-- The text for a number of bytes fits 15 bytes with its terminator, and tells an amount that is
off by half a percent at most and right below a kilobyte; and texts for more bytes tell no less.
-/
theorem sizes_readable (le : bytes ≤ bytes') (sizeT : bytes' < 2 ^ 64) {dst dst' : Buffer}
    (room : 15 ≤ dst.length) (room' : 15 ≤ dst'.length)
    : ∃ str str' s s' a a',
        clBytesToReadableStr bytes (some dst) = some (.succ, some str)
        ∧ clBytesToReadableStr bytes' (some dst') = some (.succ, some str')
        ∧ Holds str 0 s
        ∧ Holds str' 0 s'
        ∧ amount s = some a
        ∧ amount s' = some a'
        ∧ |a - bytes| ≤ bytes / 200
        ∧ (bytes < 1024 → a = bytes)
        ∧ a ≤ a' := by
  obtain ⟨str, written, holds, told⟩ :=
    clBytesToReadableStr_shown (Nat.lt_of_le_of_lt le sizeT) room
  obtain ⟨str', written', holds', told'⟩ := clBytesToReadableStr_shown sizeT room'
  refine ⟨str, str', _, _, _, _, written, written', holds, holds', told, told',
    shown_double_near, fun few => ?_, shown_mono (double_mono le)⟩
  have same : double bytes = bytes := if_pos (by omega)
  have bytes' : unitFrom bytes 3 0 = 0 := by
    rw [unitFrom, if_neg (by omega)]
  rw [same, shown, bytes']
  exact rounded_of_dvd Nat.one_pos (Nat.one_dvd _)

/-- The last kilobytes that are printed as such, and a megabyte. -/
theorem sizes_readable_megabyte
    : ∃ str str' s s' a a',
        clBytesToReadableStr 1048575 (some (List.replicate 15 0)) = some (.succ, some str)
        ∧ clBytesToReadableStr 1048576 (some (List.replicate 15 0)) = some (.succ, some str')
        ∧ Holds str 0 s
        ∧ Holds str' 0 s'
        ∧ amount s = some a
        ∧ amount s' = some a'
        ∧ a ≤ a' := by
  have room : 15 ≤ (List.replicate 15 (0 : UInt8)).length := by decide
  obtain ⟨str, str', s, s', a, a', written, written', holds, holds', told, told', _, _, more⟩ :=
    sizes_readable (show 1048575 ≤ 1048576 by decide) (by decide) room room
  exact ⟨str, str', s, s', a, a', written, written', holds, holds', told, told', more⟩

end Libccll.Convt
