import Mathlib.Algebra.Group.Int.Defs
import Mathlib.Algebra.Group.Nat.Defs
import Mathlib.Data.List.Induction
import Libccll.Foundation.CString

/-! Decimal numbers in text: zero-padded printing, and reading as the C library does it. -/

namespace Foundation.Decimal

open CString

def isDigit (b : UInt8) : Bool := chr '0' ≤ b && b ≤ chr '9'

/-- The number that digits stand for. -/
def value (s : List UInt8) : Nat := s.foldl (fun v b => 10 * v + (b.toNat - 48)) 0

/-- Exactly `n` digits, the low ones of a number. -/
def pad : Nat → Nat → List UInt8
  | 0, _ => []
  | n + 1, v => pad n (v / 10) ++ [UInt8.ofNat (48 + v % 10)]

/-- The blanks of the C locale. -/
def isSpace (b : UInt8) : Bool := b = chr ' ' || (9 ≤ b && b ≤ 13)

/-- Reading stops at the largest and the smallest number of 64 bits. -/
def saturate (v : Int) : Int := max (-(2 ^ 63)) (min v (2 ^ 63 - 1))

/-- `strtol` with base 10: blanks, a sign, then digits, with anything behind them ignored. -/
def strtol (s : List UInt8) : Int :=
  let s := s.dropWhile isSpace
  if s.head? = some (chr '-') then
    saturate (-(value (s.tail.takeWhile isDigit) : Int))
  else if s.head? = some (chr '+') then
    saturate (value (s.tail.takeWhile isDigit))
  else
    saturate (value (s.takeWhile isDigit))

/-- `atoi`, which keeps the low 32 bits. -/
def atoi (s : List UInt8) : Int := (strtol s).bmod (2 ^ 32)

theorem value_append (s : List UInt8) (b : UInt8)
    : value (s ++ [b]) = 10 * value s + (b.toNat - 48) := by
  rw [value, List.foldl_append]
  rfl

@[simp] theorem length_pad (n v : Nat) : (pad n v).length = n := by
  induction n generalizing v with
  | zero => rfl
  | succ n ih => rw [pad, List.length_append, ih, List.length_singleton]

theorem isDigit_iff {b : UInt8} : isDigit b = true ↔ 48 ≤ b.toNat ∧ b.toNat ≤ 57 := by
  simp only [isDigit, Bool.and_eq_true, decide_eq_true_eq, UInt8.le_iff_toNat_le]
  rfl

theorem digit_toNat {d : Nat} (small : d < 10) : (UInt8.ofNat (48 + d)).toNat = 48 + d := by
  rw [UInt8.toNat_ofNat']
  omega

theorem isDigit_pad (n v : Nat) : ∀ b ∈ pad n v, isDigit b = true := by
  induction n generalizing v with
  | zero => simp [pad]
  | succ n ih =>
      intro b member
      rcases List.mem_append.mp member with front | last
      · exact ih (v / 10) b front
      · rw [List.mem_singleton.mp last, isDigit_iff, digit_toNat (Nat.mod_lt v (by omega))]
        omega

/-- Digits printed are read back. -/
theorem value_pad {n v : Nat} (fits : v < 10 ^ n) : value (pad n v) = v := by
  induction n generalizing v with
  | zero =>
      rw [Nat.pow_zero] at fits
      obtain rfl : v = 0 := by omega
      rfl
  | succ n ih =>
      rw [Nat.pow_succ] at fits
      rw [pad, value_append, ih (by omega), digit_toNat (Nat.mod_lt v (by omega))]
      omega

theorem value_lt {s : List UInt8} (digits : ∀ b ∈ s, isDigit b = true)
    : value s < 10 ^ s.length := by
  induction s using List.reverseRecOn with
  | nil => exact Nat.one_pos
  | append_singleton s b ih =>
      have front := ih fun c member => digits c (List.mem_append_left _ member)
      have last := isDigit_iff.mp (digits b (by simp))
      rw [value_append, List.length_append, List.length_singleton, Nat.pow_succ]
      omega

/-- Plain digits, not too many of them, are read as the number they stand for. -/
theorem atoi_digits {s : List UInt8} (digits : ∀ b ∈ s, isDigit b = true)
    (short : s.length ≤ 9)
    : atoi s = value s := by
  have small : value s < 10 ^ 9 :=
    Nat.lt_of_lt_of_le (value_lt digits) (Nat.pow_le_pow_right (by omega) short)
  have head {b : UInt8} (member : b ∈ s)
      : isSpace b = false ∧ b ≠ chr '-' ∧ b ≠ chr '+' := by
    obtain ⟨low, high⟩ := isDigit_iff.mp (digits b member)
    have other (c : UInt8) (differ : c.toNat < 48) : b ≠ c := by
      rintro rfl
      omega
    refine ⟨?_, other _ (by decide), other _ (by decide)⟩
    have behind : ¬b ≤ 13 := by
      rw [UInt8.le_iff_toNat_le]
      exact Nat.not_le.mpr (Nat.lt_of_lt_of_le (by decide) low)
    simp [isSpace, other (chr ' ') (by decide), behind]
  have noSpace : s.dropWhile isSpace = s := by
    cases s with
    | nil => rfl
    | cons b s => rw [List.dropWhile_cons, (head List.mem_cons_self).1, if_neg (by simp)]
  have unsigned {c : UInt8} (sign : c = chr '-' ∨ c = chr '+') : s.head? ≠ some c := by
    intro first
    obtain ⟨_, minus, plus⟩ := head (List.mem_of_mem_head? first)
    rcases sign with rfl | rfl
    · exact minus rfl
    · exact plus rfl
  have whole : s.takeWhile isDigit = s := List.takeWhile_eq_self_iff.mpr digits
  rw [atoi, strtol, noSpace, if_neg (unsigned (Or.inl rfl)), if_neg (unsigned (Or.inr rfl)), whole,
    saturate]
  rw [Int.min_eq_left (by omega), Int.max_eq_right (by omega)]
  exact Int.bmod_eq_of_le (by omega) (by omega)

end Foundation.Decimal
