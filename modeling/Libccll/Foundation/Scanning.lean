import Libccll.Foundation.Printing

/-! Numbers that are read from text, and that are read back as they were printed. -/

namespace Foundation.Scanning

open CString Decimal Printing

/-- A digit comes first, behind blanks and a sign. -/
def numeral (s : List UInt8) : Bool :=
  let s := s.dropWhile isSpace
  let s := if s.head? = some (chr '-') ∨ s.head? = some (chr '+') then s.tail else s
  s.head?.any isDigit

/-- `sscanf` with `%ld`: what it stores over `v`, which is kept when there is no number. -/
def sscanfLd (s : List UInt8) (v : Int) : Int := if numeral s = true then strtol s else v

variable {n : Nat} {s rest : List UInt8} {b : UInt8}

theorem isDigit_digitChar {d : Nat} (small : d < 10)
    : isDigit (chr d.digitChar) = true ∧ (chr d.digitChar).toNat - 48 = d := by
  revert d
  decide

theorem isDigit_digits (n : Nat) : ∀ b ∈ digits 10 n, isDigit b = true := by
  induction n using Nat.strongRecOn with
  | _ n ih =>
      intro b member
      rcases Nat.lt_or_ge n 10 with below | above
      · rw [digits, Nat.toDigits_of_lt_base below, List.map_singleton, List.mem_singleton] at member
        rw [member]
        exact (isDigit_digitChar below).1
      · rw [digits, Nat.toDigits_of_base_le (by decide) above, List.map_append,
          List.map_singleton] at member
        rcases List.mem_append.mp member with front | last
        · exact ih (n / 10) (by omega) b front
        · rw [List.mem_singleton.mp last]
          exact (isDigit_digitChar (Nat.mod_lt n (by decide))).1

/-- Digits printed are read back. -/
theorem value_digits (n : Nat) : value (digits 10 n) = n := by
  induction n using Nat.strongRecOn with
  | _ n ih =>
      rcases Nat.lt_or_ge n 10 with below | above
      · rw [digits, Nat.toDigits_of_lt_base below, List.map_singleton, ← List.nil_append [_],
          value_append, (isDigit_digitChar below).2]
        exact Nat.zero_add n
      · have front : value (digits 10 (n / 10)) = n / 10 := ih (n / 10) (by omega)
        rw [digits, Nat.toDigits_of_base_le (by decide) above, List.map_append,
          List.map_singleton, value_append, (isDigit_digitChar (Nat.mod_lt n (by decide))).2]
        rw [digits] at front
        omega

theorem digits_ne_nil : digits 10 n ≠ [] :=
  fun none => Nat.toDigits_ne_nil (List.map_eq_nil_iff.mp none)

/-- An `int` takes eleven characters at most. -/
theorem length_decimal_le {v : Int} (low : -2 ^ 31 ≤ v) (high : v < 2 ^ 31)
    : (decimal v).length ≤ 11 := by
  have short : (digits 10 v.natAbs).length ≤ 10 :=
    length_digits_le (by decide) (by decide) (by omega)
  rw [decimal]
  split
  · exact Nat.succ_le_succ short
  · exact Nat.le_succ_of_le short

/-- A digit is neither a blank nor a sign. -/
theorem plain_of_isDigit (digit : isDigit b = true)
    : isSpace b = false ∧ b ≠ chr '-' ∧ b ≠ chr '+' := by
  obtain ⟨low, -⟩ := isDigit_iff.mp digit
  have other (c : UInt8) (below : c.toNat < 48) : b ≠ c := by
    rintro rfl
    exact Nat.not_lt.mpr low below
  have behind : ¬b ≤ 13 := by
    rw [UInt8.le_iff_toNat_le]
    exact Nat.not_le.mpr (Nat.lt_of_lt_of_le (by decide) low)
  refine ⟨?_, other _ (by decide), other _ (by decide)⟩
  simp [isSpace, other (chr ' ') (by decide), behind]

/-- What is behind blanks, when a digit is. -/
theorem dropWhile_blanks {blanks : List UInt8} (blank : ∀ b ∈ blanks, isSpace b = true)
    (head : ∃ b t, s = b :: t ∧ isDigit b = true)
    : (blanks ++ s).dropWhile isSpace = s := by
  obtain ⟨b, t, rfl, digit⟩ := head
  rw [List.dropWhile_append_of_pos blank, List.dropWhile_cons,
    if_neg (Bool.eq_false_iff.mp (plain_of_isDigit digit).1)]

/-- A number that was printed is read back, whatever is behind it that is not a digit. -/
theorem sscanfLd_digits {blanks : List UInt8} (v : Int) (blank : ∀ b ∈ blanks, isSpace b = true)
    (ends : ∀ b ∈ rest.head?, isDigit b = false)
    : sscanfLd (blanks ++ (digits 10 n ++ rest)) v = saturate n := by
  obtain ⟨b, t, first⟩ := List.exists_cons_of_ne_nil (digits_ne_nil (n := n))
  have digit : isDigit b = true := isDigit_digits n b (by rw [first]; exact List.mem_cons_self)
  obtain ⟨-, minus, plus⟩ := plain_of_isDigit digit
  have behind : (blanks ++ (digits 10 n ++ rest)).dropWhile isSpace = digits 10 n ++ rest :=
    dropWhile_blanks blank ⟨b, t ++ rest, by rw [first]; rfl, digit⟩
  have head : (digits 10 n ++ rest).head? = some b := by
    rw [first]
    rfl
  have unsigned {c : UInt8} (other : b ≠ c) : (digits 10 n ++ rest).head? ≠ some c := by
    rw [head]
    exact fun same => other (Option.some.inj same)
  have stop : rest.takeWhile isDigit = [] := by
    cases rest with
    | nil => rfl
    | cons c rest =>
        rw [List.takeWhile_cons, if_neg (Bool.eq_false_iff.mp (ends c rfl))]
  have whole : (digits 10 n ++ rest).takeWhile isDigit = digits 10 n := by
    rw [List.takeWhile_append_of_pos (isDigit_digits n), stop, List.append_nil]
  have number : numeral (blanks ++ (digits 10 n ++ rest)) = true := by
    simp only [numeral, behind]
    rw [if_neg (not_or.mpr ⟨unsigned minus, unsigned plus⟩), head, Option.any_some, digit]
  rw [sscanfLd, if_pos number, strtol, behind, if_neg (unsigned minus), if_neg (unsigned plus),
    whole, value_digits]

end Foundation.Scanning
