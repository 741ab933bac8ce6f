import Libccll.Comm.Dates

/-! Instants written as text and read back.
The text of an instant is in the expected format and is read field by field. What is lost is
whether daylight saving was in effect: the fields are taken for standard time.
-/

namespace Libccll.Times

open Foundation CString Decimal LocalTime

/-- The fields that `strftime` prints. -/
def fieldsOf (tm : Tm) : Fields where
  year := pad 4 (1900 + tm.tmYear).toNat
  month := pad 2 (tm.tmMon + 1).toNat
  day := pad 2 tm.tmMday.toNat
  hour := pad 2 tm.tmHour.toNat
  minute := pad 2 tm.tmMin.toNat
  second := pad 2 tm.tmSec.toNat

theorem digits_pad (n v : Nat) : Digits n (pad n v) := ⟨length_pad n v, isDigit_pad n v⟩

theorem fieldsOf_precise (tm : Tm) : (fieldsOf tm).Exact where
  year := digits_pad 4 _
  month := digits_pad 2 _
  day := digits_pad 2 _
  hour := digits_pad 2 _
  minute := digits_pad 2 _
  second := digits_pad 2 _

theorem atoi_pad {n : Nat} {v : Int} (short : n ≤ 9) (nonneg : 0 ≤ v) (fits : v < 10 ^ n)
    : atoi (pad n v.toNat) = v := by
  have fits' : v.toNat < 10 ^ n := by
    rw [← Int.toNat_of_nonneg nonneg] at fits
    exact_mod_cast fits
  rw [(digits_pad n v.toNat).atoi short, value_pad fits', Int.toNat_of_nonneg nonneg]

/-- The years that the parser takes. -/
def InYears (tm : Tm) : Prop := 1970 ≤ 1900 + tm.tmYear ∧ 1900 + tm.tmYear ≤ 2099

instance (tm : Tm) : Decidable (InYears tm) := inferInstanceAs (Decidable (_ ∧ _))

/-- A printed date is read back, as standard time. -/
theorem parse_text {tm : Tm} (ranged : tm.Ranged) (years : InYears tm)
    : tm.text = some (fieldsOf tm).text
      ∧ parse (fieldsOf tm).text = some { tm with tmIsdst := 0 } := by
  obtain ⟨first, last⟩ := years
  have year := atoi_pad (n := 4) (v := 1900 + tm.tmYear) (by decide) (by omega) (by omega)
  have month := atoi_pad (n := 2) (v := tm.tmMon + 1) (by decide)
    (by have := ranged.mon; omega) (by have := ranged.mon; omega)
  have day := atoi_pad (n := 2) (v := tm.tmMday) (by decide)
    (by have := ranged.mday; omega) (by have := ranged.mday; omega)
  have hour := atoi_pad (n := 2) (v := tm.tmHour) (by decide) ranged.hour.1
    (by have := ranged.hour; omega)
  have minute := atoi_pad (n := 2) (v := tm.tmMin) (by decide) ranged.min.1
    (by have := ranged.min; omega)
  have second := atoi_pad (n := 2) (v := tm.tmSec) (by decide) ranged.sec.1
    (by have := ranged.sec; omega)
  refine ⟨if_pos (by omega), parse_some_iff.mpr ⟨(fieldsOf_precise tm).length, fieldsOf tm, rfl,
    (fieldsOf_precise tm).cut, ⟨?_, ?_, ?_, ?_, ?_, ?_⟩, ?_⟩⟩
  · rw [fieldsOf, year]
    exact ⟨first, last⟩
  · rw [fieldsOf, month]
    have := ranged.mon
    omega
  · rw [fieldsOf, day]
    exact ranged.mday
  · rw [fieldsOf, hour]
    exact ranged.hour
  · rw [fieldsOf, minute]
    exact ranged.min
  · rw [fieldsOf, second]
    exact ranged.sec
  · rw [Fields.tm, fieldsOf, year, month, day, hour, minute, second, Int.add_sub_cancel,
      Int.add_comm 1900, Int.add_sub_cancel]

/-- The text of an instant fits `time_str` and holds its fields. -/
theorem clTimeSec2date1_holds (zone : Zone) {s : Int} (nonneg : 0 ≤ s)
    (years : InYears (localtime zone s)) {dst : Buffer} (room : 20 ≤ dst.length)
    : ∃ str,
        clTimeSec2date1 zone s (some dst) = some (some str)
        ∧ Holds str 0 (fieldsOf (localtime zone s)).text := by
  obtain ⟨text, _⟩ := parse_text (localtime_ranged zone s) years
  have precise := fieldsOf_precise (localtime zone s)
  have noNul : 0 ∉ (fieldsOf (localtime zone s)).text := by
    simp only [Fields.text, List.mem_append, List.mem_cons, not_or]
    exact ⟨precise.year.not_mem rfl, by decide, precise.month.not_mem rfl, by decide,
      precise.day.not_mem rfl, by decide, precise.hour.not_mem rfl, by decide,
      precise.minute.not_mem rfl, by decide, precise.second.not_mem rfl⟩
  obtain ⟨str, stored, _, holds⟩ :=
    fill_terminated dst noNul (by rw [precise.length]; omega)
  refine ⟨str, ?_, holds⟩
  simp only [clTimeSec2date1, if_neg (Int.not_lt.mpr nonneg), text, Option.bind_some, stored,
    Option.map_some]

/-- The fields of an instant are read as standard time. -/
theorem mktime_standard (zone : Zone) (s : Int)
    : mktime zone { localtime zone s with tmIsdst := 0 }
      = s + if zone.isDst s then zone.save else 0 := by
  have clock : ({ localtime zone s with tmIsdst := 0 } : Tm).clock = s + zone.offset s :=
    clock_localtime zone s
  rw [mktime, if_pos rfl, clock, Zone.offset]
  omega

/-- Another instant has the same local time string. -/
def DenotesTwo (zone : Zone) (s : Int) : Prop :=
  ∃ s', s' ≠ s ∧ (localtime zone s').SameReading (localtime zone s)

/-- An instant comes back from its text, if that names no other one, exactly when it is one of
standard time.
-/
theorem clTimeDate2sec1_clTimeSec2date1_iff (zone : Zone) (s : Int) (nonneg : 0 ≤ s)
    (years : InYears (localtime zone s)) (dst : Buffer) (room : 20 ≤ dst.length) (output : Int)
    : ∃ str out,
        clTimeSec2date1 zone s (some dst) = some (some str)
        ∧ clTimeDate2sec1 (mktime zone) str output = some out
        ∧ ((¬DenotesTwo zone s → out.ret = .succ ∧ out.output = s)
          ↔ DenotesTwo zone s ∨ zone.isDst s = false ∨ zone.save = 0) := by
  obtain ⟨str, written, holds⟩ := clTimeSec2date1_holds zone nonneg years room
  obtain ⟨_, parsed⟩ := parse_text (localtime_ranged zone s) years
  have read := mktime_standard zone s
  refine ⟨str, _, written, by
    simp only [clTimeDate2sec1, readFields_holds holds, parsed, Option.bind_eq_bind,
      Option.bind_some]
    rfl, ?_⟩
  have back : ((if mktime zone { localtime zone s with tmIsdst := 0 } = -1 then Ret.fail
        else Ret.succ) = .succ ∧ mktime zone { localtime zone s with tmIsdst := 0 } = s)
      ↔ zone.isDst s = false ∨ zone.save = 0 := by
    rw [read]
    cases zone.isDst s with
    | false =>
        have other : s ≠ -1 := by omega
        simp [other]
    | true =>
        simp only [if_true, Bool.true_eq_false, false_or]
        refine ⟨fun both => by have same := both.2; omega, fun none => ?_⟩
        rw [none, Int.add_zero, if_neg (by omega)]
        exact ⟨rfl, rfl⟩
  rw [back]
  exact ⟨fun holds => or_iff_not_imp_left.mpr holds, fun holds => or_iff_not_imp_left.mp holds⟩

theorem clTimeDate2sec1_clTimeSec2date1_iff_winter
    : ∃ str out,
        clTimeSec2date1 rome 86400 (some (List.replicate 20 0)) = some (some str)
        ∧ clTimeDate2sec1 (mktime rome) str 0 = some out
        ∧ (¬DenotesTwo rome 86400 → out.ret = .succ ∧ out.output = 86400) := by
  obtain ⟨str, out, written, read, same⟩ := clTimeDate2sec1_clTimeSec2date1_iff rome 86400
    (by decide) (by decide +kernel) (List.replicate 20 0) (by decide) 0
  exact ⟨str, out, written, read, same.mpr (Or.inr (Or.inl (by decide)))⟩

/-- The 30th of June in Rome is read back as one hour later. -/
theorem clTimeDate2sec1_clTimeSec2date1_june
    : ¬∀ (zone : Zone) (s : Int),
        0 ≤ s
        → InYears (localtime zone s)
        → ∀ dst : Buffer,
          20 ≤ dst.length
          → ∀ output,
            ∃ str out,
              clTimeSec2date1 zone s (some dst) = some (some str)
              ∧ clTimeDate2sec1 (mktime zone) str output = some out
              ∧ (¬DenotesTwo zone s → out.ret = .succ ∧ out.output = s) := by
  intro same
  have years : InYears (localtime rome 15552000) := by decide +kernel
  obtain ⟨str, out, written, read, back⟩ :=
    same rome 15552000 (by decide) years (List.replicate 20 0) (by decide) 0
  -- one reading for one instant, an hour on being summer time still
  have single : ¬DenotesTwo rome 15552000 := by
    rintro ⟨s', other, reading⟩
    have clocks := reading.clock
    simp only [clock_localtime, Zone.offset, rome, Bool.and_eq_true, decide_eq_true_eq] at clocks
    omega
  obtain ⟨str', written', holds⟩ :=
    clTimeSec2date1_holds rome (s := 15552000) (by decide) years
      (show 20 ≤ (List.replicate 20 (0 : UInt8)).length by decide)
  obtain rfl : str' = str := Option.some.inj (Option.some.inj (written'.symm.trans written))
  obtain ⟨_, parsed⟩ := parse_text (localtime_ranged rome 15552000) years
  have summer := mktime_standard rome 15552000
  simp only [clTimeDate2sec1, readFields_holds holds, parsed, Option.bind_eq_bind,
    Option.bind_some] at read
  obtain rfl := Option.some.inj read
  obtain ⟨_, output⟩ := back single
  dsimp only at output
  rw [summer] at output
  revert output
  decide

end Libccll.Times
