import Libccll.Comm.Instants

/-! Instants as text, in order.
The fields of a date are written from the largest unit down, each with all its digits, so texts
compare as clocks do.
-/

namespace Libccll.Times

open Foundation CString Decimal LocalTime Calendar

variable {f f' : Fields}

/-- The date in the first three fields. -/
def Fields.Exists.date (date : f.Exists) : Date where
  year := value f.year
  month := value f.month
  day := value f.day
  month_pos := date.month.1
  month_le := date.month.2
  day_pos := date.day.1
  day_le := date.day.2

/-- The time of day in the others. -/
def Fields.seconds (f : Fields) : Nat := 3600 * value f.hour + 60 * value f.minute + value f.second

theorem Fields.Exact.clock (precise : f.Exact) (date : f.Exists)
    : f.tm.clock = 86400 * date.date.number + f.seconds := by
  have month := date.month
  have year : 1900 + ((value f.year : Int) - 1900) + ((value f.month : Int) - 1) / 12
      = value f.year := by
    omega
  have same : (((value f.month : Int) - 1) % 12 + 1).toNat = value f.month := by omega
  simp only [Tm.clock, Fields.tm, precise.year.atoi (by decide), precise.month.atoi (by decide),
    precise.day.atoi (by decide), precise.hour.atoi (by decide), precise.minute.atoi (by decide),
    precise.second.atoi (by decide), year, same, Date.number, Fields.Exists.date, Fields.seconds]
  omega

end Libccll.Times
