import Libccll.Foundation.Calendar
import Libccll.Foundation.Decimal

/-! Broken-down local time, as the C library makes it, prints it and reads it back.
A zone has a standard offset and, on any set of instants, a daylight-saving offset on top.
-/

namespace Foundation.LocalTime

open Calendar CString Decimal

/-- `struct tm` without the days of week and year, which are not read. -/
structure Tm where
  tmSec : Int
  tmMin : Int
  tmHour : Int
  tmMday : Int
  tmMon : Int
  tmYear : Int
  tmIsdst : Int

/-- A zone that never changes its standard offset. -/
structure Zone where
  std : Int
  save : Int
  isDst : Int → Bool

def Zone.offset (zone : Zone) (t : Int) : Int :=
  zone.std + if zone.isDst t then zone.save else 0

def localtime (zone : Zone) (t : Int) : Tm :=
  let clock := t + zone.offset t
  let date := civil (clock / 86400)
  let second := clock % 86400
  {
    tmSec := second % 60
    tmMin := second / 60 % 60
    tmHour := second / 3600
    tmMday := date.day
    tmMon := date.month - 1
    tmYear := date.year - 1900
    tmIsdst := if zone.isDst t then 1 else 0
  }

/-- The instant at which a clock without offset shows the fields, carried over where they are
out of range.
-/
def Tm.clock (tm : Tm) : Int :=
  86400 * dayNumber (1900 + tm.tmYear + tm.tmMon / 12) (tm.tmMon % 12 + 1).toNat tm.tmMday
    + 3600 * tm.tmHour + 60 * tm.tmMin + tm.tmSec

/-- `mktime`: standard time, daylight-saving time, or whichever the zone has, as `tm_isdst` is
zero, positive or negative.
-/
def mktime (zone : Zone) (tm : Tm) : Int :=
  if tm.tmIsdst = 0 then
    tm.clock - zone.std
  else if 0 < tm.tmIsdst then
    tm.clock - zone.std - zone.save
  else if zone.isDst (tm.clock - zone.std - zone.save) then
    tm.clock - zone.std - zone.save
  else
    tm.clock - zone.std

/-- `strftime` with `%F %T`, for the years of four digits. -/
def Tm.text (tm : Tm) : Option (List UInt8) :=
  let year := 1900 + tm.tmYear
  if 0 ≤ year ∧ year < 10000 then
    some
      (pad 4 year.toNat ++ chr '-' :: (pad 2 (tm.tmMon + 1).toNat
        ++ chr '-' :: (pad 2 tm.tmMday.toNat
        ++ chr ' ' :: (pad 2 tm.tmHour.toNat
        ++ chr ':' :: (pad 2 tm.tmMin.toNat
        ++ chr ':' :: pad 2 tm.tmSec.toNat)))))
  else
    none

/-- Both show the same date and time of day. -/
def Tm.SameReading (tm tm' : Tm) : Prop :=
  tm.tmYear = tm'.tmYear
  ∧ tm.tmMon = tm'.tmMon
  ∧ tm.tmMday = tm'.tmMday
  ∧ tm.tmHour = tm'.tmHour
  ∧ tm.tmMin = tm'.tmMin
  ∧ tm.tmSec = tm'.tmSec

theorem Tm.SameReading.clock {tm tm' : Tm} (same : tm.SameReading tm') : tm.clock = tm'.clock := by
  obtain ⟨year, month, day, hour, minute, second⟩ := same
  rw [Tm.clock, Tm.clock, year, month, day, hour, minute, second]

/-- The fields of `localtime` lie in their ranges. -/
structure Tm.Ranged (tm : Tm) : Prop where
  sec : 0 ≤ tm.tmSec ∧ tm.tmSec ≤ 59
  min : 0 ≤ tm.tmMin ∧ tm.tmMin ≤ 59
  hour : 0 ≤ tm.tmHour ∧ tm.tmHour ≤ 23
  mday : 1 ≤ tm.tmMday ∧ tm.tmMday ≤ 31
  mon : 0 ≤ tm.tmMon ∧ tm.tmMon ≤ 11

theorem localtime_ranged (zone : Zone) (t : Int) : (localtime zone t).Ranged := by
  have pos := (civil ((t + zone.offset t) / 86400)).day_pos
  have le := (civil ((t + zone.offset t) / 86400)).day_le_31
  have pos' := (civil ((t + zone.offset t) / 86400)).month_pos
  have le' := (civil ((t + zone.offset t) / 86400)).month_le
  constructor <;> simp only [localtime] <;> omega

/-- Reading the fields of an instant off a clock gives that clock. -/
theorem clock_localtime (zone : Zone) (t : Int)
    : (localtime zone t).clock = t + zone.offset t := by
  have day := number_civil ((t + zone.offset t) / 86400)
  have month := (civil ((t + zone.offset t) / 86400)).month_pos
  have inYear := (civil ((t + zone.offset t) / 86400)).month_le
  rw [Date.number] at day
  simp only [Tm.clock, localtime]
  generalize civil ((t + zone.offset t) / 86400) = date at day month inYear ⊢
  have year : 1900 + (date.year - 1900) + ((date.month : Int) - 1) / 12 = date.year := by omega
  have same : (((date.month : Int) - 1) % 12 + 1).toNat = date.month := by omega
  rw [year, same, day]
  omega

end Foundation.LocalTime
