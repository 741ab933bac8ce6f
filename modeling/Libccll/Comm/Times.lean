import Libccll.Comm.Def
import Libccll.Foundation.LocalTime

/-! `comm/times.c`: instants from and to text. -/

namespace Libccll.Times

open Foundation CString Decimal LocalTime

/-- What is done for each field but the last: find the delimiter, overwrite it, read the field
and check it. Returns the field, the buffer and where the next field starts; the inner `none`
is `return FAIL`, the outer one an access outside the buffer.
-/
def takeField (delimiter : UInt8) (low high : Int) (tbuf : Buffer) (a : Nat)
    : Option (Option (Int × Buffer × Nat)) := do
  let some b ← strchr tbuf a delimiter | return none
  let tbuf ← put tbuf b 0
  let e := atoi (← str tbuf a)
  if e < low ∨ e > high then
    return none
  return some (e, tbuf, b + 1)

/-- The body up to `struct tm from`. -/
def readFields (timeStr : Buffer) : Option (Option Tm) := do
  let len ← strlen timeStr 0
  if len ≠ 19 then
    return none
  let tbuf ← strcpy (List.replicate 20 0) timeStr 0
  let some (ey, tbuf, a) ← takeField (chr '-') 1970 2099 tbuf 0 | return none
  let some (emo, tbuf, a) ← takeField (chr '-') 1 12 tbuf a | return none
  let some (ed, tbuf, a) ← takeField (chr ' ') 1 31 tbuf a | return none
  let some (eh, tbuf, a) ← takeField (chr ':') 0 23 tbuf a | return none
  let some (emi, tbuf, a) ← takeField (chr ':') 0 59 tbuf a | return none
  let es := atoi (← str tbuf a)
  if es < 0 ∨ es > 59 then
    return none
  return some {
    tmYear := ey - 1900
    tmMon := emo - 1
    tmMday := ed
    tmHour := eh
    tmMin := emi
    tmSec := es
    -- not named in the initialiser
    tmIsdst := 0
  }

/-- The return value and `*output`. -/
structure DateOut where
  ret : Ret
  output : Int

def clTimeDate2sec1 (mktime : Tm → Int) (timeStr : Buffer) (output : Int)
    : Option DateOut := do
  let some tm ← readFields timeStr | return { ret := .fail, output }
  return { ret := if mktime tm = -1 then .fail else .succ, output := mktime tm }

/-- What is left in `time_str`, where `none` is a `NULL` pointer. The outer `none` is a store
outside of it, or a text that does not fit the 20 bytes.
-/
def clTimeSec2date1 (zone : Zone) (sec : Int) (timeStr : Option Buffer)
    : Option (Option Buffer) :=
  match timeStr with
  | none => some none
  | some dst =>
      if sec < 0 then
        some (some dst)
      else
        (localtime zone sec).text.bind fun s => (fill dst (s ++ [0])).map some

end Libccll.Times
