import Libccll.Comm.Times

/-! Which strings `cl_time_date2sec1` accepts.
The fields are cut at the first delimiters and read by `atoi`; a date in the expected format
is a special case.
-/

namespace Libccll.Times

open Foundation Calendar CString Decimal LocalTime

-----------------------------------------------------------------------------------------
-- Parsing a string without its buffer
-----------------------------------------------------------------------------------------

/-- The field in front of the first delimiter, and the string behind it. -/
def cutField (delimiter : UInt8) (low high : Int) (s : List UInt8)
    : Option (Int × List UInt8) :=
  if delimiter ∈ s then
    let field := before delimiter s
    if low ≤ atoi field ∧ atoi field ≤ high then
      some (atoi field, s.drop (field.length + 1))
    else
      none
  else
    none

/-- The string that stands at an index is parsed like a string of its own. -/
theorem takeField_holds {tbuf : Buffer} {a : Nat} {s : List UInt8} (holds : Holds tbuf a s)
    (delimiter : UInt8) (low high : Int)
    : cutField delimiter low high s = none
        ∧ takeField delimiter low high tbuf a = some none
      ∨ ∃ e t tbuf' a',
        cutField delimiter low high s = some (e, t)
        ∧ takeField delimiter low high tbuf a = some (some (e, tbuf', a'))
        ∧ Holds tbuf' a' t := by
  by_cases found : delimiter ∈ s
  · obtain ⟨t, split⟩ := before_split found
    have shorter : (before delimiter s).length < s.length := by
      have length := congrArg List.length split
      rw [List.length_append, List.length_cons] at length
      omega
    obtain ⟨tbuf', cut, _, left, behind⟩ := holds.cut (Nat.le_of_lt shorter)
    rw [take_before] at left
    have rest := (holds.drop (n := (before delimiter s).length + 1) shorter).behind
      (behind _ (by omega))
    by_cases inRange
        : low ≤ atoi (before delimiter s) ∧ atoi (before delimiter s) ≤ high
    · refine Or.inr ⟨atoi (before delimiter s), _, tbuf', _, ?_, ?_, rest⟩
      · simp only [cutField, if_pos found, if_pos inRange]
      · have accepted : ¬(atoi (before delimiter s) < low ∨ atoi (before delimiter s) > high) := by
          omega
        simp only [takeField, holds.strchr, if_pos found, cut, left.str, if_neg accepted,
          Option.bind_eq_bind, Option.bind_some, Nat.add_assoc]
        rfl
    · refine Or.inl ⟨?_, ?_⟩
      · simp only [cutField, if_pos found, if_neg inRange]
      · have refused : atoi (before delimiter s) < low ∨ atoi (before delimiter s) > high := by
          omega
        simp only [takeField, holds.strchr, if_pos found, cut, left.str, if_pos refused,
          Option.bind_eq_bind, Option.bind_some]
        rfl
  · refine Or.inl ⟨?_, ?_⟩
    · rw [cutField, if_neg found]
    · simp only [takeField, holds.strchr, if_neg found, Option.bind_eq_bind, Option.bind_some]
      rfl

/-- The date that a string is read as. -/
def parse (s : List UInt8) : Option Tm := do
  if s.length ≠ 19 then
    none
  else
    let (ey, s) ← cutField (chr '-') 1970 2099 s
    let (emo, s) ← cutField (chr '-') 1 12 s
    let (ed, s) ← cutField (chr ' ') 1 31 s
    let (eh, s) ← cutField (chr ':') 0 23 s
    let (emi, s) ← cutField (chr ':') 0 59 s
    if 0 ≤ atoi s ∧ atoi s ≤ 59 then
      some {
        tmYear := ey - 1900
        tmMon := emo - 1
        tmMday := ed
        tmHour := eh
        tmMin := emi
        tmSec := atoi s
        tmIsdst := 0
      }
    else
      none

theorem strcpy_holds {src dst : Buffer} {s : List UInt8} (holds : Holds src 0 s)
    (room : s.length < dst.length)
    : ∃ dst', strcpy dst src 0 = some dst' ∧ Holds dst' 0 s := by
  obtain ⟨dst', stored, _, copied⟩ := fill_terminated dst holds.1 room
  exact ⟨dst', by rw [strcpy, holds.str, Option.bind_some, stored], copied⟩

/-- No access is outside `tbuf`, and the fields are those of the string. -/
theorem readFields_holds {timeStr : Buffer} {s : List UInt8} (holds : Holds timeStr 0 s)
    : readFields timeStr = some (parse s) := by
  unfold readFields parse
  simp only [holds.strlen, Option.bind_eq_bind, Option.bind_some]
  by_cases length : s.length ≠ 19
  · rw [if_pos length, if_pos length]
    rfl
  · rw [if_neg length, if_neg length]
    obtain ⟨tbuf, copied, holds⟩ := strcpy_holds holds
      (show s.length < (List.replicate 20 (0 : UInt8)).length by
        rw [List.length_replicate]
        omega)
    rw [copied, Option.bind_some]
    rcases takeField_holds holds (chr '-') 1970 2099 with
      ⟨cut, taken⟩ | ⟨ey, s, tbuf, a, cut, taken, holds⟩ <;> rw [cut, taken]
    · rfl
    simp only [Option.bind_some]
    rcases takeField_holds holds (chr '-') 1 12 with
      ⟨cut, taken⟩ | ⟨emo, s, tbuf, a, cut, taken, holds⟩ <;> rw [cut, taken]
    · rfl
    simp only [Option.bind_some]
    rcases takeField_holds holds (chr ' ') 1 31 with
      ⟨cut, taken⟩ | ⟨ed, s, tbuf, a, cut, taken, holds⟩ <;> rw [cut, taken]
    · rfl
    simp only [Option.bind_some]
    rcases takeField_holds holds (chr ':') 0 23 with
      ⟨cut, taken⟩ | ⟨eh, s, tbuf, a, cut, taken, holds⟩ <;> rw [cut, taken]
    · rfl
    simp only [Option.bind_some]
    rcases takeField_holds holds (chr ':') 0 59 with
      ⟨cut, taken⟩ | ⟨emi, s, tbuf, a, cut, taken, holds⟩ <;> rw [cut, taken]
    · rfl
    simp only [Option.bind_some, holds.str]
    by_cases inRange : 0 ≤ atoi s ∧ atoi s ≤ 59
    · rw [if_pos inRange, if_neg (by omega)]
      rfl
    · rw [if_neg inRange, if_pos (by omega)]
      rfl

-----------------------------------------------------------------------------------------
-- The fields of an accepted string
-----------------------------------------------------------------------------------------

/-- The six fields of a string. -/
structure Fields where
  year : List UInt8
  month : List UInt8
  day : List UInt8
  hour : List UInt8
  minute : List UInt8
  second : List UInt8

namespace Fields

def text (f : Fields) : List UInt8 :=
  f.year ++ chr '-' :: (f.month ++ chr '-' :: (f.day ++ chr ' ' :: (f.hour
    ++ chr ':' :: (f.minute ++ chr ':' :: f.second))))

/-- Each field ends at the first delimiter there is. -/
structure Cut (f : Fields) : Prop where
  year : chr '-' ∉ f.year
  month : chr '-' ∉ f.month
  day : chr ' ' ∉ f.day
  hour : chr ':' ∉ f.hour
  minute : chr ':' ∉ f.minute

/-- The checks that the code makes. -/
structure InRange (f : Fields) : Prop where
  year : 1970 ≤ atoi f.year ∧ atoi f.year ≤ 2099
  month : 1 ≤ atoi f.month ∧ atoi f.month ≤ 12
  day : 1 ≤ atoi f.day ∧ atoi f.day ≤ 31
  hour : 0 ≤ atoi f.hour ∧ atoi f.hour ≤ 23
  minute : 0 ≤ atoi f.minute ∧ atoi f.minute ≤ 59
  second : 0 ≤ atoi f.second ∧ atoi f.second ≤ 59

def tm (f : Fields) : Tm where
  tmYear := atoi f.year - 1900
  tmMon := atoi f.month - 1
  tmMday := atoi f.day
  tmHour := atoi f.hour
  tmMin := atoi f.minute
  tmSec := atoi f.second
  tmIsdst := 0

end Fields

theorem cutField_some_iff {delimiter : UInt8} {low high : Int} {s t : List UInt8} {e : Int}
    : cutField delimiter low high s = some (e, t)
      ↔ ∃ field,
          s = field ++ delimiter :: t
          ∧ delimiter ∉ field
          ∧ (low ≤ atoi field ∧ atoi field ≤ high)
          ∧ e = atoi field := by
  unfold cutField
  constructor
  · intro cut
    split at cut
    · rename_i found
      dsimp only at cut
      split at cut
      · rename_i inRange
        obtain ⟨rfl, rfl⟩ := Prod.mk.inj (Option.some.inj cut)
        obtain ⟨t, split⟩ := before_split found
        refine ⟨before delimiter s, ?_, not_mem_before, inRange, rfl⟩
        rw [drop_before split]
        exact split
      · cases cut
    · cases cut
  · rintro ⟨field, rfl, absent, inRange, rfl⟩
    have first : before delimiter (field ++ delimiter :: t) = field := before_append absent
    rw [if_pos (by simp)]
    dsimp only
    rw [first, if_pos inRange]
    simp

/-- What is accepted: 19 bytes, cut at the first delimiters, with all fields in range. -/
theorem parse_some_iff {s : List UInt8} {tm : Tm}
    : parse s = some tm
      ↔ s.length = 19 ∧ ∃ f : Fields, s = f.text ∧ f.Cut ∧ f.InRange ∧ tm = f.tm := by
  unfold parse
  constructor
  · intro parsed
    split at parsed
    · cases parsed
    · rename_i length
      obtain ⟨⟨ey, s1⟩, cut1, parsed⟩ := Option.bind_eq_some_iff.mp parsed
      obtain ⟨⟨emo, s2⟩, cut2, parsed⟩ := Option.bind_eq_some_iff.mp parsed
      obtain ⟨⟨ed, s3⟩, cut3, parsed⟩ := Option.bind_eq_some_iff.mp parsed
      obtain ⟨⟨eh, s4⟩, cut4, parsed⟩ := Option.bind_eq_some_iff.mp parsed
      obtain ⟨⟨emi, second⟩, cut5, parsed⟩ := Option.bind_eq_some_iff.mp parsed
      obtain ⟨year, rfl, absent1, range1, rfl⟩ := cutField_some_iff.mp cut1
      obtain ⟨month, rfl, absent2, range2, rfl⟩ := cutField_some_iff.mp cut2
      obtain ⟨day, rfl, absent3, range3, rfl⟩ := cutField_some_iff.mp cut3
      obtain ⟨hour, rfl, absent4, range4, rfl⟩ := cutField_some_iff.mp cut4
      obtain ⟨minute, rfl, absent5, range5, rfl⟩ := cutField_some_iff.mp cut5
      dsimp only at parsed
      split at parsed
      · rename_i range6
        refine ⟨not_not.mp length, ⟨year, month, day, hour, minute, second⟩, rfl,
          ⟨absent1, absent2, absent3, absent4, absent5⟩,
          ⟨range1, range2, range3, range4, range5, range6⟩, ?_⟩
        exact (Option.some.inj parsed).symm
      · cases parsed
  · rintro ⟨length, f, rfl, cut, inRange, rfl⟩
    rw [if_neg (not_not.mpr length)]
    refine Option.bind_eq_some_iff.mpr ⟨_, cutField_some_iff.mpr
      ⟨f.year, rfl, cut.year, inRange.year, rfl⟩, ?_⟩
    refine Option.bind_eq_some_iff.mpr ⟨_, cutField_some_iff.mpr
      ⟨f.month, rfl, cut.month, inRange.month, rfl⟩, ?_⟩
    refine Option.bind_eq_some_iff.mpr ⟨_, cutField_some_iff.mpr
      ⟨f.day, rfl, cut.day, inRange.day, rfl⟩, ?_⟩
    refine Option.bind_eq_some_iff.mpr ⟨_, cutField_some_iff.mpr
      ⟨f.hour, rfl, cut.hour, inRange.hour, rfl⟩, ?_⟩
    refine Option.bind_eq_some_iff.mpr ⟨_, cutField_some_iff.mpr
      ⟨f.minute, rfl, cut.minute, inRange.minute, rfl⟩, ?_⟩
    exact if_pos inRange.second

/-- The first delimiters leave no choice. -/
theorem Fields.Cut.unique {f f' : Fields} (cut : f.Cut) (cut' : f'.Cut)
    (same : f.text = f'.text)
    : f = f' := by
  have next {c : UInt8} {field field' t t' : List UInt8} (absent : c ∉ field)
      (absent' : c ∉ field') (eq : field ++ c :: t = field' ++ c :: t')
      : field = field' ∧ t = t' := by
    have fields : before c (field ++ c :: t) = before c (field' ++ c :: t') := by rw [eq]
    rw [before_append absent, before_append absent'] at fields
    subst fields
    exact ⟨rfl, (List.cons.inj (List.append_cancel_left eq)).2⟩
  obtain ⟨year, rest⟩ := next cut.year cut'.year same
  obtain ⟨month, rest⟩ := next cut.month cut'.month rest
  obtain ⟨day, rest⟩ := next cut.day cut'.day rest
  obtain ⟨hour, rest⟩ := next cut.hour cut'.hour rest
  obtain ⟨minute, second⟩ := next cut.minute cut'.minute rest
  cases f
  cases f'
  simp_all only

-----------------------------------------------------------------------------------------
-- The expected format
-----------------------------------------------------------------------------------------

def Digits (n : Nat) (s : List UInt8) : Prop := s.length = n ∧ ∀ b ∈ s, isDigit b = true

/-- Every field has its number of digits, and nothing else. -/
structure Fields.Exact (f : Fields) : Prop where
  year : Digits 4 f.year
  month : Digits 2 f.month
  day : Digits 2 f.day
  hour : Digits 2 f.hour
  minute : Digits 2 f.minute
  second : Digits 2 f.second

/-- The digits name a date that exists, and a time of day. -/
structure Fields.Exists (f : Fields) : Prop where
  year : 1970 ≤ value f.year ∧ value f.year ≤ 2099
  month : 1 ≤ value f.month ∧ value f.month ≤ 12
  day : 1 ≤ value f.day ∧ value f.day ≤ daysInMonth (value f.year) (value f.month)
  hour : value f.hour ≤ 23
  minute : value f.minute ≤ 59
  second : value f.second ≤ 59

/-- `2025-10-13 09:19:09` and the like. -/
def Grammar (s : List UInt8) : Prop := ∃ f : Fields, s = f.text ∧ f.Exact ∧ f.Exists

theorem Digits.atoi {n : Nat} {s : List UInt8} (digits : Digits n s) (short : n ≤ 9)
    : Decimal.atoi s = value s :=
  atoi_digits digits.2 (digits.1 ▸ short)

theorem Digits.not_mem {n : Nat} {s : List UInt8} (digits : Digits n s) {c : UInt8}
    (other : isDigit c = false)
    : c ∉ s := by
  intro member
  rw [digits.2 c member] at other
  cases other

theorem Fields.Exact.cut {f : Fields} (precise : f.Exact) : f.Cut where
  year := precise.year.not_mem (by decide)
  month := precise.month.not_mem (by decide)
  day := precise.day.not_mem (by decide)
  hour := precise.hour.not_mem (by decide)
  minute := precise.minute.not_mem (by decide)

theorem Fields.Exact.length {f : Fields} (precise : f.Exact) : f.text.length = 19 := by
  simp only [Fields.text, List.length_append, List.length_cons, precise.year.1, precise.month.1,
    precise.day.1, precise.hour.1, precise.minute.1, precise.second.1]

/-- With exact fields the checks of the code are those of the format, but for the end of
the month.
-/
theorem Fields.Exact.exists_iff {f : Fields} (precise : f.Exact)
    : f.Exists
      ↔ f.InRange ∧ Decimal.atoi f.day
          ≤ daysInMonth (Decimal.atoi f.year) (Decimal.atoi f.month).toNat := by
  have year := precise.year.atoi (by decide)
  have month := precise.month.atoi (by decide)
  have day := precise.day.atoi (by decide)
  have hour := precise.hour.atoi (by decide)
  have minute := precise.minute.atoi (by decide)
  have second := precise.second.atoi (by decide)
  have longest := (daysInMonth_bounds (value f.year) (value f.month)).2
  rw [year, month, day, Int.toNat_natCast]
  constructor
  · intro date
    obtain ⟨year', month', day', hour', minute', second'⟩ := date
    refine ⟨⟨?_, ?_, ?_, ?_, ?_, ?_⟩, ?_⟩ <;> omega
  · rintro ⟨⟨year', month', day', hour', minute', second'⟩, inMonth⟩
    constructor <;> omega

/-- The strings that the code accepts. -/
theorem clTimeDate2sec1_succ_iff {mktime : Tm → Int} {timeStr : Buffer}
    (known : ∀ tm, readFields timeStr = some (some tm) → mktime tm ≠ -1) {s : List UInt8}
    (holds : Holds timeStr 0 s) (output : Int)
    : (∃ out, clTimeDate2sec1 mktime timeStr output = some out ∧ out.ret = .succ)
      ↔ s.length = 19 ∧ ∃ f : Fields, s = f.text ∧ f.Cut ∧ f.InRange := by
  rw [readFields_holds holds] at known
  simp only [clTimeDate2sec1, readFields_holds holds, Option.bind_eq_bind, Option.bind_some]
  cases parsed : parse s with
  | none =>
      refine ⟨fun ⟨out, returned, accepted⟩ => ?_, fun ⟨length, f, text, cut, inRange⟩ => ?_⟩
      · obtain rfl := Option.some.inj returned
        cases accepted
      · rw [parse_some_iff.mpr ⟨length, f, text, cut, inRange, rfl⟩] at parsed
        cases parsed
  | some tm =>
      obtain ⟨length, f, text, cut, inRange, _⟩ := parse_some_iff.mp parsed
      exact ⟨fun _ => ⟨length, f, text, cut, inRange⟩,
        fun _ => ⟨_, rfl, if_neg (known tm (congrArg some parsed))⟩⟩

/-- A string is accepted when it has the expected format and only then, unless it is one of
those that the checks let through.
-/
theorem clTimeDate2sec1_grammar_iff (mktime : Tm → Int) (timeStr : Buffer)
    (known : ∀ tm, readFields timeStr = some (some tm) → mktime tm ≠ -1) (s : List UInt8)
    (holds : Holds timeStr 0 s) (output : Int)
    : ((∃ out, clTimeDate2sec1 mktime timeStr output = some out ∧ out.ret = .succ)
        ↔ Grammar s)
      ↔ ∀ f : Fields,
          s = f.text
          → s.length = 19
          → f.Cut
          → f.InRange
          → f.Exact ∧ atoi f.day ≤ daysInMonth (atoi f.year) (atoi f.month).toNat := by
  rw [clTimeDate2sec1_succ_iff known holds]
  constructor
  · rintro same f rfl length cut inRange
    obtain ⟨f', text, precise, date⟩ := same.mp ⟨length, f, rfl, cut, inRange⟩
    obtain rfl := cut.unique precise.cut text
    exact ⟨precise, (precise.exists_iff.mp date).2⟩
  · intro strict
    constructor
    · rintro ⟨length, f, text, cut, inRange⟩
      obtain ⟨precise, inMonth⟩ := strict f text length cut inRange
      exact ⟨f, text, precise, precise.exists_iff.mpr ⟨inRange, inMonth⟩⟩
    · rintro ⟨f, rfl, precise, date⟩
      exact ⟨precise.length, f, rfl, precise.cut, (precise.exists_iff.mp date).1⟩

/-- `2025-02-30 09:19:09`. -/
def beyondFebruary : List UInt8 :=
  ['2', '0', '2', '5', '-', '0', '2', '-', '3', '0', ' ', '0', '9', ':', '1', '9', ':', '0',
    '9'].map chr

theorem holds_beyondFebruary : Holds (beyondFebruary ++ [0]) 0 beyondFebruary :=
  ⟨by decide, [], rfl⟩

/-- Central European time with the daylight saving of 1970 in Rome. -/
def rome : Zone where
  std := 3600
  save := 3600
  isDst t := decide (12956400 ≤ t) && decide (t < 23238000)

/-- Rome knows the instant that is read from it. -/
theorem mktime_beyondFebruary (tm : Tm)
    (read : readFields (beyondFebruary ++ [0]) = some (some tm))
    : mktime rome tm ≠ -1 := by
  have instant
      : (readFields (beyondFebruary ++ [0])).map (Option.map (mktime rome))
        = some (some 1740903549) := by
    decide +kernel
  rw [read] at instant
  rw [Option.some.inj (Option.some.inj instant)]
  decide

theorem clTimeDate2sec1_grammar_iff_february
    : ((∃ out,
          clTimeDate2sec1 (mktime rome) (beyondFebruary ++ [0]) 0 = some out ∧ out.ret = .succ)
        ↔ Grammar beyondFebruary)
      ↔ ∀ f : Fields,
          beyondFebruary = f.text
          → beyondFebruary.length = 19
          → f.Cut
          → f.InRange
          → f.Exact ∧ atoi f.day ≤ daysInMonth (atoi f.year) (atoi f.month).toNat :=
  clTimeDate2sec1_grammar_iff (mktime rome) (beyondFebruary ++ [0]) mktime_beyondFebruary
    beyondFebruary holds_beyondFebruary 0

/-- The day after the end of February is accepted. -/
theorem clTimeDate2sec1_february
    : ¬∀ (zone : Zone) (timeStr : Buffer) (s : List UInt8),
        (∀ tm, readFields timeStr = some (some tm) → mktime zone tm ≠ -1)
        → Holds timeStr 0 s
        → ∀ output,
          (∃ out, clTimeDate2sec1 (mktime zone) timeStr output = some out ∧ out.ret = .succ)
          ↔ Grammar s := by
  intro same
  have accepted : ∃ out,
      clTimeDate2sec1 (mktime rome) (beyondFebruary ++ [0]) 0 = some out ∧ out.ret = .succ := by
    have succeeded
        : (clTimeDate2sec1 (mktime rome) (beyondFebruary ++ [0]) 0).map DateOut.ret
          = some .succ := by
      decide +kernel
    obtain ⟨out, returned, ret⟩ := Option.map_eq_some_iff.mp succeeded
    exact ⟨out, returned, ret⟩
  obtain ⟨f, text, precise, date⟩ := (same rome (beyondFebruary ++ [0])
    beyondFebruary mktime_beyondFebruary holds_beyondFebruary 0).mp accepted
  obtain ⟨inRange, inMonth⟩ := precise.exists_iff.mp date
  have parsed : parse beyondFebruary = some f.tm :=
    parse_some_iff.mpr ⟨by decide, f, text, precise.cut, inRange, rfl⟩
  have read {α : Type} (field : Tm → α) : (parse beyondFebruary).map field = some (field f.tm) := by
    rw [parsed, Option.map_some]
  have day : atoi f.day = 30 :=
    Option.some.inj ((read Tm.tmMday).symm.trans (by decide +kernel))
  have month : atoi f.month - 1 = 1 :=
    Option.some.inj ((read Tm.tmMon).symm.trans (by decide +kernel))
  have year : atoi f.year - 1900 = 125 :=
    Option.some.inj ((read Tm.tmYear).symm.trans (by decide +kernel))
  rw [day, show atoi f.month = 2 by omega, show atoi f.year = 2025 by omega] at inMonth
  revert inMonth
  decide

end Libccll.Times
