import Libccll.Alloc.Report

/-! What `def_print_fun` of `log/log.c` writes: a header into `g_log_hdr`, and the line. -/

namespace Libccll.Log

open Foundation CString LocalTime Printing
open Libccll.Alloc (Timely sprintfAt sprintfAt_eq take_of_holds)

/-- `CL_LogType`, whose values are characters. -/
inductive LogType where
  | debug
  | info
  | warn
  | error
  deriving DecidableEq

def LogType.letter : LogType → Char
  | .debug => 'D'
  | .info => 'I'
  | .warn => 'W'
  | .error => 'E'

def LogType.code (type : LogType) : Nat := type.letter.toNat

/-- What `gettimeofday` answers. -/
structure Clock (zone : Zone) where
  tvSec : Int
  tvUsec : Nat
  timely : Timely zone tvSec
  usec_lt : tvUsec < 1000000

variable {zone : Zone}

/-- `%F %T` -/
def Clock.date (clock : Clock zone) : List UInt8 := (localtime zone clock.tvSec).text.getD []

/-- `.%03d` of the microseconds over 1024. -/
def Clock.fraction (clock : Clock zone) : List UInt8 :=
  let shown := digits 10 (clock.tvUsec >>> 10)
  chr '.' :: (List.replicate (3 - shown.length) (chr '0') ++ shown)

/-- ` %C-%s: ` -/
def label (type : LogType) (tag : List UInt8) : List UInt8 :=
  chr ' ' :: chr type.letter :: chr '-' :: (tag ++ [chr ':', chr ' '])

/-- The first call in `def_print_fun`: `strftime` keeps to 30 bytes. -/
def writeDate (hdr : Buffer) (clock : Clock zone) : Option Buffer :=
  if clock.date.length < 30 then sprintfAt hdr 0 clock.date else none

/-- The second one. -/
def writeFraction (hdr : Buffer) (clock : Clock zone) : Option Buffer :=
  sprintfAt hdr 19 clock.fraction

/-- The third one. -/
def writeLabel (hdr : Buffer) (type : LogType) (tag : List UInt8) : Option Buffer :=
  sprintfAt hdr 23 (label type tag)

/-- What stands in front of the header, and what behind the text. -/
def frame : LogType → List UInt8 × List UInt8
  | .debug => (text "\x1b[47m\x1b[30m", text " \x1b[0m\n")
  | .info => ([], text "\n")
  | .warn => (text "\x1b[33m", text "\n\x1b[0m")
  | .error => (text "\x1b[31m", text "\n\x1b[0m")

/-- The line on the console. -/
def line (type : LogType) (hdr txt : List UInt8) : List UInt8 :=
  (frame type).1 ++ hdr ++ txt ++ (frame type).2

/-- The header that is meant. -/
def header (clock : Clock zone) (type : LogType) (tag : List UInt8) : List UInt8 :=
  clock.date ++ clock.fraction ++ label type tag

/-- A tag for which there is room in the header. -/
def Fits (tag : List UInt8) : Prop := tag.length ≤ 99

instance (tag : List UInt8) : Decidable (Fits tag) := inferInstanceAs (Decidable (_ ≤ _))

-----------------------------------------------------------------------------------------
-- The parts of the header
-----------------------------------------------------------------------------------------

variable {clock : Clock zone} {type : LogType} {tag s : List UInt8} {hdr hdr' : Buffer}

theorem Clock.date_eq (clock : Clock zone) : clock.date.length = 19 ∧ 0 ∉ clock.date := by
  obtain ⟨date, shown, length, visible⟩ := clock.timely.date
  rw [Clock.date, shown]
  exact ⟨length, visible⟩

/-- Three digits are enough, as the microseconds are divided by more than a thousand. -/
theorem Clock.fraction_eq (clock : Clock zone)
    : clock.fraction.length = 4 ∧ 0 ∉ clock.fraction := by
  have small : clock.tvUsec >>> 10 < 10 ^ 3 := by
    have usec := clock.usec_lt
    rw [Nat.shiftRight_eq_div_pow]
    omega
  have width := length_digits_le (by decide) (by decide : 0 < 3) small
  have visible := zero_notMem_digits (n := clock.tvUsec >>> 10) (by decide : 1 < 10)
  constructor
  · rw [Clock.fraction, List.length_cons, List.length_append, List.length_replicate]
    omega
  · simp only [Clock.fraction, List.mem_cons, List.mem_append, List.mem_replicate, not_or, not_and]
    exact ⟨by decide, fun _ => by decide, visible⟩

theorem length_label : (label type tag).length = tag.length + 5 := by
  simp [label]

theorem zero_notMem_label (nonzero : 0 ∉ tag) : 0 ∉ label type tag := by
  have letter : 0 ≠ chr type.letter := by cases type <;> decide
  simp only [label, List.mem_cons, List.mem_append, List.not_mem_nil, or_false, not_or]
  exact ⟨by decide, letter, by decide, nonzero, by decide, by decide⟩

-----------------------------------------------------------------------------------------
-- The calls
-----------------------------------------------------------------------------------------

/-- `sprintf` leaves a string in the buffer, whatever it held before. -/
theorem string_of_sprintfAt {buf buf' : Buffer} {i : Nat}
    (printed : sprintfAt buf i s = some buf')
    : buf'.length = buf.length ∧ 0 ∈ buf' := by
  rw [sprintfAt, Option.ite_none_right_eq_some] at printed
  obtain ⟨room, printed⟩ := printed
  obtain rfl := Option.some.inj printed
  constructor
  · simp only [List.length_append, List.length_cons, List.length_take, List.length_drop]
    omega
  · simp

theorem writeDate_eq (size : hdr.length = 128)
    : ∃ hdr', writeDate hdr clock = some hdr' ∧ hdr'.length = 128 ∧ Holds hdr' 0 clock.date := by
  obtain ⟨length, visible⟩ := clock.date_eq
  have empty : hdr.take ([] : List UInt8).length = [] := rfl
  obtain ⟨hdr', printed, size', holds⟩ :=
    sprintfAt_eq empty List.not_mem_nil visible (by rw [List.nil_append, length, size]; decide)
  exact ⟨hdr', by rw [writeDate, if_pos (by rw [length]; decide)]; exact printed,
    size'.trans size, holds⟩

theorem writeFraction_eq (size : hdr.length = 128)
    : ∃ hdr',
        writeFraction hdr clock = some hdr'
        ∧ hdr'.length = 128
        ∧ 0 ∈ hdr'
        ∧ (Holds hdr 0 clock.date → Holds hdr' 0 (clock.date ++ clock.fraction)) := by
  obtain ⟨length, -⟩ := clock.date_eq
  obtain ⟨width, visible⟩ := clock.fraction_eq
  obtain ⟨hdr', printed⟩ : ∃ hdr', writeFraction hdr clock = some hdr' :=
    ⟨_, if_pos (by rw [width, size]; decide)⟩
  obtain ⟨size', string⟩ := string_of_sprintfAt printed
  refine ⟨hdr', printed, size'.trans size, string, fun holds => ?_⟩
  have room : (clock.date ++ clock.fraction).length < hdr.length := by
    rw [List.length_append, length, width, size]
    decide
  obtain ⟨hdr'', printed', -, holds'⟩ :=
    sprintfAt_eq (take_of_holds holds) holds.1 visible room
  rw [length] at printed'
  rwa [Option.some.inj (printed.symm.trans printed')]

theorem writeLabel_eq (clock : Clock zone) (type : LogType) (size : hdr.length = 128)
    (fits : Fits tag) (nonzero : 0 ∉ tag)
    : ∃ hdr',
        writeLabel hdr type tag = some hdr'
        ∧ hdr'.length = 128
        ∧ 0 ∈ hdr'
        ∧ (Holds hdr 0 (clock.date ++ clock.fraction) → Holds hdr' 0 (header clock type tag)) := by
  have length : (clock.date ++ clock.fraction).length = 23 := by
    rw [List.length_append, clock.date_eq.1, clock.fraction_eq.1]
  have short : 23 + (label type tag).length < 128 := by
    rw [length_label]
    rw [Fits] at fits
    omega
  obtain ⟨hdr', printed⟩ : ∃ hdr', writeLabel hdr type tag = some hdr' :=
    ⟨_, if_pos (by rw [size]; exact short)⟩
  obtain ⟨size', string⟩ := string_of_sprintfAt printed
  refine ⟨hdr', printed, size'.trans size, string, fun holds => ?_⟩
  have room : (clock.date ++ clock.fraction ++ label type tag).length < hdr.length := by
    rw [List.length_append, length, size]
    exact short
  obtain ⟨hdr'', printed', -, holds'⟩ :=
    sprintfAt_eq (take_of_holds holds) holds.1 (zero_notMem_label nonzero) room
  rw [length] at printed'
  rwa [Option.some.inj (printed.symm.trans printed')]

/-- There is room for the label just when the tag fits. -/
theorem writeLabel_isSome_iff (size : hdr.length = 128)
    : (writeLabel hdr type tag).isSome = true ↔ Fits tag := by
  rw [writeLabel, sprintfAt, length_label, size, Fits]
  split
  · exact iff_of_true rfl (by omega)
  · exact iff_of_false (by simp) (by omega)

end Libccll.Log
