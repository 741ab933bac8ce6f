import Libccll.Alloc.Report

/-! `cl_print_bytes` of `comm/convt.c`. An access outside of an array or through `NULL` is `none`.
-/

namespace Libccll.Convt

open Foundation CString Printing
open Libccll.Alloc (sprintfAt sprintfAt_eq take_of_holds)

/-- `%02x` -/
def hex02 (b : UInt8) : List UInt8 :=
  let shown := digits 16 b.toNat
  List.replicate (2 - shown.length) (chr '0') ++ shown

/-- The loop, with so many turns left: the buffer. -/
def printFrom (bytes : Buffer) : Nat → Nat → Nat → Int → Buffer → Option Buffer
  | 0, _, _, _, buf => some buf
  | left + 1, i, j, k, buf => do
      let b ← bytes[i]?
      if k = 15 then
        -- `k` is set to -1 and incremented
        printFrom bytes left (i + 1) (j + 3) 0 (← sprintfAt buf j (hex02 b ++ [chr '\n']))
      else
        printFrom bytes left (i + 1) (j + 2) (k + 1) (← sprintfAt buf j (hex02 b))

/-- `cl_print_bytes`, with a `NULL` pointer as `none`: what is logged, if anything. `malloc` says
whether there is memory; it is cleared. The shift of a negative size is undefined.
-/
def clPrintBytes (malloc : Bool) (bytes : Option Buffer) (size : Int) : Option (Option Buffer) :=
  match bytes with
  | none => some none
  | some bytes =>
      if 4096 < size then
        some none
      else if size < 0 ∨ malloc = false then
        none
      else do
        let buf := List.replicate (2 * size + 256).toNat 0
        let buf ← printFrom bytes size.toNat 0 0 0 buf
        return some (← str buf 0)

-----------------------------------------------------------------------------------------
-- The dump
-----------------------------------------------------------------------------------------

/-- The two hexadecimal digits of a byte. -/
def twoDigits (b : UInt8) : List UInt8 :=
  [chr (b.toNat / 16).digitChar, chr (b.toNat % 16).digitChar]

/-- What a byte adds to the dump: two digits, and a newline after every sixteenth. -/
def dumped (i : Nat) (b : UInt8) : List UInt8 :=
  twoDigits b ++ if (i + 1) % 16 = 0 then [chr '\n'] else []

/-- The dump of some bytes, the first of which has an index. -/
def dumpFrom (i : Nat) (bytes : List UInt8) : List UInt8 :=
  (bytes.zipIdx i).flatMap fun (b, i) => dumped i b

def hexDump (bytes : List UInt8) : List UInt8 := dumpFrom 0 bytes

variable {bytes rest more s buf : List UInt8} {b : UInt8} {i : Nat}

theorem dumpFrom_nil : dumpFrom i [] = [] := rfl

theorem dumpFrom_cons : dumpFrom i (b :: rest) = dumped i b ++ dumpFrom (i + 1) rest := rfl

/-- Two characters for a byte, and one for every sixteenth. -/
theorem length_dumpFrom
    : (dumpFrom i bytes).length + i / 16 = 2 * bytes.length + (i + bytes.length) / 16 := by
  induction bytes generalizing i with
  | nil => simp [dumpFrom]
  | cons b rest ih =>
      have later := ih (i := i + 1)
      rw [dumpFrom_cons, dumped, List.length_append, List.length_append, List.length_cons]
      have two : (twoDigits b).length = 2 := rfl
      split
      · rw [List.length_singleton]
        omega
      · rw [List.length_nil]
        omega

theorem zero_notMem_dumped : 0 ∉ dumped i b := by
  have high := digitChar_visible (b.toNat / 16)
  have low := digitChar_visible (b.toNat % 16)
  have newline : (chr '\n') ≠ 0 := by decide
  rw [dumped]
  split <;> simp [twoDigits, high.symm, low.symm, newline.symm]

/-- The first byte that is left, behind what was printed. -/
theorem append_dumpFrom_cons
    : s ++ dumpFrom i (b :: rest) = s ++ dumped i b ++ dumpFrom (i + 1) rest := by
  rw [dumpFrom_cons, List.append_assoc]

/-- What `printf` prints are the two digits. -/
theorem hex02_eq : hex02 b = twoDigits b := by
  have byte : b.toNat < 256 := b.toNat_lt
  rcases Nat.lt_or_ge b.toNat 16 with small | large
  · have high : b.toNat / 16 = 0 := by omega
    have low : b.toNat % 16 = b.toNat := by omega
    rw [hex02, digits, Nat.toDigits_of_lt_base small, twoDigits, high, low]
    rfl
  · have high : b.toNat / 16 < 16 := by omega
    rw [hex02, digits, Nat.toDigits_of_base_le (by omega) large, Nat.toDigits_of_lt_base high]
    rfl

-----------------------------------------------------------------------------------------
-- The loop
-----------------------------------------------------------------------------------------

variable {buf' : Buffer} {left j : Nat}

theorem printFrom_succ (suffix : bytes.drop i = b :: rest)
    : printFrom bytes (left + 1) i j (i % 16 : Nat) buf
      = (sprintfAt buf j (dumped i b)).bind
          (printFrom bytes left (i + 1) (j + (dumped i b).length) ((i + 1) % 16 : Nat)) := by
  simp only [printFrom, getElem?_of_drop suffix, hex02_eq, dumped, Option.bind_eq_bind,
    Option.bind_some]
  by_cases last : i % 16 = 15
  · have next : (i + 1) % 16 = 0 := by omega
    rw [if_pos (by omega), if_pos next, next]
    rfl
  · have next : (i + 1) % 16 = i % 16 + 1 := by omega
    rw [if_neg (by omega), if_neg (by omega), next, List.append_nil]
    rfl

/-- The dump of all that is left is printed when there is room for it. -/
theorem printFrom_eq (suffix : bytes.drop i = rest) (holds : Holds buf 0 s)
    (room : (s ++ dumpFrom i rest).length < buf.length)
    : ∃ buf', printFrom bytes rest.length i s.length (i % 16 : Nat) buf = some buf'
        ∧ Holds buf' 0 (s ++ dumpFrom i rest) := by
  induction rest generalizing i s buf with
  | nil => exact ⟨buf, rfl, by rwa [dumpFrom_nil, List.append_nil]⟩
  | cons b rest ih =>
      rw [append_dumpFrom_cons] at room ⊢
      have here : (s ++ dumped i b).length < buf.length := by
        rw [List.length_append] at room
        omega
      obtain ⟨buf₁, printed, size, holds'⟩ :=
        sprintfAt_eq (take_of_holds holds) holds.1 zero_notMem_dumped here
      rw [List.length_cons, printFrom_succ suffix, printed, Option.bind_some,
        ← List.length_append]
      exact ih (drop_of_drop suffix) holds' (size.symm ▸ room)

/-- Nothing is printed past the end. -/
theorem printFrom_room (suffix : bytes.drop i = rest) (holds : Holds buf 0 s)
    (printed : printFrom bytes rest.length i s.length (i % 16 : Nat) buf = some buf')
    : (s ++ dumpFrom i rest).length < buf.length := by
  induction rest generalizing i s buf with
  | nil =>
      have inside := holds.inside
      rw [Nat.zero_add] at inside
      rwa [dumpFrom_nil, List.append_nil]
  | cons b rest ih =>
      rw [List.length_cons, printFrom_succ suffix, Option.bind_eq_some_iff] at printed
      obtain ⟨buf₁, line, printed⟩ := printed
      have here : (s ++ dumped i b).length < buf.length := by
        rw [sprintfAt, Option.ite_none_right_eq_some] at line
        rw [List.length_append]
        exact line.1
      obtain ⟨buf₁', line', size, holds'⟩ :=
        sprintfAt_eq (take_of_holds holds) holds.1 zero_notMem_dumped here
      obtain rfl := Option.some.inj (line'.symm.trans line)
      rw [← List.length_append] at printed
      rw [append_dumpFrom_cons, ← size]
      exact ih (drop_of_drop suffix) holds' printed

-----------------------------------------------------------------------------------------
-- A call
-----------------------------------------------------------------------------------------

/-- A call that the guard admits, with the buffer it prints into. -/
theorem clPrintBytes_of_admitted (admitted : bytes.length ≤ 4096)
    : clPrintBytes true (some bytes) bytes.length
      = (printFrom bytes bytes.length 0 0 0
          (List.replicate (2 * bytes.length + 256) 0)).bind fun buf =>
          (str buf 0).bind fun s => some (some s) := by
  have size : (2 * (bytes.length : Int) + 256).toNat = 2 * bytes.length + 256 := by omega
  rw [clPrintBytes, if_neg (by omega), if_neg (by simp), size, Int.toNat_natCast]
  rfl

/-- What the dump and its terminator take, next to the buffer. -/
theorem hexDump_fits
    : ([] ++ dumpFrom 0 bytes).length
        < (List.replicate (2 * bytes.length + 256) (0 : UInt8)).length
      ↔ bytes.length < 4096 := by
  have counted
      : (dumpFrom 0 bytes).length + 0 / 16 = 2 * bytes.length + (0 + bytes.length) / 16 :=
    length_dumpFrom
  rw [List.nil_append, List.length_replicate]
  omega

/-- A call that comes to its end has written inside of the buffer. -/
theorem short_of_clPrintBytes (admitted : bytes.length ≤ 4096)
    (ended : clPrintBytes true (some bytes) bytes.length ≠ none)
    : bytes.length < 4096 := by
  obtain ⟨shown, ended⟩ := Option.ne_none_iff_exists'.mp ended
  rw [clPrintBytes_of_admitted admitted] at ended
  obtain ⟨buf, printed, -⟩ := Option.bind_eq_some_iff.mp ended
  exact hexDump_fits.mp (printFrom_room List.drop_zero blank_holds printed)

/-- The guard admits one size too many: the dump with its terminator is inside of the buffer only
when less than 4096 bytes are printed.
-/
theorem clPrintBytes_dumps_iff (admitted : bytes.length ≤ 4096)
    : clPrintBytes true (some bytes) bytes.length = some (some (hexDump bytes))
      ↔ bytes.length < 4096 := by
  refine ⟨fun shown => short_of_clPrintBytes admitted (by rw [shown]; nofun), fun fits => ?_⟩
  obtain ⟨buf, printed, holds⟩ :=
    printFrom_eq List.drop_zero blank_holds (hexDump_fits.mpr fits)
  rw [clPrintBytes_of_admitted admitted]
  refine Option.bind_eq_some_iff.mpr ⟨buf, printed, ?_⟩
  rw [holds.str]
  rfl

theorem clPrintBytes_dumps_iff_two
    : clPrintBytes true (some [10, 255]) 2 = some (some (hexDump [10, 255])) ↔ 2 < 4096 := by
  have admitted : ([10, 255] : List UInt8).length ≤ 4096 := by decide
  exact clPrintBytes_dumps_iff admitted

/-- With 4096 bytes the terminator is written behind the buffer. -/
theorem clPrintBytes_at_limit
    : clPrintBytes true (some (List.replicate 4096 0)) 4096 = none := by
  have length : (List.replicate 4096 (0 : UInt8)).length = 4096 := List.length_replicate
  generalize List.replicate 4096 (0 : UInt8) = bytes at length
  by_contra ended
  have admitted : bytes.length ≤ 4096 := Nat.le_of_eq length
  have short := short_of_clPrintBytes admitted (by rw [length]; exact ended)
  omega

end Libccll.Convt
