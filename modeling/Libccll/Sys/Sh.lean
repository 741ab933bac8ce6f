import Libccll.Alloc.Report

/-! `sys/sh.c`: a command, and the buffer that its output is read into. An access outside of a
buffer or through `NULL` is `none`.
-/

namespace Libccll.Sh

open Foundation CString Printing
open Libccll.Alloc (sprintfAt sprintfAt_eq bind_of_eq_some)

/-- A command that runs: what it writes, and what it exits with once so many bytes of that were
read.
-/
structure Pipe where
  output : List UInt8
  exit : Nat → Int

/-- `FAIL` and `SUCC`, among the exit codes. -/
def FAIL : Int := -1
def SUCC : Int := 0

/-- `_read_all_out`, with so many turns left: what is left of the output. -/
def readAllOutFrom : Nat → List UInt8 → List UInt8
  | 0, rest => rest
  | cnt + 1, rest =>
      if (rest.take 2048).length < 2048 then rest.drop 2048
      else readAllOutFrom cnt (rest.drop 2048)

def readAllOut (rest : List UInt8) : List UInt8 := readAllOutFrom 10000 rest

/-- The command line given to `popen`; `malloc` says whether there is memory for it. -/
def cmdExe (malloc : Bool) (cmd : Buffer) : Option (List UInt8) := do
  let len ← strlen cmd 0
  let bytes := ((len : Int) + 8).bmod (2 ^ 32)
  if bytes < 0 ∨ malloc = false then
    none
  else
    let buf ← sprintfAt (List.replicate bytes.toNat 0) 0 ((← str cmd 0) ++ text " 2>&1")
    str buf 0

/-- `pclose`, with some of the output unread, and what is made of its result. -/
def close (pf : Pipe) (rest : List UInt8) : Int :=
  let rc := pf.exit (pf.output.length - rest.length)
  if rc ≠ 0 then rc else SUCC

/-- What becomes of the output of a command: what is returned, `result` and `*rlen`. -/
def fetch (pf : Pipe) (result : Option Buffer) (size : Int) (rlen : Option Int)
    : Option (Int × Option Buffer × Option Int) :=
  match result with
  | none => some (close pf (readAllOut pf.output), none, rlen)
  | some result =>
      let rsz := size - 1
      if rsz < 0 then
        some (close pf (readAllOut pf.output), some result, rlen)
      else do
        let read := pf.output.take rsz.toNat
        let rest := pf.output.drop rsz.toNat
        let result ← fill result read
        let result ← put result rsz.toNat 0
        let rlen := rlen.map fun _ => (read.length : Int)
        let rest := if read.length = rsz then readAllOut rest else rest
        return (close pf rest, some result, rlen)

/-- `cl_sh_exec`, with a `NULL` pointer as `none`: what is returned, `result` and `*rlen`. -/
def clShExec (malloc : Bool) (popen : List UInt8 → Option Pipe) (cmd result : Option Buffer)
    (size : Int) (rlen : Option Int) : Option (Int × Option Buffer × Option Int) :=
  match cmd with
  | none => some (FAIL, result, rlen)
  | some cmd =>
      if size < 0 ∨ 0x100000 < size then
        some (FAIL, result, rlen)
      else do
        match popen (← cmdExe malloc cmd) with
        | none => return (FAIL, result, rlen)
        | some pf => fetch pf result size rlen

variable {pf : Pipe} {result : Buffer} {size old : Int} {malloc : Bool}
variable {popen : List UInt8 → Option Pipe} {cmd : Buffer} {line : List UInt8}

-----------------------------------------------------------------------------------------
-- The command line
-----------------------------------------------------------------------------------------

theorem zero_notMem_redirection : 0 ∉ text " 2>&1" := by decide

/-- There is room for the redirection. -/
theorem cmdExe_eq {s : List UInt8} (holds : Holds cmd 0 s) (short : s.length + 8 < 2 ^ 31)
    : cmdExe true cmd = some (s ++ text " 2>&1") := by
  have bytes : ((s.length : Int) + 8).bmod (2 ^ 32) = ((s.length + 8 : Nat) : Int) := by
    rw [Int.bmod_eq_of_le] <;> omega
  have empty : Holds (List.replicate (s.length + 8) 0) 0 [] := blank_holds
  have visible : 0 ∉ s ++ text " 2>&1" := List.not_mem_append holds.1 zero_notMem_redirection
  have room : ([] ++ (s ++ text " 2>&1")).length
      < (List.replicate (s.length + 8) (0 : UInt8)).length := by
    have redirection : (text " 2>&1").length = 5 := by decide
    rw [List.nil_append, List.length_append, redirection, List.length_replicate]
    omega
  obtain ⟨buf, printed, _, holds'⟩ := sprintfAt_eq rfl empty.1 visible room
  have unfolded : cmdExe true cmd
      = (strlen cmd 0).bind fun n =>
          if ((n : Int) + 8).bmod (2 ^ 32) < 0 ∨ true = false then
            none
          else
            (str cmd 0).bind fun s =>
              (sprintfAt (List.replicate (((n : Int) + 8).bmod (2 ^ 32)).toNat 0) 0
                (s ++ text " 2>&1")).bind fun buf => str buf 0 :=
    rfl
  have positive : ¬(((s.length + 8 : Nat) : Int) < 0 ∨ true = false) :=
    not_or.mpr ⟨by omega, nofun⟩
  rw [unfolded, holds.strlen, Option.bind_some, bytes, if_neg positive, holds.str,
    Option.bind_some, Int.toNat_natCast]
  exact (bind_of_eq_some printed).trans holds'.str

-----------------------------------------------------------------------------------------
-- The output
-----------------------------------------------------------------------------------------

/-- What is in `result` when the output was read. -/
def fetched (pf : Pipe) (result : Buffer) (rsz : Nat) : Buffer :=
  (pf.output.take rsz ++ result.drop (pf.output.take rsz).length).set rsz 0

theorem fetch_eq (pf : Pipe) (old : Int) (positive : 1 ≤ size) (room : size ≤ result.length)
    : ∃ ret, fetch pf (some result) size (some old)
        = some (ret, some (fetched pf result (size - 1).toNat),
            some ((pf.output.take (size - 1).toNat).length : Int)) := by
  have short : (pf.output.take (size - 1).toNat).length ≤ (size - 1).toNat :=
    List.length_take_le _ _
  have filled : fill result (pf.output.take (size - 1).toNat)
      = some (pf.output.take (size - 1).toNat
          ++ result.drop (pf.output.take (size - 1).toNat).length) :=
    if_pos (by omega)
  have stored : put (pf.output.take (size - 1).toNat
          ++ result.drop (pf.output.take (size - 1).toNat).length) (size - 1).toNat 0
      = some (fetched pf result (size - 1).toNat) := by
    refine if_pos ?_
    rw [List.length_append, List.length_drop]
    omega
  refine ⟨close pf (if ((pf.output.take (size - 1).toNat).length : Int) = size - 1
    then readAllOut (pf.output.drop (size - 1).toNat) else pf.output.drop (size - 1).toNat), ?_⟩
  simp only [fetch, if_neg (show ¬size - 1 < 0 by omega), filled, stored, Option.bind_eq_bind,
    Option.bind_some, Option.map_some, Option.pure_def]

theorem holds_append_cons {s rest : List UInt8} {b : UInt8} (visible : 0 ∉ s)
    : Holds (s ++ b :: rest) 0 s ↔ b = 0 := by
  constructor
  · rintro ⟨_, rest', split⟩
    rw [List.drop_zero, List.append_cancel_left_eq, List.cons.injEq] at split
    exact split.1
  · rintro rfl
    exact ⟨visible, rest, List.drop_zero⟩

/-- The output that was read is terminated when there was no room for more of it, or when the buffer
had the terminator in the right place before.
-/
theorem holds_fetched_iff {rsz : Nat} (visible : 0 ∉ pf.output) (room : rsz < result.length)
    : Holds (fetched pf result rsz) 0 (pf.output.take rsz)
      ↔ rsz ≤ pf.output.length ∨ result[pf.output.length]? = some 0 := by
  have visible' : 0 ∉ pf.output.take rsz := fun member => visible (List.mem_of_mem_take member)
  rw [fetched, List.set_append_right _ _ (List.length_take_le _ _)]
  rcases Nat.lt_or_ge pf.output.length rsz with less | all
  · have inside : pf.output.length < result.length := Nat.lt_trans less room
    obtain ⟨k, last⟩ := Nat.exists_eq_add_of_lt less
    rw [List.take_of_length_le (Nat.le_of_lt less), List.drop_eq_getElem_cons inside,
      show rsz - pf.output.length = k + 1 by omega, List.set_cons_succ,
      holds_append_cons visible, List.getElem?_eq_getElem inside, Option.some_inj,
      or_iff_right (Nat.not_le.mpr less)]
  · have full : (pf.output.take rsz).length = rsz := List.length_take_of_le all
    rw [full, Nat.sub_self, List.drop_eq_getElem_cons room, List.set_cons_zero,
      holds_append_cons visible']
    exact iff_of_true rfl (Or.inl all)

-----------------------------------------------------------------------------------------
-- A call
-----------------------------------------------------------------------------------------

theorem clShExec_of_started (size_ok : 0 ≤ size ∧ size ≤ 0x100000)
    (line_eq : cmdExe malloc cmd = some line) (started : popen line = some pf)
    : clShExec malloc popen (some cmd) (some result) size (some old)
      = fetch pf (some result) size (some old) := by
  have admitted : ¬(size < 0 ∨ 0x100000 < size) := by omega
  rw [clShExec, if_neg admitted, line_eq]
  simp only [Option.bind_eq_bind, Option.bind_some, started]

/-- What was read is a string in `result`, of the length in `*rlen`, exactly when nothing of the
buffer had to be terminated but its end, or the terminator was there before the call.
-/
theorem clShExec_result_iff (visible : 0 ∉ pf.output) (lower : 1 ≤ size) (upper : size ≤ 0x100000)
    (room : size ≤ result.length) (line_eq : cmdExe malloc cmd = some line)
    (started : popen line = some pf)
    : (∃ ret result' len,
        clShExec malloc popen (some cmd) (some result) size (some old)
          = some (ret, some result', some len)
        ∧ Holds result' 0 (pf.output.take (size - 1).toNat)
        ∧ len = (pf.output.take (size - 1).toNat).length)
      ↔ size - 1 ≤ pf.output.length ∨ result[pf.output.length]? = some 0 := by
  obtain ⟨ret, read⟩ := fetch_eq pf old lower room
  rw [clShExec_of_started ⟨by omega, upper⟩ line_eq started, read]
  have inside : (size - 1).toNat < result.length := by omega
  have holds := holds_fetched_iff visible inside
  rw [show size - 1 ≤ pf.output.length ↔ (size - 1).toNat ≤ pf.output.length by omega, ← holds]
  constructor
  · rintro ⟨_, _, _, same, string, _⟩
    cases same
    exact string
  · intro string
    exact ⟨_, _, _, rfl, string, rfl⟩

/-- A directory with one file in it, `a`. -/
def ls : Pipe := { output := [97, 10], exit := fun _ => 0 }

theorem cmdExe_ls : cmdExe true [108, 115, 0] = some ([108, 115] ++ text " 2>&1") :=
  cmdExe_eq ⟨by decide, [], rfl⟩ (by decide)

theorem clShExec_result_iff_ls
    : (∃ ret result' len,
        clShExec true (fun _ => some ls) (some [108, 115, 0]) (some [0, 0, 0, 0]) 4 (some 0)
          = some (ret, some result', some len)
        ∧ Holds result' 0 (ls.output.take (4 - 1 : Int).toNat)
        ∧ len = (ls.output.take (4 - 1 : Int).toNat).length)
      ↔ (4 - 1 : Int) ≤ ls.output.length
        ∨ ([0, 0, 0, 0] : List UInt8)[ls.output.length]? = some 0 :=
  clShExec_result_iff (by decide) (by decide) (by decide) (by decide) cmdExe_ls rfl

/-- Other bytes in the buffer are left between the output and the terminator. -/
theorem clShExec_stale
    : ¬∃ ret result' len,
        clShExec true (fun _ => some ls) (some [108, 115, 0]) (some [120, 120, 120, 120]) 4 (some 0)
          = some (ret, some result', some len)
        ∧ Holds result' 0 (ls.output.take (4 - 1 : Int).toNat)
        ∧ len = (ls.output.take (4 - 1 : Int).toNat).length := by
  rintro ⟨ret, result', len, called, ⟨_, rest, split⟩, _⟩
  rw [clShExec_of_started (by decide) cmdExe_ls rfl] at called
  cases called
  exact absurd split (by simp [ls])

end Libccll.Sh
