import Libccll.Foundation.CString

/-! `comm/txt.c`: lines of a text in memory. A sum that is no `int` is `none`, as is an access
outside a buffer.
-/

namespace Libccll.Txt

open Foundation.CString

/-- `INT_MAX` -/
abbrev intMax : Nat := 2147483647

/-- The loop of `cl_txt_pos_line`: how far it gets, and whether a newline stops it. -/
def scan : Buffer → Nat → Option (Bool × Nat)
  | [], _ => none
  | b :: src, off =>
      if b = 0 then
        some (false, off)
      else if b = chr '\n' then
        some (true, off)
      else if off = intMax then
        none
      else
        scan src (off + 1)

/-- `cl_txt_pos_line`, where `src` points into a buffer. -/
def clTxtPosLine (dst : Buffer) (max : Nat) (src : Buffer) (pos : Nat)
    : Option (Int × Buffer) := do
  if max < 1 then
    return (-1, dst)
  let (newline, off) ← scan (src.drop pos) 0
  let dst ← strncpy dst src pos off
  let dst ← put dst off 0
  if newline = true then
    let dst ←
      if 0 < off ∧ dst[off - 1]? = some (chr '\r') then
        put dst (off - 1) 0
      else
        some dst
    if off = intMax then
      none
    else
      return (off + 1, dst)
  else
    return (0, dst)

end Libccll.Txt
