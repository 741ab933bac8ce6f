import Libccll.Comm.Def
import Libccll.Config.Txt

/-! `cfg/ini.c`: looking up a key in a file or in a text. -/

namespace Libccll.Ini

open Foundation.CString Txt

inductive FindRet where
  | found
  | none
  | fail
  deriving DecidableEq

def isBlank (b : UInt8) : Bool := b = chr ' ' ∨ b = chr '\t'

/-- `while (*p == ' ' || *p == '\t') p++;`, on the bytes from `p` on. -/
def skipFrom : Buffer → Nat → Option Nat
  | [], _ => none
  | b :: rest, p => if isBlank b = true then skipFrom rest (p + 1) else some p

def skipBlanks (line : Buffer) (p : Nat) : Option Nat := skipFrom (line.drop p) p

/-- `while (end > p && (*end == ' ' || *end == '\t')) end--;`, from `end + 1` to `end + 1`. -/
def backBlanks (line : Buffer) (p : Nat) : Nat → Option Nat
  | 0 => some 0
  | e + 1 =>
      if p < e then
        match (line)[e]? with
        | none => none
        | some b => if isBlank b = true then backBlanks line p e else some (e + 1)
      else
        some (e + 1)

/-- What `_get_value` returns, and the buffers as it leaves them. -/
structure Parsed where
  ret : FindRet
  line : Buffer
  sec : Buffer
  value : Mem

/-- The rest of `_get_value`, once the delimiter is found. -/
def matchKey (line : Buffer) (_sec : Buffer) (key : List UInt8) (value : Mem)
    (llen delimiter : Nat)
    : Option Parsed := do
  let line ← put line delimiter 0
  let _key ← skipBlanks line 0
  let stop ← backBlanks line _key delimiter
  let line ← put line stop 0
  if (← str line _key) ≠ key then
    return ⟨.none, line, _sec, value⟩
  let _val ← skipBlanks line (delimiter + 1)
  let stop ← backBlanks line _val llen
  let line ← put line stop 0
  let n := stop + 1 - _val
  if line.length < _val + n then
    none
  else
    return ⟨.found, line, _sec, memcpy value (fun i => line.getD (_val + i) 0) n⟩

/-- The rest of `_get_value`, once the newline is cut off. -/
def parseLine (line : Buffer) (sec : Option (List UInt8)) (_sec : Buffer) (key : List UInt8)
    (value : Mem)
    : Option Parsed := do
  let llen ← strlen line 0
  let first ← (line)[0]?
  if first = 0 ∨ first = chr ';' ∨ first = chr '#' then
    return ⟨.none, line, _sec, value⟩
  if first = chr '[' ∧ (line)[llen - 1]? = some (chr ']') then
    let _sec ← Foundation.CString.memcpy _sec line 1 (llen - 2)
    let _sec ← put _sec (llen - 2) 0
    return ⟨if sec.isNone = true then .fail else .none, line, _sec, value⟩
  let cur ← str _sec 0
  if sec.any (fun sec => decide (sec ≠ cur)) = true then
    return ⟨.none, line, _sec, value⟩
  match ← strchr line 0 (chr '=') with
  | none => return ⟨.none, line, _sec, value⟩
  | some delimiter => matchKey line _sec key value llen delimiter

def _getValue (line : Buffer) (sec : Option (List UInt8)) (_sec : Buffer) (key : List UInt8)
    (value : Mem)
    : Option Parsed := do
  if (← strlen line 0) < 1 then
    return ⟨.fail, line, _sec, value⟩
  let line ← put line (← strcspn line 0 (chr '\n')) 0
  parseLine line sec _sec key value

/-- What `fgets` reads with room for so many characters. -/
def readLine : Nat → List UInt8 → List UInt8
  | 0, _ | _, [] => []
  | room + 1, b :: file => if b = chr '\n' then [b] else b :: readLine room file

/-- `fgets`, where the file stands before the bytes still to read; `none` inside is `NULL`. -/
def fgets (line : Buffer) (n : Nat) (file : List UInt8)
    : Option (Option (Buffer × List UInt8)) :=
  let read := readLine (n - 1) file
  if read = [] then
    some none
  else
    (fill line (read ++ [0])).map fun line => some (line, file.drop read.length)

/-- The checks of key and section that both lookups start with. -/
def lensExceed (section_ : Option (List UInt8)) (key : List UInt8) : Bool :=
  key.length < 1 ∨ 64 < key.length
  ∨ section_.any (fun section_ => section_.length < 1 ∨ 64 < section_.length)

/-- The loop of `cl_ini_get`, for so many turns at most. -/
def getLoop (section_ : Option (List UInt8)) (key : List UInt8)
    : Nat → Buffer → Buffer → List UInt8 → Mem → Option (Ret × Mem)
  | 0, _, _, _, _ => none
  | turns + 1, line, _sec, file, value => do
      match ← fgets line 256 file with
      | none => return (.fail, value)
      | some (line, file) =>
          let parsed ← _getValue line section_ _sec key value
          match parsed.ret with
          | .found => return (.succ, parsed.value)
          | .none => getLoop section_ key turns parsed.line parsed.sec file parsed.value
          | .fail => return (.fail, parsed.value)

/-- `cl_ini_get`; `line` is what the stack holds, and pointers that are `NULL` are `none`. -/
def clIniGet {ν : Type*} (fopen : ν → Option (List UInt8)) (line : Buffer) (fn : Option ν)
    (section_ key : Option (List UInt8)) (value : Option Mem)
    : Option (Ret × Option Mem) :=
  match fn, key, value with
  | some fn, some key, some value =>
      if lensExceed section_ key = true then
        some (.fail, some value)
      else
        match fopen fn with
        | none => some (.fail, some value)
        | some file =>
            (getLoop section_ key (file.length + 1) line (List.replicate 64 0) file value).map
              fun (ret, value) => (ret, some value)
  | _, _, value => some (.fail, value)

/-- The loop of `cl_ini_get2`, for so many turns at most. -/
def getLoop2 (section_ : Option (List UInt8)) (key : List UInt8) (cfgTxt : Buffer)
    : Nat → Buffer → Buffer → Nat → Mem → Option (Ret × Mem)
  | 0, _, _, _, _ => none
  | turns + 1, line, _sec, txt, value => do
      let (off, line) ← clTxtPosLine line 256 cfgTxt txt
      if off = -1 then
        return (.fail, value)
      let parsed ← _getValue line section_ _sec key value
      match parsed.ret with
      | .found => return (.succ, parsed.value)
      | .none =>
          if off = 0 then
            return (.fail, parsed.value)
          else
            getLoop2 section_ key cfgTxt turns parsed.line parsed.sec (txt + off.toNat)
              parsed.value
      | .fail => return (.fail, parsed.value)

/-- `cl_ini_get2`. -/
def clIniGet2 (line : Buffer) (cfgTxt : Option Buffer) (section_ key : Option (List UInt8))
    (value : Option Mem)
    : Option (Ret × Option Mem) :=
  match cfgTxt, key, value with
  | some cfgTxt, some key, some value =>
      if lensExceed section_ key = true then
        some (.fail, some value)
      else do
        let tlen ← strlen cfgTxt 0
        if tlen < 1 ∨ 1048576 < tlen then
          return (.fail, some value)
        else
          (getLoop2 section_ key cfgTxt (tlen + 1) line (List.replicate 64 0) 0 value).map
            fun (ret, value) => (ret, some value)
  | _, _, value => some (.fail, value)

end Libccll.Ini
