import Libccll.Config.Ini
import Libccll.Foundation.Scanning

/-! `sys/mem.c`: how much memory a process uses, as the kernel reports it. -/

namespace Libccll.Mems

open Foundation CString Printing Scanning

/-- The members of `MemInfo`. -/
inductive Item where
  | vmpeak
  | vmsize
  | vmrss
  | vmdata
  | vmstk
  | vmexe
  | vmlib
  deriving DecidableEq

/-- What its line starts with. -/
def Item.label : Item → List UInt8
  | .vmpeak => text "VmPeak:"
  | .vmsize => text "VmSize:"
  | .vmrss => text "VmRSS:"
  | .vmdata => text "VmData:"
  | .vmstk => text "VmStk:"
  | .vmexe => text "VmExe:"
  | .vmlib => text "VmLib:"

/-- The members in the order in which a line is compared with their labels. -/
def items : List Item := [.vmpeak, .vmsize, .vmrss, .vmdata, .vmstk, .vmexe, .vmlib]

abbrev MemInfo := Item → Int

/-- `sizeof(MemInfo) / sizeof(int)`, where the members are `long`. -/
def itemCnt : Nat := items.length * 8 / 4

/-- What a line is about. -/
def itemOf (s : List UInt8) : Option Item := items.find? fun item => item.label.isPrefixOf s

/-- The loop over the lines, for so many turns at most. -/
def readLoop : Nat → Buffer → List UInt8 → Nat → MemInfo → Option MemInfo
  | 0, _, _, _, _ => none
  | turns + 1, buffer, fp, foundCnt, mi => do
      match ← Ini.fgets buffer 256 fp with
      | none => return mi
      | some (buffer, fp) =>
          if foundCnt = itemCnt then
            return mi
          let s ← str buffer 0
          match itemOf s with
          | none => readLoop turns buffer fp foundCnt mi
          | some item =>
              let v := sscanfLd (s.drop item.label.length) (mi item)
              readLoop turns buffer fp (foundCnt + 1) (Function.update mi item v)

/-- What is stored through the pointers of the caller. -/
structure RunningMems where
  vmRss : Int
  vmSize : Int
  vmPeak : Int
  vmData : Int
  vmStk : Int
  deriving DecidableEq

/-- A `long` stored to an `int`. -/
def toInt (v : Int) : Int := v.bmod (2 ^ 32)

def RunningMems.of (mi : MemInfo) : RunningMems where
  vmRss := toInt (mi .vmrss)
  vmSize := toInt (mi .vmsize)
  vmPeak := toInt (mi .vmpeak)
  vmData := toInt (mi .vmdata)
  vmStk := toInt (mi .vmstk)

/-- The name of the file. -/
def procStt (process : List UInt8) : List UInt8 := text "/proc/" ++ process ++ text "/status"

/-- `_get_running_mems`; `proc_stt` and `buffer` are what the stack holds. -/
def _getRunningMems (fopen : List UInt8 → Option (List UInt8)) (proc_stt buffer : Buffer)
    (process : List UInt8) (out : RunningMems)
    : Option (Ret × RunningMems) := do
  let proc_stt ← fill proc_stt (procStt process ++ [0])
  match fopen (← str proc_stt 0) with
  | none => return (.fail, out)
  | some fp => do
      let mi ← readLoop (fp.length + 1) buffer fp 0 fun _ => 0
      return (.succ, RunningMems.of mi)

/-- `cl_mem_get_curr_running_mems` -/
def clMemGetCurrRunningMems (fopen : List UInt8 → Option (List UInt8))
    (proc_stt buffer : Buffer) (out : RunningMems)
    : Option (Ret × RunningMems) :=
  _getRunningMems fopen proc_stt buffer (text "self") out

/-- `cl_mem_get_running_mems` -/
def clMemGetRunningMems (fopen : List UInt8 → Option (List UInt8))
    (pid_in_str proc_stt buffer : Buffer) (pid : Int) (out : RunningMems)
    : Option (Ret × RunningMems) := do
  let pid_in_str ← fill pid_in_str (decimal pid ++ [0])
  _getRunningMems fopen proc_stt buffer (← str pid_in_str 0) out

end Libccll.Mems
