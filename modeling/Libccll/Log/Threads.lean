import Mathlib.Logic.Function.Basic
import Libccll.Log.Header

/-! `log/log.c`: threads that log, write to the console, change the mode and bring the log up and
down. A lock has one owner; the text of a message is written one byte after the other.
-/

namespace Libccll.Log

open Foundation CString LocalTime

/-- `LOG_BUF_SZ` -/
def logBufSz : Nat := 8192

/-- The parameters of `cl_log` and `cl_console_prt`; `text` is what the format and its arguments
come to.
-/
structure Request where
  type : LogType
  tag : List UInt8
  text : List UInt8
  tag_nonzero : 0 ∉ tag
  text_nonzero : 0 ∉ text
  deriving DecidableEq

/-- What `vsnprintf` keeps with a size of `LOG_BUF_SZ - 1`. -/
def Request.cut (request : Request) : List UInt8 := request.text.take (logBufSz - 2)

inductive LogMode where
  | normal
  | silent
  deriving DecidableEq

/-- `s_prtfun`: a function of the application is told of the line, and does not log itself. -/
inductive PrintFun where
  | null
  | default
  | user
  deriving DecidableEq

/-- `g_log_buf`: the block it points to may have been freed. -/
inductive Pointer where
  | null
  | dangling
  | block (bytes : Buffer)

-----------------------------------------------------------------------------------------
-- Where the threads stand
-----------------------------------------------------------------------------------------

/-- In `def_print_fun`. -/
inductive Printing (zone : Zone) where
  | checking
  | stamping
  | dividing (clock : Clock zone)
  | labeling
  | showing

/-- In `cl_log_init`. -/
inductive Init where
  | testing
  | mutex
  | malloc
  | flag

/-- In `cl_log_deinit`. -/
inductive Deinit where
  | flag
  | free
  | null
  | mutex

/-- In a function of the library. A call of `cl_log` has a number from its test on. -/
inductive Place (zone : Zone) where
  | outside
  | testing (request : Request)
  | locking (n : Nat) (request : Request)
  | formatting (n : Nat) (request : Request) (i : Nat)
  | calling (n : Nat) (request : Request)
  | printing (n : Nat) (request : Request) (place : Printing zone)
  | unlocking
  | consoleTesting (request : Request)
  | console (request : Request) (place : Printing zone)
  | setting (mode : LogMode)
  | init (place : Init)
  | deinit (place : Deinit)

inductive Call where
  | log (request : Request)
  | console (request : Request)
  | setMode (mode : LogMode)
  | init
  | deinit

/-- What the environment answers: whether a call succeeds, the time, and what is in new memory. -/
structure Chance (zone : Zone) where
  ok : Bool
  clock : Clock zone
  garbage : Vector UInt8 logBufSz

inductive Action (θ : Type*) (zone : Zone) where
  | call (t : θ) (call : Call)
  | proceed (t : θ) (chance : Chance zone)
  | setPrtfun (fun_ : PrintFun)

-----------------------------------------------------------------------------------------
-- State
-----------------------------------------------------------------------------------------

/-- What became of a message: the application was told its text, or bytes went to the console. -/
inductive Line where
  | told (text : List UInt8)
  | shown (bytes : List UInt8)

/-- A call of `cl_log` that is through with its print function. -/
structure Entry where
  n : Nat
  request : Request
  line : Option Line

/-- `ready` says that `g_lock` is initialised. From `calls` on it is history: the calls that passed
their test, the threads in one of them, those that took the lock, what the print functions did, how
many calls of `cl_console_prt` passed theirs, and whether `cl_log_deinit` was ever called. `ended`
is set when the process crashes or exits.
-/
structure State (θ : Type*) (zone : Zone) where
  gLogHdr : Buffer
  gLogBuf : Pointer
  gLock : Option θ
  ready : Bool
  gInit : Bool
  gAlowLogType : Nat
  sPrtfun : PrintFun
  places : θ → Place zone
  ended : Bool
  calls : Nat
  busy : List θ
  taken : List (Nat × Request)
  printed : List Entry
  consoled : Nat
  lowered : Bool

variable {θ : Type*} {zone : Zone}

/-- Before the first call. -/
def State.initial : State θ zone where
  gLogHdr := List.replicate 128 0
  gLogBuf := .null
  gLock := none
  ready := false
  gInit := false
  gAlowLogType := LogType.debug.code
  sPrtfun := .null
  places _ := .outside
  ended := false
  calls := 0
  busy := []
  taken := []
  printed := []
  consoled := 0
  lowered := false

/-- The process crashes or exits. -/
def State.stop (s : State θ zone) : State θ zone := { s with ended := true }

variable [DecidableEq θ]

def State.moveTo (s : State θ zone) (t : θ) (place : Place zone) : State θ zone :=
  { s with places := Function.update s.places t place }

/-- A call in `def_print_fun` writes to the header. -/
def State.write (s : State θ zone) (t : θ) (place : Place zone) (hdr : Option Buffer)
    : State θ zone :=
  match hdr with
  | none => s.stop
  | some gLogHdr => { s.moveTo t place with gLogHdr }

-----------------------------------------------------------------------------------------
-- The functions
-----------------------------------------------------------------------------------------

/-- `def_print_fun`, where the caller has places for its steps and takes note of its end: of what
was printed, if anything. `txt` is the string behind `text`, if there is one.
-/
def defPrintFun (s : State θ zone) (t : θ) (type : LogType) (tag : List UInt8)
    (txt : Option (List UInt8)) (chance : Chance zone) (goto : Printing zone → Place zone)
    (finish : Option (List UInt8) → State θ zone)
    : Printing zone → State θ zone
  | .checking => if s.gInit = false then finish none else s.moveTo t (goto .stamping)
  | .stamping => s.write t (goto (.dividing chance.clock)) (writeDate s.gLogHdr chance.clock)
  | .dividing clock => s.write t (goto .labeling) (writeFraction s.gLogHdr clock)
  | .labeling => s.write t (goto .showing) (writeLabel s.gLogHdr type tag)
  | .showing =>
      match str s.gLogHdr 0, txt with
      | some hdr, some txt => finish (some (line type hdr txt))
      | _, _ => s.stop

/-- The string in `g_log_buf`. -/
def State.message (s : State θ zone) : Option (List UInt8) :=
  match s.gLogBuf with
  | .block bytes => str bytes 0
  | _ => none

/-- A byte is written to `g_log_buf`. -/
def State.store (s : State θ zone) (t : θ) (place : Place zone) (i : Nat) (b : UInt8)
    : State θ zone :=
  match s.gLogBuf with
  | .block bytes =>
      match put bytes i b with
      | none => s.stop
      | some bytes => { s.moveTo t place with gLogBuf := .block bytes }
  | _ => s.stop

/-- The print function that was called is through. -/
def State.note (s : State θ zone) (t : θ) (n : Nat) (request : Request) (line : Option Line)
    : State θ zone :=
  { s.moveTo t .unlocking with printed := s.printed ++ [⟨n, request, line⟩] }

/-- `cl_log_init` -/
def clLogInit (s : State θ zone) (t : θ) (chance : Chance zone) : Init → State θ zone
  | .testing => s.moveTo t (if s.gInit = true then .outside else .init .mutex)
  | .mutex =>
      if chance.ok = true then
        { s.moveTo t (.init .malloc) with gLock := none, ready := true }
      else
        s.moveTo t .outside
  | .malloc =>
      if chance.ok = true then
        { s.moveTo t (.init .flag) with gLogBuf := .block chance.garbage.toList }
      else
        { s.moveTo t .outside with gLogBuf := .null }
  | .flag => { s.moveTo t .outside with gInit := true }

/-- `cl_log_deinit`; a mutex in use is not destroyed. -/
def clLogDeinit (s : State θ zone) (t : θ) : Deinit → State θ zone
  | .flag => { s.moveTo t (.deinit .free) with gInit := false, lowered := true }
  | .free =>
      match s.gLogBuf with
      | .null => s.moveTo t (.deinit .null)
      | .dangling => s.stop
      | .block _ => { s.moveTo t (.deinit .null) with gLogBuf := .dangling }
  | .null => { s.moveTo t (.deinit .mutex) with gLogBuf := .null }
  | .mutex => { s.moveTo t .outside with ready := s.ready && s.gLock.isSome }

/-- `cl_set_mode` -/
def clSetMode (s : State θ zone) (t : θ) : LogMode → State θ zone
  | .normal => { s.moveTo t .outside with gAlowLogType := LogType.debug.code }
  | .silent => { s.moveTo t .outside with gAlowLogType := 0xff }

/-- `cl_log` -/
def clLog (s : State θ zone) (t : θ) (chance : Chance zone) : Place zone → Option (State θ zone)
  | .testing request =>
      if request.type.code < s.gAlowLogType then
        some (s.moveTo t .outside)
      else
        some {
          s.moveTo t (.locking s.calls request) with
          calls := s.calls + 1
          busy := t :: s.busy
        }
  | .locking n request =>
      if s.ready = false then
        some s.stop
      else if s.gLock = none then
        some {
          s.moveTo t (.formatting n request 0) with
          gLock := some t
          taken := s.taken ++ [(n, request)]
        }
      else
        none
  | .formatting n request i =>
      if i < request.cut.length then
        some (s.store t (.formatting n request (i + 1)) i (request.cut.getD i 0))
      else
        some (s.store t (.calling n request) i 0)
  | .calling n request =>
      if s.sPrtfun = .user then
        match s.message with
        | some txt => some (s.note t n request (some (.told txt)))
        | none => some s.stop
      else
        some (s.moveTo t (.printing n request .checking))
  | .printing n request place =>
      some <|
        defPrintFun s t request.type request.tag s.message chance (.printing n request)
          (fun shown => s.note t n request (shown.map .shown)) place
  | .unlocking => some { s.moveTo t .outside with gLock := none, busy := s.busy.erase t }
  | _ => none

/-- `cl_console_prt` -/
def clConsolePrt (s : State θ zone) (t : θ) (chance : Chance zone)
    : Place zone → Option (State θ zone)
  | .consoleTesting request =>
      if request.type.code < s.gAlowLogType then
        some (s.moveTo t .outside)
      else
        some { s.moveTo t (.console request .checking) with consoled := s.consoled + 1 }
  | .console request place =>
      some <|
        defPrintFun s t request.type request.tag (some request.text) chance (.console request)
          (fun _ => s.moveTo t .outside) place
  | _ => none

/-- The next step of the call that a thread is in. -/
def State.proceed (s : State θ zone) (t : θ) (chance : Chance zone) : Option (State θ zone) :=
  match s.places t with
  | .outside => none
  | .consoleTesting _ | .console _ _ => clConsolePrt s t chance (s.places t)
  | .setting mode => some (clSetMode s t mode)
  | .init place => some (clLogInit s t chance place)
  | .deinit place => some (clLogDeinit s t place)
  | _ => clLog s t chance (s.places t)

/-- Where a call starts. -/
def Call.start : Call → Place zone
  | .log request => .testing request
  | .console request => .consoleTesting request
  | .setMode mode => .setting mode
  | .init => .init .testing
  | .deinit => .deinit .flag

def step (s : State θ zone) (action : Action θ zone) : Option (State θ zone) :=
  if s.ended = true then
    none
  else
    match action with
    | .call t call =>
        match s.places t with
        | .outside => some (s.moveTo t call.start)
        | _ => none
    | .proceed t chance => s.proceed t chance
    | .setPrtfun sPrtfun => some { s with sPrtfun }

end Libccll.Log
