import Mathlib.Logic.Function.Basic
import Libccll.Comm.Def
import Libccll.Foundation.LittleEndian

/-! `sys/timer.c`: the messages of the client and what the timer thread does with them and
with expired timers. A callback is its address, `0` for `NULL`. The kernel answers each of its
calls; a descriptor it hands out is recorded with a number of its own.
-/

namespace Libccll.Timers

open Foundation

-----------------------------------------------------------------------------------------
-- Client
-----------------------------------------------------------------------------------------

/-- Bytes of a message. -/
abbrev sz : Nat := 20

def _loadSrvBuf (type sec ms : Nat) (rpe : UInt32) (cb : UInt64) (buf : Mem) : Mem :=
  let idx := 0
  let buf := LittleEndian.store 1 idx 1 buf
  let idx := idx + 1
  let buf := LittleEndian.store 2 idx (1 + 2 + 2 + 4 + 8) buf
  let idx := idx + 2
  let buf := LittleEndian.store 1 idx type buf
  let idx := idx + 1
  let buf := LittleEndian.store 2 idx sec buf
  let idx := idx + 2
  let buf := LittleEndian.store 2 idx ms buf
  let idx := idx + 2
  let buf := LittleEndian.store 4 idx rpe.toNat buf
  let idx := idx + 4
  LittleEndian.store 8 idx cb.toNat buf

/-- A call of the application. -/
inductive Call where
  | clTimerSet (sec ms : UInt16) (repeats : Int32) (cb : UInt64)
  | clTimerCancel (cb : UInt64)

/-- The message of a call, made in a buffer with arbitrary contents. -/
def Call.message (buf : Mem) : Call → List UInt8
  | .clTimerSet sec ms repeats cb =>
      (List.range sz).map (_loadSrvBuf 1 sec.toNat ms.toNat repeats.toUInt32 cb buf)
  | .clTimerCancel cb => (List.range sz).map (_loadSrvBuf 2 0 0 0 cb buf)

/-- `cl_timer_set` and `cl_timer_cancel`: the stream to the server afterwards. -/
def Call.run (call : Call) (buf : Mem) (written : Bool) (stream : List UInt8)
    : Ret × List UInt8 :=
  if written then
    (.succ, stream ++ call.message buf)
  else
    (.fail, stream)

-----------------------------------------------------------------------------------------
-- Server
-----------------------------------------------------------------------------------------

/-- `MAX_TIMER_CNT` -/
abbrev maxTimerCnt : Nat := 100

/-- `Timer`. The number `inst` tells registrations apart; the source has the address. -/
structure Timer where
  srv : Bool
  fd : Nat
  repeats : UInt32
  cb : UInt64
  inst : Nat
  deriving DecidableEq

structure Itimerspec where
  valueSec : Int
  valueNsec : Int
  intervalSec : Int
  intervalNsec : Int
  deriving DecidableEq

/-- An open timer descriptor. -/
structure TimerFd where
  inst : Nat
  its : Itimerspec

/-- `g_li_sock`, and the kernel's view: the open timer descriptors, the interest list of the
epoll instance, and how many timer descriptors there have been.
-/
structure Server where
  liSock : List Timer
  timerfds : Nat → Option TimerFd
  epoll : Nat → Bool
  created : Nat

/-- A descriptor that the server has not open. -/
def Server.Unused (s : Server) (fd : Nat) : Prop := s.timerfds fd = none ∧ s.epoll fd = false

instance (s : Server) (fd : Nat) : Decidable (s.Unused fd) :=
  decidable_of_iff ((s.timerfds fd).isNone = true ∧ s.epoll fd = false)
    (and_congr_left' Option.isNone_iff_eq_none)

/-- How the kernel answers while a timer is created. -/
structure Kernel where
  timerfdCreate : Option Nat
  epollAdd : Bool
  timerfdSettime : Bool

def Server.setTimerFd (s : Server) (fd : Nat) (timerfd : Option TimerFd) : Server :=
  { s with timerfds := Function.update s.timerfds fd timerfd }

def _epollDel (fd : Nat) (s : Server) : Server :=
  { s with epoll := Function.update s.epoll fd false }

/-- Closing a descriptor also takes it off the interest list. -/
def close (fd : Nat) (s : Server) : Server :=
  _epollDel fd (s.setTimerFd fd none)

def timerfdSettime (fd : Nat) (its : Itimerspec) (s : Server) : Server :=
  s.setTimerFd fd ((s.timerfds fd).map ({ · with its }))

def listAdd (node : Timer) (s : Server) : Server :=
  { s with liSock := s.liSock ++ [node] }

def listDel (node : Timer) (s : Server) : Server :=
  { s with liSock := s.liSock.eraseP (·.inst = node.inst) }

def _creNode (fd : Nat) (cb : UInt64) (inst : Nat) : Timer where
  srv := false
  fd
  repeats := 0
  cb
  inst

/-- `ms * 1000000` is an `int`, which wraps around from 2148 milliseconds on. -/
def itimerspec (sec ms : UInt16) : Itimerspec :=
  let ns := (Int32.ofNat (ms.toNat * 1000000)).toInt
  {
    valueSec := sec.toNat
    valueNsec := ns
    intervalSec := sec.toNat
    intervalNsec := ns
  }

def disarmed : Itimerspec := ⟨0, 0, 0, 0⟩

def _creCliNode (kernel : Kernel) (sec ms : UInt16) (repeats : UInt32) (cb : UInt64)
    (s : Server)
    : Ret × Server :=
  match kernel.timerfdCreate with
  | none => (.fail, s)
  | some fd =>
      let inst := s.created + 1
      let s := { s.setTimerFd fd (some ⟨inst, disarmed⟩) with created := inst }
      let newCli := { _creNode fd cb inst with repeats }
      let s := listAdd newCli s
      if kernel.epollAdd = false then
        (.fail, close fd (listDel newCli s))
      else
        let s := { s with epoll := Function.update s.epoll fd true }
        if kernel.timerfdSettime = false then
          (.fail, close fd (listDel newCli s))
        else
          (.succ, timerfdSettime fd (itimerspec sec ms) s)

def _addTimer (kernel : Kernel) (sec ms : UInt16) (repeats : UInt32) (cb : UInt64)
    (s : Server)
    : Server :=
  if s.liSock.any (·.cb = cb) then
    s
  else if s.liSock.length > maxTimerCnt then
    s
  else
    (_creCliNode kernel sec ms repeats cb s).2

def _cancelTimerfd (fd : Nat) (s : Server) : Server :=
  close fd (timerfdSettime fd disarmed s)

def _rmvTimer (cb : UInt64) (s : Server) : Server :=
  match s.liSock.find? (fun tmr => tmr.srv = false ∧ tmr.cb = cb) with
  | none => s
  | some tmr => close tmr.fd (listDel tmr (_cancelTimerfd tmr.fd (_epollDel tmr.fd s)))

/-- The part of `_srv_timer_proc` after its `read`; the Boolean asks for the end of the thread. -/
def procMessage (kernel : Kernel) (buf : Mem) (s : Server) : Bool × Server :=
  let idx := 0
  if LittleEndian.load 1 idx buf ≠ 1 then
    (false, s)
  else
    let idx := idx + 1
    if LittleEndian.load 2 idx buf ≠ 17 then
      (false, s)
    else
      let idx := idx + 2
      let type := LittleEndian.load 1 idx buf
      let idx := idx + 1
      match type with
      | 1 =>
          let sec := UInt16.ofNat (LittleEndian.load 2 idx buf)
          let idx := idx + 2
          let ms := UInt16.ofNat (LittleEndian.load 2 idx buf)
          let idx := idx + 2
          let rpe := UInt32.ofNat (LittleEndian.load 4 idx buf)
          let idx := idx + 4
          let cbFun := UInt64.ofNat (LittleEndian.load 8 idx buf)
          (false, _addTimer kernel sec ms rpe cbFun s)
      | 2 =>
          let idx := idx + 8
          let cbFun := UInt64.ofNat (LittleEndian.load 8 idx buf)
          (false, _rmvTimer cbFun s)
      | 3 => (true, s)
      | _ => (false, s)

/-- `_srv_timer_proc`: reads a message off the stream; `none` when fewer bytes come, which ends
the process.
-/
def _srvTimerProc (kernel : Kernel) (stream : List UInt8) (s : Server)
    : Option (Bool × Server × List UInt8) :=
  if stream.length < sz then
    none
  else
    let (destroy, s) := procMessage kernel (fun i => stream.getD i 0) s
    some (destroy, s, stream.drop sz)

/-- `_cli_timer_proc` after its `read`, and the timer it served. -/
def _cliTimerProc (fd : Nat) (s : Server) : Option Timer × Server :=
  match s.liSock.find? (fun tmr => ¬(tmr.srv = true ∨ tmr.fd ≠ fd)) with
  | none => (none, s)
  | some tmr =>
      if tmr.repeats > 1 then
        let counted := { tmr with repeats := tmr.repeats - 1 }
        (some tmr, { s with liSock := s.liSock.map fun t => if t = tmr then counted else t })
      else if tmr.repeats = 1 then
        (some tmr, listDel tmr (_cancelTimerfd tmr.fd (_epollDel tmr.fd s)))
      else
        (some tmr, s)

/-- `_cre_srv_node`, on the descriptor of the accepted connection. -/
def srvNode (fd : Nat) : Timer :=
  { _creNode fd 0 0 with srv := true }

/-- After `_wait_self_connect`: the server node is alone. -/
def initial (fd : Nat) : Server where
  liSock := [srvNode fd]
  timerfds _ := none
  epoll other := other = fd
  created := 0

end Libccll.Timers
