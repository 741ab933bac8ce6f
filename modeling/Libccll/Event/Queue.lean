import Libccll.Comm.Def
import Libccll.Queue.List

/-! `evt/event.c`: publishers and the event thread around the queue `l_li_evt`.
Mutex and semaphore are those of POSIX: a lock has one owner, `sem_wait` takes a token or is
interrupted by a signal, `sem_post` adds one. Malloc hands out any block not in use, or none.
-/

namespace Libccll.Event

open Queue (Heap listAdd listDel)

variable {θ α δ φ : Type*}

/-- `CL_EVT`, apart from its links. -/
structure ClEvt (δ φ : Type*) where
  no : UInt16
  data : δ
  freeFun : Option φ

/-- Where a thread stands in `cl_evt_pub`. -/
inductive Publisher (α δ φ : Type*) where
  | idle
  | called (evt : ClEvt δ φ)
  | locked (evt : ClEvt δ φ)
  | filled (newEvt : α)
  | unlocking (ret : Ret)
  | unlocked (ret : Ret)

/-- Where the event thread stands in `_evt_thread`. -/
inductive Dispatcher (α : Type*) where
  | created
  | looping
  | waiting
  | woken
  | locked
  | popped (evt : Option α)
  | notifying (evt : Option α)
  | releasing (evt : Option α)
  | exited

/-- Where the application stands in `cl_evt_deinit`. -/
inductive Deinit where
  | idle
  | flagged
  | posted
  | joined

/-- The owner of `l_mtx_evt`. -/
inductive Owner (θ : Type*) where
  | publisher (p : θ)
  | dispatcher
  deriving DecidableEq

/-- The shared memory and every thread. The last five fields are history: the number each
event got when it was enqueued, the events enqueued, popped and released so far, and the calls of
`free_fun`.
-/
structure State (θ α δ φ : Type*) where
  heap : Heap α
  evts : α → ClEvt δ φ
  live : α → Bool
  mtxEvt : Option (Owner θ)
  smEvt : Nat
  run : Bool
  dispatcher : Dispatcher α
  publishers : θ → Publisher α δ φ
  deinit : Deinit
  serial : α → Nat
  enqueued : List (Nat × ClEvt δ φ)
  popped : List (Nat × ClEvt δ φ)
  released : List (Nat × ClEvt δ φ)
  freeFunCalls : List (Nat × φ × δ)

/-- The event in a block, with its number. -/
def State.numbered (s : State θ α δ φ) (a : α) : Nat × ClEvt δ φ := (s.serial a, s.evts a)

inductive PubStep (α δ φ : Type*) where
  | call (evt : ClEvt δ φ)
  | lock
  | malloc (block : Option α)
  | listAdd
  | unlock
  | semPost

inductive EvtStep where
  | start
  | loop
  | semWait
  | interrupt
  | lock
  | pop
  | unlock
  | notify
  | release

inductive DeinitStep where
  | flag
  | semPost
  | join

/-- A step of one of the threads. -/
inductive Step (θ α δ φ : Type*) where
  | publisher (p : θ) (step : PubStep α δ φ)
  | dispatcher (step : EvtStep)
  | deinit (step : DeinitStep)

variable [DecidableEq θ] [DecidableEq α]

def State.moveTo (s : State θ α δ φ) (p : θ) (place : Publisher α δ φ) : State θ α δ φ :=
  { s with publishers := Function.update s.publishers p place }

/-- `cl_evt_pub`. -/
def clEvtPub (liEvt : α) (s : State θ α δ φ) (p : θ) (step : PubStep α δ φ)
    : Option (State θ α δ φ) :=
  match s.publishers p, step with
  | .idle, .call evt => some (s.moveTo p (.called evt))
  | .called evt, .lock =>
      if s.mtxEvt = none then
        some { s.moveTo p (.locked evt) with mtxEvt := some (.publisher p) }
      else
        none
  | .locked _, .malloc none => some (s.moveTo p (.unlocking .fail))
  | .locked evt, .malloc (some newEvt) =>
      if s.live newEvt = true then
        none
      else
        some {
          s.moveTo p (.filled newEvt) with
          live := Function.update s.live newEvt true
          evts := Function.update s.evts newEvt evt
        }
  | .filled newEvt, .listAdd =>
      (listAdd s.heap (some newEvt) (some liEvt)).map fun heap =>
        {
          s.moveTo p (.unlocking .succ) with
          heap
          serial := Function.update s.serial newEvt s.enqueued.length
          enqueued := s.enqueued ++ [(s.enqueued.length, s.evts newEvt)]
        }
  | .unlocking ret, .unlock => some { s.moveTo p (.unlocked ret) with mtxEvt := none }
  | .unlocked .succ, .semPost => some { s.moveTo p .idle with smEvt := s.smEvt + 1 }
  | .unlocked .fail, .semPost => some (s.moveTo p .idle)
  | _, _ => none

/-- `_evt_thread`. The listeners run between `notifying` and `releasing`; what they publish
are steps of a publisher.
-/
def _evtThread (liEvt : α) (s : State θ α δ φ) (step : EvtStep) : Option (State θ α δ φ) :=
  match s.dispatcher, step with
  | .created, .start => some { s with run := true, dispatcher := .looping }
  | .looping, .loop =>
      some { s with dispatcher := if s.run = true then .waiting else .exited }
  | .waiting, .semWait =>
      if 0 < s.smEvt then
        some { s with smEvt := s.smEvt - 1, dispatcher := .woken }
      else
        none
  | .waiting, .interrupt => some { s with dispatcher := .woken }
  | .woken, .lock =>
      if s.mtxEvt = none then
        some { s with mtxEvt := some .dispatcher, dispatcher := .locked }
      else
        none
  | .locked, .pop =>
      if s.heap.next liEvt ≠ some liEvt then
        (s.heap.next liEvt).bind fun evt =>
          (listDel s.heap (some evt)).map fun heap =>
            {
              s with
              heap
              dispatcher := .popped (some evt)
              popped := s.popped ++ [s.numbered evt]
            }
      else
        some { s with dispatcher := .popped none }
  | .popped evt, .unlock => some { s with mtxEvt := none, dispatcher := .notifying evt }
  | .notifying evt, .notify => some { s with dispatcher := .releasing evt }
  | .releasing none, .release => some { s with dispatcher := .looping }
  | .releasing (some evt), .release =>
      some {
        s with
        dispatcher := .looping
        live := Function.update s.live evt false
        released := s.released ++ [s.numbered evt]
        freeFunCalls :=
          s.freeFunCalls
            ++ ((s.evts evt).freeFun.map fun freeFun =>
              (s.serial evt, freeFun, (s.evts evt).data)).toList
      }
  | _, _ => none

/-- `cl_evt_deinit`, up to the join, in a thread other than the event thread. -/
def clEvtDeinit (s : State θ α δ φ) (step : DeinitStep) : Option (State θ α δ φ) :=
  match s.deinit, step with
  | .idle, .flag => some { s with run := false, deinit := .flagged }
  | .flagged, .semPost => some { s with smEvt := s.smEvt + 1, deinit := .posted }
  | .posted, .join =>
      match s.dispatcher with
      | .exited => some { s with deinit := .joined }
      | _ => none
  | _, _ => none

def step (liEvt : α) (s : State θ α δ φ) : Step θ α δ φ → Option (State θ α δ φ)
  | .publisher p step => clEvtPub liEvt s p step
  | .dispatcher step => _evtThread liEvt s step
  | .deinit step => clEvtDeinit s step

/-- After `cl_evt_init`: the list head points to itself and only it is in use, the semaphore
is zero, and the event thread has not run yet.
-/
def initial (liEvt : α) (heap : Heap α) (evts : α → ClEvt δ φ) : State θ α δ φ where
  heap := Queue.initListNode heap (some liEvt)
  evts
  live a := decide (a = liEvt)
  mtxEvt := none
  smEvt := 0
  run := false
  dispatcher := .created
  publishers _ := .idle
  deinit := .idle
  serial _ := 0
  enqueued := []
  popped := []
  released := []
  freeFunCalls := []

end Libccll.Event
