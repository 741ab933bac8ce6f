import Libccll.Timers.Server

/-! `_timer_thread` of `sys/timer.c`: the loop around `epoll_wait`.
One step is one call of `epoll_wait`, one turn of the loop over its events, or one turn of the
search through the list. The application may write to the stream at any time, also from inside
a callback.
-/

namespace Libccll.Timers

/-- An event that `epoll_wait` hands over: a descriptor, and the timer that expired on it, if
it is one of a timer.
-/
structure Event where
  fd : Nat
  inst : Option Nat
  deriving DecidableEq

/-- Where the thread stands. -/
inductive Loop where
  | waiting
  | batch (events : List Event)
  | searching (event : Event) (pos : Nat) (events : List Event)
  | ended
  | crashed

/-- A call of a callback: the event it was for, and its timer as it was then. -/
structure Firing where
  event : Event
  tmr : Timer

/-- The last two fields are history: the clients as they were registered, and the callbacks
called so far.
-/
structure State where
  server : Server
  stream : List UInt8
  loop : Loop
  registered : List Timer
  fired : List Firing

/-- A step of the thread, of the kernel, or of the application. -/
inductive Action where
  | write (bytes : List UInt8)
  | epollWait (events : List Event)
  | epollFail
  | next
  | search (kernel : Kernel)

/-- At most ten descriptors of the interest list, each once. -/
def State.Ready (s : State) (events : List Event) : Prop :=
  events.length ≤ 10
  ∧ (events.map Event.fd).Nodup
  ∧ ∀ event ∈ events,
    s.server.epoll event.fd = true
    ∧ event.inst = (s.server.timerfds event.fd).map TimerFd.inst

instance (s : State) (events : List Event) : Decidable (s.Ready events) :=
  inferInstanceAs (Decidable (_ ∧ _ ∧ _))

/-- The loop behind `TMROUT1722`. -/
def releaseAll (s : Server) : Server :=
  s.liSock.foldl (fun s tmr => close tmr.fd (listDel tmr (_epollDel tmr.fd s))) s

/-- The kernel does not hand out a descriptor that is open. -/
def Kernel.Fresh (kernel : Kernel) (s : Server) : Prop :=
  ∀ fd ∈ kernel.timerfdCreate, s.Unused fd

instance (kernel : Kernel) (s : Server) : Decidable (kernel.Fresh s) :=
  inferInstanceAs (Decidable (∀ fd ∈ kernel.timerfdCreate, s.Unused fd))

/-- The body of the search loop, for a node with the descriptor of the event. -/
def State.found (s : State) (kernel : Kernel) (event : Event) (tmr : Timer) (pos : Nat)
    (events : List Event)
    : State :=
  if tmr.srv = true then
    match _srvTimerProc kernel s.stream s.server with
    | none => { s with loop := .crashed }
    | some (true, server, stream) =>
        { s with server := releaseAll server, stream, loop := .ended }
    | some (false, server, stream) =>
        {
          server
          stream
          loop := .searching event (pos + 1) events
          registered :=
            s.registered ++ server.liSock.filter (fun tmr => s.server.created < tmr.inst)
          fired := s.fired
        }
  else
    let (served, server) := _cliTimerProc event.fd s.server
    {
      s with
      server
      loop := .batch events
      fired := s.fired ++ (served.toList.map fun tmr => ⟨event, tmr⟩)
    }

def step (s : State) (action : Action) : Option State :=
  match s.loop, action with
  | _, .write bytes => some { s with stream := s.stream ++ bytes }
  | .waiting, .epollWait events =>
      if s.Ready events then
        some { s with loop := .batch events }
      else
        none
  | .waiting, .epollFail => some { s with server := releaseAll s.server, loop := .ended }
  | .batch [], .next => some { s with loop := .waiting }
  | .batch (event :: events), .next => some { s with loop := .searching event 0 events }
  | .searching event pos events, .search kernel =>
      if kernel.Fresh s.server then
        match s.server.liSock[pos]? with
        | none => some { s with loop := .batch events }
        | some tmr =>
            if tmr.fd = event.fd then
              some (s.found kernel event tmr pos events)
            else
              some { s with loop := .searching event (pos + 1) events }
      else
        none
  | _, _ => none

/-- After `_wait_self_connect`. -/
def State.initial (srvfd : Nat) : State where
  server := Timers.initial srvfd
  stream := []
  loop := .waiting
  registered := []
  fired := []

end Libccll.Timers
