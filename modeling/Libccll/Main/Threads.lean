import Mathlib.Logic.Function.Basic
import Libccll.Main.Calls

/-! The library as a whole: `cl_init` and `cl_deinit` called one after the other, calls made by
other threads and from callbacks while the library is initialised, and the threads of the library.
A step is the next call that a thread makes.
-/

namespace Libccll.Main

/-- The thread that calls `cl_init` and `cl_deinit`, another one of the application, or one of the
library.
-/
inductive Thread (θ : Type*) where
  | main
  | app (t : θ)
  | evt (n : Nat)
  | timer (n : Nat)
  | worker (w : Slot)
  deriving DecidableEq

/-- `init` and `deinit` call `cl_init` and `cl_deinit`; `call` is made while the library is
initialised; `back` is the end of a callback. A turn of a library thread begins with `loop`, the
test of `l_run`; with `wake`, the return of `sem_wait`, with a token or interrupted; with `serve`;
or with `work`.
-/
inductive Action (θ : Type*) where
  | init (ok : Outcomes)
  | deinit
  | call (t : Thread θ) (call : Call)
  | go (t : Thread θ)
  | back (t : Thread θ)
  | loop (n : Nat)
  | wake (n : Nat) (token popped : Bool)
  | serve (n : Nat) (served : Served)
  | work (w : Slot) (jobs : Nat)

/-- What the timer thread has before it: the requests that it has not read, `none` when it reads no
more, and how many timers are set.
-/
structure Inbox where
  requests : Option (List Request)
  timers : Nat

/-- A request is written to the socket. -/
def Inbox.send (inbox : Inbox) (request : Request) : Inbox :=
  { inbox with requests := inbox.requests.map (· ++ [request]) }

/-- Whether `epoll_wait` can report it: requests are read in order, and only a timer that is set
expires or is removed. The end comes with a request, or when `epoll_wait` fails.
-/
def Inbox.due (inbox : Inbox) : Served → Bool
  | .new _ => inbox.requests.bind List.head? = some .set
  | .cancel found =>
      inbox.requests.bind List.head? = some .cancel ∧ (found = true → 0 < inbox.timers)
  | .expiry _ => 0 < inbox.timers
  | .unread | .quit _ => true

/-- What is left when it is served. -/
def Inbox.after (inbox : Inbox) : Served → Inbox
  | .new added =>
      {
        requests := inbox.requests.map List.tail
        timers := if added = some true then inbox.timers + 1 else inbox.timers
      }
  | .cancel found =>
      {
        requests := inbox.requests.map List.tail
        timers := if found = true then inbox.timers - 1 else inbox.timers
      }
  | .expiry usedUp =>
      {
        inbox with
        timers := if usedUp = some true then inbox.timers - 1 else inbox.timers
      }
  | .unread => inbox
  | .quit _ => { requests := none, timers := 0 }

/-- `todo` is what a thread has yet to do before it is back. `evts`, `timers` and `pools` count
those created so far. The last four fields are history: the threads seen so far, whether `cl_init`
has succeeded, whether `cl_deinit` was called, and whether a mutex was locked that was not
initialised.
-/
structure State (θ : Type*) where
  ready : Mutex → Bool
  owner : Mutex → Option (Thread θ)
  todo : Thread θ → List Op
  lives : Thread θ → Bool
  waiting : Nat → Bool
  exit : Slot → Bool
  sInit : Bool
  logInit : Bool
  trpoInit : Bool
  lRun : Bool
  smEvt : Nat
  liPols : List (Nat × Nat)
  inbox : Inbox
  evts : Nat
  timers : Nat
  pools : Nat
  threads : List (Thread θ)
  served : Bool
  closed : Bool
  misused : Bool

variable {θ : Type*}

/-- `g_mtx_objs` and `g_mtx_pols` are initialised statically. -/
def State.initial : State θ where
  ready mutex := mutex = .gMtxObjs ∨ mutex = .gMtxPols
  owner _ := none
  todo _ := []
  lives _ := false
  waiting _ := false
  exit _ := false
  sInit := false
  logInit := false
  trpoInit := false
  lRun := false
  smEvt := 0
  liPols := []
  inbox := { requests := none, timers := 0 }
  evts := 0
  timers := 0
  pools := 0
  threads := []
  served := false
  closed := false
  misused := false

variable [DecidableEq θ]

/-- A thread has this to do. -/
def State.goto (s : State θ) (t : Thread θ) (todo : List Op) : State θ :=
  { s with todo := Function.update s.todo t todo }

/-- A thread is created. -/
def State.spawn (s : State θ) (t : Thread θ) (todo : List Op) : State θ :=
  { s.goto t todo with lives := Function.update s.lives t true, threads := t :: s.threads }

/-- `pthread_join`, which waits while the thread runs. -/
def State.join (s : State θ) (t : Thread θ) : Option (State θ) :=
  if s.lives t = true then none else some s

/-- The thread that was created last, if any. -/
def State.joinLast (s : State θ) (thread : Nat → Thread θ) : Nat → Option (State θ)
  | 0 => some s
  | n + 1 => s.join (thread n)

/-- A thread makes a call, and has the rest to do. The timer thread goes on after `accept` whether
it succeeds or not.
-/
def State.perform (s : State θ) (t : Thread θ) (rest : List Op) : Op → Option (State θ)
  | .lock mutex =>
      if s.ready mutex = false then
        some { s.goto t rest with misused := true }
      else if s.owner mutex = none then
        some { s.goto t rest with owner := Function.update s.owner mutex (some t) }
      else
        none
  | .unlock mutex => some { s.goto t rest with owner := Function.update s.owner mutex none }
  | .mutexInit mutex =>
      some {
        s.goto t rest with
        ready := Function.update s.ready mutex true
        owner := Function.update s.owner mutex none
      }
  | .mutexDestroy mutex => some { s.goto t rest with ready := Function.update s.ready mutex false }
  | .semInit => some { s.goto t rest with smEvt := 0 }
  | .semPost => some { s.goto t rest with smEvt := s.smEvt + 1 }
  | .setRun run => some { s.goto t rest with lRun := run }
  | .setLogInit init => some { s.goto t rest with logInit := init }
  | .setTrpoInit init => some { s.goto t rest with trpoInit := init }
  | .setInit init => some { s.goto t rest with sInit := init, served := s.served || init }
  | .createEvt =>
      some { (s.goto t rest).spawn (.evt s.evts) [.setRun true] with evts := s.evts + 1 }
  | .joinEvt => (s.goto t rest).joinLast .evt s.evts
  | .createTimer =>
      some {
        (s.goto t rest).spawn (.timer s.timers) _waitSelfConnect with
        timers := s.timers + 1
        inbox := { requests := some [], timers := 0 }
      }
  | .joinTimer => (s.goto t rest).joinLast .timer s.timers
  | .send request => some { s.goto t rest with inbox := s.inbox.send request }
  | .addPool pool amt => some { s.goto t rest with liPols := s.liPols ++ [(pool, amt)] }
  | .popPool pool =>
      match s.liPols.find? fun entry => entry.1 = pool with
      | none => some (s.goto t (.unlock .gMtxPols :: rest))
      | some entry =>
          some {
            s.goto t (.unlock .gMtxPols :: releasePool entry.1 entry.2 ++ rest) with
            liPols := s.liPols.erase entry
          }
  | .popPools =>
      let releases := s.liPols.flatMap fun entry => releasePool entry.1 entry.2
      some { s.goto t (releases ++ rest) with liPols := [] }
  | .createWorker w => some ((s.goto t rest).spawn (.worker w) clFree)
  | .flagExit w => some { s.goto t rest with exit := Function.update s.exit w true }
  | .joinWorker w => (s.goto t rest).join (.worker w)
  | .callback => none
  | .leave => some { s.goto t rest with lives := Function.update s.lives t false }
  | .semDestroy | .opens _ | .closes _ | .connect | .accept => some (s.goto t rest)

/-- What a thread of the library does in its next turn. -/
def State.turn (s : State θ) (t : Thread θ) (turn : State θ → Option (State θ))
    : Option (State θ) :=
  match s.todo t with
  | [] => if s.lives t = true then turn s else none
  | _ => none

/-- Where a thread calls the library from: its own code, or a callback. -/
def State.outside (s : State θ) (t : Thread θ) : Bool :=
  match t, s.todo t with
  | .main, _ => false
  | .app _, [] => true
  | _, .callback :: _ => true
  | _, _ => false

def step (s : State θ) (action : Action θ) : Option (State θ) :=
  if s.misused = true then
    none
  else
    match action with
    | .init ok =>
        match s.todo .main with
        | [] => some (s.goto .main (clInit s.sInit s.logInit ok).ops)
        | _ => none
    | .deinit =>
        match s.todo .main with
        | [] => some { s.goto .main clDeinit with closed := true }
        | _ => none
    | .call t call =>
        if s.sInit = true ∧ s.outside t = true then
          some {
            s.goto t (call.ops s.trpoInit s.pools ++ s.todo t) with
            pools := s.pools + 1
            threads := t :: s.threads
          }
        else
          none
    | .go t =>
        match s.todo t with
        | [] => none
        | op :: rest => s.perform t rest op
    | .back t =>
        match s.todo t with
        | .callback :: rest => some (s.goto t rest)
        | _ => none
    | .loop n =>
        s.turn (.evt n) fun s =>
          if s.waiting n = true then
            none
          else if s.lRun = true then
            some { s with waiting := Function.update s.waiting n true }
          else
            some { s with lives := Function.update s.lives (.evt n) false }
    | .wake n token popped =>
        s.turn (.evt n) fun s =>
          if s.waiting n = true ∧ (token = true → 0 < s.smEvt) then
            some {
              s.goto (.evt n) (_evtThread popped) with
              waiting := Function.update s.waiting n false
              smEvt := if token = true then s.smEvt - 1 else s.smEvt
            }
          else
            none
    | .serve n served =>
        s.turn (.timer n) fun s =>
          if s.inbox.due served = true then
            some { s.goto (.timer n) served.ops with inbox := s.inbox.after served }
          else
            none
    | .work w jobs =>
        s.turn (.worker w) fun s => some (s.goto (.worker w) (_workerThread (s.exit w) jobs))

end Libccll.Main
