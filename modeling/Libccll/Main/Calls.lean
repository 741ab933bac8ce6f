import Libccll.Comm.Def

/-! What the functions of the library do to its mutexes, threads and descriptors: each is the list
of the calls it makes, for given outcomes of those that may fail.
-/

namespace Libccll.Main

/-- The mutexes that threads share; those of single workers apart, and that of the log. -/
inductive Mutex where
  | gMtxObjs
  | gMtxPols
  | gMtxSock
  | lMtxEvt
  | lMtxSub
  deriving DecidableEq

/-- What `cl_init` keeps a descriptor in; `fp` is the stream of the random device. -/
inductive Var where
  | fp
  | srvfd
  | epofd
  | clifd
  deriving DecidableEq

/-- The number of a pool, counted from the first one created, and the index of a worker in it. -/
abbrev Slot := Nat × Nat

/-- What is written to the timer thread. -/
inductive Request where
  | set
  | cancel
  | destroy
  deriving DecidableEq

/-- One call, or one step that other threads can see. -/
inductive Op where
  | lock (mutex : Mutex)
  | unlock (mutex : Mutex)
  | mutexInit (mutex : Mutex)
  | mutexDestroy (mutex : Mutex)
  | semInit
  | semPost
  | semDestroy
  | setRun (run : Bool)
  | setLogInit (init : Bool)
  | setTrpoInit (init : Bool)
  | setInit (init : Bool)
  | createEvt
  | joinEvt
  | createTimer
  | joinTimer
  | opens (var : Var)
  | closes (var : Var)
  | connect
  | accept
  | send (request : Request)
  | addPool (pool amt : Nat)
  | popPool (pool : Nat)
  | popPools
  | createWorker (w : Slot)
  | flagExit (w : Slot)
  | joinWorker (w : Slot)
  | callback
  | leave
  deriving DecidableEq

/-- The calls of the system by which `cl_init` can fail, in the order it makes them. -/
inductive Sys where
  | logMutexInit
  | logMalloc
  | evtSemInit
  | evtPthreadCreate
  | evtMutexInit
  | subMutexInit
  | sockMutexInit
  | fopen
  | fread
  | socket
  | bind
  | listen
  | epollCreate
  | timerPthreadCreate
  | connSocket
  | connect
  deriving DecidableEq

/-- Which of them succeed. -/
abbrev Outcomes := Sys → Bool

/-- What a function returns, and the calls it has made. -/
structure Body where
  ret : Ret
  ops : List Op

/-- The rest of a function, after it has made some calls. -/
def Body.after (ops : List Op) (body : Body) : Body := { body with ops := ops ++ body.ops }

/-- `INIT(what)`, and the rest of `cl_init`. -/
def Body.orFail (what rest : Body) : Body :=
  match what.ret with
  | .succ => rest.after what.ops
  | .fail => what

-----------------------------------------------------------------------------------------
-- Initialisation
-----------------------------------------------------------------------------------------

def clLogInit (gInit : Bool) (ok : Outcomes) : Body :=
  if gInit = true then
    ⟨.succ, []⟩
  else if ok .logMutexInit = false then
    ⟨.fail, []⟩
  else if ok .logMalloc = false then
    ⟨.fail, []⟩
  else
    ⟨.succ, [.setLogInit true]⟩

def clEvtDeinit : List Op :=
  [.setRun false, .semPost, .joinEvt, .semDestroy, .mutexDestroy .lMtxEvt, .mutexDestroy .lMtxSub]

def clEvtInit (ok : Outcomes) : Body :=
  if ok .evtSemInit = false then
    ⟨.fail, []⟩
  else if ok .evtPthreadCreate = false then
    ⟨.fail, [.semInit, .semDestroy]⟩
  else if ok .evtMutexInit = false then
    ⟨.fail, [.semInit, .createEvt] ++ clEvtDeinit⟩
  else if ok .subMutexInit = false then
    ⟨.fail, [.semInit, .createEvt, .mutexInit .lMtxEvt] ++ clEvtDeinit⟩
  else
    ⟨.succ, [.semInit, .createEvt, .mutexInit .lMtxEvt, .mutexInit .lMtxSub]⟩

def _creSrvSock (ok : Outcomes) : Body :=
  if ok .fopen = false then
    ⟨.fail, []⟩
  else
    Body.after [.opens .fp, .closes .fp] <|
      if ok .fread = false then
        ⟨.fail, []⟩
      else if ok .socket = false then
        ⟨.fail, []⟩
      else if ok .bind = false then
        ⟨.fail, [.opens .srvfd, .closes .srvfd]⟩
      else if ok .listen = false then
        ⟨.fail, [.opens .srvfd, .closes .srvfd]⟩
      else
        ⟨.succ, [.opens .srvfd]⟩

def _creEpoll (ok : Outcomes) : Body :=
  if ok .epollCreate = false then ⟨.fail, []⟩ else ⟨.succ, [.opens .epofd]⟩

def _connSrv (ok : Outcomes) : Body :=
  if ok .connSocket = false then
    ⟨.fail, []⟩
  else if ok .connect = false then
    ⟨.fail, [.opens .clifd, .closes .clifd]⟩
  else
    ⟨.succ, [.opens .clifd, .connect]⟩

/-- What `cl_timer_init` does when one of its calls has failed. -/
def Body.orElse (what : Body) (undo : List Op) (rest : Body) : Body :=
  match what.ret with
  | .succ => rest.after what.ops
  | .fail => ⟨.fail, what.ops ++ undo⟩

def clTimerInit (ok : Outcomes) : Body :=
  if ok .sockMutexInit = false then
    ⟨.fail, []⟩
  else
    Body.after [.mutexInit .gMtxSock] <|
      (_creSrvSock ok).orElse [] <|
        (_creEpoll ok).orElse [.closes .srvfd] <|
          if ok .timerPthreadCreate = false then
            ⟨.fail, [.closes .srvfd, .closes .epofd]⟩
          else
            Body.after [.createTimer] <|
              (_connSrv ok).orElse [.closes .srvfd, .closes .epofd] ⟨.succ, []⟩

def clTrpoInit : Body := ⟨.succ, [.setTrpoInit true]⟩

/-- `cl_init`, where `sInit` and `gInit` tell that the library and the log are initialised. -/
def clInit (sInit gInit : Bool) (ok : Outcomes) : Body :=
  if sInit = true then
    ⟨.succ, []⟩
  else
    (clLogInit gInit ok).orFail <|
      (clEvtInit ok).orFail <|
        (clTimerInit ok).orFail <|
          clTrpoInit.orFail ⟨.succ, [.setInit true]⟩

-----------------------------------------------------------------------------------------
-- Calls while initialised
-----------------------------------------------------------------------------------------

def clMalloc (ok : Bool) : List Op :=
  if ok = true then [.lock .gMtxObjs, .unlock .gMtxObjs] else []

def clFree : List Op := [.lock .gMtxObjs, .unlock .gMtxObjs]

/-- How far `cl_evt_sub` gets. -/
inductive Subscription where
  | nullCallback
  | existing
  | new (malloc : Bool)

/-- A call of the library, with the outcomes that decide which of its mutexes it locks. A pool is
given by its number.
-/
inductive Call where
  | malloc (ok : Bool)
  | free (null : Bool)
  | allocingCnt
  | allocingBytes
  | allocGetStat (null : Bool)
  | printBytes (valid : Bool)
  | shExec (valid : Bool)
  | evtPub (malloc : Bool)
  | evtSub (subscription : Subscription)
  | evtUnsub (nullCallback found : Bool)
  | timerSet
  | timerCancel
  | timerCount
  | trpoCreate (amount : Int) (fits : Bool)
  | trpoDestroy (pool : Nat)
  | trpoPost (found : Bool)

def clEvtPub (malloc : Bool) : List Op :=
  [.lock .lMtxEvt] ++ clMalloc malloc ++ [.unlock .lMtxEvt]
    ++ if malloc = true then [.semPost] else []

def clEvtSub : Subscription → List Op
  | .nullCallback => []
  | .existing => [.lock .lMtxSub, .unlock .lMtxSub]
  | .new malloc => [.lock .lMtxSub] ++ clMalloc malloc ++ [.unlock .lMtxSub]

def clEvtUnsub (nullCallback found : Bool) : List Op :=
  if nullCallback = true then
    []
  else
    [.lock .lMtxSub] ++ (if found = true then clFree else []) ++ [.unlock .lMtxSub]

/-- `_cre_thrds`, which allocates an argument for each worker. -/
def _creThrds (pool amt : Nat) : List Op :=
  (List.range amt).flatMap fun i => clMalloc true ++ [.createWorker (pool, i)]

/-- `cl_trpo_create`; the wait for the workers to start is left out. -/
def clTrpoCreate (gInit : Bool) (pool : Nat) (amount : Int) (fits : Bool) : List Op :=
  if gInit = false ∨ amount < 1 ∨ 256 < amount then
    []
  else if fits = false then
    [.lock .gMtxPols, .unlock .gMtxPols]
  else
    [.lock .gMtxPols] ++ clMalloc true ++ clMalloc true ++ _creThrds pool amount.toNat
      ++ [.addPool pool amount.toNat, .unlock .gMtxPols]

/-- `cl_trpo_destroy`; `popPool` goes on from there. -/
def clTrpoDestroy (pool : Nat) : List Op := [.lock .gMtxPols, .popPool pool]

def _destroyPolThrd (pool amt : Nat) : List Op :=
  (List.range amt).flatMap fun i => [.flagExit (pool, i), .joinWorker (pool, i)]

/-- `_destroy_pol_thrd`, `FREE(pool->pts)` and `FREE(pool)`. -/
def releasePool (pool amt : Nat) : List Op := _destroyPolThrd pool amt ++ clFree ++ clFree

def clTrpoPost (gInit found : Bool) : List Op :=
  if gInit = false then
    []
  else
    [.lock .gMtxPols] ++ clMalloc found ++ [.unlock .gMtxPols]

/-- The calls a library function makes; `pool` is the number of a pool it creates. -/
def Call.ops (gInit : Bool) (pool : Nat) : Call → List Op
  | .malloc ok => clMalloc ok
  | .free null | .allocGetStat null => if null = true then [] else clFree
  | .printBytes valid | .shExec valid => if valid = true then clMalloc true ++ clFree else []
  | .allocingCnt | .allocingBytes => clFree
  | .evtPub ok => clEvtPub ok
  | .evtSub subscription => clEvtSub subscription
  | .evtUnsub nullCallback found => clEvtUnsub nullCallback found
  | .timerSet => [.send .set]
  | .timerCancel => [.send .cancel]
  | .timerCount => [.lock .gMtxSock, .unlock .gMtxSock]
  | .trpoCreate amount fits => clTrpoCreate gInit pool amount fits
  | .trpoDestroy pool => clTrpoDestroy pool
  | .trpoPost found => clTrpoPost gInit found

-----------------------------------------------------------------------------------------
-- Threads of the library
-----------------------------------------------------------------------------------------

/-- `_evt_thread`, from `sem_wait` to the end of a turn of its loop. -/
def _evtThread (popped : Bool) : List Op :=
  [.lock .lMtxEvt, .unlock .lMtxEvt] ++ if popped = true then [.callback] ++ clFree else []

/-- `_timer_thread`, up to its loop. -/
def _waitSelfConnect : List Op :=
  clMalloc true ++ [.accept, .lock .gMtxSock] ++ clMalloc true ++ [.unlock .gMtxSock]

/-- What `epoll_wait` reports in `_timer_thread`: a request, of which the node is made or not and
added or freed again; the expiry of a timer, which may be gone or `unread`; or the end, which lets
so many nodes go.
-/
inductive Served where
  | new (added : Option Bool)
  | cancel (found : Bool)
  | expiry (usedUp : Option Bool)
  | unread
  | quit (nodes : Nat)

def Served.ops : Served → List Op
  | .new none | .cancel false | .expiry none => [.lock .gMtxSock, .unlock .gMtxSock]
  | .new (some added) =>
      [.lock .gMtxSock] ++ clMalloc true ++ (if added = true then [] else clFree)
        ++ [.unlock .gMtxSock]
  | .cancel true => [.lock .gMtxSock] ++ clFree ++ [.unlock .gMtxSock]
  | .expiry (some usedUp) =>
      [.lock .gMtxSock, .callback] ++ (if usedUp = true then clFree else [])
        ++ [.unlock .gMtxSock]
  | .unread => []
  | .quit nodes => (List.replicate nodes clFree).flatten ++ clFree ++ [.leave]

/-- A turn of `_worker_thread`, which frees `jobs` nodes when it is told to exit. -/
def _workerThread (exit : Bool) (jobs : Nat) : List Op :=
  if exit = true then
    (List.replicate jobs clFree).flatten ++ [.leave]
  else
    [.callback] ++ clFree

-----------------------------------------------------------------------------------------
-- Shutdown
-----------------------------------------------------------------------------------------

def clTrpoDeinit : List Op :=
  [.setTrpoInit false, .lock .gMtxPols, .popPools, .unlock .gMtxPols, .mutexDestroy .gMtxPols]

/-- `cl_timer_deinit`, which begins with `_timer_destroy`. -/
def clTimerDeinit : List Op := [.send .destroy, .mutexDestroy .gMtxSock, .joinTimer]

def clLogDeinit : List Op := [.setLogInit false]

def clAllocDeinit : List Op := [.mutexDestroy .gMtxObjs]

def clDeinit : List Op :=
  [.setInit false] ++ clTrpoDeinit ++ clTimerDeinit ++ clEvtDeinit ++ clLogDeinit ++ clAllocDeinit

end Libccll.Main
