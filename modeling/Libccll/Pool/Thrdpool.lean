import Mathlib.Logic.Function.Basic
import Libccll.Comm.Def

/-! `sys/thrdpool.c`: thread pools, their workers and the threads that call the library.
A lock has one owner, `sem_wait` returns only after taking a token, MALLOC may fail. A job may
call the library as well; then its worker is the calling thread.
-/

namespace Libccll.Thrdpool

/-- A `PolThrd`: the number of its pool, counted from the first one created, and its index. -/
abbrev Slot := Nat × Nat

/-- A thread of the application, or the worker of a `PolThrd`. -/
inductive Thread (θ : Type*) where
  | app (t : θ)
  | worker (w : Slot)
  deriving DecidableEq

/-- `WorkFun`, apart from its links; `num` tells one allocation from the other. -/
structure WorkFun (φ δ : Type*) where
  num : Nat
  wkfn : Option φ
  args : δ

/-- The parameters of `cl_trpo_post`. -/
structure Request (φ δ : Type*) where
  id : Int
  fn : Option φ
  args : δ

/-- What a call returns. -/
inductive Value where
  | num (id : Int)
  | ret (ret : Ret)
  | void

-----------------------------------------------------------------------------------------
-- Where the threads stand
-----------------------------------------------------------------------------------------

/-- In `_worker_thread`. What the worker peeked is `none` when it is the list head itself. -/
inductive Worker (φ δ : Type*) where
  | absent
  | started
  | waiting
  | woken
  | exitLocking
  | exitSizing
  | exitFreeing (cnt i : Nat)
  | exited
  | peekLocking
  | peeking
  | peeked (wf : Option (WorkFun φ δ))
  | calling (wf : Option (WorkFun φ δ))
  | executing (wf : WorkFun φ δ)
  | deleteLocking (wf : WorkFun φ δ)
  | deleting (wf : WorkFun φ δ)
  | deleted (wf : WorkFun φ δ)
  | freeing (wf : WorkFun φ δ)

/-- In `cl_trpo_create`. -/
inductive Creating where
  | locking (amount : Nat)
  | counting (amount : Nat)
  | threads (pool i : Nat)
  | spinning (pool : Nat)

/-- In `cl_trpo_destroy`, up to the call of `_destroy_pol_thrd`. -/
inductive Destroying where
  | locking (id : Int)
  | popping (id : Int)
  | popped (pool : Option Nat)

/-- In `cl_trpo_deinit`, outside `_destroy_pol_thrd`; `turns` are the turns of its loop left. -/
inductive Deiniting where
  | locking
  | sizing
  | looping (turns : Nat)
  | destroying

/-- In one turn of the loop of `_destroy_pol_thrd`. -/
inductive Teardown where
  | locking
  | flagging
  | waking
  | unlocking
  | joining

/-- In `cl_trpo_post`. A `PolThrd` of the pool is given by its index, `pt` by `none` while it is
`NULL`.
-/
inductive Posting (φ δ : Type*) where
  | locking (request : Request φ δ)
  | finding (request : Request φ δ)
  | scanning (request : Request φ δ) (pool i min : Nat) (pt : Option Nat)
  | measuring (request : Request φ δ) (pool i min : Nat) (pt : Option Nat)
  | measured (request : Request φ δ) (pool i min : Nat) (pt : Option Nat) (stop : Bool)
  | selected (request : Request φ δ) (pool : Nat) (pt : Option Nat)
  | filled (pool : Nat) (pt : Option Nat) (wf : WorkFun φ δ)
  | adding (pool pt : Nat) (wf : WorkFun φ δ)
  | linked (pool pt : Nat)
  | signalled (pool pt : Nat)

/-- A thread that calls the library. While a pool is torn down, `turns` are those left to
`cl_trpo_deinit`, or `none` in `cl_trpo_destroy`.
-/
inductive Caller (φ δ : Type*) where
  | outside (value : Value)
  | create (place : Creating)
  | destroy (place : Destroying)
  | deinit (place : Deiniting)
  | tear (pool i : Nat) (place : Teardown) (turns : Option Nat)
  | release (pool : Nat) (turns : Option Nat)
  | post (place : Posting φ δ)
  | leaving (value : Value)

/-- A call of the library. -/
inductive Call (φ δ : Type*) where
  | init
  | create (amount : Int)
  | destroy (id : Int)
  | deinit
  | post (request : Request φ δ)

/-- A thread calls the library, or takes the next step of its call, in which MALLOC succeeds or
not; or a worker takes a step.
-/
inductive Action (θ φ δ : Type*) where
  | call (t : Thread θ) (call : Call φ δ)
  | proceed (t : Thread θ) (malloc : Bool)
  | work (w : Slot)

-----------------------------------------------------------------------------------------
-- State
-----------------------------------------------------------------------------------------

/-- The last two fields are history: the jobs linked into the list, and those started. -/
structure PolThrd (θ φ δ : Type*) where
  mtx : Option (Thread θ)
  smp : Nat
  exit : Bool
  wkfnList : List (WorkFun φ δ)
  place : Worker φ δ
  posted : List (WorkFun φ δ)
  executed : List (WorkFun φ δ)

/-- The last field is history: the nodes that `cl_trpo_post` allocated for the pool. -/
structure Pool where
  id : Int
  amt : Nat
  runPt : Nat
  allocated : List Nat

/-- Pools and nodes are numbered from zero. The fields from `popped` on are history: the pools
taken from the list and those freed, how often each node was passed to FREE, whether a node was
read after that, and the workers that `pthread_join` refused to wait for. `ended` is set when the
process crashes or exits. A freed pool keeps what was in its memory.
-/
structure State (θ φ δ : Type*) where
  gInit : Bool
  gMtxPols : Option (Thread θ)
  gMtxDestroyed : Bool
  gLiPols : List Nat
  pools : Nat → Pool
  created : Nat
  pts : Slot → PolThrd θ φ δ
  callers : Thread θ → Caller φ δ
  nodes : Nat
  ended : Bool
  popped : List Nat
  released : List Nat
  freed : Nat → Nat
  readFreed : Bool
  unjoined : List Slot

variable {θ φ δ : Type*}

/-- After `_cre_thrds` has initialised it. -/
def PolThrd.initial : PolThrd θ φ δ where
  mtx := none
  smp := 0
  exit := false
  wkfnList := []
  place := .absent
  posted := []
  executed := []

/-- Before the first call of the library. -/
def State.initial : State θ φ δ where
  gInit := false
  gMtxPols := none
  gMtxDestroyed := false
  gLiPols := []
  pools _ := { id := 0, amt := 0, runPt := 0, allocated := [] }
  created := 0
  pts _ := .initial
  callers _ := .outside .void
  nodes := 0
  ended := false
  popped := []
  released := []
  freed _ := 0
  readFreed := false
  unjoined := []

/-- The process crashes or exits. -/
def State.stop (s : State θ φ δ) : State θ φ δ := { s with ended := true }

/-- A `PolThrd` changes. -/
def State.setPt (s : State θ φ δ) (w : Slot) (pt : PolThrd θ φ δ) : State θ φ δ :=
  { s with pts := Function.update s.pts w pt }

/-- Nodes are read or written, at most these. -/
def State.touch (s : State θ φ δ) (wfs : List (WorkFun φ δ)) : State θ φ δ :=
  { s with readFreed := s.readFreed || wfs.any fun wf => 0 < s.freed wf.num }

/-- `FREE(wf)`. -/
def State.free (s : State θ φ δ) (wf : WorkFun φ δ) : State θ φ δ :=
  { s with freed := Function.update s.freed wf.num (s.freed wf.num + 1) }

/-- The first pool of the list with the id. -/
def State.find (s : State θ φ δ) (id : Int) : Option Nat :=
  s.gLiPols.find? fun pool => decide ((s.pools pool).id = id)

variable [DecidableEq θ]

/-- A calling thread moves on. -/
def State.moveTo (s : State θ φ δ) (t : Thread θ) (place : Caller φ δ) : State θ φ δ :=
  { s with callers := Function.update s.callers t place }

/-- `CL_LOCK(&g_mtx_pols)`, which exits when the mutex was destroyed. -/
def State.lockPols (s : State θ φ δ) (t : Thread θ) (place : Caller φ δ)
    : Option (State θ φ δ) :=
  if s.gMtxDestroyed = true then
    some s.stop
  else if s.gMtxPols = none then
    some { s.moveTo t place with gMtxPols := some t }
  else
    none

/-- `CL_UNLOCK(&g_mtx_pols)`. -/
def State.unlockPols (s : State θ φ δ) : State θ φ δ := { s with gMtxPols := none }

/-- `CL_LOCK` of the mutex of a `PolThrd`. -/
def State.lock (s : State θ φ δ) (t : Thread θ) (w : Slot) : Option (State θ φ δ) :=
  if (s.pts w).mtx = none then
    some (s.setPt w { s.pts w with mtx := some t })
  else
    none

/-- `CL_UNLOCK` of the mutex of a `PolThrd`. -/
def State.unlock (s : State θ φ δ) (w : Slot) : State θ φ δ :=
  s.setPt w { s.pts w with mtx := none }

def State.semPost (s : State θ φ δ) (w : Slot) : State θ φ δ :=
  s.setPt w { s.pts w with smp := (s.pts w).smp + 1 }

-----------------------------------------------------------------------------------------
-- The worker
-----------------------------------------------------------------------------------------

/-- The worker moves on. -/
def State.workTo (s : State θ φ δ) (w : Slot) (place : Worker φ δ) : State θ φ δ :=
  s.setPt w { s.pts w with place }

def _workerThread (s : State θ φ δ) (w : Slot) : Option (State θ φ δ) :=
  let cur := s.pts w
  match cur.place with
  | .absent | .exited => none
  | .started =>
      let pool := s.pools w.1
      some {
        s.workTo w .waiting with
        pools := Function.update s.pools w.1 { pool with runPt := pool.runPt + 1 }
      }
  | .waiting =>
      if 0 < cur.smp then
        some (s.setPt w { cur with smp := cur.smp - 1, place := .woken })
      else
        none
  | .woken => some (s.workTo w (if cur.exit = true then .exitLocking else .peekLocking))
  | .exitLocking => (s.lock (.worker w) w).map (State.workTo · w .exitSizing)
  | .exitSizing =>
      some ((s.touch cur.wkfnList).workTo w (.exitFreeing cur.wkfnList.length 0))
  | .exitFreeing cnt i =>
      if i < cnt then
        match cur.wkfnList with
        | [] => some (s.workTo w (.exitFreeing cnt (i + 1)))
        | wf :: _ => some ((s.free wf).workTo w (.exitFreeing cnt (i + 1)))
      else
        some ((s.unlock w).workTo w .exited)
  | .peekLocking => (s.lock (.worker w) w).map (State.workTo · w .peeking)
  | .peeking => some (s.workTo w (.peeked cur.wkfnList.head?))
  | .peeked wf => some ((s.unlock w).workTo w (.calling wf))
  | .calling none => some s.stop
  | .calling (some wf) =>
      some <|
        (s.touch [wf]).setPt w
          { cur with place := .executing wf, executed := cur.executed ++ [wf] }
  | .executing wf =>
      match s.callers (.worker w) with
      | .outside _ => some (s.workTo w (.deleteLocking wf))
      | _ => none
  | .deleteLocking wf => (s.lock (.worker w) w).map (State.workTo · w (.deleting wf))
  | .deleting wf =>
      some <|
        (s.touch (wf :: cur.wkfnList)).setPt w
          {
            cur with
            place := .deleted wf
            wkfnList := cur.wkfnList.eraseP (decide <| ·.num = wf.num)
          }
  | .deleted wf => some ((s.unlock w).workTo w (.freeing wf))
  | .freeing wf => some ((s.free wf).workTo w .waiting)

-----------------------------------------------------------------------------------------
-- Calls of the library
-----------------------------------------------------------------------------------------

def _getCurThrdCnt (s : State θ φ δ) : Nat := (s.gLiPols.map fun pool => (s.pools pool).amt).sum

/-- The loop of `_cre_pol_id` from `i` on. -/
def _crePolIdFrom (s : State θ φ δ) (i : Int) : Nat → Option Int
  | 0 => none
  | left + 1 =>
      if s.gLiPols.any fun pool => decide ((s.pools pool).id = i) then
        _crePolIdFrom s (i + 1) left
      else
        some i

def _crePolId (s : State θ φ δ) : Option Int := _crePolIdFrom s 0 10000

/-- The pool and what `_cre_thrds` initialises. -/
def State.addPool (s : State θ φ δ) (id : Int) (amount : Nat) : State θ φ δ :=
  {
    s with
    pools := Function.update s.pools s.created { id, amt := amount, runPt := 0, allocated := [] }
    created := s.created + 1
    pts := fun w => if w.1 = s.created then .initial else s.pts w
  }

/-- `cl_trpo_create`, where `get_nprocs_conf()` returns `nprocs`. -/
def clTrpoCreate (nprocs : Nat) (s : State θ φ δ) (t : Thread θ) (malloc : Bool)
    : Creating → Option (State θ φ δ)
  | .locking amount => s.lockPols t (.create (.counting amount))
  | .counting amount =>
      let curNrs := _getCurThrdCnt s
      let maxThrdLmt := nprocs <<< 2
      if maxThrdLmt ≤ curNrs then
        some (s.moveTo t (.leaving (.num (-1))))
      else if maxThrdLmt < curNrs + amount then
        some (s.moveTo t (.leaving (.num (-1))))
      else
        match _crePolId s with
        | none => some (s.moveTo t (.leaving (.num (-1))))
        | some id =>
            if malloc = true then
              some ((s.addPool id amount).moveTo t (.create (.threads s.created 0)))
            else
              some s.stop
  | .threads pool i =>
      if i < (s.pools pool).amt then
        if malloc = true then
          some ((s.workTo (pool, i) .started).moveTo t (.create (.threads pool (i + 1))))
        else
          some s.stop
      else
        some { s.moveTo t (.create (.spinning pool)) with gLiPols := s.gLiPols ++ [pool] }
  | .spinning pool =>
      if (s.pools pool).runPt = (s.pools pool).amt then
        some (s.moveTo t (.leaving (.num (s.pools pool).id)))
      else
        none

/-- A pool is taken from the list. -/
def State.pop (s : State θ φ δ) (pool : Nat) : State θ φ δ :=
  { s with gLiPols := s.gLiPols.erase pool, popped := s.popped ++ [pool] }

/-- `pthread_join` of the worker returns `EDEADLK`: the thread is that worker, or one that the
worker is joining.
-/
def State.edeadlk (s : State θ φ δ) (w : Slot) : Thread θ → Bool
  | .app _ => false
  | .worker own =>
      decide (own = w)
        || match s.callers (.worker w) with
          | .tear pool i .joining _ => decide ((pool, i) = own)
          | _ => false

/-- `_destroy_pol_thrd`, which goes on whatever `pthread_join` returns. -/
def _destroyPolThrd (s : State θ φ δ) (t : Thread θ) (pool i : Nat) (turns : Option Nat)
    : Teardown → Option (State θ φ δ)
  | .locking =>
      if i < (s.pools pool).amt then
        (s.lock t (pool, i)).map (State.moveTo · t (.tear pool i .flagging turns))
      else
        some (s.moveTo t (.release pool turns))
  | .flagging =>
      some <|
        (s.setPt (pool, i) { s.pts (pool, i) with exit := true }).moveTo t
          (.tear pool i .waking turns)
  | .waking => some ((s.semPost (pool, i)).moveTo t (.tear pool i .unlocking turns))
  | .unlocking => some ((s.unlock (pool, i)).moveTo t (.tear pool i .joining turns))
  | .joining =>
      match (s.pts (pool, i)).place with
      | .exited => some (s.moveTo t (.tear pool (i + 1) .locking turns))
      | _ =>
          if s.edeadlk (pool, i) t = true then
            some {
              s.moveTo t (.tear pool (i + 1) .locking turns) with
              unjoined := s.unjoined ++ [(pool, i)]
            }
          else
            none

def clTrpoDestroy (s : State θ φ δ) (t : Thread θ) : Destroying → Option (State θ φ δ)
  | .locking id => s.lockPols t (.destroy (.popping id))
  | .popping id =>
      match s.find id with
      | none => some (s.moveTo t (.destroy (.popped none)))
      | some pool => some ((s.pop pool).moveTo t (.destroy (.popped (some pool))))
  | .popped none => some (s.unlockPols.moveTo t (.outside .void))
  | .popped (some pool) => some (s.unlockPols.moveTo t (.tear pool 0 .locking none))

/-- `cl_trpo_deinit`, once `g_init` is cleared. Destroying a mutex in use fails. -/
def clTrpoDeinit (s : State θ φ δ) (t : Thread θ) : Deiniting → Option (State θ φ δ)
  | .locking => s.lockPols t (.deinit .sizing)
  | .sizing => some (s.moveTo t (.deinit (.looping s.gLiPols.length)))
  | .looping 0 => some (s.unlockPols.moveTo t (.deinit .destroying))
  | .looping (turns + 1) =>
      match s.gLiPols with
      | [] => some (s.moveTo t (.deinit (.looping turns)))
      | pool :: _ => some ((s.pop pool).moveTo t (.tear pool 0 .locking (some turns)))
  | .destroying =>
      some {
        s.moveTo t (.outside .void) with
        gMtxDestroyed := s.gMtxDestroyed || s.gMtxPols.isNone
      }

/-- `FREE(pool->pts)` and `FREE(pool)`. -/
def State.releasePool (s : State θ φ δ) (t : Thread θ) (pool : Nat) : Option Nat → State θ φ δ
  | none => { s.moveTo t (.outside .void) with released := s.released ++ [pool] }
  | some turns => { s.moveTo t (.deinit (.looping turns)) with released := s.released ++ [pool] }

/-- The node that `cl_trpo_post` allocates. -/
def State.addNode (s : State θ φ δ) (pool : Nat) : State θ φ δ :=
  {
    s with
    nodes := s.nodes + 1
    pools :=
      Function.update s.pools pool
        { s.pools pool with allocated := (s.pools pool).allocated ++ [s.nodes] }
  }

/-- `list_add(&wf->list, &pt->wkfn_list)`, which writes to the last node of the list. -/
def State.link (s : State θ φ δ) (w : Slot) (wf : WorkFun φ δ) : State θ φ δ :=
  (s.touch (wf :: (s.pts w).wkfnList.getLast?.toList)).setPt w
    {
      s.pts w with
      wkfnList := (s.pts w).wkfnList ++ [wf]
      posted := (s.pts w).posted ++ [wf]
    }

def clTrpoPost (s : State θ φ δ) (t : Thread θ) (malloc : Bool)
    : Posting φ δ → Option (State θ φ δ)
  | .locking request => s.lockPols t (.post (.finding request))
  | .finding request =>
      match s.find request.id with
      | none => some (s.moveTo t (.leaving (.ret .fail)))
      | some pool => some (s.moveTo t (.post (.scanning request pool 0 10000 none)))
  | .scanning request pool i min pt =>
      if i < (s.pools pool).amt then
        (s.lock t (pool, i)).map (State.moveTo · t (.post (.measuring request pool i min pt)))
      else
        some (s.moveTo t (.post (.selected request pool pt)))
  | .measuring request pool i min pt =>
      let wkfnList := (s.pts (pool, i)).wkfnList
      let sz := wkfnList.length
      let place : Posting φ δ :=
        if sz = 0 then
          .measured request pool i min (some i) true
        else if sz < min then
          .measured request pool i sz (some i) false
        else
          .measured request pool i min pt false
      some ((s.touch wkfnList).moveTo t (.post place))
  | .measured request pool i min pt stop =>
      let place : Posting φ δ :=
        if stop = true then .selected request pool pt else .scanning request pool (i + 1) min pt
      some ((s.unlock (pool, i)).moveTo t (.post place))
  | .selected request pool pt =>
      if malloc = true then
        let wf : WorkFun φ δ := { num := s.nodes, wkfn := request.fn, args := request.args }
        some ((s.addNode pool).moveTo t (.post (.filled pool pt wf)))
      else
        some s.stop
  | .filled _ none _ => some s.stop
  | .filled pool (some pt) wf =>
      (s.lock t (pool, pt)).map (State.moveTo · t (.post (.adding pool pt wf)))
  | .adding pool pt wf => some ((s.link (pool, pt) wf).moveTo t (.post (.linked pool pt)))
  | .linked pool pt => some ((s.semPost (pool, pt)).moveTo t (.post (.signalled pool pt)))
  | .signalled pool pt => some ((s.unlock (pool, pt)).moveTo t (.leaving (.ret .succ)))

/-- A thread outside the library calls it. -/
def State.enter (s : State θ φ δ) (t : Thread θ) : Call φ δ → State θ φ δ
  | .init => { s.moveTo t (.outside (.ret .succ)) with gInit := true }
  | .create amount =>
      if s.gInit = false ∨ amount < 1 ∨ 256 < amount then
        s.moveTo t (.outside (.num (-1)))
      else
        s.moveTo t (.create (.locking amount.toNat))
  | .destroy id => s.moveTo t (.destroy (.locking id))
  | .deinit => { s.moveTo t (.deinit .locking) with gInit := false }
  | .post request =>
      if s.gInit = false then
        s.moveTo t (.outside (.ret .fail))
      else
        s.moveTo t (.post (.locking request))

/-- Whether the thread can make calls: a worker does while it executes a job. -/
def State.calls (s : State θ φ δ) : Thread θ → Bool
  | .app _ => true
  | .worker w =>
      match (s.pts w).place with
      | .executing wf => wf.wkfn.isSome
      | _ => false

/-- The next step of the call that a thread is in. -/
def State.proceed (nprocs : Nat) (s : State θ φ δ) (t : Thread θ) (malloc : Bool)
    : Option (State θ φ δ) :=
  match s.callers t with
  | .outside _ => none
  | .create place => clTrpoCreate nprocs s t malloc place
  | .destroy place => clTrpoDestroy s t place
  | .deinit place => clTrpoDeinit s t place
  | .tear pool i place turns => _destroyPolThrd s t pool i turns place
  | .release pool turns => some (s.releasePool t pool turns)
  | .post place => clTrpoPost s t malloc place
  | .leaving value => some (s.unlockPols.moveTo t (.outside value))

def step (nprocs : Nat) (s : State θ φ δ) (action : Action θ φ δ) : Option (State θ φ δ) :=
  if s.ended = true then
    none
  else
    match action with
    | .call t call =>
        match s.callers t with
        | .outside _ => if s.calls t = true then some (s.enter t call) else none
        | _ => none
    | .proceed t malloc => s.proceed nprocs t malloc
    | .work w => _workerThread s w

end Libccll.Thrdpool
