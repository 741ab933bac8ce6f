import Libccll.Comm.Def
import Libccll.Foundation.Arena
import Libccll.Foundation.Transition

/-! `comm/alloc.c`: `cl_malloc`, `cl_free` and what they keep in `g_li_objs`.
A step is a call of `malloc` or `free`, taking or giving back the lock, or what a thread does
under the lock; between any two steps other threads take theirs.
-/

namespace Libccll.Alloc

open Foundation

/-- The end of the address space, and what a `size_t` is reduced by. -/
def sizeLimit : Nat := 2 ^ 64

/-- An `int` as the `size_t` that `malloc` and `obj->size` take. -/
def sizeT (n : Int32) : Nat := (n.toInt % sizeLimit).toNat

/-- `Obj`: its `addr` and `size`. History is the block the record itself is in, and the number of
the block it was made for.
-/
structure Obj where
  addr : Nat
  size : Nat
  node : Block
  made : Nat
  deriving DecidableEq

/-- `obj_sz`. -/
def objSz : Nat := 96

/-- Where a thread stands in `cl_malloc` or `cl_free`. A block stands for the pointer to it. -/
inductive Place where
  | outside
  | mallocing (size : Int32)
  | gotMem (size : Int32) (newMem : Block)
  | failing (size : Int32) (newMem : Block)
  | filled (size : Int32) (newMem : Block) (obj : Obj)
  | adding (size : Int32) (newMem : Block) (obj : Obj)
  | added (size : Int32) (newMem : Block)
  | clearing (size : Int32) (newMem : Block)
  | freeing (ptr : Block)
  | searching (ptr : Block)
  | found (ptr : Block) (pos : Obj)
  | freed (ptr : Block) (pos : Obj)
  | unlinked (ptr : Block) (pos : Obj)
  | released (ptr : Block)
  | missed (ptr : Block)
  | wild (ptr : Block)

/-- What a call does to heap and registry, by the numbers of the blocks: of the one it is about,
and of the one its record is in.
-/
inductive Effect where
  | malloc (block : Nat)
  | free (block : Nat)
  | listAdd (block node : Nat)
  | listDel (block node : Nat)
  deriving DecidableEq

/-- A call that is over: the size asked for and the block returned, or the block given. -/
inductive Call where
  | clMalloc (size : Int32) (newMem : Option Block)
  | clFree (ptr : Option Block)
  deriving DecidableEq

structure Finished where
  call : Call
  effects : List Effect
  deriving DecidableEq

/-- Who answers for a block: a thread that owns it, a call of a thread, or its place in
`g_li_objs`.
-/
inductive Holder (θ : Type*) where
  | thread (t : θ)
  | call (t : θ)
  | record

/-- The heap, the registry and the threads. The last five fields are history: who holds each
block, the blocks registered so far with their sizes, those released again, what each thread's
call has done so far, and the calls that are over.
-/
structure State (θ : Type*) where
  arena : Arena
  gLiObjs : List Obj
  mtxObjs : Option θ
  places : θ → Place
  holder : Nat → Holder θ
  registered : List (Nat × Nat)
  released : List Nat
  effects : θ → List Effect
  finished : List Finished

/-- A thread calls `cl_malloc` or `cl_free`, goes on in a call (where `malloc` answers if it is
called), uses `malloc` or `free` itself, or hands a pointer to another thread.
-/
inductive Action (θ : Type*) where
  | clMalloc (t : θ) (size : Int32)
  | clFree (t : θ) (ptr : Nat)
  | proceed (t : θ) (block : Option Nat)
  | malloc (t : θ) (size block : Nat)
  | free (t : θ) (ptr : Nat)
  | give (t u : θ) (ptr : Nat)

variable {θ : Type*}

/-- `cl_allocing_cnt`: a `size_t` returned as a `uint32_t`. -/
def clAllocingCnt (s : State θ) : Nat := s.gLiObjs.length % sizeLimit % 2 ^ 32

/-- `cl_allocing_bytes`: a sum of `size_t`. -/
def clAllocingBytes (s : State θ) : Nat :=
  s.gLiObjs.foldl (fun bytes obj => (bytes + obj.size) % sizeLimit) 0

/-- No block is in use, and no thread is in a call. -/
def initial : State θ where
  arena := .empty
  gLiObjs := []
  mtxObjs := none
  places _ := .outside
  holder _ := .record
  registered := []
  released := []
  effects _ := []
  finished := []

/-- `malloc`: a block with room for it. -/
def State.malloc (s : State θ) (holder : Holder θ) (size addr : Nat)
    : Option (Block × State θ) :=
  if s.arena.Fits sizeLimit addr size then
    some (s.arena.next addr size,
      {
        s with
        arena := s.arena.alloc addr size
        holder := Function.update s.holder s.arena.made holder
      })
  else
    none

/-- `free`: `none` when there is no block at the address. -/
def State.free (s : State θ) (ptr : Nat) : Option (Block × State θ) :=
  (s.arena.release ptr).map fun (b, arena) => (b, { s with arena })

variable [DecidableEq θ]

def State.moveTo (s : State θ) (t : θ) (place : Place) (effects : List Effect) : State θ :=
  {
    s with
    places := Function.update s.places t place
    effects := Function.update s.effects t (s.effects t ++ effects)
  }

/-- The call starts. -/
def State.enter (s : State θ) (t : θ) (place : Place) : State θ :=
  {
    s with
    places := Function.update s.places t place
    effects := Function.update s.effects t []
  }

/-- The call is over. -/
def State.finish (s : State θ) (t : θ) (call : Call) (effects : List Effect) : State θ :=
  {
    s.moveTo t .outside effects with
    finished := s.finished ++ [⟨call, s.effects t ++ effects⟩]
  }

/-- The block at an address, if it is the thread's. -/
def State.owned (s : State θ) (t : θ) (ptr : Nat) : Option Block :=
  s.arena.blocks.find? fun b =>
    decide (b.addr = ptr)
      && match s.holder b.id with
        | .thread u => decide (u = t)
        | _ => false

/-- The next step of `cl_malloc`, in which `malloc` answers if it is called. The names it is called
with and the bytes it writes to the record come with `fillRecord`, in the same step.
-/
def clMalloc (s : State θ) (t : θ) (block : Option Nat) : Option (State θ) :=
  match s.places t with
  | .mallocing size =>
      match block with
      | none => some (s.finish t (.clMalloc size none) [])
      | some addr =>
          (s.malloc (.call t) (sizeT size) addr).map fun (newMem, s) =>
            s.moveTo t (.gotMem size newMem) [.malloc newMem.id]
  | .gotMem size newMem =>
      match block with
      | none => some (s.moveTo t (.failing size newMem) [])
      | some addr =>
          (s.malloc (.call t) objSz addr).map fun (node, s) =>
            s.moveTo t (.filled size newMem ⟨newMem.addr, sizeT size, node, newMem.id⟩)
              [.malloc node.id]
  | .failing size newMem =>
      (s.free newMem.addr).map fun (b, s) => s.finish t (.clMalloc size none) [.free b.id]
  | .filled size newMem obj =>
      if s.mtxObjs.isNone = true then
        some { s.moveTo t (.adding size newMem obj) [] with mtxObjs := some t }
      else
        none
  | .adding size newMem obj =>
      some {
        s.moveTo t (.added size newMem) [.listAdd obj.made obj.node.id] with
        gLiObjs := s.gLiObjs ++ [obj]
        holder := Function.update s.holder obj.node.id .record
        registered := s.registered ++ [(obj.made, obj.size)]
      }
  | .added size newMem => some { s.moveTo t (.clearing size newMem) [] with mtxObjs := none }
  | .clearing size newMem =>
      some {
        s.finish t (.clMalloc size (some newMem)) [] with
        holder := Function.update s.holder newMem.id (.thread t)
      }
  | _ => none

/-- The next step of `cl_free`. -/
def clFree (s : State θ) (t : θ) : Option (State θ) :=
  match s.places t with
  | .freeing ptr =>
      if s.mtxObjs.isNone = true then
        some { s.moveTo t (.searching ptr) [] with mtxObjs := some t }
      else
        none
  | .searching ptr =>
      match s.gLiObjs.find? (·.addr = ptr.addr) with
      | some pos => some (s.moveTo t (.found ptr pos) [])
      | none => some (s.moveTo t (.missed ptr) [])
  | .found ptr pos =>
      (s.free ptr.addr).map fun (b, s) => s.moveTo t (.freed ptr pos) [.free b.id]
  | .freed ptr pos =>
      some {
        s.moveTo t (.unlinked ptr pos) [.listDel pos.made pos.node.id] with
        gLiObjs := s.gLiObjs.erase pos
        holder := Function.update s.holder pos.node.id (.call t)
        released := s.released ++ [pos.made]
      }
  | .unlinked ptr pos =>
      (s.free pos.node.addr).map fun (b, s) => s.moveTo t (.released ptr) [.free b.id]
  | .released ptr => some { s.finish t (.clFree (some ptr)) [] with mtxObjs := none }
  | .missed ptr => some { s.moveTo t (.wild ptr) [] with mtxObjs := none }
  | .wild ptr =>
      (s.free ptr.addr).map fun (b, s) => s.finish t (.clFree (some ptr)) [.free b.id]
  | _ => none

def State.idle (s : State θ) (t : θ) : Bool :=
  match s.places t with
  | .outside => true
  | _ => false

/-- A thread that is in no call calls `cl_malloc`, or `cl_free` with `NULL` or a block of its
own; `malloc` and `free` it uses for blocks that do not come from `cl_malloc`.
-/
def step (s : State θ) : Action θ → Option (State θ)
  | .proceed t block => (clMalloc s t block).or (clFree s t)
  | .clMalloc t size => if s.idle t = true then some (s.enter t (.mallocing size)) else none
  | .clFree t ptr =>
      if s.idle t = true then
        if ptr = 0 then
          some ((s.enter t .outside).finish t (.clFree none) [])
        else
          (s.owned t ptr).map fun b =>
            { s with holder := Function.update s.holder b.id (.call t) }.enter t (.freeing b)
      else
        none
  | .malloc t size addr =>
      if s.idle t = true then (s.malloc (.thread t) size addr).map Prod.snd else none
  | .free t ptr =>
      if s.idle t = true then
        (s.owned t ptr).bind fun b =>
          if b.id ∈ s.registered.map Prod.fst then none else (s.free b.addr).map Prod.snd
      else
        none
  | .give t u ptr =>
      if s.idle t = true then
        (s.owned t ptr).map fun b =>
          { s with holder := Function.update s.holder b.id (.thread u) }
      else
        none

end Libccll.Alloc
