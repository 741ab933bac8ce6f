import Libccll.Alloc.Records
import Libccll.Alloc.Registry

/-! The registry with the bytes of its records: what each of them was filled with stays there as
long as it is in the list.
-/

namespace Libccll.Alloc

open Foundation LocalTime

variable {θ : Type*}

/-- A step, and what is new with it: what a caller of `cl_malloc` gives, what the memory of a new
record held before, and what `time` answers.
-/
structure Event (θ : Type*) where
  action : Action θ
  caller : Caller
  held : Mem
  now : Int

/-- The registry, what each thread's call was given, and the bytes of the records by the numbers
of the blocks they are in. History is what each call was told, by the number of its block.
-/
structure Ledger (θ : Type*) where
  state : State θ
  callers : θ → Caller
  records : Nat → Mem
  told : Nat → Told

/-- No call has been made. -/
def Ledger.initial : Ledger θ where
  state := Alloc.initial
  callers _ := ⟨[], 0, [], List.not_mem_nil, List.not_mem_nil⟩
  records _ _ := 0
  told _ := ⟨⟨[], 0, [], List.not_mem_nil, List.not_mem_nil⟩, 0, 0, 0⟩

/-- The bytes of the records in the list. -/
def Ledger.objs (l : Ledger θ) : List Mem := l.state.gLiObjs.map fun obj => l.records obj.node.id

/-- The record that a thread has filled and not put into the list. -/
def Place.Has (obj : Obj) : Place → Prop
  | .filled _ _ obj' | .adding _ _ obj' => obj' = obj
  | _ => False

/-- The record holds what its call was told, at an instant of some kind: its block and size, and the
names.
-/
structure Ledger.Recorded (instant : Int → Prop) (l : Ledger θ) (obj : Obj) : Prop where
  filled
    : Filled (l.records obj.node.id) (l.told obj.made).caller (l.told obj.made).size
        (l.told obj.made).newMem (l.told obj.made).now
  newMem : (l.told obj.made).newMem = .ofNat obj.addr
  size : sizeT (l.told obj.made).size = obj.size
  instant : instant (l.told obj.made).now

/-- So do all records, those in the list and those that are not yet there. -/
structure Ledger.Kept (instant : Int → Prop) (l : Ledger θ) : Prop where
  custody : Custody l.state
  listed : ∀ obj ∈ l.state.gLiObjs, l.Recorded instant obj
  pending : ∀ t obj, (l.state.places t).Has obj → l.Recorded instant obj

theorem Ledger.kept_initial (instant : Int → Prop)
    : (Ledger.initial : Ledger θ).Kept instant where
  custody := custody_initial
  listed := fun _ listed => absurd listed List.not_mem_nil
  pending := fun _ _ has => absurd has not_false

variable {s s' : State θ} {t : θ} {obj : Obj}

/-- A new record is one that `cl_malloc` has just got the memory for. -/
structure Fresh (s s' : State θ) (t : θ) (obj : Obj) : Prop where
  gotMem
    : ∃ size newMem,
        s.places t = .gotMem size newMem
        ∧ obj.made = newMem.id
        ∧ obj.addr = newMem.addr
        ∧ obj.size = sizeT size
  filled : ∃ size newMem, s'.places t = .filled size newMem obj
  node : obj.node.id = s.arena.made

/-- There is one in a call. -/
theorem Fresh.unique {new : Obj} (fresh : Fresh s s' t obj) (other : Fresh s s' t new)
    : new = obj := by
  obtain ⟨_, ⟨size, newMem, place⟩, _⟩ := fresh
  obtain ⟨_, ⟨size', newMem', place'⟩, _⟩ := other
  exact (Place.filled.inj (place'.symm.trans place)).2.2

/-- The thread that goes on in its call. -/
def Action.turn : Action θ → Option θ
  | .proceed t _ => some t
  | _ => none

/-- What a step does to records: it puts filled ones into the list, and in a call fills a new one.
-/
structure Stepped (s s' : State θ) (turn : Option θ) : Prop where
  listed : ∀ obj ∈ s'.gLiObjs, obj ∈ s.gLiObjs ∨ ∃ t, (s.places t).Has obj
  pending
    : ∀ t obj,
        (s'.places t).Has obj → (s.places t).Has obj ∨ turn = some t ∧ Fresh s s' t obj

/-- The record of a call is not that of another, and neither is its block. -/
theorem Custody.apart (custody : Custody s) {new : Obj} (fresh : Fresh s s' t new)
    (old : obj ∈ s.gLiObjs ∨ ∃ u, (s.places u).Has obj)
    : obj.node.id ≠ new.node.id ∧ obj.made ≠ new.made := by
  have shared := custody.shared
  obtain ⟨⟨size, newMem, place, made, _⟩, _, node⟩ := fresh
  have here := custody.here t
  rw [place] at here
  obtain ⟨⟨⟨_, held⟩, unlisted⟩, _⟩ := here
  rw [node, made]
  rcases old with listed | ⟨u, has⟩
  · refine ⟨Nat.ne_of_lt (shared.heap.old _ (shared.nodes obj listed).1), fun same => ?_⟩
    exact unlisted (same ▸ shared.made_mem listed)
  · have there := custody.here u
    cases placed : s.places u with
    | filled size' newMem' obj' | adding size' newMem' obj' =>
        rw [placed] at has there
        obtain rfl : obj' = obj := has
        obtain ⟨⟨⟨_, held'⟩, _⟩, _, ⟨⟨inside, _⟩, _⟩, _, rfl, _⟩ := there
        refine ⟨Nat.ne_of_lt (shared.heap.old _ inside), fun same => ?_⟩
        have same : obj'.mem.id = newMem.id := same
        obtain rfl := Holder.call.inj ((same ▸ held').symm.trans held)
        cases place.symm.trans placed
    | _ =>
        rw [placed] at has
        exact absurd has not_false

/-- What a record holds does not depend on others. -/
theorem Ledger.Recorded.congr {instant : Int → Prop} {l l' : Ledger θ}
    (recorded : l.Recorded instant obj) (records : l'.records obj.node.id = l.records obj.node.id)
    (told : l'.told obj.made = l.told obj.made)
    : l'.Recorded instant obj where
  filled := by
    rw [records, told]
    exact recorded.filled
  newMem := told ▸ recorded.newMem
  size := told ▸ recorded.size
  instant := told ▸ recorded.instant

/-- `free` is not about records. -/
theorem State.free_frame {ptr : Nat} {b : Block} (freed : s.free ptr = some (b, s'))
    : s'.places = s.places ∧ s'.gLiObjs = s.gLiObjs := by
  obtain ⟨_, _, same⟩ := Option.map_eq_some_iff.mp freed
  obtain ⟨_, rfl⟩ := Prod.mk.inj same
  exact ⟨rfl, rfl⟩

variable {l l' : Ledger θ} {instant : Int → Prop}

/-- A step in which no record is filled. -/
theorem Ledger.Kept.aside (kept : l.Kept instant) {turn : Option θ} (custody : Custody l'.state)
    (stepped : Stepped l.state l'.state turn)
    (old : ∀ t obj, turn = some t → ¬Fresh l.state l'.state t obj)
    (records : l'.records = l.records) (told : l'.told = l.told)
    : l'.Kept instant := by
  have recorded {obj : Obj} (before : l.Recorded instant obj) : l'.Recorded instant obj :=
    before.congr (congrFun records _) (congrFun told _)
  refine ⟨custody, fun obj member => ?_, fun t obj has => ?_⟩
  · rcases stepped.listed obj member with before | ⟨t, has⟩
    · exact recorded (kept.listed obj before)
    · exact recorded (kept.pending t obj has)
  · rcases stepped.pending t obj has with before | ⟨turn, fresh⟩
    · exact recorded (kept.pending t obj before)
    · exact absurd fresh (old t obj turn)

/-- A step in which one is filled. -/
theorem Ledger.Kept.fill (kept : l.Kept instant) (custody : Custody s)
    (stepped : Stepped l.state s (some t)) {new : Obj} (fresh : Fresh l.state s t new)
    {record : Mem} {told : Told}
    (filled : Filled record told.caller told.size told.newMem told.now)
    (newMem : told.newMem = .ofNat new.addr) (size : sizeT told.size = new.size)
    (now : instant told.now)
    : Ledger.Kept instant
        ⟨s, l.callers, Function.update l.records new.node.id record,
          Function.update l.told new.made told⟩ := by
  have recorded {obj : Obj} (old : obj ∈ l.state.gLiObjs ∨ ∃ u, (l.state.places u).Has obj)
      (before : l.Recorded instant obj)
      : Ledger.Recorded instant
          ⟨s, l.callers, Function.update l.records new.node.id record,
            Function.update l.told new.made told⟩
          obj :=
    before.congr (Function.update_of_ne (kept.custody.apart fresh old).1 record l.records)
      (Function.update_of_ne (kept.custody.apart fresh old).2 told l.told)
  refine ⟨custody, fun obj member => ?_, fun u obj has => ?_⟩
  · rcases stepped.listed obj member with before | ⟨u, has⟩
    · exact recorded (Or.inl before) (kept.listed obj before)
    · exact recorded (Or.inr ⟨u, has⟩) (kept.pending u obj has)
  · rcases stepped.pending u obj has with before | ⟨turn, fresh'⟩
    · exact recorded (Or.inr ⟨u, before⟩) (kept.pending u obj before)
    · obtain rfl := Option.some.inj turn
      obtain rfl := fresh.unique fresh'
      refine ⟨?_, ?_, ?_, ?_⟩
      all_goals simp only [Function.update_self]
      · exact filled
      · exact newMem
      · exact size
      · exact now

variable [DecidableEq θ]

/-- A record is filled when `cl_malloc` has got the memory for it. -/
def Ledger.step (l : Ledger θ) (e : Event θ) : Option (Ledger θ) :=
  (Alloc.step l.state e.action).bind fun s =>
    match e.action with
    | .clMalloc t _ =>
        some { l with state := s, callers := Function.update l.callers t e.caller }
    | .proceed t _ =>
        match l.state.places t, s.places t with
        | .gotMem size newMem, .filled _ _ obj =>
            (fillRecord e.held (l.callers t) size (.ofNat newMem.addr) e.now).map fun record =>
              {
                l with
                state := s
                records := Function.update l.records obj.node.id record
                told :=
                  Function.update l.told obj.made ⟨l.callers t, size, .ofNat newMem.addr, e.now⟩
              }
        | _, _ => some { l with state := s }
    | _ => some { l with state := s }

-----------------------------------------------------------------------------------------
-- One step
-----------------------------------------------------------------------------------------

/-- A step that does neither. -/
theorem Stepped.of_place {place : Place} {turn : Option θ}
    (places : s'.places = Function.update s.places t place) (listed : s'.gLiObjs ⊆ s.gLiObjs)
    (has : ∀ obj, place.Has obj → (s.places t).Has obj)
    : Stepped s s' turn where
  listed := fun obj member => Or.inl (listed member)
  pending := by
    intro u obj pending
    rw [places] at pending
    rcases eq_or_ne u t with rfl | other
    · rw [Function.update_self] at pending
      exact Or.inl (has obj pending)
    · rw [Function.update_of_ne other] at pending
      exact Or.inl pending

/-- A thread goes to where it has no record. -/
theorem Stepped.leave {place : Place} {turn : Option θ}
    (places : s'.places = Function.update s.places t place) (listed : s'.gLiObjs ⊆ s.gLiObjs)
    (without : ∀ obj, ¬place.Has obj)
    : Stepped s s' turn :=
  .of_place places listed fun obj has => absurd has (without obj)

/-- It has called `free` before. -/
theorem Stepped.free {place : Place} {turn : Option θ} {ptr : Nat} {b : Block} {s₁ : State θ}
    (freed : s.free ptr = some (b, s₁)) (places : s'.places = Function.update s₁.places t place)
    (listed : s'.gLiObjs = s₁.gLiObjs) (without : ∀ obj, ¬place.Has obj)
    : Stepped s s' turn := by
  obtain ⟨places', listed'⟩ := State.free_frame freed
  rw [places'] at places
  exact .leave places (listed.trans listed' ▸ List.Subset.refl _) without

theorem Stepped.clMalloc {block : Option Nat} (stepped : Alloc.clMalloc s t block = some s')
    : Stepped s s' (some t) := by
  unfold Alloc.clMalloc at stepped
  split at stepped
  · rename_i size place
    split at stepped
    · obtain rfl := Option.some.inj stepped
      exact .leave rfl (List.Subset.refl _) fun _ => not_false
    · obtain ⟨⟨newMem, s₁⟩, malloced, rfl⟩ := Option.map_eq_some_iff.mp stepped
      obtain ⟨fits, rfl, rfl⟩ := State.malloc_eq malloced
      exact .leave rfl (List.Subset.refl _) fun _ => not_false
  · rename_i size newMem place
    split at stepped
    · obtain rfl := Option.some.inj stepped
      exact .leave rfl (List.Subset.refl _) fun _ => not_false
    · obtain ⟨⟨node, s₁⟩, malloced, rfl⟩ := Option.map_eq_some_iff.mp stepped
      obtain ⟨fits, rfl, rfl⟩ := State.malloc_eq malloced
      refine ⟨fun obj listed => Or.inl listed, fun u obj pending => ?_⟩
      rcases eq_or_ne u t with rfl | other
      · simp only [State.moveTo, Function.update_self] at pending
        obtain rfl : _ = obj := pending
        exact Or.inr
          ⟨rfl, ⟨size, newMem, place, rfl, rfl, rfl⟩,
            ⟨size, newMem, Function.update_self ..⟩, rfl⟩
      · simp only [State.moveTo, Function.update_of_ne other] at pending
        exact Or.inl pending
  · obtain ⟨⟨b, s₁⟩, freed, rfl⟩ := Option.map_eq_some_iff.mp stepped
    exact .free freed rfl rfl fun _ => not_false
  · rename_i size newMem obj place
    split at stepped
    · obtain rfl := Option.some.inj stepped
      exact .of_place rfl (List.Subset.refl _) fun obj' has => by
        rw [place]
        exact has
    · cases stepped
  · rename_i size newMem obj place
    obtain rfl := Option.some.inj stepped
    refine ⟨fun obj' listed => ?_, fun u obj' pending => ?_⟩
    · rcases List.mem_append.mp listed with before | new
      · exact Or.inl before
      · refine Or.inr ⟨t, ?_⟩
        rw [place]
        exact (List.mem_singleton.mp new).symm
    · rcases eq_or_ne u t with rfl | other
      · simp only [State.moveTo, Function.update_self] at pending
        exact absurd pending not_false
      · simp only [State.moveTo, Function.update_of_ne other] at pending
        exact Or.inl pending
  · obtain rfl := Option.some.inj stepped
    exact .leave rfl (List.Subset.refl _) fun _ => not_false
  · obtain rfl := Option.some.inj stepped
    exact .leave rfl (List.Subset.refl _) fun _ => not_false
  · cases stepped

theorem Stepped.clFree (stepped : Alloc.clFree s t = some s') : Stepped s s' (some t) := by
  unfold Alloc.clFree at stepped
  split at stepped
  · split at stepped
    · obtain rfl := Option.some.inj stepped
      exact .leave rfl (List.Subset.refl _) fun _ => not_false
    · cases stepped
  · split at stepped
    · obtain rfl := Option.some.inj stepped
      exact .leave rfl (List.Subset.refl _) fun _ => not_false
    · obtain rfl := Option.some.inj stepped
      exact .leave rfl (List.Subset.refl _) fun _ => not_false
  · obtain ⟨⟨b, s₁⟩, freed, rfl⟩ := Option.map_eq_some_iff.mp stepped
    exact .free freed rfl rfl fun _ => not_false
  · obtain rfl := Option.some.inj stepped
    exact .leave rfl List.erase_subset fun _ => not_false
  · obtain ⟨⟨b, s₁⟩, freed, rfl⟩ := Option.map_eq_some_iff.mp stepped
    exact .free freed rfl rfl fun _ => not_false
  · obtain rfl := Option.some.inj stepped
    exact .leave rfl (List.Subset.refl _) fun _ => not_false
  · obtain rfl := Option.some.inj stepped
    exact .leave rfl (List.Subset.refl _) fun _ => not_false
  · obtain ⟨⟨b, s₁⟩, freed, rfl⟩ := Option.map_eq_some_iff.mp stepped
    exact .free freed rfl rfl fun _ => not_false
  · cases stepped

/-- A step that is none of the two functions' own leaves all records where they are. -/
theorem Stepped.step {action : Action θ} (stepped : Alloc.step s action = some s')
    : Stepped s s' action.turn := by
  have aside {s' : State θ} (places : s'.places = s.places) (listed : s'.gLiObjs = s.gLiObjs)
      : Stepped s s' none :=
    ⟨fun obj member => Or.inl (listed ▸ member), fun u obj has => Or.inl (places ▸ has)⟩
  cases action with
  | proceed t block =>
      rcases Option.or_eq_some_iff.mp stepped with malloc | ⟨_, free⟩
      · exact .clMalloc malloc
      · exact .clFree free
  | clMalloc t size =>
      simp only [Alloc.step] at stepped
      split at stepped
      · obtain rfl := Option.some.inj stepped
        exact .leave rfl (List.Subset.refl _) fun _ => not_false
      · cases stepped
  | clFree t ptr =>
      simp only [Alloc.step] at stepped
      split at stepped
      · rename_i idle
        split at stepped
        · obtain rfl := Option.some.inj stepped
          refine ⟨fun obj member => Or.inl member, fun u obj has => ?_⟩
          rcases eq_or_ne u t with rfl | other
          · simp only [State.finish, State.moveTo, Function.update_self] at has
            exact absurd has not_false
          · simp only [State.finish, State.moveTo, State.enter, Function.update_of_ne other] at has
            exact Or.inl has
        · obtain ⟨b, owned, rfl⟩ := Option.map_eq_some_iff.mp stepped
          exact .leave rfl (List.Subset.refl _) fun _ => not_false
      · cases stepped
  | malloc t size addr =>
      simp only [Alloc.step] at stepped
      split at stepped
      · obtain ⟨⟨b, _⟩, malloced, rfl⟩ := Option.map_eq_some_iff.mp stepped
        obtain ⟨fits, _, rfl⟩ := State.malloc_eq malloced
        exact aside rfl rfl
      · cases stepped
  | free t ptr =>
      simp only [Alloc.step] at stepped
      split at stepped
      · obtain ⟨b, owned, freed⟩ := Option.bind_eq_some_iff.mp stepped
        split at freed
        · cases freed
        · obtain ⟨⟨_, _⟩, released, rfl⟩ := Option.map_eq_some_iff.mp freed
          obtain ⟨places, listed⟩ := State.free_frame released
          exact aside places listed
      · cases stepped
  | give t u ptr =>
      simp only [Alloc.step] at stepped
      split at stepped
      · obtain ⟨b, owned, rfl⟩ := Option.map_eq_some_iff.mp stepped
        exact aside rfl rfl
      · cases stepped

-----------------------------------------------------------------------------------------
-- Every run
-----------------------------------------------------------------------------------------

variable {e : Event θ}

theorem Ledger.Kept.step (kept : l.Kept instant) (now : instant e.now)
    (stepped : Ledger.step l e = some l')
    : l'.Kept instant := by
  obtain ⟨s, moved, rest⟩ := Option.bind_eq_some_iff.mp stepped
  have custody : Custody s := kept.custody.step moved
  have change : Stepped l.state s e.action.turn := Stepped.step moved
  split at rest
  · rename_i t size action
    obtain rfl := Option.some.inj rest
    exact kept.aside custody change (fun u obj turn => by rw [action] at turn; cases turn) rfl rfl
  · rename_i t block action
    rw [action] at change
    split at rest
    · rename_i size newMem _ _ new place place'
      obtain ⟨record, filled, rfl⟩ := Option.map_eq_some_iff.mp rest
      have fresh : Fresh l.state s t new := by
        rcases change.pending t new (by rw [place']; rfl) with before | ⟨_, fresh⟩
        · rw [place] at before
          exact absurd before not_false
        · exact fresh
      obtain ⟨_, _, place'', _, addr, sized⟩ := fresh.gotMem
      obtain ⟨rfl, rfl⟩ := Place.gotMem.inj (place.symm.trans place'')
      exact kept.fill custody change fresh (fillRecord_filled filled) (by rw [addr]) sized.symm now
    · rename_i other
      obtain rfl := Option.some.inj rest
      refine kept.aside custody change (fun u obj turn fresh => ?_) rfl rfl
      obtain rfl := Option.some.inj turn
      obtain ⟨⟨size, newMem, place, _⟩, ⟨size', newMem', place'⟩, _⟩ := fresh
      exact other size newMem size' newMem' obj place place'
  · rename_i other
    obtain rfl := Option.some.inj rest
    refine kept.aside custody change (fun u obj turn => ?_) rfl rfl
    cases action : e.action with
    | proceed t block => exact absurd action (other t block)
    | _ =>
        rw [action] at turn
        cases turn

/-- In every run each record in the list holds what its call was told. -/
theorem Ledger.kept {events : List (Event θ)} (now : ∀ e ∈ events, instant e.now)
    (ran : Transition.run Ledger.step Ledger.initial events = some l)
    : l.Kept instant :=
  Transition.run_invariant_of (fun here kept stepped => kept.step here stepped) now
    (Ledger.kept_initial instant) ran

-----------------------------------------------------------------------------------------
-- The registry in every run
-----------------------------------------------------------------------------------------

/-- The names that the calls were given fit. -/
def Ledger.Named (l : Ledger θ) : Prop := ∀ t, (l.callers t).Fits

omit [DecidableEq θ] in
theorem Ledger.named_initial : (Ledger.initial : Ledger θ).Named :=
  fun _ => ⟨Nat.zero_le _, Nat.zero_le _⟩

theorem Ledger.step_state (stepped : Ledger.step l e = some l')
    : Alloc.step l.state e.action = some l'.state := by
  obtain ⟨s, moved, rest⟩ := Option.bind_eq_some_iff.mp stepped
  split at rest
  · obtain rfl := Option.some.inj rest
    exact moved
  · split at rest
    · obtain ⟨record, _, rfl⟩ := Option.map_eq_some_iff.mp rest
      exact moved
    · obtain rfl := Option.some.inj rest
      exact moved
  · obtain rfl := Option.some.inj rest
    exact moved

theorem Ledger.Named.step (named : l.Named) (fits : e.caller.Fits)
    (stepped : Ledger.step l e = some l')
    : l'.Named := by
  obtain ⟨s, moved, rest⟩ := Option.bind_eq_some_iff.mp stepped
  split at rest
  · rename_i t size action
    obtain rfl := Option.some.inj rest
    intro u
    rcases eq_or_ne u t with rfl | other
    · simp only [Function.update_self, fits]
    · simp only [Function.update_of_ne other, named u]
  · split at rest
    · obtain ⟨record, _, rfl⟩ := Option.map_eq_some_iff.mp rest
      exact named
    · obtain rfl := Option.some.inj rest
      exact named
  · obtain rfl := Option.some.inj rest
    exact named

/-- With names that fit no record gets in the way of a step. -/
theorem Ledger.Named.isSome_step (named : l.Named) (e : Event θ)
    : (Ledger.step l e).isSome = (Alloc.step l.state e.action).isSome := by
  rw [Ledger.step]
  cases moved : Alloc.step l.state e.action with
  | none => rfl
  | some s =>
      rw [Option.bind_some]
      split
      · rfl
      · split
        · rw [Option.isSome_map, fillRecord_isSome_iff.mpr (named _)]
          rfl
        · rfl
      · rfl

omit [DecidableEq θ] in
/-- The record of a block in use tells its address and its size. -/
theorem Ledger.Kept.record (kept : l.Kept instant) {obj : Obj} (listed : obj ∈ l.state.gLiObjs)
    (used : obj.mem ∈ l.state.arena.blocks)
    : LittleEndian.load 8 64 (l.records obj.node.id) = obj.addr
      ∧ LittleEndian.load 8 72 (l.records obj.node.id) = obj.size := by
  have recorded := kept.listed obj listed
  have below : obj.addr < 2 ^ 64 := (kept.custody.shared.heap.inside obj.mem used).2.1
  constructor
  · rw [recorded.filled.addr, recorded.newMem, UInt64.toNat_ofNat', Nat.mod_eq_of_lt below]
  · rw [recorded.filled.size, recorded.size]

/-- In every run of any number of threads whose names fit, while the lock is free the records are
about different blocks, each in use and as long as the record says, and just those registered and
not released; the counts are theirs, the first one as a `uint32_t`. Every call that is over has done
what it should, no block was freed twice, nothing but the lock has kept a call from going on, and no
write to a record has left it.
-/
theorem registry_exact {events : List (Event θ)} (named : ∀ e ∈ events, e.caller.Fits)
    (ran : Transition.run Ledger.step Ledger.initial events = some l)
    : (l.state.mtxObjs = none
        → (l.state.gLiObjs.map Obj.addr).Nodup
          ∧ (∀ obj ∈ l.state.gLiObjs,
              obj.mem ∈ l.state.arena.blocks
              ∧ LittleEndian.load 8 64 (l.records obj.node.id) = obj.addr
              ∧ LittleEndian.load 8 72 (l.records obj.node.id) = obj.size)
          ∧ l.state.gLiObjs.map (fun obj => (obj.made, obj.size)) = l.state.tracked
          ∧ clAllocingCnt l.state = l.state.tracked.length % 2 ^ 32
          ∧ clAllocingBytes l.state = (l.state.tracked.map Prod.snd).sum)
      ∧ (∀ f ∈ l.state.finished, f.Exact l.state.ids)
      ∧ l.state.arena.released.Nodup
      ∧ (∀ e : Event θ, (Ledger.step l e).isSome = (Alloc.step l.state e.action).isSome)
      ∧ ∀ t,
          l.state.idle t = false
            → (Alloc.step l.state (.proceed t none)).isSome = true
              ∨ ∃ u, u ≠ t ∧ l.state.mtxObjs = some u := by
  have kept : l.Kept fun _ => True := Ledger.kept (fun _ _ => trivial) ran
  have fits : l.Named :=
    Transition.run_invariant_of (fun here before stepped => before.step here stepped) named
      Ledger.named_initial ran
  have shared := kept.custody.shared
  refine ⟨fun free => ?_, fun f ended => (shared.calls f ended).1, shared.heap.once,
    fits.isSome_step, fun t calling => kept.custody.enabled calling⟩
  obtain ⟨distinct, used, listed, cnt, bytes⟩ := shared.listing free
  exact ⟨distinct, fun obj member => ⟨used obj member, kept.record member (used obj member)⟩,
    listed, cnt, bytes⟩

/-- Names with so many letters. -/
def lettered (fun_ tag : Nat) (lineNo : Int32) : Caller where
  fun_ := List.replicate fun_ 97
  lineNo := lineNo
  tag := List.replicate tag 65
  visible :=
    ⟨fun member => absurd (List.eq_of_mem_replicate member) (by decide),
      fun member => absurd (List.eq_of_mem_replicate member) (by decide)⟩

/-- The steps of one thread, in calls with these names. -/
def namedSteps (caller : Caller) (actions : List (Action Unit)) : List (Event Unit) :=
  actions.map fun action => ⟨action, caller, fun _ => 0, 0⟩

/-- A block is freed and its address handed out again. -/
theorem registry_exact_reused
    : let l := (Transition.run Ledger.step Ledger.initial
        (namedSteps (lettered 9 6 47)
          (mallocCall 8 4096
            ++ [.clFree () 4096, .proceed () none, .proceed () none, .proceed () none,
              .proceed () none, .proceed () none, .proceed () none]
            ++ mallocCall 24 4096))).get (by decide)
      clAllocingBytes l.state = (l.state.tracked.map Prod.snd).sum
      ∧ clAllocingBytes l.state = 24 :=
  ⟨((registry_exact (List.forall_mem_map.mpr fun _ _ => show (lettered 9 6 47).Fits by decide)
    (Option.some_get _).symm).1 (by rfl)).2.2.2.2, by rfl⟩

/-- What the steps do to heap and list is done with any names that fit. -/
theorem Ledger.Named.run {l : Ledger Unit} (named : l.Named) {caller : Caller} (fits : caller.Fits)
    {actions : List (Action Unit)} {s : State Unit}
    (ran : Transition.run Alloc.step l.state actions = some s)
    : ∃ l',
        Transition.run Ledger.step l (namedSteps caller actions) = some l' ∧ l'.state = s := by
  induction actions generalizing l with
  | nil => exact ⟨l, rfl, Option.some.inj ran⟩
  | cons action actions ih =>
      rw [Transition.run_cons] at ran
      obtain ⟨s₁, first, rest⟩ := Option.bind_eq_some_iff.mp ran
      let e : Event Unit := ⟨action, caller, fun _ => 0, 0⟩
      have enabled : (Ledger.step l e).isSome = true := by
        rw [named.isSome_step, first]
        rfl
      obtain ⟨l₁, stepped⟩ := Option.isSome_iff_exists.mp enabled
      obtain rfl : l₁.state = s₁ := Option.some.inj ((Ledger.step_state stepped).symm.trans first)
      obtain ⟨l', ran', same⟩ := ih (named.step fits stepped) rest
      refine ⟨l', ?_, same⟩
      change (Ledger.step l e).bind _ = _
      rw [stepped]
      exact ran'

/-- With 2^32 blocks registered the count is zero; and a tag of 72 bytes leaves its record. -/
theorem registry_exact_many
    : (¬∀ (events : List (Event Unit)) (l : Ledger Unit),
        Transition.run Ledger.step Ledger.initial events = some l
        → l.state.mtxObjs = none
        → clAllocingCnt l.state = l.state.tracked.length)
      ∧ ¬∀ (events : List (Event Unit)) (l : Ledger Unit) (e : Event Unit),
        Transition.run Ledger.step Ledger.initial events = some l
        → (Ledger.step l e).isSome = (Alloc.step l.state e.action).isSome := by
  constructor
  · intro claim
    obtain ⟨actions, s, ran, quiet, len⟩ := exists_registered (2 ^ 32) (by decide)
    obtain ⟨l, ran', rfl⟩ :=
      Ledger.named_initial.run (show (lettered 9 6 47).Fits by decide)
        (show Transition.run Alloc.step Ledger.initial.state actions = some s from ran)
    have kept : l.Kept fun _ => True := Ledger.kept (fun _ _ => trivial) ran'
    have count := claim _ l ran' quiet.unlocked
    rw [kept.custody.shared.tracked_length, clAllocingCnt, len] at count
    exact absurd count (by decide)
  · intro claim
    have stuck :=
      claim
        (namedSteps (lettered 9 72 47) [.clMalloc () 8, .proceed () (some 4096)]) _
        ⟨.proceed () (some 4224), lettered 9 72 47, fun _ => 0, 0⟩
        (Option.some_get (by decide)).symm
    exact absurd stuck (by decide)

end Libccll.Alloc
