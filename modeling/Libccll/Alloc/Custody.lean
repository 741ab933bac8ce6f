import Libccll.Alloc.Objects
import Libccll.Foundation.Removal

/-! Every block has one holder: a thread, a call, or its place in the registry.
What a call knows about its blocks is therefore not disturbed by what others do, and what
`cl_free` finds in the registry is the record of its own block.
-/

namespace Libccll.Alloc

open Foundation

variable {θ : Type*}

/-- The block a record is about. -/
def Obj.mem (obj : Obj) : Block := ⟨obj.made, obj.addr, obj.size⟩

/-- The numbers of the blocks registered so far. -/
def State.ids (s : State θ) : List Nat := s.registered.map Prod.fst

/-- Between lock and unlock. -/
def Place.Locked : Place → Prop
  | .adding .. | .added .. | .searching _ | .found .. | .freed .. | .unlinked .. | .released _
  | .missed _ => True
  | _ => False

/-- The block is in the hands of the thread's call. -/
def Held (s : State θ) (t : θ) (b : Block) : Prop :=
  b ∈ s.arena.blocks ∧ s.holder b.id = .call t

/-- So it is, and it has never been registered. -/
def Loose (s : State θ) (t : θ) (b : Block) : Prop :=
  Held s t b ∧ b.id ∉ s.ids

/-- What a thread knows at each place of a call, and what the call has done by then. -/
def Local (s : State θ) (t : θ) (effects : List Effect) : Place → Prop
  | .outside => True
  | .mallocing _ => effects = []
  | .gotMem size newMem =>
      Loose s t newMem ∧ newMem.size = sizeT size ∧ effects = [.malloc newMem.id]
  | .failing _ newMem => Loose s t newMem ∧ effects = [.malloc newMem.id]
  | .filled size newMem obj | .adding size newMem obj =>
      Loose s t newMem
        ∧ newMem.size = sizeT size
        ∧ Loose s t obj.node
        ∧ newMem.id ≠ obj.node.id
        ∧ obj.mem = newMem
        ∧ effects = [.malloc newMem.id, .malloc obj.node.id]
  | .added size newMem | .clearing size newMem =>
      Held s t newMem
        ∧ newMem.size = sizeT size
        ∧ ∃ node, effects = [.malloc newMem.id, .malloc node, .listAdd newMem.id node]
  | .freeing ptr | .searching ptr => Held s t ptr ∧ effects = []
  | .found ptr pos => Held s t ptr ∧ pos ∈ s.gLiObjs ∧ pos.mem = ptr ∧ effects = []
  | .freed ptr pos =>
      pos ∈ s.gLiObjs
        ∧ pos.mem = ptr
        ∧ ptr.id ∈ s.arena.released
        ∧ effects = [.free ptr.id]
  | .unlinked ptr pos =>
      Loose s t pos.node
        ∧ ptr.id ∈ s.ids
        ∧ ptr.id ∈ s.arena.released
        ∧ effects = [.free ptr.id, .listDel ptr.id pos.node.id]
  | .released ptr =>
      ptr.id ∈ s.ids
        ∧ ptr.id ∈ s.arena.released
        ∧ ∃ node, effects = [.free ptr.id, .listDel ptr.id node, .free node]
  | .missed ptr | .wild ptr => Loose s t ptr ∧ effects = []

/-- What a call has done when it is over: `cl_malloc` registers a block and returns it, or gives
back what it got; `cl_free` frees the block, and the record of a registered one.
-/
def Finished.Exact (ids : List Nat) (f : Finished) : Prop :=
  match f.call with
  | .clMalloc size (some newMem) =>
      newMem.size = sizeT size
        ∧ ∃ node, f.effects = [.malloc newMem.id, .malloc node, .listAdd newMem.id node]
  | .clMalloc _ none => f.effects = [] ∨ ∃ b, f.effects = [.malloc b, .free b]
  | .clFree none => f.effects = []
  | .clFree (some ptr) =>
      if ptr.id ∈ ids then
        ∃ node, f.effects = [.free ptr.id, .listDel ptr.id node, .free node]
      else
        f.effects = [.free ptr.id]

/-- A call that is over is not concerned with blocks registered later. -/
theorem Finished.Exact.grow {ids : List Nat} {f : Finished} (whole : f.Exact ids) {n : Nat}
    (other : ∀ ptr, f.call = .clFree (some ptr) → ptr.id ≠ n)
    : f.Exact (ids ++ [n]) := by
  obtain ⟨call, effects⟩ := f
  cases call with
  | clMalloc size newMem => cases newMem <;> exact whole
  | clFree ptr =>
      cases ptr with
      | none => exact whole
      | some ptr =>
          have same : ptr.id ∈ ids ++ [n] ↔ ptr.id ∈ ids := by
            rw [List.mem_append, List.mem_singleton, or_iff_left (other ptr rfl)]
          simp only [Finished.Exact, same] at whole ⊢
          exact whole

/-- What holds of heap and registry in every state. -/
structure Shared (s : State θ) : Prop where
  heap : s.arena.WellFormed sizeLimit
  lock : ∀ t, (s.places t).Locked ↔ s.mtxObjs = some t
  listed
    : s.gLiObjs.map (fun obj => (obj.made, obj.size))
      = s.registered.filter fun entry => entry.1 ∉ s.released
  distinct : s.ids.Nodup
  known : ∀ n ∈ s.ids, n < s.arena.made
  nodes
    : ∀ obj ∈ s.gLiObjs,
        obj.node ∈ s.arena.blocks ∧ s.holder obj.node.id = .record ∧ obj.node.id ∉ s.ids
  nodesApart : (s.gLiObjs.map fun obj => obj.node.id).Nodup
  backed
    : ∀ obj ∈ s.gLiObjs, obj.mem ∈ s.arena.blocks ∨ ∃ t ptr, s.places t = .freed ptr obj
  gone : ∀ n ∈ s.released, n ∈ s.arena.released
  calls
    : ∀ f ∈ s.finished,
        f.Exact s.ids ∧ ∀ ptr, f.call = .clFree (some ptr) → ptr.id ∈ s.arena.released

/-- And of every thread. -/
structure Custody (s : State θ) : Prop where
  shared : Shared s
  here : ∀ t, Local s t (s.effects t) (s.places t)

theorem custody_initial : Custody (initial : State θ) := by
  refine ⟨?_, fun _ => trivial⟩
  constructor <;> simp [initial, Arena.wellFormed_empty, Place.Locked, State.ids]

/-- What a thread may rely on while others take a step. -/
structure Rely (u : θ) (s s' : State θ) : Prop where
  place : s'.places u = s.places u
  effects : s'.effects u = s.effects u
  held : ∀ b, Held s u b → Held s' u b
  unlisted : ∀ b, Held s u b → b.id ∉ s.ids → b.id ∉ s'.ids
  listed : ∀ n ∈ s.ids, n ∈ s'.ids
  objs : (s.places u).Locked → s'.gLiObjs = s.gLiObjs
  back : ∀ n ∈ s.arena.released, n ∈ s'.arena.released

variable {s s' : State θ} {t u : θ}

theorem Rely.loose (rely : Rely u s s') {b : Block} (loose : Loose s u b) : Loose s' u b :=
  ⟨rely.held b loose.1, rely.unlisted b loose.1 loose.2⟩

/-- What a thread knows does not depend on others. -/
theorem Local.stable (here : Local s u (s.effects u) (s.places u)) (rely : Rely u s s')
    : Local s' u (s'.effects u) (s'.places u) := by
  rw [rely.place, rely.effects]
  have objs := rely.objs
  cases place : s.places u with
  | outside => trivial
  | mallocing size =>
      rw [place] at here
      exact here
  | gotMem size newMem =>
      rw [place] at here
      obtain ⟨loose, sized, effects⟩ := here
      exact ⟨rely.loose loose, sized, effects⟩
  | failing size newMem =>
      rw [place] at here
      exact ⟨rely.loose here.1, here.2⟩
  | filled size newMem obj | adding size newMem obj =>
      rw [place] at here
      obtain ⟨loose, sized, loose', other, mem, effects⟩ := here
      exact ⟨rely.loose loose, sized, rely.loose loose', other, mem, effects⟩
  | added size newMem | clearing size newMem =>
      rw [place] at here
      obtain ⟨held, sized, node, effects⟩ := here
      exact ⟨rely.held newMem held, sized, node, effects⟩
  | freeing ptr | searching ptr =>
      rw [place] at here
      exact ⟨rely.held ptr here.1, here.2⟩
  | found ptr pos =>
      rw [place] at here objs
      obtain ⟨held, member, mem, effects⟩ := here
      exact ⟨rely.held ptr held, objs trivial ▸ member, mem, effects⟩
  | freed ptr pos =>
      rw [place] at here objs
      obtain ⟨member, mem, back, effects⟩ := here
      exact ⟨objs trivial ▸ member, mem, rely.back _ back, effects⟩
  | unlinked ptr pos =>
      rw [place] at here
      obtain ⟨loose, listed, back, effects⟩ := here
      exact ⟨rely.loose loose, rely.listed _ listed, rely.back _ back, effects⟩
  | released ptr =>
      rw [place] at here
      obtain ⟨listed, back, node, effects⟩ := here
      exact ⟨rely.listed _ listed, rely.back _ back, node, effects⟩
  | missed ptr | wild ptr =>
      rw [place] at here
      exact ⟨rely.loose here.1, here.2⟩

-----------------------------------------------------------------------------------------
-- What one thread does to heap and registry
-----------------------------------------------------------------------------------------

/-- Everything but what one thread knows. -/
structure Besides (t : θ) (s : State θ) : Prop where
  shared : Shared s
  others : ∀ u, u ≠ t → Local s u (s.effects u) (s.places u)

theorem Custody.besides (custody : Custody s) (t : θ) : Besides t s :=
  ⟨custody.shared, fun u _ => custody.here u⟩

theorem Besides.custody (besides : Besides t s) (mine : Local s t (s.effects t) (s.places t))
    : Custody s := by
  refine ⟨besides.shared, fun u => ?_⟩
  rcases eq_or_ne u t with rfl | other
  · exact mine
  · exact besides.others u other

/-- A block that is nobody's is handed out. -/
theorem Besides.malloc (besides : Besides t s) {addr size : Nat}
    (fits : s.arena.Fits sizeLimit addr size) (holder : Holder θ)
    : Besides t
        {
          s with
          arena := s.arena.alloc addr size
          holder := Function.update s.holder s.arena.made holder
        } := by
  obtain ⟨shared, others⟩ := besides
  have more (b : Block) (member : b ∈ s.arena.blocks)
      : b ∈ (s.arena.alloc addr size).blocks
        ∧ Function.update s.holder s.arena.made holder b.id = s.holder b.id :=
    ⟨List.mem_append_left _ member,
      Function.update_of_ne (Nat.ne_of_lt (shared.heap.old b member)) ..⟩
  refine ⟨
    {
      shared with
      heap := shared.heap.alloc fits
      known := ?_
      nodes := ?_
      backed := ?_
    },
    ?_⟩
  · exact fun n listed => Nat.lt_succ_of_lt (shared.known n listed)
  · intro obj member
    obtain ⟨inside, record, unlisted⟩ := shared.nodes obj member
    obtain ⟨inside', same⟩ := more obj.node inside
    exact ⟨inside', same.trans record, unlisted⟩
  · exact fun obj member => (shared.backed obj member).imp_left fun inside => (more _ inside).1
  · intro u other
    refine (others u other).stable ⟨rfl, rfl, ?_, fun _ _ => id, fun _ => id, fun _ => rfl,
      fun _ => id⟩
    intro b held
    obtain ⟨inside, same⟩ := more b held.1
    exact ⟨inside, same.trans held.2⟩

/-- A thread frees a block that no other holds. -/
theorem Besides.free (besides : Besides t s) {b : Block} (member : b ∈ s.arena.blocks)
    (mine : ∀ u, u ≠ t → s.holder b.id ≠ .call u) (unlinked : s.holder b.id ≠ .record)
    (stale : ∀ obj ∈ s.gLiObjs, obj.mem = b → ∃ ptr, s.places t = .freed ptr obj)
    : Besides t
        {
          s with
          arena := {
            s.arena with
            blocks := s.arena.blocks.erase b
            released := s.arena.released ++ [b.id]
          }
        } := by
  obtain ⟨shared, others⟩ := besides
  have kept (c : Block) (inside : c ∈ s.arena.blocks) (other : c ≠ b)
      : c ∈ s.arena.blocks.erase b :=
    shared.heap.nodup.mem_erase_iff.mpr ⟨other, inside⟩
  have back (n : Nat) (old : n ∈ s.arena.released) : n ∈ s.arena.released ++ [b.id] :=
    List.mem_append_left _ old
  refine ⟨
    {
      shared with
      heap := shared.heap.release member
      nodes := ?_
      backed := ?_
      gone := ?_
      calls := ?_
    },
    ?_⟩
  · intro obj listed
    obtain ⟨inside, record, unlisted⟩ := shared.nodes obj listed
    exact ⟨kept _ inside (fun same => unlinked (same ▸ record)), record, unlisted⟩
  · intro obj listed
    rcases shared.backed obj listed with inside | freed
    · by_cases same : obj.mem = b
      · obtain ⟨ptr, place⟩ := stale obj listed same
        exact Or.inr ⟨t, ptr, place⟩
      · exact Or.inl (kept _ inside same)
    · exact Or.inr freed
  · exact fun n gone => back n (shared.gone n gone)
  · exact fun f ended => ⟨(shared.calls f ended).1, fun ptr freed =>
      back _ ((shared.calls f ended).2 ptr freed)⟩
  · intro u other
    refine (others u other).stable ⟨rfl, rfl, ?_, fun _ _ => id, fun _ => id, fun _ => rfl, back⟩
    intro c held
    exact ⟨kept c held.1 (fun same => mine u other (same ▸ held.2)), held.2⟩

/-- A block of a thread, or of its call, changes hands. -/
theorem Besides.hold (besides : Besides t s) {n : Nat} {holder : Holder θ}
    (mine : ∀ u, u ≠ t → s.holder n ≠ .call u) (unlinked : s.holder n ≠ .record)
    : Besides t { s with holder := Function.update s.holder n holder } := by
  obtain ⟨shared, others⟩ := besides
  refine ⟨{ shared with nodes := ?_ }, ?_⟩
  · intro obj listed
    obtain ⟨inside, record, unlisted⟩ := shared.nodes obj listed
    have other : obj.node.id ≠ n := fun same => unlinked (same ▸ record)
    exact ⟨inside, (Function.update_of_ne other ..).trans record, unlisted⟩
  · intro u other
    refine (others u other).stable ⟨rfl, rfl, ?_, fun _ _ => id, fun _ => id, fun _ => rfl,
      fun _ => id⟩
    intro b held
    have apart : b.id ≠ n := fun same => mine u other (same ▸ held.2)
    exact ⟨held.1, (Function.update_of_ne apart ..).trans held.2⟩

section

variable [DecidableEq θ]

/-- A thread moves on, and may take or give back the lock. -/
theorem Besides.moveTo (besides : Besides t s) {place : Place} {effects : List Effect}
    {mtxObjs : Option θ}
    (lock : ∀ u, (Function.update s.places t place u).Locked ↔ mtxObjs = some u)
    (settled : ∀ ptr pos, s.places t = .freed ptr pos → pos ∉ s.gLiObjs)
    : Besides t
        {
          s with
          mtxObjs
          places := Function.update s.places t place
          effects := Function.update s.effects t effects
        } := by
  obtain ⟨shared, others⟩ := besides
  refine ⟨{ shared with lock, backed := ?_ }, ?_⟩
  · intro obj member
    refine (shared.backed obj member).imp_right ?_
    rintro ⟨u, ptr, freed⟩
    refine ⟨u, ptr, ?_⟩
    have other : u ≠ t := by
      rintro rfl
      exact settled ptr obj freed member
    exact (Function.update_of_ne other ..).trans freed
  · intro u other
    exact (others u other).stable ⟨Function.update_of_ne other .., Function.update_of_ne other ..,
      fun _ => id, fun _ _ => id, fun _ => id, fun _ => rfl, fun _ => id⟩

end

/-- A record for a block that was never registered is put at the end of the registry. -/
theorem Besides.listAdd (besides : Besides t s) {obj : Obj} (locked : s.mtxObjs = some t)
    (loose : Loose s t obj.mem) (node : Loose s t obj.node) (other : obj.made ≠ obj.node.id)
    : Besides t
        {
          s with
          gLiObjs := s.gLiObjs ++ [obj]
          holder := Function.update s.holder obj.node.id .record
          registered := s.registered ++ [(obj.made, obj.size)]
        } := by
  obtain ⟨shared, others⟩ := besides
  have ids : (s.registered ++ [(obj.made, obj.size)]).map Prod.fst = s.ids ++ [obj.made] :=
    List.map_append
  have notGone : obj.made ∉ s.released := fun gone =>
    shared.heap.not_released loose.1.1 (shared.gone _ gone)
  have apart (x : Obj) (member : x ∈ s.gLiObjs) : x.node.id ≠ obj.node.id := by
    intro same
    have record := (shared.nodes x member).2.1
    rw [same, node.1.2] at record
    cases record
  refine ⟨
    {
      shared with
      listed := ?_
      distinct := ?_
      known := ?_
      nodes := ?_
      nodesApart := ?_
      backed := ?_
      calls := ?_
    },
    ?_⟩
  · have stays : [(obj.made, obj.size)].filter (fun entry => entry.1 ∉ s.released)
        = [(obj.made, obj.size)] := by
      simp [notGone]
    rw [List.map_append, List.filter_append, stays, ← shared.listed]
    rfl
  · rw [State.ids, ids, List.nodup_append]
    refine ⟨shared.distinct, List.nodup_singleton _, ?_⟩
    intro n listed m last same
    rw [List.mem_singleton.mp last] at same
    exact loose.2 (by rwa [same] at listed)
  · intro n listed
    rw [State.ids, ids] at listed
    rcases List.mem_append.mp listed with old | last
    · exact shared.known n old
    · rw [List.mem_singleton.mp last]
      exact shared.heap.old obj.mem loose.1.1
  · intro x listed
    rw [State.ids, ids, List.mem_append, List.mem_singleton, not_or]
    rcases List.mem_append.mp listed with old | last
    · obtain ⟨inside, record, unlisted⟩ := shared.nodes x old
      refine ⟨inside, (Function.update_of_ne (apart x old) ..).trans record, unlisted, ?_⟩
      intro same
      rw [same] at record
      cases record.symm.trans loose.1.2
    · rw [List.mem_singleton.mp last]
      exact ⟨node.1.1, Function.update_self .., node.2, other.symm⟩
  · rw [List.map_append, List.nodup_append]
    refine ⟨shared.nodesApart, List.nodup_singleton _, ?_⟩
    intro n inside m last same
    obtain ⟨x, member, rfl⟩ := List.mem_map.mp inside
    exact apart x member (same.trans (List.mem_singleton.mp last))
  · intro x listed
    rcases List.mem_append.mp listed with old | last
    · exact shared.backed x old
    · rw [List.mem_singleton.mp last]
      exact Or.inl loose.1.1
  · intro f ended
    obtain ⟨whole, back⟩ := shared.calls f ended
    refine ⟨?_, back⟩
    rw [State.ids, ids]
    refine whole.grow ?_
    intro ptr freed same
    exact shared.heap.not_released loose.1.1 (by
      have gone := back ptr freed
      rwa [same] at gone)
  · intro u other
    have notMine {b : Block} {n : Nat} (held : Held s u b) (mine : s.holder n = .call t)
        : b.id ≠ n := by
      intro same
      have theirs := held.2
      rw [same, mine] at theirs
      exact other (Holder.call.inj theirs).symm
    refine (others u other).stable ⟨rfl, rfl, ?_, ?_, ?_, ?_, fun _ => id⟩
    · exact fun b held => ⟨held.1, (Function.update_of_ne (notMine held node.1.2) ..).trans held.2⟩
    · intro b held unlisted
      rw [State.ids, ids, List.mem_append, List.mem_singleton, not_or]
      exact ⟨unlisted, notMine held loose.1.2⟩
    · intro n listed
      rw [State.ids, ids]
      exact List.mem_append_left _ listed
    · intro itself
      cases locked.symm.trans ((shared.lock u).mp itself)
      exact absurd rfl other

/-- The records are those of different blocks. -/
theorem Shared.made_nodup (shared : Shared s) : (s.gLiObjs.map fun obj => obj.made).Nodup := by
  have listed : s.gLiObjs.map (fun obj => obj.made)
      = (s.registered.filter fun entry => entry.1 ∉ s.released).map Prod.fst := by
    rw [← shared.listed, List.map_map]
    rfl
  rw [listed]
  exact shared.distinct.sublist (List.filter_sublist.map Prod.fst)

/-- The record of a freed block is taken out of the registry. -/
theorem Besides.listDel (besides : Besides t s) {obj : Obj} (locked : s.mtxObjs = some t)
    (member : obj ∈ s.gLiObjs) (back : obj.made ∈ s.arena.released)
    : Besides t
        {
          s with
          gLiObjs := s.gLiObjs.erase obj
          holder := Function.update s.holder obj.node.id (.call t)
          released := s.released ++ [obj.made]
        } := by
  obtain ⟨shared, others⟩ := besides
  have distinct : s.gLiObjs.Nodup := shared.nodesApart.of_map _
  have left (x : Obj) (inside : x ∈ s.gLiObjs.erase obj) : x ≠ obj ∧ x ∈ s.gLiObjs :=
    distinct.mem_erase_iff.mp inside
  have sublist : (s.gLiObjs.erase obj).Sublist s.gLiObjs := List.erase_sublist
  have record := (shared.nodes obj member).2.1
  refine ⟨
    {
      shared with
      listed := ?_
      nodes := ?_
      nodesApart := shared.nodesApart.sublist (sublist.map _)
      backed := fun x inside => shared.backed x (left x inside).2
      gone := ?_
    },
    ?_⟩
  · exact Removal.map_erase_eq_filter Prod.fst shared.listed shared.made_nodup member
  · intro x inside
    obtain ⟨inUse, record', unlisted⟩ := shared.nodes x (left x inside).2
    have apart : x.node.id ≠ obj.node.id := fun same =>
      (left x inside).1
        (List.inj_on_of_nodup_map shared.nodesApart (left x inside).2 member same)
    exact ⟨inUse, (Function.update_of_ne apart ..).trans record', unlisted⟩
  · intro n gone
    rcases List.mem_append.mp gone with before | now
    · exact shared.gone n before
    · exact List.mem_singleton.mp now ▸ back
  · intro u other
    refine (others u other).stable ⟨rfl, rfl, ?_, fun _ _ => id, fun _ => id, ?_, fun _ => id⟩
    · intro b held
      have apart : b.id ≠ obj.node.id := by
        intro same
        have theirs := held.2
        rw [same, record] at theirs
        cases theirs
      exact ⟨held.1, (Function.update_of_ne apart ..).trans held.2⟩
    · intro itself
      cases locked.symm.trans ((shared.lock u).mp itself)
      exact absurd rfl other

end Libccll.Alloc
