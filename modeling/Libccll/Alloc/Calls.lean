import Libccll.Alloc.Custody

/-! The steps of `cl_malloc` and `cl_free` keep everybody's blocks where they are. -/

namespace Libccll.Alloc

open Foundation

variable {θ : Type*} {s s' : State θ} {t u : θ}

/-- A call is over, and has done what it should. -/
theorem Besides.finished (besides : Besides t s) {f : Finished} (whole : f.Exact s.ids)
    (back : ∀ ptr, f.call = .clFree (some ptr) → ptr.id ∈ s.arena.released)
    : Besides t { s with finished := s.finished ++ [f] } := by
  obtain ⟨shared, others⟩ := besides
  refine ⟨{ shared with calls := ?_ }, ?_⟩
  · intro g ended
    rcases List.mem_append.mp ended with before | now
    · exact shared.calls g before
    · rw [List.mem_singleton.mp now]
      exact ⟨whole, back⟩
  · intro u other
    exact (others u other).stable ⟨rfl, rfl, fun _ => id, fun _ _ => id, fun _ => id, fun _ => rfl,
      fun _ => id⟩

section

variable [DecidableEq θ]

/-- The lock stays with whom it is. -/
theorem Shared.lock_same (shared : Shared s) {place : Place}
    (stays : place.Locked ↔ (s.places t).Locked) (u : θ)
    : (Function.update s.places t place u).Locked ↔ s.mtxObjs = some u := by
  rcases eq_or_ne u t with rfl | other
  · rw [Function.update_self, stays, shared.lock]
  · rw [Function.update_of_ne other, shared.lock]

/-- A thread takes the lock. -/
theorem Shared.lock_take (shared : Shared s) {place : Place} (free : s.mtxObjs.isNone = true)
    (takes : place.Locked) (u : θ)
    : (Function.update s.places t place u).Locked ↔ some t = some u := by
  rcases eq_or_ne u t with rfl | other
  · rw [Function.update_self]
    exact iff_of_true takes rfl
  · rw [Function.update_of_ne other, shared.lock, Option.isNone_iff_eq_none.mp free]
    exact iff_of_false (by simp) (fun same => other (Option.some.inj same).symm)

/-- A thread gives it back. -/
theorem Shared.lock_give (shared : Shared s) {place : Place} (mine : (s.places t).Locked)
    (leaves : ¬place.Locked) (u : θ)
    : (Function.update s.places t place u).Locked ↔ none = some u := by
  rcases eq_or_ne u t with rfl | other
  · rw [Function.update_self]
    exact iff_of_false leaves (by simp)
  · rw [Function.update_of_ne other, shared.lock, (shared.lock t).mp mine]
    exact iff_of_false (fun same => other (Option.some.inj same).symm) (by simp)

/-- A thread goes on in its call. -/
theorem Besides.goto (besides : Besides t s) {place : Place} {effects : List Effect}
    {mtxObjs : Option θ}
    (lock : ∀ u, (Function.update s.places t place u).Locked ↔ mtxObjs = some u)
    (settled : ∀ ptr pos, s.places t = .freed ptr pos → pos ∉ s.gLiObjs)
    (mine : Local s t (s.effects t ++ effects) place)
    : Custody { s.moveTo t place effects with mtxObjs } := by
  refine (besides.moveTo lock settled).custody ?_
  simp only [Function.update_self]
  exact mine

/-- A thread leaves its call. -/
theorem Besides.finish (besides : Besides t s) {call : Call} {effects : List Effect}
    {mtxObjs : Option θ}
    (lock : ∀ u, (Function.update s.places t .outside u).Locked ↔ mtxObjs = some u)
    (settled : ∀ ptr pos, s.places t = .freed ptr pos → pos ∉ s.gLiObjs)
    (whole : Finished.Exact s.ids ⟨call, s.effects t ++ effects⟩)
    (back : ∀ ptr, call = .clFree (some ptr) → ptr.id ∈ s.arena.released)
    : Custody { s.finish t call effects with mtxObjs } :=
  (besides.finished whole back).goto lock settled trivial

end

/-- What `malloc` returns and leaves. -/
theorem State.malloc_eq {holder : Holder θ} {size addr : Nat} {b : Block}
    (malloced : s.malloc holder size addr = some (b, s'))
    : s.arena.Fits sizeLimit addr size
      ∧ b = s.arena.next addr size
      ∧ s' = {
          s with
          arena := s.arena.alloc addr size
          holder := Function.update s.holder s.arena.made holder
        } := by
  unfold State.malloc at malloced
  split at malloced
  · rename_i fits
    cases malloced
    exact ⟨fits, rfl, rfl⟩
  · cases malloced

/-- What `free` leaves when it is given a block in use. -/
theorem Shared.free_eq (shared : Shared s) {b : Block} (member : b ∈ s.arena.blocks)
    : s.free b.addr
      = some (b,
          {
            s with
            arena := {
              s.arena with
              blocks := s.arena.blocks.erase b
              released := s.arena.released ++ [b.id]
            }
          }) := by
  rw [State.free, shared.heap.release_eq member, Option.map_some]

/-- A new block is in the hands of the call that asked for it, and no record is about it. -/
theorem Shared.loose_new (shared : Shared s) {size addr : Nat}
    : Loose
        {
          s with
          arena := s.arena.alloc addr size
          holder := Function.update s.holder s.arena.made (.call t)
        }
        t (s.arena.next addr size) :=
  ⟨⟨List.mem_append_right _ (List.mem_singleton_self _), Function.update_self ..⟩,
    fun listed => Nat.lt_irrefl _ (shared.known _ listed)⟩

/-- The others are still in its hands. -/
theorem Loose.malloc {b : Block} (loose : Loose s t b) (shared : Shared s) {size addr : Nat}
    {holder : Holder θ}
    : Loose
        {
          s with
          arena := s.arena.alloc addr size
          holder := Function.update s.holder s.arena.made holder
        }
        t b :=
  ⟨⟨List.mem_append_left _ loose.1.1,
    (Function.update_of_ne (Nat.ne_of_lt (shared.heap.old b loose.1.1)) ..).trans loose.1.2⟩,
    loose.2⟩

/-- A record is about a block that was registered. -/
theorem Shared.made_mem (shared : Shared s) {obj : Obj} (member : obj ∈ s.gLiObjs)
    : obj.made ∈ s.ids := by
  have inside : (obj.made, obj.size) ∈ s.gLiObjs.map fun obj => (obj.made, obj.size) :=
    List.mem_map_of_mem member
  rw [shared.listed] at inside
  exact List.mem_map_of_mem (List.mem_of_mem_filter inside)

/-- No record is about a block that was never registered. -/
theorem Shared.notListed (shared : Shared s) {b : Block} (unlisted : b.id ∉ s.ids) {obj : Obj}
    (member : obj ∈ s.gLiObjs)
    : obj.mem ≠ b := by
  rintro rfl
  exact unlisted (shared.made_mem member)

/-- A call frees a block it never registered. -/
theorem Besides.freeLoose (besides : Besides t s) {b : Block} (loose : Loose s t b)
    : Besides t
        {
          s with
          arena := {
            s.arena with
            blocks := s.arena.blocks.erase b
            released := s.arena.released ++ [b.id]
          }
        } := by
  refine besides.free loose.1.1 ?_ ?_ ?_
  · intro u other theirs
    cases loose.1.2.symm.trans theirs
    exact other rfl
  · intro record
    cases loose.1.2.symm.trans record
  · exact fun obj member same => absurd same (besides.shared.notListed loose.2 member)

/-- Unless a block has just been freed under the lock, every record is about a block in use. -/
theorem Shared.inUse (shared : Shared s) (settled : ∀ u ptr pos, s.places u ≠ .freed ptr pos)
    {obj : Obj} (member : obj ∈ s.gLiObjs)
    : obj.mem ∈ s.arena.blocks := by
  refine (shared.backed obj member).resolve_right ?_
  rintro ⟨u, ptr, freed⟩
  exact settled u ptr obj freed

/-- A registered block that is still in use has a record. -/
theorem Shared.exists_record (shared : Shared s)
    (settled : ∀ u ptr pos, s.places u ≠ .freed ptr pos) {b : Block} (inside : b ∈ s.arena.blocks)
    (listed : b.id ∈ s.ids)
    : ∃ obj ∈ s.gLiObjs, obj.mem = b := by
  obtain ⟨entry, member, same⟩ := List.mem_map.mp listed
  have left : entry ∈ s.registered.filter fun entry => entry.1 ∉ s.released := by
    refine List.mem_filter.mpr ⟨member, decide_eq_true fun gone => ?_⟩
    exact shared.heap.not_released inside (same ▸ shared.gone _ gone)
  rw [← shared.listed] at left
  obtain ⟨obj, member', rfl⟩ := List.mem_map.mp left
  exact ⟨obj, member', shared.heap.eq_of_id (shared.inUse settled member') inside same⟩

/-- While a thread has the lock, no other has just freed a registered block. -/
theorem Shared.settled (shared : Shared s) (locked : (s.places t).Locked)
    (place : ∀ ptr pos, s.places t ≠ .freed ptr pos) (u : θ) (ptr : Block) (pos : Obj)
    : s.places u ≠ .freed ptr pos := by
  intro freed
  have itself := (shared.lock u).mp (by rw [freed]; trivial)
  cases ((shared.lock t).mp locked).symm.trans itself
  exact place ptr pos freed

/-- What `cl_free` finds is the record of its block. -/
theorem Custody.search (custody : Custody s) {ptr : Block} (place : s.places t = .searching ptr)
    : match s.gLiObjs.find? (·.addr = ptr.addr) with
      | some pos => pos ∈ s.gLiObjs ∧ pos.mem = ptr
      | none => ptr.id ∉ s.ids := by
  have shared := custody.shared
  have here := custody.here t
  rw [place] at here
  have settled := shared.settled (t := t) (by rw [place]; trivial) (by simp [place])
  split
  · rename_i pos found
    have member := List.mem_of_find?_eq_some found
    have same : pos.addr = ptr.addr := by simpa using List.find?_some found
    exact ⟨member, shared.heap.eq_of_addr (shared.inUse settled member) here.1.1 same⟩
  · rename_i absent
    intro listed
    obtain ⟨obj, member, rfl⟩ := shared.exists_record settled here.1.1 listed
    exact List.find?_eq_none.mp absent obj member (decide_eq_true rfl)

/-- A thread in no call. -/
theorem State.outside_of_idle (idle : s.idle t = true) : s.places t = .outside := by
  unfold State.idle at idle
  split at idle
  · assumption
  · cases idle

-----------------------------------------------------------------------------------------
-- Every step
-----------------------------------------------------------------------------------------

section

variable [DecidableEq θ]

theorem Custody.clMalloc (custody : Custody s) {block : Option Nat}
    (stepped : Alloc.clMalloc s t block = some s')
    : Custody s' := by
  have shared := custody.shared
  have here := custody.here t
  have besides := custody.besides t
  unfold Alloc.clMalloc at stepped
  split at stepped
  · rename_i size place
    rw [place] at here
    have effects : s.effects t = [] := here
    split at stepped
    · obtain rfl := Option.some.inj stepped
      exact besides.finish (shared.lock_same (by rw [place]; rfl)) (by simp [place])
        (Or.inl (by simp [effects])) (by simp)
    · rename_i addr
      obtain ⟨⟨newMem, s₁⟩, malloced, rfl⟩ := Option.map_eq_some_iff.mp stepped
      obtain ⟨fits, rfl, rfl⟩ := State.malloc_eq malloced
      have malloced := besides.malloc fits (.call t)
      exact malloced.goto (malloced.shared.lock_same (by rw [place]; rfl)) (by simp [place])
        ⟨shared.loose_new, rfl, by simp [effects]⟩
  · rename_i size newMem place
    rw [place] at here
    obtain ⟨loose, sized, effects⟩ := here
    split at stepped
    · obtain rfl := Option.some.inj stepped
      exact besides.goto (shared.lock_same (by rw [place]; rfl)) (by simp [place])
        ⟨loose, by simp [effects]⟩
    · rename_i addr
      obtain ⟨⟨node, s₁⟩, malloced, rfl⟩ := Option.map_eq_some_iff.mp stepped
      obtain ⟨fits, rfl, rfl⟩ := State.malloc_eq malloced
      have malloced := besides.malloc fits (.call t)
      refine malloced.goto (malloced.shared.lock_same (by rw [place]; rfl)) (by simp [place])
        ⟨loose.malloc shared, sized, shared.loose_new,
          Nat.ne_of_lt (shared.heap.old newMem loose.1.1), ?_, by simp [effects]⟩
      rw [Obj.mem, ← sized]
  · rename_i size newMem place
    rw [place] at here
    obtain ⟨loose, effects⟩ := here
    rw [shared.free_eq loose.1.1] at stepped
    obtain rfl := Option.some.inj stepped
    have freed := besides.freeLoose loose
    exact freed.finish (freed.shared.lock_same (by rw [place]; rfl)) (by simp [place])
      (Or.inr ⟨newMem.id, by simp [effects]⟩) (by simp)
  · rename_i size newMem obj place
    rw [place] at here
    obtain ⟨loose, sized, node, other, mem, effects⟩ := here
    split at stepped
    · rename_i free
      obtain rfl := Option.some.inj stepped
      exact besides.goto (shared.lock_take free trivial) (by simp [place])
        ⟨loose, sized, node, other, mem, by simp [effects]⟩
    · cases stepped
  · rename_i size newMem obj place
    rw [place] at here
    obtain ⟨loose, sized, node, other, rfl, effects⟩ := here
    obtain rfl := Option.some.inj stepped
    have locked : (s.places t).Locked := by
      rw [place]
      trivial
    have added := besides.listAdd ((shared.lock t).mp locked) loose node other
    refine added.goto (added.shared.lock_same (by rw [place]; rfl)) (by simp [place])
      ⟨⟨loose.1.1, ?_⟩, sized, obj.node.id, by simp [effects]; rfl⟩
    exact (Function.update_of_ne other ..).trans loose.1.2
  · rename_i size newMem place
    rw [place] at here
    obtain ⟨held, sized, node, effects⟩ := here
    obtain rfl := Option.some.inj stepped
    exact besides.goto (shared.lock_give (by rw [place]; trivial) not_false) (by simp [place])
      ⟨held, sized, node, by simp [effects]⟩
  · rename_i size newMem place
    rw [place] at here
    obtain ⟨held, sized, node, effects⟩ := here
    obtain rfl := Option.some.inj stepped
    have returned : Besides t { s with holder := Function.update s.holder newMem.id (.thread t) } :=
      besides.hold (by simp [held.2, eq_comm]) (by simp [held.2])
    exact returned.finish (returned.shared.lock_same (by rw [place]; rfl)) (by simp [place])
      ⟨sized, node, by simp [effects]⟩ (by simp)
  · cases stepped

theorem Custody.clFree (custody : Custody s) (stepped : Alloc.clFree s t = some s')
    : Custody s' := by
  have shared := custody.shared
  have here := custody.here t
  have besides := custody.besides t
  unfold Alloc.clFree at stepped
  split at stepped
  · rename_i ptr place
    rw [place] at here
    split at stepped
    · rename_i free
      obtain rfl := Option.some.inj stepped
      exact besides.goto (shared.lock_take free trivial) (by simp [place])
        ⟨here.1, by simp [here.2]⟩
    · cases stepped
  · rename_i ptr place
    have search := custody.search place
    have locked : (s.places t).Locked := by
      rw [place]
      trivial
    rw [place] at here
    obtain ⟨held, effects⟩ := here
    split at stepped
    · rename_i pos found
      rw [found] at search
      obtain rfl := Option.some.inj stepped
      exact besides.goto (shared.lock_same (by rw [place]; rfl)) (by simp [place])
        ⟨held, search.1, search.2, by simp [effects]⟩
    · rename_i absent
      rw [absent] at search
      obtain rfl := Option.some.inj stepped
      exact besides.goto (shared.lock_same (by rw [place]; rfl)) (by simp [place])
        ⟨⟨held, search⟩, by simp [effects]⟩
  · rename_i ptr pos place
    rw [place] at here
    obtain ⟨held, member, mem, effects⟩ := here
    rw [shared.free_eq held.1] at stepped
    obtain rfl := Option.some.inj stepped
    have moved : Besides t (s.moveTo t (.freed ptr pos) [.free ptr.id]) :=
      besides.moveTo (shared.lock_same (by rw [place]; rfl)) (by simp [place])
    have freed := moved.free (b := ptr) held.1 (by simp [State.moveTo, held.2, eq_comm])
      (by simp [State.moveTo, held.2]) ?_
    · refine freed.custody ?_
      simp only [State.moveTo, Function.update_self, effects]
      exact ⟨member, mem, List.mem_append_right _ (List.mem_singleton_self _), rfl⟩
    · intro obj listed same
      have made : obj.made = pos.made := congrArg Block.id (same.trans mem.symm)
      obtain rfl := List.inj_on_of_nodup_map shared.made_nodup listed member made
      exact ⟨ptr, Function.update_self ..⟩
  · rename_i ptr pos place
    have locked : (s.places t).Locked := by
      rw [place]
      trivial
    rw [place] at here
    obtain ⟨member, rfl, back, effects⟩ := here
    obtain rfl := Option.some.inj stepped
    have deleted := besides.listDel ((shared.lock t).mp locked) member back
    obtain ⟨inside, _, unlisted⟩ := shared.nodes pos member
    refine deleted.goto (deleted.shared.lock_same (by rw [place]; rfl)) ?_
      ⟨⟨⟨inside, Function.update_self ..⟩, unlisted⟩, shared.made_mem member, back,
        by simp [effects]; rfl⟩
    intro ptr pos' freed
    obtain rfl : pos = pos' := (Place.freed.inj (place.symm.trans freed)).2
    exact (shared.nodesApart.of_map _).not_mem_erase
  · rename_i ptr pos place
    rw [place] at here
    obtain ⟨loose, listed, back, effects⟩ := here
    rw [shared.free_eq loose.1.1] at stepped
    obtain rfl := Option.some.inj stepped
    have freed := besides.freeLoose loose
    exact freed.goto (freed.shared.lock_same (by rw [place]; rfl)) (by simp [place])
      ⟨listed, List.mem_append_left _ back, pos.node.id, by simp [effects]⟩
  · rename_i ptr place
    rw [place] at here
    obtain ⟨listed, back, node, effects⟩ := here
    obtain rfl := Option.some.inj stepped
    refine besides.finish (shared.lock_give (by rw [place]; trivial) not_false) (by simp [place])
      ?_ (by rintro _ ⟨⟩; exact back)
    simp only [Finished.Exact, if_pos listed]
    exact ⟨node, by simp [effects]⟩
  · rename_i ptr place
    rw [place] at here
    obtain rfl := Option.some.inj stepped
    exact besides.goto (shared.lock_give (by rw [place]; trivial) not_false) (by simp [place])
      ⟨here.1, by simp [here.2]⟩
  · rename_i ptr place
    rw [place] at here
    obtain ⟨loose, effects⟩ := here
    rw [shared.free_eq loose.1.1] at stepped
    obtain rfl := Option.some.inj stepped
    have freed := besides.freeLoose loose
    have whole : Finished.Exact s.ids ⟨.clFree (some ptr), s.effects t ++ [.free ptr.id]⟩ := by
      simp only [Finished.Exact, if_neg loose.2, effects, List.nil_append]
    exact freed.finish (freed.shared.lock_same (by rw [place]; rfl)) (by simp [place]) whole
      (by rintro _ ⟨⟩; exact List.mem_append_right _ (List.mem_singleton_self _))
  · cases stepped

/-- A block that a thread owns. -/
theorem State.owned_eq {ptr : Nat} {b : Block} (owned : s.owned t ptr = some b)
    : b ∈ s.arena.blocks ∧ b.addr = ptr ∧ s.holder b.id = .thread t := by
  have test := List.find?_some owned
  rw [Bool.and_eq_true, decide_eq_true_eq] at test
  refine ⟨List.mem_of_find?_eq_some owned, test.1, ?_⟩
  have holder := test.2
  split at holder
  · rename_i u held
    rw [held, of_decide_eq_true holder]
  · cases holder

/-- A thread starts a call. -/
theorem Besides.enter (besides : Besides t s) (idle : s.places t = .outside) {place : Place}
    (unlocked : ¬place.Locked) (mine : Local s t [] place)
    : Custody (s.enter t place) := by
  have moved : Besides t (s.enter t place) :=
    besides.moveTo (besides.shared.lock_same (by rw [idle]; exact iff_of_false unlocked not_false))
      (by simp [idle])
  refine moved.custody ?_
  simp only [State.enter, Function.update_self]
  exact mine

theorem Custody.step (custody : Custody s) {action : Action θ}
    (stepped : Alloc.step s action = some s')
    : Custody s' := by
  cases action with
  | proceed t block =>
      rcases Option.or_eq_some_iff.mp stepped with malloc | ⟨_, free⟩
      · exact custody.clMalloc malloc
      · exact custody.clFree free
  | clMalloc t size =>
      simp only [Alloc.step] at stepped
      split at stepped
      · rename_i idle
        obtain rfl := Option.some.inj stepped
        exact (custody.besides t).enter (State.outside_of_idle idle) not_false rfl
      · cases stepped
  | clFree t ptr =>
      simp only [Alloc.step] at stepped
      split at stepped
      · rename_i idle
        have outside := State.outside_of_idle idle
        split at stepped
        · obtain rfl := Option.some.inj stepped
          have entered : Custody (s.enter t .outside) :=
            (custody.besides t).enter outside not_false trivial
          refine (entered.besides t).finish (entered.shared.lock_same (by simp [State.enter]))
            (by simp [State.enter]) ?_ (by simp)
          simp [Finished.Exact, State.enter]
        · obtain ⟨b, owned, rfl⟩ := Option.map_eq_some_iff.mp stepped
          obtain ⟨inside, _, mine⟩ := State.owned_eq owned
          have given : Besides t { s with holder := Function.update s.holder b.id (.call t) } :=
            (custody.besides t).hold (by simp [mine]) (by simp [mine])
          exact given.enter outside not_false ⟨⟨inside, Function.update_self ..⟩, rfl⟩
      · cases stepped
  | malloc t size addr =>
      simp only [Alloc.step] at stepped
      split at stepped
      · rename_i idle
        obtain ⟨⟨b, _⟩, malloced, rfl⟩ := Option.map_eq_some_iff.mp stepped
        obtain ⟨fits, _, rfl⟩ := State.malloc_eq malloced
        refine ((custody.besides t).malloc fits (.thread t)).custody ?_
        rw [show _ = _ from State.outside_of_idle idle]
        trivial
      · cases stepped
  | free t ptr =>
      simp only [Alloc.step] at stepped
      split at stepped
      · rename_i idle
        obtain ⟨b, owned, freed⟩ := Option.bind_eq_some_iff.mp stepped
        obtain ⟨inside, _, mine⟩ := State.owned_eq owned
        split at freed
        · cases freed
        · rename_i unlisted
          rw [custody.shared.free_eq inside] at freed
          obtain rfl := Option.some.inj freed
          have freed := (custody.besides t).free inside (by simp [mine]) (by simp [mine])
            fun obj member same => absurd same (custody.shared.notListed unlisted member)
          refine freed.custody ?_
          rw [show _ = _ from State.outside_of_idle idle]
          trivial
      · cases stepped
  | give t u ptr =>
      simp only [Alloc.step] at stepped
      split at stepped
      · rename_i idle
        obtain ⟨b, owned, rfl⟩ := Option.map_eq_some_iff.mp stepped
        obtain ⟨_, _, mine⟩ := State.owned_eq owned
        have given : Besides t { s with holder := Function.update s.holder b.id (.thread u) } :=
          (custody.besides t).hold (by simp [mine]) (by simp [mine])
        refine given.custody ?_
        rw [show _ = _ from State.outside_of_idle idle]
        trivial
      · cases stepped

end

end Libccll.Alloc
