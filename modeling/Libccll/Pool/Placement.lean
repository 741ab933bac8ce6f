import Libccll.Foundation.Leftmost
import Libccll.Foundation.Transition
import Libccll.Pool.Jobs
import Mathlib.Data.Nat.Basic

/-! Where `cl_trpo_post` puts a job, while nobody but the posting thread takes a step. -/

namespace Libccll.Thrdpool

open Foundation Leftmost Transition

variable {θ φ δ : Type*}

/-- The number of jobs in the list of a worker. -/
def State.load (s : State θ φ δ) (pool i : Nat) : Nat := (s.pts (pool, i)).wkfnList.length

/-- What a post leaves as it is. -/
def State.outline (s : State θ φ δ) : Bool × Bool × Bool × List Nat × (Nat → Int × Nat) :=
  (s.ended, s.gInit, s.gMtxDestroyed, s.gLiPols,
    fun pool => ((s.pools pool).id, (s.pools pool).amt))

theorem State.outline_addNode {s : State θ φ δ} {pool : Nat}
    : (s.addNode pool).outline = s.outline := by
  have same (n : Nat)
      : (((s.addNode pool).pools n).id, ((s.addNode pool).pools n).amt)
        = ((s.pools n).id, (s.pools n).amt) := by
    rcases eq_or_ne n pool with rfl | other
    · simp [State.addNode]
    · simp [State.addNode, other]
  simp only [State.outline, same]
  rfl

/-- A thread can post to a pool and meets no lock that is taken. -/
structure Postable (s : State θ φ δ) (t : Thread θ) (id : Int) (pool : Nat) : Prop where
  running : s.ended = false
  initialised : s.gInit = true
  alive : s.gMtxDestroyed = false
  unlocked : s.gMtxPols = none
  calls : s.calls t = true
  outside : ∃ value, s.callers t = .outside value
  found : s.find id = some pool
  free : ∀ i < (s.pools pool).amt, (s.pts (pool, i)).mtx = none

/-- After a post to it, a pool can be posted to again. -/
theorem Postable.again {s s' : State θ φ δ} {t : Thread θ} {pool : Nat} {id : Int}
    {value : Value} (open_ : Postable s t id pool)
    (back : s'.callers t = .outside value) (calls : s'.calls t = true)
    (unlocked : s'.gMtxPols = none) (outline : s'.outline = s.outline)
    (free : ∀ w, (s'.pts w).mtx = (s.pts w).mtx)
    : Postable s' t id pool := by
  simp only [State.outline, Prod.mk.injEq] at outline
  obtain ⟨ended, init, destroyed, listed, pools⟩ := outline
  have same (n : Nat) : (s'.pools n).id = (s.pools n).id ∧ (s'.pools n).amt = (s.pools n).amt :=
    Prod.mk.inj (congrFun pools n)
  exact {
    running := ended.trans open_.running
    initialised := init.trans open_.initialised
    alive := destroyed.trans open_.alive
    unlocked
    calls
    outside := ⟨value, back⟩
    found := by simpa only [State.find, listed, same] using open_.found
    free i below := (free _).trans (open_.free i ((same pool).2 ▸ below))
  }

/-- The call has returned, and the job is at the end of the list of the first worker among those
with the fewest jobs; the other workers are as before.
-/
def Placed (s : State θ φ δ) (t : Thread θ) (request : Request φ δ) (pool : Nat)
    (s' : State θ φ δ)
    : Prop :=
  s'.callers t = .outside (.ret .succ)
  ∧ ∃ i,
      FirstMin (s.load pool) (s.pools pool).amt i
      ∧ (s'.pts (pool, i)).wkfnList
        = (s.pts (pool, i)).wkfnList ++ [⟨s.nodes, request.fn, request.args⟩]
      ∧ (s'.pts (pool, i)).smp = (s.pts (pool, i)).smp + 1
      ∧ ∀ w, w ≠ (pool, i) → s'.pts w = s.pts w

variable [DecidableEq θ]

/-- A post and so many of its steps, in which MALLOC succeeds or not. -/
def posting (t : Thread θ) (request : Request φ δ) (malloc : Bool) (steps : Nat)
    : List (Action θ φ δ) :=
  .call t (.post request) :: List.replicate steps (.proceed t malloc)

/-- Steps of one thread that calls the library. -/
abbrev Proceeds (nprocs : Nat) (t : Thread θ) (malloc : Bool) (s s' : State θ φ δ) : Prop :=
  Repeats (step nprocs) (.proceed t malloc) s s'

-----------------------------------------------------------------------------------------
-- The scan
-----------------------------------------------------------------------------------------

/-- While the thread scans, it alone changes, and nodes are read. -/
def State.onto (s : State θ φ δ) (t : Thread θ) (place : Posting φ δ) (readFreed : Bool)
    : State θ φ δ :=
  { s.moveTo t (.post place) with readFreed }

variable {s s' : State θ φ δ} {t : Thread θ} {nprocs pool : Nat} {malloc : Bool}
  {request : Request φ δ} {place place' : Posting φ δ}

theorem step_post (running : s.ended = false) (here : s.callers t = .post place)
    : step nprocs s (.proceed t malloc) = clTrpoPost s t malloc place := by
  simp [step, running, State.proceed, here]

theorem State.onto_onto {r r' : Bool}
    : (s.onto t place r).onto t place' r' = s.onto t place' r' := by
  simp [State.onto, State.moveTo]

theorem State.onto_moveTo {r : Bool}
    : (s.onto t place r).moveTo t (.post place') = s.onto t place' r := by
  simp [State.onto, State.moveTo]

theorem State.onto_callers {r : Bool} : (s.onto t place r).callers t = .post place :=
  Function.update_self _ _ _

/-- What the scan makes of the list it has measured. -/
theorem step_measuring {i min : Nat} {pt : Option Nat} (running : s.ended = false)
    (here : s.callers t = .post (.measuring request pool i min pt))
    : step nprocs s (.proceed t malloc)
      = some ((s.touch (s.pts (pool, i)).wkfnList).moveTo t
          (.post
            (if s.load pool i = 0 then
              .measured request pool i min (some i) true
            else if s.load pool i < min then
              .measured request pool i (s.load pool i) (some i) false
            else
              .measured request pool i min pt false))) :=
  step_post running here

/-- One turn of the scan, which ends it or not. -/
theorem scan_turn (nprocs : Nat) (malloc : Bool) {i min min' : Nat} {pt pt' : Option Nat}
    {stop : Bool} (running : s.ended = false)
    (here : s.callers t = .post (.scanning request pool i min pt))
    (below : i < (s.pools pool).amt) (free : (s.pts (pool, i)).mtx = none)
    (measured
      : (if s.load pool i = 0 then
          .measured request pool i min (some i) true
        else if s.load pool i < min then
          .measured request pool i (s.load pool i) (some i) false
        else
          .measured request pool i min pt false)
        = Posting.measured request pool i min' pt' stop)
    : ∃ readFreed,
        Proceeds nprocs t malloc s
          (s.onto t
            (if stop = true then .selected request pool pt'
              else .scanning request pool (i + 1) min' pt')
            readFreed) := by
  let locked := (s.setPt (pool, i) { s.pts (pool, i) with mtx := some t }).moveTo t
    (.post (.measuring request pool i min pt))
  have first : step nprocs s (.proceed t malloc) = some locked := by
    rw [step_post running here, clTrpoPost, if_pos below, State.lock, if_pos free]
    rfl
  have same : locked.load pool i = s.load pool i := by
    simp [locked, State.load, State.setPt, State.moveTo]
  let middle := (locked.touch (locked.pts (pool, i)).wkfnList).moveTo t
    (.post (.measured request pool i min' pt' stop))
  have second : step nprocs locked (.proceed t malloc) = some middle := by
    rw [step_measuring (s := locked) running (Function.update_self _ _ _), same, measured]
  have third : step nprocs middle (.proceed t malloc)
      = clTrpoPost middle t malloc (.measured request pool i min' pt' stop) :=
    step_post running (Function.update_self _ _ _)
  refine ⟨middle.readFreed, .head first (.head second (.head (third.trans ?_) (.refl _)))⟩
  have kept : { s.pts (pool, i) with mtx := none } = s.pts (pool, i) := by rw [← free]
  simp only [clTrpoPost, State.onto, State.unlock, State.touch, State.setPt, State.moveTo,
    middle, locked, Function.update_idem, Function.update_self]
  rw [kept, Function.update_eq_self]

/-- The scan from one worker on: it picks the first of those with the fewest jobs, but none with
10000 jobs or more.
-/
theorem scan_run {i : Nat} {pt : Option Nat} {r : Bool} (running : s.ended = false)
    (free : ∀ j < (s.pools pool).amt, (s.pts (pool, j)).mtx = none)
    (within : i ≤ (s.pools pool).amt) (busy : ∀ j < i, 0 < s.load pool j)
    (picks : Picks (s.load pool) 10000 i pt)
    : ∃ pt' r',
        Proceeds nprocs t malloc
          (s.onto t (.scanning request pool i (smallest (s.load pool) 10000 pt) pt) r)
          (s.onto t (.selected request pool pt') r')
        ∧ Picks (s.load pool) 10000 (s.pools pool).amt pt' := by
  induction left : (s.pools pool).amt - i generalizing i pt r with
  | zero =>
      obtain rfl : i = (s.pools pool).amt := by omega
      refine ⟨pt, r, .head (t := s.onto t (.selected request pool pt) r) ?_ (.refl _), picks⟩
      have past : ¬(s.pools pool).amt < (s.pools pool).amt := Nat.lt_irrefl _
      rw [step_post (s := s.onto t _ r) running State.onto_callers, clTrpoPost]
      exact (if_neg past).trans (congrArg some State.onto_onto)
  | succ left ih =>
      have below : i < (s.pools pool).amt := by omega
      rcases Nat.eq_zero_or_pos (s.load pool i) with idle | busy'
      · obtain ⟨r', turned⟩ :=
          scan_turn nprocs malloc (s := s.onto t _ r) running
            State.onto_callers below (free i below) (if_pos idle)
        rw [State.onto_onto] at turned
        have smaller : s.load pool i < smallest (s.load pool) 10000 pt := by
          cases pt with
          | none => exact idle ▸ Nat.succ_pos _
          | some j => exact idle ▸ busy j (picks.1.below)
        exact ⟨some i, r', turned, (picks.take smaller).stop below fun j _ => idle ▸ Nat.zero_le _⟩
      · have busy (j : Nat) (before : j < i + 1) : 0 < s.load pool j := by
          rcases Nat.lt_or_eq_of_le (Nat.le_of_lt_succ before) with earlier | rfl
          · exact busy j earlier
          · exact busy'
        rcases Nat.lt_or_ge (s.load pool i) (smallest (s.load pool) 10000 pt) with smaller | larger
        · obtain ⟨r', turned⟩ :=
            scan_turn nprocs malloc (s := s.onto t _ r) running
              State.onto_callers below (free i below)
              ((if_neg (Nat.ne_of_gt busy')).trans (if_pos smaller))
          rw [State.onto_onto] at turned
          obtain ⟨pt', r'', rest, picks'⟩ := ih (r := r') below busy (picks.take smaller) (by omega)
          exact ⟨pt', r'', turned.trans rest, picks'⟩
        · obtain ⟨r', turned⟩ :=
            scan_turn nprocs malloc (s := s.onto t _ r) running
              State.onto_callers below (free i below)
              ((if_neg (Nat.ne_of_gt busy')).trans (if_neg (Nat.not_lt.mpr larger)))
          rw [State.onto_onto] at turned
          obtain ⟨pt', r'', rest, picks'⟩ := ih (r := r') below busy (picks.pass larger) (by omega)
          exact ⟨pt', r'', turned.trans rest, picks'⟩

-----------------------------------------------------------------------------------------
-- The call
-----------------------------------------------------------------------------------------

/-- The call returns SUCC with the workers like this. -/
def Succeeds (nprocs : Nat) (t : Thread θ) (malloc : Bool) (s : State θ φ δ)
    (pts : Slot → PolThrd θ φ δ)
    : Prop :=
  ∃ s',
    Proceeds nprocs t malloc s s'
    ∧ s'.callers t = .outside (.ret .succ)
    ∧ s'.gMtxPols = none
    ∧ s'.outline = s.outline
    ∧ s'.pts = pts

variable {i : Nat} {pts : Slot → PolThrd θ φ δ} {wf : WorkFun φ δ}

theorem Succeeds.head (first : step nprocs s (.proceed t malloc) = some s')
    (same : s'.outline = s.outline) (returns : Succeeds nprocs t malloc s' pts)
    : Succeeds nprocs t malloc s pts := by
  obtain ⟨s'', rest, back, unlocked, same', pts⟩ := returns
  exact ⟨s'', .head first rest, back, unlocked, same'.trans same, pts⟩

theorem succeeds_leaving (running : s.ended = false) (here : s.callers t = .leaving (.ret .succ))
    : Succeeds nprocs t malloc s s.pts := by
  have left : step nprocs s (.proceed t malloc)
      = some (s.unlockPols.moveTo t (.outside (.ret .succ))) := by
    simp [step, running, State.proceed, here]
  exact ⟨_, .head left (.refl _), Function.update_self _ _ _, rfl, rfl, rfl⟩

theorem succeeds_signalled (running : s.ended = false)
    (here : s.callers t = .post (.signalled pool i))
    : Succeeds nprocs t malloc s (s.unlock (pool, i)).pts := by
  refine .head (step_post running here) rfl ?_
  exact succeeds_leaving (s := (s.unlock (pool, i)).moveTo t _) running
    (Function.update_self _ _ _)

theorem succeeds_linked (running : s.ended = false) (here : s.callers t = .post (.linked pool i))
    : Succeeds nprocs t malloc s ((s.semPost (pool, i)).unlock (pool, i)).pts := by
  refine .head (step_post running here) rfl ?_
  exact succeeds_signalled (s := (s.semPost (pool, i)).moveTo t _) running
    (Function.update_self _ _ _)

theorem succeeds_adding (running : s.ended = false)
    (here : s.callers t = .post (.adding pool i wf))
    : Succeeds nprocs t malloc s
        (((s.link (pool, i) wf).semPost (pool, i)).unlock (pool, i)).pts := by
  refine .head (step_post running here) rfl ?_
  exact succeeds_linked (s := (s.link (pool, i) wf).moveTo t _) running
    (Function.update_self _ _ _)

/-- From the allocated node on. -/
theorem succeeds_filled (running : s.ended = false)
    (here : s.callers t = .post (.filled pool (some i) wf)) (free : (s.pts (pool, i)).mtx = none)
    : Succeeds nprocs t malloc s
        (Function.update s.pts (pool, i)
          {
            s.pts (pool, i) with
            wkfnList := (s.pts (pool, i)).wkfnList ++ [wf]
            posted := (s.pts (pool, i)).posted ++ [wf]
            smp := (s.pts (pool, i)).smp + 1
          }) := by
  have locks : step nprocs s (.proceed t malloc)
      = some ((s.setPt (pool, i) { s.pts (pool, i) with mtx := some t }).moveTo t
          (.post (.adding pool i wf))) := by
    rw [step_post running here, clTrpoPost, State.lock, if_pos free]
    rfl
  obtain ⟨s', ran, back, unlocked, same, pts⟩ : Succeeds nprocs t malloc
      ((s.setPt (pool, i) { s.pts (pool, i) with mtx := some t }).moveTo t
        (.post (.adding pool i wf))) _ :=
    succeeds_adding running (Function.update_self _ _ _)
  refine .head locks rfl ⟨s', ran, back, unlocked, same, pts.trans ?_⟩
  simp only [State.link, State.semPost, State.unlock, State.touch, State.setPt, State.moveTo,
    Function.update_idem, Function.update_self, free]

/-- Up to the choice of the worker, where the scan knows none with 10000 jobs or more. -/
theorem post_scanned (open_ : Postable s t request.id pool)
    : ∃ first selected pt,
        step nprocs s (.call t (.post request)) = some first
        ∧ Proceeds nprocs t malloc first selected
        ∧ selected.ended = false
        ∧ selected.callers t = .post (.selected request pool pt)
        ∧ selected.outline = s.outline
        ∧ selected.pts = s.pts
        ∧ selected.nodes = s.nodes
        ∧ Picks (s.load pool) 10000 (s.pools pool).amt pt := by
  let held : State θ φ δ := { s with gMtxPols := some t }
  let first := s.onto t (.locking request) s.readFreed
  have enters : step nprocs s (.call t (.post request)) = some first := by
    obtain ⟨value, outside⟩ := open_.outside
    simp only [step, open_.running, outside, open_.calls, State.enter, open_.initialised]
    rfl
  have locks : step nprocs first (.proceed t malloc)
      = some (held.onto t (.finding request) s.readFreed) := by
    have alive : ¬first.gMtxDestroyed = true := Bool.eq_false_iff.mp open_.alive
    have unlocked : first.gMtxPols = none := open_.unlocked
    rw [step_post (s := first) open_.running State.onto_callers, clTrpoPost, State.lockPols,
      if_neg alive, if_pos unlocked, State.onto_moveTo]
    rfl
  have finds : step nprocs (held.onto t (.finding request) s.readFreed) (.proceed t malloc)
      = some (held.onto t (.scanning request pool 0 10000 none) s.readFreed) := by
    have found : (held.onto t (.finding request) s.readFreed).find request.id = some pool :=
      open_.found
    rw [step_post (s := held.onto t (.finding request) _) open_.running State.onto_callers,
      clTrpoPost, found]
    exact congrArg some State.onto_moveTo
  obtain ⟨pt, r, scanned, picks⟩ : ∃ pt r,
      Proceeds nprocs t malloc (held.onto t (.scanning request pool 0 10000 none) s.readFreed)
        (held.onto t (.selected request pool pt) r)
      ∧ Picks (s.load pool) 10000 (s.pools pool).amt pt :=
    scan_run (s := held) open_.running open_.free (Nat.zero_le _)
      (fun j below => absurd below (Nat.not_lt_zero j)) picks_zero
  exact ⟨first, _, pt, enters, .head locks (.head finds scanned), open_.running,
    State.onto_callers, rfl, rfl, rfl, picks⟩

/-- A post whose steps end in a crash has not placed its job on the way. -/
theorem not_placed {first crashed : State θ φ δ}
    (entered : step nprocs s (.call t (.post request)) = some first)
    (crashes : Proceeds nprocs t malloc first crashed) (ended : crashed.ended = true)
    (inside : crashed.callers t = .post place)
    : ¬∃ steps s',
        run (step nprocs) s (posting t request malloc steps) = some s'
        ∧ Placed s t request pool s' := by
  rintro ⟨steps, s', ran, back, _⟩
  rw [posting, run_cons, entered, Option.bind_some] at ran
  have stuck : step nprocs s' (.proceed t malloc) = none := by
    simp [step, State.proceed, back]
  have stuck' : step nprocs crashed (.proceed t malloc) = none := by
    simp [step, ended]
  obtain rfl := Repeats.stuck_unique ⟨steps, ran⟩ stuck crashes stuck'
  cases back.symm.trans inside

/-- Without memory for its node, a post crashes. -/
theorem not_placed_unallocated (open_ : Postable s t request.id pool)
    : ¬∃ steps s',
        run (step nprocs) s (posting t request false steps) = some s'
        ∧ Placed s t request pool s' := by
  obtain ⟨first, selected, pt, entered, scanned, running, here, _⟩ := post_scanned open_
  have stops : step nprocs selected (.proceed t false) = some selected.stop :=
    step_post running here
  exact not_placed entered (scanned.trans (.head stops (.refl _))) rfl here

/-- With 10000 jobs or more in every list, a post crashes as well. -/
theorem not_placed_full (request : Request φ δ) (open_ : Postable s t request.id pool)
    (full : ∀ i < (s.pools pool).amt, 10000 ≤ s.load pool i)
    : ¬∃ steps s',
        run (step nprocs) s (posting t request true steps) = some s'
        ∧ Placed s t request pool s' := by
  obtain ⟨first, selected, pt, entered, scanned, running, here, _, _, _, picks⟩ :=
    post_scanned open_
  cases pt with
  | some i => exact absurd picks.2 (Nat.not_lt.mpr (full i picks.1.below))
  | none =>
      let wf : WorkFun φ δ := ⟨selected.nodes, request.fn, request.args⟩
      let filled := (selected.addNode pool).moveTo t (.post (.filled pool none wf))
      have fills : step nprocs selected (.proceed t true) = some filled := by
        rw [step_post running here, clTrpoPost, if_pos rfl]
      have inside : filled.callers t = .post (.filled pool none wf) := Function.update_self _ _ _
      have stops : step nprocs filled (.proceed t true) = some filled.stop :=
        step_post (s := filled) running inside
      exact not_placed entered (scanned.trans (.head fills (.head stops (.refl _)))) rfl inside

/-- With memory, and a list of fewer than 10000 jobs, a post places its job and unlocks. -/
theorem placed (nprocs : Nat) (request : Request φ δ) (open_ : Postable s t request.id pool)
    (room : ∃ i < (s.pools pool).amt, s.load pool i < 10000)
    : ∃ steps s',
        run (step nprocs) s (posting t request true steps) = some s'
        ∧ Placed s t request pool s'
        ∧ s'.gMtxPols = none
        ∧ s'.outline = s.outline
        ∧ ∀ w, (s'.pts w).mtx = (s.pts w).mtx := by
  obtain ⟨first, selected, pt, entered, scanned, running, here, outline, same, nodes, picks⟩ :=
    post_scanned open_
  cases pt with
  | none =>
      obtain ⟨i, below, short⟩ := room
      exact absurd short (Nat.not_lt.mpr (picks i below))
  | some i =>
      let wf : WorkFun φ δ := ⟨selected.nodes, request.fn, request.args⟩
      let filled := (selected.addNode pool).moveTo t (.post (.filled pool (some i) wf))
      have fills : step nprocs selected (.proceed t true) = some filled := by
        rw [step_post running here, clTrpoPost, if_pos rfl]
      have kept : filled.pts = s.pts := same
      have outline' : filled.outline = s.outline := State.outline_addNode.trans outline
      have free : (filled.pts (pool, i)).mtx = none := kept ▸ open_.free i picks.1.below
      obtain ⟨s', rest, back, unlocked, outline'', pts⟩ : Succeeds nprocs t true filled _ :=
        succeeds_filled running (Function.update_self _ _ _) free
      rw [kept] at pts
      have others (w : Slot) (other : w ≠ (pool, i)) : s'.pts w = s.pts w := by
        rw [pts, Function.update_of_ne other]
      obtain ⟨steps, ran⟩ := scanned.trans (.head fills rest)
      refine ⟨steps, s', ?_, ⟨back, i, picks.1, ?_, ?_, others⟩, unlocked,
        outline''.trans outline', fun w => ?_⟩
      · rw [posting, run_cons, entered, Option.bind_some, ran]
      · rw [pts, Function.update_self, ← nodes]
      · rw [pts, Function.update_self]
      · rcases eq_or_ne w (pool, i) with rfl | other
        · rw [pts, Function.update_self]
        · rw [others w other]

/-- A post to a pool puts its job into the shortest list, the first one of these, if and only if
it gets memory and not all lists have 10000 jobs or more.
-/
theorem job_placed (open_ : Postable s t request.id pool) (malloc : Bool)
    : (∃ steps s',
        run (step nprocs) s (posting t request malloc steps) = some s'
        ∧ Placed s t request pool s')
      ↔ malloc = true ∧ ∃ i < (s.pools pool).amt, s.load pool i < 10000 := by
  constructor
  · intro reached
    have allocated : malloc = true := by
      cases malloc with
      | true => rfl
      | false => exact absurd reached (not_placed_unallocated open_)
    rw [allocated] at reached
    refine ⟨allocated, ?_⟩
    by_contra none
    refine not_placed_full request open_ (fun i below => ?_) reached
    exact Nat.le_of_not_lt fun short => none ⟨i, below, short⟩
  · rintro ⟨rfl, room⟩
    obtain ⟨steps, s', ran, placed, _⟩ := placed nprocs request open_ room
    exact ⟨steps, s', ran, placed⟩

/-- A pool of two workers, the first of which has a job waiting. -/
def oneWaiting : List (Action Unit Unit Unit) :=
  calling (.app ()) .init 0 ++ calling (.app ()) (.create 2) 5 ++ working (0, 0) 1
    ++ working (0, 1) 1 ++ List.replicate 2 (.proceed (.app ()) true)
    ++ calling (.app ()) (.post ⟨0, some (), ()⟩) 11

/-- The next job goes to the second worker. -/
theorem job_placed_second
    : let s := (run (step 1) State.initial oneWaiting).get (by decide)
      ∃ steps s',
        run (step 1) s (posting (.app ()) ⟨0, some (), ()⟩ true steps) = some s'
        ∧ Placed s (.app ()) ⟨0, some (), ()⟩ 0 s' :=
  (job_placed
    {
      running := by rfl
      initialised := by rfl
      alive := by rfl
      unlocked := by rfl
      calls := by rfl
      outside := ⟨.ret .succ, by rfl⟩
      found := by rfl
      free := by decide
    } true).mpr ⟨rfl, 1, by decide, by decide⟩

/-- Before its only worker has taken a job, a pool has been given any number up to 10000. -/
theorem filled_up {n : Nat} (few : n ≤ 10000)
    : ∃ actions s,
        run (step 1) (State.initial : State Unit Unit Unit) actions = some s
        ∧ Postable s (.app ()) 0 0
        ∧ (s.pools 0).amt = 1
        ∧ s.load 0 0 = n := by
  induction n with
  | zero =>
      let actions : List (Action Unit Unit Unit) :=
        calling (.app ()) .init 0 ++ calling (.app ()) (.create 1) 4 ++ working (0, 0) 1
          ++ List.replicate 2 (.proceed (.app ()) true)
      refine ⟨actions, (run (step 1) State.initial actions).get (by decide),
        (Option.some_get _).symm, ?_, by rfl, by rfl⟩
      exact {
        running := by rfl
        initialised := by rfl
        alive := by rfl
        unlocked := by rfl
        calls := by rfl
        outside := ⟨.num 0, by rfl⟩
        found := by rfl
        free := by decide
      }
  | succ n ih =>
      obtain ⟨actions, s, ran, open_, one, load⟩ := ih (by omega)
      obtain ⟨steps, s', ran', ⟨back, i, shortest, list, _⟩, unlocked, outline, free⟩ :=
        placed 1 ⟨0, some (), ()⟩ open_ ⟨0, by omega, by omega⟩
      obtain rfl : i = 0 := by
        have below := shortest.below
        omega
      refine ⟨actions ++ posting (.app ()) ⟨0, some (), ()⟩ true steps, s', ?_,
        open_.again back rfl unlocked outline free, ?_, ?_⟩
      · rw [run_append, ran, Option.bind_some, ran']
      · have pools := congrArg (fun outline => (outline.2.2.2.2 0).2) outline
        exact pools.trans one
      · rw [State.load, list, List.length_append, List.length_singleton]
        exact congrArg (· + 1) load

/-- The job after 10000 waiting ones is not placed. -/
theorem job_placed_full
    : ∃ (actions : List (Action Unit Unit Unit)) (s : State Unit Unit Unit),
        run (step 1) State.initial actions = some s
        ∧ Postable s (.app ()) 0 0
        ∧ ¬∃ steps s',
            run (step 1) s (posting (.app ()) ⟨0, some (), ()⟩ true steps) = some s'
            ∧ Placed s (.app ()) ⟨0, some (), ()⟩ 0 s' := by
  obtain ⟨actions, s, ran, open_, one, load⟩ := filled_up (Nat.le_refl 10000)
  refine ⟨actions, s, ran, open_, ?_⟩
  refine not_placed_full ⟨0, some (), ()⟩ open_ fun i below => ?_
  obtain rfl : i = 0 := by omega
  exact Nat.le_of_eq load.symm

end Libccll.Thrdpool
