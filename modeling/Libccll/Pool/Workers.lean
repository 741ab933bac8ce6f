import Libccll.Pool.Thrdpool

/-! What a step of a worker can do, said once, and what it leaves alone. -/

namespace Libccll.Thrdpool

variable {θ φ δ : Type*}

/-- After seeing the exit flag. -/
def Worker.Leaving : Worker φ δ → Prop
  | .exitLocking | .exitSizing | .exitFreeing .. | .exited => True
  | _ => False

/-- The worker has got its lock, gives it back, or is back from its job. -/
inductive Moves : Worker φ δ → Worker φ δ → Prop where
  | exitLocked : Moves .exitLocking .exitSizing
  | peekLocked : Moves .peekLocking .peeking
  | deleteLocked {wf} : Moves (.deleteLocking wf) (.deleting wf)
  | peeked {wf} : Moves (.peeked wf) (.calling wf)
  | executed {wf} : Moves (.executing wf) (.deleteLocking wf)
  | deleted {wf} : Moves (.deleted wf) (.freeing wf)

/-- What a step of a worker can do. -/
inductive Work (s : State θ φ δ) (w : Slot) : State θ φ δ → Prop where
  | start (here : (s.pts w).place = .started)
      : Work s w
          {
            s.workTo w .waiting with
            pools :=
              Function.update s.pools w.1 { s.pools w.1 with runPt := (s.pools w.1).runPt + 1 }
          }
  | wake (here : (s.pts w).place = .waiting) (token : 0 < (s.pts w).smp)
      : Work s w (s.setPt w { s.pts w with smp := (s.pts w).smp - 1, place := .woken })
  | leave (here : (s.pts w).place = .woken) (exit : (s.pts w).exit = true)
      : Work s w (s.workTo w .exitLocking)
  | stay (here : (s.pts w).place = .woken) (exit : (s.pts w).exit = false)
      : Work s w (s.workTo w .peekLocking)
  | move {place mtx} (moves : Moves (s.pts w).place place)
      : Work s w (s.setPt w { s.pts w with place, mtx })
  | peek (here : (s.pts w).place = .peeking)
      : Work s w (s.workTo w (.peeked (s.pts w).wkfnList.head?))
  | crash (here : (s.pts w).place = .calling none) : Work s w s.stop
  | execute {wf} (here : (s.pts w).place = .calling (some wf))
      : Work s w
          ((s.touch [wf]).setPt w
            { s.pts w with place := .executing wf, executed := (s.pts w).executed ++ [wf] })
  | delete {wf} (here : (s.pts w).place = .deleting wf)
      : Work s w
          ((s.touch (wf :: (s.pts w).wkfnList)).setPt w
            {
              s.pts w with
              place := .deleted wf
              wkfnList := (s.pts w).wkfnList.eraseP (decide <| ·.num = wf.num)
            })
  | free {wf} (here : (s.pts w).place = .freeing wf)
      : Work s w ((s.free wf).workTo w .waiting)
  | size (here : (s.pts w).place = .exitSizing)
      : Work s w
          ((s.touch (s.pts w).wkfnList).workTo w
            (.exitFreeing (s.pts w).wkfnList.length 0))
  | skip {cnt i} (here : (s.pts w).place = .exitFreeing cnt i) (more : i < cnt)
      (empty : (s.pts w).wkfnList = [])
      : Work s w (s.workTo w (.exitFreeing cnt (i + 1)))
  | drop {cnt i wf rest} (here : (s.pts w).place = .exitFreeing cnt i) (more : i < cnt)
      (jobs : (s.pts w).wkfnList = wf :: rest)
      : Work s w ((s.free wf).workTo w (.exitFreeing cnt (i + 1)))
  | exit {cnt i} (here : (s.pts w).place = .exitFreeing cnt i) (done : cnt ≤ i)
      : Work s w (s.setPt w { s.pts w with place := .exited, mtx := none })

/-- What a step of a worker leaves alone. -/
structure Frame (s : State θ φ δ) (w : Slot) (s' : State θ φ δ) : Prop where
  gMtxPols : s'.gMtxPols = s.gMtxPols
  gLiPols : s'.gLiPols = s.gLiPols
  created : s'.created = s.created
  callers : s'.callers = s.callers
  nodes : s'.nodes = s.nodes
  popped : s'.popped = s.popped
  released : s'.released = s.released
  unjoined : s'.unjoined = s.unjoined
  amt : ∀ pool, (s'.pools pool).amt = (s.pools pool).amt
  allocated : ∀ pool, (s'.pools pool).allocated = (s.pools pool).allocated
  others : ∀ w', w' ≠ w → s'.pts w' = s.pts w'
  exit : (s'.pts w).exit = (s.pts w).exit
  posted : (s'.pts w).posted = (s.pts w).posted
  leaving : (s'.pts w).place.Leaving → (s.pts w).exit = true ∨ (s.pts w).place.Leaving
  staying : (s.pts w).place ≠ .exited
  present : (s.pts w).place ≠ .absent

variable {s s' : State θ φ δ} {t : Thread θ} {w : Slot}

@[simp] theorem State.setPt_self {pt : PolThrd θ φ δ} : (s.setPt w pt).pts w = pt := by
  simp [State.setPt]

theorem State.setPt_of_ne {pt : PolThrd θ φ δ} {w' : Slot} (other : w' ≠ w)
    : (s.setPt w pt).pts w' = s.pts w' := by
  simp [State.setPt, other]

@[simp] theorem State.setPt_setPt {pt pt' : PolThrd θ φ δ}
    : (s.setPt w pt).setPt w pt' = s.setPt w pt' := by
  simp [State.setPt]

theorem State.lock_eq_some [DecidableEq θ] (locked : s.lock t w = some s')
    : s' = s.setPt w { s.pts w with mtx := some t } := by
  unfold State.lock at locked
  split at locked
  · exact (Option.some.inj locked).symm
  · cases locked

/-- The worker changes its own `PolThrd`, and neither exit flag nor history of posts. -/
theorem frame_setPt {pt : PolThrd θ φ δ} {freed : Nat → Nat} {readFreed : Bool}
    (exit : pt.exit = (s.pts w).exit) (posted : pt.posted = (s.pts w).posted)
    (leaving : pt.place.Leaving → (s.pts w).exit = true ∨ (s.pts w).place.Leaving)
    (staying : (s.pts w).place ≠ .exited) (present : (s.pts w).place ≠ .absent)
    : Frame s w { s.setPt w pt with freed, readFreed } where
  gMtxPols := rfl
  gLiPols := rfl
  created := rfl
  callers := rfl
  nodes := rfl
  popped := rfl
  released := rfl
  unjoined := rfl
  amt _ := rfl
  allocated _ := rfl
  others _ other := Function.update_of_ne other _ _
  exit := by simpa [State.setPt] using exit
  posted := by simpa [State.setPt] using posted
  leaving := by simpa [State.setPt] using leaving
  staying
  present

/-- A worker that starts counts itself. -/
theorem Frame.runPt {runPt : Nat} (frame : Frame s w s')
    : Frame s w
        {
          s' with
          pools := Function.update s'.pools w.1 { s'.pools w.1 with runPt }
        } := by
  refine { frame with amt := ?_, allocated := ?_ }
  · intro pool
    rw [← frame.amt]
    rcases eq_or_ne pool w.1 with rfl | other
    · simp
    · simp [other]
  · intro pool
    rw [← frame.allocated]
    rcases eq_or_ne pool w.1 with rfl | other
    · simp
    · simp [other]

/-- Lock and unlock leave nothing else behind. -/
theorem Moves.leaving {place place' : Worker φ δ} (moves : Moves place place')
    : place'.Leaving → place.Leaving := by
  cases moves <;> exact id

/-- A worker that has not started, or has exited, takes no step. -/
theorem Work.working (work : Work s w s')
    : (s.pts w).place ≠ .exited ∧ (s.pts w).place ≠ .absent := by
  cases work with
  | start here | wake here | leave here | stay here | peek here | crash here | execute here
  | delete here | free here | size here | skip here | drop here | exit here =>
      rw [here]
      exact ⟨nofun, nofun⟩
  | move moves =>
      generalize (s.pts w).place = place at moves
      cases moves <;> exact ⟨nofun, nofun⟩

theorem Work.frame (work : Work s w s') : Frame s w s' := by
  obtain ⟨staying, present⟩ := work.working
  cases work with
  | start here =>
      have frame : Frame s w (s.workTo w .waiting) := frame_setPt rfl rfl nofun staying present
      exact frame.runPt
  | wake | stay | peek | execute | delete | free => exact frame_setPt rfl rfl nofun staying present
  | leave here exit => exact frame_setPt rfl rfl (fun _ => Or.inl exit) staying present
  | move moves => exact frame_setPt rfl rfl (fun h => Or.inr (moves.leaving h)) staying present
  | crash here =>
      exact ⟨rfl, rfl, rfl, rfl, rfl, rfl, rfl, rfl, fun _ => rfl, fun _ => rfl, fun _ _ => rfl,
        rfl, rfl, Or.inr, staying, present⟩
  | size here | skip here | drop here | exit here =>
      have leaving : (s.pts w).place.Leaving := by rw [here]; trivial
      exact frame_setPt rfl rfl (fun _ => Or.inr leaving) staying present

variable [DecidableEq θ]

theorem _workerThread_work (stepped : _workerThread s w = some s') : Work s w s' := by
  unfold _workerThread at stepped
  cases place : (s.pts w).place with
  | absent | exited => simp [place] at stepped
  | started =>
      simp only [place, Option.some.injEq] at stepped
      exact stepped ▸ .start place
  | waiting =>
      simp only [place, Option.ite_none_right_eq_some, Option.some.injEq] at stepped
      obtain ⟨token, rfl⟩ := stepped
      exact .wake place token
  | woken =>
      simp only [place, Option.some.injEq] at stepped
      subst stepped
      split
      · rename_i exit
        exact .leave place exit
      · rename_i staying
        exact .stay place (Bool.eq_false_iff.mpr staying)
  | exitLocking | peekLocking | deleteLocking wf =>
      simp only [place, Option.map_eq_some_iff] at stepped
      obtain ⟨_, locked, rfl⟩ := stepped
      rw [State.lock_eq_some locked, State.workTo, State.setPt_setPt, State.setPt_self]
      exact .move (by rw [place]; constructor)
  | peeked wf | deleted wf =>
      simp only [place, Option.some.injEq] at stepped
      subst stepped
      rw [State.workTo, State.unlock, State.setPt_setPt, State.setPt_self]
      exact .move (by rw [place]; constructor)
  | peeking =>
      simp only [place, Option.some.injEq] at stepped
      exact stepped ▸ .peek place
  | «calling» wf =>
      cases wf with
      | none =>
          simp only [place, Option.some.injEq] at stepped
          exact stepped ▸ .crash place
      | some wf =>
          simp only [place, Option.some.injEq] at stepped
          exact stepped ▸ .execute place
  | executing wf =>
      simp only [place] at stepped
      split at stepped
      · exact Option.some.inj stepped ▸ .move (by rw [place]; constructor)
      · cases stepped
  | deleting wf =>
      simp only [place, Option.some.injEq] at stepped
      exact stepped ▸ .delete place
  | freeing wf =>
      simp only [place, Option.some.injEq] at stepped
      exact stepped ▸ .free place
  | exitSizing =>
      simp only [place, Option.some.injEq] at stepped
      exact stepped ▸ .size place
  | exitFreeing cnt i =>
      simp only [place] at stepped
      split at stepped
      · rename_i more
        split at stepped
        · exact Option.some.inj stepped ▸ .skip place more ‹_›
        · exact Option.some.inj stepped ▸ .drop place more ‹_›
      · rename_i done
        cases stepped
        rw [State.workTo, State.unlock, State.setPt_setPt, State.setPt_self]
        exact .exit place (Nat.le_of_not_lt done)

end Libccll.Thrdpool
