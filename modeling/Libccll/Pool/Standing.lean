import Mathlib.Data.Finset.Card
import Mathlib.Data.Finset.Range
import Libccll.Pool.Sessions

/-! Where the workers stand while no job is posted: waiting, but for the pool that the call under
way creates or tears down.
-/

namespace Libccll.Thrdpool

variable {θ φ δ : Type*}

-----------------------------------------------------------------------------------------
-- Workers
-----------------------------------------------------------------------------------------

/-- Just created by `_cre_thrds`. -/
def PolThrd.fresh : PolThrd θ φ δ := { PolThrd.initial with place := .started }

/-- Waiting for the first job. -/
def PolThrd.calm : PolThrd θ φ δ := { PolThrd.initial with place := .waiting }

/-- The worker takes no step. -/
def PolThrd.Still (pt : PolThrd θ φ δ) : Prop :=
  pt.place = .absent ∨ pt.place = .exited ∨ (pt.place = .waiting ∧ pt.smp = 0)

theorem PolThrd.still_calm : (PolThrd.calm : PolThrd θ φ δ).Still := Or.inr (Or.inr ⟨rfl, rfl⟩)

theorem PolThrd.still_initial : (PolThrd.initial : PolThrd θ φ δ).Still := Or.inl rfl

/-- The workers of a new pool, of which the first `n` are created; some have counted themselves
in `run_pt`.
-/
structure Starting (s : State θ φ δ) (pool n : Nat) (counted : Finset Nat) : Prop where
  below : counted ⊆ Finset.range n
  runPt : (s.pools pool).runPt = counted.card
  waiting : ∀ j ∈ counted, s.pts (pool, j) = .calm
  started : ∀ j < n, j ∉ counted → s.pts (pool, j) = .fresh
  absent : ∀ j, n ≤ j → s.pts (pool, j) = .initial

/-- A worker counts itself, and waits. -/
def State.count (s : State θ φ δ) (w : Slot) : State θ φ δ :=
  {
    s.setPt w .calm with
    pools := Function.update s.pools w.1 { s.pools w.1 with runPt := (s.pools w.1).runPt + 1 }
  }

/-- The workers of the pool from `i` on wait. -/
def State.CalmFrom (s : State θ φ δ) (pool i : Nat) : Prop :=
  ∀ j, i ≤ j → j < (s.pools pool).amt → s.pts (pool, j) = .calm

/-- The mutex of a `PolThrd` told to exit, until its worker takes it. -/
def Handed (t : Thread θ) : Teardown → Option (Thread θ) → Prop
  | .unlocking, mtx => mtx = some t
  | .joining, mtx => mtx = none
  | _, _ => False

/-- Told to exit. -/
def PolThrd.told (mtx : Option (Thread θ)) (smp : Nat) (place : Worker φ δ) : PolThrd θ φ δ :=
  { mtx, smp, exit := true, wkfnList := [], place, posted := [], executed := [] }

/-- The `PolThrd` that `_destroy_pol_thrd` is at, between lock and join. -/
inductive Torn (t : Thread θ) (w : Slot) : Teardown → PolThrd θ φ δ → Prop where
  | locked : Torn t w .flagging { (.calm : PolThrd θ φ δ) with mtx := some t }
  | flagged : Torn t w .waking (.told (some t) 0 .waiting)
  | posted {place mtx} (handed : Handed t place mtx) : Torn t w place (.told mtx 1 .waiting)
  | woken {place mtx} (handed : Handed t place mtx) : Torn t w place (.told mtx 0 .woken)
  | exitLocking {place mtx} (handed : Handed t place mtx)
      : Torn t w place (.told mtx 0 .exitLocking)
  | exitSizing : Torn t w .joining (.told (some (.worker w)) 0 .exitSizing)
  | exitFreeing : Torn t w .joining (.told (some (.worker w)) 0 (.exitFreeing 0 0))
  | exited : Torn t w .joining (.told none 0 .exited)

/-- The steps that a worker told to exit has left, its list being empty. -/
def Worker.left : Worker φ δ → Nat
  | .waiting => 5
  | .woken => 4
  | .exitLocking => 3
  | .exitSizing => 2
  | .exitFreeing .. => 1
  | _ => 0

variable {s s' : State θ φ δ} {t : Thread θ} {w : Slot}

theorem PolThrd.Still.stuck (still : (s.pts w).Still) : _workerThread s w = none := by
  rcases still with place | place | ⟨place, empty⟩
  · simp [_workerThread, place]
  · simp [_workerThread, place]
  · simp [_workerThread, place, empty]

theorem PolThrd.Still.idle (still : (s.pts w).Still) : _workerThread s w ≠ some s' := by
  rw [still.stuck]
  exact (Option.some_ne_none s').symm

theorem _workerThread_fresh (fresh : s.pts w = .fresh) : _workerThread s w = some (s.count w) := by
  simp [_workerThread, State.workTo, State.count, fresh, PolThrd.fresh, PolThrd.calm]

theorem State.touch_nil : s.touch [] = s := by
  simp [State.touch]

/-- `_destroy_pol_thrd` sets the flag, posts the semaphore and unlocks. -/
theorem Torn.flag {pt : PolThrd θ φ δ} (torn : Torn t w .flagging pt)
    : Torn t w .waking { pt with exit := true } := by
  cases torn with
  | locked => exact .flagged
  | posted handed | woken handed | exitLocking handed => cases handed

theorem Torn.wake {pt : PolThrd θ φ δ} (torn : Torn t w .waking pt)
    : Torn t w .unlocking { pt with smp := pt.smp + 1 } := by
  cases torn with
  | flagged => exact .posted rfl
  | posted handed | woken handed | exitLocking handed => cases handed

theorem Torn.unlock {pt : PolThrd θ φ δ} (torn : Torn t w .unlocking pt)
    : Torn t w .joining { pt with mtx := none } := by
  cases torn with
  | posted handed => exact .posted rfl
  | woken handed => exact .woken rfl
  | exitLocking handed => exact .exitLocking rfl

theorem Torn.not_locking {pt : PolThrd θ φ δ} (torn : Torn t w .locking pt) : False := by
  cases torn with
  | posted handed | woken handed | exitLocking handed => cases handed

/-- A worker that is being torn down goes on to its exit. -/
theorem Torn.work {place : Teardown} (torn : Torn t w place (s.pts w))
    (stepped : _workerThread s w = some s')
    : ∃ pt, Torn t w place pt ∧ pt.place.left < (s.pts w).place.left ∧ s' = s.setPt w pt := by
  generalize here : s.pts w = pt at torn
  cases torn with
  | locked | flagged =>
      have still : (s.pts w).Still := here ▸ Or.inr (Or.inr ⟨rfl, rfl⟩)
      exact absurd stepped still.idle
  | posted handed =>
      refine ⟨_, .woken handed, Nat.lt_succ_self _, ?_⟩
      simpa [_workerThread, here, PolThrd.told, eq_comm] using stepped
  | woken handed =>
      refine ⟨_, .exitLocking handed, Nat.lt_succ_self _, ?_⟩
      simpa [_workerThread, State.workTo, here, PolThrd.told, eq_comm] using stepped
  | @exitLocking place mtx handed =>
      simp only [_workerThread, State.workTo, State.lock, here, PolThrd.told] at stepped
      split at stepped
      · rename_i free
        subst free
        cases place with
        | joining =>
            refine ⟨_, .exitSizing, Nat.lt_succ_self _, ?_⟩
            simpa [PolThrd.told, eq_comm] using stepped
        | unlocking => cases handed
        | locking | flagging | waking => cases handed
      · cases stepped
  | exitSizing =>
      refine ⟨_, .exitFreeing, Nat.lt_succ_self _, ?_⟩
      simpa [_workerThread, State.workTo, State.touch_nil, here, PolThrd.told, PolThrd.initial,
        eq_comm] using stepped
  | exitFreeing =>
      refine ⟨_, .exited, Nat.lt_succ_self _, ?_⟩
      simpa [_workerThread, State.workTo, State.unlock, here, PolThrd.told, PolThrd.initial,
        eq_comm] using stepped
  | exited =>
      have still : (s.pts w).Still := here ▸ Or.inr (Or.inl rfl)
      exact absurd stepped still.idle

/-- While it is joined, it has a step left or has exited. -/
theorem Torn.ready (torn : Torn t w .joining (s.pts w))
    : (s.pts w).place = .exited ∨ ∃ s', _workerThread s w = some s' := by
  generalize here : s.pts w = pt at torn
  cases torn with
  | exited => exact Or.inl rfl
  | posted handed => exact Or.inr ⟨_, by simp [_workerThread, here, PolThrd.told]; rfl⟩
  | woken handed => exact Or.inr ⟨_, by simp [_workerThread, here, PolThrd.told]; rfl⟩
  | exitLocking handed =>
      obtain rfl : _ = none := handed
      exact Or.inr ⟨_, by simp [_workerThread, State.lock, here, PolThrd.told]; rfl⟩
  | exitSizing => exact Or.inr ⟨_, by simp [_workerThread, here, PolThrd.told]; rfl⟩
  | exitFreeing => exact Or.inr ⟨_, by simp [_workerThread, here, PolThrd.told]; rfl⟩

-----------------------------------------------------------------------------------------
-- Pools
-----------------------------------------------------------------------------------------

theorem State.CalmFrom.setPt {pool k : Nat} (calm : s.CalmFrom pool k) {pt : PolThrd θ φ δ}
    (out : ∀ j, k ≤ j → (pool, j) ≠ w)
    : (s.setPt w pt).CalmFrom pool k := by
  intro j above below
  rw [State.setPt_of_ne (out j above)]
  exact calm j above below

/-- Counting changes no id and no amount. -/
theorem State.count_pool (k : Nat)
    : ((s.count w).pools k).id = (s.pools k).id
      ∧ ((s.count w).pools k).amt = (s.pools k).amt := by
  rcases eq_or_ne k w.1 with rfl | other
  · simp [State.count]
  · simp [State.count, other]

theorem State.registry_count : (s.count w).registry = s.registry :=
  List.map_congr_left fun k _ => congrArg₂ Prod.mk (s.count_pool k).1 (s.count_pool k).2

theorem State.CalmFrom.count {pool k : Nat} (calm : s.CalmFrom pool k) (other : pool ≠ w.1)
    : (s.count w).CalmFrom pool k := by
  intro j above below
  have old : (pool, j) ≠ w := fun same => other (congrArg Prod.fst same)
  exact (State.setPt_of_ne old).trans (calm j above ((s.count_pool pool).2 ▸ below))

/-- Nothing but the workers and their count matters. -/
theorem Starting.congr {pool n : Nat} {counted : Finset Nat}
    (starting : Starting s pool n counted) (pts : s'.pts = s.pts) (pools : s'.pools = s.pools)
    : Starting s' pool n counted := by
  obtain ⟨below, runPt, waiting, started, absent⟩ := starting
  exact ⟨below, pools ▸ runPt, pts ▸ waiting, pts ▸ started, pts ▸ absent⟩

/-- A worker of a pool being created is created. -/
theorem Starting.start {pool i : Nat} {counted : Finset Nat}
    (starting : Starting s pool i counted)
    : Starting (s.workTo (pool, i) .started) pool (i + 1) counted := by
  obtain ⟨below, runPt, waiting, started, absent⟩ := starting
  have others {j : Nat} (other : j ≠ i)
      : (s.workTo (pool, i) .started).pts (pool, j) = s.pts (pool, j) :=
    State.setPt_of_ne fun same => other (congrArg Prod.snd same)
  refine ⟨below.trans (Finset.range_mono (Nat.le_succ i)), runPt, ?_, ?_, ?_⟩
  · intro j member
    rw [others (Nat.ne_of_lt (Finset.mem_range.mp (below member)))]
    exact waiting j member
  · intro j before out
    rcases Nat.lt_succ_iff_lt_or_eq.mp before with earlier | rfl
    · rw [others (Nat.ne_of_lt earlier)]
      exact started j earlier out
    · rw [State.workTo, State.setPt_self, absent j (Nat.le_refl j)]
      rfl
  · intro j above
    rw [others (by omega)]
    exact absent j (by omega)

/-- A worker that takes a step counts itself. -/
theorem Starting.work {pool n j : Nat} {counted : Finset Nat}
    (starting : Starting s pool n counted) (stepped : _workerThread s (pool, j) = some s')
    : s' = s.count (pool, j) ∧ Starting s' pool n (insert j counted) := by
  obtain ⟨below, runPt, waiting, started, absent⟩ := starting
  have working : ¬(s.pts (pool, j)).Still :=
    fun still => still.idle stepped
  have out : j ∉ counted := fun member => working (waiting j member ▸ PolThrd.still_calm)
  have inside : j < n :=
    Nat.lt_of_not_le fun above => working (absent j above ▸ PolThrd.still_initial)
  obtain rfl := Option.some.inj (stepped.symm.trans (_workerThread_fresh (started j inside out)))
  have others {k : Nat} (other : k ≠ j)
      : (s.count (pool, j)).pts (pool, k) = s.pts (pool, k) :=
    State.setPt_of_ne fun same => other (congrArg Prod.snd same)
  refine ⟨rfl, ?_, ?_, ?_, ?_, ?_⟩
  · exact Finset.insert_subset (Finset.mem_range.mpr inside) below
  · rw [Finset.card_insert_of_notMem out, ← runPt]
    exact congrArg Pool.runPt (Function.update_self pool _ s.pools)
  · intro k member
    rcases eq_or_ne k j with rfl | other
    · exact State.setPt_self
    · exact (others other).trans (waiting k (Finset.mem_of_mem_insert_of_ne member other))
  · intro k before uncounted
    rw [Finset.mem_insert, not_or] at uncounted
    exact (others uncounted.1).trans (started k before uncounted.2)
  · intro k above
    exact (others (by omega)).trans (absent k above)

/-- Once all are counted, all wait. -/
theorem Starting.full {pool : Nat} {counted : Finset Nat}
    (starting : Starting s pool (s.pools pool).amt counted)
    (full : (s.pools pool).runPt = (s.pools pool).amt)
    : s.CalmFrom pool 0 ∧ ∀ j, (s.pts (pool, j)).Still := by
  have all : counted = Finset.range (s.pools pool).amt :=
    Finset.eq_of_subset_of_card_le starting.below (by
      rw [Finset.card_range, ← starting.runPt, full])
  have calm : s.CalmFrom pool 0 :=
    fun j _ below => starting.waiting j (all ▸ Finset.mem_range.mpr below)
  refine ⟨calm, fun j => ?_⟩
  rcases Nat.lt_or_ge j (s.pools pool).amt with below | above
  · exact calm j (Nat.zero_le j) below ▸ PolThrd.still_calm
  · exact starting.absent j above ▸ PolThrd.still_initial

end Libccll.Thrdpool
