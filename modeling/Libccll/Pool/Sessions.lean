import Mathlib.Algebra.GroupWithZero.Nat
import Mathlib.Algebra.Order.BigOperators.Group.List
import Mathlib.Algebra.Order.Group.Nat
import Libccll.Foundation.Removal
import Libccll.Foundation.Vacancy
import Libccll.Pool.Turns

/-! Pools created and destroyed one call after the other: what each call does to the list of
pools, and where the workers stand meanwhile.
-/

namespace Libccll.Thrdpool

open Foundation

variable {θ φ δ : Type*}

-----------------------------------------------------------------------------------------
-- What the calls are for
-----------------------------------------------------------------------------------------

/-- The pools of the list, each by its id and how many workers it has. -/
def State.registry (s : State θ φ δ) : List (Int × Nat) :=
  s.gLiPols.map fun pool => ((s.pools pool).id, (s.pools pool).amt)

/-- The ids differ and the workers are within the limit. -/
structure Balanced (nprocs : Nat) (registry : List (Int × Nat)) : Prop where
  distinct : (registry.map Prod.fst).Nodup
  limited : (registry.map Prod.snd).sum ≤ nprocs <<< 2

/-- When no pool of that many workers can be created. -/
def Refused (nprocs : Nat) (registry : List (Int × Nat)) (amount : Int) : Prop :=
  ¬(1 ≤ amount ∧ amount ≤ 256)
  ∨ ((nprocs <<< 2 : Nat) : Int) < (registry.map Prod.snd).sum + amount
  ∨ ∀ i : Int, 0 ≤ i → i < 10000 → i ∈ registry.map Prod.fst

/-- What `cl_trpo_create` returns and leaves behind. -/
structure Created (nprocs : Nat) (registry : List (Int × Nat)) (amount id : Int)
    (registry' : List (Int × Nat)) : Prop where
  refused : Refused nprocs registry amount → id = -1 ∧ registry' = registry
  added
    : ¬Refused nprocs registry amount
      → IsLeast {i : Int | 0 ≤ i ∧ i ∉ registry.map Prod.fst} id
        ∧ registry' = registry ++ [(id, amount.toNat)]

/-- What a call that creates or destroys a pool returns and leaves behind. -/
def Effect (nprocs : Nat) (registry : List (Int × Nat))
    : Call φ δ → Value → List (Int × Nat) → Prop
  | .create amount, .num id, registry' => Created nprocs registry amount id registry'
  | .destroy id, .void, registry' => registry' = registry.filter fun entry => entry.1 ≠ id
  | _, _, _ => False

/-- The limit and the ids are kept by every such call. -/
theorem Effect.balanced {nprocs : Nat} {registry registry' : List (Int × Nat)}
    {call : Call φ δ} {value : Value} (effect : Effect nprocs registry call value registry')
    (balanced : Balanced nprocs registry)
    : Balanced nprocs registry' := by
  obtain ⟨distinct, limited⟩ := balanced
  match call, value, effect with
  | .create amount, .num id, created =>
      by_cases refused : Refused nprocs registry amount
      · obtain ⟨_, same⟩ := created.refused refused
        exact same ▸ ⟨distinct, limited⟩
      · obtain ⟨⟨⟨_, free⟩, _⟩, rfl⟩ := created.added refused
        simp only [Refused, not_or, not_not, not_lt] at refused
        obtain ⟨⟨positive, _⟩, enough, _⟩ := refused
        refine ⟨Vacancy.nodup_append distinct free, ?_⟩
        rw [List.map_append, List.sum_append, List.map_singleton, List.sum_singleton]
        omega
  | .destroy id, .void, removed =>
      subst removed
      refine ⟨Vacancy.nodup_filter distinct, le_trans ?_ limited⟩
      exact (List.filter_sublist.map Prod.snd).sum_le_sum fun _ _ => Nat.zero_le _

-----------------------------------------------------------------------------------------
-- The search for an id, and the pool that has it
-----------------------------------------------------------------------------------------

variable {s s' : State θ φ δ}

/-- Whether a pool of the list has the id. -/
def State.taken (s : State θ φ δ) (id : Int) : Bool :=
  s.gLiPols.any fun pool => decide ((s.pools pool).id = id)

theorem State.taken_iff {id : Int} : s.taken id = true ↔ id ∈ s.registry.map Prod.fst := by
  simp [State.taken, State.registry]

theorem State.taken_eq_false {id : Int}
    : s.taken id = false ↔ id ∉ s.registry.map Prod.fst := by
  rw [← State.taken_iff, Bool.not_eq_true]

theorem _crePolIdFrom_eq {i : Int} {left : Nat}
    : _crePolIdFrom s i left = Vacancy.vacant s.taken i left := by
  induction left generalizing i with
  | zero => rfl
  | succ left ih =>
      rw [_crePolIdFrom, Vacancy.vacant, ih]
      rfl

/-- The sum that `_get_cur_thrd_cnt` computes. -/
theorem _getCurThrdCnt_eq : _getCurThrdCnt s = (s.registry.map Prod.snd).sum := by
  rw [_getCurThrdCnt, State.registry, List.map_map]
  rfl

/-- The tests of `cl_trpo_create` refuse what they should. -/
theorem created_refused {nprocs amount : Nat}
    (refuses : nprocs <<< 2 ≤ _getCurThrdCnt s ∨ nprocs <<< 2 < _getCurThrdCnt s + amount
      ∨ _crePolId s = none)
    (positive : 1 ≤ amount)
    : Created nprocs s.registry amount (-1) s.registry := by
  rw [_getCurThrdCnt_eq] at refuses
  refine ⟨fun _ => ⟨rfl, rfl⟩, fun accepted => absurd ?_ accepted⟩
  rcases refuses with full | scarce | failed
  · exact Or.inr (Or.inl (by omega))
  · exact Or.inr (Or.inl (by omega))
  · rw [_crePolId, _crePolIdFrom_eq] at failed
    exact Or.inr (Or.inr fun i above below =>
      State.taken_iff.mp (Vacancy.vacant_eq_none failed i above (by omega)))

/-- What passes them gets the least id. -/
theorem created_added {nprocs amount : Nat} {id : Int}
    (enough : ¬nprocs <<< 2 < _getCurThrdCnt s + amount) (found : _crePolId s = some id)
    (positive : 1 ≤ amount) (few : amount ≤ 256)
    : Created nprocs s.registry amount id (s.registry ++ [(id, amount)]) := by
  rw [_getCurThrdCnt_eq] at enough
  rw [_crePolId, _crePolIdFrom_eq] at found
  have least := Vacancy.vacant_least found
  obtain ⟨_, below, free, _⟩ := Vacancy.vacant_eq_some found
  refine ⟨fun refused => ?_, fun _ => ⟨?_, rfl⟩⟩
  · rcases refused with outside | scarce | all
    · exact absurd ⟨by omega, by omega⟩ outside
    · omega
    · exact absurd (all id least.1.1 (by omega)) (State.taken_eq_false.mp free)
  · simpa only [State.taken_eq_false] using least

/-- `cl_trpo_destroy` finds no pool only if none has the id. -/
theorem State.find_none {id : Int} (missing : s.find id = none)
    : s.registry.filter (fun entry => entry.1 ≠ id) = s.registry := by
  refine Vacancy.filter_eq_self fun member => ?_
  obtain ⟨entry, listed, rfl⟩ := List.mem_map.mp member
  obtain ⟨pool, inside, rfl⟩ := List.mem_map.mp listed
  exact List.find?_eq_none.mp missing pool inside (decide_eq_true rfl)

/-- Popping the pool that has the id leaves the others. -/
theorem State.registry_pop {id : Int} {pool : Nat} (found : s.find id = some pool)
    (distinct : (s.registry.map Prod.fst).Nodup)
    : (s.pop pool).registry = s.registry.filter fun entry => entry.1 ≠ id := by
  have same : (s.pools pool).id = id := by
    rw [State.find] at found
    simpa using List.find?_some found
  rw [State.registry, List.map_map] at distinct
  rw [← same]
  exact Removal.map_erase_eq_filter_key Prod.fst distinct (State.find_listed found)

/-- A new pool is not in the list yet. -/
theorem Registered.registry_addPool (pools : Registered s) {id : Int} {amount : Nat}
    : (s.addPool id amount).registry = s.registry := by
  refine List.map_congr_left fun pool listed => ?_
  have old : pool ≠ s.created := Nat.ne_of_lt (pools.listed pool listed).1
  simp [State.addPool, old]

end Libccll.Thrdpool
