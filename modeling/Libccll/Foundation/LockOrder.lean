import Mathlib.Logic.Function.Basic
import Mathlib.Logic.Relation

/-! Locks that are taken in an order: nobody waits in a circle.
What a thread has yet to do is given by its effects on the locks. Whatever it takes is ranked below
all it holds.
-/

namespace Foundation.LockOrder

variable {μ τ : Type*}

/-- `call bound` stands for code that gives back all it takes, which is ranked below the bound. -/
inductive Effect (μ : Type*) where
  | lock (m : μ)
  | unlock (m : μ)
  | call (bound : Nat)

/-- A thread that holds some locks takes others in order, and gives back all of them. -/
def Ordered [DecidableEq μ] (rank : μ → Nat) : List μ → List (Effect μ) → Prop
  | held, [] => held = []
  | held, .lock m :: rest => (∀ h ∈ held, rank m < rank h) ∧ Ordered rank (m :: held) rest
  | held, .unlock m :: rest => m ∈ held ∧ Ordered rank (held.erase m) rest
  | held, .call bound :: rest => (∀ h ∈ held, bound ≤ rank h) ∧ Ordered rank held rest

/-- What is locked is ranked below a bound. -/
def Effect.Below (rank : μ → Nat) (bound : Nat) : Effect μ → Prop
  | .lock m => rank m < bound
  | .unlock _ => True
  | .call bound' => bound' ≤ bound

/-- Every thread takes its locks in order, and holds those it owns. -/
def Ranked [DecidableEq μ] (rank : μ → Nat) (owner : μ → Option τ) (todo : τ → List (Effect μ))
    : Prop :=
  ∃ held : τ → List μ,
    (∀ t, Ordered rank (held t) (todo t)) ∧ ∀ m t, owner m = some t → m ∈ held t

variable [DecidableEq μ] {rank : μ → Nat}

-----------------------------------------------------------------------------------------
-- One thread
-----------------------------------------------------------------------------------------

/-- Code runs on top of what is held. -/
theorem Ordered.above {own held : List μ} {block rest : List (Effect μ)} {bound : Nat}
    (ordered : Ordered rank own block) (below : ∀ effect ∈ block, effect.Below rank bound)
    (high : ∀ h ∈ held, bound ≤ rank h) (later : Ordered rank held rest)
    : Ordered rank (own ++ held) (block ++ rest) := by
  induction block generalizing own with
  | nil =>
      obtain rfl : own = [] := ordered
      exact later
  | cons effect block ih =>
      obtain ⟨here, later'⟩ := List.forall_mem_cons.mp below
      cases effect with
      | lock m =>
          refine ⟨fun h member => ?_, ih ordered.2 later'⟩
          rcases List.mem_append.mp member with mine | before
          · exact ordered.1 h mine
          · exact Nat.lt_of_lt_of_le here (high h before)
      | unlock m =>
          refine ⟨List.mem_append_left _ ordered.1, ?_⟩
          rw [List.erase_append_left _ ordered.1]
          exact ih ordered.2 later'
      | call bound' =>
          refine ⟨fun h member => ?_, ih ordered.2 later'⟩
          rcases List.mem_append.mp member with mine | before
          · exact ordered.1 h mine
          · exact Nat.le_trans here (high h before)

/-- Code is run where it was announced. -/
theorem Ordered.run {held : List μ} {block rest : List (Effect μ)} {bound : Nat}
    (ordered : Ordered rank held (.call bound :: rest)) (block_ordered : Ordered rank [] block)
    (below : ∀ effect ∈ block, effect.Below rank bound)
    : Ordered rank held (block ++ rest) :=
  block_ordered.above below ordered.1 ordered.2

/-- One piece of code after another. -/
theorem Ordered.append {held : List μ} {first second : List (Effect μ)}
    (ordered : Ordered rank held first) (ordered' : Ordered rank [] second)
    : Ordered rank held (first ++ second) := by
  induction first generalizing held with
  | nil =>
      obtain rfl : held = [] := ordered
      exact ordered'
  | cons effect first ih =>
      cases effect with
      | lock m | unlock m | call bound => exact ⟨ordered.1, ih ordered.2⟩

-----------------------------------------------------------------------------------------
-- All threads
-----------------------------------------------------------------------------------------

variable {owner : μ → Option τ} {todo : τ → List (Effect μ)} {t u : τ}

/-- A lock has no owner any more. -/
theorem Ranked.free (ranked : Ranked rank owner todo) (m : μ)
    : Ranked rank (Function.update owner m none) todo := by
  obtain ⟨held, ordered, holds⟩ := ranked
  refine ⟨held, ordered, fun m' t owned => ?_⟩
  rcases eq_or_ne m' m with rfl | apart
  · rw [Function.update_self] at owned
    cases owned
  · rw [Function.update_of_ne apart] at owned
    exact holds m' t owned

/-- The owner of a lock has something to do, under locks that lie above all it takes. -/
theorem Ranked.holder (ranked : Ranked rank owner todo) {m : μ} (owned : owner m = some t)
    : ∃ held, m ∈ held ∧ Ordered rank held (todo t) := by
  obtain ⟨held, ordered, holds⟩ := ranked
  exact ⟨held t, holds m t owned, ordered t⟩

section

variable [DecidableEq τ]

/-- A thread has something else to do. -/
theorem Ranked.goto (ranked : Ranked rank owner todo) {effects : List (Effect μ)}
    (kept : ∀ held, Ordered rank held (todo t) → Ordered rank held effects)
    : Ranked rank owner (Function.update todo t effects) := by
  obtain ⟨held, ordered, holds⟩ := ranked
  refine ⟨held, fun t' => ?_, holds⟩
  rcases eq_or_ne t' t with rfl | other
  · rw [Function.update_self]
    exact kept _ (ordered t')
  · rw [Function.update_of_ne other]
    exact ordered t'

theorem Ranked.lock (ranked : Ranked rank owner todo) {m : μ} {rest : List (Effect μ)}
    (here : todo t = .lock m :: rest)
    : Ranked rank (Function.update owner m (some t)) (Function.update todo t rest) := by
  obtain ⟨held, ordered, holds⟩ := ranked
  refine ⟨Function.update held t (m :: held t), fun t' => ?_, fun m' t' owned => ?_⟩
  · rcases eq_or_ne t' t with rfl | other
    · have before := ordered t'
      rw [here] at before
      rw [Function.update_self, Function.update_self]
      exact before.2
    · rw [Function.update_of_ne other, Function.update_of_ne other]
      exact ordered t'
  · rcases eq_or_ne m' m with rfl | apart
    · rw [Function.update_self] at owned
      obtain rfl := Option.some.inj owned
      rw [Function.update_self]
      exact List.mem_cons_self
    · rw [Function.update_of_ne apart] at owned
      rcases eq_or_ne t' t with rfl | other
      · rw [Function.update_self]
        exact List.mem_cons_of_mem m (holds m' t' owned)
      · rw [Function.update_of_ne other]
        exact holds m' t' owned

theorem Ranked.unlock (ranked : Ranked rank owner todo) {m : μ} {rest : List (Effect μ)}
    (here : todo t = .unlock m :: rest)
    : Ranked rank (Function.update owner m none) (Function.update todo t rest) := by
  obtain ⟨held, ordered, holds⟩ := ranked
  refine ⟨Function.update held t ((held t).erase m), fun t' => ?_, fun m' t' owned => ?_⟩
  · rcases eq_or_ne t' t with rfl | other
    · have before := ordered t'
      rw [here] at before
      rw [Function.update_self, Function.update_self]
      exact before.2
    · rw [Function.update_of_ne other, Function.update_of_ne other]
      exact ordered t'
  · rcases eq_or_ne m' m with rfl | apart
    · rw [Function.update_self] at owned
      cases owned
    · rw [Function.update_of_ne apart] at owned
      rcases eq_or_ne t' t with rfl | other
      · rw [Function.update_self]
        exact (List.mem_erase_of_ne apart).mpr (holds m' t' owned)
      · rw [Function.update_of_ne other]
        exact holds m' t' owned

end

-----------------------------------------------------------------------------------------
-- Waiting
-----------------------------------------------------------------------------------------

variable {waits : τ → μ → Prop}

end Foundation.LockOrder
