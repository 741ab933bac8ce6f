import Mathlib.Data.Option.Basic

/-! Systems that take one action after another: their runs and invariants. -/

namespace Foundation.Transition

variable {σ α : Type*}

/-- Takes the actions one after another; `none` as soon as one cannot be taken. -/
def run (step : σ → α → Option σ) (s : σ) : List α → Option σ
  | [] => some s
  | a :: actions => (step s a).bind fun t => run step t actions

/-- Only the actions that meet a condition on the state they are taken in. -/
def restrict (allowed : σ → α → Prop) [∀ s a, Decidable (allowed s a)]
    (step : σ → α → Option σ) (s : σ) (a : α) : Option σ :=
  if allowed s a then step s a else none

@[simp] theorem run_cons (step : σ → α → Option σ) (s : σ) (a : α) (actions : List α)
    : run step s (a :: actions) = (step s a).bind fun t => run step t actions :=
  rfl

theorem run_append (step : σ → α → Option σ) (s : σ) (first second : List α)
    : run step s (first ++ second) = (run step s first).bind fun t => run step t second := by
  induction first generalizing s with
  | nil => rfl
  | cons a first ih =>
      rw [List.cons_append, run_cons, run_cons, Option.bind_assoc]
      exact congrArg _ (funext ih)

theorem restrict_eq_some_iff {allowed : σ → α → Prop} [∀ s a, Decidable (allowed s a)]
    {step : σ → α → Option σ} {s t : σ} {a : α}
    : restrict allowed step s a = some t ↔ allowed s a ∧ step s a = some t := by
  simp only [restrict]
  split <;> simp_all

/-- What every action preserves holds after every run. -/
theorem run_invariant {step : σ → α → Option σ} {invariant : σ → Prop}
    (preserved : ∀ {s a t}, invariant s → step s a = some t → invariant t)
    {s t : σ} {actions : List α} (start : invariant s) (ran : run step s actions = some t)
    : invariant t := by
  induction actions generalizing s with
  | nil => exact Option.some.inj ran ▸ start
  | cons a actions ih =>
      obtain ⟨middle, stepped, rest⟩ := Option.bind_eq_some_iff.mp ran
      exact ih (preserved start stepped) rest

/-- A change of the state that commutes with every action commutes with every run. -/
theorem run_commutes {step : σ → α → Option σ} {invariant : σ → Prop} (change : σ → σ)
    (preserved : ∀ {s a t}, invariant s → step s a = some t → invariant t)
    (commutes : ∀ {s} a, invariant s → step (change s) a = (step s a).map change)
    {s : σ} (start : invariant s) (actions : List α)
    : run step (change s) actions = (run step s actions).map change := by
  induction actions generalizing s with
  | nil => rfl
  | cons a actions ih =>
      rw [run_cons, run_cons, commutes a start]
      cases stepped : step s a with
      | none => rfl
      | some t => exact ih (preserved start stepped)

/-- What every action of a kind preserves holds after every run of such actions. -/
theorem run_invariant_of {step : σ → α → Option σ} {invariant : σ → Prop} {kind : α → Prop}
    (preserved : ∀ {s a t}, kind a → invariant s → step s a = some t → invariant t)
    {s t : σ} {actions : List α} (all : ∀ a ∈ actions, kind a) (start : invariant s)
    (ran : run step s actions = some t)
    : invariant t := by
  induction actions generalizing s with
  | nil => exact Option.some.inj ran ▸ start
  | cons a actions ih =>
      obtain ⟨here, later⟩ := List.forall_mem_cons.mp all
      obtain ⟨middle, stepped, rest⟩ := Option.bind_eq_some_iff.mp ran
      exact ih later (preserved here start stepped) rest

/-- A system that follows a function step by step does so over every run. -/
theorem run_simulation {ρ : Type*} {step : σ → α → Option σ} {apply : ρ → α → ρ}
    {follows : σ → ρ → Prop}
    (preserved : ∀ {s r a t}, follows s r → step s a = some t → follows t (apply r a))
    {s t : σ} {r : ρ} {actions : List α} (start : follows s r)
    (ran : run step s actions = some t)
    : follows t (actions.foldl apply r) := by
  induction actions generalizing s r with
  | nil => exact Option.some.inj ran ▸ start
  | cons a actions ih =>
      obtain ⟨middle, stepped, rest⟩ := Option.bind_eq_some_iff.mp ran
      exact ih (preserved start stepped) rest

-----------------------------------------------------------------------------------------
-- One action over and over
-----------------------------------------------------------------------------------------

/-- The second state comes after the first by taking one action some number of times. -/
def Repeats (step : σ → α → Option σ) (a : α) (s t : σ) : Prop :=
  ∃ n, run step s (List.replicate n a) = some t

variable {step : σ → α → Option σ} {a : α} {s t u : σ}

theorem Repeats.refl (s : σ) : Repeats step a s s := ⟨0, rfl⟩

theorem Repeats.head (first : step s a = some t) (later : Repeats step a t u)
    : Repeats step a s u := by
  obtain ⟨n, ran⟩ := later
  refine ⟨n + 1, ?_⟩
  rw [List.replicate_succ, run_cons, first, Option.bind_some, ran]

/-- A state comes after another if it is that one, or comes after the one next to it. -/
theorem Repeats.cases_head (reaches : Repeats step a s u)
    : u = s ∨ ∃ t, step s a = some t ∧ Repeats step a t u := by
  obtain ⟨n, ran⟩ := reaches
  cases n with
  | zero => exact Or.inl (Option.some.inj ran).symm
  | succ n =>
      obtain ⟨t, stepped, rest⟩ := Option.bind_eq_some_iff.mp ran
      exact Or.inr ⟨t, stepped, n, rest⟩

/-- What holds in all states to come holds now, and in all that come after the next one. -/
theorem Repeats.forall_iff {holds : σ → Prop}
    : (∀ u, Repeats step a s u → holds u)
      ↔ holds s ∧ ∀ t, step s a = some t → ∀ u, Repeats step a t u → holds u := by
  constructor
  · intro all
    exact ⟨all s (Repeats.refl s), fun t first u later => all u (Repeats.head first later)⟩
  · rintro ⟨now, next⟩ u reaches
    rcases reaches.cases_head with rfl | ⟨t, first, later⟩
    · exact now
    · exact next t first u later

theorem Repeats.trans (first : Repeats step a s t) (later : Repeats step a t u)
    : Repeats step a s u := by
  obtain ⟨n, ran⟩ := first
  obtain ⟨m, ran'⟩ := later
  refine ⟨n + m, ?_⟩
  rw [← List.replicate_append_replicate, run_append, ran, Option.bind_some, ran']

/-- There is one state at most in which the action cannot be taken any more. -/
theorem Repeats.stuck_unique (reaches : Repeats step a s t) (stuck : step t a = none)
    (reaches' : Repeats step a s u) (stuck' : step u a = none)
    : t = u := by
  obtain ⟨n, ran⟩ := reaches
  obtain ⟨m, ran'⟩ := reaches'
  induction n generalizing s m with
  | zero =>
      obtain rfl := Option.some.inj ran
      cases m with
      | zero => exact Option.some.inj ran'
      | succ m =>
          rw [List.replicate_succ, run_cons, stuck] at ran'
          cases ran'
  | succ n ih =>
      obtain ⟨middle, stepped, rest⟩ := Option.bind_eq_some_iff.mp ran
      cases m with
      | zero =>
          obtain rfl := Option.some.inj ran'
          cases stuck'.symm.trans stepped
      | succ m =>
          obtain ⟨middle', stepped', rest'⟩ := Option.bind_eq_some_iff.mp ran'
          obtain rfl := Option.some.inj (stepped.symm.trans stepped')
          exact ih rest m rest'

end Foundation.Transition
