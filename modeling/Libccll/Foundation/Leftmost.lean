import Mathlib.Order.Lattice

/-! The first of the least values in a row, found by one pass that keeps a running minimum. -/

namespace Foundation.Leftmost

variable {α : Type*} [LinearOrder α] {f : Nat → α} {bound : α} {n i : Nat} {picked : Option Nat}

/-- Of the first `n` values, the one at `i` is least, and none in front of it is as small. -/
structure FirstMin (f : Nat → α) (n i : Nat) : Prop where
  below : i < n
  least : ∀ j < n, f i ≤ f j
  first : ∀ j < i, f i < f j

/-- What a pass has picked of the first `n` values: only one below the bound. -/
def Picks (f : Nat → α) (bound : α) (n : Nat) : Option Nat → Prop
  | none => ∀ j < n, bound ≤ f j
  | some i => FirstMin f n i ∧ f i < bound

/-- The least value of a pass so far, which starts with the bound. -/
def smallest (f : Nat → α) (bound : α) (picked : Option Nat) : α := picked.elim bound f

theorem picks_zero : Picks f bound 0 none := fun _ below => absurd below (Nat.not_lt_zero _)

/-- The least value so far is a bound for all values seen. -/
theorem Picks.le (picks : Picks f bound n picked) : ∀ j < n, smallest f bound picked ≤ f j := by
  cases picked with
  | none => exact picks
  | some i => exact picks.1.least

theorem Picks.le_bound (picks : Picks f bound n picked) : smallest f bound picked ≤ bound := by
  cases picked with
  | none => exact le_refl bound
  | some i => exact le_of_lt picks.2

/-- A value that is smaller than all in front of it is picked. -/
theorem Picks.take (picks : Picks f bound n picked) (smaller : f n < smallest f bound picked)
    : Picks f bound (n + 1) (some n) := by
  have before : ∀ j < n, f n < f j := fun j below => lt_of_lt_of_le smaller (picks.le j below)
  refine ⟨⟨Nat.lt_succ_self n, fun j below => ?_, before⟩, lt_of_lt_of_le smaller picks.le_bound⟩
  rcases Nat.lt_or_eq_of_le (Nat.le_of_lt_succ below) with earlier | rfl
  · exact le_of_lt (before j earlier)
  · exact le_refl _

/-- Any other value is passed. -/
theorem Picks.pass (picks : Picks f bound n picked) (larger : smallest f bound picked ≤ f n)
    : Picks f bound (n + 1) picked := by
  have all : ∀ j < n + 1, smallest f bound picked ≤ f j := fun j below => by
    rcases Nat.lt_or_eq_of_le (Nat.le_of_lt_succ below) with earlier | rfl
    · exact picks.le j earlier
    · exact larger
  cases picked with
  | none => exact all
  | some i =>
      exact ⟨⟨Nat.lt_succ_of_lt picks.1.below, all, picks.1.first⟩, picks.2⟩

/-- A pass may stop at a value below which there is none. -/
theorem Picks.stop (picks : Picks f bound n (some i)) {m : Nat} (inside : n ≤ m)
    (bottom : ∀ j < m, f i ≤ f j)
    : Picks f bound m (some i) :=
  ⟨⟨Nat.lt_of_lt_of_le picks.1.below inside, bottom, picks.1.first⟩, picks.2⟩

end Foundation.Leftmost
