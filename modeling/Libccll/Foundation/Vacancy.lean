import Mathlib.Data.List.Nodup
import Mathlib.Order.Bounds.Basic

/-! Things listed under numbers of their own, and the search for a number that is not taken. -/

namespace Foundation.Vacancy

/-- The first number from `i` on that is not taken, out of so many. -/
def vacant (taken : Int → Bool) (i : Int) : Nat → Option Int
  | 0 => none
  | left + 1 => if taken i = true then vacant taken (i + 1) left else some i

/-- The search fails when it finds every number taken. -/
theorem vacant_eq_none {taken : Int → Bool} {i : Int} {left : Nat}
    (failed : vacant taken i left = none)
    : ∀ j, i ≤ j → j < i + left → taken j = true := by
  induction left generalizing i with
  | zero => exact fun j _ _ => by omega
  | succ left ih =>
      rw [vacant] at failed
      split at failed
      · rename_i here
        intro j from_ below
        rcases eq_or_ne j i with rfl | later
        · exact here
        · exact ih failed j (by omega) (by omega)
      · cases failed

/-- The search passes only numbers that are taken. -/
theorem vacant_eq_some {taken : Int → Bool} {i found : Int} {left : Nat}
    (search : vacant taken i left = some found)
    : i ≤ found ∧ found < i + left ∧ taken found = false
      ∧ ∀ j, i ≤ j → j < found → taken j = true := by
  induction left generalizing i with
  | zero => cases search
  | succ left ih =>
      rw [vacant] at search
      split at search
      · rename_i here
        obtain ⟨above, below, free, passed⟩ := ih search
        refine ⟨by omega, by omega, free, fun j from_ before => ?_⟩
        rcases eq_or_ne j i with rfl | later
        · exact here
        · exact passed j (by omega) before
      · rename_i free
        obtain rfl := Option.some.inj search
        exact ⟨by omega, by omega, Bool.eq_false_iff.mpr free, fun j _ _ => by omega⟩

/-- Searched from zero, the number found is the least one that is not taken. -/
theorem vacant_least {taken : Int → Bool} {found : Int} {left : Nat}
    (search : vacant taken 0 left = some found)
    : IsLeast {i | 0 ≤ i ∧ taken i = false} found := by
  obtain ⟨above, _, free, passed⟩ := vacant_eq_some search
  refine ⟨⟨above, free⟩, fun i vacant => ?_⟩
  by_contra before
  exact nomatch (passed i vacant.1 (by omega)).symm.trans vacant.2

variable {κ β : Type*} {entries : List (κ × β)}

/-- Another entry, under a number that is not taken. -/
theorem nodup_append (distinct : (entries.map Prod.fst).Nodup) {entry : κ × β}
    (free : entry.1 ∉ entries.map Prod.fst)
    : ((entries ++ [entry]).map Prod.fst).Nodup := by
  rw [List.map_append, List.nodup_append]
  refine ⟨distinct, List.nodup_singleton _, fun key member key' new same => ?_⟩
  obtain rfl := List.mem_singleton.mp new
  exact free (same ▸ member)

variable [DecidableEq κ]

theorem nodup_filter (distinct : (entries.map Prod.fst).Nodup) {key : κ}
    : ((entries.filter fun entry => entry.1 ≠ key).map Prod.fst).Nodup :=
  distinct.sublist (List.filter_sublist.map _)

/-- Nothing is removed under a number that is not taken. -/
theorem filter_eq_self {key : κ} (free : key ∉ entries.map Prod.fst)
    : entries.filter (fun entry => entry.1 ≠ key) = entries := by
  refine List.filter_eq_self.mpr fun entry member => decide_eq_true fun same => ?_
  exact free (same ▸ List.mem_map_of_mem member)

end Foundation.Vacancy
