import Mathlib.Data.Fintype.Card
import Mathlib.Algebra.Order.BigOperators.Group.Finset
import Mathlib.Logic.Function.Iterate

/-! Free runs in a finite space walked by an injective step.
The occupied elements form segments; between two segments there is a gap. When every gap
is short, the free elements are few, because each lies shortly before a segment start.
-/

namespace Foundation.Orbit

variable {α : Type}

/-- Every occupied element reached from a free one is listed as a segment start. -/
def Starts (step : α → α) (used starts : Finset α) : Prop :=
  ∀ x, x ∉ used → step x ∈ used → step x ∈ starts

/-- A free element that meets an occupied one within `w` steps lies at most `w` steps before
a segment start, namely before the first occupied element it meets.
-/
theorem Starts.near {step : α → α} {used starts : Finset α} (segments : Starts step used starts)
    {x : α} (free : x ∉ used) (w : Nat) (blocked : ∃ t ≤ w, step^[t] x ∈ used)
    : ∃ d < w, step^[d + 1] x ∈ starts := by
  induction w generalizing x with
  | zero =>
      obtain ⟨t, ht, met⟩ := blocked
      obtain rfl : t = 0 := Nat.le_zero.mp ht
      exact absurd met free
  | succ w ih =>
      by_cases occupied : step x ∈ used
      · exact ⟨0, Nat.succ_pos w, segments x free occupied⟩
      · obtain ⟨t, ht, met⟩ := blocked
        have later : ∃ t ≤ w, step^[t] (step x) ∈ used := by
          cases t with
          | zero => exact absurd met free
          | succ t => exact ⟨t, Nat.le_of_succ_le_succ ht, met⟩
        obtain ⟨d, hd, start⟩ := ih occupied later
        exact ⟨d + 1, Nat.succ_lt_succ hd, start⟩

variable [Fintype α] [DecidableEq α]

/-- The free elements within reach of the starts: at most `w` before each. -/
theorem card_before_starts_le {step : α → α} (injective : Function.Injective step)
    (starts : Finset α) (w : Nat)
    : ((Finset.univ : Finset α).filter (fun x => ∃ d < w, step^[d + 1] x ∈ starts)).card
      ≤ starts.card * w := by
  have covered : (Finset.univ : Finset α).filter (fun x => ∃ d < w, step^[d + 1] x ∈ starts)
      ⊆ (starts ×ˢ Finset.range w).biUnion
          (fun pair => Finset.univ.filter (fun x => step^[pair.2 + 1] x = pair.1)) := by
    intro x member
    obtain ⟨d, hd, start⟩ := (Finset.mem_filter.mp member).2
    refine Finset.mem_biUnion.mpr ⟨(step^[d + 1] x, d), ?_, ?_⟩
    · exact Finset.mem_product.mpr ⟨start, Finset.mem_range.mpr hd⟩
    · exact Finset.mem_filter.mpr ⟨Finset.mem_univ x, rfl⟩
  have single (pair : α × Nat)
      : ((Finset.univ : Finset α).filter (fun x => step^[pair.2 + 1] x = pair.1)).card ≤ 1 := by
    apply Finset.card_le_one.mpr
    intro x hx y hy
    have toPair := (Finset.mem_filter.mp hx).2
    have toPair' := (Finset.mem_filter.mp hy).2
    exact injective.iterate (pair.2 + 1) (toPair.trans toPair'.symm)
  have total := Finset.card_biUnion_le_card_mul (starts ×ˢ Finset.range w)
    (fun pair => Finset.univ.filter (fun x => step^[pair.2 + 1] x = pair.1)) 1
    (fun pair _ => single pair)
  calc ((Finset.univ : Finset α).filter (fun x => ∃ d < w, step^[d + 1] x ∈ starts)).card
      ≤ _ := Finset.card_le_card covered
    _ ≤ (starts ×ˢ Finset.range w).card * 1 := total
    _ = starts.card * w := by rw [Nat.mul_one, Finset.card_product, Finset.card_range]

/-- Few occupied elements in few segments leave a run of `w + 1` free ones. -/
theorem exists_free_run {step : α → α} (injective : Function.Injective step)
    {used starts : Finset α} (segments : Starts step used starts) (w : Nat)
    (room : used.card + starts.card * w < Fintype.card α)
    : ∃ x, ∀ t ≤ w, step^[t] x ∉ used := by
  by_contra none
  have blocked : ∀ x, ∃ t ≤ w, step^[t] x ∈ used := by
    intro x
    by_contra clear
    exact none ⟨x, fun t ht met => clear ⟨t, ht, met⟩⟩
  have near : usedᶜ ⊆ (Finset.univ : Finset α).filter
      (fun x => ∃ d < w, step^[d + 1] x ∈ starts) := by
    intro x member
    exact Finset.mem_filter.mpr
      ⟨Finset.mem_univ x, segments.near (Finset.mem_compl.mp member) w (blocked x)⟩
  have free := (Finset.card_le_card near).trans (card_before_starts_le injective starts w)
  rw [Finset.card_compl] at free
  omega

end Foundation.Orbit
