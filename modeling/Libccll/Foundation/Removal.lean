import Mathlib.Data.List.Nodup

/-! Lists of things that were added and not removed since, next to the history of both. -/

namespace Foundation.Removal

variable {α β : Type*} [DecidableEq α]

/-- Erasing an element erases its image, when images are all different. -/
theorem map_erase_of_nodup [DecidableEq β] {f : α → β} {l : List α} (distinct : (l.map f).Nodup)
    {x : α} (member : x ∈ l)
    : (l.erase x).map f = (l.map f).erase (f x) := by
  obtain ⟨front, back, _, rfl, erased⟩ := List.exists_erase_eq member
  have notFront : f x ∉ front.map f := by
    rw [List.map_append, List.map_cons, List.nodup_append] at distinct
    exact fun inside => distinct.2.2 _ inside _ List.mem_cons_self rfl
  rw [erased, List.map_append, List.map_append, List.map_cons, List.erase_append_right _ notFront,
    List.erase_cons_head]

/-- Erasing an element erases everything under its key, when keys are all different. -/
theorem map_erase_eq_filter_key {κ : Type*} [DecidableEq κ] (key : β → κ) {f : α → β} {l : List α}
    (distinct : (l.map fun a => key (f a)).Nodup) {x : α} (member : x ∈ l)
    : (l.erase x).map f = (l.map f).filter fun entry => key entry ≠ key (f x) := by
  rw [(distinct.of_map _).erase_eq_filter, List.filter_map]
  refine congrArg (List.map f) (List.filter_congr fun a inside => ?_)
  rw [Bool.eq_iff_iff, bne_iff_ne, Function.comp_apply, decide_eq_true_eq]
  exact not_congr ⟨fun same => congrArg (fun a => key (f a)) same,
    List.inj_on_of_nodup_map distinct inside member⟩

/-- What is left when one more is removed from a list that follows its history. -/
theorem map_erase_eq_filter (key : β → Nat) {f : α → β} {l : List α} {added : List β}
    {removed : List Nat} (left : l.map f = added.filter fun entry => key entry ∉ removed)
    (distinct : (l.map fun a => key (f a)).Nodup) {x : α} (member : x ∈ l)
    : (l.erase x).map f
      = added.filter fun entry => key entry ∉ removed ++ [key (f x)] := by
  rw [map_erase_eq_filter_key key distinct member, left, List.filter_filter]
  refine List.filter_congr fun entry _ => ?_
  rw [Bool.eq_iff_iff, Bool.and_eq_true, decide_eq_true_eq, decide_eq_true_eq, decide_eq_true_eq,
    List.mem_append, List.mem_singleton, not_or]
  exact and_comm

end Foundation.Removal
