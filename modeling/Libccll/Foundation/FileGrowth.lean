import Libccll.Foundation.FileTree

/-! Trees that grow from the same one, by directories only. -/

namespace Foundation.FileTree

variable {ν : Type*}

/-- A tree in which directories were made, and nothing else has changed. -/
structure Grown (denied : List ν → Bool) (first tree : Files ν) : Prop where
  kept : ∀ p e, first.entry p = some e → tree.entry p = some e
  new : ∀ p, first.entry p = none → tree.entry p ≠ none → denied p = false ∧ tree.isDir p = true

/-- Whatever is in one tree is in the other. -/
def Files.Within (small large : Files ν) : Prop :=
  ∀ p, small.entry p ≠ none → large.entry p ≠ none

variable {first tree tree' small large : Files ν} {p base : List ν} {comps : List (Component ν)}
variable {denied : List ν → Bool}

theorem Grown.refl (denied : List ν → Bool) (first : Files ν) : Grown denied first first where
  kept _ _ listed := listed
  new _ absent found := absurd absent found

theorem Grown.within (grown : Grown denied first tree) : first.Within tree := by
  intro p found
  obtain ⟨e, listed⟩ := Option.ne_none_iff_exists'.mp found
  rw [grown.kept p e listed]
  exact Option.some_ne_none e

theorem Grown.isDir (grown : Grown denied first tree) (dir : first.isDir p = true)
    : tree.isDir p = true := by
  obtain ⟨mode, listed⟩ := Files.isDir_iff.mp dir
  exact Files.isDir_iff.mpr ⟨mode, grown.kept p _ listed⟩

theorem Grown.trans (grown : Grown denied first tree) (grown' : Grown denied tree tree')
    : Grown denied first tree' where
  kept p e listed := grown'.kept p e (grown.kept p e listed)
  new p absent found := by
    by_cases before : tree.entry p = none
    · exact grown'.new p before found
    · obtain ⟨allowed, dir⟩ := grown.new p absent before
      exact ⟨allowed, grown'.isDir dir⟩

/-- No files come along. -/
theorem Grown.isFile_iff (grown : Grown denied first tree) : tree.IsFile p ↔ first.IsFile p := by
  constructor
  · rintro ⟨contents, listed⟩
    cases before : first.entry p with
    | none =>
        have dir := (grown.new p before (by rw [listed]; exact Option.some_ne_none _)).2
        rw [Files.IsFile.not_dir ⟨contents, listed⟩] at dir
        cases dir
    | some e =>
        have same := (grown.kept p e before).symm.trans listed
        exact ⟨contents, before.trans same⟩
  · rintro ⟨contents, listed⟩
    exact ⟨contents, grown.kept p _ listed⟩

/-- What stood in the way still does, and nothing else. -/
theorem Grown.refused_iff (grown : Grown denied first tree)
    : Refused denied base tree comps ↔ Refused denied base first comps := by
  have absent (p : List ν) (refused : denied p = true)
      : tree.entry p = none ↔ first.entry p = none := by
    constructor
    · intro absent
      by_contra found
      exact grown.within p found absent
    · intro absent
      by_contra found
      have allowed := (grown.new p absent found).1
      rw [refused] at allowed
      cases allowed
  constructor
  · rintro (⟨r, leads, shorter, file⟩ | ⟨r, leads, none, refused⟩)
    · exact Or.inl ⟨r, leads, shorter, grown.isFile_iff.mp file⟩
    · exact Or.inr ⟨r, leads, (absent _ refused).mp none, refused⟩
  · rintro (⟨r, leads, shorter, file⟩ | ⟨r, leads, none, refused⟩)
    · exact Or.inl ⟨r, leads, shorter, grown.isFile_iff.mpr file⟩
    · exact Or.inr ⟨r, leads, (absent _ refused).mpr none, refused⟩

/-- A directory of one tree is a directory of another one that has all its entries. -/
theorem Grown.isDir_within (grown : Grown denied first small) (grown' : Grown denied first large)
    (within : small.Within large) (dir : small.isDir p = true)
    : large.isDir p = true := by
  have found := within p (Files.entry_of_isDir dir)
  by_cases before : first.entry p = none
  · exact (grown'.new p before found).2
  · cases first_dir : first.isDir p with
    | true => exact grown'.isDir first_dir
    | false =>
        have file := grown.isFile_iff.mpr (Files.isFile_of_entry before first_dir)
        rw [file.not_dir] at dir
        cases dir

/-- The directories along a path are made in a larger tree as well. -/
theorem Made.within (made : Made denied base small small comps) (grown : Grown denied first small)
    (grown' : Grown denied first large) (within : small.Within large)
    : Made denied base large large comps where
  reached r leads := within _ (made.reached r leads)
  passed r leads shorter := grown.isDir_within grown' within (made.passed r leads shorter)
  kept _ _ listed := listed
  new _ absent found := absurd absent found

theorem Made.grown (made : Made denied base first tree comps) : Grown denied first tree where
  kept := made.kept
  new p absent found := by
    obtain ⟨allowed, dir, _⟩ := made.new p absent found
    exact ⟨allowed, dir⟩

/-- What is made is what is on the path. -/
theorem Made.entry_iff (made : Made denied base first tree comps)
    : tree.entry p ≠ none
      ↔ first.entry p ≠ none ∨ ∃ r, r <+: comps ∧ resolve base r = p := by
  constructor
  · intro found
    by_cases before : first.entry p = none
    · exact Or.inr (made.new p before found).2.2
    · exact Or.inl before
  · rintro (before | ⟨r, leads, rfl⟩)
    · exact made.grown.within p before
    · exact made.reached r leads

/-- After the same path was made in both trees, one still has all entries of the other. -/
theorem Made.within_both {small' large' : Files ν} (made : Made denied base small small' comps)
    (made' : Made denied base large large' comps) (within : small.Within large)
    : small'.Within large' := by
  intro p found
  refine made'.entry_iff.mpr ((made.entry_iff.mp found).imp_left (within p))

end Foundation.FileTree
