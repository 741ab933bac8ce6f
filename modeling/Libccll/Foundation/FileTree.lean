import Mathlib.Data.List.Induction

/-! Trees of directories and files without links, and `mkdir` on them. -/

namespace Foundation.FileTree

inductive Entry where
  | file (contents : List UInt8)
  | dir (mode : UInt32)

/-- The entries by their paths from the root. -/
structure Files (ν : Type*) where
  entry : List ν → Option Entry
  root : ∃ mode, entry [] = some (.dir mode)
  inside : ∀ p n, entry (p ++ [n]) ≠ none → ∃ mode, entry p = some (.dir mode)

/-- `.`, `..` and names -/
inductive Component (ν : Type*) where
  | this
  | parent
  | name (n : ν)

/-- What `mkdir` fails with. -/
inductive Errno where
  | exist
  | noEnt
  | notDir
  | other
  deriving DecidableEq

variable {ν : Type*}

def Files.isDir (tree : Files ν) (p : List ν) : Bool :=
  match tree.entry p with
  | some (.dir _) => true
  | _ => false

def Files.IsFile (tree : Files ν) (p : List ν) : Prop :=
  ∃ contents, tree.entry p = some (.file contents)

def follow (p : List ν) : Component ν → List ν
  | .this => p
  | .parent => p.dropLast
  | .name n => p ++ [n]

/-- Where a path leads to. -/
def resolve (base : List ν) (comps : List (Component ν)) : List ν := comps.foldl follow base

/-- The lookup of a path. -/
def walk (tree : Files ν) : List ν → List (Component ν) → Except Errno (List ν)
  | p, [] => .ok p
  | p, c :: comps =>
      if tree.isDir p = true then
        if (tree.entry (follow p c)).isNone = true then
          .error .noEnt
        else
          walk tree (follow p c) comps
      else
        .error .notDir

-----------------------------------------------------------------------------------------
-- Directories
-----------------------------------------------------------------------------------------

theorem Files.isDir_iff {tree : Files ν} {p : List ν}
    : tree.isDir p = true ↔ ∃ mode, tree.entry p = some (.dir mode) := by
  rw [Files.isDir]
  split
  · rename_i mode found
    exact iff_of_true rfl ⟨mode, found⟩
  · rename_i other
    exact iff_of_false Bool.false_ne_true fun ⟨mode, found⟩ => other mode found

variable {tree tree' first : Files ν} {p q base : List ν} {comps r : List (Component ν)}
variable {c : Component ν} {n : ν} {denied : List ν → Bool} {mode : UInt32}

theorem Files.entry_of_isDir (dir : tree.isDir p = true) : tree.entry p ≠ none := by
  obtain ⟨mode, found⟩ := Files.isDir_iff.mp dir
  rw [found]
  exact Option.some_ne_none _

theorem Files.isDir_nil : tree.isDir [] = true := Files.isDir_iff.mpr tree.root

/-- Whatever has an entry in it is a directory. -/
theorem Files.isDir_of_entry (found : tree.entry (p ++ n :: q) ≠ none) : tree.isDir p = true := by
  induction q using List.reverseRecOn with
  | nil => exact Files.isDir_iff.mpr (tree.inside p n found)
  | append_singleton q m ih =>
      rw [← List.cons_append, ← List.append_assoc] at found
      exact ih (Files.entry_of_isDir (Files.isDir_iff.mpr (tree.inside _ m found)))

/-- What leads to a directory are directories. -/
theorem Files.isDir_of_append (dir : tree.isDir (p ++ q) = true) : tree.isDir p = true := by
  cases q with
  | nil => rwa [List.append_nil] at dir
  | cons n q => exact Files.isDir_of_entry (Files.entry_of_isDir dir)

/-- An entry is a file or a directory. -/
theorem Files.isFile_of_entry (found : tree.entry p ≠ none) (other : tree.isDir p = false)
    : tree.IsFile p := by
  cases entry : tree.entry p with
  | none => exact absurd entry found
  | some e =>
      cases e with
      | file contents => exact ⟨contents, entry⟩
      | dir mode =>
          rw [Files.isDir_iff.mpr ⟨mode, entry⟩] at other
          cases other

theorem Files.IsFile.not_dir (file : tree.IsFile p) : tree.isDir p = false := by
  obtain ⟨contents, found⟩ := file
  rw [Files.isDir, found]

theorem resolve_append (base : List ν) (comps rest : List (Component ν))
    : resolve base (comps ++ rest) = resolve (resolve base comps) rest :=
  List.foldl_append

theorem resolve_concat : resolve base (comps ++ [c]) = follow (resolve base comps) c :=
  resolve_append base comps [c]

/-- A path of names leads further down. -/
theorem resolve_names (names : List ν) : resolve base (names.map .name) = base ++ names := by
  induction names generalizing base with
  | nil => exact (List.append_nil base).symm
  | cons n names ih =>
      rw [List.map_cons, resolve, List.foldl_cons]
      exact ih.trans (List.append_assoc base [n] names)

theorem length_resolve_le : (resolve base comps).length ≤ base.length + comps.length := by
  induction comps generalizing base with
  | nil => exact Nat.le_refl _
  | cons c comps ih =>
      have step : (follow base c).length ≤ base.length + 1 := by
        cases c <;> simp [follow]
        omega
      have rest : (resolve (follow base c) comps).length
          ≤ (follow base c).length + comps.length := ih
      rw [List.length_cons]
      change (resolve (follow base c) comps).length ≤ _
      omega

/-- The lookup succeeds when it passes directories only. -/
theorem walk_eq (reached : ∀ r, r <+: comps → tree.entry (resolve base r) ≠ none)
    (passed : ∀ r, r <+: comps → r ≠ comps → tree.isDir (resolve base r) = true)
    : walk tree base comps = .ok (resolve base comps) := by
  induction comps generalizing base with
  | nil => rfl
  | cons c comps ih =>
      have dir : tree.isDir base = true := passed [] List.nil_prefix nofun
      have found : (tree.entry (follow base c)).isNone = false := by
        have here := reached [c] ⟨comps, rfl⟩
        exact Bool.eq_false_iff.mpr fun none => here (Option.isNone_iff_eq_none.mp none)
      rw [walk, if_pos dir, found, if_neg Bool.false_ne_true]
      refine ih (fun r leads => ?_) fun r leads shorter => ?_
      · exact reached (c :: r) (List.cons_prefix_cons.mpr ⟨rfl, leads⟩)
      · exact passed (c :: r) (List.cons_prefix_cons.mpr ⟨rfl, leads⟩)
          fun same => shorter (List.cons.inj same).2

/-- Where a path leads to from a directory, if not to a name in it. -/
theorem isDir_follow (dir : tree.isDir p = true) (unnamed : ∀ n, c ≠ .name n)
    : tree.isDir (follow p c) = true := by
  cases c with
  | this => exact dir
  | name n => exact absurd rfl (unnamed n)
  | parent =>
      induction p using List.reverseRecOn with
      | nil => exact Files.isDir_nil
      | append_singleton p n =>
          rw [follow, List.dropLast_concat]
          exact Files.isDir_of_entry (q := []) (Files.entry_of_isDir dir)

-----------------------------------------------------------------------------------------
-- Directories made
-----------------------------------------------------------------------------------------

/-- A tree in which the directories along a path were made. -/
structure Made (denied : List ν → Bool) (base : List ν) (first tree : Files ν)
    (comps : List (Component ν)) : Prop where
  reached : ∀ r, r <+: comps → tree.entry (resolve base r) ≠ none
  passed : ∀ r, r <+: comps → r ≠ comps → tree.isDir (resolve base r) = true
  kept : ∀ p e, first.entry p = some e → tree.entry p = some e
  new : ∀ p, first.entry p = none → tree.entry p ≠ none →
    denied p = false ∧ tree.isDir p = true ∧ ∃ r, r <+: comps ∧ resolve base r = p

/-- There is a file in the way, or a directory to be made that is denied. -/
def Refused (denied : List ν → Bool) (base : List ν) (first : Files ν)
    (comps : List (Component ν)) : Prop :=
  (∃ r, r <+: comps ∧ r ≠ comps ∧ first.IsFile (resolve base r))
  ∨ ∃ r, r <+: comps ∧ first.entry (resolve base r) = none ∧ denied (resolve base r) = true

theorem Made.start (dir : first.isDir base = true) : Made denied base first first [] where
  reached r leads := by
    rw [List.prefix_nil.mp leads]
    exact Files.entry_of_isDir dir
  passed r leads shorter := absurd (List.prefix_nil.mp leads) shorter
  kept _ _ listed := listed
  new _ absent found := absurd absent found

theorem Made.isDir_kept (made : Made denied base first tree comps) (dir : first.isDir p = true)
    : tree.isDir p = true := by
  obtain ⟨mode, listed⟩ := Files.isDir_iff.mp dir
  exact Files.isDir_iff.mpr ⟨mode, made.kept p _ listed⟩

/-- What is no directory was a file before. -/
theorem Made.file_kept (made : Made denied base first tree comps) (found : tree.entry p ≠ none)
    (other : tree.isDir p = false)
    : first.IsFile p := by
  cases before : first.entry p with
  | none =>
      have dir := (made.new p before found).2.1
      rw [other] at dir
      cases dir
  | some e =>
      have file := Files.isFile_of_entry found other
      rw [Files.IsFile, made.kept p e before, ← before] at file
      exact file

theorem Made.isDir_before (made : Made denied base first tree comps)
    (before : first.entry p ≠ none) (dir : tree.isDir p = true)
    : first.isDir p = true := by
  cases other : first.isDir p with
  | true => rfl
  | false =>
      obtain ⟨contents, file⟩ := Files.isFile_of_entry before other
      rw [Files.IsFile.not_dir ⟨contents, made.kept p _ file⟩] at dir
      cases dir

/-- The directories along a path are made only when nothing refuses it. -/
theorem Made.not_refused (made : Made denied base first tree comps)
    : ¬Refused denied base first comps := by
  rintro (⟨r, leads, shorter, contents, file⟩ | ⟨r, leads, absent, refused⟩)
  · have dir := made.passed r leads shorter
    rw [Files.IsFile.not_dir ⟨contents, made.kept _ _ file⟩] at dir
    cases dir
  · have allowed := (made.new _ absent (made.reached r leads)).1
    rw [refused] at allowed
    cases allowed

/-- What stands in the way of a path stands in the way of a longer one. -/
theorem Refused.longer (refused : Refused denied base first comps) (leads : comps <+: r)
    : Refused denied base first r := by
  rcases refused with ⟨s, leads', shorter, file⟩ | ⟨s, leads', absent⟩
  · refine Or.inl ⟨s, leads'.trans leads, ?_, file⟩
    rintro rfl
    exact shorter (leads'.eq_of_length_le leads.length_le)
  · exact Or.inr ⟨s, leads'.trans leads, absent⟩

/-- When the path made leads to a directory, whatever is in front of one more component does. -/
theorem Made.passed_concat (made : Made denied base first tree comps)
    (dir : tree.isDir (resolve base comps) = true) (leads : r <+: comps ++ [c])
    (shorter : r ≠ comps ++ [c])
    : tree.isDir (resolve base r) = true := by
  have leads' := (List.prefix_concat_iff.mp leads).resolve_left shorter
  by_cases same : r = comps
  · rw [same]
    exact dir
  · exact made.passed r leads' same

/-- One component further. -/
theorem Made.further (made : Made denied base first tree comps)
    (dir : tree.isDir (resolve base comps) = true)
    (found : tree.entry (resolve base (comps ++ [c])) ≠ none)
    : Made denied base first tree (comps ++ [c]) where
  reached r leads := by
    rcases List.prefix_concat_iff.mp leads with rfl | leads
    · exact found
    · exact made.reached r leads
  passed _ leads shorter := made.passed_concat dir leads shorter
  kept := made.kept
  new p absent present := by
    obtain ⟨allowed, dir, r, leads, same⟩ := made.new p absent present
    exact ⟨allowed, dir, r, leads.trans (List.prefix_append comps [c]), same⟩

variable [DecidableEq ν]

/-- A tree with a new directory. -/
def Files.add (tree : Files ν) (p : List ν) (n : ν) (mode : UInt32) (dir : tree.isDir p = true)
    (absent : tree.entry (p ++ [n]) = none) : Files ν where
  entry q := if q = p ++ [n] then some (.dir mode) else tree.entry q
  root := by
    rw [if_neg (by simp)]
    exact tree.root
  inside q m found := by
    by_cases same : q ++ [m] = p ++ [n]
    · obtain ⟨rfl, -⟩ := List.append_inj' same rfl
      rw [if_neg (by simp)]
      exact Files.isDir_iff.mp dir
    · rw [if_neg same] at found
      obtain ⟨mode', listed⟩ := tree.inside q m found
      refine ⟨mode', ?_⟩
      rw [if_neg, listed]
      rintro rfl
      rw [absent] at listed
      cases listed

/-- `mkdir` in a directory that was looked up. -/
def mkdirIn (tree : Files ν) (denied : List ν → Bool) (mode : UInt32) (p : List ν)
    : Component ν → Except Errno (Files ν)
  | .name n =>
      if dir : tree.isDir p = true then
        if absent : tree.entry (p ++ [n]) = none then
          if denied (p ++ [n]) = true then .error .other else .ok (tree.add p n mode dir absent)
        else
          .error .exist
      else
        .error .notDir
  | _ => if tree.isDir p = true then .error .exist else .error .notDir

/-- `mkdir` of a process to which the modes of directories deny nothing. Some directories cannot be
made for reasons outside of the tree.
-/
def mkdir (tree : Files ν) (denied : List ν → Bool) (mode : UInt32) (base : List ν)
    (comps : List (Component ν)) : Except Errno (Files ν) :=
  match comps.getLast? with
  | none => .error .exist
  | some last =>
      match walk tree base comps.dropLast with
      | .ok p => mkdirIn tree denied mode p last
      | .error err => .error err

-----------------------------------------------------------------------------------------
-- Calls of `mkdir`
-----------------------------------------------------------------------------------------

theorem Files.add_entry {dir : tree.isDir p = true} {absent : tree.entry (p ++ [n]) = none}
    : (tree.add p n mode dir absent).entry q
      = if q = p ++ [n] then some (.dir mode) else tree.entry q :=
  rfl

/-- Behind directories that were made, only the last one matters. -/
theorem Made.mkdir_eq (made : Made denied base first tree comps)
    : mkdir tree denied mode base (comps ++ [c])
      = mkdirIn tree denied mode (resolve base comps) c := by
  rw [mkdir, List.getLast?_concat, List.dropLast_concat]
  simp only [walk_eq made.reached made.passed]

theorem Files.add_kept {dir : tree.isDir p = true} {absent : tree.entry (p ++ [n]) = none}
    {e : Entry} (listed : tree.entry q = some e)
    : (tree.add p n mode dir absent).entry q = some e := by
  rw [Files.add_entry, if_neg, listed]
  rintro rfl
  rw [absent] at listed
  cases listed

theorem Files.add_isDir {dir : tree.isDir p = true} {absent : tree.entry (p ++ [n]) = none}
    (before : tree.isDir q = true)
    : (tree.add p n mode dir absent).isDir q = true := by
  obtain ⟨mode', listed⟩ := Files.isDir_iff.mp before
  exact Files.isDir_iff.mpr ⟨mode', Files.add_kept listed⟩

theorem Made.add (made : Made denied base first tree comps)
    (dir : tree.isDir (resolve base comps) = true)
    (absent : tree.entry (resolve base comps ++ [n]) = none)
    (allowed : denied (resolve base comps ++ [n]) = false)
    : Made denied base first (tree.add (resolve base comps) n mode dir absent)
        (comps ++ [.name n]) where
  reached r leads := by
    rcases List.prefix_concat_iff.mp leads with rfl | leads
    · rw [resolve_concat, follow, Files.add_entry, if_pos rfl]
      exact Option.some_ne_none _
    · obtain ⟨e, listed⟩ := Option.ne_none_iff_exists'.mp (made.reached r leads)
      rw [Files.add_kept listed]
      exact Option.some_ne_none e
  passed _ leads shorter := Files.add_isDir (made.passed_concat dir leads shorter)
  kept p e listed := Files.add_kept (made.kept p e listed)
  new p none found := by
    by_cases same : p = resolve base comps ++ [n]
    · refine ⟨same ▸ allowed, Files.isDir_iff.mpr ⟨mode, ?_⟩, comps ++ [.name n], ?_, ?_⟩
      · rw [Files.add_entry, if_pos same]
      · exact List.prefix_refl _
      · rw [resolve_concat, follow, same]
    · rw [Files.add_entry, if_neg same] at found
      obtain ⟨allowed', dir', r, leads, resolved⟩ := made.new p none found
      exact ⟨allowed', Files.add_isDir dir', r, leads.trans (List.prefix_append comps _), resolved⟩

/-- A call for one component more makes the directory, finds it there, or is refused. -/
theorem Made.mkdir (made : Made denied base first tree comps) (c : Component ν) (mode : UInt32)
    : (∃ tree', FileTree.mkdir tree denied mode base (comps ++ [c]) = .ok tree'
        ∧ Made denied base first tree' (comps ++ [c]))
      ∨ FileTree.mkdir tree denied mode base (comps ++ [c]) = .error .exist
        ∧ Made denied base first tree (comps ++ [c])
      ∨ ∃ err, FileTree.mkdir tree denied mode base (comps ++ [c]) = .error err ∧ err ≠ .exist
        ∧ Refused denied base first (comps ++ [c]) := by
  rw [made.mkdir_eq]
  cases dir : tree.isDir (resolve base comps) with
  | false =>
      have file := made.file_kept (made.reached comps (List.prefix_refl comps)) dir
      refine Or.inr (Or.inr ⟨.notDir, ?_, nofun, Or.inl ⟨comps, ?_, ?_, file⟩⟩)
      · cases c <;> simp [mkdirIn, dir]
      · exact List.prefix_append comps [c]
      · simp
  | true =>
      by_cases unnamed : ∀ n, c ≠ .name n
      · have found := Files.entry_of_isDir (isDir_follow dir unnamed)
        rw [← resolve_concat] at found
        refine Or.inr (Or.inl ⟨?_, made.further dir found⟩)
        cases c with
        | name n => exact absurd rfl (unnamed n)
        | this | parent => exact if_pos dir
      · obtain ⟨n, rfl⟩ : ∃ n, c = .name n := by
          simpa only [not_forall, not_not] using unnamed
        rw [mkdirIn, dif_pos dir]
        by_cases absent : tree.entry (resolve base comps ++ [n]) = none
        · rw [dif_pos absent]
          cases allowed : denied (resolve base comps ++ [n]) with
          | false => exact Or.inl ⟨_, rfl, made.add dir absent allowed⟩
          | true =>
              have before : first.entry (resolve base comps ++ [n]) = none := by
                by_contra present
                obtain ⟨e, listed⟩ := Option.ne_none_iff_exists'.mp present
                rw [made.kept _ e listed] at absent
                cases absent
              refine Or.inr (Or.inr ⟨.other, rfl, nofun, Or.inr ⟨_, List.prefix_refl _, ?_⟩⟩)
              rw [resolve_concat]
              exact ⟨before, allowed⟩
        · rw [dif_neg absent]
          rw [← follow, ← resolve_concat] at absent
          exact Or.inr (Or.inl ⟨rfl, made.further dir absent⟩)

/-- A call for what was made before. -/
theorem Made.again (made : Made denied base first tree comps)
    : FileTree.mkdir tree denied mode base comps = .error .exist := by
  induction comps using List.reverseRecOn with
  | nil => rfl
  | append_singleton comps c _ =>
      have shorter (r : List (Component ν)) (leads : r <+: comps)
          : tree.isDir (resolve base r) = true := by
        refine made.passed r (leads.trans (List.prefix_append comps [c])) ?_
        rintro rfl
        have length := leads.length_le
        rw [List.length_append, List.length_singleton] at length
        omega
      have found := made.reached _ (List.prefix_refl _)
      rw [FileTree.mkdir, List.getLast?_concat, List.dropLast_concat]
      simp only [walk_eq (fun r leads => Files.entry_of_isDir (shorter r leads))
        fun r leads _ => shorter r leads]
      have dir := shorter comps (List.prefix_refl _)
      cases c with
      | name n =>
          rw [resolve_concat, follow] at found
          rw [mkdirIn, dif_pos dir, dif_neg found]
      | this | parent => exact if_pos dir

end Foundation.FileTree
