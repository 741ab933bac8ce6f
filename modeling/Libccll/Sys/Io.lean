import Libccll.Comm.Def
import Libccll.Foundation.CString
import Libccll.Foundation.FileTree

/-! `sys/io.c`: the directories of a path. An access outside of a buffer is `none`. -/

namespace Libccll.Io

open Foundation CString FileTree

abbrev Name := List UInt8

/-- A process, with the files it sees, its working directory, and the directories it would not be
allowed to make or have no room for.
-/
structure Process where
  tree : Files Name
  cwd : List Name
  standing : tree.isDir cwd = true
  umask : UInt32
  denied : List Name → Bool

def component (s : Name) : Component Name :=
  if s = [chr '.'] then .this else if s = [chr '.', chr '.'] then .parent else .name s

/-- What is between the slashes of a path, however many of them stand together. -/
def components (s : List UInt8) : List Name := (s.splitOn (chr '/')).filter fun c => decide (c ≠ [])

def parts (s : List UInt8) : List (Component Name) := (components s).map component

/-- Where the lookup of a path starts. -/
def Process.base (proc : Process) (s : List UInt8) : List Name :=
  if s.head? = some (chr '/') then [] else proc.cwd

/-- The system call `mkdir`. -/
def mkdir (proc : Process) (tree : Files Name) (s : List UInt8) (mode : UInt32)
    : Except Errno (Files Name) :=
  if s = [] then
    .error .noEnt
  else
    FileTree.mkdir tree proc.denied (mode &&& ~~~proc.umask &&& 0o1777) (proc.base s) (parts s)

/-- `if(mkdir(tmp, mode) != 0) if(errno != EEXIST)`: `none` when it is so. -/
def make (proc : Process) (tree : Files Name) (s : List UInt8) (mode : UInt32)
    : Option (Files Name) :=
  match mkdir proc tree s mode with
  | .ok tree => some tree
  | .error .exist => some tree
  | .error _ => none

/-- The loop, for so many turns at most: whether it ends without a failure, `tmp` and the files. -/
def cutFrom (proc : Process) : Nat → Buffer → Nat → Files Name → Option (Bool × Buffer × Files Name)
  | 0, _, _, _ => none
  | turns + 1, tmp, p, tree => do
      let b ← tmp[p]?
      if b = 0 then
        return (true, tmp, tree)
      else if b = chr '/' then
        let tmp ← put tmp p 0
        match make proc tree (← str tmp 0) 0o755 with
        | none => return (false, tmp, tree)
        | some tree => cutFrom proc turns (← put tmp p (chr '/')) (p + 1) tree
      else
        cutFrom proc turns tmp (p + 1) tree

/-- The second half of `cl_mkdir_p`: what it returns, and the files. -/
def makePath (proc : Process) (tmp : Buffer) (mode : UInt32) : Option (Ret × Files Name) := do
  let (done, tmp, tree) ← cutFrom proc tmp.length tmp 1 proc.tree
  if done = true then
    match make proc tree (← str tmp 0) mode with
    | none => return (.fail, tree)
    | some tree => return (.succ, tree)
  else
    return (.fail, tree)

/-- `cl_mkdir_p`, with what is in `tmp` before the call. -/
def clMkdirP (proc : Process) (path : Buffer) (mode : UInt32) (tmp : Buffer)
    : Option (Ret × Files Name) := do
  -- `snprintf` keeps 255 bytes
  let tmp ← fill tmp ((← str path 0).take 255 ++ [0])
  let len ← strlen tmp 0
  if len = 0 then
    none
  else if (← tmp[len - 1]?) = chr '/' then
    makePath proc (← put tmp (len - 1) 0) mode
  else
    makePath proc tmp mode

-----------------------------------------------------------------------------------------
-- The components of a path
-----------------------------------------------------------------------------------------

variable {s t front cur : List UInt8}

theorem components_nil : components [] = [] := rfl

theorem components_slash : components (s ++ chr '/' :: t) = components s ++ components t := by
  rw [components, List.splitOn_append_cons_self, List.filter_append]
  rfl

theorem components_of_absent (absent : chr '/' ∉ s) (nonempty : s ≠ []) : components s = [s] := by
  rw [components, List.splitOn_eq_singleton absent]
  simp [nonempty]

/-- A path of which a front was read: it is empty or ends with a slash. -/
def Closed (front : List UInt8) : Prop := front = [] ∨ ∃ s, front = s ++ [chr '/']

theorem components_closed (closed : Closed front)
    : components (front ++ s) = components front ++ components s := by
  rcases closed with rfl | ⟨t, rfl⟩
  · rfl
  · rw [List.append_assoc, List.singleton_append, components_slash, components_slash,
      components_nil, List.append_nil]

theorem parts_closed (closed : Closed front) : parts (front ++ s) = parts front ++ parts s := by
  rw [parts, components_closed closed, List.map_append]
  rfl

theorem closed_slash : Closed (s ++ [chr '/']) := Or.inr ⟨s, rfl⟩

theorem parts_slash : parts (s ++ [chr '/']) = parts s := by
  rw [parts, components_slash, components_nil, List.append_nil]
  rfl

/-- A path is split behind its last slash. -/
theorem exists_closed (s : List UInt8)
    : ∃ front cur, s = front ++ cur ∧ Closed front ∧ chr '/' ∉ cur := by
  induction s using List.reverseRecOn with
  | nil => exact ⟨[], [], rfl, Or.inl rfl, List.not_mem_nil⟩
  | append_singleton s b ih =>
      obtain ⟨front, cur, rfl, closed, absent⟩ := ih
      by_cases slash : b = chr '/'
      · exact ⟨front ++ cur ++ [b], [], by rw [List.append_nil], Or.inr ⟨_, by rw [slash]⟩,
          List.not_mem_nil⟩
      · refine ⟨front, cur ++ [b], List.append_assoc .., closed, ?_⟩
        exact List.not_mem_append absent (by simpa using Ne.symm slash)

/-- What is cut off a path are whole components, or the last one left is cut as well. -/
theorem components_cut (s t : List UInt8)
    : (∃ rest, components (s ++ t) = components s ++ rest)
      ∨ ∃ names x y rest, components s = names ++ [x] ∧ y ≠ []
          ∧ components (s ++ t) = names ++ (x ++ y) :: rest := by
  obtain ⟨front, cur, rfl, closed, absent⟩ := exists_closed s
  rw [List.append_assoc, components_closed closed, components_closed closed]
  by_cases empty : cur = []
  · subst empty
    exact Or.inl ⟨components t, by rw [components_nil, List.append_nil, List.nil_append]⟩
  · rw [components_of_absent absent empty]
    obtain ⟨y, rest, absent', split⟩ : ∃ y rest, chr '/' ∉ y ∧ (t = y ∧ rest = []
        ∨ ∃ t', t = y ++ chr '/' :: t' ∧ rest = components t') := by
      by_cases slash : chr '/' ∈ t
      · obtain ⟨y, t', rfl, absent'⟩ := List.eq_append_cons_of_mem slash
        exact ⟨y, components t', absent', Or.inr ⟨t', rfl, rfl⟩⟩
      · exact ⟨t, [], slash, Or.inl ⟨rfl, rfl⟩⟩
    have whole : components (cur ++ t) = (cur ++ y) :: rest := by
      have single : components (cur ++ y) = [cur ++ y] :=
        components_of_absent (List.not_mem_append absent absent') (by simp [empty])
      rcases split with ⟨rfl, rfl⟩ | ⟨t', rfl, rfl⟩
      · exact single
      · rw [← List.append_assoc, components_slash, single]
        rfl
    rw [whole]
    by_cases nothing : y = []
    · exact Or.inl ⟨rest, by rw [nothing, List.append_nil, List.append_assoc]; rfl⟩
    · exact Or.inr ⟨components front, cur, y, rest, rfl, nothing, rfl⟩

end Libccll.Io
