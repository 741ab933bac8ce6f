import Libccll.Sys.Io

/-! What `cl_mkdir_p` leaves, against the directories that its path names. -/

namespace Libccll.Io

open Foundation CString FileTree

variable {proc : Process} {s t front cur rest back : List UInt8} {base : List Name}
variable {first tree : Files Name} {mode : UInt32} {turns : Nat}

-----------------------------------------------------------------------------------------
-- The calls of `mkdir`
-----------------------------------------------------------------------------------------

/-- A front of a path starts where the path does. -/
theorem base_append (nonempty : s ≠ []) : proc.base (s ++ t) = proc.base s := by
  rw [Process.base, Process.base, List.head?_append_of_ne_nil s nonempty]

/-- With the directories in front of the last component made, a call makes that one as well, or it
is refused.
-/
theorem make_made (mode : UInt32) (made : Made proc.denied base first tree (parts front))
    (closed : Closed front) (absent : chr '/' ∉ cur) (nonempty : front ++ cur ≠ [])
    (based : proc.base (front ++ cur) = base)
    : (∃ tree', make proc tree (front ++ cur) mode = some tree'
        ∧ Made proc.denied base first tree' (parts (front ++ cur)))
      ∨ make proc tree (front ++ cur) mode = none
        ∧ Refused proc.denied base first (parts (front ++ cur)) := by
  rw [make, mkdir, if_neg nonempty, based, parts_closed closed]
  by_cases empty : cur = []
  · have same : parts front ++ parts cur = parts front := by
      rw [empty]
      exact List.append_nil _
    rw [same, made.again]
    exact Or.inl ⟨tree, rfl, made⟩
  · have single : parts cur = [component cur] := by
      rw [parts, components_of_absent absent empty]
      rfl
    rw [single]
    obtain ⟨tree', called, made'⟩ | ⟨called, made'⟩ | ⟨err, called, other, refused⟩ :=
      made.mkdir (component cur) (mode &&& ~~~proc.umask &&& 0o1777)
    · rw [called]
      exact Or.inl ⟨tree', rfl, made'⟩
    · rw [called]
      exact Or.inl ⟨tree, rfl, made'⟩
    · rw [called]
      refine Or.inr ⟨?_, refused⟩
      cases err with
      | exist => exact absurd rfl other
      | noEnt | notDir | other => rfl

-----------------------------------------------------------------------------------------
-- The loop
-----------------------------------------------------------------------------------------

theorem str_front (visible : 0 ∉ s) : str (s ++ 0 :: back) 0 = some s :=
  Holds.str ⟨visible, back, List.drop_zero⟩

/-- A turn at the end of the path. -/
theorem cutFrom_end
    : cutFrom proc (turns + 1) (s ++ 0 :: back) s.length tree
      = some (true, s ++ 0 :: back, tree) := by
  rw [cutFrom, getElem?_behind]
  rfl

/-- A turn at a slash: the path is cut there, and restored. -/
theorem cutFrom_slash (visible : 0 ∉ s)
    : cutFrom proc (turns + 1) (s ++ chr '/' :: back) s.length tree
      = match make proc tree s 0o755 with
        | none => some (false, s ++ 0 :: back, tree)
        | some tree' => cutFrom proc turns (s ++ chr '/' :: back) (s.length + 1) tree' := by
  have inked : chr '/' ≠ 0 := by decide
  rw [cutFrom, getElem?_behind]
  simp only [Option.bind_eq_bind, Option.bind_some, if_neg inked, if_true, put_behind,
    str_front visible]
  cases make proc tree s 0o755 with
  | none => rfl
  | some tree' => rfl

/-- A turn at any other character. -/
theorem cutFrom_other {b : UInt8} (inked : b ≠ 0) (other : b ≠ chr '/')
    : cutFrom proc (turns + 1) (s ++ b :: back) s.length tree
      = cutFrom proc turns (s ++ b :: back) (s.length + 1) tree := by
  rw [cutFrom, getElem?_behind]
  simp only [Option.bind_eq_bind, Option.bind_some, if_neg inked, if_neg other]

/-- From any place in the path on, with the directories made up to the last slash. -/
theorem cutFrom_made (back : List UInt8) (made : Made proc.denied base first tree (parts front))
    (closed : Closed front) (absent : chr '/' ∉ cur) (nonempty : front ++ cur ≠ [])
    (based : proc.base (front ++ cur) = base) (visible : 0 ∉ front ++ cur ++ rest)
    (enough : rest.length < turns)
    : (∃ tree' front' cur',
        cutFrom proc turns (front ++ cur ++ (rest ++ 0 :: back)) (front ++ cur).length tree
          = some (true, front ++ cur ++ (rest ++ 0 :: back), tree')
        ∧ front ++ cur ++ rest = front' ++ cur' ∧ Closed front' ∧ chr '/' ∉ cur'
        ∧ Made proc.denied base first tree' (parts front'))
      ∨ ∃ tmp tree',
          cutFrom proc turns (front ++ cur ++ (rest ++ 0 :: back)) (front ++ cur).length tree
            = some (false, tmp, tree')
          ∧ Refused proc.denied base first (parts (front ++ cur ++ rest)) := by
  induction rest generalizing front cur tree turns with
  | nil =>
      obtain ⟨turns, rfl⟩ := Nat.exists_eq_add_of_lt enough
      exact Or.inl
        ⟨tree, front, cur, cutFrom_end, List.append_nil _, closed, absent, made⟩
  | cons b rest ih =>
      obtain ⟨turns, rfl⟩ := Nat.exists_eq_add_of_lt enough
      have enough' : rest.length < (b :: rest).length + turns :=
        Nat.lt_add_right turns (Nat.lt_succ_self _)
      have inked : b ≠ 0 := by
        rintro rfl
        exact visible (by simp)
      have before : 0 ∉ front ++ cur := fun member => visible (List.mem_append_left _ member)
      by_cases slash : b = chr '/'
      · subst slash
        rw [List.cons_append, cutFrom_slash before]
        rcases make_made 0o755 made closed absent nonempty based with
          ⟨tree', called, made'⟩ | ⟨called, refused⟩
        · rw [called]
          have based' : proc.base (front ++ cur ++ [chr '/'] ++ []) = base := by
            rw [List.append_nil, base_append nonempty, based]
          have made'' : Made proc.denied base first tree' (parts (front ++ cur ++ [chr '/'])) := by
            rwa [parts_slash]
          have onward := ih made'' closed_slash List.not_mem_nil (by simp) based'
            (by simpa using visible) enough'
          simpa [Nat.add_assoc] using onward
        · rw [called]
          refine Or.inr ⟨_, tree, rfl, refused.longer ?_⟩
          rw [List.append_cons (front ++ cur), parts_closed closed_slash, parts_slash]
          exact List.prefix_append _ _
      · have based' : proc.base (front ++ (cur ++ [b])) = base := by
          rw [← List.append_assoc, base_append nonempty, based]
        have absent' : chr '/' ∉ cur ++ [b] :=
          List.not_mem_append absent (by simpa using Ne.symm slash)
        have onward := ih made closed absent' (by simp) based' (by simpa using visible) enough'
        rw [List.cons_append, cutFrom_other inked slash]
        simpa [Nat.add_assoc] using onward

theorem isDir_base : proc.tree.isDir (proc.base s) = true := by
  rw [Process.base]
  split
  · exact Files.isDir_nil
  · exact proc.standing

/-- The loop starts behind the first character: a slash in front of all others is no component. -/
theorem exists_start (nonempty : t ≠ [])
    : ∃ front cur rest, t = front ++ cur ++ rest ∧ (front ++ cur).length = 1 ∧ Closed front
        ∧ chr '/' ∉ cur ∧ parts front = [] := by
  obtain ⟨b, rest, rfl⟩ := List.exists_cons_of_ne_nil nonempty
  by_cases slash : b = chr '/'
  · subst slash
    exact ⟨[chr '/'], [], rest, rfl, rfl, Or.inr ⟨[], rfl⟩, List.not_mem_nil, rfl⟩
  · exact ⟨[], [b], rest, rfl, rfl, Or.inl rfl, by simpa using Ne.symm slash, rfl⟩

/-- The loop and the last call. -/
theorem makePath_made (proc : Process) (mode : UInt32) (back : List UInt8) (nonempty : t ≠ [])
    (visible : 0 ∉ t)
    : (∃ tree', makePath proc (t ++ 0 :: back) mode = some (.succ, tree')
        ∧ Made proc.denied (proc.base t) proc.tree tree' (parts t))
      ∨ ∃ tree', makePath proc (t ++ 0 :: back) mode = some (.fail, tree')
          ∧ Refused proc.denied (proc.base t) proc.tree (parts t) := by
  obtain ⟨front, cur, rest, rfl, one, closed, absent, none⟩ := exists_start nonempty
  have started : front ++ cur ≠ [] := by
    intro empty
    rw [empty] at one
    cases one
  have based : proc.base (front ++ cur ++ rest) = proc.base (front ++ cur) := base_append started
  have start : Made proc.denied (proc.base (front ++ cur)) proc.tree proc.tree (parts front) := by
    rw [none]
    exact Made.start isDir_base
  have enough : rest.length < (front ++ cur ++ (rest ++ 0 :: back)).length := by
    simp only [List.length_append, List.length_cons]
    omega
  have looped := cutFrom_made back start closed absent started rfl visible enough
  rw [one] at looped
  rw [List.append_assoc _ rest, based]
  rcases looped with ⟨tree', front', cur', ended, split, closed', absent', made⟩
    | ⟨tmp, tree', failed, refused⟩
  · have read : str (front ++ cur ++ (rest ++ 0 :: back)) 0 = some (front ++ cur ++ rest) := by
      rw [← List.append_assoc]
      exact str_front visible
    rw [makePath, ended]
    simp only [Option.bind_eq_bind, Option.bind_some, if_true, read]
    rw [split] at based nonempty ⊢
    rcases make_made mode made closed' absent' nonempty based with
      ⟨tree'', called, made'⟩ | ⟨called, refused⟩
    · rw [called]
      exact Or.inl ⟨tree'', rfl, made'⟩
    · rw [called]
      exact Or.inr ⟨tree', rfl, refused⟩
  · rw [makePath, failed]
    exact Or.inr ⟨tree', rfl, refused⟩

/-- Nothing is left of the root directory without its slash. -/
theorem makePath_empty
    : makePath proc ([] ++ 0 :: 0 :: back) mode = some (.fail, proc.tree) := by
  have read : str ([] ++ 0 :: 0 :: back) 0 = some [] := str_front List.not_mem_nil
  have looped : cutFrom proc ([] ++ 0 :: 0 :: back).length ([] ++ 0 :: 0 :: back) 1 proc.tree
      = some (true, [] ++ 0 :: 0 :: back, proc.tree) :=
    cutFrom_end (s := [0])
  rw [makePath, looped]
  simp only [Option.bind_eq_bind, Option.bind_some, if_true, read]
  rfl

/-- A call keeps 255 bytes of the path, and a slash at their end is dropped. -/
theorem clMkdirP_kept (proc : Process) (mode : UInt32) {path tmp : Buffer} {b : UInt8}
    (holds : Holds path 0 s) (kept : s.take 255 = t ++ [b]) (size : tmp.length = 256)
    : ∃ back, clMkdirP proc path mode tmp
        = if b = chr '/' then makePath proc (t ++ 0 :: 0 :: back) mode
          else makePath proc (t ++ [b] ++ 0 :: back) mode := by
  have visible : 0 ∉ t ++ [b] := fun member => holds.1 (List.mem_of_mem_take (kept ▸ member))
  have short : (t ++ [b]).length ≤ 255 := kept ▸ List.length_take_le _ _
  obtain ⟨back, filled⟩ : ∃ back, fill tmp (t ++ [b] ++ [0]) = some (t ++ b :: 0 :: back) := by
    refine ⟨tmp.drop (t ++ [b] ++ [0]).length, ?_⟩
    rw [fill, if_pos (by rw [List.length_append, List.length_singleton]; omega)]
    simp
  have length : strlen (t ++ b :: 0 :: back) 0 = some (t.length + 1) := by
    have whole : Holds (t ++ b :: 0 :: back) 0 (t ++ [b]) :=
      ⟨visible, back, by rw [List.drop_zero, List.append_assoc, List.singleton_append]⟩
    rw [whole.strlen, List.length_append, List.length_singleton]
  refine ⟨back, ?_⟩
  simp only [clMkdirP, holds.str, kept, filled, length, getElem?_behind, put_behind,
    Option.bind_eq_bind, Option.bind_some, Nat.add_sub_cancel, if_neg (Nat.succ_ne_zero _)]
  rw [List.append_assoc t [b], List.singleton_append]

/-- A call: the directories of as much of the path as is kept are made, or it is refused. -/
theorem clMkdirP_made (proc : Process) (mode : UInt32) {path tmp : Buffer}
    (holds : Holds path 0 s) (nonempty : s ≠ []) (size : tmp.length = 256)
    : (∃ tree', clMkdirP proc path mode tmp = some (.succ, tree')
        ∧ Made proc.denied (proc.base s) proc.tree tree' (parts (s.take 255)))
      ∨ ∃ tree', clMkdirP proc path mode tmp = some (.fail, tree')
          ∧ (s = [chr '/'] ∨ Refused proc.denied (proc.base s) proc.tree (parts (s.take 255))) := by
  have started : s.take 255 ≠ [] := by simp [nonempty]
  have based : proc.base s = proc.base (s.take 255) := by
    conv_lhs => rw [← List.take_append_drop 255 s]
    exact base_append started
  obtain ⟨t, b, kept⟩ : ∃ t b, s.take 255 = t ++ [b] :=
    ⟨_, _, (List.dropLast_concat_getLast started).symm⟩
  obtain ⟨back, called⟩ := clMkdirP_kept proc mode holds kept size
  have visible : 0 ∉ t ++ [b] := fun member => holds.1 (List.mem_of_mem_take (kept ▸ member))
  rw [based, kept, called]
  by_cases slash : b = chr '/'
  · subst slash
    rw [if_pos rfl]
    by_cases empty : t = []
    · subst empty
      have short : s = [chr '/'] := by
        have length := congrArg List.length kept
        rw [List.length_take, List.nil_append, List.length_singleton] at length
        rwa [List.take_of_length_le (by omega)] at kept
      exact Or.inr ⟨proc.tree, makePath_empty, Or.inl short⟩
    · have absent : 0 ∉ t := fun member => visible (List.mem_append_left _ member)
      rw [base_append empty, parts_slash]
      rcases makePath_made proc mode (0 :: back) empty absent with
        made | ⟨tree', called, refused⟩
      · exact Or.inl made
      · exact Or.inr ⟨tree', called, Or.inr refused⟩
  · rw [if_neg slash]
    rcases makePath_made proc mode back (by simp) visible with
      made | ⟨tree', called, refused⟩
    · exact Or.inl made
    · exact Or.inr ⟨tree', called, Or.inr refused⟩

-----------------------------------------------------------------------------------------
-- What a call is to leave
-----------------------------------------------------------------------------------------

/-- All of a path's directories are there, and nothing else has changed. -/
structure Established (base : List Name) (path : List Name) (before after : Files Name)
    : Prop where
  dirs : ∀ r, r <+: path → after.isDir (base ++ r) = true
  kept : ∀ p e, before.entry p = some e → after.entry p = some e
  only : ∀ p, before.entry p = none → after.entry p ≠ none → ∃ r, r <+: path ∧ p = base ++ r

/-- A path without `.` and `..` -/
def Plain (s : List UInt8) : Prop :=
  ∀ c ∈ components s, c ≠ [chr '.'] ∧ c ≠ [chr '.', chr '.']

variable {n : Nat} {names : List Name} {r : List (Component Name)}

theorem component_of_plain {c : Name} (plain : c ≠ [chr '.'] ∧ c ≠ [chr '.', chr '.'])
    : component c = .name c := by
  rw [component, if_neg plain.1, if_neg plain.2]

/-- A front of a plain path leads further down. -/
theorem resolve_plain (plain : Plain s) (leads : names <+: components s)
    : resolve base (names.map component) = base ++ names := by
  have named : names.map component = names.map .name :=
    List.map_congr_left fun c member => component_of_plain (plain c (leads.subset member))
  rw [named, resolve_names]

/-- What comes before the last component that is kept is a front of the path. -/
theorem resolve_front (plain : Plain s) (leads : r <+: parts (s.take n))
    (shorter : r ≠ parts (s.take n))
    : ∃ names, names <+: components s ∧ resolve base r = base ++ names := by
  obtain ⟨names, leads', rfl⟩ := List.prefix_map_iff.mp leads
  have shorter' : names ≠ components (s.take n) := fun same => shorter (by rw [same, parts])
  have front : names <+: components s := by
    have cut := components_cut (s.take n) (s.drop n)
    rw [List.take_append_drop] at cut
    rcases cut with ⟨rest, whole⟩ | ⟨names', x, y, rest, kept, -, whole⟩
    · rw [whole]
      exact leads'.trans (List.prefix_append _ rest)
    · rw [kept] at leads' shorter'
      rw [whole]
      exact ((List.prefix_concat_iff.mp leads').resolve_left shorter').trans
        (List.prefix_append names' _)
  exact ⟨names, front, resolve_plain plain front⟩

/-- A component that was cut does not lead to where the whole one does. -/
theorem follow_cut_ne {x y : Name} {rest : List Name} (nonempty : y ≠ [])
    : follow base (component x) ≠ base ++ (x ++ y) :: rest := by
  intro same
  have lengths := congrArg List.length same
  cases last : component x with
  | name m =>
      have named : m = x := by
        rw [component] at last
        split at last
        · cases last
        · split at last <;> cases last
          rfl
      rw [last, follow, List.append_cancel_left_eq, List.cons.injEq, named] at same
      exact nonempty (List.self_eq_append_right.mp same.1)
  | this =>
      rw [last, follow, List.length_append, List.length_cons] at lengths
      omega
  | parent =>
      rw [last, follow, List.length_dropLast, List.length_append, List.length_cons] at lengths
      omega

/-- No front of what is kept leads to where a longer path leads. -/
theorem resolve_ne (plain : Plain s) (longer : components (s.take n) ≠ components s)
    (leads : r <+: parts (s.take n))
    : resolve base r ≠ base ++ components s := by
  intro same
  have short : r.length ≤ (components (s.take n)).length := by
    have bound := leads.length_le
    rwa [parts, List.length_map] at bound
  have reaches : (resolve base r).length ≤ base.length + r.length := length_resolve_le
  rw [same, List.length_append] at reaches
  have cut := components_cut (s.take n) (s.drop n)
  rw [List.take_append_drop] at cut
  rcases cut with ⟨rest, whole⟩ | ⟨names, x, y, rest, kept, nonempty, whole⟩
  · rw [whole, List.length_append] at reaches
    have nothing : rest = [] := List.eq_nil_of_length_eq_zero (by omega)
    rw [nothing, List.append_nil] at whole
    exact longer whole.symm
  · rw [kept, List.length_append, List.length_singleton] at short
    rw [whole, List.length_append, List.length_cons] at reaches
    have full : r = parts (s.take n) := by
      refine leads.eq_of_length ?_
      rw [parts, List.length_map, kept, List.length_append, List.length_singleton]
      omega
    have front : names <+: components s := by
      rw [whole]
      exact List.prefix_append names _
    rw [full, parts, kept, List.map_append, List.map_singleton, resolve_concat,
      resolve_plain plain front, whole, ← List.append_assoc] at same
    exact follow_cut_ne nonempty same

variable {tree' : Files Name}

/-- All of the path was kept. -/
theorem established_iff_of_whole (plain : Plain s) (whole : components (s.take n) = components s)
    (made : Made proc.denied base tree tree' (parts (s.take n)))
    : Established base (components s) tree tree' ↔ ¬tree.IsFile (base ++ components s) := by
  rw [parts, whole] at made
  have dirs (r : List Name) (leads : r <+: components s) (shorter : r ≠ components s)
      : tree'.isDir (base ++ r) = true := by
    rw [← resolve_plain plain leads]
    refine made.passed _ (List.prefix_map_iff.mpr ⟨r, leads, rfl⟩) fun same => shorter ?_
    have length := congrArg List.length same
    rw [List.length_map, List.length_map] at length
    exact leads.eq_of_length length
  constructor
  · rintro established ⟨contents, file⟩
    have dir := established.dirs _ (List.prefix_refl _)
    rw [Files.IsFile.not_dir ⟨contents, made.kept _ _ file⟩] at dir
    cases dir
  · intro other
    refine ⟨fun r leads => ?_, made.kept, fun p absent found => ?_⟩
    · by_cases same : r = components s
      · rw [same]
        by_contra file
        have reached := made.reached _ (List.prefix_refl _)
        rw [resolve_plain plain (List.prefix_refl _)] at reached
        exact other (made.file_kept reached (Bool.eq_false_iff.mpr file))
      · exact dirs r leads same
    · obtain ⟨-, -, r, leads, same⟩ := made.new p absent found
      obtain ⟨names, leads', rfl⟩ := List.prefix_map_iff.mp leads
      exact ⟨names, leads', by rw [← same, resolve_plain plain leads']⟩

/-- Some of the path was cut off. -/
theorem established_iff_of_cut (plain : Plain s) (longer : components (s.take n) ≠ components s)
    (made : Made proc.denied base tree tree' (parts (s.take n)))
    : Established base (components s) tree tree'
      ↔ tree.isDir (base ++ components s) = true
        ∧ tree.entry (resolve base (parts (s.take n))) ≠ none := by
  constructor
  · intro established
    have dir := established.dirs _ (List.prefix_refl _)
    have before : tree.entry (base ++ components s) ≠ none := by
      intro absent
      obtain ⟨-, -, r, leads, same⟩ := made.new _ absent (Files.entry_of_isDir dir)
      exact resolve_ne plain longer leads same
    have stood := made.isDir_before before dir
    refine ⟨stood, fun absent => ?_⟩
    obtain ⟨r, ⟨more, split⟩, same⟩ :=
      established.only _ absent (made.reached _ (List.prefix_refl _))
    rw [← split, ← List.append_assoc, ← same] at stood
    exact Files.entry_of_isDir (Files.isDir_of_append stood) absent
  · rintro ⟨stood, present⟩
    refine ⟨fun r leads => ?_, made.kept, fun p absent found => ?_⟩
    · obtain ⟨more, split⟩ := leads
      rw [← split, ← List.append_assoc] at stood
      exact made.isDir_kept (Files.isDir_of_append stood)
    · obtain ⟨-, -, r, leads, same⟩ := made.new p absent found
      by_cases full : r = parts (s.take n)
      · rw [← full, same] at present
        exact absurd absent present
      · obtain ⟨names, front, resolved⟩ := resolve_front plain leads full
        exact ⟨names, front, by rw [← same, resolved]⟩

/-- Where a file or a denied directory is in the way, the path does not name a file. -/
theorem not_file_of_refused {denied : List Name → Bool} (plain : Plain s)
    (whole : components (s.take n) = components s)
    (refused : Refused denied base tree (parts (s.take n)))
    : ¬tree.IsFile (base ++ components s) := by
  rintro ⟨contents, file⟩
  have present : tree.entry (base ++ components s) ≠ none := by
    rw [file]
    exact Option.some_ne_none _
  rw [parts, whole] at refused
  rcases refused with ⟨r, leads, shorter, blocked⟩ | ⟨r, leads, absent, -⟩
  · obtain ⟨names, leads', rfl⟩ := List.prefix_map_iff.mp leads
    rw [resolve_plain plain leads'] at blocked
    obtain ⟨more, split⟩ := leads'
    cases more with
    | nil => exact shorter (by rw [← split, List.append_nil])
    | cons m more =>
        rw [← split, ← List.append_assoc] at present
        have dir := Files.isDir_of_entry present
        rw [blocked.not_dir] at dir
        cases dir
  · obtain ⟨names, leads', rfl⟩ := List.prefix_map_iff.mp leads
    rw [resolve_plain plain leads'] at absent
    obtain ⟨more, split⟩ := leads'
    rw [← split, ← List.append_assoc] at present
    cases more with
    | nil => exact present (by rw [List.append_nil]; exact absent)
    | cons m more => exact Files.entry_of_isDir (Files.isDir_of_entry present) absent

/-- A call that succeeds has established the path, unless the path names a file, or part of it was
cut off: then that happens only where the directories are there already and the part that is kept
leads to something as well, or where the call fails.
-/
theorem clMkdirP_establishes_iff {path tmp : Buffer} (holds : Holds path 0 s) (nonempty : s ≠ [])
    (plain : Plain s) (size : tmp.length = 256)
    : (∃ ret tree', clMkdirP proc path mode tmp = some (ret, tree')
        ∧ (ret = .succ → Established (proc.base s) (components s) proc.tree tree'))
      ↔ components (s.take 255) = components s
          ∧ ¬proc.tree.IsFile (proc.base s ++ components s)
        ∨ components (s.take 255) ≠ components s
          ∧ (Refused proc.denied (proc.base s) proc.tree (parts (s.take 255))
            ∨ proc.tree.isDir (proc.base s ++ components s) = true
              ∧ proc.tree.entry (resolve (proc.base s) (parts (s.take 255))) ≠ none) := by
  rcases clMkdirP_made proc mode holds nonempty size with
    ⟨tree', called, made⟩ | ⟨tree', called, stopped⟩
  · have only : (∃ ret tree'', clMkdirP proc path mode tmp = some (ret, tree'')
          ∧ (ret = .succ → Established (proc.base s) (components s) proc.tree tree''))
        ↔ Established (proc.base s) (components s) proc.tree tree' := by
      rw [called]
      constructor
      · rintro ⟨_, _, same, established⟩
        cases same
        exact established rfl
      · exact fun established => ⟨.succ, tree', rfl, fun _ => established⟩
    rw [only]
    by_cases whole : components (s.take 255) = components s
    · rw [established_iff_of_whole plain whole made]
      simp only [whole, true_and, not_true, ne_eq, false_and, or_false]
    · rw [established_iff_of_cut plain whole made]
      simp only [whole, made.not_refused, false_and, false_or, true_and, ne_eq, not_false_eq_true]
  · refine iff_of_true ⟨.fail, tree', called, nofun⟩ ?_
    by_cases whole : components (s.take 255) = components s
    · refine Or.inl ⟨whole, ?_⟩
      rcases stopped with rfl | refused
      · intro file
        have dir : proc.tree.isDir (proc.base [chr '/']) = true := isDir_base
        have not_dir := file.not_dir
        rw [show components [chr '/'] = [] from rfl, List.append_nil, dir] at not_dir
        cases not_dir
      · exact not_file_of_refused plain whole refused
    · rcases stopped with rfl | refused
      · exact absurd rfl whole
      · exact Or.inr ⟨whole, Or.inl refused⟩

/-- A root directory with one file in it, `f`. -/
def oneFile : Files Name where
  entry p :=
    if p = [] then some (.dir 0o755) else if p = [[102]] then some (.file []) else none
  root := ⟨0o755, rfl⟩
  inside p n found := by
    rw [if_neg (by simp)] at found
    by_cases named : p ++ [n] = [] ++ [[102]]
    · obtain ⟨rfl, -⟩ := List.append_inj' named rfl
      exact ⟨0o755, rfl⟩
    · exact absurd (if_neg named) found

def shell : Process where
  tree := oneFile
  cwd := []
  standing := rfl
  umask := 0o22
  denied _ := false

theorem clMkdirP_establishes_iff_shell
    : (∃ ret tree', clMkdirP shell [97, 0] 0o755 (List.replicate 256 0) = some (ret, tree')
        ∧ (ret = .succ → Established (shell.base [97]) (components [97]) shell.tree tree'))
      ↔ components (List.take 255 [97]) = components [97]
          ∧ ¬shell.tree.IsFile (shell.base [97] ++ components [97])
        ∨ components (List.take 255 [97]) ≠ components [97]
          ∧ (Refused shell.denied (shell.base [97]) shell.tree (parts (List.take 255 [97]))
            ∨ shell.tree.isDir (shell.base [97] ++ components [97]) = true
              ∧ shell.tree.entry (resolve (shell.base [97]) (parts (List.take 255 [97]))) ≠ none) :=
  clMkdirP_establishes_iff ⟨by decide, [], rfl⟩ (by decide) (by unfold Plain; decide)
    List.length_replicate

/-- The file is taken for a directory. -/
theorem clMkdirP_file
    : ¬∃ ret tree', clMkdirP shell [102, 0] 0o755 (List.replicate 256 0) = some (ret, tree')
        ∧ (ret = .succ → Established (shell.base [102]) (components [102]) shell.tree tree') := by
  have plain : Plain [102] := by
    unfold Plain
    decide
  have file : shell.tree.IsFile (shell.base [102] ++ components [102]) := ⟨[], rfl⟩
  rintro ⟨ret, tree', called, established⟩
  have holds : Holds [102, 0] 0 [102] := ⟨by decide, [], rfl⟩
  have size : (List.replicate 256 (0 : UInt8)).length = 256 := List.length_replicate
  rcases clMkdirP_made shell 0o755 holds (by decide) size with
    ⟨tree'', called', made⟩ | ⟨tree'', called', stopped⟩
  · rw [called'] at called
    cases called
    exact (established_iff_of_whole plain rfl made).mp (established rfl) file
  · rcases stopped with same | refused
    · exact absurd same (by decide)
    · exact not_file_of_refused plain rfl refused file

end Libccll.Io
