import Libccll.Foundation.FileGrowth
import Libccll.Foundation.Transition
import Libccll.Sys.Directories

/-! Several threads of a process call `cl_mkdir_p` at once. A turn of its loop is a step, with one
call of `mkdir` in it at most.
-/

namespace Libccll.Io

open Foundation CString FileTree

/-- Where a call of `cl_mkdir_p` stands. -/
inductive Maker where
  | called (path tmp : Buffer)
  | cutting (tmp : Buffer) (p : Nat)
  | cut (tmp : Buffer)
  | done (ret : Ret)

/-- A step of a call. -/
def Maker.step (proc : Process) (mode : UInt32)
    : Maker → Files Name → Option (Maker × Files Name)
  | .called path tmp, tree => do
      let tmp ← fill tmp ((← str path 0).take 255 ++ [0])
      let len ← strlen tmp 0
      if len = 0 then
        none
      else if (← tmp[len - 1]?) = chr '/' then
        return (.cutting (← put tmp (len - 1) 0) 1, tree)
      else
        return (.cutting tmp 1, tree)
  | .cutting tmp p, tree => do
      let b ← tmp[p]?
      if b = 0 then
        return (.cut tmp, tree)
      else if b = chr '/' then
        let tmp ← put tmp p 0
        match make proc tree (← str tmp 0) 0o755 with
        | none => return (.done .fail, tree)
        | some tree => return (.cutting (← put tmp p (chr '/')) (p + 1), tree)
      else
        return (.cutting tmp (p + 1), tree)
  | .cut tmp, tree => do
      match make proc tree (← str tmp 0) mode with
      | none => return (.done .fail, tree)
      | some tree => return (.done .succ, tree)
  | .done _, _ => none

/-- A call that is alone. -/
def Maker.alone (proc : Process) (mode : UInt32) (s : Maker × Files Name) (_ : Unit)
    : Option (Maker × Files Name) :=
  s.1.step proc mode s.2

/-- A call to be made: its path, `mode`, and what is in `tmp`. -/
structure Request where
  path : Buffer
  text : List UInt8
  mode : UInt32
  tmp : Buffer
  holds : Holds path 0 text
  nonempty : text ≠ []
  size : tmp.length = 256

/-- The files, and where each call stands. -/
structure World (θ : Type*) where
  tree : Files Name
  makers : θ → Maker

section

variable {θ : Type*}

/-- Before all calls. -/
def World.initial (proc : Process) (calls : θ → Request) : World θ where
  tree := proc.tree
  makers t := .called (calls t).path (calls t).tmp

/-- A call takes its next step. -/
def World.step [DecidableEq θ] (proc : Process) (calls : θ → Request) (w : World θ) (t : θ)
    : Option (World θ) :=
  ((w.makers t).step proc (calls t).mode w.tree).map fun (maker, tree) =>
    { tree, makers := Function.update w.makers t maker }

end

variable {proc : Process} {mode : UInt32} {first small large tree tree' : Files Name}
variable {front cur s t back : List UInt8} {base : List Name}

-----------------------------------------------------------------------------------------
-- A call alone
-----------------------------------------------------------------------------------------

/-- A call stands somewhere in its path, or behind it, with the directories made up to the last
slash. The path `/` is empty without its slash.
-/
def Placed (proc : Process) (alone : Files Name) : Maker → Prop
  | .called path tmp => ∃ s, Holds path 0 s ∧ s ≠ [] ∧ tmp.length = 256
  | .cutting tmp p =>
      (∃ back, tmp = 0 :: 0 :: back ∧ p = 1)
      ∨ ∃ front cur rest back,
          tmp = front ++ cur ++ (rest ++ 0 :: back)
          ∧ p = (front ++ cur).length
          ∧ Closed front
          ∧ chr '/' ∉ cur
          ∧ front ++ cur ≠ []
          ∧ 0 ∉ front ++ cur ++ rest
          ∧ Made proc.denied (proc.base (front ++ cur)) alone alone (parts front)
  | .cut tmp =>
      (∃ back, tmp = 0 :: back)
      ∨ ∃ front cur back,
          tmp = front ++ cur ++ 0 :: back
          ∧ Closed front
          ∧ chr '/' ∉ cur
          ∧ front ++ cur ≠ []
          ∧ 0 ∉ front ++ cur
          ∧ Made proc.denied (proc.base (front ++ cur)) alone alone (parts front)
  | .done _ => True

/-- How many steps a call takes at most. -/
def Maker.left : Maker → Nat
  | .called _ _ => 257
  | .cutting tmp p => tmp.length - p + 1
  | .cut _ => 1
  | .done _ => 0

/-- What a step leaves in a tree that has grown without other calls, and in one that has grown with
them.
-/
structure Alike (proc : Process) (small small' large large' : Files Name) : Prop where
  grown : Grown proc.denied small small'
  grown_large : Grown proc.denied large large'
  within : small'.Within large'
  only : ∀ p, large'.entry p ≠ none → large.entry p ≠ none ∨ small'.entry p ≠ none

theorem Alike.refl (proc : Process) (within : small.Within large)
    : Alike proc small small large large where
  grown := .refl proc.denied small
  grown_large := .refl proc.denied large
  within := within
  only _ found := Or.inl found

/-- The next directory is made in both trees, or refused in both. -/
theorem make_alike (grown : Grown proc.denied first small) (grown' : Grown proc.denied first large)
    (within : small.Within large) (mode : UInt32)
    (made : Made proc.denied base small small (parts front)) (closed : Closed front)
    (absent : chr '/' ∉ cur) (nonempty : front ++ cur ≠ [])
    (based : proc.base (front ++ cur) = base)
    : (∃ small' large',
        make proc small (front ++ cur) mode = some small'
        ∧ make proc large (front ++ cur) mode = some large'
        ∧ Made proc.denied base small' small' (parts (front ++ cur))
        ∧ Alike proc small small' large large')
      ∨ make proc small (front ++ cur) mode = none
        ∧ make proc large (front ++ cur) mode = none := by
  have made' := made.within grown grown' within
  rcases make_made mode made closed absent nonempty based with
    ⟨small', called, along⟩ | ⟨called, refused⟩
  · rcases make_made mode made' closed absent nonempty based with
      ⟨large', called', along'⟩ | ⟨called', refused'⟩
    · refine Or.inl ⟨small', large', called, called', ?_, along.grown, along'.grown,
        along.within_both along' within, fun p found => ?_⟩
      · exact ⟨along.reached, along.passed, fun _ _ listed => listed,
          fun _ none found => absurd none found⟩
      · exact (along'.entry_iff.mp found).imp_right fun reached =>
          along.entry_iff.mpr (Or.inr reached)
    · exact absurd (grown.refused_iff.mpr (grown'.refused_iff.mp refused')) along.not_refused
  · rcases make_made mode made' closed absent nonempty based with
      ⟨large', called', along'⟩ | ⟨called', refused'⟩
    · exact absurd (grown'.refused_iff.mpr (grown.refused_iff.mp refused)) along'.not_refused
    · exact Or.inr ⟨called, called'⟩

/-- No directory has an empty name. -/
theorem make_nil (tree : Files Name) (mode : UInt32) : make proc tree [] mode = none := rfl

/-- The path is read, and a slash at the end of what is kept of it is dropped. -/
theorem called_step (mode : UInt32) {path tmp : Buffer} (holds : Holds path 0 s)
    (nonempty : s ≠ []) (size : tmp.length = 256) (small : Files Name)
    (dir : ∀ t, small.isDir (proc.base t) = true)
    : ∃ tmp',
        tmp'.length = 256
        ∧ Placed proc small (.cutting tmp' 1)
        ∧ ∀ tree, Maker.step proc mode (.called path tmp) tree = some (.cutting tmp' 1, tree) := by
  have started : s.take 255 ≠ [] := by simp [nonempty]
  obtain ⟨t, b, kept⟩ : ∃ t b, s.take 255 = t ++ [b] :=
    ⟨_, _, (List.dropLast_concat_getLast started).symm⟩
  have visible : 0 ∉ t ++ [b] := fun member => holds.1 (List.mem_of_mem_take (kept ▸ member))
  have short : (t ++ [b]).length ≤ 255 := kept ▸ List.length_take_le _ _
  obtain ⟨back, filled, room⟩
      : ∃ back, fill tmp (t ++ [b] ++ [0]) = some (t ++ b :: 0 :: back)
          ∧ (t ++ b :: 0 :: back).length = 256 := by
    refine ⟨tmp.drop (t ++ [b] ++ [0]).length, ?_, ?_⟩
    · rw [fill, if_pos (by rw [List.length_append, List.length_singleton]; omega)]
      simp
    · simp only [List.length_append, List.length_cons, List.length_drop, List.length_nil] at short ⊢
      omega
  have length : strlen (t ++ b :: 0 :: back) 0 = some (t.length + 1) := by
    have whole : Holds (t ++ b :: 0 :: back) 0 (t ++ [b]) :=
      ⟨visible, back, by rw [List.drop_zero, List.append_assoc, List.singleton_append]⟩
    rw [whole.strlen, List.length_append, List.length_singleton]
  -- from the first character on
  have start {u back : List UInt8} (nonempty : u ≠ []) (visible : 0 ∉ u)
      : Placed proc small (.cutting (u ++ 0 :: back) 1) := by
    obtain ⟨front, cur, rest, rfl, one, closed, absent, none⟩ := exists_start nonempty
    refine Or.inr ⟨front, cur, rest, back, List.append_assoc .., one.symm, closed, absent, ?_,
      visible, ?_⟩
    · intro empty
      rw [empty] at one
      cases one
    · rw [none]
      exact Made.start (dir _)
  by_cases slash : b = chr '/'
  · refine ⟨t ++ 0 :: 0 :: back, ?_, ?_, fun tree => ?_⟩
    · rw [← room]
      simp
    · by_cases empty : t = []
      · exact Or.inl ⟨back, by rw [empty]; rfl, rfl⟩
      · exact start empty fun member => visible (List.mem_append_left _ member)
    · simp only [Maker.step, holds.str, kept, filled, length, getElem?_behind, put_behind,
        Option.bind_eq_bind, Option.bind_some, Nat.add_sub_cancel, if_neg (Nat.succ_ne_zero _),
        if_pos slash]
      rfl
  · refine ⟨t ++ b :: 0 :: back, room, ?_, fun tree => ?_⟩
    · rw [List.append_cons]
      exact start (by simp) visible
    · simp only [Maker.step, holds.str, kept, filled, length, getElem?_behind,
        Option.bind_eq_bind, Option.bind_some, Nat.add_sub_cancel, if_neg (Nat.succ_ne_zero _),
        if_neg slash]
      rfl

/-- A maker goes on in the same way in both trees, and gets closer to its end. -/
structure Onward (proc : Process) (mode : UInt32) (maker maker' : Maker)
    (small small' large large' : Files Name)
    : Prop where
  alone : maker.step proc mode small = some (maker', small')
  among : maker.step proc mode large = some (maker', large')
  placed : Placed proc small' maker'
  alike : Alike proc small small' large large'
  closer : maker'.left < maker.left

/-- A turn of the loop at a slash. -/
theorem slash_alike (mode : UInt32) {rest : List UInt8}
    (grown : Grown proc.denied proc.tree small) (grown' : Grown proc.denied proc.tree large)
    (within : small.Within large) (closed : Closed front) (absent : chr '/' ∉ cur)
    (nonempty : front ++ cur ≠ []) (visible : 0 ∉ front ++ cur ++ chr '/' :: rest)
    (made : Made proc.denied (proc.base (front ++ cur)) small small (parts front))
    : ∃ maker' small' large',
        Onward proc mode
          (.cutting (front ++ cur ++ (chr '/' :: rest ++ 0 :: back)) (front ++ cur).length) maker'
          small small' large large' := by
  have inked : chr '/' ≠ 0 := by decide
  have before : 0 ∉ front ++ cur := fun member => visible (List.mem_append_left _ member)
  have here
      : (front ++ cur ++ (chr '/' :: rest ++ 0 :: back))[(front ++ cur).length]?
        = some (chr '/') :=
    getElem?_behind
  have cut
      : put (front ++ cur ++ (chr '/' :: rest ++ 0 :: back)) (front ++ cur).length 0
        = some (front ++ cur ++ 0 :: (rest ++ 0 :: back)) :=
    put_behind
  have restored
      : put (front ++ cur ++ 0 :: (rest ++ 0 :: back)) (front ++ cur).length (chr '/')
        = some (front ++ cur ++ (chr '/' :: rest ++ 0 :: back)) :=
    put_behind
  have read : str (front ++ cur ++ 0 :: (rest ++ 0 :: back)) 0 = some (front ++ cur) :=
    str_front before
  rcases make_alike grown grown' within 0o755 made closed absent nonempty rfl with
    ⟨small', large', called, called', made', alike⟩ | ⟨called, called'⟩
  · refine ⟨.cutting (front ++ cur ++ (chr '/' :: rest ++ 0 :: back)) ((front ++ cur).length + 1),
      small', large', ?_, ?_, Or.inr ⟨front ++ cur ++ [chr '/'], [], rest, back, ?_, ?_,
        closed_slash, List.not_mem_nil, by simp, ?_, ?_⟩, alike, ?_⟩
    · simp only [Maker.step, here, if_neg inked, if_true, cut, read, called, restored,
        Option.bind_eq_bind, Option.bind_some]
      rfl
    · simp only [Maker.step, here, if_neg inked, if_true, cut, read, called', restored,
        Option.bind_eq_bind, Option.bind_some]
      rfl
    · simp
    · simp [Nat.add_assoc]
    · simpa using visible
    · rw [List.append_nil, base_append nonempty, parts_slash]
      exact made'
    · simp only [Maker.left, List.length_append, List.length_cons]
      omega
  · refine ⟨.done .fail, small, large, ?_, ?_, trivial, .refl proc within, Nat.succ_pos _⟩
    · simp only [Maker.step, here, if_neg inked, if_true, cut, read, called,
        Option.bind_eq_bind, Option.bind_some]
      rfl
    · simp only [Maker.step, here, if_neg inked, if_true, cut, read, called',
        Option.bind_eq_bind, Option.bind_some]
      rfl

/-- A turn of the loop at any other character. -/
theorem other_alike (mode : UInt32) {rest : List UInt8} {b : UInt8}
    (within : small.Within large) (closed : Closed front) (absent : chr '/' ∉ cur)
    (nonempty : front ++ cur ≠ []) (visible : 0 ∉ front ++ cur ++ b :: rest)
    (made : Made proc.denied (proc.base (front ++ cur)) small small (parts front))
    (other : b ≠ chr '/')
    : ∃ maker' small' large',
        Onward proc mode
          (.cutting (front ++ cur ++ (b :: rest ++ 0 :: back)) (front ++ cur).length) maker'
          small small' large large' := by
  have inked : b ≠ 0 := by
    rintro rfl
    exact visible (by simp)
  have here : (front ++ cur ++ (b :: rest ++ 0 :: back))[(front ++ cur).length]? = some b :=
    getElem?_behind
  refine ⟨.cutting (front ++ cur ++ (b :: rest ++ 0 :: back)) ((front ++ cur).length + 1),
    small, large, ?_, ?_, Or.inr ⟨front, cur ++ [b], rest, back, ?_, ?_, closed, ?_, by simp, ?_,
      ?_⟩, .refl proc within, ?_⟩
  · simp only [Maker.step, here, if_neg inked, if_neg other, Option.bind_eq_bind,
      Option.bind_some]
    rfl
  · simp only [Maker.step, here, if_neg inked, if_neg other, Option.bind_eq_bind,
      Option.bind_some]
    rfl
  · simp
  · simp [Nat.add_assoc]
  · exact List.not_mem_append absent (by simpa using Ne.symm other)
  · simpa using visible
  · rwa [← List.append_assoc, base_append nonempty]
  · simp only [Maker.left, List.length_append, List.length_cons]
    omega

/-- The turn of the loop at the end of the path. -/
theorem end_alike (mode : UInt32) (within : small.Within large) (closed : Closed front)
    (absent : chr '/' ∉ cur) (nonempty : front ++ cur ≠ []) (visible : 0 ∉ front ++ cur)
    (made : Made proc.denied (proc.base (front ++ cur)) small small (parts front))
    : ∃ maker' small' large',
        Onward proc mode (.cutting (front ++ cur ++ 0 :: back) (front ++ cur).length) maker'
          small small' large large' := by
  have here : (front ++ cur ++ 0 :: back)[(front ++ cur).length]? = some 0 := getElem?_behind
  refine ⟨.cut (front ++ cur ++ 0 :: back), small, large, ?_, ?_,
    Or.inr ⟨front, cur, back, rfl, closed, absent, nonempty, visible, made⟩, .refl proc within, ?_⟩
  · simp only [Maker.step, here, Option.bind_eq_bind, Option.bind_some, if_true]
    rfl
  · simp only [Maker.step, here, Option.bind_eq_bind, Option.bind_some, if_true]
    rfl
  · simp only [Maker.left, List.length_append, List.length_cons]
    omega

/-- The last call of `mkdir`. -/
theorem last_alike (mode : UInt32) (grown : Grown proc.denied proc.tree small)
    (grown' : Grown proc.denied proc.tree large) (within : small.Within large)
    (closed : Closed front) (absent : chr '/' ∉ cur) (nonempty : front ++ cur ≠ [])
    (visible : 0 ∉ front ++ cur)
    (made : Made proc.denied (proc.base (front ++ cur)) small small (parts front))
    : ∃ maker' small' large',
        Onward proc mode (.cut (front ++ cur ++ 0 :: back)) maker' small small' large large' := by
  have read : str (front ++ cur ++ 0 :: back) 0 = some (front ++ cur) := str_front visible
  rcases make_alike grown grown' within mode made closed absent nonempty rfl with
    ⟨small', large', called, called', _, alike⟩ | ⟨called, called'⟩
  · refine ⟨.done .succ, small', large', ?_, ?_, trivial, alike, Nat.zero_lt_one⟩
    · simp only [Maker.step, read, called, Option.bind_eq_bind, Option.bind_some]
      rfl
    · simp only [Maker.step, read, called', Option.bind_eq_bind, Option.bind_some]
      rfl
  · refine ⟨.done .fail, small, large, ?_, ?_, trivial, .refl proc within, Nat.zero_lt_one⟩
    · simp only [Maker.step, read, called, Option.bind_eq_bind, Option.bind_some]
      rfl
    · simp only [Maker.step, read, called', Option.bind_eq_bind, Option.bind_some]
      rfl

/-- A call goes on among others as it does alone. -/
theorem step_alike (maker : Maker) (mode : UInt32) (placed : Placed proc small maker)
    (grown : Grown proc.denied proc.tree small) (grown' : Grown proc.denied proc.tree large)
    (within : small.Within large) (unfinished : ∀ ret, maker ≠ .done ret)
    : ∃ maker' small' large', Onward proc mode maker maker' small small' large large' := by
  cases maker with
  | done ret => exact absurd rfl (unfinished ret)
  | called path tmp =>
      obtain ⟨s, holds, nonempty, size⟩ := placed
      obtain ⟨tmp', size', placed', steps⟩ :=
        called_step mode holds nonempty size small fun t => grown.isDir isDir_base
      refine ⟨_, small, large, steps small, steps large, placed', .refl proc within, ?_⟩
      simp only [Maker.left, size']
      omega
  | cut tmp =>
      rcases placed with
        ⟨back, rfl⟩ | ⟨front, cur, back, rfl, closed, absent, nonempty, visible, made⟩
      · have read : str (0 :: back) 0 = some [] := str_front (s := []) List.not_mem_nil
        refine ⟨.done .fail, small, large, ?_, ?_, trivial, .refl proc within, Nat.zero_lt_one⟩
        · simp only [Maker.step, read, make_nil, Option.bind_eq_bind, Option.bind_some]
          rfl
        · simp only [Maker.step, read, make_nil, Option.bind_eq_bind, Option.bind_some]
          rfl
      · exact last_alike mode grown grown' within closed absent nonempty visible made
  | cutting tmp p =>
      rcases placed with ⟨back, rfl, rfl⟩
        | ⟨front, cur, rest, back, rfl, rfl, closed, absent, nonempty, visible, made⟩
      · refine ⟨.cut (0 :: 0 :: back), small, large, rfl, rfl, Or.inl ⟨0 :: back, rfl⟩,
          .refl proc within, ?_⟩
        simp [Maker.left]
      · cases rest with
        | nil =>
            rw [List.append_nil] at visible
            exact end_alike mode within closed absent nonempty visible made
        | cons b rest =>
            by_cases slash : b = chr '/'
            · subst slash
              exact slash_alike mode grown grown' within closed absent nonempty visible made
            · exact other_alike mode within closed absent nonempty visible made slash

-----------------------------------------------------------------------------------------
-- All calls
-----------------------------------------------------------------------------------------

variable {θ : Type*} {calls : θ → Request} {w w' : World θ}

/-- Every call is where it would be alone, and the files are those that all calls would have made
alone by then.
-/
structure Together (proc : Process) (calls : θ → Request) (w : World θ) (alone : θ → Files Name)
    : Prop where
  reached
    : ∀ t,
        Transition.Repeats (Maker.alone proc (calls t).mode) ()
          (.called (calls t).path (calls t).tmp, proc.tree) (w.makers t, alone t)
  placed : ∀ t, Placed proc (alone t) (w.makers t)
  grown : Grown proc.denied proc.tree w.tree
  grown_alone : ∀ t, Grown proc.denied proc.tree (alone t)
  within : ∀ t, (alone t).Within w.tree
  only
    : ∀ p,
        w.tree.entry p ≠ none → proc.tree.entry p ≠ none ∨ ∃ t, (alone t).entry p ≠ none

variable [DecidableEq θ] {alone : θ → Files Name}

/-- A call that has not returned goes on, whatever the others have done. -/
theorem Together.onward (together : Together proc calls w alone) {t : θ}
    (unfinished : ∀ ret, w.makers t ≠ .done ret)
    : ∃ w' alone',
        World.step proc calls w t = some w'
        ∧ Together proc calls w' alone'
        ∧ (w'.makers t).left < (w.makers t).left
        ∧ ∀ u, u ≠ t → w'.makers u = w.makers u := by
  obtain ⟨maker', small', large', onward⟩ :=
    step_alike (w.makers t) (calls t).mode (together.placed t) (together.grown_alone t)
      together.grown (together.within t) unfinished
  refine ⟨⟨large', Function.update w.makers t maker'⟩, Function.update alone t small', ?_, ?_, ?_,
    fun u other => Function.update_of_ne other ..⟩
  · simp only [World.step, onward.among, Option.map_some]
  · have large := together.grown.trans onward.alike.grown_large
    refine ⟨fun u => ?_, fun u => ?_, large, fun u => ?_, fun u => ?_, fun p found => ?_⟩
    · rcases eq_or_ne u t with rfl | other
      · simp only [Function.update_self]
        exact (together.reached u).trans (.head onward.alone (.refl _))
      · simp only [Function.update_of_ne other]
        exact together.reached u
    · rcases eq_or_ne u t with rfl | other
      · simp only [Function.update_self]
        exact onward.placed
      · simp only [Function.update_of_ne other]
        exact together.placed u
    · rcases eq_or_ne u t with rfl | other
      · rw [Function.update_self]
        exact (together.grown_alone u).trans onward.alike.grown
      · rw [Function.update_of_ne other]
        exact together.grown_alone u
    · rcases eq_or_ne u t with rfl | other
      · rw [Function.update_self]
        exact onward.alike.within
      · rw [Function.update_of_ne other]
        exact fun p found => onward.alike.grown_large.within p (together.within u p found)
    · rcases onward.alike.only p found with before | now
      · refine (together.only p before).imp_right fun ⟨u, made⟩ => ⟨u, ?_⟩
        rcases eq_or_ne u t with rfl | other
        · rw [Function.update_self]
          exact onward.alike.grown.within p made
        · rwa [Function.update_of_ne other]
      · refine Or.inr ⟨t, ?_⟩
        rwa [Function.update_self]
  · simp only [Function.update_self]
    exact onward.closer

/-- A call takes so many steps at most, whatever the others do. -/
theorem Together.run (together : Together proc calls w alone) {actions : List θ}
    (ran : Transition.run (World.step proc calls) w actions = some w')
    : (∃ alone', Together proc calls w' alone')
      ∧ ∀ t, actions.count t + (w'.makers t).left ≤ (w.makers t).left := by
  induction actions generalizing w alone with
  | nil =>
      obtain rfl := Option.some.inj ran
      exact ⟨⟨alone, together⟩, fun t => by simp⟩
  | cons t actions ih =>
      obtain ⟨middle, stepped, rest⟩ := Option.bind_eq_some_iff.mp ran
      have unfinished (ret : Ret) : w.makers t ≠ .done ret := by
        intro finished
        simp only [World.step, finished, Maker.step, Option.map_none] at stepped
        cases stepped
      obtain ⟨w'', alone', stepped', together', closer, others⟩ := together.onward unfinished
      obtain rfl := Option.some.inj (stepped'.symm.trans stepped)
      obtain ⟨final, bound⟩ := ih together' rest
      refine ⟨final, fun u => ?_⟩
      have later := bound u
      rcases eq_or_ne u t with rfl | other
      · rw [List.count_cons_self]
        omega
      · rw [List.count_cons_of_ne other.symm, ← others u other]
        exact later

end Libccll.Io
