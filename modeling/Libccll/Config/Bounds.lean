import Libccll.Config.Agreement
import Libccll.Foundation.Transition

/-! What the lookups demand of their buffers: short lines of a text for the line buffer, and short
section names for `_sec`.
-/

namespace Libccll.Ini

open Foundation Foundation.CString Txt

-----------------------------------------------------------------------------------------
-- One line
-----------------------------------------------------------------------------------------

variable {section_ : Option (List UInt8)} {key cur s : List UInt8} {line _sec : Buffer}
  {room : Nat}

/-- The name on a line is shorter than the line. -/
theorem stores_of_length (short : s.length ≤ room) : Stores room s := by
  intro name named
  cases s with
  | nil => cases named
  | cons b t =>
      rw [entry] at named
      split at named
      · cases named
      · split at named
        · obtain rfl := Entry.section_.inj named
          rw [List.length_cons] at short
          exact Nat.lt_of_lt_of_le (Nat.lt_succ_of_le (List.length_take_le' _ _)) short
        · split at named <;> cases named

/-- `_get_value` ends the lookup, overruns `_sec`, or lets the lookup go on. -/
theorem _getValue_cases (section_ : Option (List UInt8)) (key : List UInt8) (value : Mem)
    (holds : Holds line 0 s) (size : _sec.length = room) (current : Holds _sec 0 cur)
    : (∃ parsed,
          _getValue line section_ _sec key value = some parsed
          ∧ parsed.ret ≠ .none
          ∧ (s ≠ []
            → Stores room (before (chr '\n') s)
              ∧ ∀ cur', outcome section_ key cur (before (chr '\n') s) ≠ .next cur'))
      ∨ (_getValue line section_ _sec key value = none
          ∧ s ≠ []
          ∧ ¬Stores room (before (chr '\n') s))
      ∨ ∃ parsed cur',
          _getValue line section_ _sec key value = some parsed
          ∧ parsed.ret = .none
          ∧ parsed.line.length = line.length
          ∧ parsed.sec.length = room
          ∧ Holds parsed.sec 0 cur'
          ∧ s ≠ []
          ∧ Stores room (before (chr '\n') s)
          ∧ outcome section_ key cur (before (chr '\n') s) = .next cur' := by
  rcases eq_or_ne s [] with rfl | nonempty
  · exact Or.inl ⟨_, _getValue_empty value holds, by simp, fun nonempty => absurd rfl nonempty⟩
  · by_cases stores : Stores room (before (chr '\n') s)
    · obtain ⟨parsed, read, length, secLength, answers⟩ :=
        _getValue_eq section_ key value holds nonempty size current stores
      cases meant : outcome section_ key cur (before (chr '\n') s) with
      | found v | fail =>
          rw [meant] at answers
          refine Or.inl ⟨parsed, read, ?_, fun _ => ⟨stores, fun cur' => by simp⟩⟩
          rw [answers.1]
          decide
      | next cur' =>
          rw [meant] at answers
          exact Or.inr (Or.inr ⟨parsed, cur', read, answers.1, length, secLength, answers.2.2,
            nonempty, stores, rfl⟩)
    · exact Or.inr (Or.inl
        ⟨_getValue_none section_ key value holds nonempty (size ▸ stores), nonempty, stores⟩)

/-- Every section name can be stored, up to the string at which the lookup ends. -/
def Storable (room : Nat) (section_ : Option (List UInt8)) (key : List UInt8)
    : List UInt8 → List (List UInt8) → Prop
  | _, [] => True
  | cur, s :: rest =>
      s ≠ []
      → Stores room (before (chr '\n') s)
        ∧ match outcome section_ key cur (before (chr '\n') s) with
          | .next cur => Storable room section_ key cur rest
          | _ => True

instance Storable.decidable (room : Nat) (section_ : Option (List UInt8)) (key : List UInt8)
    : (cur : List UInt8) → (strings : List (List UInt8))
      → Decidable (Storable room section_ key cur strings)
  | _, [] => isTrue trivial
  | cur, s :: rest => by
      have later (cur : List UInt8) : Decidable (Storable room section_ key cur rest) :=
        Storable.decidable room section_ key cur rest
      unfold Storable
      cases outcome section_ key cur (before (chr '\n') s) <;> infer_instance

variable {strings : List (List UInt8)}

theorem Storable.ends
    (ends : s ≠ []
      → Stores room (before (chr '\n') s)
        ∧ ∀ cur', outcome section_ key cur (before (chr '\n') s) ≠ .next cur')
    : Storable room section_ key cur (s :: strings) := by
  intro nonempty
  obtain ⟨stores, last⟩ := ends nonempty
  refine ⟨stores, ?_⟩
  split
  · rename_i cur' meant
    exact absurd meant (last cur')
  · trivial

theorem storable_next {cur' : List UInt8} (nonempty : s ≠ [])
    (stores : Stores room (before (chr '\n') s))
    (meant : outcome section_ key cur (before (chr '\n') s) = .next cur')
    : Storable room section_ key cur (s :: strings)
      ↔ Storable room section_ key cur' strings := by
  rw [Storable, meant]
  exact ⟨fun storable => (storable nonempty).2, fun storable _ => ⟨stores, storable⟩⟩

/-- With room for whole strings, every name can be stored. -/
theorem Storable.of_length (short : ∀ s ∈ strings, s.length ≤ room)
    : Storable room section_ key cur strings := by
  induction strings generalizing cur with
  | nil => trivial
  | cons s strings ih =>
      obtain ⟨here, later⟩ := List.forall_mem_cons.mp short
      intro _
      refine ⟨stores_of_length (Nat.le_trans before_leads.length_le here), ?_⟩
      split
      · exact ih later
      · trivial

-----------------------------------------------------------------------------------------
-- The file
-----------------------------------------------------------------------------------------

/-- The strings that so many calls of `fgets` leave in the line buffer. -/
def readStrings : Nat → List UInt8 → List (List UInt8)
  | 0, _ => []
  | turns + 1, file =>
      if readLine 255 file = [] then
        []
      else
        before 0 (readLine 255 file)
          :: readStrings turns (file.drop (readLine 255 file).length)

theorem readLine_length {n : Nat} {file : List UInt8} : (readLine n file).length ≤ n := by
  induction n generalizing file with
  | zero => simp [readLine]
  | succ n ih =>
      cases file with
      | nil => simp [readLine]
      | cons b file =>
          rw [readLine]
          split
          · simp
          · exact Nat.succ_le_succ ih

theorem readStrings_length {turns : Nat} {file : List UInt8}
    : ∀ s ∈ readStrings turns file, s.length ≤ 255 := by
  induction turns generalizing file with
  | zero => simp [readStrings]
  | succ turns ih =>
      rw [readStrings]
      split
      · simp
      · exact List.forall_mem_cons.mpr
          ⟨Nat.le_trans before_leads.length_le readLine_length, ih⟩

/-- `fgets` on a file of any bytes. -/
theorem fgets_string {file : List UInt8} (size : line.length = 256)
    (more : readLine 255 file ≠ [])
    : ∃ line',
        fgets line 256 file = some (some (line', file.drop (readLine 255 file).length))
        ∧ line'.length = 256
        ∧ Holds line' 0 (before 0 (readLine 255 file)) := by
  have short : (readLine 255 file).length ≤ 255 := readLine_length
  have length : (readLine 255 file ++ [0]).length ≤ line.length := by
    rw [List.length_append, List.length_singleton, size]
    omega
  refine ⟨readLine 255 file ++ [0] ++ line.drop (readLine 255 file ++ [0]).length, ?_, ?_,
    not_mem_before, ?_⟩
  · simp only [fgets, Nat.add_one_sub_one, if_neg more, fill, if_pos length, Option.map_some]
  · rw [List.length_append, List.length_drop, ← size]
    omega
  · rw [List.drop_zero]
    rcases Decidable.em (0 ∈ readLine 255 file) with member | absent
    · obtain ⟨t, split⟩ := before_split member
      generalize line.drop (readLine 255 file ++ [0]).length = rest
      refine ⟨t ++ [0] ++ rest, ?_⟩
      conv_lhs => rw [split]
      simp
    · rw [before_absent absent, List.append_assoc]
      exact ⟨_, rfl⟩

/-- The lookup in a file stays inside its buffers if and only if `_sec` can store the names. -/
theorem getLoop_inside (value : Mem) {turns : Nat} {file : List UInt8}
    (enough : file.length < turns) (size : line.length = 256) (secSize : _sec.length = room)
    (current : Holds _sec 0 cur)
    : getLoop section_ key turns line _sec file value ≠ none
      ↔ Storable room section_ key cur (readStrings turns file) := by
  induction turns generalizing line _sec file cur value with
  | zero => cases enough
  | succ turns ih =>
      rcases eq_or_ne (readLine 255 file) [] with empty | more
      · simp [getLoop, fgets, readStrings, empty, Storable]
      · obtain ⟨line', got, size', holds⟩ := fgets_string size more
        simp only [getLoop, got, readStrings, if_neg more, Option.bind_eq_bind, Option.bind_some]
        rcases _getValue_cases section_ key value holds secSize current with
          ⟨parsed, read, stops, ends⟩ | ⟨overrun, nonempty, large⟩
          | ⟨parsed, cur', read, goes, length, secLength, current', nonempty, stores, meant⟩
        · simp only [read, Option.bind_some]
          refine iff_of_true ?_ (Storable.ends ends)
          cases ret : parsed.ret with
          | found | fail => simp
          | none => exact absurd ret stops
        · simp only [overrun, Option.bind_none]
          exact iff_of_false (fun differ => differ rfl) fun storable => large (storable nonempty).1
        · simp only [read, goes, Option.bind_some]
          rw [storable_next nonempty stores meant]
          refine ih parsed.value ?_ (length.trans size') secLength current'
          have nonempty : file ≠ [] := by
            rintro rfl
            exact more rfl
          have positive := List.length_pos_of_ne_nil more
          have positive' := List.length_pos_of_ne_nil nonempty
          rw [List.length_drop]
          omega

-----------------------------------------------------------------------------------------
-- The text
-----------------------------------------------------------------------------------------

variable {cfgTxt : Buffer} {txt : Nat} {text : List UInt8}

theorem first_line {l : List UInt8} {lines : List (List UInt8)}
    (split : text.splitOn (chr '\n') = l :: lines)
    : before (chr '\n') text = l := by
  rcases text_cases text with ⟨apart, single⟩ | ⟨l', rest, rfl, apart, split'⟩
  · rw [before_absent apart]
    exact (List.cons.inj (single.symm.trans split)).1
  · rw [before_append apart]
    exact (List.cons.inj (split'.symm.trans split)).1

/-- `cl_txt_pos_line` delivers the first line of a text when it fits, and leads to the next. -/
theorem clTxtPosLine_first (size : line.length = 256) (holds : Holds cfgTxt txt text)
    {l : List UInt8} {lines : List (List UInt8)}
    (split : text.splitOn (chr '\n') = l :: lines) (short : l.length ≤ 255)
    : ∃ off line' s,
        clTxtPosLine line 256 cfgTxt txt = some (off, line')
        ∧ off ≠ -1
        ∧ line'.length = 256
        ∧ Holds line' 0 s
        ∧ before (chr '\n') s = s
        ∧ s.length ≤ 255
        ∧ delivered (l :: lines) = s :: delivered lines
        ∧ (off = 0 ∧ lines = []
          ∨ ∃ rest,
              off ≠ 0
              ∧ s = chomp l
              ∧ lines = rest.splitOn (chr '\n')
              ∧ Holds cfgTxt (txt + off.toNat) rest
              ∧ rest.length < text.length) := by
  have room : l.length < line.length := by
    rw [size]
    exact Nat.lt_succ_of_le short
  rcases text_cases text with ⟨apart, single⟩ | ⟨l', rest, rfl, apart, split'⟩
  · obtain ⟨rfl, rfl⟩ := List.cons.inj (single.symm.trans split)
    obtain ⟨line', got, length, holds'⟩ :=
      clTxtPosLine_last (show 1 ≤ 256 by decide) holds apart room
        (Nat.le_trans short (by decide))
    exact ⟨0, line', text, got, by decide, length.trans size, holds', before_absent apart, short,
      rfl, Or.inl ⟨rfl, rfl⟩⟩
  · obtain ⟨rfl, rfl⟩ := List.cons.inj (split'.symm.trans split)
    obtain ⟨line', got, length, holds'⟩ :=
      clTxtPosLine_newline (show 1 ≤ 256 by decide) holds apart room
        (Nat.lt_of_le_of_lt short (by decide))
    refine ⟨_, line', chomp l', got, by omega, length.trans size, holds',
      before_absent fun member => apart (chomp_subset member),
      Nat.le_trans chomp_front.length_le short, delivered_cons (List.splitOn_ne_nil _ _),
      Or.inr ⟨rest, by omega, rfl, rfl, holds_rest holds, ?_⟩⟩
    rw [List.length_append, List.length_cons]
    omega

theorem delivered_short {lines : List (List UInt8)} (short : ∀ l ∈ lines, l.length ≤ 255)
    : ∀ l ∈ delivered lines, l.length ≤ 255 := by
  induction lines with
  | nil => exact short
  | cons l lines ih =>
      cases lines with
      | nil => exact short
      | cons next rest =>
          obtain ⟨here, later⟩ := List.forall_mem_cons.mp short
          exact List.forall_mem_cons.mpr
            ⟨Nat.le_trans chomp_front.length_le here, ih later⟩

/-- The lookup in a text of short lines stays inside its buffers if and only if `_sec` can store
the names.
-/
theorem getLoop2_inside (value : Mem) {turns : Nat} (enough : text.length < turns)
    (size : line.length = 256) (secSize : _sec.length = room) (current : Holds _sec 0 cur)
    (holds : Holds cfgTxt txt text) (short : ∀ l ∈ text.splitOn (chr '\n'), l.length ≤ 255)
    : getLoop2 section_ key cfgTxt turns line _sec txt value ≠ none
      ↔ Storable room section_ key cur (delivered (text.splitOn (chr '\n'))) := by
  induction turns generalizing line _sec txt text cur value with
  | zero => cases enough
  | succ turns ih =>
      obtain ⟨l, lines, split⟩ :=
        List.exists_cons_of_ne_nil (List.splitOn_ne_nil (chr '\n') text)
      rw [split] at short ⊢
      obtain ⟨here, later⟩ := List.forall_mem_cons.mp short
      obtain ⟨off, line', s, got, able, size', holds', apart, _, delivers, onward⟩ :=
        clTxtPosLine_first size holds split here
      rw [delivers]
      simp only [getLoop2, got, if_neg able, Option.bind_eq_bind, Option.bind_some]
      rcases _getValue_cases section_ key value holds' secSize current with
        ⟨parsed, read, stops, ends⟩ | ⟨overrun, nonempty, large⟩
        | ⟨parsed, cur', read, goes, length, secLength, current', nonempty, stores, meant⟩
      · simp only [read, Option.bind_some]
        refine iff_of_true ?_ (Storable.ends ends)
        cases ret : parsed.ret with
        | found | fail => simp
        | none => exact absurd ret stops
      · simp only [overrun, Option.bind_none]
        exact iff_of_false (fun differ => differ rfl) fun storable => large (storable nonempty).1
      · simp only [read, goes, Option.bind_some]
        rw [storable_next nonempty stores meant]
        rcases onward with ⟨last, rfl⟩ | ⟨rest, further, _, rfl, holds, shorter⟩
        · rw [if_pos last]
          exact iff_of_true (by simp) trivial
        · rw [if_neg further]
          exact ih parsed.value (by omega) (length.trans size') secLength current' holds later

section

variable {ν : Type*} (fopen : ν → Option (List UInt8)) (fn : ν)

/-- `cl_ini_get` stays inside its buffers if and only if `_sec` can store the names. -/
theorem clIniGet_inside {file : List UInt8} (value : Mem) (opened : fopen fn = some file)
    (size : line.length = 256) (within : lensExceed section_ key = false)
    : clIniGet fopen line (some fn) section_ (some key) (some value) ≠ none
      ↔ Storable 64 section_ key [] (readStrings (file.length + 1) file) := by
  rw [← getLoop_inside value (Nat.lt_succ_self _) size List.length_replicate blank_holds]
  simp only [clIniGet, within, Bool.false_eq_true, if_false, opened, ne_eq,
    Option.map_eq_none_iff]

/-- `cl_ini_get2` does so on a text of short lines. -/
theorem clIniGet2_inside (value : Mem) (holds : Holds cfgTxt 0 text)
    (short : ∀ l ∈ text.splitOn (chr '\n'), l.length ≤ 255) (size : line.length = 256)
    (within : lensExceed section_ key = false)
    : clIniGet2 line (some cfgTxt) section_ (some key) (some value) ≠ none
      ↔ (1 ≤ text.length
        → text.length ≤ 1048576
        → Storable 64 section_ key [] (delivered (text.splitOn (chr '\n')))) := by
  rw [← getLoop2_inside value (Nat.lt_succ_self _) size List.length_replicate blank_holds holds
    short]
  simp only [clIniGet2, within, Bool.false_eq_true, if_false, holds.strlen, Option.bind_eq_bind,
    Option.bind_some]
  split
  · rename_i rejected
    exact iff_of_true (by simp) fun _ _ => by omega
  · rename_i accepted
    rw [ne_eq, Option.map_eq_none_iff]
    exact ⟨fun inside _ _ => inside, fun inside => inside (by omega) (by omega)⟩

/-- What the lookups of a key of a section access stays inside the line buffer, for every file and
for every text of lines that fit into it: with a larger `_sec` there is no access outside. With the
64 bytes of `_sec` there is none if and only if the section names are shorter.
-/
theorem lookups_inside (value : Mem) (size : line.length = 256)
    (within : lensExceed section_ key = false)
    : (∀ file,
          fopen fn = some file
          → getLoop section_ key (file.length + 1) line (List.replicate 256 0) file value ≠ none
            ∧ (clIniGet fopen line (some fn) section_ (some key) (some value) ≠ none
              ↔ Storable 64 section_ key [] (readStrings (file.length + 1) file)))
      ∧ ∀ cfgTxt text,
          Holds cfgTxt 0 text
          → (∀ l ∈ text.splitOn (chr '\n'), l.length ≤ 255)
          → getLoop2 section_ key cfgTxt (text.length + 1) line (List.replicate 256 0) 0 value
              ≠ none
            ∧ (clIniGet2 line (some cfgTxt) section_ (some key) (some value) ≠ none
              ↔ (1 ≤ text.length
                → text.length ≤ 1048576
                → Storable 64 section_ key [] (delivered (text.splitOn (chr '\n'))))) := by
  refine ⟨fun file opened => ⟨?_, clIniGet_inside fopen fn value opened size within⟩,
    fun cfgTxt text holds short => ⟨?_, clIniGet2_inside value holds short size within⟩⟩
  · rw [getLoop_inside value (Nat.lt_succ_self _) size List.length_replicate blank_holds]
    exact Storable.of_length fun s member => Nat.le_succ_of_le (readStrings_length s member)
  · rw [getLoop2_inside value (Nat.lt_succ_self _) size List.length_replicate blank_holds holds
      short]
    exact Storable.of_length fun s member => Nat.le_succ_of_le (delivered_short short s member)

end

/-- A section of 63 bytes is looked up in a file. -/
theorem lookups_inside_short
    : clIniGet (fun _ : Unit => some (chr '[' :: List.replicate 63 (chr 'a') ++ [chr ']']))
        (List.replicate 256 1) (some ()) (some (List.replicate 63 (chr 'a'))) (some [chr 'k'])
        (some fun _ => 0)
      ≠ none :=
  ((lookups_inside (fun _ : Unit => some _) () _ List.length_replicate (by decide)).1 _ rfl).2.mpr
    (by decide)

/-- A line that names a section with as many bytes as the lookups admit. -/
def longHeader : List UInt8 := chr '[' :: List.replicate 64 (chr 'a') ++ [chr ']']

/-- That name overruns `_sec`. -/
theorem lookups_inside_long
    : lensExceed (some (List.replicate 64 (chr 'a'))) [chr 'k'] = false
      ∧ clIniGet (fun _ : Unit => some longHeader) (List.replicate 256 1) (some ())
          (some (List.replicate 64 (chr 'a'))) (some [chr 'k']) (some fun _ => 0)
        = none
      ∧ clIniGet2 (List.replicate 256 1) (some (longHeader ++ [0]))
          (some (List.replicate 64 (chr 'a'))) (some [chr 'k']) (some fun _ => 0)
        = none := by
  refine ⟨by decide, not_not.mp fun inside => ?_, not_not.mp fun inside => ?_⟩
  · have storable :=
      (clIniGet_inside (fun _ : Unit => some longHeader) () (fun _ => 0) rfl
        List.length_replicate (by decide)).mp inside
    exact absurd storable (by decide)
  · have holds : Holds (longHeader ++ [0]) 0 longHeader := ⟨by decide, [], rfl⟩
    have storable :=
      (clIniGet2_inside (fun _ => 0) holds (by decide) List.length_replicate (by decide)).mp
        inside (by decide) (by decide)
    exact absurd storable (by decide)

-----------------------------------------------------------------------------------------
-- The line buffer
-----------------------------------------------------------------------------------------

/-- The variables of the loop in `cl_ini_get2`, and the memory behind `value`. -/
structure Scan where
  line : Buffer
  sec : Buffer
  txt : Nat
  value : Mem

/-- A turn of the loop in `cl_ini_get2`, when another one follows. -/
def turn2 (section_ : Option (List UInt8)) (key : List UInt8) (cfgTxt : Buffer) (s : Scan)
    : Option Scan := do
  let (off, line) ← clTxtPosLine s.line 256 cfgTxt s.txt
  if off = -1 then
    none
  else
    let parsed ← _getValue line section_ s.sec key s.value
    if parsed.ret = .none ∧ off ≠ 0 then
      return ⟨parsed.line, parsed.sec, s.txt + off.toNat, parsed.value⟩
    else
      none

/-- Another turn follows when the line has decided nothing and is not the last one. -/
theorem turn2_eq_some_iff {s t : Scan} {off : Int} {line' : Buffer}
    (got : clTxtPosLine s.line 256 cfgTxt s.txt = some (off, line')) (able : off ≠ -1)
    : turn2 section_ key cfgTxt s = some t
      ↔ ∃ parsed,
          _getValue line' section_ s.sec key s.value = some parsed
          ∧ (parsed.ret = .none ∧ off ≠ 0)
          ∧ t = ⟨parsed.line, parsed.sec, s.txt + off.toNat, parsed.value⟩ := by
  simp only [turn2, got, Option.bind_eq_bind, Option.bind_some, if_neg able,
    Option.bind_eq_some_iff, Option.ite_none_right_eq_some, Option.pure_def, Option.some.injEq]
  exact exists_congr fun parsed => and_congr_right' (and_congr_right' eq_comm)

/-- The loop takes such turns, and one more. -/
theorem getLoop2_succ {turns : Nat} {s : Scan}
    : getLoop2 section_ key cfgTxt (turns + 1) s.line s.sec s.txt s.value
      = (turn2 section_ key cfgTxt s).elim
          (getLoop2 section_ key cfgTxt 1 s.line s.sec s.txt s.value)
          fun t => getLoop2 section_ key cfgTxt turns t.line t.sec t.txt t.value := by
  rw [getLoop2, getLoop2, turn2]
  cases clTxtPosLine s.line 256 cfgTxt s.txt with
  | none => rfl
  | some got =>
      obtain ⟨off, line⟩ := got
      simp only [Option.bind_eq_bind, Option.bind_some]
      by_cases able : off = -1
      · simp only [if_pos able]
        rfl
      · simp only [if_neg able]
        cases read : _getValue line section_ s.sec key s.value with
        | none => rfl
        | some parsed =>
            simp only [Option.bind_some]
            cases ret : parsed.ret with
            | found | fail => simp
            | none =>
                by_cases last : off = 0
                · simp [last]
                · simp [last]

/-- A turn accesses the line buffer inside its bounds: `cl_txt_pos_line` does, and then
`_get_value`, when only `_sec` has room for the name.
-/
def Scan.Inside (section_ : Option (List UInt8)) (key : List UInt8) (cfgTxt : Buffer) (s : Scan)
    : Prop :=
  Bounded s.line 256 cfgTxt s.txt
  ∧ ∀ off line _sec cur,
      clTxtPosLine s.line 256 cfgTxt s.txt = some (off, line)
      → 256 ≤ _sec.length
      → Holds _sec 0 cur
      → _getValue line section_ _sec key s.value ≠ none

/-- Every line fits into the line buffer, up to the one at which `cl_ini_get2` ends. -/
def Sized (section_ : Option (List UInt8)) (key : List UInt8)
    : List UInt8 → List (List UInt8) → Prop
  | _, [] => True
  | cur, line :: rest =>
      line.length ≤ 255
      ∧ (rest ≠ []
        → chomp line ≠ []
        → Short (chomp line)
        → match outcome section_ key cur (chomp line) with
          | .next cur => Sized section_ key cur rest
          | _ => True)

instance Sized.decidable (section_ : Option (List UInt8)) (key : List UInt8)
    : (cur : List UInt8) → (lines : List (List UInt8)) → Decidable (Sized section_ key cur lines)
  | _, [] => isTrue trivial
  | cur, line :: rest => by
      have later (cur : List UInt8) : Decidable (Sized section_ key cur rest) :=
        Sized.decidable section_ key cur rest
      unfold Sized
      cases outcome section_ key cur (chomp line) <;> infer_instance

/-- A turn stays inside the line buffer if and only if the line fits. -/
theorem Scan.inside_iff {s : Scan} {l : List UInt8} {lines : List (List UInt8)}
    (size : s.line.length = 256) (holds : Holds cfgTxt s.txt text)
    (split : text.splitOn (chr '\n') = l :: lines) (few : text.length ≤ 1048576)
    : s.Inside section_ key cfgTxt ↔ l.length ≤ 255 := by
  have first : before (chr '\n') text = l := first_line split
  have fewer : l.length ≤ 1048576 :=
    Nat.le_trans (first ▸ before_leads.length_le) few
  have fits : LineFits 256 text ↔ l.length ≤ 255 := by
    rw [LineFits, first, intMax]
    split <;> omega
  rw [← fits, ← line_bounded size (by decide) holds]
  refine ⟨And.left, fun bounded => ⟨bounded, fun off line _sec cur got room current => ?_⟩⟩
  have short := fits.mp ((line_bounded size (by decide) holds).mp bounded)
  obtain ⟨off', line', s', got', _, _, holds', _, short', _⟩ :=
    clTxtPosLine_first size holds split short
  obtain ⟨rfl, rfl⟩ := Prod.mk.inj (Option.some.inj (got'.symm.trans got))
  have stores : Stores _sec.length (before (chr '\n') s') :=
    stores_of_length
      (Nat.le_trans before_leads.length_le (Nat.le_trans (Nat.le_succ_of_le short') room))
  rcases _getValue_cases section_ key s.value holds' rfl current with
    ⟨parsed, read, _⟩ | ⟨_, _, large⟩ | ⟨parsed, _, read, _⟩
  · rw [read]
    exact Option.some_ne_none _
  · exact absurd stores large
  · rw [read]
    exact Option.some_ne_none _

/-- The turns of `cl_ini_get2` stay inside the line buffer if and only if the lines fit. -/
theorem turns_inside {s : Scan} (size : s.line.length = 256) (secSize : s.sec.length = 64)
    (current : Holds s.sec 0 cur) (holds : Holds cfgTxt s.txt text)
    (few : text.length ≤ 1048576)
    : (∀ t,
          Transition.Repeats (fun s (_ : Unit) => turn2 section_ key cfgTxt s) () s t
          → t.Inside section_ key cfgTxt)
      ↔ Sized section_ key cur (text.splitOn (chr '\n')) := by
  generalize count : text.length = n
  induction n using Nat.strongRecOn generalizing s cur text with
  | _ n ih =>
      obtain ⟨l, lines, split⟩ :=
        List.exists_cons_of_ne_nil (List.splitOn_ne_nil (chr '\n') text)
      rw [Transition.Repeats.forall_iff, Scan.inside_iff size holds split few, split, Sized]
      refine and_congr_right fun short => ?_
      obtain ⟨off, line', s', got, able, size', holds', apart, _, _, onward⟩ :=
        clTxtPosLine_first size holds split short
      rcases onward with ⟨last, rfl⟩ | ⟨rest, further, rfl, rfl, holds, shorter⟩
      · refine iff_of_true (fun t turn => ?_) fun more => absurd rfl more
        obtain ⟨_, _, ⟨_, further⟩, _⟩ := (turn2_eq_some_iff got able).mp turn
        exact absurd last further
      · have parsing :=
          _getValue_cases section_ key s.value holds' secSize current
        rw [apart] at parsing
        rcases parsing with ⟨parsed, read, stops, ends⟩ | ⟨overrun, nonempty, large⟩
          | ⟨parsed, cur', read, goes, length, secLength, current', nonempty, stores, meant⟩
        · refine iff_of_true (fun t turn => ?_) fun _ nonempty _ => ?_
          · obtain ⟨parsed', read', ⟨goes, _⟩, _⟩ := (turn2_eq_some_iff got able).mp turn
            obtain rfl := Option.some.inj (read.symm.trans read')
            exact absurd goes stops
          · split
            · rename_i cur' meant
              exact absurd meant ((ends nonempty).2 cur')
            · trivial
        · refine iff_of_true (fun t turn => ?_) fun _ _ stores => absurd stores large
          obtain ⟨parsed', read', _⟩ := (turn2_eq_some_iff got able).mp turn
          cases overrun.symm.trans read'
        · have onward :=
            ih rest.length (count ▸ shorter) (s := ⟨parsed.line, parsed.sec, _, parsed.value⟩)
              (length.trans size') secLength current' holds (by omega) rfl
          rw [meant]
          constructor
          · intro inside _ _ _
            refine onward.mp (inside _ ?_)
            exact (turn2_eq_some_iff got able).mpr ⟨parsed, read, ⟨goes, further⟩, rfl⟩
          · intro fits t turn
            obtain ⟨parsed', read', _, rfl⟩ := (turn2_eq_some_iff got able).mp turn
            obtain rfl := Option.some.inj (read.symm.trans read')
            exact onward.mpr (fits (List.splitOn_ne_nil _ _) nonempty stores)

/-- `cl_txt_pos_line` stays inside a destination of `max` bytes if and only if the line fits, and
all turns of `cl_ini_get2` on a text it accepts inside the line buffer if and only if the lines do.
-/
theorem lines_inside {dst src cfgTxt line : Buffer} {max pos : Nat} {text lines : List UInt8}
    (size : dst.length = max) (positive : 1 ≤ max) (holds : Holds src pos text)
    (section_ : Option (List UInt8)) (key : List UInt8) (value : Mem)
    (read : Holds cfgTxt 0 lines) (few : lines.length ≤ 1048576) (room : line.length = 256)
    : (Bounded dst max src pos ↔ LineFits max text)
      ∧ ((∀ s,
            Transition.Repeats (fun s (_ : Unit) => turn2 section_ key cfgTxt s) ()
              ⟨line, List.replicate 64 0, 0, value⟩ s
            → s.Inside section_ key cfgTxt)
        ↔ Sized section_ key [] (lines.splitOn (chr '\n'))) :=
  ⟨line_bounded size positive holds,
    turns_inside room List.length_replicate blank_holds read few⟩

/-- A line of two bytes into three, and a lookup in a text of two lines. -/
theorem lines_inside_short
    : Bounded (List.replicate 3 1) 3 [chr 'a', chr 'b', 0] 0
      ∧ ∀ s,
          Transition.Repeats (fun s (_ : Unit) => turn2 none [chr 'k'] (plainLine ++ [0]) s) ()
            ⟨List.replicate 256 1, List.replicate 64 0, 0, fun _ => 0⟩ s
          → s.Inside none [chr 'k'] (plainLine ++ [0]) := by
  have text : Holds [chr 'a', chr 'b', 0] 0 [chr 'a', chr 'b'] := ⟨by decide, [], rfl⟩
  have lines : Holds (plainLine ++ [0]) 0 plainLine := ⟨by decide, [], rfl⟩
  have inside :=
    lines_inside (List.length_replicate : (List.replicate 3 (1 : UInt8)).length = 3) (by decide)
      text none [chr 'k'] (fun _ => 0) lines (by decide)
      (List.length_replicate : (List.replicate 256 (1 : UInt8)).length = 256)
  exact ⟨inside.1.mpr (by decide), inside.2.mpr (by decide)⟩

/-- A line of four bytes overruns a destination of four, and one of 256 the line buffer. -/
theorem lines_inside_long
    : ¬Bounded (List.replicate 4 1) 4 (List.replicate 4 (chr 'a') ++ [0]) 0
      ∧ ¬(Scan.mk (List.replicate 256 1) (List.replicate 64 0) 0 fun _ => 0).Inside none [chr 'k']
          (List.replicate 256 (chr 'a') ++ [0]) := by
  have visible {n : Nat} {c : UInt8} (other : c ≠ chr 'a') : c ∉ List.replicate n (chr 'a') :=
    fun member => other (List.eq_of_mem_replicate member)
  have holds {n : Nat}
      : Holds (List.replicate n (chr 'a') ++ [0]) 0 (List.replicate n (chr 'a')) :=
    ⟨visible (by decide), [], rfl⟩
  constructor
  · exact fun bounded =>
      absurd ((line_bounded List.length_replicate (by decide) holds).mp bounded) (by decide)
  · have apart : chr '\n' ∉ List.replicate 256 (chr 'a') := visible (by decide)
    rw [Scan.inside_iff List.length_replicate holds (List.splitOn_eq_singleton apart)
      (by rw [List.length_replicate]; decide), List.length_replicate]
    decide

end Libccll.Ini
