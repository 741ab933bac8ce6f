import Libccll.Config.Lines
import Libccll.Config.Lookup

/-! When the two lookups agree.
`fgets` and `cl_txt_pos_line` cut a text into lines differently: only the latter drops a CR in
front of the newline, and only the former shows `_get_value` an empty line.
-/

namespace Libccll.Ini

open Foundation.CString Txt

-----------------------------------------------------------------------------------------
-- Lines of a text
-----------------------------------------------------------------------------------------

variable {line : Buffer} {s rest : List UInt8}

/-- `fgets` reads through the newline when there is room. -/
theorem readLine_newline {room : Nat} (apart : chr '\n' ∉ s) (shorter : s.length < room)
    : readLine room (s ++ chr '\n' :: rest) = s ++ [chr '\n'] := by
  induction s generalizing room with
  | nil =>
      cases room with
      | zero => cases shorter
      | succ room => simp [readLine]
  | cons b s ih =>
      obtain ⟨other, apart⟩ := not_or.mp (List.mem_cons.not.mp apart)
      cases room with
      | zero => cases shorter
      | succ room =>
          rw [List.cons_append, readLine, if_neg (Ne.symm other),
            ih apart (Nat.lt_of_succ_lt_succ shorter), List.cons_append]

/-- `fgets` stops when the room is used up, or the file. -/
theorem readLine_full {room : Nat} (apart : chr '\n' ∉ s) (within : s.length ≤ room)
    (stops : s.length = room ∨ rest = [])
    : readLine room (s ++ rest) = s := by
  induction s generalizing room with
  | nil =>
      rcases stops with rfl | rfl
      · rfl
      · cases room <;> rfl
  | cons b s ih =>
      obtain ⟨other, apart⟩ := not_or.mp (List.mem_cons.not.mp apart)
      cases room with
      | zero => cases within
      | succ room =>
          rw [List.cons_append, readLine, if_neg (Ne.symm other),
            ih apart (Nat.le_of_succ_le_succ within) (stops.imp_left Nat.succ.inj)]

/-- `fgets` with something read. -/
theorem fgets_eq {text : List UInt8} (size : line.length = 256) (read : readLine 255 text = s)
    (nonempty : s ≠ []) (nonzero : 0 ∉ s) (short : s.length ≤ 255)
    : ∃ line',
        fgets line 256 text = some (some (line', text.drop s.length))
        ∧ line'.length = 256
        ∧ Holds line' 0 s := by
  obtain ⟨line', filled, length, holds⟩ :=
    fill_terminated line nonzero (by rw [size]; exact Nat.lt_succ_of_le short)
  refine ⟨line', ?_, length.trans size, holds⟩
  simp only [fgets, Nat.add_one_sub_one, read, if_neg nonempty, filled, Option.map_some]

/-- `fgets` reads the first line of a text, and at most leaves its newline, which reads as one
more empty line.
-/
theorem fgets_line {text : List UInt8} (size : line.length = 256) (nonzero : 0 ∉ text)
    (nonempty : text ≠ []) {first : List UInt8} {tail : List (List UInt8)}
    (lines : text.splitOn (chr '\n') = first :: tail) (short : first.length ≤ 255)
    : ∃ s rest line',
        fgets line 256 text = some (some (line', rest))
        ∧ line'.length = 256
        ∧ Holds line' 0 s
        ∧ s ≠ []
        ∧ before (chr '\n') s = first
        ∧ 0 ∉ rest
        ∧ rest.length < text.length
        ∧ (rest.splitOn (chr '\n') = tail ∨ rest.splitOn (chr '\n') = [] :: tail) := by
  rcases text_cases text with ⟨apart, single⟩ | ⟨l, rest, rfl, apart, split⟩
  · obtain ⟨rfl, rfl⟩ := List.cons.inj (single.symm.trans lines)
    have read : readLine 255 (text ++ []) = text := readLine_full apart short (Or.inr rfl)
    rw [List.append_nil] at read
    obtain ⟨line', got, length, holds⟩ := fgets_eq size read nonempty nonzero short
    rw [List.drop_length] at got
    exact ⟨text, [], line', got, length, holds, nonempty, before_absent apart, nofun,
      List.length_pos_of_ne_nil nonempty, Or.inr (List.splitOn_nil _)⟩
  · obtain ⟨rfl, rfl⟩ := List.cons.inj (split.symm.trans lines)
    rw [List.mem_append, List.mem_cons, not_or, not_or] at nonzero
    obtain ⟨nonzero, _, nonzero'⟩ := nonzero
    rcases Nat.lt_or_eq_of_le short with room | full
    · have read : readLine 255 (l ++ chr '\n' :: rest) = l ++ [chr '\n'] :=
        readLine_newline apart room
      have nonzero'' : 0 ∉ l ++ [chr '\n'] := by
        simp [nonzero]
        decide
      obtain ⟨line', got, length, holds⟩ :=
        fgets_eq size read (by simp) nonzero'' (by rwa [List.length_append])
      rw [show (l ++ chr '\n' :: rest).drop (l ++ [chr '\n']).length = rest by simp] at got
      refine ⟨_, rest, line', got, length, holds, by simp, before_append apart, nonzero', ?_,
        Or.inl rfl⟩
      rw [List.length_append, List.length_cons]
      omega
    · have read : readLine 255 (l ++ chr '\n' :: rest) = l :=
        readLine_full apart short (Or.inl full)
      have nonempty' : l ≠ [] := by
        rintro rfl
        cases full
      obtain ⟨line', got, length, holds⟩ := fgets_eq size read nonempty' nonzero short
      rw [List.drop_left] at got
      refine ⟨l, _, line', got, length, holds, nonempty', before_absent apart, ?_, ?_, Or.inr ?_⟩
      · exact List.not_mem_cons_of_ne_of_not_mem (by decide) nonzero'
      · simp [full]
      · exact List.splitOn_append_cons_self [] rest

-----------------------------------------------------------------------------------------
-- The file
-----------------------------------------------------------------------------------------

variable {section_ : Option (List UInt8)} {key cur : List UInt8}

theorem search_nil_cons {lines : List (List UInt8)}
    : search section_ key cur ([] :: lines) = search section_ key cur lines :=
  rfl

theorem Fitting.nil_cons {lines : List (List UInt8)} (fitting : Fitting section_ key cur lines)
    : Fitting section_ key cur ([] :: lines) :=
  ⟨⟨Nat.zero_le _, nofun⟩, fitting⟩

/-- Lines that all fit do so up to the one at which the lookup ends. -/
theorem Fitting.of_forall {lines : List (List UInt8)} (fits : ∀ l ∈ lines, Fits l)
    : Fitting section_ key cur lines := by
  induction lines generalizing cur with
  | nil => trivial
  | cons l lines ih =>
      obtain ⟨here, later⟩ := List.forall_mem_cons.mp fits
      refine ⟨here, ?_⟩
      split
      · exact ih later
      · trivial

/-- While its lines fit, the lookup in a file is the search of its lines. -/
theorem getLoop_eq (value : Mem) {turns : Nat} {_sec : Buffer} {text : List UInt8}
    (enough : text.length < turns) (size : line.length = 256) (secSize : _sec.length = 64)
    (current : Holds _sec 0 cur) (nonzero : 0 ∉ text)
    (fitting : Fitting section_ key cur (text.splitOn (chr '\n')))
    : getLoop section_ key turns line _sec text value
      = some (answer value (search section_ key cur (text.splitOn (chr '\n')))) := by
  induction turns generalizing line _sec text cur with
  | zero => cases enough
  | succ turns ih =>
      rcases eq_or_ne text [] with rfl | nonempty
      · simp [getLoop, fgets, readLine, search, answer, outcome, entry]
      · obtain ⟨first, tail, lines⟩ :=
          List.exists_cons_of_ne_nil (List.splitOn_ne_nil (chr '\n') text)
        rw [lines] at fitting ⊢
        obtain ⟨⟨short, fits⟩, after⟩ := fitting
        obtain ⟨s, rest, line', got, size', holds, nonempty', rfl, nonzero', shorter, tails⟩ :=
          fgets_line size nonzero nonempty lines short
        obtain ⟨parsed, read, length, secLength, answers⟩ :=
          _getValue_eq section_ key value holds nonempty' secSize current fits
        simp only [getLoop, got, read, Option.bind_eq_bind, Option.bind_some, search]
        cases meant : outcome section_ key cur (before (chr '\n') s) with
        | found v =>
            rw [meant] at answers
            rw [answers.1, answers.2]
            rfl
        | fail =>
            rw [meant] at answers
            rw [answers.1, answers.2]
            rfl
        | next cur' =>
            rw [meant] at answers after
            obtain ⟨ret, same, current'⟩ := answers
            rw [ret, same]
            have continues (lines' : Fitting section_ key cur' (rest.splitOn (chr '\n')))
                : getLoop section_ key turns parsed.line parsed.sec rest value
                  = some (answer value (search section_ key cur' (rest.splitOn (chr '\n')))) :=
              ih (by omega) (length.trans size') secLength current' nonzero' lines'
            rcases tails with same | blank
            · rw [same] at continues
              exact continues after
            · rw [blank, search_nil_cons] at continues
              exact continues after.nil_cons

-----------------------------------------------------------------------------------------
-- The text
-----------------------------------------------------------------------------------------

/-- The value that `cl_ini_get2` finds on some lines: only the last one may be empty. -/
def search2 (section_ : Option (List UInt8)) (key : List UInt8)
    : List UInt8 → List (List UInt8) → Option (List UInt8)
  | _, [] => none
  | cur, [last] => search section_ key cur [last]
  | cur, line :: next :: rest =>
      if chomp line = [] then
        none
      else
        match outcome section_ key cur (chomp line) with
        | .found value => some value
        | .next cur => search2 section_ key cur (next :: rest)
        | .fail => none

/-- Every line fits into the buffers of `cl_ini_get2`, up to the one at which it ends. -/
def Fitting2 (section_ : Option (List UInt8)) (key : List UInt8)
    : List UInt8 → List (List UInt8) → Prop
  | _, [] => True
  | _, [last] => Fits last
  | cur, line :: next :: rest =>
      line.length ≤ 255
      ∧ Short (chomp line)
      ∧ (chomp line ≠ []
        → match outcome section_ key cur (chomp line) with
          | .next cur => Fitting2 section_ key cur (next :: rest)
          | _ => True)

/-- One turn of `cl_ini_get2` on a line without a newline. -/
theorem getLoop2_last (value : Mem) {turns : Nat} {_sec cfgTxt : Buffer} {txt : Nat}
    (size : line.length = 256) (secSize : _sec.length = 64) (current : Holds _sec 0 cur)
    (holds : Holds cfgTxt txt s) (apart : chr '\n' ∉ s) (fits : Fits s)
    : getLoop2 section_ key cfgTxt (turns + 1) line _sec txt value
      = some (answer value (search section_ key cur [s])) := by
  have short : s.length < line.length := size ▸ Nat.lt_succ_of_le fits.1
  obtain ⟨line', got, size', holds'⟩ :=
    clTxtPosLine_last (show 1 ≤ 256 by decide) holds apart short
      (Nat.le_trans fits.1 (by decide))
  rcases eq_or_ne s [] with rfl | nonempty
  · simp only [getLoop2, got, _getValue_empty value holds', Option.bind_eq_bind,
      Option.bind_some]
    rfl
  · obtain ⟨parsed, read, _, _, answers⟩ :=
      _getValue_eq section_ key value holds' nonempty secSize current
        (by rw [before_absent apart]; exact fits.2)
    rw [before_absent apart] at answers
    simp only [getLoop2, got, read, Option.bind_eq_bind, Option.bind_some, search]
    cases meant : outcome section_ key cur s with
    | found v | fail =>
        rw [meant] at answers
        rw [answers.1, answers.2]
        rfl
    | next cur' =>
        rw [meant] at answers
        rw [answers.1, answers.2.1]
        rfl

/-- While its lines fit, the lookup in a text is the second search of its lines. -/
theorem getLoop2_eq (value : Mem) {turns : Nat} {_sec cfgTxt : Buffer} {txt : Nat}
    {text : List UInt8} (enough : text.length < turns) (size : line.length = 256)
    (secSize : _sec.length = 64) (current : Holds _sec 0 cur) (holds : Holds cfgTxt txt text)
    (fitting : Fitting2 section_ key cur (text.splitOn (chr '\n')))
    : getLoop2 section_ key cfgTxt turns line _sec txt value
      = some (answer value (search2 section_ key cur (text.splitOn (chr '\n')))) := by
  induction turns generalizing line _sec txt text cur with
  | zero => cases enough
  | succ turns ih =>
      rcases text_cases text with ⟨apart, single⟩ | ⟨l, rest, rfl, apart, split⟩
      · rw [single] at fitting ⊢
        exact getLoop2_last value size secSize current holds apart fitting
      · obtain ⟨next, more, lines⟩ :=
          List.exists_cons_of_ne_nil (List.splitOn_ne_nil (chr '\n') rest)
        rw [split, lines] at fitting ⊢
        obtain ⟨short, fits, after⟩ := fitting
        obtain ⟨line', got, same, holds'⟩ :=
          clTxtPosLine_newline (show 1 ≤ 256 by decide) holds apart
            (by rw [size]; exact Nat.lt_succ_of_le short)
            (Nat.lt_of_le_of_lt short (by decide))
        have size' : line'.length = 256 := same.trans size
        rw [search2]
        rcases eq_or_ne (chomp l) [] with empty | nonempty
        · rw [empty] at holds'
          simp only [getLoop2, got, _getValue_empty value holds', Option.bind_eq_bind,
            Option.bind_some, if_pos empty]
          rw [if_neg (by omega)]
          rfl
        · have apart' : before (chr '\n') (chomp l) = chomp l :=
            before_absent fun member => apart (chomp_subset member)
          obtain ⟨parsed, read, length, secLength, answers⟩ :=
            _getValue_eq section_ key value holds' nonempty secSize current
              (by rw [apart']; exact fits)
          rw [apart'] at answers
          simp only [getLoop2, got, read, Option.bind_eq_bind, Option.bind_some,
            if_neg nonempty]
          have after := after nonempty
          cases meant : outcome section_ key cur (chomp l) with
          | found v | fail =>
              rw [meant] at answers
              rw [answers.1, answers.2]
              rfl
          | next cur' =>
              rw [meant] at answers after
              obtain ⟨ret, kept, current'⟩ := answers
              rw [ret, kept]
              have shorter : rest.length < turns := by
                rw [List.length_append, List.length_cons] at enough
                omega
              rw [← lines] at after
              have continues :=
                ih shorter (length.trans size') secLength current' (holds_rest holds) after
              rw [lines] at continues
              have other : ((l.length : Int) + 1) ≠ 0 := by omega
              change (if _ then _ else _) = _
              rw [if_neg other]
              exact continues

-----------------------------------------------------------------------------------------
-- Agreement
-----------------------------------------------------------------------------------------

/-- A line in front of a newline means the same with and without a CR at its end, and is not
empty without it.
-/
def Alike (section_ : Option (List UInt8)) (key cur line : List UInt8) : Prop :=
  chomp line ≠ []
  ∧ Short (chomp line)
  ∧ outcome section_ key cur (chomp line) = outcome section_ key cur line

instance (section_ : Option (List UInt8)) (key cur line : List UInt8)
    : Decidable (Alike section_ key cur line) :=
  inferInstanceAs (Decidable (_ ∧ _ ∧ _))

/-- Up to the line at which the lookup ends, every line fits, and is alike when one follows. -/
def Readable (section_ : Option (List UInt8)) (key : List UInt8)
    : List UInt8 → List (List UInt8) → Prop
  | _, [] => True
  | _, [last] => Fits last
  | cur, line :: next :: rest =>
      Fits line
      ∧ Alike section_ key cur line
      ∧ match outcome section_ key cur line with
        | .next cur => Readable section_ key cur (next :: rest)
        | _ => True

instance Readable.decidable (section_ : Option (List UInt8)) (key : List UInt8)
    : (cur : List UInt8) → (lines : List (List UInt8)) → Decidable (Readable section_ key cur lines)
  | _, [] => isTrue trivial
  | _, [last] => inferInstanceAs (Decidable (Fits last))
  | cur, line :: next :: rest => by
      have later (cur : List UInt8) : Decidable (Readable section_ key cur (next :: rest)) :=
        Readable.decidable section_ key cur (next :: rest)
      unfold Readable
      cases outcome section_ key cur line <;> infer_instance

variable {lines : List (List UInt8)}

theorem Readable.fitting (readable : Readable section_ key cur lines)
    : Fitting section_ key cur lines := by
  induction lines generalizing cur with
  | nil => trivial
  | cons l lines ih =>
      cases lines with
      | nil =>
          refine ⟨readable, ?_⟩
          split <;> trivial
      | cons next rest =>
          obtain ⟨fits, _, after⟩ := readable
          refine ⟨fits, ?_⟩
          split
          · rename_i cur' meant
            rw [meant] at after
            exact ih after
          · trivial

/-- Both searches read such lines alike. -/
theorem Readable.search2_eq (readable : Readable section_ key cur lines)
    : Fitting2 section_ key cur lines
      ∧ search2 section_ key cur lines = search section_ key cur lines := by
  induction lines generalizing cur with
  | nil => exact ⟨trivial, rfl⟩
  | cons l lines ih =>
      cases lines with
      | nil => exact ⟨readable, rfl⟩
      | cons next rest =>
          obtain ⟨fits, ⟨nonempty, short, same⟩, after⟩ := readable
          rw [search2, if_neg nonempty, search, Fitting2, same]
          cases meant : outcome section_ key cur l with
          | found v | fail => exact ⟨⟨fits.1, short, fun _ => trivial⟩, rfl⟩
          | next cur' =>
              rw [meant] at after
              exact ⟨⟨fits.1, short, fun _ => (ih after).1⟩, (ih after).2⟩

/-- Without a CR at the end of a line, what fits for the one lookup does for the other. -/
theorem Fitting.fitting2 (fitting : Fitting section_ key cur lines)
    (plain : ∀ l ∈ lines, chomp l = l)
    : Fitting2 section_ key cur lines := by
  induction lines generalizing cur with
  | nil => trivial
  | cons l lines ih =>
      obtain ⟨same, plain⟩ := List.forall_mem_cons.mp plain
      cases lines with
      | nil => exact fitting.1
      | cons next rest =>
          obtain ⟨fits, after⟩ := fitting
          rw [Fitting2, same]
          refine ⟨fits.1, fits.2, fun _ => ?_⟩
          cases meant : outcome section_ key cur l with
          | found v | fail => trivial
          | next cur' =>
              rw [meant] at after
              exact ih after plain

/-- Without a CR at the end of a line, the second search is stopped by an empty one only. -/
theorem Fitting.readable (fitting : Fitting section_ key cur lines)
    (plain : ∀ l ∈ lines, chomp l = l) (found : search2 section_ key cur lines ≠ none)
    : Readable section_ key cur lines := by
  induction lines generalizing cur with
  | nil => trivial
  | cons l lines ih =>
      obtain ⟨same, plain⟩ := List.forall_mem_cons.mp plain
      cases lines with
      | nil => exact fitting.1
      | cons next rest =>
          obtain ⟨fits, after⟩ := fitting
          rw [search2, same] at found
          have nonempty : l ≠ [] := fun empty => found (if_pos empty)
          rw [if_neg nonempty] at found
          refine ⟨fits, ⟨same.symm ▸ nonempty, same.symm ▸ fits.2, by rw [same]⟩, ?_⟩
          cases meant : outcome section_ key cur l with
          | found v | fail => trivial
          | next cur' =>
              rw [meant] at after found
              exact ih after plain found

/-- The lookups in a text and in a file return, and the same. -/
def Agree {ν : Type*} (fopen : ν → Option (List UInt8)) (fn : ν) (line line' cfgTxt : Buffer)
    (section_ : Option (List UInt8)) (key : List UInt8) (value : Mem)
    : Prop :=
  ∃ result,
    clIniGet2 line' (some cfgTxt) section_ (some key) (some value) = some result
    ∧ clIniGet fopen line (some fn) section_ (some key) (some value) = some result

section

variable {ν : Type*} {fopen : ν → Option (List UInt8)} {fn : ν} {text : List UInt8}
  {line line' cfgTxt : Buffer}

/-- What a lookup in a file returns, with the checks of its arguments. -/
theorem clIniGet_eq (value : Mem) (file : fopen fn = some text) (nonzero : 0 ∉ text)
    (size : line.length = 256)
    (fitting : Fitting section_ key [] (text.splitOn (chr '\n')))
    : clIniGet fopen line (some fn) section_ (some key) (some value)
      = some
          (if lensExceed section_ key = true then
            (.fail, some value)
          else
            (answer value (search section_ key [] (text.splitOn (chr '\n')))).map id some) := by
  have blank : Holds (List.replicate 64 0) 0 [] := blank_holds
  have found :=
    getLoop_eq value (Nat.lt_succ_self text.length) size List.length_replicate blank nonzero
      fitting
  simp only [clIniGet, file, found, Option.map_some]
  split <;> rfl

theorem lensExceed_eq_false (sections : ∀ name ∈ section_, 1 ≤ name.length ∧ name.length ≤ 64)
    (keys : 1 ≤ key.length ∧ key.length ≤ 64)
    : lensExceed section_ key = false := by
  rw [lensExceed, decide_eq_false_iff_not]
  rintro (short | long | exceeds)
  · omega
  · omega
  · obtain ⟨name, given, exceeds⟩ := (Option.any_eq_true _ _).mp exceeds
    have within := sections name given
    rcases of_decide_eq_true exceeds with short | long <;> omega

/-- A lookup in a file whose lines fit is the search of its lines. -/
theorem clIniGet_search (value : Mem) (file : fopen fn = some text) (nonzero : 0 ∉ text)
    (size : line.length = 256) (fits : ∀ l ∈ text.splitOn (chr '\n'), Fits l)
    (sections : ∀ name ∈ section_, 1 ≤ name.length ∧ name.length ≤ 64)
    (keys : 1 ≤ key.length ∧ key.length ≤ 64)
    : clIniGet fopen line (some fn) section_ (some key) (some value)
      = some ((answer value (search section_ key [] (text.splitOn (chr '\n')))).map id some) := by
  have within : ¬lensExceed section_ key = true :=
    Bool.eq_false_iff.mp (lensExceed_eq_false sections keys)
  rw [clIniGet_eq value file nonzero size (Fitting.of_forall fits), if_neg within]

/-- What a lookup in a text returns, with the checks of its arguments. -/
theorem clIniGet2_eq (value : Mem) (memory : Holds cfgTxt 0 text) (nonempty : text ≠ [])
    (short : text.length ≤ 1048576) (size : line.length = 256)
    (fitting : Fitting2 section_ key [] (text.splitOn (chr '\n')))
    : clIniGet2 line (some cfgTxt) section_ (some key) (some value)
      = some
          (if lensExceed section_ key = true then
            (.fail, some value)
          else
            (answer value (search2 section_ key [] (text.splitOn (chr '\n')))).map id some) := by
  have blank : Holds (List.replicate 64 0) 0 [] := blank_holds
  have found :=
    getLoop2_eq value (Nat.lt_succ_self text.length) size List.length_replicate blank memory
      fitting
  have inside : ¬(text.length < 1 ∨ 1048576 < text.length) := by
    have positive := List.length_pos_of_ne_nil nonempty
    omega
  simp only [clIniGet2, memory.strlen, found, if_neg inside, Option.bind_eq_bind,
    Option.bind_some, Option.map_some]
  split <;> rfl

/-- A lookup in a text and in a file with that text return the same, when no line up to the one
at which they end is read differently. Where no line ends in a CR, the lines fit and the file
has the key, that is the only way.
-/
theorem clIniGet2_clIniGet (value : Mem) (file : fopen fn = some text)
    (memory : Holds cfgTxt 0 text) (nonempty : text ≠ []) (short : text.length ≤ 1048576)
    (size : line.length = 256) (size' : line'.length = 256)
    : (Readable section_ key [] (text.splitOn (chr '\n'))
        → Agree fopen fn line line' cfgTxt section_ key value)
      ∧ (lensExceed section_ key = false
        → Fitting section_ key [] (text.splitOn (chr '\n'))
        → (∀ l ∈ text.splitOn (chr '\n'), chomp l = l)
        → search section_ key [] (text.splitOn (chr '\n')) ≠ none
        → Agree fopen fn line line' cfgTxt section_ key value
        → Readable section_ key [] (text.splitOn (chr '\n'))) := by
  constructor
  · intro readable
    obtain ⟨fitting2, same⟩ := readable.search2_eq
    have got := clIniGet_eq value file memory.1 size readable.fitting
    have got2 := clIniGet2_eq value memory nonempty short size' fitting2
    rw [same] at got2
    exact ⟨_, got2, got⟩
  · rintro within fitting plain found ⟨result, got2, got⟩
    rw [clIniGet_eq value file memory.1 size fitting] at got
    rw [clIniGet2_eq value memory nonempty short size' (fitting.fitting2 plain)] at got2
    refine fitting.readable plain fun lost => ?_
    have same := Option.some.inj (got2.trans got.symm)
    rw [lost, if_neg (Bool.eq_false_iff.mp within), if_neg (Bool.eq_false_iff.mp within)] at same
    obtain ⟨v, found⟩ := Option.ne_none_iff_exists'.mp found
    rw [found] at same
    cases (Prod.mk.inj same).1

end

/-- Two sections with the same key: `"[a]\nk=u\n[b]\n k =\tv=w "`. -/
def twoSections : List UInt8 :=
  "[a]\nk=u\n[b]\n k =\tv=w ".toList.map chr

/-- The value of the second section is found, without the blanks around it. -/
theorem clIniGet_search_second
    : clIniGet (fun _ : Unit => some twoSections) (List.replicate 256 1) (some ()) (some [chr 'b'])
        (some [chr 'k']) (some fun _ => 0)
      = some (.succ, some (store (fun _ => 0) [chr 'v', chr '=', chr 'w'])) :=
  clIniGet_search _ rfl (by decide) List.length_replicate (by decide) (by decide) (by decide)

/-- A text that starts with an empty line: `"\nk=v"`. -/
def blankFirst : List UInt8 := [chr '\n', chr 'k', chr '=', chr 'v']

/-- The same without the empty line, and with a newline behind: `"k=v\n"`. -/
def plainLine : List UInt8 := [chr 'k', chr '=', chr 'v', chr '\n']

/-- The lookups agree on the plain line, and read it alike. -/
theorem clIniGet2_clIniGet_plain
    : Agree (fun _ : Unit => some plainLine) () (List.replicate 256 2) (List.replicate 256 1)
          (plainLine ++ [0]) none [chr 'k'] (fun _ => 0)
      ∧ Readable none [chr 'k'] [] (plainLine.splitOn (chr '\n')) :=
  have both :=
    clIniGet2_clIniGet _ rfl ⟨by decide, [], rfl⟩ (by decide) (by decide) List.length_replicate
      List.length_replicate
  have agree := both.1 (by decide)
  ⟨agree, both.2 (by decide) (Readable.fitting (by decide)) (by decide) (by decide) agree⟩

set_option maxRecDepth 4000 in
/-- Only the lookup in the file finds the key behind the empty line. -/
theorem clIniGet2_clIniGet_blank
    : ¬Agree (fun _ : Unit => some blankFirst) () (List.replicate 256 2) (List.replicate 256 1)
        (blankFirst ++ [0]) none [chr 'k'] (fun _ => 0) := by
  rintro ⟨result, got2, got⟩
  have ret2 := congrArg (Option.map Prod.fst) got2
  have ret := congrArg (Option.map Prod.fst) got
  have differ := ret2.trans ret.symm
  exact absurd differ (by decide)

end Libccll.Ini
