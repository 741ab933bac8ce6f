import Libccll.Alloc.Objects
import Libccll.Comm.Times
import Libccll.Foundation.LittleEndian
import Libccll.Foundation.Printing

/-! The bytes of an `Obj`: `fun` at 0 and `tag` at 24 have 24 bytes each, behind them are `line` at
48, `tick` at 56, `addr` at 64, `size` at 72 and `list` at 80.
-/

namespace Libccll.Alloc

open Foundation CString LittleEndian LocalTime Printing

/-- The strings and the line number that `cl_malloc` is called with. -/
structure Caller where
  fun_ : List UInt8
  lineNo : Int32
  tag : List UInt8
  visible : 0 ∉ fun_ ∧ 0 ∉ tag

/-- A number of `n` bytes with a sign, as it is stored. -/
def unsigned (n : Nat) (v : Int) : Nat := (v % (256 ^ n : Nat)).toNat

/-- The number that was stored. -/
def signed (n : Nat) (v : Nat) : Int := (v : Int).bmod (256 ^ n)

/-- `sprintf(obj + a, "%s", s)`; `none` when it gets past the end of the record. -/
def sprintfString (obj : Mem) (a : Nat) (s : List UInt8) : Option Mem :=
  if a + s.length < objSz then
    some fun i => if a ≤ i ∧ i ≤ a + s.length then s.getD (i - a) 0 else obj i
  else
    none

/-- What `cl_malloc` stores in a new record, with what `time` answers. -/
def fillRecord (obj : Mem) (caller : Caller) (size : Int32) (newMem : UInt64) (now : Int)
    : Option Mem := do
  let obj ← sprintfString obj 0 caller.fun_
  let obj ← sprintfString obj 24 caller.tag
  let obj := store 4 48 (unsigned 4 caller.lineNo.toInt) obj
  let obj := store 8 56 (unsigned 8 now) obj
  let obj := store 8 64 newMem.toNat obj
  return store 8 72 (sizeT size) obj

/-- Names that stay inside the record. -/
def Caller.Fits (caller : Caller) : Prop := caller.fun_.length ≤ 95 ∧ caller.tag.length ≤ 71

instance (caller : Caller) : Decidable caller.Fits := inferInstanceAs (Decidable (_ ∧ _))

/-- The string at an address, in so many bytes; `none` without a NUL among them. -/
def strIn (obj : Mem) : Nat → Nat → Option (List UInt8)
  | 0, _ => none
  | room + 1, a => if obj a = 0 then some [] else (strIn obj room (a + 1)).map (obj a :: ·)

/-- The string in a record. -/
def strAt (obj : Mem) (a : Nat) : Option (List UInt8) := strIn obj (objSz - a) a

/-- A line of the report. -/
def lineText (date tag fun_ : List UInt8) (line : Int) (addr : Nat) (size : Int) : List UInt8 :=
  text "  [" ++ date ++ text "] TAG: " ++ tag ++ text ", FUN: " ++ fun_ ++ text "+" ++ decimal line
    ++ text ", ADDR: " ++ pointer addr ++ text ", BYTES: " ++ decimal size ++ text "\n"

/-- The line that `cl_alloc_get_stat` prints for a record. -/
def allocLine (zone : Zone) (obj : Mem) : Option (List UInt8) := do
  let tmpbuf ← ← Times.clTimeSec2date1 zone (signed 8 (load 8 56 obj)) (some (List.replicate 64 0))
  return lineText (← str tmpbuf 0) (← strAt obj 24) (← strAt obj 0) (signed 4 (load 4 48 obj))
    (load 8 64 obj) (signed 8 (load 8 72 obj))

-----------------------------------------------------------------------------------------
-- Strings
-----------------------------------------------------------------------------------------

variable {obj obj' : Mem} {a : Nat} {s : List UInt8}

/-- The string is where its bytes and the NUL are. -/
theorem strIn_eq_some_iff {room : Nat}
    : strIn obj room a = some s
      ↔ 0 ∉ s
        ∧ s.length < room
        ∧ obj (a + s.length) = 0
        ∧ ∀ j < s.length, obj (a + j) = s.getD j 0 := by
  induction room generalizing a s with
  | zero => simp [strIn]
  | succ room ih =>
      rw [strIn]
      split
      · rename_i stop
        constructor
        · intro same
          obtain rfl := Option.some.inj same
          exact ⟨List.not_mem_nil, Nat.succ_pos room, stop,
            fun j below => absurd below (Nat.not_lt_zero j)⟩
        · rintro ⟨visible, _, _, bytes⟩
          cases s with
          | nil => rfl
          | cons b t =>
              have first := bytes 0 (Nat.succ_pos _)
              rw [Nat.add_zero, stop] at first
              exact absurd (first ▸ List.mem_cons_self) visible
      · rename_i more
        rw [Option.map_eq_some_iff]
        constructor
        · rintro ⟨t, read, rfl⟩
          obtain ⟨visible, short, stop, bytes⟩ := ih.mp read
          refine ⟨List.not_mem_cons_of_ne_of_not_mem (Ne.symm more) visible,
            Nat.succ_lt_succ short, ?_, ?_⟩
          · rw [List.length_cons, ← Nat.add_assoc, Nat.add_right_comm]
            exact stop
          · intro j below
            cases j with
            | zero => rfl
            | succ j =>
                rw [← Nat.add_assoc, Nat.add_right_comm, List.getD_cons_succ]
                exact bytes j (Nat.lt_of_succ_lt_succ below)
        · rintro ⟨visible, short, stop, bytes⟩
          cases s with
          | nil => exact absurd stop more
          | cons b t =>
              have first := bytes 0 (Nat.succ_pos _)
              refine ⟨t, ih.mpr ⟨fun member => visible (List.mem_cons_of_mem b member),
                Nat.lt_of_succ_lt_succ short, ?_, fun j below => ?_⟩, ?_⟩
              · rw [Nat.add_right_comm]
                exact stop
              · have next := bytes (j + 1) (Nat.succ_lt_succ below)
                rw [← Nat.add_assoc, Nat.add_right_comm, List.getD_cons_succ] at next
                exact next
              · rw [Nat.add_zero, List.getD_cons_zero] at first
                rw [first]

/-- The first bytes of a name, as far as they are in front of the next field. -/
theorem strAt_field {name : List UInt8} (visible : 0 ∉ name) (inside : a + 24 < objSz)
    (bytes : ∀ j < 24, j ≤ name.length → obj (a + j) = name.getD j 0)
    (stops : name.length ≤ 23 ∨ obj (a + 24) = 0)
    : strAt obj a = some (name.take 24) := by
  rw [strAt, strIn_eq_some_iff, List.length_take]
  refine ⟨fun member => visible (List.mem_of_mem_take member), by omega, ?_, fun j below => ?_⟩
  · rcases Nat.lt_or_ge name.length 24 with short | long
    · rw [Nat.min_eq_right (Nat.le_of_lt short), bytes _ short (Nat.le_refl _),
        List.getD_eq_getElem?_getD, List.getElem?_eq_none (Nat.le_refl _)]
      rfl
    · rw [Nat.min_eq_left long]
      exact stops.resolve_left (by omega)
  · rw [bytes j (by omega) (by omega), List.getD_eq_getElem?_getD, List.getD_eq_getElem?_getD,
      List.getElem?_take_of_lt (by omega)]

/-- The string of a field is no shorter than what is left of the name. -/
theorem take_length_le {name : List UInt8} (visible : 0 ∉ name)
    (bytes : ∀ j < 24, j ≤ name.length → obj (a + j) = name.getD j 0)
    (read : strAt obj a = some s)
    : (name.take 24).length ≤ s.length ∧ (24 ≤ name.length → obj (a + 24) ≠ 0 → 24 < s.length) := by
  rw [strAt, strIn_eq_some_iff] at read
  obtain ⟨_, _, stop, _⟩ := read
  have ends {j : Nat} (same : s.length = j) (below : j < 24) : name.length ≤ j := by
    by_contra inside
    rw [Nat.not_le] at inside
    rw [same, bytes j below (Nat.le_of_lt inside), List.getD_eq_getElem?_getD,
      List.getElem?_eq_getElem inside] at stop
    exact visible (stop ▸ List.getElem_mem inside)
  rw [List.length_take]
  constructor
  · by_contra shorter
    have end_ := ends rfl (by omega)
    omega
  · intro long more
    rcases Nat.lt_trichotomy s.length 24 with below | same | above
    · have end_ := ends rfl below
      omega
    · rw [same] at stop
      exact absurd stop more
    · exact above

-----------------------------------------------------------------------------------------
-- A new record
-----------------------------------------------------------------------------------------

/-- What is found in a record that `cl_malloc` has filled: the strings as far as the stores that
followed left them, and the numbers.
-/
structure Filled (obj : Mem) (caller : Caller) (size : Int32) (newMem : UInt64) (now : Int)
    : Prop where
  fun_ : ∀ j < 24, j ≤ caller.fun_.length → obj (0 + j) = caller.fun_.getD j 0
  tag : ∀ j < 24, j ≤ caller.tag.length → obj (24 + j) = caller.tag.getD j 0
  low : obj 48 = UInt8.ofNat (unsigned 4 caller.lineNo.toInt)
  line : load 4 48 obj = unsigned 4 caller.lineNo.toInt
  tick : load 8 56 obj = unsigned 8 now
  addr : load 8 64 obj = newMem.toNat
  size : load 8 72 obj = sizeT size

theorem unsigned_lt (n : Nat) (v : Int) : unsigned n v < 256 ^ n := by
  have positive : 0 < 256 ^ n := Nat.pow_pos (by decide)
  rw [unsigned]
  omega

/-- Only names that do not fit get past the end of the record. -/
theorem fillRecord_isSome_iff {caller : Caller} {size : Int32} {newMem : UInt64} {now : Int}
    : (fillRecord obj caller size newMem now).isSome = true ↔ caller.Fits := by
  rw [Option.isSome_iff_exists]
  simp only [fillRecord, sprintfString, Option.bind_eq_bind, Option.bind_eq_some_iff,
    Option.ite_none_right_eq_some]
  have room : objSz = 96 := rfl
  constructor
  · rintro ⟨_, _, ⟨named, _⟩, _, ⟨tagged, _⟩, _⟩
    exact ⟨by omega, by omega⟩
  · rintro ⟨named, tagged⟩
    exact ⟨_, _, ⟨by omega, rfl⟩, _, ⟨by omega, rfl⟩, rfl⟩

theorem fillRecord_filled {caller : Caller} {size : Int32} {newMem : UInt64} {now : Int}
    (filled : fillRecord obj caller size newMem now = some obj')
    : Filled obj' caller size newMem now := by
  simp only [fillRecord, sprintfString, Option.bind_eq_bind, Option.bind_eq_some_iff,
    Option.ite_none_right_eq_some] at filled
  obtain ⟨obj₁, ⟨_, named⟩, obj₂, ⟨_, tagged⟩, same⟩ := filled
  obtain rfl := Option.some.inj named
  obtain rfl := Option.some.inj tagged
  obtain rfl := Option.some.inj same
  have small : sizeT size < 256 ^ 8 := by
    rw [sizeT, sizeLimit]
    omega
  constructor
  · intro j below within
    rw [store_apart (by omega), store_apart (by omega), store_apart (by omega),
      store_apart (by omega), if_neg (by omega)]
    refine Eq.trans (if_pos ⟨Nat.zero_le _, by omega⟩) ?_
    rw [Nat.zero_add, Nat.sub_zero]
  · intro j below within
    rw [store_apart (by omega), store_apart (by omega), store_apart (by omega),
      store_apart (by omega), if_pos (by omega), Nat.add_sub_cancel_left]
  · rw [store_apart (by omega), store_apart (by omega), store_apart (by omega), store,
      if_pos (by omega), Nat.sub_self, Nat.pow_zero, Nat.div_one]
  · rw [load_store_apart (by omega), load_store_apart (by omega), load_store_apart (by omega),
      load_store_self (unsigned_lt 4 _)]
  · rw [load_store_apart (by omega), load_store_apart (by omega), load_store_self (unsigned_lt 8 _)]
  · rw [load_store_apart (by omega), load_store_self newMem.toNat_lt]
  · rw [load_store_self small]

-----------------------------------------------------------------------------------------
-- A line
-----------------------------------------------------------------------------------------

/-- What a call of `cl_malloc` was told, by its caller and by what it calls itself. -/
structure Told where
  caller : Caller
  size : Int32
  newMem : UInt64
  now : Int

/-- The call's own line: its names cut to the width of their fields, and its numbers. -/
def Told.line (zone : Zone) (told : Told) : List UInt8 :=
  lineText ((localtime zone told.now).text.getD []) (told.caller.tag.take 24)
    (told.caller.fun_.take 24) told.caller.lineNo.toInt told.newMem.toNat
    told.size.toInt

/-- A name fills its field when the field behind it starts with a NUL, or leaves room for one. -/
structure Told.Apart (told : Told) : Prop where
  fun_ : told.caller.fun_.length ≤ 23 ∨ told.caller.tag = []
  tag : told.caller.tag.length ≤ 23 ∨ told.caller.lineNo.toInt % 256 = 0

/-- What `time` answers: an instant whose year has four digits. -/
structure Timely (zone : Zone) (now : Int) : Prop where
  instant : 0 ≤ now ∧ now < 2 ^ 63
  year
    : 0 ≤ 1900 + (localtime zone now).tmYear ∧ 1900 + (localtime zone now).tmYear < 10000

variable {zone : Zone} {told : Told} {now : Int}

/-- The text of such an instant. -/
theorem Timely.date (timely : Timely zone now)
    : ∃ date, (localtime zone now).text = some date ∧ date.length = 19 ∧ 0 ∉ date := by
  refine ⟨_, if_pos timely.year, ?_, ?_⟩
  · simp
  · simp only [List.mem_append, List.mem_cons, not_or]
    exact ⟨zero_notMem_pad, by decide, zero_notMem_pad, by decide, zero_notMem_pad, by decide,
      zero_notMem_pad, by decide, zero_notMem_pad, by decide, zero_notMem_pad⟩

/-- A number is read from a record as it was stored. -/
theorem signed_unsigned {n : Nat} {v : Int} (low : -(256 ^ n : Nat) ≤ v * 2)
    (high : v * 2 < (256 ^ n : Nat))
    : signed n (unsigned n v) = v := by
  have positive : 0 < 256 ^ n := Nat.pow_pos (by decide)
  have same : ((unsigned n v : Nat) : Int) = v % (256 ^ n : Nat) := by
    rw [unsigned, Int.toNat_of_nonneg (Int.emod_nonneg _ (by omega))]
  rw [signed, same, Int.emod_bmod, Int.bmod_eq_of_le_mul_two low high]

/-- The line of a record, from the strings that are found in it. -/
theorem Filled.allocLine_eq_some_iff
    (filled : Filled obj told.caller told.size told.newMem told.now) (timely : Timely zone told.now)
    {line : List UInt8}
    : allocLine zone obj = some line
      ↔ ∃ tag fun_,
          strAt obj 24 = some tag
          ∧ strAt obj 0 = some fun_
          ∧ line
            = lineText ((localtime zone told.now).text.getD []) tag fun_ told.caller.lineNo.toInt
                told.newMem.toNat told.size.toInt := by
  obtain ⟨date, shown, length, visible⟩ := timely.date
  obtain ⟨str, printed, _, holds⟩ :=
    fill_terminated (List.replicate 64 0) visible (by rw [length, List.length_replicate]; decide)
  have tick : signed 8 (load 8 56 obj) = told.now := by
    rw [filled.tick, signed_unsigned]
    all_goals
      have bounds := timely.instant
      omega
  have number : signed 4 (load 4 48 obj) = told.caller.lineNo.toInt := by
    rw [filled.line, signed_unsigned]
    all_goals
      have low := told.caller.lineNo.le_toInt
      have high := told.caller.lineNo.toInt_lt
      omega
  have bytes : signed 8 (load 8 72 obj) = told.size.toInt := by
    rw [filled.size, show sizeT told.size = unsigned 8 told.size.toInt from rfl, signed_unsigned]
    all_goals
      have low := told.size.le_toInt
      have high := told.size.toInt_lt
      omega
  have dated
      : Times.clTimeSec2date1 zone told.now (some (List.replicate 64 0)) = some (some str) := by
    simp only [Times.clTimeSec2date1, if_neg (Int.not_lt.mpr timely.instant.1), shown,
      Option.bind_some, printed, Option.map_some]
  simp only [allocLine, tick, number, bytes, filled.addr, dated, holds.str, shown,
    Option.bind_eq_bind, Option.bind_some, Option.getD_some, Option.bind_eq_some_iff]
  constructor
  · rintro ⟨tag, tagged, fun_, named, same⟩
    exact ⟨tag, fun_, tagged, named, (Option.some.inj same).symm⟩
  · rintro ⟨tag, fun_, tagged, named, rfl⟩
    exact ⟨tag, tagged, fun_, named, rfl⟩

/-- What stands behind the name of the function. -/
theorem Filled.behind_fun (filled : Filled obj told.caller told.size told.newMem told.now)
    : obj (0 + 24) = 0 ↔ told.caller.tag = [] := by
  have first : obj (0 + 24) = told.caller.tag.getD 0 0 := filled.tag 0 (by decide) (Nat.zero_le _)
  have visible := told.caller.visible.2
  rw [first]
  generalize told.caller.tag = tag at visible ⊢
  cases tag with
  | nil => exact iff_of_true rfl rfl
  | cons b t =>
      rw [List.getD_cons_zero]
      exact iff_of_false (fun null => visible (null ▸ List.mem_cons_self)) (List.cons_ne_nil b t)

/-- What stands behind the tag: the lowest byte of the line number. -/
theorem Filled.behind_tag (filled : Filled obj told.caller told.size told.newMem told.now)
    : obj (24 + 24) = 0 ↔ told.caller.lineNo.toInt % 256 = 0 := by
  rw [filled.low, ← UInt8.toNat_inj, UInt8.toNat_ofNat', unsigned]
  change _ = 0 ↔ _
  omega

/-- A record's line is its own if and only if the names fit their fields. -/
theorem Filled.allocLine_eq_line
    (filled : Filled obj told.caller told.size told.newMem told.now) (timely : Timely zone told.now)
    : allocLine zone obj = some (told.line zone) ↔ told.Apart := by
  rw [filled.allocLine_eq_some_iff timely]
  constructor
  · rintro ⟨tag, fun_, tagged, named, same⟩
    have lengths := congrArg List.length same
    simp only [Told.line, lineText, List.length_append] at lengths
    obtain ⟨tagLong, tagLonger⟩ := take_length_le told.caller.visible.2 filled.tag tagged
    obtain ⟨funLong, funLonger⟩ := take_length_le told.caller.visible.1 filled.fun_ named
    have tagCut := List.length_take_le 24 told.caller.tag
    have funCut := List.length_take_le 24 told.caller.fun_
    constructor
    · by_contra runs
      obtain ⟨long, more⟩ := not_or.mp runs
      have longer := funLonger (by omega) (filled.behind_fun.not.mpr more)
      omega
    · by_contra runs
      obtain ⟨long, more⟩ := not_or.mp runs
      have longer := tagLonger (by omega) (filled.behind_tag.not.mpr more)
      omega
  · intro apart
    exact ⟨_, _,
      strAt_field told.caller.visible.2 (by decide) filled.tag
        (apart.tag.imp_right filled.behind_tag.mpr),
      strAt_field told.caller.visible.1 (by decide) filled.fun_
        (apart.fun_.imp_right filled.behind_fun.mpr), rfl⟩

end Libccll.Alloc
