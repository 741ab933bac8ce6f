import Libccll.Alloc.Ledger
import Libccll.Comm.Convt
import Mathlib.Algebra.Order.BigOperators.Group.List

/-! `cl_alloc_get_stat`: what it prints of the registry, and into which buffer it fits. -/

namespace Libccll.Alloc

open Foundation CString LittleEndian LocalTime Printing

variable {θ : Type*}

/-- `sprintf(buf + i, ...)` that prints a text; `none` when it gets past the end. -/
def sprintfAt (buf : Buffer) (i : Nat) (s : List UInt8) : Option Buffer :=
  if i + s.length < buf.length then
    some (buf.take i ++ s ++ 0 :: buf.drop (i + s.length + 1))
  else
    none

/-- The second loop: `sprintf(buf + strlen(buf), ...)` for every record. -/
def printLines (zone : Zone) : List Mem → Buffer → Option Buffer
  | [], buf => some buf
  | obj :: objs, buf => do
      let line ← allocLine zone obj
      printLines zone objs (← sprintfAt buf (← strlen buf 0) line)

/-- `bytes` after the first loop. -/
def sumBytes (objs : List Mem) : Nat :=
  objs.foldl (fun bytes obj => (bytes + load 8 72 obj) % sizeLimit) 0

/-- The two lines of the summary. -/
def cntLine (objs : List Mem) : List UInt8 :=
  text "Allocating cnt:   " ++ decimal (signed 8 (objs.length % sizeLimit)) ++ text "\n"

def bytesLine (tmpbuf : List UInt8) : List UInt8 :=
  text "Allocating bytes: " ++ tmpbuf ++ text "\n"

/-- `cl_alloc_get_stat`, while it has the lock: what is left in `buf`, where `none` is a `NULL`
pointer. The outer `none` is an access outside of a buffer or of a record.
-/
def clAllocGetStat (zone : Zone) (objs : List Mem) (buf : Option Buffer)
    : Option (Option Buffer) :=
  match buf with
  | none => some none
  | some buf => do
      let buf ← sprintfAt buf 0 (cntLine objs)
      let (_, tmpbuf) ←
        Convt.clBytesToReadableStr (sumBytes objs) (some (List.replicate 64 0))
      let tmpbuf ← tmpbuf
      let buf ← sprintfAt buf (← strlen buf 0) (bytesLine (← str tmpbuf 0))
      let buf ← printLines zone objs buf
      return some buf

/-- What the summary is meant to say. -/
def summary (objs : List Mem) : List UInt8 :=
  cntLine objs ++ bytesLine (Convt.readable (sumBytes objs))

/-- The lines of the records, one after the other. -/
def allocLines (zone : Zone) (objs : List Mem) : Option (List (List UInt8)) :=
  objs.mapM (allocLine zone)

-----------------------------------------------------------------------------------------
-- The buffer
-----------------------------------------------------------------------------------------

variable {buf : Buffer} {s t : List UInt8} {zone : Zone} {objs : List Mem}

/-- The next step of a computation that has got so far. -/
theorem bind_of_eq_some {α β : Type*} {x : Option α} {a : α} {f : α → Option β} (eq : x = some a)
    : x.bind f = f a := by
  rw [eq, Option.bind_some]

/-- What is printed behind the start of a buffer. -/
theorem sprintfAt_eq (front : buf.take s.length = s) (nonzero : 0 ∉ s) (visible : 0 ∉ t)
    (room : (s ++ t).length < buf.length)
    : ∃ buf',
        sprintfAt buf s.length t = some buf'
        ∧ buf'.length = buf.length
        ∧ Holds buf' 0 (s ++ t) := by
  rw [sprintfAt, ← List.length_append, if_pos room, front]
  refine ⟨_, rfl, ?_, fun member => ?_, _, List.drop_zero⟩
  · rw [List.length_append, List.length_cons, List.length_drop]
    omega
  · rcases List.mem_append.mp member with front | back
    · exact nonzero front
    · exact visible back

theorem take_of_holds (holds : Holds buf 0 s) : buf.take s.length = s := by
  obtain ⟨_, rest, tail⟩ := holds
  rw [List.drop_zero] at tail
  rw [tail, List.take_left]

/-- The lines of more records are the first one and those of the others. -/
theorem allocLines_cons {obj : Mem} {lines : List (List UInt8)}
    (listed : allocLines zone (obj :: objs) = some lines)
    : ∃ line rest,
        allocLine zone obj = some line
        ∧ allocLines zone objs = some rest
        ∧ lines = line :: rest := by
  simp only [allocLines, List.mapM_cons, Option.bind_eq_bind, Option.bind_eq_some_iff] at listed
  obtain ⟨line, shown, rest, listed, same⟩ := listed
  exact ⟨line, rest, shown, listed, (Option.some.inj same).symm⟩

/-- They are printed in this order. -/
theorem printLines_cons {obj : Mem} {line : List UInt8} (shown : allocLine zone obj = some line)
    (holds : Holds buf 0 s)
    : printLines zone (obj :: objs) buf
      = (sprintfAt buf s.length line).bind (printLines zone objs) := by
  simp only [printLines, shown, holds.strlen, Option.bind_eq_bind, Option.bind_some]

/-- Lines for which there is room are printed. -/
theorem printLines_eq {lines : List (List UInt8)} (listed : allocLines zone objs = some lines)
    (visible : ∀ line ∈ lines, 0 ∉ line) (holds : Holds buf 0 s)
    (room : (s ++ lines.flatten).length < buf.length)
    : ∃ buf', printLines zone objs buf = some buf' ∧ Holds buf' 0 (s ++ lines.flatten) := by
  induction objs generalizing buf s lines with
  | nil =>
      obtain rfl := Option.some.inj listed
      exact ⟨buf, rfl, by simpa using holds⟩
  | cons obj objs ih =>
      obtain ⟨line, rest, shown, listed', rfl⟩ := allocLines_cons listed
      obtain ⟨visible', visible⟩ := List.forall_mem_cons.mp visible
      rw [List.flatten_cons, ← List.append_assoc] at room ⊢
      have room' : (s ++ line).length < buf.length := by
        rw [List.length_append] at room
        omega
      obtain ⟨buf₁, appended, size, holds'⟩ :=
        sprintfAt_eq (take_of_holds holds) holds.1 visible' room'
      rw [printLines_cons shown holds, appended, Option.bind_some]
      exact ih listed' visible holds' (size.symm ▸ room)

/-- Nothing is printed past the end. -/
theorem printLines_room {lines : List (List UInt8)} {buf' : Buffer}
    (listed : allocLines zone objs = some lines) (visible : ∀ line ∈ lines, 0 ∉ line)
    (holds : Holds buf 0 s) (inside : s.length < buf.length)
    (printed : printLines zone objs buf = some buf')
    : (s ++ lines.flatten).length < buf.length := by
  induction objs generalizing buf s lines with
  | nil =>
      obtain rfl : [] = lines := Option.some.inj listed
      rw [List.flatten_nil, List.append_nil]
      exact inside
  | cons obj objs ih =>
      obtain ⟨line, rest, shown, listed', rfl⟩ := allocLines_cons listed
      obtain ⟨visible', visible⟩ := List.forall_mem_cons.mp visible
      rw [printLines_cons shown holds, Option.bind_eq_some_iff] at printed
      obtain ⟨buf₁, appended, printed⟩ := printed
      have room : (s ++ line).length < buf.length := by
        rw [sprintfAt, Option.ite_none_right_eq_some] at appended
        rw [List.length_append]
        exact appended.1
      obtain ⟨buf₁', appended', size, holds'⟩ :=
        sprintfAt_eq (take_of_holds holds) holds.1 visible' room
      obtain rfl := Option.some.inj (appended'.symm.trans appended)
      have later := ih listed' visible holds' (size.symm ▸ room) printed
      rw [size] at later
      rw [List.flatten_cons, ← List.append_assoc]
      exact later

theorem sumBytes_lt : sumBytes objs < 2 ^ 64 := by
  rw [sumBytes]
  induction objs using List.reverseRecOn with
  | nil => decide
  | append_singleton objs obj _ =>
      rw [List.foldl_append]
      exact Nat.mod_lt _ (by decide)

/-- The summary is text. -/
theorem cntLine_visible : 0 ∉ cntLine objs := by
  rw [cntLine, List.mem_append, List.mem_append, not_or, not_or]
  exact ⟨⟨by decide, zero_notMem_decimal⟩, by decide⟩

theorem bytesLine_visible (visible : 0 ∉ t) : 0 ∉ bytesLine t := by
  rw [bytesLine, List.mem_append, List.mem_append, not_or, not_or]
  exact ⟨⟨by decide, visible⟩, by decide⟩

/-- With room for it, the summary is printed, and the lines of the records go behind it. -/
theorem clAllocGetStat_start (zone : Zone) (room : (summary objs).length < buf.length)
    : ∃ buf₂,
        buf₂.length = buf.length
        ∧ Holds buf₂ 0 (summary objs)
        ∧ clAllocGetStat zone objs (some buf) = (printLines zone objs buf₂).map some := by
  have small : sumBytes objs < 2 ^ 64 := sumBytes_lt
  obtain ⟨short, visible⟩ := Convt.readable_short small
  rw [summary] at room ⊢
  obtain ⟨tmpbuf, filled, _, string⟩ :=
    fill_terminated (List.replicate 64 0) visible (by rw [List.length_replicate]; omega)
  have converted
      : Convt.clBytesToReadableStr (sumBytes objs) (some (List.replicate 64 0))
        = some (.succ, some tmpbuf) := by
    rw [Convt.clBytesToReadableStr, filled, Option.map_some]
  have room₁ : (([] : List UInt8) ++ cntLine objs).length < buf.length := by
    rw [List.length_append] at room
    rw [List.nil_append]
    omega
  have front : buf.take ([] : List UInt8).length = [] := List.take_zero
  obtain ⟨buf₁, printed₁, size₁, holds₁⟩ :=
    sprintfAt_eq front List.not_mem_nil cntLine_visible room₁
  rw [List.nil_append] at holds₁
  obtain ⟨buf₂, printed₂, size₂, holds₂⟩ :=
    sprintfAt_eq (take_of_holds holds₁) holds₁.1 (bytesLine_visible visible) (size₁.symm ▸ room)
  refine ⟨buf₂, size₂.trans size₁, holds₂, ?_⟩
  rw [clAllocGetStat]
  refine (bind_of_eq_some printed₁).trans ?_
  refine (bind_of_eq_some converted).trans ?_
  refine (bind_of_eq_some rfl).trans ?_
  refine (bind_of_eq_some holds₁.strlen).trans ?_
  refine (bind_of_eq_some string.str).trans ?_
  refine (bind_of_eq_some printed₂).trans ?_
  exact (Option.map_eq_bind ..).symm

/-- With room for all lines, they are printed. -/
theorem clAllocGetStat_eq {lines : List (List UInt8)} (listed : allocLines zone objs = some lines)
    (visible : ∀ line ∈ lines, 0 ∉ line)
    (room : (summary objs ++ lines.flatten).length < buf.length)
    : ∃ buf',
        clAllocGetStat zone objs (some buf) = some (some buf')
        ∧ Holds buf' 0 (summary objs ++ lines.flatten) := by
  have room' : (summary objs).length < buf.length := by
    rw [List.length_append] at room
    omega
  obtain ⟨buf₂, size, holds, printed⟩ := clAllocGetStat_start zone room'
  obtain ⟨buf', rest, holds'⟩ := printLines_eq listed visible holds (size.symm ▸ room)
  refine ⟨buf', ?_, holds'⟩
  rw [printed, rest, Option.map_some]

/-- With room for the summary only, they are not. -/
theorem clAllocGetStat_room {lines : List (List UInt8)}
    (listed : allocLines zone objs = some lines) (visible : ∀ line ∈ lines, 0 ∉ line)
    (room : (summary objs).length < buf.length)
    (printed : clAllocGetStat zone objs (some buf) ≠ none)
    : (summary objs ++ lines.flatten).length < buf.length := by
  obtain ⟨buf₂, size, holds, rest⟩ := clAllocGetStat_start zone room
  obtain ⟨r, printed⟩ := Option.ne_none_iff_exists'.mp printed
  rw [rest, Option.map_eq_some_iff] at printed
  obtain ⟨buf', printed, _⟩ := printed
  rw [← size]
  exact printLines_room listed visible holds (size.symm ▸ room) printed

theorem length_flatten_le {lines : List (List UInt8)} {n : Nat}
    (bound : ∀ line ∈ lines, line.length ≤ n)
    : lines.flatten.length ≤ lines.length * n := by
  have sum := List.sum_le_card_nsmul (lines.map List.length) n (List.forall_mem_map.mpr bound)
  rw [List.length_map, Nat.nsmul_eq_mul] at sum
  rw [List.length_flatten]
  exact sum

theorem le_length_flatten {lines : List (List UInt8)} {n : Nat}
    (bound : ∀ line ∈ lines, n ≤ line.length)
    : lines.length * n ≤ lines.flatten.length := by
  have sum := List.card_nsmul_le_sum (lines.map List.length) n (List.forall_mem_map.mpr bound)
  rw [List.length_map, Nat.nsmul_eq_mul] at sum
  rw [List.length_flatten]
  exact sum

-----------------------------------------------------------------------------------------
-- The live blocks
-----------------------------------------------------------------------------------------

variable {l : Ledger θ}

/-- What the calls for the blocks were told that are registered and not released, in the order in
which they were registered.
-/
def Ledger.live (l : Ledger θ) : List Told := l.state.tracked.map fun entry => l.told entry.1

theorem Ledger.Kept.live_eq (kept : l.Kept (Timely zone))
    : l.live = l.state.gLiObjs.map fun obj => l.told obj.made := by
  rw [Ledger.live, State.tracked, ← kept.custody.shared.listed, List.map_map]
  rfl

/-- A property of all live blocks is one of all records. -/
theorem Ledger.Kept.forall_live (kept : l.Kept (Timely zone)) {property : Told → Prop}
    : (∀ told ∈ l.live, property told) ↔ ∀ obj ∈ l.state.gLiObjs, property (l.told obj.made) := by
  rw [kept.live_eq, List.forall_mem_map]

theorem mapM_map_eq_some_iff {α β γ : Type*} {f : α → β} {g : β → Option γ} {h : α → γ}
    {items : List α}
    : (items.map f).mapM g = some (items.map h) ↔ ∀ a ∈ items, g (f a) = some (h a) := by
  induction items with
  | nil => simp
  | cons a items ih =>
      rw [List.map_cons, List.map_cons, List.forall_mem_cons, ← ih]
      simp only [List.mapM_cons, Option.bind_eq_bind, Option.bind_eq_some_iff]
      constructor
      · rintro ⟨c, first, rest, later, same⟩
        obtain ⟨rfl, rfl⟩ := List.cons.inj (Option.some.inj same)
        exact ⟨first, later⟩
      · rintro ⟨first, later⟩
        exact ⟨_, first, _, later, rfl⟩

/-- The report has one line for each live block, in their order, and it is the block's own; with
room for it in the buffer, it is what is printed behind the summary.
-/
def Ledger.Faithful (zone : Zone) (l : Ledger θ) : Prop :=
  allocLines zone l.objs = some (l.live.map (Told.line zone))
  ∧ ∀ buf : Buffer,
      (summary l.objs ++ (l.live.map (Told.line zone)).flatten).length < buf.length
      → ∃ buf',
          clAllocGetStat zone l.objs (some buf) = some (some buf')
          ∧ Holds buf' 0 (summary l.objs ++ (l.live.map (Told.line zone)).flatten)

/-- The widths of what varies in a line. -/
def Told.width (told : Told) : Nat :=
  told.caller.tag.length + told.caller.fun_.length + (decimal told.caller.lineNo.toInt).length
    + (pointer told.newMem.toNat).length + (decimal told.size.toInt).length

theorem Told.line_length {told : Told} (timely : Timely zone told.now)
    (short : told.caller.tag.length ≤ 23 ∧ told.caller.fun_.length ≤ 23)
    : (told.line zone).length = 55 + told.width := by
  obtain ⟨date, shown, length, _⟩ := timely.date
  rw [Told.line, shown, Option.getD_some, List.take_of_length_le (by omega),
    List.take_of_length_le (by omega)]
  simp only [lineText, List.length_append, length, Told.width]
  have constant
      : (text "  [").length + (text "] TAG: ").length + (text ", FUN: ").length
          + (text "+").length + (text ", ADDR: ").length + (text ", BYTES: ").length
          + (text "\n").length
        = 36 := by
    decide
  omega

theorem Told.line_visible {told : Told} (timely : Timely zone told.now)
    : 0 ∉ told.line zone := by
  obtain ⟨date, shown, _, visible⟩ := timely.date
  have tag : 0 ∉ told.caller.tag.take 24 :=
    fun member => told.caller.visible.2 (List.mem_of_mem_take member)
  have fun_ : 0 ∉ told.caller.fun_.take 24 :=
    fun member => told.caller.visible.1 (List.mem_of_mem_take member)
  rw [Told.line, shown, Option.getD_some, lineText]
  simp only [List.mem_append, not_or]
  exact ⟨⟨⟨⟨⟨⟨⟨⟨⟨⟨⟨⟨by decide, visible⟩, by decide⟩, tag⟩, by decide⟩, fun_⟩, by decide⟩,
    zero_notMem_decimal⟩, by decide⟩, zero_notMem_pointer⟩, by decide⟩, zero_notMem_decimal⟩,
    by decide⟩

-----------------------------------------------------------------------------------------
-- The report of a ledger
-----------------------------------------------------------------------------------------

/-- The lines are those of the live blocks if and only if the records' names fit their fields. -/
theorem Ledger.Kept.allocLines_iff (kept : l.Kept (Timely zone))
    : allocLines zone l.objs = some (l.live.map (Told.line zone))
      ↔ ∀ told ∈ l.live, told.Apart := by
  rw [kept.forall_live, kept.live_eq, List.map_map, allocLines, Ledger.objs, mapM_map_eq_some_iff]
  refine forall₂_congr fun obj listed => ?_
  obtain ⟨filled, -, -, timely⟩ := kept.listed obj listed
  exact filled.allocLine_eq_line timely

/-- What the call for a live block was told is kept with a date. -/
theorem Ledger.Kept.timely (kept : l.Kept (Timely zone))
    : ∀ told ∈ l.live, Timely zone told.now :=
  kept.forall_live.mpr fun obj listed => (kept.listed obj listed).instant

theorem Ledger.Kept.faithful_iff (kept : l.Kept (Timely zone))
    : l.Faithful zone ↔ ∀ told ∈ l.live, told.Apart := by
  rw [← kept.allocLines_iff]
  refine ⟨And.left, fun listed => ⟨listed, fun buf room => ?_⟩⟩
  refine clAllocGetStat_eq listed (List.forall_mem_map.mpr fun told live => ?_) room
  exact Told.line_visible (kept.timely told live)

/-- Every line has 96 bytes at most, and a buffer with as many for each block that
`cl_allocing_cnt` counts, with the summary and a NUL, is never overrun.
-/
def Ledger.Within (zone : Zone) (l : Ledger θ) : Prop :=
  (∃ lines, allocLines zone l.objs = some lines ∧ ∀ line ∈ lines, line.length ≤ 96)
  ∧ ∀ buf : Buffer,
      (summary l.objs).length + 96 * clAllocingCnt l.state < buf.length
      → clAllocGetStat zone l.objs (some buf) ≠ none

theorem Told.apart_of_short {told : Told}
    (short : told.caller.tag.length ≤ 23 ∧ told.caller.fun_.length ≤ 23)
    : told.Apart :=
  ⟨Or.inl short.2, Or.inl short.1⟩

/-- With short names the lines are as long as what varies in them. -/
theorem Ledger.Kept.within_iff (kept : l.Kept (Timely zone))
    (named
      : ∀ told ∈ l.live, told.caller.tag.length ≤ 23 ∧ told.caller.fun_.length ≤ 23)
    : l.Within zone ↔ l.objs.length < 2 ^ 32 ∧ ∀ told ∈ l.live, told.width ≤ 41 := by
  have listed : allocLines zone l.objs = some (l.live.map (Told.line zone)) :=
    kept.allocLines_iff.mpr fun told live => Told.apart_of_short (named told live)
  have visible : ∀ line ∈ l.live.map (Told.line zone), 0 ∉ line :=
    List.forall_mem_map.mpr fun told live => Told.line_visible (kept.timely told live)
  have length : ∀ told ∈ l.live, (told.line zone).length = 55 + told.width :=
    fun told live => Told.line_length (kept.timely told live) (named told live)
  have count : (l.live.map (Told.line zone)).length = l.objs.length := by
    rw [kept.live_eq, Ledger.objs]
    simp only [List.length_map]
  have counted : clAllocingCnt l.state = l.objs.length % 2 ^ 32 := by
    rw [clAllocingCnt, sizeLimit, Nat.mod_mod_of_dvd _ (Nat.pow_dvd_pow 2 (by decide : 32 ≤ 64)),
      Ledger.objs, List.length_map]
  constructor
  · rintro ⟨⟨lines, listed', short⟩, fits⟩
    obtain rfl := Option.some.inj (listed.symm.trans listed')
    constructor
    · by_contra many
      -- each line has 55 bytes at least, and the counter has lost 2 ^ 32 of them
      have long : (l.live.map (Told.line zone)).length * 55
          ≤ (l.live.map (Told.line zone)).flatten.length :=
        le_length_flatten (List.forall_mem_map.mpr fun told live => by
          rw [length told live]
          exact Nat.le_add_right 55 _)
      let buf : Buffer :=
        List.replicate ((summary l.objs).length + 96 * clAllocingCnt l.state + 1) 0
      have size : buf.length = (summary l.objs).length + 96 * clAllocingCnt l.state + 1 :=
        List.length_replicate
      have room := clAllocGetStat_room listed visible (by omega) (fits buf (by omega))
      rw [List.length_append] at room
      omega
    · intro told live
      have bound := short _ (List.mem_map_of_mem live)
      rw [length told live] at bound
      omega
  · rintro ⟨few, narrow⟩
    have short : ∀ line ∈ l.live.map (Told.line zone), line.length ≤ 96 :=
      List.forall_mem_map.mpr fun told live => by
        have width := narrow told live
        rw [length told live]
        omega
    refine ⟨⟨_, listed, short⟩, fun buf room => ?_⟩
    have flat := length_flatten_le short
    have room' : (summary l.objs ++ (l.live.map (Told.line zone)).flatten).length < buf.length := by
      rw [List.length_append]
      omega
    obtain ⟨buf', printed, _⟩ := clAllocGetStat_eq listed visible room'
    rw [printed]
    exact Option.some_ne_none _

-----------------------------------------------------------------------------------------
-- Every run
-----------------------------------------------------------------------------------------

/-- What the report says is true if and only if no name has run into the next field: that of the
function has 23 bytes at most or the tag is empty, and the tag has 23 bytes at most or the lowest
byte of the line number is zero.
-/
theorem report_faithful [DecidableEq θ] {events : List (Event θ)}
    (timely : ∀ e ∈ events, Timely zone e.now)
    (ran : Transition.run Ledger.step Ledger.initial events = some l)
    : l.Faithful zone
      ↔ ∀ told ∈ l.live,
          (told.caller.fun_.length ≤ 23 ∨ told.caller.tag = [])
          ∧ (told.caller.tag.length ≤ 23 ∨ told.caller.lineNo.toInt % 256 = 0) :=
  (Ledger.kept timely ran).faithful_iff.trans
    (forall₂_congr fun _ _ => ⟨fun apart => ⟨apart.1, apart.2⟩, fun ⟨fun_, tag⟩ => ⟨fun_, tag⟩⟩)

/-- A zone without an offset. -/
def utc : Zone := ⟨0, 0, fun _ => false⟩

/-- Every step of `cl_malloc`, in the first second of 1970. -/
def reportedCall (caller : Caller) (size : Int32) (addr : Nat) : List (Event Unit) :=
  (mallocCall size addr).map fun action => ⟨action, caller, fun _ => 0, 0⟩

theorem timely_zero : Timely utc 0 where
  instant := by decide
  year := by decide

theorem reportedCall_timely {caller : Caller} {size : Int32} {addr : Nat}
    : ∀ e ∈ reportedCall caller size addr, Timely utc e.now :=
  List.forall_mem_map.mpr fun _ _ => timely_zero

/-- Two blocks, one with a long function name and no tag. -/
theorem report_faithful_two
    : let l :=
        (Transition.run Ledger.step Ledger.initial
          (reportedCall (lettered 40 0 7) 8 4096 ++ reportedCall (lettered 9 6 47) 24 8192)).get
            (by decide)
      l.live.length = 2 ∧ l.Faithful utc :=
  ⟨rfl,
    (report_faithful
      (fun e member =>
        (List.mem_append.mp member).elim (reportedCall_timely e) (reportedCall_timely e))
      (Option.some_get _).symm).mpr (by decide)⟩

/-- A function name of 24 bytes is followed by the tag. -/
theorem report_faithful_long
    : ¬∀ (events : List (Event Unit)) (l : Ledger Unit),
        (∀ e ∈ events, Timely utc e.now)
        → (∀ e ∈ events, e.caller.fun_.length < 72 ∧ e.caller.tag.length < 72)
        → Transition.run Ledger.step Ledger.initial events = some l
        → l.Faithful utc := by
  intro claim
  obtain ⟨l, ran, told, live, runs⟩
      : ∃ l,
          Transition.run Ledger.step Ledger.initial (reportedCall (lettered 24 6 47) 8 4096)
            = some l
          ∧ ∃ told ∈ l.live, ¬(told.caller.fun_.length ≤ 23 ∨ told.caller.tag = []) :=
    ⟨_, (Option.some_get (by decide)).symm, by decide⟩
  have apart :=
    (Ledger.kept reportedCall_timely ran).faithful_iff.mp
      (claim _ l reportedCall_timely (by decide) ran)
  exact runs (apart told live).fun_

/-- With names of 23 bytes at most, the documented room is enough if and only if both names, the
line number, the address and the size have 41 bytes together, in less than 2^32 records.
-/
theorem report_within [DecidableEq θ] {events : List (Event θ)}
    (timely : ∀ e ∈ events, Timely zone e.now)
    (ran : Transition.run Ledger.step Ledger.initial events = some l)
    (named
      : ∀ told ∈ l.live, told.caller.tag.length ≤ 23 ∧ told.caller.fun_.length ≤ 23)
    : l.Within zone
      ↔ l.objs.length < 2 ^ 32
        ∧ ∀ told ∈ l.live,
            told.caller.tag.length + told.caller.fun_.length
                + (decimal told.caller.lineNo.toInt).length
                + (pointer told.newMem.toNat).length
                + (decimal told.size.toInt).length
              ≤ 41 :=
  (Ledger.kept timely ran).within_iff named

/-- A block with short names. -/
theorem report_within_short
    : let l :=
        (Transition.run Ledger.step Ledger.initial (reportedCall (lettered 9 6 47) 24 8192)).get
          (by decide)
      l.live.length = 1 ∧ l.Within utc :=
  ⟨rfl,
    (report_within reportedCall_timely (Option.some_get _).symm (by decide)).mpr
      ⟨by decide, by decide⟩⟩

/-- Two names of 23 bytes are too much. -/
theorem report_within_wide
    : ¬∀ (events : List (Event Unit)) (l : Ledger Unit),
        (∀ e ∈ events, Timely utc e.now)
        → Transition.run Ledger.step Ledger.initial events = some l
        → (∀ told ∈ l.live, told.caller.tag.length ≤ 23 ∧ told.caller.fun_.length ≤ 23)
        → l.Within utc := by
  intro claim
  obtain ⟨l, ran, named, told, live, wide⟩
      : ∃ l,
          Transition.run Ledger.step Ledger.initial (reportedCall (lettered 23 23 47) 8 4096)
            = some l
          ∧ (∀ told ∈ l.live, told.caller.tag.length ≤ 23 ∧ told.caller.fun_.length ≤ 23)
          ∧ ∃ told ∈ l.live, 41 < told.width :=
    ⟨_, (Option.some_get (by decide)).symm, by decide, by decide⟩
  have narrow :=
    ((Ledger.kept reportedCall_timely ran).within_iff named).mp
      (claim _ l reportedCall_timely ran named)
  exact absurd (narrow.2 told live) (Nat.not_le.mpr wide)

end Libccll.Alloc
