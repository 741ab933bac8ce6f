import Mathlib.Data.List.Nodup
import Mathlib.Data.List.Perm.Subperm
import Libccll.Config.Agreement
import Libccll.Config.Bounds
import Libccll.Sys.Mem

/-! What the functions of `sys/mem.c` make of a report of the kernel. -/

namespace Libccll.Mems

open Foundation CString Decimal Printing Scanning

/-- A line that gives the amount of an item, or another one. -/
inductive Line where
  | amount (item : Item) (blanks : List UInt8) (v : Nat) (unit : List UInt8)
  | other (s : List UInt8)

def Line.bytes : Line → List UInt8
  | .amount item blanks v unit => item.label ++ (blanks ++ (digits 10 v ++ unit))
  | .other s => s

def render (report : List Line) : List UInt8 := report.flatMap fun l => l.bytes ++ [chr '\n']

/-- An amount is a `long` on a line that fits the buffer. Another line may be of any length, but
wherever `fgets` cuts it there is no label behind the cut.
-/
def Line.Regular : Line → Prop
  | .amount item blanks v unit =>
      (∀ b ∈ blanks, isSpace b = true)
      ∧ (∀ b ∈ unit.head?, isDigit b = false)
      ∧ v < 2 ^ 63
      ∧ chr '\n' ∉ blanks ++ unit
      ∧ 0 ∉ unit
      ∧ (Line.amount item blanks v unit).bytes.length < 255
  | .other s => chr '\n' ∉ s ∧ 0 ∉ s ∧ ∀ k, itemOf (s.drop (255 * k)) = none

/-- The amounts, line by line. -/
def amounts (report : List Line) : List (Item × Nat) :=
  report.flatMap fun
    | .amount item _ v _ => [(item, v)]
    | .other _ => []

/-- The last one of an item, and 0 without one. -/
def last (found : List (Item × Nat)) (item : Item) : Int :=
  ((found.filter fun p => p.1 = item).getLast?.map fun p => (p.2 : Int)).getD 0

variable {buffer proc_stt pid_in_str : Buffer} {fp s rest : List UInt8} {mi mi' : MemInfo}
variable {foundCnt : Nat} {item : Item} {report : List Line}

-----------------------------------------------------------------------------------------
-- Labels
-----------------------------------------------------------------------------------------

/-- No label is the start of another one. -/
theorem itemOf_label (item : Item) (rest : List UInt8)
    : itemOf (item.label ++ rest) = some item := by
  cases item <;> rfl

theorem itemOf_eq_none : itemOf s = none ↔ ∀ item : Item, ¬item.label <+: s := by
  rw [itemOf, List.find?_eq_none]
  constructor
  · intro others item starts
    exact others item (by cases item <;> decide) (List.isPrefixOf_iff_prefix.mpr starts)
  · exact fun others item _ starts => others item (List.isPrefixOf_iff_prefix.mp starts)

theorem itemOf_front {t : List UInt8} (front : t <+: s) (other : itemOf s = none)
    : itemOf t = none :=
  itemOf_eq_none.mpr fun item starts => itemOf_eq_none.mp other item (starts.trans front)

/-- A newline makes no label of a line. -/
theorem itemOf_newline (other : itemOf s = none) : itemOf (s ++ [chr '\n']) = none := by
  rw [itemOf_eq_none] at other ⊢
  intro item starts
  rcases List.prefix_concat_iff.mp starts with same | front
  · have newline : chr '\n' ∈ item.label := by
      rw [same]
      exact List.mem_concat_self
    revert newline
    cases item <;> decide
  · exact other item front

-----------------------------------------------------------------------------------------
-- The loop
-----------------------------------------------------------------------------------------

/-- The number on a line is stored. -/
def store (mi : MemInfo) (found : Item × Nat) : MemInfo := Function.update mi found.1 found.2

/-- With turns enough, the loop comes to this. -/
def Reads (fp : List UInt8) (foundCnt : Nat) (mi mi' : MemInfo) : Prop :=
  ∀ turns buffer,
    fp.length < turns → buffer.length = 256 → readLoop turns buffer fp foundCnt mi = some mi'

theorem Reads.nil : Reads [] foundCnt mi mi := by
  intro turns buffer enough _
  obtain ⟨turns, rfl⟩ := Nat.exists_eq_add_one_of_ne_zero (Nat.ne_of_gt enough)
  rfl

/-- All that is counted has been found. -/
theorem Reads.full : Reads fp itemCnt mi mi := by
  intro turns buffer enough size
  obtain ⟨turns, rfl⟩ := Nat.exists_eq_add_one_of_ne_zero (Nat.ne_zero_of_lt enough)
  rw [readLoop, Ini.fgets]
  split
  · rfl
  · have short : (Ini.readLine 255 fp ++ [0]).length ≤ buffer.length := by
      rw [List.length_append, size]
      exact Nat.succ_le_succ Ini.readLine_length
    rw [fill, if_pos short, Option.map_some, Option.bind_eq_bind, Option.bind_some]
    rfl

/-- What `fgets` reads at once, and the loop behind it. -/
theorem readLoop_piece (size : buffer.length = 256) (read : Ini.readLine 255 (s ++ rest) = s)
    (nonempty : s ≠ []) (nonzero : 0 ∉ s) (left : foundCnt ≠ itemCnt) {turns : Nat}
    : ∃ buffer',
        buffer'.length = 256
        ∧ (itemOf s = none
          → readLoop (turns + 1) buffer (s ++ rest) foundCnt mi
            = readLoop turns buffer' rest foundCnt mi)
        ∧ ∀ item,
          itemOf s = some item
            → readLoop (turns + 1) buffer (s ++ rest) foundCnt mi
              = readLoop turns buffer' rest (foundCnt + 1)
                  (Function.update mi item (sscanfLd (s.drop item.label.length) (mi item))) := by
  have short : s.length ≤ 255 := by
    rw [← read]
    exact Ini.readLine_length
  obtain ⟨buffer', got, size', holds⟩ := Ini.fgets_eq size read nonempty nonzero short
  rw [List.drop_left] at got
  refine ⟨buffer', size', fun other => ?_, fun item labeled => ?_⟩
  · simp only [readLoop, got, Option.bind_eq_bind, Option.bind_some, if_neg left, holds.str, other]
  · simp only [readLoop, got, Option.bind_eq_bind, Option.bind_some, if_neg left, holds.str,
      labeled]

theorem Reads.skip (read : Ini.readLine 255 (s ++ rest) = s) (nonempty : s ≠ [])
    (nonzero : 0 ∉ s) (left : foundCnt ≠ itemCnt) (other : itemOf s = none)
    (later : Reads rest foundCnt mi mi')
    : Reads (s ++ rest) foundCnt mi mi' := by
  intro turns buffer enough size
  obtain ⟨turns, rfl⟩ := Nat.exists_eq_add_one_of_ne_zero (Nat.ne_zero_of_lt enough)
  obtain ⟨buffer', size', taken, -⟩ := readLoop_piece size read nonempty nonzero left
  rw [taken other]
  have pos := List.length_pos_of_ne_nil nonempty
  rw [List.length_append] at enough
  exact later turns buffer' (by omega) size'

/-- A line without a label, in as many pieces as it takes. -/
theorem Reads.other (apart : chr '\n' ∉ s) (nonzero : 0 ∉ s) (left : foundCnt ≠ itemCnt)
    (plain : ∀ k, itemOf (s.drop (255 * k)) = none) (later : Reads rest foundCnt mi mi')
    : Reads (s ++ [chr '\n'] ++ rest) foundCnt mi mi' := by
  induction h : s.length using Nat.strongRecOn generalizing s with
  | _ n ih =>
      have here : itemOf s = none := plain 0
      rcases Nat.lt_or_ge s.length 255 with short | long
      · refine Reads.skip ?_ (by simp) ?_ left (itemOf_newline here) later
        · rw [List.append_assoc]
          exact Ini.readLine_newline apart short
        · rw [List.mem_append, not_or]
          exact ⟨nonzero, by decide⟩
      · have full : (s.take 255).length = 255 := List.length_take_of_le long
        have split : s ++ [chr '\n'] ++ rest
            = s.take 255 ++ (s.drop 255 ++ [chr '\n'] ++ rest) := by
          rw [List.append_assoc, List.append_assoc, ← List.append_assoc (s.take 255),
            List.take_append_drop]
        have kept {b : UInt8} (absent : b ∉ s) : b ∉ s.take 255 :=
          fun member => absent (List.mem_of_mem_take member)
        have kept' {b : UInt8} (absent : b ∉ s) : b ∉ s.drop 255 :=
          fun member => absent (List.mem_of_mem_drop member)
        rw [split]
        refine Reads.skip (Ini.readLine_full (kept apart) (Nat.le_of_eq full) (Or.inl full)) ?_
          (kept nonzero) left (itemOf_front (List.take_prefix 255 s) here) ?_
        · intro nil
          rw [nil] at full
          cases full
        · refine ih _ ?_ (kept' apart) (kept' nonzero) (fun k => ?_) rfl
          · rw [List.length_drop]
            omega
          · rw [List.drop_drop, Nat.add_comm, ← Nat.mul_succ]
            exact plain (k + 1)

/-- A line with an amount has no newline in it and no NUL. -/
theorem Line.Regular.visible {blanks unit : List UInt8} {v : Nat}
    (regular : (Line.amount item blanks v unit).Regular)
    : chr '\n' ∉ (Line.amount item blanks v unit).bytes
      ∧ 0 ∉ (Line.amount item blanks v unit).bytes := by
  obtain ⟨blank, -, -, apart, nonzero, -⟩ := regular
  rw [List.mem_append, not_or] at apart
  have digit (b : UInt8) (other : isDigit b = false) : b ∉ digits 10 v :=
    fun member => Bool.eq_false_iff.mp other (isDigit_digits v b member)
  have blank' : 0 ∉ blanks := fun member => absurd (blank 0 member) (by decide)
  simp only [Line.bytes, List.mem_append, not_or]
  refine ⟨⟨?_, apart.1, digit _ (by decide), apart.2⟩, ?_, blank', digit _ (by decide), nonzero⟩
  · cases item <;> decide
  · cases item <;> decide

/-- A line with an amount. -/
theorem Reads.amount {blanks unit : List UInt8} {v : Nat} (left : foundCnt ≠ itemCnt)
    (regular : (Line.amount item blanks v unit).Regular)
    (later : Reads rest (foundCnt + 1) (store mi (item, v)) mi')
    : Reads ((Line.amount item blanks v unit).bytes ++ [chr '\n'] ++ rest) foundCnt mi mi' := by
  obtain ⟨apart, nonzero⟩ := regular.visible
  obtain ⟨blank, ends, small, -, -, short⟩ := regular
  have labeled
      : (Line.amount item blanks v unit).bytes ++ [chr '\n']
        = item.label ++ (blanks ++ (digits 10 v ++ (unit ++ [chr '\n']))) := by
    simp only [Line.bytes, List.append_assoc]
  have stops : ∀ b ∈ (unit ++ [chr '\n']).head?, isDigit b = false := by
    cases unit with
    | nil =>
        rintro b ⟨⟩
        decide
    | cons b unit => exact ends
  have fits : saturate v = v := by
    rw [saturate, Int.min_eq_left (by omega), Int.max_eq_right (by omega)]
  have read
      : Ini.readLine 255 ((Line.amount item blanks v unit).bytes ++ [chr '\n'] ++ rest)
        = (Line.amount item blanks v unit).bytes ++ [chr '\n'] := by
    rw [List.append_assoc]
    exact Ini.readLine_newline apart short
  have visible : 0 ∉ (Line.amount item blanks v unit).bytes ++ [chr '\n'] := by
    rw [List.mem_append, not_or]
    exact ⟨nonzero, by decide⟩
  intro turns buffer enough size
  obtain ⟨turns, rfl⟩ := Nat.exists_eq_add_one_of_ne_zero (Nat.ne_zero_of_lt enough)
  obtain ⟨buffer', size', -, taken⟩ := readLoop_piece size read (by simp) visible left
  rw [taken item (by rw [labeled, itemOf_label]), labeled, List.drop_left,
    sscanfLd_digits _ blank stops, fits]
  rw [List.length_append, List.length_append, List.length_singleton] at enough
  exact later turns buffer' (by omega) size'

/-- The report is read up to the last line that counts. -/
theorem reads_report (regular : ∀ l ∈ report, l.Regular) (room : foundCnt ≤ itemCnt)
    : Reads (render report) foundCnt mi
        (((amounts report).take (itemCnt - foundCnt)).foldl store mi) := by
  induction report generalizing foundCnt mi with
  | nil =>
      rw [show amounts [] = [] from rfl, List.take_nil]
      exact Reads.nil
  | cons l report ih =>
      obtain ⟨here, later⟩ := List.forall_mem_cons.mp regular
      rcases Nat.eq_or_lt_of_le room with rfl | left
      · rw [Nat.sub_self, List.take_zero]
        exact Reads.full
      cases l with
      | amount item blanks v unit =>
          have more : itemCnt - foundCnt = itemCnt - (foundCnt + 1) + 1 := by omega
          rw [more]
          exact Reads.amount (Nat.ne_of_lt left) here (ih later left)
      | other s =>
          obtain ⟨apart, nonzero, plain⟩ := here
          exact Reads.other apart nonzero (Nat.ne_of_lt left) plain (ih later room)

-----------------------------------------------------------------------------------------
-- What is stored for the caller
-----------------------------------------------------------------------------------------

variable {found : List (Item × Nat)} {v : Nat}

theorem foldl_store (found : List (Item × Nat)) : found.foldl store (fun _ => 0) = last found := by
  induction found using List.reverseRecOn with
  | nil => rfl
  | append_singleton found p ih =>
      funext item
      rw [List.foldl_append, List.foldl_cons, List.foldl_nil, ih, store, last, List.filter_append,
        Function.update_apply]
      split
      · rename_i same
        rw [List.filter_singleton, decide_eq_true same.symm, cond_true, List.getLast?_concat]
        rfl
      · rename_i other
        rw [List.filter_singleton, decide_eq_false (Ne.symm other), cond_false, List.append_nil]
        rfl

theorem last_absent (absent : item ∉ found.map Prod.fst) : last found item = 0 := by
  have none : found.filter (fun p => p.1 = item) = [] :=
    List.filter_eq_nil_iff.mpr fun p member same =>
      absent (List.mem_map.mpr ⟨p, member, of_decide_eq_true same⟩)
  rw [last, none]
  rfl

theorem last_once (once : (found.map Prod.fst).Nodup) (member : (item, v) ∈ found)
    : last found item = v := by
  have same {p : Item × Nat} (member' : p ∈ found) (item' : p.1 = item) : p = (item, v) :=
    List.inj_on_of_nodup_map once member' member item'
  have last' : (found.filter fun p => p.1 = item).getLast? = some (item, v) := by
    obtain ⟨p, found'⟩ : ∃ p, (found.filter fun p => p.1 = item).getLast? = some p := by
      refine Option.ne_none_iff_exists'.mp fun none => ?_
      exact List.filter_eq_nil_iff.mp (List.getLast?_eq_none_iff.mp none) _ member
        (decide_eq_true rfl)
    obtain ⟨member', item'⟩ := List.mem_filter.mp (List.mem_of_getLast? found')
    rw [found', same member' (of_decide_eq_true item')]
  rw [last, last']
  rfl

/-- The seven items do not fill the count. -/
theorem take_once (once : (found.map Prod.fst).Nodup) : found.take itemCnt = found := by
  have all : found.map Prod.fst ⊆ items := fun item _ => by cases item <;> decide
  have few := (once.subperm all).length_le
  rw [List.length_map] at few
  exact List.take_of_length_le (Nat.le_trans few (by decide))

variable {fopen : List UInt8 → Option (List UInt8)} {process : List UInt8} {out : RunningMems}

/-- `_get_running_mems` with a name that fits. -/
theorem _getRunningMems_eq (size : proc_stt.length = 64) (size' : buffer.length = 256)
    (nonzero : 0 ∉ process) (short : process.length ≤ 50) (regular : ∀ l ∈ report, l.Regular)
    : (fopen (procStt process) = none
        → _getRunningMems fopen proc_stt buffer process out = some (.fail, out))
      ∧ (fopen (procStt process) = some (render report)
        → _getRunningMems fopen proc_stt buffer process out
          = some (.succ, RunningMems.of (last ((amounts report).take itemCnt)))) := by
  have visible : 0 ∉ procStt process := by
    simp only [procStt, List.mem_append, not_or]
    exact ⟨⟨by decide, nonzero⟩, by decide⟩
  have room : (procStt process).length < proc_stt.length := by
    simp only [procStt, List.length_append, size]
    have lengths : (text "/proc/").length = 6 ∧ (text "/status").length = 7 := by decide
    omega
  obtain ⟨path, filled, -, holds⟩ := fill_terminated proc_stt visible room
  have reads : Reads (render report) 0 (fun _ => 0) (last ((amounts report).take itemCnt)) := by
    rw [← foldl_store]
    exact reads_report regular (Nat.zero_le itemCnt)
  have read := reads ((render report).length + 1) buffer (Nat.lt_succ_self _) size'
  constructor
  · intro absent
    simp only [_getRunningMems, filled, Option.bind_eq_bind, Option.bind_some, holds.str, absent]
    rfl
  · intro opened
    simp only [_getRunningMems, filled, Option.bind_eq_bind, Option.bind_some, holds.str, opened,
      read]
    rfl

/-- `cl_mem_get_running_mems` for every process, and `cl_mem_get_curr_running_mems`: without a
report the caller's memory is as it was; with one it gets the last amount of each item on the first
fourteen lines with one. On a report that says each item once at most these are the amounts, 0 for
what it does not say.
-/
theorem mems_read (size : pid_in_str.length = 16) (size' : proc_stt.length = 64)
    (size'' : buffer.length = 256) (regular : ∀ l ∈ report, l.Regular)
    : (∀ pid : Int,
        -2 ^ 31 ≤ pid
        → pid < 2 ^ 31
        → let told := clMemGetRunningMems fopen pid_in_str proc_stt buffer pid out
          (fopen (procStt (decimal pid)) = none → told = some (.fail, out))
          ∧ (fopen (procStt (decimal pid)) = some (render report)
            → told = some (.succ, RunningMems.of (last ((amounts report).take itemCnt)))))
      ∧ (let told := clMemGetCurrRunningMems fopen proc_stt buffer out
        (fopen (procStt (text "self")) = none → told = some (.fail, out))
        ∧ (fopen (procStt (text "self")) = some (render report)
          → told = some (.succ, RunningMems.of (last ((amounts report).take itemCnt)))))
      ∧ (((amounts report).map Prod.fst).Nodup
        → ∀ item,
          (∀ v,
            (item, v) ∈ amounts report
            → v < 2 ^ 31
            → toInt (last ((amounts report).take itemCnt) item) = v)
          ∧ (item ∉ (amounts report).map Prod.fst
            → toInt (last ((amounts report).take itemCnt) item) = 0)) := by
  refine ⟨fun pid low high => ?_, ?_, fun once item => ?_⟩
  · have short : (decimal pid).length ≤ 11 := length_decimal_le low high
    obtain ⟨pid_in_str', filled, -, holds⟩ :=
      fill_terminated pid_in_str (zero_notMem_decimal (v := pid)) (by omega)
    have same
        : clMemGetRunningMems fopen pid_in_str proc_stt buffer pid out
          = _getRunningMems fopen proc_stt buffer (decimal pid) out := by
      simp only [clMemGetRunningMems, filled, Option.bind_eq_bind, Option.bind_some, holds.str]
    rw [same]
    exact _getRunningMems_eq size' size'' zero_notMem_decimal (by omega) regular
  · exact _getRunningMems_eq size' size'' (by decide) (by decide) regular
  · rw [take_once once]
    refine ⟨fun v member small => ?_, fun absent => ?_⟩
    · rw [last_once once member, toInt]
      exact Int.bmod_eq_of_le (by omega) (by omega)
    · rw [last_absent absent]
      rfl

/-- The report of a process that uses 2 MB, with a name line in front. -/
def smallReport : List Line :=
  [.other (text "Name:\tsh"), .amount .vmrss (text "\t    ") 2048 (text " kB")]

/-- It is read. -/
theorem mems_read_small
    : clMemGetRunningMems (fun _ => some (render smallReport)) (List.replicate 16 0)
        (List.replicate 64 0) (List.replicate 256 0) 1 ⟨1, 1, 1, 1, 1⟩
      = some (.succ, ⟨2048, 0, 0, 0, 0⟩) := by
  have regular : ∀ l ∈ smallReport, l.Regular := by
    intro l member
    rcases List.mem_pair.mp member with rfl | rfl
    · refine ⟨by decide, by decide, fun k => ?_⟩
      cases k with
      | zero => decide
      | succ k =>
          have length : (text "Name:\tsh").length ≤ 255 * (k + 1) :=
            Nat.le_trans (by decide) (Nat.le_mul_of_pos_right 255 (Nat.succ_pos k))
          rw [List.drop_eq_nil_of_le length]
          rfl
    · have blank : (text "\t    ").all isSpace = true := by decide
      refine ⟨List.all_eq_true.mp blank, ?_, by decide, by decide, by decide, by decide⟩
      rintro b ⟨⟩
      decide
  have told
      : clMemGetRunningMems (fun _ => some (render smallReport)) (List.replicate 16 0)
          (List.replicate 64 0) (List.replicate 256 0) 1 ⟨1, 1, 1, 1, 1⟩
        = some (.succ, RunningMems.of (last ((amounts smallReport).take itemCnt))) :=
    ((mems_read List.length_replicate List.length_replicate List.length_replicate regular).1 1
      (by decide) (by decide)).2 rfl
  have small
      : RunningMems.of (last ((amounts smallReport).take itemCnt)) = ⟨2048, 0, 0, 0, 0⟩ := by
    decide
  rw [told, small]

end Libccll.Mems
