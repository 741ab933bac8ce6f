import Libccll.Config.Txt

/-! What `cl_txt_pos_line` makes of a line, and of a whole text when it is called for one line
after the other.
-/

namespace Libccll.Txt

open Foundation.CString

-----------------------------------------------------------------------------------------
-- Lines of a text
-----------------------------------------------------------------------------------------

/-- A text is a line, or one in front of a newline and a text. -/
theorem text_cases (text : List UInt8)
    : (chr '\n' ∉ text ∧ text.splitOn (chr '\n') = [text])
      ∨ ∃ line rest,
        text = line ++ chr '\n' :: rest
        ∧ chr '\n' ∉ line
        ∧ text.splitOn (chr '\n') = line :: rest.splitOn (chr '\n') := by
  rcases Decidable.em (chr '\n' ∈ text) with member | absent
  · obtain ⟨rest, split⟩ := before_split member
    have apart : chr '\n' ∉ before (chr '\n') text := not_mem_before
    refine Or.inr ⟨_, rest, split, apart, ?_⟩
    conv_lhs => rw [split]
    rw [List.splitOn_append_cons_self, List.splitOn_eq_singleton apart, List.singleton_append]
  · exact Or.inl ⟨absent, List.splitOn_eq_singleton absent⟩

/-- Without the CR at its end. -/
def chomp (line : List UInt8) : List UInt8 :=
  if line.getLast? = some (chr '\r') then line.dropLast else line

variable {s rest : List UInt8}

theorem chomp_subset : chomp s ⊆ s := by
  unfold chomp
  split
  · exact List.dropLast_subset s
  · exact List.Subset.refl s

/-- What is delivered of the lines of a text: only the last one keeps a CR at its end. -/
def delivered : List (List UInt8) → List (List UInt8)
  | [] => []
  | [last] => [last]
  | line :: next :: rest => chomp line :: delivered (next :: rest)

-----------------------------------------------------------------------------------------
-- One line
-----------------------------------------------------------------------------------------

variable {dst src : Buffer} {max pos off : Nat}

theorem scan_newline (apart : chr '\n' ∉ s) (nonzero : 0 ∉ s) (counted : off + s.length ≤ intMax)
    : scan (s ++ chr '\n' :: src) off = some (true, off + s.length) := by
  induction s generalizing off with
  | nil => simp [scan, show chr '\n' ≠ 0 by decide]
  | cons b s ih =>
      obtain ⟨other, apart⟩ := not_or.mp (List.mem_cons.not.mp apart)
      obtain ⟨other', nonzero⟩ := not_or.mp (List.mem_cons.not.mp nonzero)
      rw [List.length_cons] at counted ⊢
      rw [List.cons_append, scan, if_neg (Ne.symm other'), if_neg (Ne.symm other),
        if_neg (by omega), ih apart nonzero (by omega), Nat.add_right_comm, Nat.add_assoc]

theorem scan_end (apart : chr '\n' ∉ s) (nonzero : 0 ∉ s) (counted : off + s.length ≤ intMax)
    : scan (s ++ 0 :: src) off = some (false, off + s.length) := by
  induction s generalizing off with
  | nil => simp [scan]
  | cons b s ih =>
      obtain ⟨other, apart⟩ := not_or.mp (List.mem_cons.not.mp apart)
      obtain ⟨other', nonzero⟩ := not_or.mp (List.mem_cons.not.mp nonzero)
      rw [List.length_cons] at counted ⊢
      rw [List.cons_append, scan, if_neg (Ne.symm other'), if_neg (Ne.symm other),
        if_neg (by omega), ih apart nonzero (by omega), Nat.add_right_comm, Nat.add_assoc]

/-- More bytes than `int` can count. -/
theorem scan_uncounted (apart : chr '\n' ∉ s) (nonzero : 0 ∉ s) (start : off ≤ intMax)
    (uncounted : intMax < off + s.length)
    : scan (s ++ src) off = none := by
  induction s generalizing off with
  | nil => exact absurd uncounted (Nat.not_lt.mpr start)
  | cons b s ih =>
      obtain ⟨other, apart⟩ := not_or.mp (List.mem_cons.not.mp apart)
      obtain ⟨other', nonzero⟩ := not_or.mp (List.mem_cons.not.mp nonzero)
      rw [List.length_cons] at uncounted
      rw [List.cons_append, scan, if_neg (Ne.symm other'), if_neg (Ne.symm other)]
      rcases Nat.lt_or_eq_of_le start with below | full
      · rw [if_neg (Nat.ne_of_lt below)]
        exact ih apart nonzero below (by omega)
      · exact if_pos full

/-- Copying a line out of a text. -/
theorem strncpy_line {t : List UInt8} (holds : Holds src pos (s ++ t))
    : strncpy dst src pos s.length = fill dst s := by
  obtain ⟨nonzero, rest, tail⟩ := holds
  have nonzero : 0 ∉ s := fun member => nonzero (List.mem_append_left t member)
  have bytes : before 0 ((src.drop pos).take s.length) = s := by
    rw [tail, List.append_assoc, List.take_left, before_absent nonzero]
  simp only [strncpy, bytes, Nat.lt_irrefl, false_and, if_false, Nat.sub_self,
    List.replicate_zero, List.append_nil]

/-- `cl_txt_pos_line` on the last line. -/
theorem clTxtPosLine_last (positive : 1 ≤ max) (holds : Holds src pos s)
    (apart : chr '\n' ∉ s) (room : s.length < dst.length) (counted : s.length ≤ intMax)
    : ∃ dst',
        clTxtPosLine dst max src pos = some (0, dst')
        ∧ dst'.length = dst.length
        ∧ Holds dst' 0 s := by
  obtain ⟨dst₁, dst₂, filled, stored, length, result⟩ := fill_put dst holds.1 room
  have copied : strncpy dst src pos s.length = some dst₁ :=
    (strncpy_line (t := []) (by rwa [List.append_nil])).trans filled
  obtain ⟨nonzero, rest, tail⟩ := holds
  refine ⟨dst₂, ?_, length, result⟩
  have scanned : scan (src.drop pos) 0 = some (false, s.length) := by
    rw [tail, scan_end apart nonzero (by omega), Nat.zero_add]
  simp [clTxtPosLine, Nat.not_lt.mpr positive, scanned, copied, stored]

/-- `cl_txt_pos_line` on a line that ends in a newline. -/
theorem clTxtPosLine_newline (positive : 1 ≤ max)
    (holds : Holds src pos (s ++ chr '\n' :: rest)) (apart : chr '\n' ∉ s)
    (room : s.length < dst.length) (counted : s.length < intMax)
    : ∃ dst',
        clTxtPosLine dst max src pos = some ((s.length : Int) + 1, dst')
        ∧ dst'.length = dst.length
        ∧ Holds dst' 0 (chomp s) := by
  have nonzero : 0 ∉ s := fun member => holds.1 (List.mem_append_left _ member)
  obtain ⟨dst₁, dst₂, filled, stored, length, result⟩ := fill_put dst nonzero room
  have copied : strncpy dst src pos s.length = some dst₁ := (strncpy_line holds).trans filled
  obtain ⟨_, rest', tail⟩ := holds
  have scanned : scan (src.drop pos) 0 = some (true, s.length) := by
    rw [tail, List.append_assoc, List.cons_append, scan_newline apart nonzero (by omega),
      Nat.zero_add]
  have uncut : s.length ≠ intMax := Nat.ne_of_lt counted
  simp only [clTxtPosLine, scanned, copied, stored, Option.bind_eq_bind, Option.bind_some,
    Nat.not_lt.mpr positive, if_false, if_true, if_neg uncut]
  split
  · rename_i ends
    have nonempty : s ≠ [] := List.length_pos_iff.mp ends.1
    rw [result.getLast? nonempty] at ends
    obtain ⟨dst₃, cut, length', result', _⟩ := result.cut (Nat.sub_le s.length 1)
    rw [Nat.zero_add] at cut
    refine ⟨dst₃, by rw [cut]; rfl, length'.trans length, ?_⟩
    rw [chomp, if_pos ends.2, List.dropLast_eq_take]
    exact result'
  · rename_i plain
    refine ⟨dst₂, rfl, length, ?_⟩
    rw [chomp, if_neg]
    · exact result
    · intro ends
      have nonempty : s ≠ [] := by
        rintro rfl
        cases ends
      exact plain ⟨List.length_pos_of_ne_nil nonempty, (result.getLast? nonempty).trans ends⟩

/-- A last line that does not fit into `dst`, or into `int`. -/
theorem clTxtPosLine_last_none (positive : 1 ≤ max) (holds : Holds src pos s)
    (apart : chr '\n' ∉ s) (large : ¬(s.length < dst.length ∧ s.length ≤ intMax))
    : clTxtPosLine dst max src pos = none := by
  have copied : strncpy dst src pos s.length = fill dst s :=
    strncpy_line (t := []) (by rwa [List.append_nil])
  obtain ⟨nonzero, rest, tail⟩ := holds
  rcases Nat.lt_or_ge intMax s.length with uncounted | counted
  · have scanned : scan (src.drop pos) 0 = none := by
      rw [tail, scan_uncounted apart nonzero (Nat.zero_le _) (by omega)]
    simp [clTxtPosLine, Nat.not_lt.mpr positive, scanned]
  · have scanned : scan (src.drop pos) 0 = some (false, s.length) := by
      rw [tail, scan_end apart nonzero (by omega), Nat.zero_add]
    have long : dst.length ≤ s.length :=
      Nat.le_of_not_lt fun short => large ⟨short, counted⟩
    have stored := fill_put_none long
    simp only [clTxtPosLine, scanned, copied, Option.bind_eq_bind, Option.bind_some,
      Nat.not_lt.mpr positive, if_false]
    rw [← Option.bind_assoc, stored]
    rfl

/-- A line in front of a newline that does not fit into `dst`, or into `int` with the newline. -/
theorem clTxtPosLine_newline_none (positive : 1 ≤ max)
    (holds : Holds src pos (s ++ chr '\n' :: rest)) (apart : chr '\n' ∉ s)
    (large : ¬(s.length < dst.length ∧ s.length < intMax))
    : clTxtPosLine dst max src pos = none := by
  have copied : strncpy dst src pos s.length = fill dst s := strncpy_line holds
  obtain ⟨nonzero, rest', tail⟩ := holds
  have nonzero : 0 ∉ s := fun member => nonzero (List.mem_append_left _ member)
  rcases Nat.lt_or_ge intMax s.length with uncounted | counted
  · have scanned : scan (src.drop pos) 0 = none := by
      rw [tail, List.append_assoc,
        scan_uncounted apart nonzero (Nat.zero_le _) (by omega)]
    simp [clTxtPosLine, Nat.not_lt.mpr positive, scanned]
  · have scanned : scan (src.drop pos) 0 = some (true, s.length) := by
      rw [tail, List.append_assoc, List.cons_append, scan_newline apart nonzero (by omega),
        Nat.zero_add]
    simp only [clTxtPosLine, scanned, copied, Option.bind_eq_bind, Option.bind_some,
      Nat.not_lt.mpr positive, if_false, if_true]
    rcases Nat.lt_or_ge s.length dst.length with short | long
    · have full : s.length = intMax := by omega
      simp only [if_pos full, ite_self, Option.bind_fun_none]
    · rw [← Option.bind_assoc, fill_put_none long]
      rfl

-----------------------------------------------------------------------------------------
-- The bound of the buffer
-----------------------------------------------------------------------------------------

/-- The first line of a text fits into so many bytes with its terminator, and `int` can count its
bytes and the newline.
-/
def LineFits (max : Nat) (text : List UInt8) : Prop :=
  (before (chr '\n') text).length < max
  ∧ (before (chr '\n') text).length + (if chr '\n' ∈ text then 1 else 0) ≤ intMax

instance (max : Nat) (text : List UInt8) : Decidable (LineFits max text) :=
  inferInstanceAs (Decidable (_ ∧ _))

/-- `cl_txt_pos_line` writes to `dst` only, and delivers at most `max - 1` bytes of the line and
their terminator.
-/
def Bounded (dst : Buffer) (max : Nat) (src : Buffer) (pos : Nat) : Prop :=
  ∃ off dst' line text,
    clTxtPosLine dst max src pos = some (off, dst')
    ∧ dst'.length = dst.length
    ∧ Holds dst' 0 line
    ∧ line.length ≤ max - 1
    ∧ Holds src pos text
    ∧ line <+: before (chr '\n') text

variable {text : List UInt8}

theorem chomp_front : chomp s <+: s := by
  unfold chomp
  split
  · exact List.dropLast_prefix s
  · exact List.prefix_rfl

/-- A destination of `max` bytes is enough if and only if the line fits. -/
theorem line_bounded (size : dst.length = max) (positive : 1 ≤ max) (holds : Holds src pos text)
    : Bounded dst max src pos ↔ LineFits max text := by
  have failed (none_ : clTxtPosLine dst max src pos = none) : ¬Bounded dst max src pos := by
    rintro ⟨off, dst', line, text', got, _⟩
    rw [none_] at got
    cases got
  rcases text_cases text with ⟨apart, _⟩ | ⟨l, rest, rfl, apart, _⟩
  · rw [LineFits, before_absent apart, if_neg apart, Nat.add_zero]
    by_cases fits : text.length < dst.length ∧ text.length ≤ intMax
    · obtain ⟨dst', got, length, result⟩ :=
        clTxtPosLine_last positive holds apart fits.1 fits.2
      refine iff_of_true ⟨0, dst', text, text, got, length, result, ?_, holds, ?_⟩ (size ▸ fits)
      · have short := fits.1
        omega
      · have whole : before (chr '\n') text = text := before_absent apart
        simp only [whole, List.prefix_rfl]
    · exact iff_of_false (failed (clTxtPosLine_last_none positive holds apart fits))
        (size ▸ fits)
  · rw [LineFits, before_append apart, if_pos (by simp), Nat.succ_le_iff]
    by_cases fits : l.length < dst.length ∧ l.length < intMax
    · obtain ⟨dst', got, length, result⟩ :=
        clTxtPosLine_newline positive holds apart fits.1 fits.2
      refine iff_of_true ⟨_, dst', chomp l, _, got, length, result, ?_, holds, ?_⟩ (size ▸ fits)
      · have shorter := (chomp_front (s := l)).length_le
        have short := fits.1
        omega
      · rw [before_append apart]
        exact chomp_front
    · exact iff_of_false (failed (clTxtPosLine_newline_none positive holds apart fits))
        (size ▸ fits)

-----------------------------------------------------------------------------------------
-- A whole text
-----------------------------------------------------------------------------------------

/-- The loop of a caller of `cl_txt_pos_line`, for so many calls at most: the strings that one call
after the other leaves in `dst`.
-/
def posLines (max : Nat) (src : Buffer) : Nat → Buffer → Nat → Option (List (List UInt8))
  | 0, _, _ => none
  | calls + 1, dst, pos => do
      let (off, dst) ← clTxtPosLine dst max src pos
      let line ← str dst 0
      if off = 0 then
        return [line]
      else
        return line :: (← posLines max src calls dst (pos + off.toNat))

/-- `int` can count the bytes of every line, and its newline. -/
def Counted (lines : List (List UInt8)) : Prop :=
  (∀ line ∈ lines, line.length ≤ intMax) ∧ ∀ line ∈ lines.dropLast, line.length < intMax

instance (lines : List (List UInt8)) : Decidable (Counted lines) :=
  inferInstanceAs (Decidable (_ ∧ _))

theorem counted_cons {lines : List (List UInt8)} (more : lines ≠ [])
    : Counted (s :: lines) ↔ s.length < intMax ∧ Counted lines := by
  rw [Counted, Counted, List.dropLast_cons_of_ne_nil more, List.forall_mem_cons,
    List.forall_mem_cons]
  constructor
  · rintro ⟨⟨_, here⟩, shorter, before⟩
    exact ⟨shorter, here, before⟩
  · rintro ⟨shorter, here, before⟩
    exact ⟨⟨Nat.le_of_lt shorter, here⟩, shorter, before⟩

theorem delivered_cons {lines : List (List UInt8)} (more : lines ≠ [])
    : delivered (s :: lines) = chomp s :: delivered lines := by
  obtain ⟨next, lines, rfl⟩ := List.exists_cons_of_ne_nil more
  rfl

theorem delivered_length {lines : List (List UInt8)}
    : (delivered lines).length = lines.length := by
  fun_induction delivered lines with
  | case1 | case2 => rfl
  | case3 line next rest ih => exact congrArg Nat.succ ih

theorem length_splitOn : (text.splitOn (chr '\n')).length = text.count (chr '\n') + 1 := by
  generalize size : text.length = n
  induction n using Nat.strongRecOn generalizing text with
  | _ n ih =>
      rcases text_cases text with ⟨apart, single⟩ | ⟨l, rest, rfl, apart, split⟩
      · rw [single, List.count_eq_zero_of_not_mem apart]
        rfl
      · have shorter : rest.length < n := by
          rw [← size, List.length_append, List.length_cons]
          omega
        rw [split, List.length_cons, ih _ shorter rfl, List.count_append, List.count_cons_self,
          List.count_eq_zero_of_not_mem apart, Nat.zero_add]

/-- The text behind the first line. -/
theorem holds_rest (holds : Holds src pos (s ++ chr '\n' :: rest))
    : Holds src (pos + (s.length + 1)) rest := by
  have later := holds.drop (show s.length + 1 ≤ (s ++ chr '\n' :: rest).length by simp)
  rwa [show (s ++ chr '\n' :: rest).drop (s.length + 1) = rest by simp] at later

/-- A call for each line and no more delivers the lines, if and only if `int` can count them. -/
theorem posLines_eq (positive : 1 ≤ max) {calls : Nat} (holds : Holds src pos text)
    (room : ∀ line ∈ text.splitOn (chr '\n'), line.length < dst.length)
    : posLines max src calls dst pos
      = if text.count (chr '\n') < calls ∧ Counted (text.splitOn (chr '\n')) then
          some (delivered (text.splitOn (chr '\n')))
        else
          none := by
  induction calls generalizing dst pos text with
  | zero => exact (if_neg fun enough => absurd enough.1 (Nat.not_lt_zero _)).symm
  | succ calls ih =>
      rcases text_cases text with ⟨apart, single⟩ | ⟨l, rest, rfl, apart, split⟩
      · rw [single] at room ⊢
        have short := room text (List.mem_singleton_self text)
        rw [List.count_eq_zero_of_not_mem apart]
        have counts : Counted [text] ↔ text.length ≤ intMax := by simp [Counted]
        by_cases counted : text.length ≤ intMax
        · obtain ⟨dst', got, _, result⟩ := clTxtPosLine_last positive holds apart short counted
          rw [if_pos ⟨Nat.succ_pos calls, counts.mpr counted⟩]
          simp only [posLines, got, result.str, Option.bind_eq_bind, Option.bind_some, if_true]
          rfl
        · have lost : clTxtPosLine dst max src pos = none :=
            clTxtPosLine_last_none positive holds apart fun fits => counted fits.2
          rw [if_neg fun both => counted (counts.mp both.2)]
          simp only [posLines, lost, Option.bind_eq_bind, Option.bind_none]
      · have more : rest.splitOn (chr '\n') ≠ [] := List.splitOn_ne_nil _ _
        rw [split] at room ⊢
        obtain ⟨short, room⟩ := List.forall_mem_cons.mp room
        have newlines
            : (l ++ chr '\n' :: rest).count (chr '\n') = rest.count (chr '\n') + 1 := by
          rw [List.count_append, List.count_cons_self, List.count_eq_zero_of_not_mem apart,
            Nat.zero_add]
        simp only [newlines, counted_cons more, delivered_cons more, Nat.succ_lt_succ_iff]
        by_cases counted : l.length < intMax
        · obtain ⟨dst', got, size, result⟩ :=
            clTxtPosLine_newline positive holds apart short counted
          have room' : ∀ line ∈ rest.splitOn (chr '\n'), line.length < dst'.length := by
            rwa [size]
          have onward := ih (holds_rest holds) room'
          have advanced : ((l.length : Int) + 1).toNat = l.length + 1 := rfl
          have further : (l.length : Int) + 1 ≠ 0 := by omega
          simp only [posLines, got, result.str, Option.bind_eq_bind, Option.bind_some,
            if_neg further, advanced, onward, counted, true_and]
          split <;> rfl
        · have lost : clTxtPosLine dst max src pos = none :=
            clTxtPosLine_newline_none positive holds apart fun fits => counted fits.2
          rw [if_neg fun both => counted both.2.1]
          simp only [posLines, lost, Option.bind_eq_bind, Option.bind_none]

/-- The calls of `cl_txt_pos_line` on a text deliver its lines, one call for each, if and only if
`int` can count every one of them.
-/
theorem posLines_delivered (positive : 1 ≤ max) (nonzero : 0 ∉ text)
    (room : ∀ line ∈ text.splitOn (chr '\n'), line.length < dst.length)
    : (delivered (text.splitOn (chr '\n'))).length = text.count (chr '\n') + 1
      ∧ ((∀ calls,
            posLines max (text ++ [0]) calls dst 0
            = if text.count (chr '\n') + 1 ≤ calls then
                some (delivered (text.splitOn (chr '\n')))
              else
                none)
          ↔ Counted (text.splitOn (chr '\n'))) := by
  have holds : Holds (text ++ [0]) 0 text := ⟨nonzero, [], rfl⟩
  refine ⟨delivered_length.trans length_splitOn, fun walks => ?_, fun counted calls => ?_⟩
  · have walked := walks (text.count (chr '\n') + 1)
    rw [if_pos (Nat.le_refl _), posLines_eq positive holds room] at walked
    by_contra uncounted
    rw [if_neg fun both => uncounted both.2] at walked
    cases walked
  · rw [posLines_eq positive holds room]
    simp only [counted, and_true, Nat.succ_le_iff]

/-- A line with a CR, an empty one, and a newline at the end: `"a\r\n\nb\n"`. -/
def fourLines : List UInt8 := [chr 'a', chr '\r', chr '\n', chr '\n', chr 'b', chr '\n']

theorem posLines_delivered_four
    : posLines 8 (fourLines ++ [0]) 4 (List.replicate 8 1) 0
      = some [[chr 'a'], [], [chr 'b'], []] := by
  have room : ∀ line ∈ fourLines.splitOn (chr '\n'), line.length < (List.replicate 8 1).length := by
    decide
  exact (posLines_delivered (by decide) (by decide) room).2.mpr (by decide) 4

/-- A line of as many bytes as `int` can count, and its newline. -/
def longLine : List UInt8 := List.replicate intMax (chr 'a') ++ [chr '\n']

/-- There is room for it, but no number of calls gets past its newline. -/
theorem posLines_delivered_long
    : 0 ∉ longLine
      ∧ (∀ line ∈ longLine.splitOn (chr '\n'), line.length < intMax + 1)
      ∧ ∀ calls,
          posLines (intMax + 1) (longLine ++ [0]) calls (List.replicate (intMax + 1) 1) 0
          = none := by
  have visible {c : UInt8} (other : c ≠ chr 'a') : c ∉ List.replicate intMax (chr 'a') :=
    fun member => other (List.eq_of_mem_replicate member)
  have split
      : longLine.splitOn (chr '\n') = [List.replicate intMax (chr 'a'), []] := by
    rw [longLine, List.splitOn_append_cons_self, List.splitOn_eq_singleton (visible (by decide))]
    rfl
  have nonzero : 0 ∉ longLine := by
    rw [longLine, List.mem_append, List.mem_singleton]
    rintro (member | same)
    · exact visible (by decide) member
    · exact absurd same (by decide)
  have room : ∀ line ∈ longLine.splitOn (chr '\n'), line.length < intMax + 1 := by
    rw [split, List.forall_mem_cons, List.forall_mem_singleton, List.length_replicate]
    exact ⟨Nat.lt_succ_self _, Nat.succ_pos _⟩
  refine ⟨nonzero, room, fun calls => ?_⟩
  rw [posLines_eq (Nat.succ_pos _) ⟨nonzero, [], rfl⟩ (by rwa [List.length_replicate])]
  refine if_neg fun both => ?_
  have counted := both.2.2 (List.replicate intMax (chr 'a')) (by
    rw [split]
    exact List.mem_singleton_self _)
  rw [List.length_replicate] at counted
  exact Nat.lt_irrefl _ counted

end Libccll.Txt
