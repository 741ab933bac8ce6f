import Mathlib.Data.List.DropRight
import Libccll.Foundation.Decimal

/-! `cl_txt_trim` of `comm/txt.c`. An access outside of the buffer is `none`. -/

namespace Libccll.Txt

open Foundation CString Decimal

/-- `while (isspace((unsigned char)*start)) start++;`, on the bytes from `start` on. -/
def skipSpaces : Buffer → Nat → Option Nat
  | [], _ => none
  | b :: rest, start => if isSpace b = true then skipSpaces rest (start + 1) else some start

/-- `while (*start) *dest++ = *start++;`, for so many turns at most: the buffer and `dest`. -/
def shift : Nat → Buffer → Nat → Nat → Option (Buffer × Nat)
  | 0, _, _, _ => none
  | turns + 1, buf, dest, start => do
      let b ← (buf)[start]?
      if b = 0 then
        return (buf, dest)
      else
        shift turns (← put buf dest b) (dest + 1) (start + 1)

/-- `while (dest >= str && isspace((unsigned char)*dest)) dest--;`, from `dest + 1` to `dest + 1`.
-/
def backSpaces (buf : Buffer) (str : Nat) : Nat → Option Nat
  | 0 => some 0
  | dest + 1 =>
      if str ≤ dest then do
        let b ← (buf)[dest]?
        if isSpace b = true then backSpaces buf str dest else return dest + 1
      else
        some (dest + 1)

/-- `cl_txt_trim`, where `str` points into a buffer, or is `NULL`. -/
def clTxtTrim (buf : Buffer) (str : Option Nat) : Option Buffer :=
  match str with
  | none => some buf
  | some str => do
      if (← (buf)[str]?) = 0 then
        return buf
      let start ← skipSpaces (buf.drop str) str
      if (← (buf)[start]?) = 0 then
        put buf str 0
      else
        let (buf, dest) ← shift buf.length buf str start
        let buf ← put buf dest 0
        let dest ← backSpaces buf str dest
        put buf dest 0

/-- A string without the whitespace at its ends. -/
def trim (s : List UInt8) : List UInt8 := (s.dropWhile isSpace).rdropWhile isSpace

-----------------------------------------------------------------------------------------
-- The three loops
-----------------------------------------------------------------------------------------

variable {front back s t : List UInt8} {b c : UInt8}

theorem isSpace_zero : isSpace 0 = false := by decide

theorem skipSpaces_eq {start : Nat}
    : skipSpaces (s ++ 0 :: back) start = some (start + (s.takeWhile isSpace).length) := by
  induction s generalizing start with
  | nil => simp [skipSpaces, isSpace_zero]
  | cons b s ih =>
      rw [List.cons_append, skipSpaces]
      split
      · rename_i space
        rw [ih, List.takeWhile_cons, if_pos space, List.length_cons, Nat.add_right_comm]
        rfl
      · rename_i visible
        rw [List.takeWhile_cons, if_neg visible]
        rfl

/-- A string is moved over a gap in front of it, which leaves another gap behind it: what is in
there depends on nothing else in the buffer.
-/
theorem shift_eq (visible : 0 ∉ s) (gap : List UInt8)
    : ∃ gap' : List UInt8,
        gap'.length = gap.length
        ∧ ∀ (front back : List UInt8) (turns : Nat),
            s.length < turns
            → shift turns (front ++ (gap ++ (s ++ 0 :: back))) front.length
                (front.length + gap.length)
              = some (front ++ (s ++ (gap' ++ 0 :: back)), front.length + s.length) := by
  induction s generalizing gap with
  | nil =>
      refine ⟨gap, rfl, fun front back turns enough => ?_⟩
      obtain ⟨turns, rfl⟩ := Nat.exists_eq_add_of_lt enough
      have read : (front ++ (gap ++ 0 :: back))[front.length + gap.length]? = some 0 := by
        rw [← List.append_assoc, ← List.length_append]
        exact getElem?_behind
      rw [shift, List.nil_append, read]
      rfl
  | cons b s ih =>
      obtain ⟨other, visible⟩ := not_or.mp (List.mem_cons.not.mp visible)
      -- the first byte of the gap is overwritten, and that of the string becomes its last one
      obtain ⟨c, gap₁, same⟩ : ∃ c gap₁, gap ++ [b] = c :: gap₁ :=
        List.exists_cons_of_ne_nil (List.append_ne_nil_of_right_ne_nil gap (List.cons_ne_nil b []))
      have length : gap₁.length = gap.length := by
        have lengths := congrArg List.length same
        rw [List.length_append, List.length_cons, List.length_cons, List.length_nil] at lengths
        omega
      obtain ⟨gap', length', shifted⟩ := ih visible gap₁
      refine ⟨gap', length'.trans length, fun front back turns enough => ?_⟩
      obtain ⟨turns, rfl⟩ := Nat.exists_eq_add_of_lt enough
      have whole
          : front ++ (gap ++ (b :: s ++ 0 :: back)) = front ++ c :: (gap₁ ++ (s ++ 0 :: back)) := by
        rw [List.cons_append, List.append_cons gap, same, List.cons_append]
      have read
          : (front ++ (gap ++ (b :: s ++ 0 :: back)))[front.length + gap.length]? = some b := by
        rw [← List.append_assoc, ← List.length_append]
        exact getElem?_behind
      have onward
          : shift ((b :: s).length + turns) (front ++ b :: (gap₁ ++ (s ++ 0 :: back)))
              (front.length + 1) (front.length + gap.length + 1)
            = some (front ++ b :: (s ++ (gap' ++ 0 :: back)), front.length + 1 + s.length) := by
        have moved := shifted (front ++ [b]) back ((b :: s).length + turns)
          (Nat.lt_add_right turns (Nat.lt_succ_self s.length))
        rw [List.length_append, List.length_singleton, length, List.append_assoc, List.append_assoc,
          List.singleton_append, List.singleton_append, Nat.add_right_comm front.length] at moved
        exact moved
      rw [shift, read]
      simp only [Option.bind_eq_bind, Option.bind_some, if_neg (Ne.symm other)]
      rw [whole, put_behind, Option.bind_some, onward, List.length_cons, List.cons_append,
        Nat.add_assoc, Nat.add_comm 1]

theorem backSpaces_eq
    : backSpaces (front ++ (s ++ back)) front.length (front.length + s.length)
      = some (front.length + (s.rdropWhile isSpace).length) := by
  induction s using List.reverseRecOn generalizing back with
  | nil =>
      rw [List.length_nil, Nat.add_zero, List.rdropWhile_nil, List.length_nil, Nat.add_zero]
      cases front with
      | nil => rfl
      | cons c front => exact if_neg (Nat.not_le.mpr (Nat.lt_succ_self _))
  | append_singleton s b ih =>
      have read : (front ++ (s ++ [b] ++ back))[front.length + s.length]? = some b := by
        rw [List.append_assoc, ← List.append_assoc, ← List.length_append]
        exact getElem?_behind
      rw [List.length_append, List.length_singleton, ← Nat.add_assoc, backSpaces,
        if_pos (Nat.le_add_right _ _), read, List.rdropWhile_concat]
      simp only [Option.bind_eq_bind, Option.bind_some]
      split
      · rw [List.append_assoc]
        exact ih
      · rw [List.length_append, List.length_singleton, ← Nat.add_assoc]
        rfl

-----------------------------------------------------------------------------------------
-- The string
-----------------------------------------------------------------------------------------

/-- Whitespace only. -/
theorem trim_of_spaces (spaces : s.dropWhile isSpace = []) : trim s = [] := by
  rw [trim, spaces, List.rdropWhile_nil]

/-- A trimmed string has no whitespace at its ends. -/
theorem trim_trim : trim (trim s) = trim s := by
  have leads : trim s <+: s.dropWhile isSpace := List.rdropWhile_prefix isSpace _
  have start : (trim s).dropWhile isSpace = trim s := by
    cases trimmed : trim s with
    | nil => rfl
    | cons b rest =>
        rw [trimmed] at leads
        obtain ⟨more, split⟩ := leads
        have head : (s.dropWhile isSpace).head? = some b := by
          rw [← split]
          rfl
        rw [← List.find?_not_eq_head?_dropWhile] at head
        have visible : isSpace b = false := by simpa using List.find?_some head
        rw [List.dropWhile_cons, visible]
        rfl
  conv_lhs => rw [trim, start]
  exact List.rdropWhile_idempotent isSpace _

-----------------------------------------------------------------------------------------
-- A call
-----------------------------------------------------------------------------------------

/-- A NUL in front of others and of the one behind them: one byte less is left of them. -/
theorem put_zero (gap : List UInt8)
    : ∃ tail : List UInt8,
        tail.length = gap.length
        ∧ ∀ front back : List UInt8,
            put (front ++ (gap ++ 0 :: back)) front.length 0
            = some (front ++ 0 :: (tail ++ back)) := by
  cases gap with
  | nil => exact ⟨[], rfl, fun front back => put_behind⟩
  | cons c gap =>
      refine ⟨gap ++ [0], List.length_append, fun front back => ?_⟩
      rw [List.cons_append, put_behind, List.append_assoc, List.singleton_append]

/-- A call on whitespace only. -/
theorem clTxtTrim_spaces (inked : b ≠ 0) (spaces : (b :: s).dropWhile isSpace = [])
    : clTxtTrim (front ++ (b :: s ++ 0 :: back)) (some front.length)
      = some (front ++ 0 :: (s ++ 0 :: back)) := by
  have all : (b :: s).takeWhile isSpace = b :: s := by
    have split := List.takeWhile_append_dropWhile (p := isSpace) (l := b :: s)
    rwa [spaces, List.append_nil] at split
  have first : (front ++ (b :: s ++ 0 :: back))[front.length]? = some b := getElem?_behind
  have last : (front ++ (b :: s ++ 0 :: back))[front.length + (b :: s).length]? = some 0 := by
    rw [← List.append_assoc, ← List.length_append]
    exact getElem?_behind
  simp only [clTxtTrim, first, Option.bind_eq_bind, Option.bind_some, if_neg inked,
    List.drop_left, skipSpaces_eq, all, last, if_true]
  rw [List.cons_append, put_behind]

/-- The string moved to the front, with its terminator. -/
theorem shift_terminated (visible : 0 ∉ s) (gap : List UInt8)
    : ∃ tail : List UInt8,
        tail.length = gap.length
        ∧ ∀ (front back : List UInt8) (turns : Nat),
            s.length < turns
            → ∃ buf,
                shift turns (front ++ (gap ++ (s ++ 0 :: back))) front.length
                    (front.length + gap.length)
                  = some (buf, front.length + s.length)
                ∧ put buf (front.length + s.length) 0
                  = some (front ++ (s ++ 0 :: (tail ++ back))) := by
  obtain ⟨gap', length, shifted⟩ := shift_eq visible gap
  obtain ⟨tail, length', ended⟩ := put_zero gap'
  refine ⟨tail, length'.trans length, fun front back turns enough => ?_⟩
  refine ⟨_, shifted front back turns enough, ?_⟩
  have terminated := ended (front ++ s) back
  rwa [List.length_append, List.append_assoc, List.append_assoc] at terminated

/-- The terminator behind the last visible character. -/
theorem put_rdropWhile (t : List UInt8)
    : ∃ left : List UInt8,
        left.length + (t.rdropWhile isSpace).length = t.length
        ∧ ∀ front back : List UInt8,
            put (front ++ (t ++ 0 :: back)) (front.length + (t.rdropWhile isSpace).length) 0
            = some (front ++ (t.rdropWhile isSpace ++ 0 :: (left ++ back))) := by
  obtain ⟨more, cut⟩ := List.rdropWhile_prefix isSpace t
  obtain ⟨left, length, cutOff⟩ := put_zero more
  have lengths := congrArg List.length cut
  rw [List.length_append] at lengths
  refine ⟨left, by omega, fun front back => ?_⟩
  have closed := cutOff (front ++ t.rdropWhile isSpace) back
  rwa [List.length_append, List.append_assoc, List.append_assoc,
    ← List.append_assoc (t.rdropWhile isSpace), cut] at closed

/-- A call on a string in which something is visible. -/
theorem clTxtTrim_visible (visible : 0 ∉ s) (ink : s.dropWhile isSpace ≠ [])
    : ∃ left : List UInt8,
        left.length + (trim s).length = s.length
        ∧ ∀ front back : List UInt8,
            clTxtTrim (front ++ (s ++ 0 :: back)) (some front.length)
            = some (front ++ (trim s ++ 0 :: (left ++ back))) := by
  obtain ⟨c, rest, onward⟩ := List.exists_cons_of_ne_nil ink
  have split := List.takeWhile_append_dropWhile (p := isSpace) (l := s)
  have inside : ∀ d ∈ s.dropWhile isSpace, d ≠ 0 :=
    fun d member same => visible (same ▸ (List.dropWhile_suffix isSpace).subset member)
  obtain ⟨tail, tailLength, moved⟩ :=
    shift_terminated (fun member => inside 0 member rfl) (s.takeWhile isSpace)
  obtain ⟨left, leftLength, closed⟩ := put_rdropWhile (s.dropWhile isSpace)
  have lengths : s.length = (s.takeWhile isSpace).length + (s.dropWhile isSpace).length := by
    rw [← List.length_append, split]
  refine ⟨left ++ tail, by rw [List.length_append, trim]; omega, fun front back => ?_⟩
  obtain ⟨b, s', same⟩ : ∃ b s', s = b :: s' :=
    List.exists_cons_of_ne_nil fun empty => ink (by rw [empty]; rfl)
  have first : (front ++ (s ++ 0 :: back))[front.length]? = some b := by
    rw [same]
    exact getElem?_behind
  have inked : b ≠ 0 := fun zero => visible (by rw [same, zero]; exact List.mem_cons_self)
  have whole : s.takeWhile isSpace ++ (s.dropWhile isSpace ++ 0 :: back) = s ++ 0 :: back := by
    rw [← List.append_assoc, split]
  have start : (front ++ (s ++ 0 :: back))[front.length + (s.takeWhile isSpace).length]?
      = some c := by
    rw [← whole, onward, ← List.append_assoc, ← List.length_append]
    exact getElem?_behind
  have startInked : c ≠ 0 := inside c (by rw [onward]; exact List.mem_cons_self)
  have enough : (s.dropWhile isSpace).length < (front ++ (s ++ 0 :: back)).length := by
    rw [List.length_append, List.length_append, List.length_cons]
    omega
  obtain ⟨buf, shifted, terminated⟩ := moved front back _ enough
  rw [whole] at shifted
  simp only [clTxtTrim, first, Option.bind_eq_bind, Option.bind_some, if_neg inked,
    List.drop_left, skipSpaces_eq, start, if_neg startInked, shifted, terminated, backSpaces_eq,
    closed]
  rw [trim, List.append_assoc]

/-- What a call leaves in the place of a string, and how little it depends on. -/
theorem clTxtTrim_eq (visible : 0 ∉ s)
    : ∃ left : List UInt8,
        left.length + (trim s).length = s.length
        ∧ ∀ front back : List UInt8,
            clTxtTrim (front ++ (s ++ 0 :: back)) (some front.length)
            = some (front ++ (trim s ++ 0 :: (left ++ back))) := by
  cases s with
  | nil =>
      refine ⟨[], rfl, fun front back => ?_⟩
      have first : (front ++ ([] ++ 0 :: back))[front.length]? = some 0 := getElem?_behind
      simp only [clTxtTrim, first, Option.bind_eq_bind, Option.bind_some, if_true]
      rfl
  | cons b s =>
      by_cases spaces : (b :: s).dropWhile isSpace = []
      · have inked : b ≠ 0 := fun zero => visible (zero ▸ List.mem_cons_self)
        refine ⟨s ++ [0], ?_, fun front back => ?_⟩
        · rw [trim_of_spaces spaces]
          exact List.length_append
        · rw [clTxtTrim_spaces inked spaces, trim_of_spaces spaces, List.append_assoc]
          rfl
      · exact clTxtTrim_visible visible spaces

/-- The string is trimmed in its place, a second call changes nothing, and the bytes in front of it
and behind its terminator are neither read nor written.
-/
theorem clTxtTrim_trims (visible : 0 ∉ s)
    : ∃ left : List UInt8,
        left.length + (trim s).length = s.length
        ∧ ∀ front back : List UInt8,
            clTxtTrim (front ++ (s ++ 0 :: back)) (some front.length)
            = some (front ++ (trim s ++ 0 :: (left ++ back)))
            ∧ clTxtTrim (front ++ (trim s ++ 0 :: (left ++ back))) (some front.length)
              = some (front ++ (trim s ++ 0 :: (left ++ back))) := by
  obtain ⟨left, lengths, trimmed⟩ := clTxtTrim_eq visible
  refine ⟨left, lengths, fun front back => ⟨trimmed front back, ?_⟩⟩
  have within : 0 ∉ trim s :=
    fun member => visible
      ((List.dropWhile_suffix isSpace).subset ((List.rdropWhile_prefix isSpace _).subset member))
  obtain ⟨left', lengths', again⟩ := clTxtTrim_eq within
  rw [trim_trim] at lengths' again
  have nothing : left' = [] := List.eq_nil_of_length_eq_zero (by omega)
  rw [again, nothing]
  rfl

theorem clTxtTrim_trims_blanks
    : ∃ left : List UInt8,
        left.length + (trim [32, 97, 32, 98, 10]).length = 5
        ∧ ∀ front back : List UInt8,
            clTxtTrim (front ++ ([32, 97, 32, 98, 10] ++ 0 :: back)) (some front.length)
            = some (front ++ (trim [32, 97, 32, 98, 10] ++ 0 :: (left ++ back)))
            ∧ clTxtTrim (front ++ (trim [32, 97, 32, 98, 10] ++ 0 :: (left ++ back)))
                (some front.length)
              = some (front ++ (trim [32, 97, 32, 98, 10] ++ 0 :: (left ++ back))) :=
  clTxtTrim_trims (s := [32, 97, 32, 98, 10]) (by decide)

example : trim [32, 97, 32, 98, 10] = [97, 32, 98] := by decide

end Libccll.Txt
