import Mathlib.Data.List.Basic
import Mathlib.Data.List.TakeWhile

/-! NUL-terminated strings in buffers. An access outside the buffer is `none`. -/

namespace Foundation.CString

/-- A buffer of a fixed size. -/
abbrev Buffer := List UInt8

/-- A character constant. -/
def chr (c : Char) : UInt8 := c.toNat.toUInt8

/-- `buf[i] = b`. -/
def put (buf : Buffer) (i : Nat) (b : UInt8) : Option Buffer :=
  if i < buf.length then some (buf.set i b) else none

/-- The characters in front of the first `c`; all when there is none. -/
def before (c : UInt8) (s : List UInt8) : List UInt8 := s.takeWhile fun b => decide (b ≠ c)

/-- The string at an index: the bytes up to the first NUL. -/
def str (buf : Buffer) (i : Nat) : Option (List UInt8) :=
  if 0 ∈ buf.drop i then some (before 0 (buf.drop i)) else none

def strlen (buf : Buffer) (i : Nat) : Option Nat := (str buf i).map List.length

/-- `strcspn` with a single character to stop at. -/
def strcspn (buf : Buffer) (i : Nat) (reject : UInt8) : Option Nat :=
  (str buf i).map fun s => (before reject s).length

/-- The index of the first occurrence, if any. -/
def strchr (buf : Buffer) (i : Nat) (c : UInt8) : Option (Option Nat) :=
  (str buf i).map fun s =>
    if c ∈ s then some (i + (before c s).length) else none

/-- Stores bytes at the start of a buffer. -/
def fill (dst : Buffer) (bytes : List UInt8) : Option Buffer :=
  if bytes.length ≤ dst.length then some (bytes ++ dst.drop bytes.length) else none

/-- `strcpy` to the start of `dst`. -/
def strcpy (dst src : Buffer) (i : Nat) : Option Buffer :=
  (str src i).bind fun s => fill dst (s ++ [0])

/-- `memcpy` of `n` bytes from an index of `src` to the start of `dst`. -/
def memcpy (dst src : Buffer) (i n : Nat) : Option Buffer :=
  if i + n ≤ src.length then fill dst ((src.drop i).take n) else none

/-- `strncpy` from an index of `src`: a string shorter than `n` bytes is filled up with NULs. -/
def strncpy (dst src : Buffer) (i n : Nat) : Option Buffer :=
  let s := before 0 ((src.drop i).take n)
  if s.length < n ∧ src.length ≤ i + s.length then
    none
  else
    fill dst (s ++ List.replicate (n - s.length) 0)

/-- The buffer holds the string at an index. -/
def Holds (buf : Buffer) (i : Nat) (s : List UInt8) : Prop :=
  0 ∉ s ∧ ∃ rest, buf.drop i = s ++ 0 :: rest

variable {buf buf' : Buffer} {i n : Nat} {s : List UInt8} {b c : UInt8}

theorem before_append {t : List UInt8} (absent : c ∉ s) : before c (s ++ c :: t) = s := by
  have kept : ∀ b ∈ s, decide (b ≠ c) = true :=
    fun b member => decide_eq_true fun same => absent (same ▸ member)
  rw [before, List.takeWhile_append_of_pos kept]
  simp

theorem before_absent (absent : c ∉ s) : before c s = s :=
  List.takeWhile_eq_self_iff.mpr fun _ member =>
    decide_eq_true fun same => absent (same ▸ member)

theorem before_leads : before c s <+: s := List.takeWhile_prefix _

theorem take_before : s.take (before c s).length = before c s :=
  (List.prefix_iff_eq_take.mp before_leads).symm

theorem not_mem_before : c ∉ before c s := by
  intro member
  have kept := List.all_eq_true.mp List.all_takeWhile c member
  exact of_decide_eq_true kept rfl

/-- A string is split at the first `c`. -/
theorem before_split (member : c ∈ s) : ∃ t, s = before c s ++ c :: t := by
  obtain ⟨front, t, rfl, absent⟩ := List.eq_append_cons_of_mem member
  exact ⟨t, by rw [before_append absent]⟩

/-- What follows the first `c`. -/
theorem drop_before {t : List UInt8} (split : s = before c s ++ c :: t)
    : s.drop ((before c s).length + 1) = t := by
  conv_lhs => rw [split, before_append not_mem_before]
  simp

theorem Holds.str (holds : Holds buf i s) : str buf i = some s := by
  obtain ⟨nonzero, rest, tail⟩ := holds
  rw [CString.str, tail, if_pos (by simp), before_append nonzero]

theorem Holds.strlen (holds : Holds buf i s) : strlen buf i = some s.length := by
  rw [CString.strlen, holds.str, Option.map_some]

theorem Holds.strcspn (holds : Holds buf i s)
    : strcspn buf i c = some (before c s).length := by
  rw [CString.strcspn, holds.str, Option.map_some]

theorem Holds.strchr (holds : Holds buf i s)
    : strchr buf i c
      = some (if c ∈ s then some (i + (before c s).length) else none) := by
  rw [CString.strchr, holds.str, Option.map_some]

/-- The string and its terminator lie inside the buffer. -/
theorem Holds.inside (holds : Holds buf i s) : i + s.length < buf.length := by
  obtain ⟨_, rest, tail⟩ := holds
  have length := congrArg List.length tail
  rw [List.length_drop, List.length_append, List.length_cons] at length
  omega

theorem Holds.getElem? (holds : Holds buf i s) {j : Nat} (within : j ≤ s.length)
    : buf[i + j]? = some (s.getD j 0) := by
  obtain ⟨_, rest, tail⟩ := holds
  rw [← List.getElem?_drop, tail]
  rcases Nat.lt_or_eq_of_le within with inside | rfl
  · rw [List.getElem?_append_left inside, List.getD_eq_getElem?_getD,
      List.getElem?_eq_getElem inside]
    rfl
  · simp

/-- The last character of a string. -/
theorem Holds.getLast? (holds : Holds buf 0 s) (nonempty : s ≠ [])
    : buf[s.length - 1]? = s.getLast? := by
  have read := holds.getElem? (Nat.sub_le s.length 1)
  rw [Nat.zero_add] at read
  have inside : s.length - 1 < s.length :=
    Nat.sub_lt (List.length_pos_of_ne_nil nonempty) Nat.one_pos
  rw [read, List.getLast?_eq_getElem?, List.getD_eq_getElem?_getD,
    List.getElem?_eq_getElem inside]
  rfl

/-- The byte at which a suffix starts, and the suffix behind it. -/
theorem getElem?_of_drop {rest : List UInt8} (suffix : buf.drop i = b :: rest)
    : buf[i]? = some b := by
  rw [← Nat.add_zero i, ← List.getElem?_drop, suffix]
  rfl

theorem drop_of_drop {rest : List UInt8} (suffix : buf.drop i = b :: rest)
    : buf.drop (i + 1) = rest := by
  rw [← List.drop_drop, suffix]
  rfl

/-- A cleared buffer holds the empty string. -/
theorem blank_holds : Holds (List.replicate (n + 1) 0) 0 [] :=
  ⟨List.not_mem_nil, List.replicate n 0, rfl⟩

/-- A string starts at each of its characters. -/
theorem Holds.drop (holds : Holds buf i s) (within : n ≤ s.length)
    : Holds buf (i + n) (s.drop n) := by
  obtain ⟨nonzero, rest, tail⟩ := holds
  refine ⟨fun member => nonzero (List.mem_of_mem_drop member), rest, ?_⟩
  rw [← List.drop_drop, tail, List.drop_append_of_le_length within]

/-- A change in front of a string leaves it alone. -/
theorem Holds.behind (holds : Holds buf i s) (same : buf'.drop i = buf.drop i)
    : Holds buf' i s := by
  obtain ⟨nonzero, rest, tail⟩ := holds
  exact ⟨nonzero, rest, same.trans tail⟩

/-- A NUL stored in a string cuts it short. -/
theorem Holds.cut (holds : Holds buf i s) (within : n ≤ s.length)
    : ∃ buf',
        put buf (i + n) 0 = some buf'
        ∧ buf'.length = buf.length
        ∧ Holds buf' i (s.take n)
        ∧ ∀ j, i + n < j → buf'.drop j = buf.drop j := by
  have inside : i + n < buf.length :=
    Nat.lt_of_le_of_lt (Nat.add_le_add_left within i) holds.inside
  obtain ⟨nonzero, rest, tail⟩ := holds
  refine ⟨buf.set (i + n) 0, if_pos inside, List.length_set,
    ⟨?_, (s ++ 0 :: rest).drop (n + 1), ?_⟩, ?_⟩
  · exact fun member => nonzero (List.mem_of_mem_take member)
  · have longer : n < (s ++ 0 :: rest).length := by
      rw [List.length_append, List.length_cons]
      omega
    rw [List.drop_set, if_neg (by omega), Nat.add_sub_cancel_left, tail,
      List.set_eq_take_append_cons_drop, if_pos longer, List.take_append_of_le_length within]
  · exact fun j after => List.drop_set_of_lt after

/-- A string stored without its terminator, which follows. -/
theorem fill_put (dst : Buffer) (nonzero : 0 ∉ s) (room : s.length < dst.length)
    : ∃ dst₁ dst₂,
        fill dst s = some dst₁
        ∧ put dst₁ s.length 0 = some dst₂
        ∧ dst₂.length = dst.length
        ∧ Holds dst₂ 0 s := by
  have length : (s ++ dst.drop s.length).length = dst.length := by
    rw [List.length_append, List.length_drop]
    omega
  refine ⟨s ++ dst.drop s.length, (s ++ dst.drop s.length).set s.length 0,
    if_pos (Nat.le_of_lt room), if_pos (by rw [length]; exact room), ?_, nonzero,
    (dst.drop s.length).drop 1, ?_⟩
  · rw [List.length_set, length]
  · rw [List.drop_zero, List.set_append_right _ _ (Nat.le_refl _), Nat.sub_self]
    congr 1
    obtain ⟨b, rest, tail⟩ : ∃ b rest, dst.drop s.length = b :: rest :=
      List.exists_cons_of_length_pos (by rw [List.length_drop]; omega)
    rw [tail]
    rfl

/-- A string and its terminator that do not fit. -/
theorem fill_put_none {dst : Buffer} (long : dst.length ≤ s.length)
    : (fill dst s).bind (put · s.length 0) = none := by
  rw [fill]
  split
  · rename_i short
    have length : (s ++ dst.drop s.length).length = s.length := by
      rw [List.length_append, List.length_drop]
      omega
    rw [Option.bind_some, put, if_neg]
    rw [length]
    exact Nat.lt_irrefl _
  · rfl

/-- A string stored with its terminator. -/
theorem fill_terminated (dst : Buffer) (nonzero : 0 ∉ s) (room : s.length < dst.length)
    : ∃ dst', fill dst (s ++ [0]) = some dst' ∧ dst'.length = dst.length ∧ Holds dst' 0 s := by
  have length : (s ++ [0]).length = s.length + 1 := by simp
  refine ⟨_, if_pos (by rw [length]; exact room), ?_, nonzero, dst.drop (s.length + 1), ?_⟩
  · rw [List.length_append, List.length_drop, length]
    omega
  · rw [List.drop_zero, length, List.append_assoc, List.singleton_append]

/-- The byte behind some others. -/
theorem getElem?_behind {front back : List UInt8}
    : (front ++ c :: back)[front.length]? = some c := by
  simp

/-- It is stored without a change to the others. -/
theorem put_behind {front back : List UInt8}
    : put (front ++ c :: back) front.length b = some (front ++ b :: back) := by
  rw [put, if_pos (by simp), List.set_append_right _ _ (Nat.le_refl _), Nat.sub_self,
    List.set_cons_zero]

end Foundation.CString
