import Mathlib.Data.List.DropRight
import Libccll.Config.Ini

/-! What a line means to a lookup, and that `_get_value` reads it so. -/

namespace Libccll.Ini

open Foundation.CString

/-- Without the blanks around it. -/
def trim (s : List UInt8) : List UInt8 := (s.dropWhile isBlank).rdropWhile isBlank

/-- What stands on a line. -/
inductive Entry where
  | skip
  | section_ (name : List UInt8)
  | pair (key value : List UInt8)
  deriving DecidableEq

def entry : List UInt8 → Entry
  | [] => .skip
  | b :: t =>
      if b = chr ';' ∨ b = chr '#' then
        .skip
      else if b = chr '[' ∧ (b :: t).getLast? = some (chr ']') then
        .section_ (t.take (t.length - 1))
      else if chr '=' ∈ b :: t then
        .pair (trim (before (chr '=') (b :: t)))
          (trim ((b :: t).drop ((before (chr '=') (b :: t)).length + 1)))
      else
        .skip

/-- What a lookup does with a line: it ends, or goes on in a section. -/
inductive Outcome where
  | found (value : List UInt8)
  | next (cur : List UInt8)
  | fail
  deriving DecidableEq

/-- The outcome of a line for a lookup that stands in a section. -/
def outcome (section_ : Option (List UInt8)) (key cur line : List UInt8) : Outcome :=
  match entry line with
  | .skip => .next cur
  | .section_ name => if section_.isNone = true then .fail else .next name
  | .pair key' value =>
      if section_.any (fun section_ => decide (section_ ≠ cur)) = true then
        .next cur
      else if key' ≠ key then
        .next cur
      else
        .found value

/-- The string is stored in memory, with its terminator. -/
def store (value : Mem) (s : List UInt8) : Mem := memcpy value (fun i => s.getD i 0) (s.length + 1)

/-- The name on the line fits into `_sec`. -/
def Short (line : List UInt8) : Prop := ∀ name, entry line = .section_ name → name.length < 64

instance (line : List UInt8) : Decidable (Short line) :=
  match named : entry line with
  | .section_ name =>
      decidable_of_iff (name.length < 64) <| by
        simp [Short, named]
  | .skip | .pair _ _ => isTrue (by simp [Short, named])

/-- So many bytes can hold the name on the line and its terminator. -/
def Stores (room : Nat) (line : List UInt8) : Prop :=
  ∀ name, entry line = .section_ name → name.length < room

instance (room : Nat) (line : List UInt8) : Decidable (Stores room line) :=
  match named : entry line with
  | .section_ name =>
      decidable_of_iff (name.length < room) <| by
        simp [Stores, named]
  | .skip | .pair _ _ => isTrue (by simp [Stores, named])

/-- The value that a lookup finds on some lines. -/
def search (section_ : Option (List UInt8)) (key : List UInt8)
    : List UInt8 → List (List UInt8) → Option (List UInt8)
  | _, [] => none
  | cur, line :: rest =>
      match outcome section_ key cur line with
      | .found value => some value
      | .next cur => search section_ key cur rest
      | .fail => none

/-- What a lookup returns, and the memory behind `value`. -/
def answer (value : Mem) : Option (List UInt8) → Ret × Mem
  | some found => (.succ, store value found)
  | none => (.fail, value)

/-- The line fits into the buffers. -/
def Fits (line : List UInt8) : Prop := line.length ≤ 255 ∧ Short line

instance (line : List UInt8) : Decidable (Fits line) := inferInstanceAs (Decidable (_ ∧ _))

/-- Every line fits, up to the one at which the lookup ends. -/
def Fitting (section_ : Option (List UInt8)) (key : List UInt8)
    : List UInt8 → List (List UInt8) → Prop
  | _, [] => True
  | cur, line :: rest =>
      Fits line
      ∧ match outcome section_ key cur line with
        | .next cur => Fitting section_ key cur rest
        | _ => True

-----------------------------------------------------------------------------------------
-- Blanks
-----------------------------------------------------------------------------------------

theorem isBlank_zero : isBlank 0 = false := by decide

theorem drop_length_takeWhile {p : UInt8 → Bool} (s : List UInt8)
    : s.drop (s.takeWhile p).length = s.dropWhile p := by
  conv_lhs => rw [← List.takeWhile_append_dropWhile (p := p) (l := s)]
  exact List.drop_left' (by rw [List.takeWhile_append_dropWhile])

theorem length_takeWhile_le {p : UInt8 → Bool} (s : List UInt8)
    : (s.takeWhile p).length ≤ s.length :=
  List.IsPrefix.length_le <| List.takeWhile_prefix p

theorem skipFrom_eq {s rest : List UInt8} {p : Nat}
    : skipFrom (s ++ 0 :: rest) p = some (p + (s.takeWhile isBlank).length) := by
  induction s generalizing p with
  | nil => simp [skipFrom, isBlank_zero]
  | cons b s ih =>
      rw [List.cons_append, skipFrom]
      split
      · rename_i blank
        rw [ih, List.takeWhile_cons, if_pos blank, List.length_cons, Nat.add_right_comm]
        rfl
      · rename_i blank
        rw [List.takeWhile_cons, if_neg blank]
        rfl

variable {line line' : Buffer} {p : Nat} {s : List UInt8}

theorem skipBlanks_eq (holds : Holds line p s)
    : skipBlanks line p = some (p + (s.takeWhile isBlank).length) := by
  obtain ⟨_, rest, tail⟩ := holds
  rw [skipBlanks, tail, skipFrom_eq]

/-- Blanks at the end of a string that does not start with one. -/
theorem backBlanks_eq (read : ∀ j, ∀ b, s[j]? = some b → (line)[p + j]? = some b)
    (start : ∀ b, s.head? = some b → isBlank b = false)
    : backBlanks line p (p + s.length) = some (p + (s.rdropWhile isBlank).length) := by
  induction s using List.reverseRecOn with
  | nil =>
      cases p with
      | zero => rfl
      | succ p => simp [backBlanks, Nat.not_lt.mpr (Nat.le_succ p)]
  | append_singleton s b ih =>
      have last : (line)[p + s.length]? = some b := read s.length b (by simp)
      rw [List.length_append, List.length_singleton, ← Nat.add_assoc, backBlanks]
      rcases eq_or_ne s [] with rfl | more
      · have visible : ¬isBlank b = true := Bool.eq_false_iff.mp (start b rfl)
        rw [List.nil_append, List.rdropWhile_singleton, if_neg visible]
        exact if_neg (Nat.lt_irrefl p)
      · rw [if_pos (Nat.lt_add_of_pos_right (List.length_pos_of_ne_nil more)), last,
          List.rdropWhile_concat]
        change (if isBlank b = true then _ else _) = _
        split
        · refine ih (fun j c inside => read j c ?_) (fun c head => start c ?_)
          · rw [List.getElem?_append_left (List.getElem?_eq_some_iff.mp inside).1, inside]
          · rw [List.head?_append_of_ne_nil _ more, head]
        · rw [List.length_append, List.length_singleton, Nat.add_assoc]

/-- The key or value in a string, up to its last character. -/
theorem backBlanks_holds (holds : Holds line p s)
    (start : ∀ b, s.head? = some b → isBlank b = false)
    : backBlanks line p (p + s.length) = some (p + (s.rdropWhile isBlank).length) := by
  refine backBlanks_eq (fun j b inside => ?_) start
  obtain ⟨below, same⟩ := List.getElem?_eq_some_iff.mp inside
  rw [holds.getElem? (Nat.le_of_lt below), List.getD_eq_getElem?_getD, inside]
  rfl

theorem isBlank_head_dropWhile {b : UInt8} (head : (s.dropWhile isBlank).head? = some b)
    : isBlank b = false := by
  rw [← List.find?_not_eq_head?_dropWhile] at head
  simpa using List.find?_some head

/-- Finding the start of what is left of a string without its blanks. -/
theorem skipBlanks_holds (holds : Holds line p s)
    : ∃ start,
        skipBlanks line p = some start
        ∧ p ≤ start
        ∧ start + (s.dropWhile isBlank).length = p + s.length
        ∧ Holds line start (s.dropWhile isBlank) := by
  have within : (s.takeWhile isBlank).length ≤ s.length := length_takeWhile_le s
  refine ⟨_, skipBlanks_eq holds, Nat.le_add_right _ _, ?_, ?_⟩
  · rw [Nat.add_assoc, ← List.length_append, List.takeWhile_append_dropWhile]
  · rw [← drop_length_takeWhile]
    exact holds.drop within

/-- Cutting off the blanks at the end. -/
theorem backBlanks_cut (holds : Holds line p (s.dropWhile isBlank))
    : ∃ stop line',
        backBlanks line p (p + (s.dropWhile isBlank).length) = some stop
        ∧ put line stop 0 = some line'
        ∧ stop = p + (trim s).length
        ∧ line'.length = line.length
        ∧ Holds line' p (trim s)
        ∧ ∀ j, stop < j → line'.drop j = line.drop j := by
  have front : trim s <+: s.dropWhile isBlank := List.rdropWhile_prefix isBlank _
  have shorter : (trim s).length ≤ (s.dropWhile isBlank).length := front.length_le
  obtain ⟨line', stored, length, cut, after⟩ := holds.cut shorter
  refine ⟨_, line', backBlanks_holds holds fun b => isBlank_head_dropWhile, stored, rfl, length,
    ?_, after⟩
  rw [List.prefix_iff_eq_take.mp front]
  exact cut

-----------------------------------------------------------------------------------------
-- One line
-----------------------------------------------------------------------------------------

/-- A string is copied to the value. -/
theorem memcpy_holds (holds : Holds line p s) {value : Mem}
    : memcpy value (fun i => line.getD (p + i) 0) (s.length + 1) = store value s := by
  funext i
  rcases Nat.lt_or_ge i (s.length + 1) with inside | outside
  · rw [store, memcpy_copied inside, memcpy_copied inside, List.getD_eq_getElem?_getD,
      holds.getElem? (Nat.le_of_lt_succ inside)]
    rfl
  · rw [store, memcpy_kept outside, memcpy_kept outside]

/-- `_get_value` on an assignment. -/
theorem matchKey_eq (_sec : Buffer) (key : List UInt8) (value : Mem) {k v : List UInt8}
    {c : UInt8} (holds : Holds line 0 (k ++ c :: v))
    : ∃ parsed,
        matchKey line _sec key value (k ++ c :: v).length k.length = some parsed
        ∧ parsed.line.length = line.length
        ∧ parsed.sec = _sec
        ∧ if trim k ≠ key then
            parsed.ret = .none ∧ parsed.value = value
          else
            parsed.ret = .found ∧ parsed.value = store value (trim v) := by
  have within : k.length ≤ (k ++ c :: v).length := by simp
  obtain ⟨line₁, stored₁, length₁, cut₁, after₁⟩ := holds.cut within
  rw [Nat.zero_add] at stored₁ after₁
  rw [List.take_left] at cut₁
  have rest₁ : Holds line₁ (k.length + 1) v := by
    have rest := holds.drop (show k.length + 1 ≤ (k ++ c :: v).length by simp)
    rw [Nat.zero_add, show (k ++ c :: v).drop (k.length + 1) = v by simp] at rest
    exact rest.behind (after₁ _ (Nat.lt_succ_self _))
  obtain ⟨_key, skipped, _, length, start⟩ := skipBlanks_holds cut₁
  obtain ⟨stop, line₂, back, stored₂, end_, length₂, cut₂, after₂⟩ := backBlanks_cut start
  rw [length, Nat.zero_add] at back
  have before : stop < k.length + 1 := by
    have front : trim k <+: k.dropWhile isBlank := List.rdropWhile_prefix isBlank _
    have shorter := front.length_le
    rw [end_]
    omega
  simp only [matchKey, stored₁, skipped, back, stored₂, cut₂.str, Option.bind_eq_bind,
    Option.bind_some]
  split
  · exact ⟨_, rfl, length₂.trans length₁, rfl, rfl, rfl⟩
  · obtain ⟨_val, skipped', later, length', start'⟩ :=
      skipBlanks_holds (rest₁.behind (after₂ _ before))
    obtain ⟨stop', line₃, back', stored₃, end', length₃, cut₃, _⟩ := backBlanks_cut start'
    have whole : k.length + 1 + v.length = (k ++ c :: v).length := by simp; omega
    rw [length', whole] at back'
    have count : stop' + 1 - _val = (trim v).length + 1 := by omega
    have room : ¬line₃.length < _val + ((trim v).length + 1) := by
      have inside := cut₃.inside
      omega
    simp only [skipped', back', stored₃, count, if_neg room, Option.bind_some]
    exact ⟨_, rfl, length₃.trans (length₂.trans length₁), rfl, rfl, memcpy_holds cut₃⟩

/-- `_get_value` does to its buffers what the line means. -/
def Parsed.Answers (parsed : Parsed) (value : Mem) : Outcome → Prop
  | .found v => parsed.ret = .found ∧ parsed.value = store value v
  | .next cur => parsed.ret = .none ∧ parsed.value = value ∧ Holds parsed.sec 0 cur
  | .fail => parsed.ret = .fail ∧ parsed.value = value

/-- The bytes between the brackets of a line. -/
theorem header_bytes {b : UInt8} {t : List UInt8} (holds : Holds line 0 (b :: t)) (more : t ≠ [])
    (_sec : Buffer)
    : 0 ∉ t.take (t.length - 1)
      ∧ (b :: t).length - 2 = (t.take (t.length - 1)).length
      ∧ Foundation.CString.memcpy _sec line 1 (t.take (t.length - 1)).length
        = fill _sec (t.take (t.length - 1)) := by
  have positive : 0 < t.length := List.length_pos_of_ne_nil more
  have count : (b :: t).length - 2 = (t.take (t.length - 1)).length := by
    rw [List.length_take, List.length_cons]
    omega
  have inside := holds.inside
  rw [List.length_cons] at inside
  obtain ⟨nonzero, rest, tail⟩ := holds
  have bytes : (line.drop 1).take (t.take (t.length - 1)).length = t.take (t.length - 1) := by
    rw [List.drop_zero] at tail
    rw [tail, List.cons_append, List.drop_one, List.tail_cons, List.take_append_of_le_length]
    · rw [List.length_take, Nat.min_eq_left (Nat.sub_le _ _)]
    · exact List.length_take_le' _ _
  refine ⟨fun member => nonzero (List.mem_cons_of_mem b (List.mem_of_mem_take member)), count, ?_⟩
  have below : 1 + (t.take (t.length - 1)).length ≤ line.length := by
    rw [List.length_take]
    omega
  rw [Foundation.CString.memcpy, if_pos below, bytes]

/-- A line with a section name that fits. -/
theorem header_eq {b : UInt8} {t : List UInt8} {_sec : Buffer} (holds : Holds line 0 (b :: t))
    (more : t ≠ []) (short : (t.take (t.length - 1)).length < _sec.length)
    : ∃ sec₁ sec₂,
        Foundation.CString.memcpy _sec line 1 ((b :: t).length - 2) = some sec₁
        ∧ put sec₁ ((b :: t).length - 2) 0 = some sec₂
        ∧ sec₂.length = _sec.length
        ∧ Holds sec₂ 0 (t.take (t.length - 1)) := by
  obtain ⟨nonzero, count, copied⟩ := header_bytes holds more _sec
  obtain ⟨sec₁, sec₂, filled, stored, length, holds'⟩ := fill_put _sec nonzero short
  rw [count, copied]
  exact ⟨sec₁, sec₂, filled, stored, length, holds'⟩

/-- A section name that does not fit into `_sec`, or only without its terminator. -/
theorem parseLine_none {l : List UInt8} {_sec : Buffer} (sec : Option (List UInt8))
    (key : List UInt8) (value : Mem) (holds : Holds line 0 l) (large : ¬Stores _sec.length l)
    : parseLine line sec _sec key value = none := by
  obtain ⟨name, named, long⟩ : ∃ name, entry l = .section_ name ∧ _sec.length ≤ name.length := by
    simpa [Stores] using large
  have first : (line)[0]? = some (l.getD 0 0) := by
    simpa using holds.getElem? (Nat.zero_le l.length)
  cases l with
  | nil => cases named
  | cons b t =>
      have visible : b ≠ 0 := fun zero => holds.1 (zero ▸ List.mem_cons_self)
      rw [entry] at named
      split at named
      · cases named
      · rename_i other
        split at named
        · rename_i header
          obtain rfl := Entry.section_.inj named
          have more : t ≠ [] := by
            rintro rfl
            cases header.1.symm.trans (Option.some.inj header.2)
          have other' : ¬(b = 0 ∨ b = chr ';' ∨ b = chr '#') := not_or.mpr ⟨visible, other⟩
          obtain ⟨_, count, copied⟩ := header_bytes holds more _sec
          have lost := fill_put_none long
          have header' : b = chr '[' ∧ (line)[(b :: t).length - 1]? = some (chr ']') := by
            rw [holds.getLast? (List.cons_ne_nil b t)]
            exact header
          simp only [parseLine, holds.strlen, first, List.getD_cons_zero, if_neg other',
            if_pos header', copied, count, Option.bind_eq_bind, Option.bind_some]
          rw [← Option.bind_assoc, lost]
          rfl
        · split at named <;> cases named

theorem parseLine_eq {l : List UInt8} {_sec : Buffer} {sec : Option (List UInt8)}
    {key cur : List UInt8} {value : Mem} (holds : Holds line 0 l) {room : Nat}
    (size : _sec.length = room) (current : Holds _sec 0 cur) (short : Stores room l)
    : ∃ parsed,
        parseLine line sec _sec key value = some parsed
        ∧ parsed.line.length = line.length
        ∧ parsed.sec.length = room
        ∧ parsed.Answers value (outcome sec key cur l) := by
  have first : (line)[0]? = some (l.getD 0 0) := by
    simpa using holds.getElem? (Nat.zero_le l.length)
  have stay (skip : outcome sec key cur l = .next cur)
      : (Parsed.mk .none line _sec value).Answers value (outcome sec key cur l) := by
    rw [skip]
    exact ⟨rfl, rfl, current⟩
  simp only [parseLine, holds.strlen, first, Option.bind_eq_bind, Option.bind_some]
  cases l with
  | nil => exact ⟨_, if_pos (Or.inl rfl), rfl, size, stay rfl⟩
  | cons b t =>
      have visible : b ≠ 0 := fun zero => holds.1 (zero ▸ List.mem_cons_self)
      rw [List.getD_cons_zero, holds.getLast? (List.cons_ne_nil b t)]
      split
      · rename_i comment
        have comment : b = chr ';' ∨ b = chr '#' := comment.resolve_left visible
        exact ⟨_, rfl, rfl, size, stay (by rw [outcome, entry, if_pos comment])⟩
      · rename_i other
        have other : ¬(b = chr ';' ∨ b = chr '#') := fun comment => other (Or.inr comment)
        split
        · rename_i header
          have named : entry (b :: t) = .section_ (t.take (t.length - 1)) := by
            rw [entry, if_neg other, if_pos header]
          have more : t ≠ [] := by
            rintro rfl
            cases header.1.symm.trans (Option.some.inj header.2)
          obtain ⟨sec₁, sec₂, copied, stored, length, holds'⟩ :=
            header_eq holds more (size ▸ short _ named)
          simp only [copied, stored, Option.bind_some]
          refine ⟨_, rfl, rfl, length.trans size, ?_⟩
          rw [outcome, named]
          cases sec with
          | none => exact ⟨rfl, rfl⟩
          | some sec => exact ⟨rfl, rfl, holds'⟩
        · rename_i plain
          simp only [current.str, holds.strchr, Option.bind_some]
          split
          · rename_i elsewhere
            refine ⟨_, rfl, rfl, size, stay ?_⟩
            rw [outcome, entry, if_neg other, if_neg plain]
            rcases Decidable.em (chr '=' ∈ b :: t) with member | absent
            · rw [if_pos member]
              exact if_pos elsewhere
            · rw [if_neg absent]
          · rename_i inside
            rcases Decidable.em (chr '=' ∈ b :: t) with member | absent
            · obtain ⟨v, whole⟩ := before_split member
              have pair
                  : entry (b :: t) = .pair (trim (before (chr '=') (b :: t))) (trim v) := by
                rw [entry, if_neg other, if_neg plain, if_pos member]
                rw [drop_before whole]
              rw [if_pos member, Nat.zero_add]
              generalize before (chr '=') (b :: t) = k at whole pair
              rw [whole] at holds ⊢
              obtain ⟨parsed, read, length, same, result⟩ :=
                matchKey_eq _sec key value holds
              refine ⟨parsed, read, length, same ▸ size, ?_⟩
              rw [outcome, ← whole, pair]
              change parsed.Answers value (if _ then _ else _)
              rw [if_neg inside]
              split at result
              · rename_i otherKey
                rw [if_pos otherKey]
                exact ⟨result.1, result.2, same ▸ current⟩
              · rename_i sameKey
                rw [if_neg sameKey]
                exact result
            · rw [if_neg absent]
              refine ⟨_, rfl, rfl, size, stay ?_⟩
              rw [outcome, entry, if_neg other, if_neg plain, if_neg absent]

/-- `_get_value` reads a line as it is meant. -/
theorem _getValue_eq (sec : Option (List UInt8)) (key : List UInt8) (value : Mem) {_sec : Buffer}
    {cur : List UInt8} (holds : Holds line 0 s) (nonempty : s ≠ []) {room : Nat}
    (size : _sec.length = room) (current : Holds _sec 0 cur)
    (short : Stores room (before (chr '\n') s))
    : ∃ parsed,
        _getValue line sec _sec key value = some parsed
        ∧ parsed.line.length = line.length
        ∧ parsed.sec.length = room
        ∧ parsed.Answers value (outcome sec key cur (before (chr '\n') s)) := by
  have positive : ¬s.length < 1 := Nat.not_lt.mpr (List.length_pos_of_ne_nil nonempty)
  obtain ⟨line₁, stored, length, cut, _⟩ :=
    holds.cut (before_leads (c := chr '\n')).length_le
  rw [take_before] at cut
  rw [Nat.zero_add] at stored
  obtain ⟨parsed, read, length', answers⟩ := parseLine_eq cut size current short
  refine ⟨parsed, ?_, length'.trans length, answers⟩
  simp only [_getValue, holds.strlen, holds.strcspn, if_neg positive, stored, read,
    Option.bind_eq_bind, Option.bind_some]

/-- A line with a section name that `_sec` cannot store. -/
theorem _getValue_none (sec : Option (List UInt8)) (key : List UInt8) (value : Mem)
    {_sec : Buffer} (holds : Holds line 0 s) (nonempty : s ≠ [])
    (large : ¬Stores _sec.length (before (chr '\n') s))
    : _getValue line sec _sec key value = none := by
  have positive : ¬s.length < 1 := Nat.not_lt.mpr (List.length_pos_of_ne_nil nonempty)
  obtain ⟨line₁, stored, _, cut, _⟩ := holds.cut (before_leads (c := chr '\n')).length_le
  rw [take_before] at cut
  rw [Nat.zero_add] at stored
  simp only [_getValue, holds.strlen, holds.strcspn, if_neg positive, stored,
    parseLine_none sec key value cut large, Option.bind_eq_bind, Option.bind_some]

/-- An empty string makes `_get_value` fail. -/
theorem _getValue_empty {sec : Option (List UInt8)} {key : List UInt8} (value : Mem)
    {_sec : Buffer} (holds : Holds line 0 [])
    : _getValue line sec _sec key value = some ⟨.fail, line, _sec, value⟩ := by
  simp [_getValue, holds.strlen]

end Libccll.Ini
