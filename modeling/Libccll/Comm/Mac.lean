import Libccll.Foundation.Decimal

/-! `comm/mac.c`: the recognisers of hardware addresses. An access outside of the buffer is `none`.
-/

namespace Libccll.Mac

open Foundation CString Decimal

/-- `isxdigit` -/
def isXdigit (b : UInt8) : Bool :=
  isDigit b || (chr 'A' ≤ b && b ≤ chr 'F') || (chr 'a' ≤ b && b ≤ chr 'f')

/-- The loop of `_chk_type1`, with so many turns left, and the test behind it. -/
def chkType1From (mac : Buffer) : Nat → Nat → Nat → Nat → Option Bool
  | 0, _, colonCount, dashCount => some (decide (colonCount = 5 ∨ dashCount = 5))
  | left + 1, i, colonCount, dashCount => do
      let b ← mac[i]?
      if i % 3 ≠ 2 then
        if isXdigit b = true then
          chkType1From mac left (i + 1) colonCount dashCount
        else
          return false
      else if b = chr ':' then
        chkType1From mac left (i + 1) (colonCount + 1) dashCount
      else if b = chr '-' then
        chkType1From mac left (i + 1) colonCount (dashCount + 1)
      else
        return false

/-- `_chk_type1` -/
def chkType1 (mac : Buffer) : Option Bool := do
  if (← strlen mac 0) ≠ 17 then return false
  chkType1From mac 17 0 0 0

/-- The loop of `_chk_type2`, with so many turns left. -/
def chkType2From (mac : Buffer) : Nat → Nat → Option Bool
  | 0, _ => some true
  | left + 1, i => do
      if isXdigit (← mac[i]?) = true then chkType2From mac left (i + 1) else return false

/-- `_chk_type2`, where the length is kept in an `int`. -/
def chkType2 (mac : Buffer) : Option Bool := do
  let len := ((← strlen mac 0) : Int).bmod (2 ^ 32)
  if len ≠ 12 then return false
  chkType2From mac 12 0

/-- `cl_is_mac_valid`, with a `NULL` pointer as `none`. -/
def clIsMacValid (mac : Option Buffer) : Option Bool :=
  match mac with
  | none => some false
  | some mac => do
      if (← mac[0]?) = 0 then return false
      if (← chkType1 mac) then return true
      if (← chkType2 mac) then return true
      return false

-----------------------------------------------------------------------------------------
-- The grammar
-----------------------------------------------------------------------------------------

/-- A pair of hexadecimal digits, and so many more of them, each behind a separator. -/
def Pairs (sep : UInt8) : Nat → List UInt8 → Prop
  | 0, [a, b] => isXdigit a = true ∧ isXdigit b = true
  | n + 1, a :: b :: c :: rest =>
      isXdigit a = true ∧ isXdigit b = true ∧ c = sep ∧ Pairs sep n rest
  | _, _ => False

/-- Twelve hexadecimal digits, or six pairs of them with five times the same separator. -/
def Address (s : List UInt8) : Prop :=
  (s.length = 12 ∧ ∀ b ∈ s, isXdigit b = true) ∨ Pairs (chr ':') 5 s ∨ Pairs (chr '-') 5 s

variable {mac : Buffer} {s rest back : List UInt8} {sep a b c : UInt8}
variable {n i left colons dashes : Nat}

theorem Pairs.length (pairs : Pairs sep n s) : s.length = 3 * n + 2 := by
  induction n generalizing s with
  | zero =>
      match s, pairs with
      | [_, _], _ => rfl
  | succ n ih =>
      match s, pairs with
      | _ :: _ :: _ :: rest, ⟨_, _, _, pairs⟩ =>
          rw [List.length_cons, List.length_cons, List.length_cons, ih pairs]
          omega

theorem pairs_succ
    : Pairs sep (n + 1) (a :: b :: c :: rest)
      ↔ isXdigit a = true ∧ isXdigit b = true ∧ c = sep ∧ Pairs sep n rest :=
  Iff.rfl

-----------------------------------------------------------------------------------------
-- The loops
-----------------------------------------------------------------------------------------

/-- A turn on the first or the second character of three. -/
theorem chkType1From_digit (suffix : mac.drop i = b :: rest) (place : i % 3 ≠ 2)
    : chkType1From mac (left + 1) i colons dashes
      = if isXdigit b = true then chkType1From mac left (i + 1) colons dashes
        else some false := by
  simp only [chkType1From, getElem?_of_drop suffix, Option.bind_eq_bind, Option.bind_some,
    if_pos place, Option.pure_def]

/-- A turn on the third one. -/
theorem chkType1From_separator (suffix : mac.drop i = b :: rest) (place : i % 3 = 2)
    : chkType1From mac (left + 1) i colons dashes
      = if b = chr ':' then chkType1From mac left (i + 1) (colons + 1) dashes
        else if b = chr '-' then chkType1From mac left (i + 1) colons (dashes + 1)
        else some false := by
  simp only [chkType1From, getElem?_of_drop suffix, Option.bind_eq_bind, Option.bind_some,
    if_neg (not_not_intro place), Option.pure_def]

/-- With as many pairs left as the separators counted leave room for, the loop accepts those with
none of the other separator.
-/
theorem chkType1From_decides (suffix : mac.drop i = rest ++ back)
    (long : rest.length = 3 * n + 2) (place : i % 3 = 0) (counted : colons + dashes + n = 5)
    : ∃ valid, chkType1From mac (3 * n + 2) i colons dashes = some valid
        ∧ (valid = true
          ↔ (dashes = 0 ∧ Pairs (chr ':') n rest) ∨ (colons = 0 ∧ Pairs (chr '-') n rest)) := by
  induction n generalizing i rest colons dashes with
  | zero =>
      obtain ⟨a, b, rfl⟩ := List.length_eq_two.mp long
      have second := drop_of_drop suffix
      rw [chkType1From_digit suffix (by omega), chkType1From_digit second (by omega)]
      by_cases first : isXdigit a = true
      · by_cases last : isXdigit b = true
        · rw [if_pos first, if_pos last]
          refine ⟨_, rfl, ?_⟩
          simp only [decide_eq_true_eq, Pairs, first, last, and_true]
          omega
        · rw [if_pos first, if_neg last]
          exact ⟨false, rfl, by simp [Pairs, last]⟩
      · rw [if_neg first]
        exact ⟨false, rfl, by simp [Pairs, first]⟩
  | succ n ih =>
      match rest, long with
      | a :: b :: c :: rest, long =>
          have long : rest.length = 3 * n + 2 := by
            rw [List.length_cons, List.length_cons, List.length_cons] at long
            omega
          have second := drop_of_drop suffix
          have third := drop_of_drop second
          have onward := drop_of_drop third
          rw [show 3 * (n + 1) + 2 = 3 * n + 2 + 1 + 1 + 1 by omega,
            chkType1From_digit suffix (by omega), chkType1From_digit second (by omega),
            chkType1From_separator third (by omega)]
          simp only [pairs_succ]
          have differ : chr ':' ≠ chr '-' := by decide
          by_cases digits : isXdigit a = true ∧ isXdigit b = true
          · rw [if_pos digits.1, if_pos digits.2]
            by_cases colon : c = chr ':'
            · have counted' : colons + 1 + dashes + n = 5 := by omega
              obtain ⟨valid, looped, accepts⟩ := ih onward long (by omega) counted'
              rw [if_pos colon]
              exact ⟨valid, looped, by simp [accepts, digits, colon, differ]⟩
            · by_cases dash : c = chr '-'
              · have counted' : colons + (dashes + 1) + n = 5 := by omega
                obtain ⟨valid, looped, accepts⟩ := ih onward long (by omega) counted'
                rw [if_neg colon, if_pos dash]
                exact ⟨valid, looped, by simp [accepts, digits, dash, differ.symm]⟩
              · rw [if_neg colon, if_neg dash]
                exact ⟨false, rfl, by simp [colon, dash]⟩
          · refine ⟨false, ?_, nofun, fun either => ?_⟩
            · by_cases first : isXdigit a = true
              · rw [if_pos first, if_neg fun last => digits ⟨first, last⟩]
              · rw [if_neg first]
            · rcases either with ⟨_, first, last, _⟩ | ⟨_, first, last, _⟩ <;>
                exact absurd ⟨first, last⟩ digits

theorem chkType2From_eq (enough : i + left ≤ mac.length)
    : chkType2From mac left i = some (((mac.drop i).take left).all isXdigit) := by
  induction left generalizing i with
  | zero => rfl
  | succ left ih =>
      obtain ⟨b, rest, suffix⟩ : ∃ b rest, mac.drop i = b :: rest :=
        List.exists_cons_of_ne_nil fun empty => by
          have long := List.drop_eq_nil_iff.mp empty
          omega
      simp only [chkType2From, getElem?_of_drop suffix, Option.bind_eq_bind, Option.bind_some]
      rw [suffix, List.take_succ_cons, List.all_cons, ih (by omega), drop_of_drop suffix]
      by_cases digit : isXdigit b = true
      · rw [if_pos digit, digit, Bool.true_and]
      · rw [if_neg digit, eq_false_of_ne_true digit, Bool.false_and]
        rfl

/-- The length in an `int` is 12. -/
theorem bmod_eq_twelve : (n : Int).bmod (2 ^ 32) = 12 ↔ n % 2 ^ 32 = 12 := by
  rw [Int.bmod_def]
  split <;> omega

-----------------------------------------------------------------------------------------
-- A call
-----------------------------------------------------------------------------------------

/-- The first form of an address. -/
theorem chkType1_decides (holds : Holds mac 0 s)
    : ∃ valid, chkType1 mac = some valid
        ∧ (valid = true ↔ Pairs (chr ':') 5 s ∨ Pairs (chr '-') 5 s) := by
  by_cases long : s.length = 17
  · obtain ⟨_, rest, suffix⟩ := id holds
    have counted : 0 + 0 + 5 = 5 := rfl
    obtain ⟨valid, looped, accepts⟩ := chkType1From_decides suffix long rfl counted
    refine ⟨valid, ?_, by simpa using accepts⟩
    simp only [chkType1, holds.strlen, Option.bind_eq_bind, Option.bind_some,
      if_neg (not_not_intro long), looped]
  · refine ⟨false, ?_, nofun, fun either => ?_⟩
    · simp only [chkType1, holds.strlen, Option.bind_eq_bind, Option.bind_some, if_pos long,
        Option.pure_def]
    · exact absurd (either.elim Pairs.length Pairs.length) long

theorem chkType2_of_holds (holds : Holds mac 0 s)
    : chkType2 mac
      = if (s.length : Int).bmod (2 ^ 32) ≠ 12 then some false else chkType2From mac 12 0 := by
  have counted : chkType2 mac
      = (strlen mac 0).bind fun n =>
          if (n : Int).bmod (2 ^ 32) ≠ 12 then some false else chkType2From mac 12 0 :=
    rfl
  rw [counted, holds.strlen, Option.bind_some]

/-- The second one, when its length does not fit into an `int`. -/
theorem chkType2_eq (holds : Holds mac 0 s)
    : chkType2 mac
      = some (decide (s.length % 2 ^ 32 = 12) && (s.take 12).all isXdigit) := by
  obtain ⟨_, rest, suffix⟩ := id holds
  rw [chkType2_of_holds holds]
  by_cases twelve : s.length % 2 ^ 32 = 12
  · have enough : 12 ≤ s.length := by
      have least := Nat.mod_le s.length (2 ^ 32)
      omega
    have inside := holds.inside
    rw [if_neg (not_not_intro (bmod_eq_twelve.mpr twelve)), decide_eq_true twelve,
      Bool.true_and, chkType2From_eq (by omega), suffix, List.take_append_of_le_length enough]
  · rw [if_pos fun same => twelve (bmod_eq_twelve.mp same), decide_eq_false twelve,
      Bool.false_and]

/-- A call: one of the two forms, as the recognisers see them. -/
theorem clIsMacValid_eq (holds : Holds mac 0 s)
    : ∃ valid, clIsMacValid (some mac) = some valid
        ∧ (valid = true
          ↔ (s.length % 2 ^ 32 = 12 ∧ ∀ b ∈ s.take 12, isXdigit b = true)
            ∨ Pairs (chr ':') 5 s ∨ Pairs (chr '-') 5 s) := by
  obtain ⟨colonsOrDashes, first, accepts⟩ := chkType1_decides holds
  have second := chkType2_eq holds
  obtain ⟨nonzero, rest, suffix⟩ := holds
  cases s with
  | nil =>
      refine ⟨false, ?_, by simp [Pairs]⟩
      have empty : mac[0]? = some 0 := getElem?_of_drop suffix
      simp only [clIsMacValid, empty, Option.bind_eq_bind, Option.bind_some, if_true,
        Option.pure_def]
  | cons b s =>
      have read : mac[0]? = some b := getElem?_of_drop suffix
      have inked : b ≠ 0 := fun zero => nonzero (zero ▸ List.mem_cons_self)
      refine ⟨colonsOrDashes
        || (decide ((b :: s).length % 2 ^ 32 = 12) && ((b :: s).take 12).all isXdigit), ?_, ?_⟩
      · simp only [clIsMacValid, read, first, second, Option.bind_eq_bind, Option.bind_some,
          if_neg inked, Option.pure_def]
        generalize (decide ((b :: s).length % 2 ^ 32 = 12)
          && ((b :: s).take 12).all isXdigit) = twelve
        cases colonsOrDashes <;> cases twelve <;> rfl
      · rw [Bool.or_eq_true, accepts, Bool.and_eq_true, decide_eq_true_eq, List.all_eq_true,
          or_comm]

/-- The claimed language is accepted, except that a string whose length is 12 modulo `2 ^ 32`, and
longer, is taken for one of twelve characters.
-/
theorem clIsMacValid_iff (holds : Holds mac 0 s)
    : (∃ valid, clIsMacValid (some mac) = some valid ∧ (valid = true ↔ Address s))
      ↔ s.length ≤ 12 ∨ s.length % 2 ^ 32 ≠ 12 ∨ ∃ b ∈ s.take 12, isXdigit b = false := by
  obtain ⟨valid, called, accepts⟩ := clIsMacValid_eq holds
  constructor
  · rintro ⟨_, called', claimed⟩
    obtain rfl := Option.some.inj (called.symm.trans called')
    by_contra fails
    simp only [not_or, not_not, not_exists, not_and, Bool.not_eq_false] at fails
    obtain ⟨long, wraps, digits⟩ := fails
    rcases claimed.mp (accepts.mpr (Or.inl ⟨wraps, digits⟩)) with twelve | pairs
    · exact long (Nat.le_of_eq twelve.1)
    · have seventeen := pairs.elim Pairs.length Pairs.length
      omega
  · intro condition
    refine ⟨valid, called, ?_⟩
    rw [accepts, Address]
    refine or_congr_left ⟨fun ⟨wraps, digits⟩ => ?_, fun ⟨twelve, digits⟩ => ?_⟩
    · rcases condition with short | other | ⟨b, member, odd⟩
      · have twelve : s.length = 12 := by omega
        rw [← twelve, List.take_length] at digits
        exact ⟨twelve, digits⟩
      · exact absurd wraps other
      · exact absurd (digits b member) (by simp [odd])
    · rw [twelve]
      exact ⟨rfl, fun b member => digits b (List.mem_of_mem_take member)⟩

theorem clIsMacValid_iff_address
    : (∃ valid, clIsMacValid (some [48, 48, 49, 49, 50, 50, 51, 51, 52, 52, 53, 53, 0])
          = some valid
        ∧ (valid = true ↔ Address [48, 48, 49, 49, 50, 50, 51, 51, 52, 52, 53, 53]))
      ↔ [48, 48, 49, 49, 50, 50, 51, 51, 52, 52, 53, (53 : UInt8)].length ≤ 12
        ∨ [48, 48, 49, 49, 50, 50, 51, 51, 52, 52, 53, (53 : UInt8)].length % 2 ^ 32 ≠ 12
        ∨ ∃ b ∈ [48, 48, 49, 49, 50, 50, 51, 51, 52, 52, 53, (53 : UInt8)].take 12,
            isXdigit b = false :=
  clIsMacValid_iff ⟨by decide, [], rfl⟩

/-- A string of `2 ^ 32 + 12` times `a` is accepted. -/
theorem clIsMacValid_wraps
    : ¬∃ valid, clIsMacValid (some (List.replicate (2 ^ 32 + 12) (chr 'a') ++ [0])) = some valid
        ∧ (valid = true ↔ Address (List.replicate (2 ^ 32 + 12) (chr 'a'))) := by
  have holds : Holds (List.replicate (2 ^ 32 + 12) (chr 'a') ++ [0]) 0
      (List.replicate (2 ^ 32 + 12) (chr 'a')) :=
    ⟨fun member => absurd (List.mem_replicate.mp member).2 (by decide), [], List.drop_zero⟩
  have length : (List.replicate (2 ^ 32 + 12) (chr 'a')).length = 2 ^ 32 + 12 :=
    List.length_replicate
  have digits : ∀ b ∈ List.replicate (2 ^ 32 + 12) (chr 'a'), isXdigit b = true := by
    intro b member
    rw [(List.mem_replicate.mp member).2]
    decide
  generalize List.replicate (2 ^ 32 + 12) (chr 'a') = s at holds length digits
  rintro ⟨_, called', claimed⟩
  obtain ⟨valid, called, accepts⟩ := clIsMacValid_eq holds
  obtain rfl := Option.some.inj (called.symm.trans called')
  have wraps : s.length % 2 ^ 32 = 12 := by
    rw [length]
    decide
  have accepted :=
    accepts.mpr (Or.inl ⟨wraps, fun b member => digits b (List.mem_of_mem_take member)⟩)
  rcases claimed.mp accepted with twelve | pairs
  · have short := twelve.1
    omega
  · have seventeen := pairs.elim Pairs.length Pairs.length
    omega

end Libccll.Mac
