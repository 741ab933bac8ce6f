import Libccll.Foundation.Decimal
import Libccll.Foundation.Transition

/-! `cl_chk_ipv4` of `comm/ip.c`. An access outside of the buffer, and a counter which does not fit
into an `int`, are `none`.
-/

namespace Libccll.Ip

open Foundation CString Decimal Transition

/-- The result of an addition or a multiplication of type `int`. -/
def int (v : Int) : Option Int := if -(2 ^ 31) ≤ v ∧ v < 2 ^ 31 then some v else none

/-- `dots`, `num` and `digit_count` -/
structure Chk where
  dots : Int
  num : Int
  digitCount : Int

def start : Chk := { dots := 0, num := 0, digitCount := 0 }

/-- A turn of the loop: the counters after it, and whether the loop goes on. -/
def turn (chk : Chk) (b : UInt8) : Option (Chk × Bool) :=
  if b = chr '.' then
    if chk.digitCount = 0 ∨ 255 < chk.num then
      some (chk, false)
    else do
      let dots ← int (chk.dots + 1)
      return ({ dots, num := 0, digitCount := 0 }, true)
  else if isDigit b = true then do
    let tens ← int (chk.num * 10)
    let num ← int (tens + (b.toNat - 48))
    let digitCount ← int (chk.digitCount + 1)
    return ({ chk with num, digitCount }, !(decide (3 < digitCount) || decide (255 < num)))
  else
    some (chk, false)

/-- The loop, on the bytes from `ip` on: the counters after it, and whether it came to the end of
the string.
-/
def loop : Buffer → Chk → Option (Chk × Bool)
  | [], _ => none
  | b :: rest, chk =>
      if b = 0 then
        some (chk, true)
      else do
        let (chk, onward) ← turn chk b
        if onward then loop rest chk else return (chk, false)

/-- The test behind the loop. -/
def atEnd (chk : Chk) : Bool :=
  !(decide (chk.digitCount = 0) || decide (255 < chk.num) || decide (chk.dots ≠ 3))

/-- `cl_chk_ipv4`, with a `NULL` pointer as `none`. -/
def clChkIpv4 (ip : Option Buffer) : Option Bool :=
  match ip with
  | none => some false
  | some ip => do
      if (← ip[0]?) = 0 then
        return false
      let (chk, ended) ← loop ip start
      return ended && atEnd chk

/-- A turn after which the loop goes on. -/
def continued (chk : Chk) (b : UInt8) : Option Chk :=
  (turn chk b).bind fun (next, onward) => if onward then some next else none

-----------------------------------------------------------------------------------------
-- The grammar
-----------------------------------------------------------------------------------------

/-- A front of a group: up to three digits that stand for 255 at most. -/
def Front (s : List UInt8) : Prop :=
  (∀ b ∈ s, isDigit b = true) ∧ s.length ≤ 3 ∧ value s ≤ 255

/-- One to three digits that stand for 255 at most. -/
def Group (s : List UInt8) : Prop := s ≠ [] ∧ Front s

/-- Four groups with a dot between any two. -/
def Ipv4 (s : List UInt8) : Prop :=
  ∃ a b c d,
    (Group a ∧ Group b ∧ Group c ∧ Group d)
    ∧ s = a ++ chr '.' :: (b ++ chr '.' :: (c ++ chr '.' :: d))

variable {s t rest back : List UInt8} {b : UInt8} {chk next : Chk} {onward : Bool} {n : Nat}

theorem Front.nil : Front [] := ⟨by simp, by simp, by decide⟩

/-- More digits stand for no less. -/
theorem value_le_append : value s ≤ value (s ++ t) := by
  induction t using List.reverseRecOn with
  | nil => rw [List.append_nil]
  | append_singleton t b ih =>
      rw [← List.append_assoc, value_append]
      omega

theorem Front.of_append (front : Front (s ++ t)) : Front s := by
  obtain ⟨digits, short, small⟩ := front
  rw [List.length_append] at short
  exact ⟨fun b member => digits b (List.mem_append_left t member),
    Nat.le_trans (Nat.le_add_right _ _) short, Nat.le_trans value_le_append small⟩

/-- No digit is a dot. -/
theorem Front.dotless (front : Front s) : chr '.' ∉ s := by
  intro member
  exact absurd (front.1 _ member) (by decide)

/-- One more digit. -/
theorem front_concat (front : Front s)
    : Front (s ++ [b])
      ↔ isDigit b = true ∧ s.length + 1 ≤ 3 ∧ 10 * value s + (b.toNat - 48) ≤ 255 := by
  rw [Front, List.length_append, List.length_singleton, value_append]
  refine and_congr_left fun _ => ⟨fun digits => digits b (by simp), fun digit c member => ?_⟩
  rcases List.mem_append.mp member with earlier | last
  · exact front.1 c earlier
  · rwa [List.mem_singleton.mp last]

/-- The groups are the parts between the dots. -/
theorem ipv4_iff_parts
    : Ipv4 s ↔ (s.splitOn (chr '.')).length = 4 ∧ ∀ g ∈ s.splitOn (chr '.'), Group g := by
  constructor
  · rintro ⟨a, b, c, d, ⟨groupA, groupB, groupC, groupD⟩, rfl⟩
    rw [List.splitOn_append_cons_self_of_not_mem groupA.2.dotless,
      List.splitOn_append_cons_self_of_not_mem groupB.2.dotless,
      List.splitOn_append_cons_self_of_not_mem groupC.2.dotless,
      List.splitOn_eq_singleton groupD.2.dotless]
    refine ⟨rfl, ?_⟩
    simp only [List.forall_mem_cons, List.not_mem_nil, false_implies, implies_true, and_true]
    exact ⟨groupA, groupB, groupC, groupD⟩
  · rintro ⟨four, groups⟩
    obtain ⟨a, b, c, d, parts⟩ := List.length_eq_four.mp four
    have joined : [chr '.'].intercalate (s.splitOn (chr '.')) = s :=
      List.intercalate_splitOn (chr '.')
    rw [parts] at joined groups
    refine ⟨a, b, c, d, ⟨groups a ?_, groups b ?_, groups c ?_, groups d ?_⟩, ?_⟩
    any_goals simp
    rw [← joined]
    simp [List.intercalate]

/-- What was read of a group is a front of the first part. -/
theorem splitOn_first (dotless : chr '.' ∉ s)
    : ∃ more parts, (s ++ t).splitOn (chr '.') = (s ++ more) :: parts := by
  by_cases dot : chr '.' ∈ t
  · obtain ⟨more, back, rfl, absent⟩ := List.eq_append_cons_of_mem dot
    refine ⟨more, back.splitOn (chr '.'), ?_⟩
    rw [← List.append_assoc, List.splitOn_append_cons_self_of_not_mem]
    exact List.not_mem_append dotless absent
  · exact ⟨t, [], List.splitOn_eq_singleton (List.not_mem_append dotless dot)⟩

-----------------------------------------------------------------------------------------
-- A turn
-----------------------------------------------------------------------------------------

/-- The counters after so many groups, each with its dot, and a front of one more. -/
def Read (chk : Chk) (groups : Nat) (s : List UInt8) : Prop :=
  chk.dots = groups ∧ chk.num = value s ∧ chk.digitCount = s.length

theorem int_of_range {v : Int} (range : -(2 ^ 31) ≤ v ∧ v < 2 ^ 31) : int v = some v :=
  if_pos range

theorem int_eq_some {v w : Int} (fits : int v = some w) : w = v := by
  rw [int] at fits
  split at fits
  · exact (Option.some.inj fits).symm
  · cases fits

theorem turn_dot (read : Read chk n s) (front : Front s) (room : n + 1 < 2 ^ 31)
    : turn chk (chr '.')
      = some (if s = [] then (chk, false)
          else ({ dots := n + 1, num := 0, digitCount := 0 }, true)) := by
  obtain ⟨dots, num, count⟩ := read
  have small := front.2.2
  have counted : int (chk.dots + 1) = some (n + 1) := by
    rw [dots]
    exact int_of_range (by omega)
  rw [turn, if_pos rfl, counted]
  by_cases empty : s = []
  · have none : chk.digitCount = 0 := by
      rw [count, empty]
      rfl
    rw [if_pos (Or.inl none), if_pos empty]
  · have some : ¬(chk.digitCount = 0 ∨ 255 < chk.num) := by
      have positive := List.length_pos_of_ne_nil empty
      omega
    rw [if_neg some, if_neg empty]
    rfl

theorem turn_digit (read : Read chk n s) (front : Front s) (digit : isDigit b = true)
    : ∃ next onward, turn chk b = some (next, onward) ∧ Read next n (s ++ [b])
        ∧ (onward = true ↔ Front (s ++ [b])) := by
  obtain ⟨dots, num, count⟩ := read
  obtain ⟨low, high⟩ := isDigit_iff.mp digit
  have ⟨_, short, small⟩ := front
  have other : b ≠ chr '.' := by
    rintro rfl
    exact absurd digit (by decide)
  have tens : int (chk.num * 10) = some (chk.num * 10) := int_of_range (by omega)
  have units : int (chk.num * 10 + (b.toNat - 48)) = some (chk.num * 10 + (b.toNat - 48)) :=
    int_of_range (by omega)
  have counted : int (chk.digitCount + 1) = some (chk.digitCount + 1) :=
    int_of_range (by omega)
  refine ⟨{ chk with num := chk.num * 10 + (b.toNat - 48), digitCount := chk.digitCount + 1 },
    !(decide (3 < chk.digitCount + 1) || decide (255 < chk.num * 10 + (b.toNat - 48))),
    ?_, ⟨dots, ?_, ?_⟩, ?_⟩
  · rw [turn, if_neg other, if_pos digit, tens, counted]
    simp only [Option.bind_eq_bind, Option.bind_some, units]
    rfl
  · change chk.num * 10 + (b.toNat - 48) = _
    rw [value_append, num]
    omega
  · rw [List.length_append, List.length_singleton, count]
    rfl
  · rw [front_concat front, and_iff_right digit, Bool.not_eq_true', Bool.or_eq_false_iff,
      decide_eq_false_iff_not, decide_eq_false_iff_not, num, count]
    omega

/-- A turn on anything but a dot goes on as long as there is a front of a group. -/
theorem turn_other (read : Read chk n s) (front : Front s) (other : b ≠ chr '.')
    : ∃ next onward, turn chk b = some (next, onward)
        ∧ (onward = true → Read next n (s ++ [b])) ∧ (onward = true ↔ Front (s ++ [b])) := by
  by_cases digit : isDigit b = true
  · obtain ⟨next, onward, turned, read', goes⟩ := turn_digit read front digit
    exact ⟨next, onward, turned, fun _ => read', goes⟩
  · refine ⟨chk, false, ?_, nofun, nofun, fun longer => ?_⟩
    · rw [turn, if_neg other, if_neg digit]
    · exact absurd ((front_concat front).mp longer).1 digit

/-- The accumulator after a turn. -/
theorem turn_num (small : chk.num ≤ 255) (turned : turn chk b = some (next, onward))
    : next.num ≤ 2559 ∧ (onward = true → next.num ≤ 255) := by
  simp only [turn, Option.bind_eq_bind, Option.pure_def] at turned
  split at turned
  · split at turned
    · cases turned
      exact ⟨by omega, nofun⟩
    · obtain ⟨dots, _, same⟩ := Option.bind_eq_some_iff.mp turned
      cases same
      exact ⟨by simp, fun _ => by simp⟩
  · split at turned
    · rename_i digit
      obtain ⟨tens, tensEq, turned⟩ := Option.bind_eq_some_iff.mp turned
      obtain ⟨num, numEq, turned⟩ := Option.bind_eq_some_iff.mp turned
      obtain ⟨count, _, same⟩ := Option.bind_eq_some_iff.mp turned
      have high := (isDigit_iff.mp digit).2
      have value : num = chk.num * 10 + (b.toNat - 48) := by
        rw [int_eq_some numEq, int_eq_some tensEq]
      cases same
      refine ⟨by simp only; omega, fun goes => ?_⟩
      rw [Bool.not_eq_true', Bool.or_eq_false_iff, decide_eq_false_iff_not,
        decide_eq_false_iff_not] at goes
      exact Int.not_lt.mp goes.2
    · cases turned
      exact ⟨by omega, nofun⟩

-----------------------------------------------------------------------------------------
-- The loop
-----------------------------------------------------------------------------------------

/-- The groups before are complete, and the string goes on as the grammar says. -/
def Completes (groups : Nat) (s : List UInt8) : Prop :=
  groups + (s.splitOn (chr '.')).length = 4 ∧ ∀ g ∈ s.splitOn (chr '.'), Group g

/-- The loop, from any turn on, on what is left of the string. -/
theorem loop_decides (back : List UInt8) (visible : 0 ∉ rest) (read : Read chk n s)
    (front : Front s) (room : n + rest.length < 2 ^ 31)
    : ∃ last ended, loop (rest ++ 0 :: back) chk = some (last, ended)
        ∧ ((ended && atEnd last) = true ↔ Completes n (s ++ rest)) := by
  induction rest generalizing chk n s with
  | nil =>
      refine ⟨chk, true, by rw [List.nil_append, loop, if_pos rfl], ?_⟩
      obtain ⟨dots, num, count⟩ := read
      have small := front.2.2
      rw [List.append_nil, Completes, List.splitOn_eq_singleton front.dotless, Bool.true_and, atEnd,
        Bool.not_eq_true', Bool.or_eq_false_iff, Bool.or_eq_false_iff, decide_eq_false_iff_not,
        decide_eq_false_iff_not, decide_eq_false_iff_not, not_not, List.length_singleton,
        List.forall_mem_singleton, Group, and_iff_left front, ← List.length_pos_iff]
      omega
  | cons b rest ih =>
      obtain ⟨other, later⟩ := not_or.mp (List.mem_cons.not.mp visible)
      rw [List.length_cons] at room
      rw [List.cons_append, loop, if_neg (Ne.symm other)]
      by_cases dot : b = chr '.'
      · subst dot
        rw [turn_dot read front (by omega), Completes,
          List.splitOn_append_cons_self_of_not_mem front.dotless]
        by_cases empty : s = []
        · rw [if_pos empty]
          refine ⟨chk, false, rfl, nofun, fun ⟨_, groups⟩ => ?_⟩
          exact absurd empty (groups s List.mem_cons_self).1
        · rw [if_neg empty]
          have fresh : Read { dots := n + 1, num := 0, digitCount := 0 } (n + 1) [] :=
            ⟨rfl, rfl, rfl⟩
          obtain ⟨last, ended, looped, decides⟩ := ih later fresh Front.nil (by omega)
          refine ⟨last, ended, looped, ?_⟩
          rw [decides, List.nil_append, Completes, List.length_cons, List.forall_mem_cons,
            and_iff_right (show Group s from ⟨empty, front⟩), Nat.add_right_comm, Nat.add_assoc n]
      · obtain ⟨next, onward, turned, read', goes⟩ := turn_other read front dot
        have whole : s ++ b :: rest = s ++ [b] ++ rest := List.append_cons s b rest
        rw [turned, whole]
        cases onward with
        | true =>
            exact ih later (read' rfl) (goes.mp rfl) (by omega)
        | false =>
            refine ⟨next, false, rfl, nofun, fun ⟨_, groups⟩ => ?_⟩
            have dotless : chr '.' ∉ s ++ [b] :=
              List.not_mem_append front.dotless (by simpa using Ne.symm dot)
            obtain ⟨more, parts, split⟩ := splitOn_first (t := rest) dotless
            rw [split] at groups
            have first := (groups _ List.mem_cons_self).2.of_append
            exact absurd (goes.mpr first) Bool.false_ne_true

theorem start_read : Read start 0 [] := ⟨rfl, rfl, rfl⟩

theorem continued_eq_some (stepped : continued chk b = some next)
    : turn chk b = some (next, true) := by
  obtain ⟨⟨turned, onward⟩, turnEq, goes⟩ := Option.bind_eq_some_iff.mp stepped
  cases onward with
  | false => cases goes
  | true =>
      cases goes
      exact turnEq

/-- Turns after which the loop goes on bring it to what is behind them. -/
theorem loop_of_run (visible : 0 ∉ s) (ran : run continued chk s = some next)
    : loop (s ++ rest) chk = loop rest next := by
  induction s generalizing chk with
  | nil =>
      cases ran
      rfl
  | cons b s ih =>
      obtain ⟨other, visible⟩ := not_or.mp (List.mem_cons.not.mp visible)
      obtain ⟨middle, stepped, ran⟩ := Option.bind_eq_some_iff.mp ran
      rw [List.cons_append, loop, if_neg (Ne.symm other), continued_eq_some stepped]
      exact ih visible ran

theorem continued_num (small : chk.num ≤ 255) (stepped : continued chk b = some next)
    : next.num ≤ 255 :=
  (turn_num small (continued_eq_some stepped)).2 rfl

/-- The strings accepted are the dotted addresses, and wherever the loop comes to, the accumulator
is 2559 at most after the next turn.
-/
theorem clChkIpv4_decides {ip : Buffer} (holds : Holds ip 0 s)
    : (s.length < 2 ^ 31 → ∃ valid, clChkIpv4 (some ip) = some valid ∧ (valid = true ↔ Ipv4 s))
      ∧ ∀ (front : List UInt8) (b : UInt8) (rest : List UInt8) (chk : Chk),
          s = front ++ b :: rest
          → run continued start front = some chk
          → loop ip start = loop (ip.drop front.length) chk
            ∧ ∀ (next : Chk) (onward : Bool),
                turn chk b = some (next, onward) → next.num ≤ 2559 := by
  obtain ⟨visible, back, whole⟩ := holds
  rw [List.drop_zero] at whole
  subst whole
  refine ⟨fun short => ?_, fun front b rest chk split ran => ⟨?_, fun next onward turned => ?_⟩⟩
  · obtain ⟨last, ended, looped, decides⟩ :=
      loop_decides back visible start_read Front.nil (by omega)
    rw [List.nil_append, Completes, Nat.zero_add, ← ipv4_iff_parts] at decides
    cases s with
    | nil =>
        refine ⟨false, rfl, nofun, fun address => ?_⟩
        have four := (ipv4_iff_parts.mp address).1
        exact absurd four (by decide)
    | cons b s =>
        have inked : b ≠ 0 := fun zero => visible (zero ▸ List.mem_cons_self)
        refine ⟨ended && atEnd last, ?_, decides⟩
        have first : (b :: s ++ 0 :: back)[0]? = some b := rfl
        simp only [clChkIpv4, first, looped, Option.bind_eq_bind, Option.bind_some, if_neg inked,
          Option.pure_def]
  · have absent : 0 ∉ front := fun member => visible (split ▸ List.mem_append_left _ member)
    rw [split, List.append_assoc, List.drop_left, loop_of_run absent ran]
  · have small : chk.num ≤ 255 :=
      run_invariant continued_num (by decide) ran
    exact (turn_num small turned).1

theorem clChkIpv4_decides_address
    : (∃ valid, clChkIpv4 (some [49, 46, 50, 46, 51, 46, 52, 0]) = some valid
        ∧ (valid = true ↔ Ipv4 [49, 46, 50, 46, 51, 46, 52]))
      ∧ ∀ (front : List UInt8) (b : UInt8) (rest : List UInt8) (chk : Chk),
          [49, 46, 50, 46, 51, 46, 52] = front ++ b :: rest
          → run continued start front = some chk
          → loop [49, 46, 50, 46, 51, 46, 52, 0] start
              = loop (List.drop front.length [49, 46, 50, 46, 51, 46, 52, 0]) chk
            ∧ ∀ (next : Chk) (onward : Bool),
                turn chk b = some (next, onward) → next.num ≤ 2559 := by
  have holds : Holds [49, 46, 50, 46, 51, 46, 52, 0] 0 [49, 46, 50, 46, 51, 46, 52] :=
    ⟨by decide, [], rfl⟩
  have decides := clChkIpv4_decides holds
  exact ⟨decides.1 (by decide), decides.2⟩

example : clChkIpv4 (some [49, 46, 50, 46, 51, 46, 52, 0]) = some true := by decide

end Libccll.Ip
