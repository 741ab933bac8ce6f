import Mathlib.Data.List.Basic

/-! Programs that draw elements from the front of a finite source and may fail.
A run that succeeds is decided by the elements it used: what follows them in the source is
handed on untouched and may be replaced freely.
-/

namespace Foundation

/-- A program over a source of `β`, with failures of type `ε`. -/
abbrev Draw (ε β α : Type) := StateT (List β) (Except ε) α

namespace Draw

variable {ε ε' β α γ : Type}

/-- Draw the next element; an empty source is the failure `e`. -/
def next (e : ε) : Draw ε β β
  | [] => .error e
  | b :: rest => .ok (b, rest)

/-- Draw a block of `n` elements; a shorter source is the failure `e`. -/
def block (e : ε) (n : Nat) : Draw ε β (List β) :=
  fun source =>
    if source.length < n then .error e else .ok (source.take n, source.drop n)

/-- Draw until an element is accepted. The failure `e` is an empty source, or the attempt
after more than `limit` rejections, of which `count` have happened before.
-/
def retryFrom (e : ε) (limit : Nat) (accept : β → Bool)
    : Nat → List β → Except ε (β × List β)
  | _, [] => .error e
  | count, b :: rest =>
      if count > limit then .error e
      else if accept b then .ok (b, rest)
      else retryFrom e limit accept (count + 1) rest

def retry (e : ε) (limit : Nat) (accept : β → Bool) : Draw ε β β :=
  retryFrom e limit accept 0

/-- Report every failure of a program as `e`. -/
def failAs (e : ε') (program : Draw ε β α) : Draw ε' β α :=
  fun source =>
    match program source with
    | .ok result => .ok result
    | .error _ => .error e

/-- A computation without draws, with its missing result reported as `e`. -/
def ofOption (e : ε) (result : Option α) : Draw ε β α :=
  fun source =>
    match result with
    | some a => .ok (a, source)
    | none => .error e

/-- A sequence succeeds exactly when both parts do, the second on what the first left. -/
theorem bind_ok_iff {program : Draw ε β α} {rest : α → Draw ε β γ} {source final : List β}
    {c : γ}
    : (program >>= rest) source = .ok (c, final)
      ↔ ∃ a middle, program source = .ok (a, middle) ∧ rest a middle = .ok (c, final) := by
  change StateT.bind program rest source = _ ↔ _
  simp only [StateT.bind, bind, Except.bind]
  cases program source with
  | error e => simp
  | ok result =>
      obtain ⟨a, middle⟩ := result
      simp

theorem pure_ok_iff {a c : α} {source final : List β}
    : (pure a : Draw ε β α) source = .ok (c, final) ↔ a = c ∧ source = final := by
  change Except.ok (a, source) = _ ↔ _
  simp

@[simp] theorem failAs_ok_iff {e : ε'} {program : Draw ε β α} {source final : List β} {a : α}
    : failAs e program source = .ok (a, final) ↔ program source = .ok (a, final) := by
  unfold failAs
  cases program source <;> simp

@[simp] theorem ofOption_ok_iff {e : ε} {result : Option α} {source final : List β} {a : α}
    : ofOption e result source = .ok (a, final) ↔ result = some a ∧ source = final := by
  unfold ofOption
  cases result <;> simp

/-- An accepted element at the front is drawn at once. -/
theorem retry_of_accepted {e : ε} {limit : Nat} {accept : β → Bool} {b : β} {rest : List β}
    (accepted : accept b = true)
    : retry e limit accept (b :: rest) = .ok (b, rest) := by
  simp [retry, retryFrom, accepted]

-----------------------------------------------------------------------------------------
-- What each program asks of its source
-----------------------------------------------------------------------------------------

theorem next_ok_iff {e : ε} {source rest : List β} {b : β}
    : next e source = .ok (b, rest) ↔ source = b :: rest := by
  cases source <;> simp [next]

theorem block_ok_iff {e : ε} {n : Nat} {source taken rest : List β}
    : block e n source = .ok (taken, rest) ↔ source = taken ++ rest ∧ taken.length = n := by
  unfold block
  constructor
  · intro ran
    split at ran
    · cases ran
    · rename_i enough
      cases ran
      exact ⟨(List.take_append_drop n source).symm, List.length_take_of_le (by omega)⟩
  · rintro ⟨rfl, rfl⟩
    rw [if_neg (by simp)]
    simp

theorem retryFrom_ok_iff {e : ε} {limit : Nat} {accept : β → Bool} {count : Nat}
    {source rest : List β} {b : β}
    : retryFrom e limit accept count source = .ok (b, rest)
      ↔ ∃ rejected,
          source = rejected ++ b :: rest
          ∧ count + rejected.length ≤ limit
          ∧ (∀ r ∈ rejected, accept r = false)
          ∧ accept b = true := by
  induction source generalizing count with
  | nil => simp [retryFrom]
  | cons head tail ih =>
      unfold retryFrom
      constructor
      · intro ran
        split at ran
        · cases ran
        · rename_i going
          split at ran
          · rename_i accepted
            cases ran
            exact ⟨[], rfl, Nat.le_of_not_lt going, by simp, accepted⟩
          · rename_i refused
            obtain ⟨rejected, rfl, few, refusals, accepted⟩ := ih.mp ran
            refine ⟨head :: rejected, rfl, ?_, ?_, accepted⟩
            · rw [List.length_cons]
              omega
            · intro r member
              rcases List.mem_cons.mp member with rfl | later
              · exact Bool.eq_false_iff.mpr refused
              · exact refusals r later
      · rintro ⟨rejected, split, few, refusals, accepted⟩
        rw [if_neg (by omega)]
        cases rejected with
        | nil =>
            obtain ⟨rfl, rfl⟩ := List.cons.inj split
            rw [if_pos accepted]
        | cons first rejected =>
            obtain ⟨rfl, rfl⟩ := List.cons.inj split
            have refused := refusals head List.mem_cons_self
            rw [List.length_cons] at few
            rw [if_neg (by simp [refused])]
            exact ih.mpr ⟨rejected, rfl, by omega,
              fun r member => refusals r (List.mem_cons_of_mem _ member), accepted⟩

/-- A draw with retries uses up at most `limit` rejected elements and an accepted one. -/
theorem retry_ok_iff {e : ε} {limit : Nat} {accept : β → Bool} {source rest : List β} {b : β}
    : retry e limit accept source = .ok (b, rest)
      ↔ ∃ rejected,
          source = rejected ++ b :: rest
          ∧ rejected.length ≤ limit
          ∧ (∀ r ∈ rejected, accept r = false)
          ∧ accept b = true := by
  simp only [retry, retryFrom_ok_iff, Nat.zero_add]

/-- A sequence fails in its first part, or in its second on what the first left. -/
theorem bind_error_iff {program : Draw ε β α} {rest : α → Draw ε β γ} {source : List β} {e : ε}
    : (program >>= rest) source = .error e
      ↔ program source = .error e
        ∨ ∃ a middle, program source = .ok (a, middle) ∧ rest a middle = .error e := by
  change StateT.bind program rest source = _ ↔ _
  simp only [StateT.bind, bind, Except.bind]
  cases program source with
  | error e' => simp
  | ok result =>
      obtain ⟨a, middle⟩ := result
      simp

theorem failAs_error {e e' : ε'} {program : Draw ε β α} {source : List β}
    (failed : failAs e program source = .error e')
    : e' = e := by
  unfold failAs at failed
  cases ran : program source with
  | ok result =>
      rw [ran] at failed
      cases failed
  | error e'' =>
      rw [ran] at failed
      cases failed
      rfl

theorem ofOption_error {e e' : ε} {result : Option α} {source : List β}
    (failed : ofOption e result source = .error e')
    : result = none := by
  cases result with
  | none => rfl
  | some a => cases failed

-----------------------------------------------------------------------------------------
-- Successful runs depend only on the drawn prefix
-----------------------------------------------------------------------------------------

/-- Each successful run splits its source into the used elements and the untouched rest,
and succeeds alike whatever follows the used ones.
-/
def Causal (program : Draw ε β α) : Prop :=
  ∀ source a rest,
    program source = .ok (a, rest)
    → ∃ used, source = used ++ rest ∧ ∀ other, program (used ++ other) = .ok (a, other)

theorem Causal.pure (a : α) : Causal (Pure.pure a : Draw ε β α) := by
  intro source c rest ran
  obtain ⟨rfl, rfl⟩ := pure_ok_iff.mp ran
  exact ⟨[], rfl, fun other => rfl⟩

theorem Causal.next (e : ε) : Causal (Draw.next e : Draw ε β β) := by
  intro source b rest ran
  cases source with
  | nil => cases ran
  | cons head tail =>
      cases ran
      exact ⟨[b], rfl, fun other => rfl⟩

theorem Causal.block (e : ε) (n : Nat) : Causal (Draw.block e n : Draw ε β (List β)) := by
  intro source taken rest ran
  obtain ⟨rfl, length⟩ := block_ok_iff.mp ran
  exact ⟨taken, rfl, fun other => block_ok_iff.mpr ⟨rfl, length⟩⟩

theorem Causal.retry (e : ε) (limit : Nat) (accept : β → Bool)
    : Causal (Draw.retry e limit accept : Draw ε β β) := by
  intro source b rest ran
  obtain ⟨rejected, rfl, few, refusals, accepted⟩ := retry_ok_iff.mp ran
  refine ⟨rejected ++ [b], by simp, fun other => ?_⟩
  exact retry_ok_iff.mpr ⟨rejected, by simp, few, refusals, accepted⟩

theorem Causal.ofOption (e : ε) (result : Option α)
    : Causal (Draw.ofOption e result : Draw ε β α) := by
  intro source a rest ran
  obtain ⟨rfl, rfl⟩ := ofOption_ok_iff.mp ran
  exact ⟨[], rfl, fun other => rfl⟩

theorem Causal.failAs {program : Draw ε β α} (causal : Causal program) (e : ε')
    : Causal (Draw.failAs e program) := by
  intro source a rest ran
  obtain ⟨used, split, again⟩ := causal source a rest (failAs_ok_iff.mp ran)
  exact ⟨used, split, fun other => failAs_ok_iff.mpr (again other)⟩

/-- Sequencing keeps causality: the used parts concatenate. -/
theorem Causal.bind {program : Draw ε β α} {rest : α → Draw ε β γ}
    (causal : Causal program) (later : ∀ a, Causal (rest a))
    : Causal (program >>= rest) := by
  intro source c final ran
  obtain ⟨a, middle, first, second⟩ := bind_ok_iff.mp ran
  obtain ⟨used, rfl, again⟩ := causal source a middle first
  obtain ⟨used', rfl, again'⟩ := later a middle c final second
  refine ⟨used ++ used', by simp, fun other => ?_⟩
  exact bind_ok_iff.mpr ⟨a, used' ++ other, by simpa using again (used' ++ other), again' other⟩

end Draw

end Foundation
