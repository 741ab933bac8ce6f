import Libccll.Log.Whole

/-! What `cl_set_mode` achieves while other threads log. -/

namespace Libccll.Log

open Foundation LocalTime

variable {θ : Type*} {zone : Zone} [DecidableEq θ]
variable {s s' u : State θ zone}

/-- Whatever its type, a message passes the test. -/
def State.Admits (s : State θ zone) : Prop := ∀ type : LogType, s.gAlowLogType ≤ type.code

/-- Whatever its type, a message is refused. -/
def State.Refuses (s : State θ zone) : Prop := ∀ type : LogType, type.code < s.gAlowLogType

/-- The mode is silent. -/
def State.Silent (s : State θ zone) (_ : Action θ zone) : Prop := s.gAlowLogType = 0xff

instance (s : State θ zone) (action : Action θ zone) : Decidable (s.Silent action) :=
  inferInstanceAs (Decidable (_ = _))

omit [DecidableEq θ] in
theorem refuses_of_silent (level : s.gAlowLogType = 0xff) : s.Refuses := by
  intro type
  rw [level]
  cases type <;> decide

/-- The level is that of one of the modes. -/
def State.Ruled (s : State θ zone) : Prop :=
  s.gAlowLogType = LogType.debug.code ∨ s.gAlowLogType = 0xff

theorem run_level {actions : List (Action θ zone)}
    (ran : Transition.run step State.initial actions = some s)
    : s.Ruled := by
  have preserved {s : State θ zone} {action : Action θ zone} {s' : State θ zone}
      (before : s.Ruled) (stepped : step s action = some s')
      : s'.Ruled := by
    cases step_effect stepped with
    | quiet _ _ _ level =>
        rcases level with same | set
        · rwa [State.Ruled, same]
        · exact set
    | admitted _ _ _ _ _ _ _ level | locked _ _ _ _ _ _ _ level | noted _ _ _ _ _ _ _ _ level =>
        rwa [State.Ruled, level]
  exact Transition.run_invariant preserved (Or.inl rfl) ran

/-- What may have happened since the mode became silent: the calls that had passed their test take
the lock and print.
-/
structure Hushed (s u : State θ zone) : Prop where
  calls : u.calls = s.calls
  consoled : u.consoled = s.consoled
  inherited
    : ∀ t c, (u.places t).call = some c → (s.places t).call = some c
  printed
    : ∃ new,
        u.printed = s.printed ++ new ∧ ∀ e ∈ new, ∃ t, (s.places t).call = some e.call

omit [DecidableEq θ] in
theorem Hushed.refl (s : State θ zone) : Hushed s s :=
  ⟨rfl, rfl, fun _ _ => id, [], (List.append_nil _).symm, nofun⟩

/-- A step taken in silence. -/
theorem Hushed.step (hushed : Hushed s u) (silent : u.Refuses) {u' : State θ zone}
    (effect : Effect u u')
    : Hushed s u' := by
  obtain ⟨new, printed, known⟩ := hushed.printed
  cases effect with
  | quiet calls _ printed' _ consoled places _ =>
      refine ⟨calls.trans hushed.calls, ?_, fun t c here => ?_, new, printed'.trans printed, known⟩
      · rcases consoled with same | ⟨type, passes⟩
        · exact same.trans hushed.consoled
        · exact absurd (silent type) (Nat.not_lt.mpr passes)
      · rcases places t with same | none
        · exact hushed.inherited t c (same.symm.trans here)
        · cases none.symm.trans here
  | admitted t request _ passes => exact absurd (silent request.type) (Nat.not_lt.mpr passes)
  | locked t n request here calls _ printed' _ consoled places =>
      refine ⟨calls.trans hushed.calls, consoled.trans hushed.consoled, fun v c there => ?_, new,
        printed'.trans printed, known⟩
      rcases call_of_update places there with ⟨rfl, call⟩ | ⟨-, old⟩
      · exact hushed.inherited v c (by rw [here]; exact call)
      · exact hushed.inherited v c old
  | noted t n request shown here calls _ printed' _ consoled places =>
      refine ⟨calls.trans hushed.calls, consoled.trans hushed.consoled, fun v c there => ?_,
        new ++ [⟨n, request, shown⟩], ?_, ?_⟩
      · rcases call_of_update places there with ⟨-, call⟩ | ⟨-, old⟩
        · cases call
        · exact hushed.inherited v c old
      · rw [printed', printed, List.append_assoc]
      · intro e member
        rcases List.mem_append.mp member with old | last
        · exact known e old
        · obtain rfl := List.mem_singleton.mp last
          exact ⟨t, hushed.inherited t _ here⟩

/-- In every run the mode is one in which all messages pass their test, or none does. While it is
silent none passes, `cl_console_prt` starts no print, and all that is printed still are the calls
that had passed before, each once at most.
-/
theorem mode_obeyed {before : List (Action θ zone)}
    (ran : Transition.run step State.initial before = some s)
    : (s.Admits ∨ s.gAlowLogType = 0xff ∧ s.Refuses)
      ∧ ∀ after u,
          Transition.run (Transition.restrict State.Silent step) s after = some u
            → u.calls = s.calls
              ∧ u.consoled = s.consoled
              ∧ ∃ new,
                u.printed = s.printed ++ new
                ∧ (new.map Entry.n).Nodup
                ∧ ∀ e ∈ new, ∃ t, (s.places t).call = some e.call := by
  constructor
  · rcases run_level ran with normal | silent
    · refine Or.inl fun type => ?_
      rw [normal]
      cases type <;> decide
    · exact Or.inr ⟨silent, refuses_of_silent silent⟩
  · intro after u rest
    obtain ⟨hushed, numbered⟩ : Hushed s u ∧ Numbered u := by
      have preserved {u : State θ zone} {action : Action θ zone} {u' : State θ zone}
          (holds : Hushed s u ∧ Numbered u)
          (taken : Transition.restrict State.Silent step u action = some u')
          : Hushed s u' ∧ Numbered u' := by
        obtain ⟨silent, stepped⟩ := Transition.restrict_eq_some_iff.mp taken
        have effect := step_effect stepped
        exact ⟨holds.1.step (refuses_of_silent silent) effect, holds.2.step effect⟩
      exact Transition.run_invariant preserved ⟨Hushed.refl s, run_numbered ran⟩ rest
    obtain ⟨new, printed, known⟩ := hushed.printed
    refine ⟨hushed.calls, hushed.consoled, new, printed, ?_, known⟩
    have once := numbered.printedOnce
    rw [printed, List.map_append] at once
    exact once.of_append_right

/-- One thread has passed its test when the other one turns the log silent and tries to log and to
write to the console: the first one prints, and only it.
-/
theorem mode_obeyed_silent
    : ∃ s u : State Bool Alloc.utc,
        s.gAlowLogType = 0xff
        ∧ (s.Admits ∨ s.gAlowLogType = 0xff ∧ s.Refuses)
        ∧ u.printed.length = 1
        ∧ u.calls = 1
        ∧ u.consoled = 0
        ∧ ∀ e ∈ u.printed, ∃ t, (s.places t).call = some e.call := by
  obtain ⟨s, ran, level, calls, consoled, none, u, rest, printed⟩
      : ∃ s,
          Transition.run step State.initial
              (bringUp
                ++ [.call false (.log greeting), .proceed false answer,
                  .call true (.setMode .silent), .proceed true answer])
            = some s
          ∧ s.gAlowLogType = 0xff
          ∧ s.calls = 1
          ∧ s.consoled = 0
          ∧ s.printed = []
          ∧ ∃ u,
              Transition.run (Transition.restrict State.Silent step) s
                  (.call true (.log warning) :: .proceed true answer
                    :: .call true (.console warning) :: .proceed true answer
                    :: List.replicate 10 (.proceed false answer))
                = some u
              ∧ u.printed.length = 1 := by
    refine ⟨_, rfl, rfl, rfl, rfl, rfl, ?_⟩
    refine run_allowed rfl rfl ?_
    refine run_allowed rfl rfl ?_
    refine run_allowed rfl rfl ?_
    refine run_allowed rfl rfl ?_
    refine run_allowed rfl rfl ?_
    refine run_allowed rfl (step_format rfl rfl (by decide) rfl ?_) ?_
    · exact lt_length_garbage (by decide)
    refine run_allowed rfl (step_format rfl rfl (by decide) rfl ?_) ?_
    · rw [List.length_set]
      exact lt_length_garbage (by decide)
    refine run_allowed rfl (step_terminate rfl rfl (by decide) rfl ?_) ?_
    · rw [List.length_set, List.length_set]
      exact lt_length_garbage (by decide)
    exact ⟨_, (Option.some_get (by decide +kernel)).symm, by decide +kernel⟩
  obtain ⟨modes, after⟩ := mode_obeyed ran
  obtain ⟨calls', consoled', new, printed', -, known⟩ := after _ u rest
  rw [none, List.nil_append] at printed'
  exact ⟨s, u, level, modes, printed, calls'.trans calls, consoled'.trans consoled,
    printed' ▸ known⟩

end Libccll.Log
