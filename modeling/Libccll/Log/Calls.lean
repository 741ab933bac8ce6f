import Libccll.Foundation.Transition
import Libccll.Log.Threads

/-! What a step does to the calls of `cl_log`, and that no two of them have the same number. -/

namespace Libccll.Log

open Foundation CString LocalTime

variable {θ : Type*} {zone : Zone}

/-- The call of `cl_log` that a thread is in, past its test and up to its line. -/
def Place.call : Place zone → Option (Nat × Request)
  | .locking n request | .formatting n request _ | .calling n request | .printing n request _ =>
      some (n, request)
  | _ => none

def Entry.call (e : Entry) : Nat × Request := (e.n, e.request)

variable [DecidableEq θ]

/-- What a step does: nothing to the calls, or it lets one pass its test, take the lock or print.
-/
inductive Effect (s s' : State θ zone) : Prop where
  | quiet
    (calls : s'.calls = s.calls)
    (taken : s'.taken = s.taken)
    (printed : s'.printed = s.printed)
    (level
      : s'.gAlowLogType = s.gAlowLogType
        ∨ s'.gAlowLogType = LogType.debug.code
        ∨ s'.gAlowLogType = 0xff)
    (consoled
      : s'.consoled = s.consoled ∨ ∃ type : LogType, s.gAlowLogType ≤ type.code)
    (places : ∀ u, (s'.places u).call = (s.places u).call ∨ (s'.places u).call = none)
    (waits : ∀ u n request, s'.places u = .locking n request → s.places u = .locking n request)
  | admitted (t : θ) (request : Request)
    (here : s.places t = .testing request)
    (passes : s.gAlowLogType ≤ request.type.code)
    (calls : s'.calls = s.calls + 1)
    (taken : s'.taken = s.taken)
    (printed : s'.printed = s.printed)
    (level : s'.gAlowLogType = s.gAlowLogType)
    (consoled : s'.consoled = s.consoled)
    (places : s'.places = Function.update s.places t (.locking s.calls request))
  | locked (t : θ) (n : Nat) (request : Request)
    (here : s.places t = .locking n request)
    (calls : s'.calls = s.calls)
    (taken : s'.taken = s.taken ++ [(n, request)])
    (printed : s'.printed = s.printed)
    (level : s'.gAlowLogType = s.gAlowLogType)
    (consoled : s'.consoled = s.consoled)
    (places : s'.places = Function.update s.places t (.formatting n request 0))
  | noted (t : θ) (n : Nat) (request : Request) (shown : Option Line)
    (here : (s.places t).call = some (n, request))
    (calls : s'.calls = s.calls)
    (taken : s'.taken = s.taken)
    (printed : s'.printed = s.printed ++ [⟨n, request, shown⟩])
    (level : s'.gAlowLogType = s.gAlowLogType)
    (consoled : s'.consoled = s.consoled)
    (places : s'.places = Function.update s.places t .unlocking)

variable {s s' : State θ zone} {t : θ} {place : Place zone} {chance : Chance zone}

theorem Effect.stop : Effect s s.stop :=
  .quiet rfl rfl rfl (Or.inl rfl) (Or.inl rfl) (fun _ => Or.inl rfl) fun _ _ _ same => same

/-- A thread moves to a place that is not the start of a wait for the lock. -/
theorem Effect.moved (places : s'.places = Function.update s.places t place)
    (call : place.call = (s.places t).call ∨ place.call = none)
    (waits : ∀ n request, place ≠ .locking n request)
    (calls : s'.calls = s.calls) (taken : s'.taken = s.taken) (printed : s'.printed = s.printed)
    (level
      : s'.gAlowLogType = s.gAlowLogType
        ∨ s'.gAlowLogType = LogType.debug.code
        ∨ s'.gAlowLogType = 0xff)
    (consoled : s'.consoled = s.consoled ∨ ∃ type : LogType, s.gAlowLogType ≤ type.code)
    : Effect s s' := by
  refine .quiet calls taken printed level consoled (fun u => ?_) fun u n request => ?_
  · rw [places]
    rcases eq_or_ne u t with rfl | other
    · rwa [Function.update_self]
    · rw [Function.update_of_ne other]
      exact Or.inl rfl
  · rw [places]
    rcases eq_or_ne u t with rfl | other
    · rw [Function.update_self]
      exact fun same => absurd same (waits n request)
    · rw [Function.update_of_ne other]
      exact id

theorem Effect.goto (call : place.call = (s.places t).call ∨ place.call = none)
    (waits : ∀ n request, place ≠ .locking n request)
    : Effect s (s.moveTo t place) :=
  Effect.moved rfl call waits rfl rfl rfl (Or.inl rfl) (Or.inl rfl)

theorem Effect.write {hdr : Option Buffer}
    (call : place.call = (s.places t).call ∨ place.call = none)
    (waits : ∀ n request, place ≠ .locking n request)
    : Effect s (s.write t place hdr) := by
  cases hdr with
  | none => exact Effect.stop
  | some hdr => exact Effect.moved rfl call waits rfl rfl rfl (Or.inl rfl) (Or.inl rfl)

theorem Effect.store {i : Nat} {b : UInt8}
    (call : place.call = (s.places t).call ∨ place.call = none)
    (waits : ∀ n request, place ≠ .locking n request)
    : Effect s (s.store t place i b) := by
  rw [State.store]
  split
  · split
    · exact Effect.stop
    · exact Effect.moved rfl call waits rfl rfl rfl (Or.inl rfl) (Or.inl rfl)
  · exact Effect.stop

/-- `def_print_fun`, from a place of the caller to the next, or to its end. -/
theorem Effect.print {type : LogType} {tag : List UInt8} {txt : Option (List UInt8)}
    {goto : Printing zone → Place zone} {finish : Option (List UInt8) → State θ zone}
    {place : Printing zone} (call : ∀ place, (goto place).call = (s.places t).call)
    (waits : ∀ place n request, goto place ≠ .locking n request)
    (finished : ∀ shown, Effect s (finish shown))
    : Effect s (defPrintFun s t type tag txt chance goto finish place) := by
  cases place with
  | checking =>
      rw [defPrintFun]
      split
      · exact finished none
      · exact Effect.goto (Or.inl (call _)) (waits _)
  | stamping | dividing | labeling => exact Effect.write (Or.inl (call _)) (waits _)
  | showing =>
      simp only [defPrintFun]
      split
      · exact finished _
      · exact Effect.stop

theorem Effect.log (stepped : clLog s t chance (s.places t) = some s') : Effect s s' := by
  rcases here : s.places t with
    _ | request | ⟨n, request⟩ | ⟨n, request, i⟩ | ⟨n, request⟩ | ⟨n, request, place⟩ | _ | _ | _
    | _ | _ | _
  all_goals rw [here] at stepped
  case testing =>
    rw [clLog] at stepped
    split at stepped
    · obtain rfl := Option.some.inj stepped
      exact Effect.goto (Or.inr rfl) nofun
    · rename_i passes
      obtain rfl := Option.some.inj stepped
      exact .admitted t request here (Nat.not_lt.mp passes) rfl rfl rfl rfl rfl rfl
  case locking =>
    rw [clLog] at stepped
    split at stepped
    · obtain rfl := Option.some.inj stepped
      exact Effect.stop
    · split at stepped
      · obtain rfl := Option.some.inj stepped
        exact .locked t n request here rfl rfl rfl rfl rfl rfl
      · cases stepped
  case formatting =>
    rw [clLog] at stepped
    split at stepped <;>
    · obtain rfl := Option.some.inj stepped
      exact Effect.store (Or.inl (by rw [here]; rfl)) nofun
  case calling =>
    rw [clLog] at stepped
    split at stepped
    · split at stepped
      · obtain rfl := Option.some.inj stepped
        exact .noted t n request _ (by rw [here]; rfl) rfl rfl rfl rfl rfl rfl
      · obtain rfl := Option.some.inj stepped
        exact Effect.stop
    · obtain rfl := Option.some.inj stepped
      exact Effect.goto (Or.inl (by rw [here]; rfl)) nofun
  case printing =>
    obtain rfl := Option.some.inj stepped
    have call : (s.places t).call = some (n, request) := by
      rw [here]
      rfl
    exact Effect.print (fun _ => call.symm) (fun _ _ _ same => by cases same) fun shown =>
      .noted t n request (shown.map .shown) call rfl rfl rfl rfl rfl rfl
  case unlocking =>
    obtain rfl := Option.some.inj stepped
    exact Effect.moved rfl (Or.inr rfl) nofun rfl rfl rfl (Or.inl rfl) (Or.inl rfl)
  all_goals cases stepped

theorem Effect.init {place : Init} : Effect s (clLogInit s t chance place) := by
  cases place with
  | testing =>
      rw [clLogInit]
      split <;> exact Effect.moved rfl (Or.inr rfl) nofun rfl rfl rfl (Or.inl rfl) (Or.inl rfl)
  | mutex | malloc =>
      rw [clLogInit]
      split <;> exact Effect.moved rfl (Or.inr rfl) nofun rfl rfl rfl (Or.inl rfl) (Or.inl rfl)
  | flag => exact Effect.moved rfl (Or.inr rfl) nofun rfl rfl rfl (Or.inl rfl) (Or.inl rfl)

theorem Effect.deinit {place : Deinit} : Effect s (clLogDeinit s t place) := by
  cases place with
  | free =>
      rw [clLogDeinit]
      split
      · exact Effect.moved rfl (Or.inr rfl) nofun rfl rfl rfl (Or.inl rfl) (Or.inl rfl)
      · exact Effect.stop
      · exact Effect.moved rfl (Or.inr rfl) nofun rfl rfl rfl (Or.inl rfl) (Or.inl rfl)
  | flag | null | mutex =>
      exact Effect.moved rfl (Or.inr rfl) nofun rfl rfl rfl (Or.inl rfl) (Or.inl rfl)

/-- Every step has one of these effects. -/
theorem step_effect {action : Action θ zone} (stepped : step s action = some s')
    : Effect s s' := by
  simp only [step, Option.ite_none_left_eq_some] at stepped
  obtain ⟨-, stepped⟩ := stepped
  cases action with
  | call t call =>
      rcases here : s.places t <;> simp only [here] at stepped
      case outside =>
        obtain rfl := Option.some.inj stepped
        cases call <;> exact Effect.goto (Or.inr rfl) nofun
      all_goals cases stepped
  | proceed t chance =>
      have log : clLog s t chance (s.places t) = some s' → Effect s s' := Effect.log
      simp only [State.proceed] at stepped
      rcases here : s.places t <;> simp only [here] at stepped log
      case outside => cases stepped
      case consoleTesting =>
        rw [clConsolePrt] at stepped
        split at stepped
        · obtain rfl := Option.some.inj stepped
          exact Effect.goto (Or.inr rfl) nofun
        · rename_i request passes
          obtain rfl := Option.some.inj stepped
          exact Effect.moved rfl (Or.inr rfl) nofun rfl rfl rfl (Or.inl rfl)
            (Or.inr ⟨request.type, Nat.not_lt.mp passes⟩)
      case console =>
        obtain rfl := Option.some.inj stepped
        exact Effect.print (fun _ => by rw [here]; rfl) (fun _ _ _ same => by cases same) fun _ =>
          Effect.goto (Or.inr rfl) nofun
      case setting mode =>
        obtain rfl := Option.some.inj stepped
        cases mode with
        | normal =>
            exact Effect.moved rfl (Or.inr rfl) nofun rfl rfl rfl (Or.inr (Or.inl rfl)) (Or.inl rfl)
        | silent =>
            exact Effect.moved rfl (Or.inr rfl) nofun rfl rfl rfl (Or.inr (Or.inr rfl)) (Or.inl rfl)
      case init =>
        obtain rfl := Option.some.inj stepped
        exact Effect.init
      case deinit =>
        obtain rfl := Option.some.inj stepped
        exact Effect.deinit
      all_goals exact log stepped
  | setPrtfun =>
      obtain rfl := Option.some.inj stepped
      exact .quiet rfl rfl rfl (Or.inl rfl) (Or.inl rfl) (fun _ => Or.inl rfl) fun _ _ _ => id

-----------------------------------------------------------------------------------------
-- The numbers of the calls
-----------------------------------------------------------------------------------------

/-- A number is given to one call only, which takes the lock once and prints once. -/
structure Numbered (s : State θ zone) : Prop where
  below : ∀ {t n request}, (s.places t).call = some (n, request) → n < s.calls
  apart
    : ∀ {t u n request request'},
        (s.places t).call = some (n, request)
          → (s.places u).call = some (n, request')
          → t = u
  untaken
    : ∀ {t n request}, s.places t = .locking n request → n ∉ s.taken.map Prod.fst
  unprinted
    : ∀ {t n request}, (s.places t).call = some (n, request) → n ∉ s.printed.map Entry.n
  takenBelow : ∀ n ∈ s.taken.map Prod.fst, n < s.calls
  printedBelow : ∀ n ∈ s.printed.map Entry.n, n < s.calls
  takenOnce : (s.taken.map Prod.fst).Nodup
  printedOnce : (s.printed.map Entry.n).Nodup

omit [DecidableEq θ] in
theorem Numbered.initial : Numbered (State.initial : State θ zone) where
  below := nofun
  apart := nofun
  untaken := nofun
  unprinted := nofun
  takenBelow := nofun
  printedBelow := nofun
  takenOnce := List.nodup_nil
  printedOnce := List.nodup_nil

/-- A call that some thread is in after a step, if it was in one before. -/
theorem call_of_update {u : θ} {c : Nat × Request}
    (places : s'.places = Function.update s.places t place) (here : (s'.places u).call = some c)
    : u = t ∧ place.call = some c ∨ u ≠ t ∧ (s.places u).call = some c := by
  rw [places] at here
  rcases eq_or_ne u t with rfl | other
  · rw [Function.update_self] at here
    exact Or.inl ⟨rfl, here⟩
  · rw [Function.update_of_ne other] at here
    exact Or.inr ⟨other, here⟩

theorem locking_of_update {u : θ} {n : Nat} {request : Request}
    (places : s'.places = Function.update s.places t place)
    (here : s'.places u = .locking n request)
    : u = t ∧ place = .locking n request ∨ u ≠ t ∧ s.places u = .locking n request := by
  rw [places] at here
  rcases eq_or_ne u t with rfl | other
  · rw [Function.update_self] at here
    exact Or.inl ⟨rfl, here⟩
  · rw [Function.update_of_ne other] at here
    exact Or.inr ⟨other, here⟩

theorem Numbered.admitted (numbered : Numbered s) {request : Request}
    (calls : s'.calls = s.calls + 1) (taken : s'.taken = s.taken) (printed : s'.printed = s.printed)
    (places : s'.places = Function.update s.places t (.locking s.calls request))
    : Numbered s' := by
  refine
    { below := ?_, apart := ?_, untaken := ?_, unprinted := ?_, takenBelow := ?_,
      printedBelow := ?_, takenOnce := by rw [taken]; exact numbered.takenOnce,
      printedOnce := by rw [printed]; exact numbered.printedOnce }
  · intro u n r here
    rw [calls]
    rcases call_of_update places here with ⟨-, new⟩ | ⟨-, old⟩
    · cases new
      exact Nat.lt_succ_self _
    · exact Nat.lt_succ_of_lt (numbered.below old)
  · intro u v n r r' here there
    rcases call_of_update places here with ⟨rfl, new⟩ | ⟨-, old⟩
    · rcases call_of_update places there with ⟨rfl, -⟩ | ⟨-, old⟩
      · rfl
      · cases new
        exact absurd (numbered.below old) (Nat.lt_irrefl _)
    · rcases call_of_update places there with ⟨rfl, new⟩ | ⟨-, old'⟩
      · cases new
        exact absurd (numbered.below old) (Nat.lt_irrefl _)
      · exact numbered.apart old old'
  · intro u n r here
    rw [taken]
    rcases locking_of_update places here with ⟨-, new⟩ | ⟨-, old⟩
    · cases new
      exact fun member => absurd (numbered.takenBelow _ member) (Nat.lt_irrefl _)
    · exact numbered.untaken old
  · intro u n r here
    rw [printed]
    rcases call_of_update places here with ⟨-, new⟩ | ⟨-, old⟩
    · cases new
      exact fun member => absurd (numbered.printedBelow _ member) (Nat.lt_irrefl _)
    · exact numbered.unprinted old
  · rw [taken, calls]
    exact fun n member => Nat.lt_succ_of_lt (numbered.takenBelow n member)
  · rw [printed, calls]
    exact fun n member => Nat.lt_succ_of_lt (numbered.printedBelow n member)

theorem Numbered.locked (numbered : Numbered s) {n : Nat} {request : Request}
    (here : s.places t = .locking n request) (calls : s'.calls = s.calls)
    (taken : s'.taken = s.taken ++ [(n, request)]) (printed : s'.printed = s.printed)
    (places : s'.places = Function.update s.places t (.formatting n request 0))
    : Numbered s' := by
  have call : (s.places t).call = some (n, request) := by
    rw [here]
    rfl
  have kept {u : θ} {c : Nat × Request} (there : (s'.places u).call = some c)
      : (s.places u).call = some c := by
    rcases call_of_update places there with ⟨rfl, new⟩ | ⟨-, old⟩
    · exact call.trans new
    · exact old
  have grown : s'.taken.map Prod.fst = s.taken.map Prod.fst ++ [n] := by
    rw [taken, List.map_append]
    rfl
  refine
    { below := fun there => by rw [calls]; exact numbered.below (kept there)
      apart := fun there there' => numbered.apart (kept there) (kept there')
      untaken := ?_
      unprinted := fun there => by rw [printed]; exact numbered.unprinted (kept there)
      takenBelow := ?_
      printedBelow := by rw [printed, calls]; exact numbered.printedBelow
      takenOnce := ?_
      printedOnce := by rw [printed]; exact numbered.printedOnce }
  · intro u m r there
    rcases locking_of_update places there with ⟨-, new⟩ | ⟨other, old⟩
    · cases new
    · rw [grown, List.mem_append, List.mem_singleton, not_or]
      refine ⟨numbered.untaken old, ?_⟩
      rintro rfl
      exact other (numbered.apart (by rw [old]; rfl) call)
  · intro m member
    rw [grown, List.mem_append, List.mem_singleton] at member
    rw [calls]
    rcases member with old | rfl
    · exact numbered.takenBelow m old
    · exact numbered.below call
  · rw [grown]
    exact List.nodup_append.mpr
      ⟨numbered.takenOnce, List.nodup_singleton n, fun a old b new same =>
        numbered.untaken here (List.mem_singleton.mp new ▸ same ▸ old)⟩

theorem Numbered.noted (numbered : Numbered s) {n : Nat} {request : Request} {shown : Option Line}
    (here : (s.places t).call = some (n, request)) (calls : s'.calls = s.calls)
    (taken : s'.taken = s.taken) (printed : s'.printed = s.printed ++ [⟨n, request, shown⟩])
    (places : s'.places = Function.update s.places t .unlocking)
    : Numbered s' := by
  have kept {u : θ} {c : Nat × Request} (there : (s'.places u).call = some c)
      : u ≠ t ∧ (s.places u).call = some c := by
    rcases call_of_update places there with ⟨-, new⟩ | old
    · cases new
    · exact old
  have grown : s'.printed.map Entry.n = s.printed.map Entry.n ++ [n] := by
    rw [printed, List.map_append]
    rfl
  refine
    { below := fun there => by rw [calls]; exact numbered.below (kept there).2
      apart := fun there there' => numbered.apart (kept there).2 (kept there').2
      untaken := ?_
      unprinted := ?_
      takenBelow := by rw [taken, calls]; exact numbered.takenBelow
      printedBelow := ?_
      takenOnce := by rw [taken]; exact numbered.takenOnce
      printedOnce := ?_ }
  · intro u m r there
    rw [taken]
    rcases locking_of_update places there with ⟨-, new⟩ | ⟨-, old⟩
    · cases new
    · exact numbered.untaken old
  · intro u m r there
    obtain ⟨other, old⟩ := kept there
    rw [grown, List.mem_append, List.mem_singleton, not_or]
    refine ⟨numbered.unprinted old, ?_⟩
    rintro rfl
    exact other (numbered.apart old here)
  · intro m member
    rw [grown, List.mem_append, List.mem_singleton] at member
    rw [calls]
    rcases member with old | rfl
    · exact numbered.printedBelow m old
    · exact numbered.below here
  · rw [grown]
    exact List.nodup_append.mpr
      ⟨numbered.printedOnce, List.nodup_singleton n, fun a old b new same =>
        numbered.unprinted here (List.mem_singleton.mp new ▸ same ▸ old)⟩

/-- One step. -/
theorem Numbered.step (numbered : Numbered s) (effect : Effect s s') : Numbered s' := by
  cases effect with
  | quiet calls taken printed _ _ places waits =>
      have kept {u : θ} {c : Nat × Request} (there : (s'.places u).call = some c)
          : (s.places u).call = some c := by
        rcases places u with same | none
        · exact same.symm.trans there
        · cases none.symm.trans there
      exact
        { below := fun there => by rw [calls]; exact numbered.below (kept there)
          apart := fun there there' => numbered.apart (kept there) (kept there')
          untaken := fun there => by rw [taken]; exact numbered.untaken (waits _ _ _ there)
          unprinted := fun there => by rw [printed]; exact numbered.unprinted (kept there)
          takenBelow := by rw [taken, calls]; exact numbered.takenBelow
          printedBelow := by rw [printed, calls]; exact numbered.printedBelow
          takenOnce := by rw [taken]; exact numbered.takenOnce
          printedOnce := by rw [printed]; exact numbered.printedOnce }
  | admitted t request _ _ calls taken printed _ _ places =>
      exact numbered.admitted calls taken printed places
  | locked t n request here calls taken printed _ _ places =>
      exact numbered.locked here calls taken printed places
  | noted t n request shown here calls taken printed _ _ places =>
      exact numbered.noted here calls taken printed places

theorem run_numbered {actions : List (Action θ zone)}
    (ran : Transition.run step State.initial actions = some s)
    : Numbered s :=
  Transition.run_invariant (fun numbered stepped => numbered.step (step_effect stepped))
    Numbered.initial ran

end Libccll.Log
