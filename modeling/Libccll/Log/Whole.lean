import Libccll.Log.Lines

/-! The print function, and what follows for every run. -/

namespace Libccll.Log

open Foundation CString LocalTime Printing

variable {θ : Type*} {zone : Zone} [DecidableEq θ]
variable {s s' : State θ zone} {t : θ} {n : Nat} {request : Request} {chance : Chance zone}

theorem str_of_mem {hdr : Buffer} (string : 0 ∈ hdr) : str hdr 0 = some (before 0 hdr) :=
  if_pos string

/-- `def_print_fun` under the lock. -/
theorem Sound.print (sound : Sound s) {place : Printing zone}
    (here : s.places t = .printing n request place)
    : Sound
        (defPrintFun s t request.type request.tag s.message chance (.printing n request)
          (fun shown => s.note t n request (shown.map .shown)) place) := by
  have inside : (s.places t).inside = true := by
    rw [here]
    rfl
  have pending : (s.places t).pending = [(n, request)] := by
    rw [here]
    rfl
  have tag := (sound.threads t).tag
  have fine := (sound.threads t).fine
  rw [here] at tag fine
  obtain ⟨message, headed⟩ := fine
  obtain ⟨-, -, -, -, kept⟩ := sound.holder inside
  have size := sound.shared.size
  cases place with
  | checking =>
      rw [defPrintFun]
      split
      · rename_i down
        refine sound.note pending trivial (fun _ => ?_) fun _ _ same => by cases same
        by_contra up
        rw [kept (Bool.eq_false_iff.mpr up)] at down
        cases down
      · exact sound.goOn inside rfl (by rw [here]; rfl) (by rw [here]; exact id) rfl rfl
          sound.shared.moveTo rfl rfl rfl rfl rfl ⟨message, fun _ => trivial⟩
  | stamping =>
      obtain ⟨hdr, (written : writeDate s.gLogHdr chance.clock = some hdr), size', holds⟩ :=
        writeDate_eq size
      have string : 0 ∈ hdr := by
        obtain ⟨-, rest, shown⟩ := holds
        rw [List.drop_zero] at shown
        simp [shown]
      rw [defPrintFun, written]
      exact sound.head here size' string fun _ => holds
  | dividing clock =>
      obtain ⟨hdr, (written : writeFraction s.gLogHdr clock = some hdr), size', string, holds⟩ :=
        writeFraction_eq size
      rw [defPrintFun, written]
      exact sound.head here size' string fun none => ⟨clock, holds (headed none)⟩
  | labeling =>
      obtain ⟨clock⟩ : Nonempty (Clock zone) := ⟨chance.clock⟩
      obtain ⟨hdr, written, size', string, -⟩ :=
        writeLabel_eq clock request.type size tag request.tag_nonzero
      rw [defPrintFun, written]
      refine sound.head here size' string fun none => ?_
      obtain ⟨clock, holds⟩ := headed none
      obtain ⟨hdr', written', -, -, holds'⟩ :=
        writeLabel_eq clock request.type size tag request.tag_nonzero
      obtain rfl := Option.some.inj (written.symm.trans written')
      exact ⟨clock, holds' holds⟩
  | showing =>
      simp only [defPrintFun, str_of_mem sound.shared.string, message]
      refine sound.note pending ⟨_, rfl⟩ (fun same => by cases same) fun none bytes shown => ?_
      obtain ⟨clock, holds⟩ := headed none
      obtain rfl := Line.shown.inj (Option.some.inj shown)
      refine ⟨clock, ?_⟩
      rw [← Option.some.inj ((str_of_mem sound.shared.string).symm.trans holds.str)]

/-- `def_print_fun` without the lock. -/
theorem Sound.printConsole (sound : Sound s) {place : Printing zone}
    (here : s.places t = .console request place)
    : Sound
        (defPrintFun s t request.type request.tag (some request.text) chance (.console request)
          (fun _ => s.moveTo t .outside) place) := by
  have idle : (s.places t).busy = false := by
    rw [here]
    rfl
  have tag := (sound.threads t).tag
  have consoled := (sound.threads t).consoled
  rw [here] at tag consoled
  have size := sound.shared.size
  cases place with
  | checking =>
      rw [defPrintFun]
      split
      · exact sound.moveTo idle rfl trivial (unconsoled rfl)
      · exact sound.moveTo idle rfl tag consoled
  | stamping =>
      obtain ⟨hdr, written⟩ : ∃ hdr, writeDate s.gLogHdr chance.clock = some hdr :=
        (writeDate_eq size).imp fun _ found => found.1
      rw [defPrintFun, written]
      rw [writeDate, Option.ite_none_right_eq_some] at written
      obtain ⟨size', string⟩ := string_of_sprintfAt written.2
      exact sound.console here (size'.trans size) string
  | dividing clock =>
      obtain ⟨hdr, (written : writeFraction s.gLogHdr clock = some hdr), size', string, -⟩ :=
        writeFraction_eq size
      rw [defPrintFun, written]
      exact sound.console here size' string
  | labeling =>
      obtain ⟨hdr, written, size', string, -⟩ :=
        writeLabel_eq chance.clock request.type size tag request.tag_nonzero
      rw [defPrintFun, written]
      exact sound.console here size' string
  | showing =>
      simp only [defPrintFun, str_of_mem sound.shared.string]
      exact sound.moveTo idle rfl trivial (unconsoled rfl)

/-- `cl_log` goes on. -/
theorem Sound.log (sound : Sound s) (orderly : s.Orderly (.proceed t chance))
    (stepped : clLog s t chance (s.places t) = some s')
    : Sound s' := by
  rw [State.Orderly] at orderly
  have tag := (sound.threads t).tag
  have fine := (sound.threads t).fine
  have member (busy : (s.places t).busy = true) : t ∈ s.busy := (sound.threads t).busy.mpr busy
  rcases here : s.places t with
    _ | request | ⟨n, request⟩ | ⟨n, request, i⟩ | ⟨n, request⟩ | ⟨n, request, place⟩ | _ | _ | _
    | _ | _ | _
  all_goals rw [here] at stepped tag fine member orderly
  case testing =>
    rw [clLog] at stepped
    split at stepped
    · obtain rfl := Option.some.inj stepped
      exact sound.moveTo (by rw [here]; rfl) rfl trivial (unconsoled rfl)
    · rename_i passes
      obtain rfl := Option.some.inj stepped
      exact sound.admit here (orderly (Nat.not_lt.mp passes))
  case locking =>
    have ready := (sound.shared.up (List.ne_nil_of_mem (member rfl))).1
    rw [clLog, if_neg (Bool.ne_false_iff.mpr ready)] at stepped
    split at stepped
    · rename_i free
      obtain rfl := Option.some.inj stepped
      exact sound.lock here free
    · cases stepped
  case formatting =>
    obtain ⟨s'', stepped', sound'⟩ := sound.format chance here
    obtain rfl := Option.some.inj (stepped.symm.trans stepped')
    exact sound'
  case calling =>
    have message : s.message = some request.cut := fine
    rw [clLog, message] at stepped
    split at stepped
    · obtain rfl := Option.some.inj stepped
      exact sound.note (by rw [here]; rfl) rfl (fun same => by cases same) fun _ _ same => by
        cases same
    · obtain rfl := Option.some.inj stepped
      exact sound.goOn (by rw [here]; rfl) rfl (by rw [here]; rfl) (by rw [here]; exact id) rfl
        rfl sound.shared.moveTo rfl rfl rfl rfl rfl ⟨message, fun _ => trivial⟩
  case printing =>
    obtain rfl := Option.some.inj stepped
    exact sound.print here
  case unlocking =>
    obtain rfl := Option.some.inj stepped
    exact sound.unlock here
  all_goals cases stepped

/-- What is orderly keeps everything sound. -/
theorem Sound.step (sound : Sound s) {action : Action θ zone} (orderly : s.Orderly action)
    (stepped : step s action = some s')
    : Sound s' := by
  have alive : ¬s.ended = true := Bool.eq_false_iff.mp sound.shared.alive
  cases action with
  | call t call =>
      rw [Log.step, if_neg alive] at stepped
      rcases here : s.places t <;> simp only [here] at stepped
      case outside =>
        obtain rfl := Option.some.inj stepped
        refine sound.call here ?_
        cases call <;> exact orderly
      all_goals cases stepped
  | proceed t chance =>
      rw [Log.step, if_neg alive] at stepped
      have log : clLog s t chance (s.places t) = some s' → Sound s' := sound.log orderly
      simp only [State.proceed] at stepped
      rcases here : s.places t <;> simp only [here] at stepped log
      case outside => cases stepped
      case consoleTesting request =>
        have tag := (sound.threads t).tag
        rw [here] at tag
        have idle : (s.places t).busy = false := by
          rw [here]
          rfl
        rw [clConsolePrt] at stepped
        split at stepped
        · obtain rfl := Option.some.inj stepped
          exact sound.moveTo idle rfl trivial (unconsoled rfl)
        · obtain rfl := Option.some.inj stepped
          have shared := sound.shared
          exact sound.aside idle rfl rfl tag (fun _ => Nat.succ_pos _)
            ⟨shared.alive, shared.size, shared.string, shared.nodup, shared.up, shared.kept,
              shared.accounts, shared.whole, fun none => absurd none (Nat.succ_ne_zero _)⟩
            fun _ => Frame.of_aside rfl rfl rfl rfl rfl (Nat.le_succ _) fun none =>
              absurd none (Nat.succ_ne_zero _)
      case console =>
        obtain rfl := Option.some.inj stepped
        exact sound.printConsole here
      case setting =>
        obtain rfl := Option.some.inj stepped
        exact sound.setMode here
      case init =>
        obtain rfl := Option.some.inj stepped
        exact sound.init here orderly
      case deinit =>
        obtain rfl := Option.some.inj stepped
        exact sound.deinit here orderly
      all_goals exact log stepped
  | setPrtfun fun_ =>
      rw [Log.step, if_neg alive] at stepped
      obtain rfl := Option.some.inj stepped
      have shared := sound.shared
      refine ⟨⟨shared.alive, shared.size, shared.string, shared.nodup, shared.up, shared.kept,
        shared.accounts, shared.whole, shared.headed⟩, fun t => (sound.threads t).frame ?_⟩
      exact Frame.of_aside rfl rfl rfl rfl rfl le_rfl fun _ => rfl

-----------------------------------------------------------------------------------------
-- Runs
-----------------------------------------------------------------------------------------

omit [DecidableEq θ] in
theorem Sound.initial : Sound (State.initial : State θ zone) where
  shared :=
    { alive := rfl
      size := List.length_replicate
      string := List.mem_replicate.mpr ⟨by decide, rfl⟩
      nodup := List.nodup_nil
      up := fun some => absurd rfl some
      kept := fun _ some => absurd rfl some
      accounts := fun _ => rfl
      whole := nofun
      headed := fun _ => nofun }
  threads _ := Local.idle List.not_mem_nil nofun rfl trivial nofun

/-- The call that has the lock and is still to be printed. -/
def State.underway (s : State θ zone) : List (Nat × Request) :=
  match s.gLock with
  | none => []
  | some t => (s.places t).pending

omit [DecidableEq θ] in
theorem Sound.accounts (sound : Sound s)
    : s.taken = s.printed.map Entry.call ++ s.underway := by
  rw [State.underway]
  rcases lock : s.gLock with _ | t
  · rw [sound.shared.accounts lock, List.append_nil]
  · exact (sound.threads t).accounts ((sound.threads t).owner.mpr lock)

/-- Nothing but the lock keeps a call from going on. -/
theorem Sound.proceeds (sound : Sound s) (chance : Chance zone) (called : s.places t ≠ .outside)
    : (Log.step s (.proceed t chance)).isSome = true
      ∨ (s.places t).inside = false ∧ ∃ u, s.gLock = some u := by
  rw [Log.step, if_neg (Bool.eq_false_iff.mp sound.shared.alive)]
  simp only [State.proceed]
  rcases here : s.places t <;> simp only
  case outside => exact absurd here called
  case testing => exact Or.inl (by rw [clLog]; split <;> rfl)
  case locking =>
    rcases lock : s.gLock with _ | u
    · exact Or.inl (by rw [clLog, lock]; split <;> rfl)
    · exact Or.inr ⟨rfl, u, rfl⟩
  case formatting => exact Or.inl (by rw [clLog]; split <;> rfl)
  case calling =>
    refine Or.inl ?_
    rw [clLog]
    split
    · split <;> rfl
    · rfl
  case consoleTesting => exact Or.inl (by rw [clConsolePrt]; split <;> rfl)
  all_goals exact Or.inl rfl

/-- A run goes on with one more step that is allowed. -/
theorem run_allowed {allowed : State θ zone → Action θ zone → Prop}
    [∀ s action, Decidable (allowed s action)] {action : Action θ zone}
    {rest : List (Action θ zone)} {holds : State θ zone → Prop} (admitted : allowed s action)
    (stepped : step s action = some s')
    (later : ∃ u, Transition.run (Transition.restrict allowed step) s' rest = some u ∧ holds u)
    : ∃ u,
        Transition.run (Transition.restrict allowed step) s (action :: rest) = some u
        ∧ holds u := by
  rw [Transition.run_cons, Transition.restrict_eq_some_iff.mpr ⟨admitted, stepped⟩,
    Option.bind_some]
  exact later

theorem step_terminate {bytes : Buffer} {i : Nat} (alive : s.ended = false)
    (here : s.places t = .formatting n request i) (last : ¬i < request.cut.length)
    (buf : s.gLogBuf = .block bytes) (room : i < bytes.length)
    : step s (.proceed t chance)
      = some { s.moveTo t (.calling n request) with gLogBuf := .block (bytes.set i 0) } := by
  rw [step, if_neg (Bool.eq_false_iff.mp alive)]
  simp only [State.proceed, here]
  rw [clLog, if_neg last, State.store_eq buf room]

theorem step_format {bytes : Buffer} {i : Nat} (alive : s.ended = false)
    (here : s.places t = .formatting n request i) (more : i < request.cut.length)
    (buf : s.gLogBuf = .block bytes) (room : i < bytes.length)
    : step s (.proceed t chance)
      = some
          {
            s.moveTo t (.formatting n request (i + 1)) with
            gLogBuf := .block (bytes.set i (request.cut.getD i 0))
          } := by
  rw [step, if_neg (Bool.eq_false_iff.mp alive)]
  simp only [State.proceed, here]
  rw [clLog, if_pos more, State.store_eq buf room]

def answer : Chance Alloc.utc :=
  ⟨true, ⟨0, 0, Alloc.timely_zero, by decide⟩, Vector.replicate logBufSz 0⟩

/-- The first bytes of what `malloc` hands out. -/
theorem lt_length_garbage {i : Nat} (first : i < 3) : i < answer.garbage.toList.length := by
  rw [Vector.length_toList, logBufSz]
  omega

/-- Two threads; the first one brings the log up. -/
def bringUp : List (Action Bool Alloc.utc) :=
  .call false .init :: List.replicate 4 (.proceed false answer)

def greeting : Request := ⟨.info, text "net", text "up", by decide, by decide⟩

def warning : Request := ⟨.warn, text "disk", text "full", by decide, by decide⟩

end Libccll.Log
