import Libccll.Timers.Registry

/-! The period on its way from `cl_timer_set` to `timerfd_settime`. -/

namespace Libccll.Timers

/-- Once `cl_timer_set` has returned SUCC and the server has come to its message, a timer has been
started with exactly this period, whatever the server reads after that. The kernel's calls all
succeed and return the descriptor.
-/
def ExactPeriod (s : Server) (fd : Nat) (sec ms : UInt16) (repeats : Int32) (cb : UInt64)
    (buf : Mem)
    : Prop :=
  ∀ written stream stream',
    (Call.clTimerSet sec ms repeats cb).run buf written stream = (.succ, stream')
    → ∃ message,
        stream' = stream ++ message
        ∧ ∀ later,
            ∃ s' inst its,
              _srvTimerProc ⟨some fd, true, true⟩ (message ++ later) s = some (false, s', later)
              ∧ s'.timerfds fd = some ⟨inst, its⟩
              ∧ its.Starts
              ∧ its.Denotes sec.toNat ms.toNat

-----------------------------------------------------------------------------------------
-- What is accepted
-----------------------------------------------------------------------------------------

variable {s : Server} {sec ms : UInt16} {repeats : Int32} {cb : UInt64}

/-- A period below a second that is not zero. -/
theorem itimerspec_starts (positive : 0 < ms.toNat) (short : ms.toNat ≤ 999)
    : (itimerspec sec ms).Starts := by
  have inRange : InRange ms := inRange_iff.mpr (by omega)
  rw [InRange] at inRange
  simp only [Itimerspec.Starts, Accepted, itimerspec, inRange]
  omega

/-- A whole second of milliseconds is no valid number of nanoseconds. -/
theorem itimerspec_refused (second : ms.toNat = 1000) : ¬(itimerspec sec ms).Starts := by
  have inRange : InRange ms := inRange_iff.mpr (by omega)
  rw [InRange] at inRange
  simp only [Itimerspec.Starts, Accepted, itimerspec, inRange]
  omega

-----------------------------------------------------------------------------------------
-- The message
-----------------------------------------------------------------------------------------

/-- What the server does with the message for a new callback. -/
theorem addTimer_arms {fd : Nat} {rpe : UInt32} (new : ∀ tmr ∈ s.liSock, tmr.cb ≠ cb)
    (room : s.liSock.length ≤ maxTimerCnt)
    : (_addTimer ⟨some fd, true, true⟩ sec ms rpe cb s).timerfds fd
      = some ⟨s.created + 1, itimerspec sec ms⟩ := by
  have fresh : ¬s.liSock.any (fun tmr => decide (tmr.cb = cb)) = true := by
    rw [List.any_eq_true]
    rintro ⟨tmr, member, same⟩
    exact new tmr member (of_decide_eq_true same)
  rw [_addTimer, if_neg fresh, if_neg (Nat.not_lt.mpr room)]
  simp [_creCliNode, timerfdSettime, listAdd, Server.setTimerFd]

/-- What `cl_timer_set` writes when it returns SUCC. -/
theorem run_succ {call : Call} {buf : Mem} {written : Bool} {stream stream' : List UInt8}
    (ran : call.run buf written stream = (.succ, stream'))
    : stream' = stream ++ call.message buf := by
  cases written with
  | true => exact (Prod.mk.inj ran).2.symm
  | false => cases (Prod.mk.inj ran).1

/-- The period arrives if and only if the numbers handed to `timerfd_settime` are those meant. -/
theorem exactPeriod_iff {fd : Nat} {buf : Mem} (new : ∀ tmr ∈ s.liSock, tmr.cb ≠ cb)
    (room : s.liSock.length ≤ maxTimerCnt)
    : ExactPeriod s fd sec ms repeats cb buf
      ↔ (itimerspec sec ms).Starts ∧ (itimerspec sec ms).Denotes sec.toNat ms.toNat := by
  have arms
      : (_addTimer ⟨some fd, true, true⟩ sec ms repeats.toUInt32 cb s).timerfds fd
        = some ⟨s.created + 1, itimerspec sec ms⟩ :=
    addTimer_arms new room
  have served (later : List UInt8) :=
    _srvTimerProc_message ⟨some fd, true, true⟩ s (.clTimerSet sec ms repeats cb) buf later
  constructor
  · intro exact_
    obtain ⟨message, sent, arrives⟩ := exact_ true [] _ rfl
    obtain rfl := List.append_cancel_left sent
    obtain ⟨s', inst, its, proc, timerfd, starts, denotes⟩ := arrives []
    rw [served] at proc
    cases proc
    obtain rfl : itimerspec sec ms = its :=
      (TimerFd.mk.inj (Option.some.inj (arms.symm.trans timerfd))).2
    exact ⟨starts, denotes⟩
  · rintro ⟨starts, denotes⟩ written stream stream' ran
    exact ⟨_, run_succ ran, fun later => ⟨_, _, _, served later, arms, starts, denotes⟩⟩

/-- Every documented period arrives exactly and no product overflows, if and only if the
milliseconds are at most 2147 and, where documented, not a whole second.
-/
theorem timer_periods {fd : Nat} {buf : Mem} (new : ∀ tmr ∈ s.liSock, tmr.cb ≠ cb)
    (room : s.liSock.length ≤ maxTimerCnt)
    : ((sec.toNat ≤ 28800 → 10 ≤ ms.toNat → ms.toNat ≤ 1000
          → ExactPeriod s fd sec ms repeats cb buf)
        ∧ InRange ms)
      ↔ ms.toNat ≤ 2147 ∧ (sec.toNat ≤ 28800 → ms.toNat ≠ 1000) := by
  rw [inRange_iff, exactPeriod_iff new room]
  constructor
  · rintro ⟨arrives, inRange⟩
    refine ⟨inRange, fun documented second => ?_⟩
    exact itimerspec_refused second (arrives documented (by omega) (by omega)).1
  · rintro ⟨inRange, notSecond⟩
    refine ⟨fun documented tens thousand => ?_, inRange⟩
    have short : ms.toNat ≤ 999 := by
      have other := notSecond documented
      omega
    exact ⟨itimerspec_starts (by omega) short, itimerspec_denotes_iff.mpr (inRange_iff.mpr inRange)⟩

/-- Half a second arrives at a server without timers. -/
theorem timer_periods_half
    : ExactPeriod (initial 3) 4 0 500 0 1 (fun _ => 0) ∧ InRange 500 := by
  obtain ⟨arrives, inRange⟩
      : ((0 : UInt16).toNat ≤ 28800 → 10 ≤ (500 : UInt16).toNat → (500 : UInt16).toNat ≤ 1000
          → ExactPeriod (initial 3) 4 0 500 0 1 fun _ => 0)
        ∧ InRange 500 :=
    (timer_periods (by decide) (by decide)).mpr ⟨by decide, fun _ => by decide⟩
  exact ⟨arrives (by decide) (by decide) (by decide), inRange⟩

/-- A whole second of milliseconds, which is documented, is not accepted; and from 2148
milliseconds on the product overflows.
-/
theorem timer_periods_second
    : ¬ExactPeriod (initial 3) 4 0 1000 0 1 (fun _ => 0) ∧ ¬InRange 2148 := by
  refine ⟨fun arrives => ?_, fun inRange => absurd (inRange_iff.mp inRange) (by decide)⟩
  have starts := (exactPeriod_iff (by decide) (by decide)).mp arrives
  exact itimerspec_refused (by decide) starts.1

end Libccll.Timers
