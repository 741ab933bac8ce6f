import Libccll.Cipher.RoundTrip
import Libccll.Foundation.Calendar

/-! The six-second window as seen in Unix time.
The decoder compares day of month, hour and second of the hour, so its window ends with
the clock hour and opens again whenever day of month and hour repeat.
-/

namespace Libccll.Klciph

open Foundation

/-- `localtime` for a zone at the fixed offset `off` from UTC, in seconds. -/
def localtime (off t : Int) : Tm :=
  let second := ((t + off) % 86400).toNat
  {
    tmSec := second % 60
    tmMin := second / 60 % 60
    tmHour := second / 3600 % 24
    tmMday := (Calendar.civil ((t + off) / 86400)).day
    sec_le := by omega
    min_lt := by omega
    hour_lt := by omega
    mday_le := (Calendar.civil ((t + off) / 86400)).day_le_31
  }

/-- Number of the clock hour an instant falls in. -/
def clockHour (off t : Int) : Int := (t + off) / 3600

/-- Seconds since the full hour. -/
def secondOfHour (off t : Int) : Int := (t + off) % 3600

theorem localtime_secondOfHour (off t : Int)
    : ((localtime off t).tmMin * 60 + (localtime off t).tmSec : Int) = secondOfHour off t := by
  simp only [localtime, secondOfHour]
  omega

theorem clockHour_secondOfHour (off t : Int)
    : t = clockHour off t * 3600 + secondOfHour off t - off := by
  simp only [clockHour, secondOfHour]
  omega

theorem localtime_tmHour (off t : Int)
    : ((localtime off t).tmHour : Int) = clockHour off t % 24 := by
  simp only [localtime, clockHour]
  omega

theorem localtime_tmMday (off t : Int)
    : (localtime off t).tmMday = (Calendar.civil (clockHour off t / 24)).day := by
  have day : (t + off) / 86400 = clockHour off t / 24 := by
    simp only [clockHour]
    omega
  simp only [localtime, day]

/-- Within one clock hour the readings agree in day and hour. -/
theorem localtime_of_clockHour_eq {off t t' : Int} (same : clockHour off t = clockHour off t')
    : (localtime off t').tmMday = (localtime off t).tmMday
      ∧ (localtime off t').tmHour = (localtime off t).tmHour := by
  constructor
  · rw [localtime_tmMday, localtime_tmMday, same]
  · apply Int.ofNat.inj
    exact (localtime_tmHour off t').trans (same ▸ (localtime_tmHour off t).symm)

/-- Clock readings that name the same day of some month and the same hour, with at most six
seconds between them.
-/
def Repeats (off t t' : Int) : Prop :=
  (localtime off t').tmMday = (localtime off t).tmMday
  ∧ (localtime off t').tmHour = (localtime off t).tmHour
  ∧ 0 ≤ secondOfHour off t' - secondOfHour off t
  ∧ secondOfHour off t' - secondOfHour off t ≤ 6

theorem clocksFresh_localtime (off t t' : Int)
    : ClocksFresh (localtime off t) (localtime off t') ↔ Repeats off t t' := by
  simp only [ClocksFresh, Repeats, localtime_secondOfHour]
  omega

/-- Readings that repeat in another clock hour are hours apart. -/
theorem Repeats.far {off t t' : Int} (repeats : Repeats off t t')
    (other : clockHour off t ≠ clockHour off t')
    : ¬(0 ≤ t' - t ∧ t' - t ≤ 6) := by
  have split := clockHour_secondOfHour off t
  have split' := clockHour_secondOfHour off t'
  have hour := localtime_tmHour off t
  have hour' := localtime_tmHour off t'
  obtain ⟨_, sameHour, _, _⟩ := repeats
  rw [sameHour] at hour'
  omega

/-- In one clock hour the readings repeat exactly inside the window. -/
theorem repeats_iff_window_of_clockHour_eq {off t t' : Int}
    (same : clockHour off t = clockHour off t')
    : Repeats off t t' ↔ 0 ≤ t' - t ∧ t' - t ≤ 6 := by
  have split := clockHour_secondOfHour off t
  have split' := clockHour_secondOfHour off t'
  obtain ⟨sameDay, sameHour⟩ := localtime_of_clockHour_eq same
  simp only [Repeats, sameDay, sameHour, true_and]
  omega

/-- Where the comparison of clock readings is the comparison of instants. -/
theorem repeats_iff_window_iff (off t t' : Int)
    : (Repeats off t t' ↔ 0 ≤ t' - t ∧ t' - t ≤ 6)
      ↔ clockHour off t = clockHour off t'
        ∨ ¬(0 ≤ t' - t ∧ t' - t ≤ 6) ∧ ¬Repeats off t t' := by
  constructor
  · intro matching
    rcases eq_or_ne (clockHour off t) (clockHour off t') with same | other
    · exact Or.inl same
    · have unrepeated : ¬Repeats off t t' :=
        fun repeats => repeats.far other (matching.mp repeats)
      exact Or.inr ⟨fun window => unrepeated (matching.mpr window), unrepeated⟩
  · intro condition
    rcases condition with same | ⟨outside, unrepeated⟩
    · exact repeats_iff_window_of_clockHour_eq same
    · exact ⟨fun repeats => absurd repeats unrepeated, fun window => absurd window outside⟩

/-- The window of six seconds is kept exactly for instants in one clock hour, and for instants
outside the window whose clock readings do not repeat.
-/
theorem clKlciphDec_window_iff (random : Option (List UInt8)) (plain out : Mem)
    (plen clen off t : Int)
    (encoded
      : (clKlciphEnc random (localtime off t) (some plain) plen (some out) (some clen)).ret
        = .succ)
    (dst : Mem) (oldLen maxPlen : Int) (enough : plen ≤ maxPlen) (t' : Int)
    : ((∃ result,
          clKlciphDec
              (clKlciphEnc random (localtime off t) (some plain) plen (some out)
                (some clen)).cipher
              256 (some dst) (some oldLen) maxPlen (localtime off t')
            = some result
          ∧ result.ret = .succ)
        ↔ 0 ≤ t' - t ∧ t' - t ≤ 6)
      ↔ clockHour off t = clockHour off t'
        ∨ ¬(0 ≤ t' - t ∧ t' - t ≤ 6) ∧ ¬Repeats off t t' := by
  obtain ⟨result, ran, accepted, _⟩ :=
    clKlciphDec_sealed encoded dst oldLen maxPlen (localtime off t')
  have succeeds
      : (∃ result,
          clKlciphDec
              (clKlciphEnc random (localtime off t) (some plain) plen (some out)
                (some clen)).cipher
              256 (some dst) (some oldLen) maxPlen (localtime off t')
            = some result
          ∧ result.ret = .succ)
        ↔ Repeats off t t' := by
    rw [← clocksFresh_localtime]
    constructor
    · intro ⟨result', ran', ret⟩
      obtain rfl : result = result' := Option.some.inj (ran.symm.trans ran')
      exact (accepted.mp ret).1
    · intro fresh
      exact ⟨result, ran, accepted.mpr ⟨fresh, enough⟩⟩
  rw [succeeds]
  exact repeats_iff_window_iff off t t'

/-- Ten minutes into the epoch a message a second old is accepted. -/
theorem clKlciphDec_window_iff_tenMinutes
    : ((∃ result,
          clKlciphDec
              (clKlciphEnc (some (0 :: 0 :: (List.replicate 256 0 ++ [128]))) (localtime 0 600)
                (some (fun _ => 7)) 2 (some (fun _ => 0)) (some 0)).cipher
              256 (some (fun _ => 0)) (some 0) 120 (localtime 0 601)
            = some result
          ∧ result.ret = .succ)
        ↔ 0 ≤ (601 : Int) - 600 ∧ (601 : Int) - 600 ≤ 6) :=
  (clKlciphDec_window_iff (some (0 :: 0 :: (List.replicate 256 0 ++ [128]))) (fun _ => 7)
    (fun _ => 0) 2 0 0 600 (by decide +kernel) (fun _ => 0) 0 120 (by decide) 601).mpr
    (Or.inl (by decide))

/-- A message made in the last second of an hour is rejected one second later. -/
theorem clKlciphDec_hour_boundary
    : ¬(∀ (random : Option (List UInt8)) (plain out : Mem) (plen clen off t : Int),
        (clKlciphEnc random (localtime off t) (some plain) plen (some out) (some clen)).ret
            = .succ
          → ∀ (dst : Mem) (oldLen maxPlen : Int),
            plen ≤ maxPlen
              → ∀ t',
                (∃ result,
                    clKlciphDec
                        (clKlciphEnc random (localtime off t) (some plain) plen (some out)
                          (some clen)).cipher
                        256 (some dst) (some oldLen) maxPlen (localtime off t')
                      = some result
                    ∧ result.ret = .succ)
                  ↔ 0 ≤ t' - t ∧ t' - t ≤ 6) := by
  intro claimed
  have accepted := (claimed (some (0 :: 0 :: (List.replicate 256 0 ++ [128]))) (fun _ => 7)
    (fun _ => 0) 2 0 0 3599 (by decide +kernel) (fun _ => 0) 0 120 (by decide) 3600).mpr
    (by decide)
  revert accepted
  decide +kernel

end Libccll.Klciph
