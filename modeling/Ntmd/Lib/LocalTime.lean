/-
Local time, and the way back from it.

A zone gives each instant an offset from UTC and a daylight flag.  Between transitions
both are constant, but nothing here depends on that: a `Zone` is any such function for
which the local clock shows the beginning of each day once.  `localtime` takes an
instant apart into a date and a time of day, with the flag in force then; `mktime` puts
them together again with the offset that the flag names, which is right when the flag
is the one in force at that local time.
-/
import Mathlib.Data.Int.Basic

namespace LocalTime

/-- A broken-down time.  The date is counted in days. -/
structure Tm where
  day : Int
  hour : Int
  min : Int
  sec : Int
  isDst : Bool
  deriving DecidableEq, Repr

/-- The seconds of the local clock. -/
def Tm.seconds (tm : Tm) : Int := tm.day * 86400 + tm.hour * 3600 + tm.min * 60 + tm.sec

structure Zone where
  /-- What the local clock is ahead of UTC by at an instant. -/
  offset : Int → Int
  isDst : Int → Bool
  /-- The daylight or standard offset, as a flag names it, for a reading of the local clock. -/
  named : Bool → Int → Int
  /-- The instant at which a day begins. -/
  midnight : Int → Int
  clock_midnight : ∀ day, midnight day + offset (midnight day) = day * 86400
  midnight_unique : ∀ t day, t + offset t = day * 86400 → t = midnight day
  named_isDst : ∀ day, named (isDst (midnight day)) (day * 86400) = offset (midnight day)

namespace Zone

variable (z : Zone)

/-- The local clock. -/
def clock (t : Int) : Int := t + z.offset t

def localtime (t : Int) : Tm where
  day := z.clock t / 86400
  hour := z.clock t % 86400 / 3600
  min := z.clock t % 3600 / 60
  sec := z.clock t % 60
  isDst := z.isDst t

def mktime (tm : Tm) : Int := tm.seconds - z.named tm.isDst tm.seconds

theorem seconds_localtime (t : Int) : (z.localtime t).seconds = z.clock t := by
  simp only [Tm.seconds, localtime]
  omega

/-- The clock shows the beginning of a day at its midnight and at no other instant. -/
theorem eq_midnight_iff (t day : Int) :
    t = z.midnight day ↔ z.localtime t = ⟨day, 0, 0, 0, z.isDst t⟩ := by
  constructor
  · rintro rfl
    have hclock : z.clock (z.midnight day) = day * 86400 := z.clock_midnight day
    simp only [localtime, hclock, Tm.mk.injEq, and_true]
    omega
  · intro h
    refine z.midnight_unique t day ?_
    have hseconds := z.seconds_localtime t
    rw [h] at hseconds
    simp only [Tm.seconds] at hseconds
    rw [show t + z.offset t = z.clock t from rfl, ← hseconds]
    omega

/-- The beginning of a day is found with a flag that names the offset in force then. -/
theorem mktime_eq_midnight_iff (day : Int) (flag : Bool) :
    z.mktime ⟨day, 0, 0, 0, flag⟩ = z.midnight day ↔
      z.named flag (day * 86400) = z.offset (z.midnight day) := by
  have hclock := z.clock_midnight day
  have hseconds : (⟨day, 0, 0, 0, flag⟩ : Tm).seconds = day * 86400 := by
    simp only [Tm.seconds]
    omega
  rw [mktime, hseconds]
  show day * 86400 - z.named flag (day * 86400) = _ ↔ _
  omega

end Zone

end LocalTime
