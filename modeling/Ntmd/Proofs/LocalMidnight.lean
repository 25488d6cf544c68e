/-
Where the traffic of the current day begins.

`trafficDaily` takes the time of day out of the fields of now and leaves the daylight
flag of now in them.  `startOfCurrentDay_eq_midnight_iff` says when that flag will do for
midnight: when it is also that of midnight, or makes no difference there.
-/
import Ntmd.Api.APIController

namespace Ntmd

open LocalTime

/-- **The day begins at local midnight** exactly if the daylight flag of now is that of midnight,
or both flags name the same offset for it. -/
theorem startOfCurrentDay_eq_midnight_iff (z : Zone) (now : Int) :
    startOfCurrentDay z now = z.midnight (z.localtime now).day ↔
      z.isDst now = z.isDst (z.midnight (z.localtime now).day) ∨
        z.named true ((z.localtime now).day * 86400) =
          z.named false ((z.localtime now).day * 86400) := by
  have hflag : (z.localtime now).isDst = z.isDst now := rfl
  have hmidnight := z.named_isDst (z.localtime now).day
  refine (z.mktime_eq_midnight_iff (z.localtime now).day (z.localtime now).isDst).trans ?_
  rw [hflag, ← hmidnight]
  cases z.isDst now <;> cases z.isDst (z.midnight (z.localtime now).day) <;> simp [eq_comm]

/-- The reply is the traffic since then. -/
theorem trafficDailyAt_eq (z : Zone) (now : Int) (w : Writers) (r : Reads) :
    trafficDailyAt z now w r = trafficSince w r (Int64.ofInt (startOfCurrentDay z now)) := rfl

/-- A zone that puts its clocks forward by an hour on 2023-03-26, at one in the morning. -/
def springForward : Zone where
  offset t := if t < 1679792400 then 0 else 3600
  isDst t := 1679792400 ≤ t
  named flag _ := if flag then 3600 else 0
  midnight day := if day < 19443 then day * 86400 else day * 86400 - 3600
  clock_midnight day := by
    split <;> split <;> omega
  midnight_unique t day h := by
    split at h <;> split <;> omega
  named_isDst day := by
    split <;> rename_i hday
    · rw [if_pos (by omega : day * 86400 < 1679792400)]
      simp
      omega
    · rw [if_neg (by omega : ¬ day * 86400 - 3600 < 1679792400)]
      simp
      omega

/-- At noon of that day the day seems to have begun at 23:00 of the day before. -/
theorem not_midnight_springForward :
    springForward.localtime 1679828400 = ⟨19442, 12, 0, 0, true⟩ ∧
      springForward.localtime (startOfCurrentDay springForward 1679828400) =
        ⟨19441, 23, 0, 0, false⟩ ∧
      startOfCurrentDay springForward 1679828400 ≠ springForward.midnight 19442 := by
  have hday : springForward.localtime 1679828400 = ⟨19442, 12, 0, 0, true⟩ := by decide
  have hstart : springForward.localtime (startOfCurrentDay springForward 1679828400) =
      ⟨19441, 23, 0, 0, false⟩ := by
    decide
  refine ⟨hday, hstart, fun heq => ?_⟩
  have hmidnight := (springForward.eq_midnight_iff _ _).mp heq
  rw [hstart] at hmidnight
  exact absurd (congrArg Tm.hour hmidnight) (by decide)

end Ntmd
