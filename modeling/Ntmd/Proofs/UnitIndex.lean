/-
The loops that scale a number of bytes down.

Neither looks at how many units there are, so whether it ends at one of them is a matter of
what it begins with.  A quotient with a divisor is scaled down as often as it is over a power
of 1000, and six units are enough for a million million millions; a quotient by zero that is
infinite is never scaled down at all (`prints_iff`, `bytesToHumanOvertime_running_iff`).
-/
import Ntmd.Config.Config
import Ntmd.Util.HumanReadable

namespace Ntmd

open Bytes WhileLoop

/-- The loop ends, and `units` has an entry for its index. -/
def EndsAtUnit (b : Double) : Prop := ∃ fuel r, unitLoop fuel b = some r ∧ r.2 ≤ 5

/-- Some run of the function returns, and the index of its unit is at most the last. -/
def Prints (f : Nat → Except HumanFault Human) : Prop := ∃ fuel t, f fuel = .ok t ∧ t.i ≤ 5

/-! ### What the loop does to each kind of value -/

theorem unitLoop_finite (fuel : Nat) (q : ℚ) : unitLoop fuel (.finite q) =
    (run (above 1000) (scale 1000) fuel (q, 0)).map fun s => (.finite s.1, s.2) :=
  run_map (f := fun s : ℚ × Nat => (Double.finite s.1, s.2)) (fun _ => rfl) (fun _ => rfl)
    fuel (q, 0)

theorem unitLoop_infinite (fuel : Nat) : unitLoop fuel .infinite = none := by
  refine run_eq_none (fun n => ?_) fuel
  suffices h : ∀ i, (((fun s : Double × Nat => (s.1.shrink, s.2 + 1))^[n]) (.infinite, i)).1 =
      .infinite by
    rw [h 0]
    rfl
  induction n with
  | zero => exact fun _ => rfl
  | succ n ih => exact fun i => ih (i + 1)

theorem endsAtUnit_finite_iff {q : ℚ} : EndsAtUnit (.finite q) ↔ q ≤ 1000 ^ 6 := by
  have hcount : (∃ r, Ends (above 1000) (scale 1000) (q, 0) r ∧ r.2 ≤ 5) ↔ q ≤ 1000 * 1000 ^ 5 :=
    ends_scale_le_iff (by norm_num) (by norm_num)
  rw [pow_succ', ← hcount]
  constructor
  · rintro ⟨fuel, r, hrun, hr⟩
    rw [unitLoop_finite, Option.map_eq_some_iff] at hrun
    obtain ⟨s, hs, rfl⟩ := hrun
    exact ⟨s, ⟨fuel, hs⟩, hr⟩
  · rintro ⟨s, ⟨fuel, hs⟩, hr⟩
    exact ⟨fuel, _, by rw [unitLoop_finite, hs, Option.map_some], hr⟩

theorem endsAtUnit_ofBytes_iff {bytes : UInt64} :
    EndsAtUnit (.ofBytes bytes) ↔ bytes.toNat ≤ 1000 ^ 6 := by
  rw [Double.ofBytes, endsAtUnit_finite_iff]
  exact_mod_cast Iff.rfl

theorem endsAtUnit_overtime_iff {bytes : UInt64} {seconds : UInt32} :
    EndsAtUnit (.overtime bytes seconds) ↔ bytes.toNat ≤ 1000 ^ 6 * seconds.toNat := by
  unfold Double.overtime
  split
  · rename_i hzero
    rw [hzero, UInt32.toNat_zero, Nat.mul_zero, Nat.le_zero]
    split
    · rename_i hbytes
      rw [hbytes]
      -- 0/0 is not above 1000.
      exact iff_of_true ⟨1, (.nan, 0), rfl, Nat.zero_le _⟩ rfl
    · rename_i hbytes
      refine iff_of_false ?_ fun h => hbytes (UInt64.toNat_inj.mp h)
      rintro ⟨fuel, r, hrun, -⟩
      rw [unitLoop_infinite] at hrun
      exact absurd hrun (by simp)
  · rename_i hzero
    have hpos : (0 : ℚ) < seconds.toNat := by
      exact_mod_cast Nat.pos_of_ne_zero fun h => hzero (UInt32.toNat_inj.mp h)
    rw [endsAtUnit_finite_iff, div_le_iff₀ hpos]
    exact_mod_cast Iff.rfl

/-! ### What the functions print -/

theorem human_eq_ok {fuel : Nat} {b : Double} {decimals : Nat → Nat} {t : Human}
    (h : human fuel b decimals = .ok t) : unitLoop fuel b = some (t.b, t.i) := by
  unfold human at h
  split at h
  · exact absurd h (by simp)
  · rename_i hrun
    split at h
    · exact absurd h (by simp)
    · cases h
      exact hrun

theorem human_of_le {fuel : Nat} {b : Double} {r : Double × Nat} (decimals : Nat → Nat)
    (hrun : unitLoop fuel b = some r) (hr : r.2 ≤ 5) :
    ∃ t, human fuel b decimals = .ok t ∧ t.i = r.2 := by
  have hunit : units[r.2]? = some (units.get ⟨r.2, Nat.lt_succ_of_le hr⟩) :=
    List.getElem?_eq_getElem _
  unfold human
  simp only [hrun, hunit]
  exact ⟨_, rfl, rfl⟩

theorem human_eq_running_iff {fuel : Nat} {b : Double} {decimals : Nat → Nat} :
    human fuel b decimals = .error .running ↔ unitLoop fuel b = none := by
  unfold human
  cases unitLoop fuel b with
  | none => simp
  | some r =>
      cases hunit : units[r.2]? with
      | none => simp [hunit]
      | some unit => simp [hunit]

theorem prints_human_iff {b : Double} {decimals : Nat → Nat} :
    Prints (human · b decimals) ↔ EndsAtUnit b := by
  constructor
  · intro ⟨fuel, t, ht, hi⟩
    exact ⟨fuel, _, human_eq_ok ht, hi⟩
  · intro ⟨fuel, r, hrun, hr⟩
    obtain ⟨t, ht, hi⟩ := human_of_le decimals hrun hr
    exact ⟨fuel, t, ht, hi ▸ hr⟩

/-- **When the index is one of a unit**: up to 1000 ^ 6 bytes, and up to as many for each
second. -/
theorem prints_iff (bytes : UInt64) (interval : Int32) :
    (Prints (bytesToHumanOvertime · bytes interval.toUInt32) ↔
      bytes.toNat ≤ 1000 ^ 6 * interval.toUInt32.toNat) ∧
    (Prints (bytesToHuman · bytes) ↔ bytes.toNat ≤ 1000 ^ 6) :=
  ⟨prints_human_iff.trans endsAtUnit_overtime_iff, prints_human_iff.trans endsAtUnit_ofBytes_iff⟩

/-- An interval of 0, which a file may set, with one byte, and the largest count in a second. -/
theorem not_prints_extremes :
    (Config.ofItems (Config.readItems (ascii "interval=0"))).interval = 0 ∧
      (∀ fuel, bytesToHumanOvertime fuel 1 (0 : Int32).toUInt32 = .error .running) ∧
      ¬ Prints (bytesToHumanOvertime · 1 (0 : Int32).toUInt32) ∧
      bytesToHumanOvertime 7 18446744073709551615 (1 : Int32).toUInt32 = .error (.noUnit 6) ∧
      ¬ Prints (bytesToHumanOvertime · 18446744073709551615 (1 : Int32).toUInt32) ∧
      ¬ Prints (bytesToHuman · 18446744073709551615) := by
  refine ⟨by decide, fun fuel => ?_, fun h => ?_, by decide +kernel, fun h => ?_, fun h => ?_⟩
  · exact human_eq_running_iff.mpr (unitLoop_infinite fuel)
  · exact absurd (endsAtUnit_overtime_iff.mp (prints_human_iff.mp h)) (by decide)
  · exact absurd (endsAtUnit_overtime_iff.mp (prints_human_iff.mp h)) (by decide)
  · exact absurd (endsAtUnit_ofBytes_iff.mp (prints_human_iff.mp h)) (by decide)

/-- Of the other counts, those that are divided by zero are scaled down for ever. -/
theorem bytesToHumanOvertime_running_iff {bytes : UInt64} {seconds : UInt32} :
    (∀ fuel, bytesToHumanOvertime fuel bytes seconds = .error .running) ↔
      seconds = 0 ∧ bytes ≠ 0 := by
  simp only [bytesToHumanOvertime, human_eq_running_iff]
  unfold Double.overtime
  split
  · rename_i hzero
    split
    · rename_i hbytes
      refine iff_of_false (fun h => absurd (h 1) ?_) fun h => h.2 hbytes
      exact Option.some_ne_none (Double.nan, 0)
    · rename_i hbytes
      exact iff_of_true unitLoop_infinite ⟨hzero, hbytes⟩
  · rename_i hzero
    refine iff_of_false (fun h => ?_) fun h => hzero h.1
    have hends : ∃ r, Ends (above (1000 : ℚ)) (scale 1000) (bytes.toNat / seconds.toNat, 0) r :=
      exists_ends_scale (by norm_num) (by norm_num) _ 0
    obtain ⟨r, fuel, hrun⟩ := hends
    have hnone := h fuel
    rw [unitLoop_finite, hrun] at hnone
    exact absurd hnone (by simp)

end Ntmd
