/-
While loops with a bound on their rounds.

`run` gives up when its fuel is used up, so a loop that ends is one that ends on some
fuel, and an endless one is none on every fuel.  `ends_iff` says what either means without
fuel: the loop ends in the first of the states its body passes through that fails the test.

A loop that divides by `d` until it is at most `limit` counts its divisions, and what it
counts is at most `k` exactly when the number it began with is at most `limit * d ^ k`
(`ends_scale_le_iff`): a bound on the count is a bound on the number.
-/
import Mathlib.Algebra.Order.Archimedean.Basic
import Mathlib.Algebra.Order.Field.Basic

namespace WhileLoop

section

variable {σ τ : Type} (test : σ → Bool) (body : σ → σ)

/-- `while (test(s)) s = body(s);`, none when the fuel is used up. -/
def run : Nat → σ → Option σ
  | 0, _ => none
  | fuel + 1, s => if test s then run fuel (body s) else some s

/-- The loop ends, in the state `r`. -/
def Ends (s r : σ) : Prop := ∃ fuel, run test body fuel s = some r

variable {test body}

theorem run_of_rounds {s : σ} : ∀ {n : Nat}, (∀ k < n, test (body^[k] s) = true) →
    test (body^[n] s) = false → run test body (n + 1) s = some (body^[n] s) := by
  intro n
  induction n generalizing s with
  | zero =>
      intro _ hstop
      rw [run, if_neg (by simpa using hstop)]
      rfl
  | succ n ih =>
      intro hgo hstop
      have hfirst : test s = true := hgo 0 (Nat.succ_pos n)
      rw [run, if_pos hfirst]
      exact ih (fun k hk => hgo (k + 1) (Nat.succ_lt_succ hk)) hstop

theorem rounds_of_run {fuel : Nat} {s r : σ} (h : run test body fuel s = some r) :
    ∃ n, body^[n] s = r ∧ test r = false ∧ ∀ k < n, test (body^[k] s) = true := by
  induction fuel generalizing s with
  | zero => simp [run] at h
  | succ fuel ih =>
      rw [run] at h
      split at h
      · rename_i htest
        obtain ⟨n, hr, hstop, hgo⟩ := ih h
        refine ⟨n + 1, hr, hstop, fun k hk => ?_⟩
        cases k with
        | zero => exact htest
        | succ k => exact hgo k (Nat.lt_of_succ_lt_succ hk)
      · rename_i htest
        cases h
        exact ⟨0, rfl, by simpa using htest, fun k hk => absurd hk (Nat.not_lt_zero k)⟩

/-- **Where a loop ends**: in the first state on its way that fails the test. -/
theorem ends_iff {s r : σ} : Ends test body s r ↔
    ∃ n, body^[n] s = r ∧ test r = false ∧ ∀ k < n, test (body^[k] s) = true := by
  constructor
  · intro ⟨fuel, h⟩
    exact rounds_of_run h
  · intro ⟨n, hr, hstop, hgo⟩
    rw [← hr] at hstop ⊢
    exact ⟨n + 1, run_of_rounds hgo hstop⟩

/-- A loop that passes its test in every state on its way does not end. -/
theorem run_eq_none {s : σ} (h : ∀ n, test (body^[n] s) = true) (fuel : Nat) :
    run test body fuel s = none := by
  induction fuel generalizing s with
  | zero => rfl
  | succ fuel ih =>
      have hfirst : test s = true := h 0
      rw [run, if_pos hfirst]
      exact ih fun n => h (n + 1)

/-- A loop on the images of a map that its test and its body go along with. -/
theorem run_map {test' : τ → Bool} {body' : τ → τ} {f : σ → τ}
    (htest : ∀ s, test' (f s) = test s) (hbody : ∀ s, body' (f s) = f (body s)) (fuel : Nat)
    (s : σ) : run test' body' fuel (f s) = (run test body fuel s).map f := by
  induction fuel generalizing s with
  | zero => rfl
  | succ fuel ih =>
      rw [run, run, htest, hbody]
      split
      · exact ih (body s)
      · rfl

end

/-! ### Scaling down -/

section

variable {K : Type} [Field K] [LinearOrder K] [IsStrictOrderedRing K] (limit d : K)

/-- Whether the number of a state is above the limit. -/
def above (s : K × Nat) : Bool := decide (limit < s.1)

/-- A division of the number, which is counted. -/
def scale (s : K × Nat) : K × Nat := (s.1 / d, s.2 + 1)

variable {limit d}

omit [LinearOrder K] [IsStrictOrderedRing K] in
theorem scale_iterate (n : Nat) (s : K × Nat) : (scale d)^[n] s = (s.1 / d ^ n, s.2 + n) := by
  induction n generalizing s with
  | zero => simp
  | succ n ih =>
      rw [Function.iterate_succ_apply, ih, scale, div_div, ← pow_succ', Nat.add_right_comm,
        Nat.add_assoc]

theorem above_iterate_eq_false_iff (hd : 0 < d) {n : Nat} {s : K × Nat} :
    above limit ((scale d)^[n] s) = false ↔ s.1 ≤ limit * d ^ n := by
  rw [scale_iterate, above, decide_eq_false_iff_not, not_lt, div_le_iff₀ (pow_pos hd n)]

/-- The number is at most the limit after some divisions, so it is after the first such. -/
theorem ends_scale (hd : 0 < d) {q : K} {i k : Nat} (h : q ≤ limit * d ^ k) :
    ∃ n ≤ k, Ends (above limit) (scale d) (q, i) (q / d ^ n, i + n) := by
  classical
  have hex : ∃ n, q ≤ limit * d ^ n := ⟨k, h⟩
  refine ⟨Nat.find hex, Nat.find_min' hex h, ends_iff.mpr ⟨Nat.find hex, scale_iterate _ _, ?_, ?_⟩⟩
  · rw [← scale_iterate _ (q, i), above_iterate_eq_false_iff hd]
    exact Nat.find_spec hex
  · intro j hj
    by_contra habove
    rw [Bool.not_eq_true, above_iterate_eq_false_iff hd] at habove
    exact Nat.find_min hex hj habove

/-- **Counting the divisions.**  They are at most `k` exactly when the number is at most
`limit * d ^ k`. -/
theorem ends_scale_le_iff (hlimit : 0 ≤ limit) (hd : 1 < d) {q : K} {k : Nat} :
    (∃ r, Ends (above limit) (scale d) (q, 0) r ∧ r.2 ≤ k) ↔ q ≤ limit * d ^ k := by
  have hd0 : 0 < d := zero_lt_one.trans hd
  constructor
  · intro ⟨r, hends, hr⟩
    obtain ⟨n, hn, hstop, -⟩ := ends_iff.mp hends
    rw [← hn, above_iterate_eq_false_iff hd0] at hstop
    rw [← hn, scale_iterate, Nat.zero_add] at hr
    calc q ≤ limit * d ^ n := hstop
      _ ≤ limit * d ^ k := mul_le_mul_of_nonneg_left (pow_le_pow_right₀ hd.le hr) hlimit
  · intro h
    obtain ⟨n, hn, hends⟩ := ends_scale (i := 0) hd0 h
    exact ⟨_, hends, by simpa using hn⟩

/-- Where the numbers are Archimedean, the loop ends on each of them. -/
theorem exists_ends_scale [Archimedean K] (hlimit : 0 < limit) (hd : 1 < d) (q : K) (i : Nat) :
    ∃ r, Ends (above limit) (scale d) (q, i) r := by
  obtain ⟨k, hk⟩ := pow_unbounded_of_one_lt (q / limit) hd
  have hq : q ≤ limit * d ^ k := by
    rw [mul_comm]
    exact ((div_lt_iff₀ hlimit).mp hk).le
  obtain ⟨n, -, hends⟩ := ends_scale (i := i) (zero_lt_one.trans hd) hq
  exact ⟨_, hends⟩

end

end WhileLoop
