/-
A ledger: amounts are credited to keys, and every so often a period is closed.

This is what something that counts is for, whatever it counts and wherever it keeps
it.  What has been credited since the last close is the balance; what was credited
before is history, and is asked for by the times of the closes.  Keys and times are
asked for by a test on each, so that one question can be about one key or about many.

Every credit is in exactly one place: closing a period moves the balance into the
history (`history_close`), and both together are all that was ever credited
(`settled_add_balance`).  A history over two windows that do not meet is the sum of
the two (`history_or`), and where no amount is negative it only grows
(`history_le_exec`).
-/
import Mathlib.Algebra.BigOperators.Group.List.Basic
import Mathlib.Algebra.Order.BigOperators.Group.List
import Ntmd.Lib.Run

structure Ledger (κ τ α : Type) where
  /-- What was credited since the last close. -/
  current : List (κ × α) := []
  /-- The periods that are over, each with the time of its close. -/
  closed : List (τ × List (κ × α)) := []

namespace Ledger

open Run

variable {κ τ α : Type}

inductive Event (κ τ α : Type)
  | credit (key : κ) (amount : α)
  | close (time : τ)

def post (l : Ledger κ τ α) : Event κ τ α → Ledger κ τ α
  | .credit key amount => { l with current := l.current ++ [(key, amount)] }
  | .close time => { current := [], closed := l.closed ++ [(time, l.current)] }

/-- The periods that are over, without what was credited since. -/
def reopen (l : Ledger κ τ α) : Ledger κ τ α := { closed := l.closed }

variable [AddCommMonoid α]

/-- What a list of credits comes to, over some keys. -/
def amountOf (keys : κ → Bool) (credits : List (κ × α)) : α :=
  ((credits.filter fun e => keys e.1).map Prod.snd).sum

def balance (l : Ledger κ τ α) (keys : κ → Bool) : α := amountOf keys l.current

/-- What was credited in the periods that were closed in a window of times. -/
def history (l : Ledger κ τ α) (keys : κ → Bool) (window : τ → Bool) : α :=
  ((l.closed.filter fun p => window p.1).map fun p => amountOf keys p.2).sum

/-- What an event credits. -/
def creditOf (keys : κ → Bool) : Event κ τ α → α
  | .credit key amount => if keys key then amount else 0
  | .close _ => 0

/-! ### One event -/

theorem amountOf_append (keys : κ → Bool) (xs ys : List (κ × α)) :
    amountOf keys (xs ++ ys) = amountOf keys xs + amountOf keys ys := by
  rw [amountOf, List.filter_append, List.map_append, List.sum_append]
  rfl

theorem amountOf_singleton (keys : κ → Bool) (key : κ) (amount : α) :
    amountOf keys [(key, amount)] = if keys key then amount else 0 := by
  cases h : keys key <;> simp [amountOf, h]

@[simp] theorem balance_credit (l : Ledger κ τ α) (keys : κ → Bool) (key : κ) (amount : α) :
    (l.post (.credit key amount)).balance keys =
      l.balance keys + if keys key then amount else 0 := by
  rw [balance, post, amountOf_append, amountOf_singleton]
  rfl

@[simp] theorem balance_close (l : Ledger κ τ α) (keys : κ → Bool) (time : τ) :
    (l.post (.close time)).balance keys = 0 := rfl

@[simp] theorem history_credit (l : Ledger κ τ α) (keys : κ → Bool) (window : τ → Bool) (key : κ)
    (amount : α) : (l.post (.credit key amount)).history keys window = l.history keys window := rfl

/-- A close moves the balance into the history. -/
@[simp] theorem history_close (l : Ledger κ τ α) (keys : κ → Bool) (window : τ → Bool) (time : τ) :
    (l.post (.close time)).history keys window =
      l.history keys window + if window time then l.balance keys else 0 := by
  rw [history, post, List.filter_append, List.map_append, List.sum_append]
  cases h : window time <;> simp [history, balance, h]

@[simp] theorem balance_reopen (l : Ledger κ τ α) (keys : κ → Bool) :
    l.reopen.balance keys = 0 := rfl

@[simp] theorem history_reopen (l : Ledger κ τ α) (keys : κ → Bool) (window : τ → Bool) :
    l.reopen.history keys window = l.history keys window := rfl

/-! ### A run of events -/

/-- **All that was ever credited is in the balance or in the history.** -/
theorem settled_add_balance (keys : κ → Bool) : ∀ (es : List (Event κ τ α)) (l : Ledger κ τ α),
    (exec post l es).history keys (fun _ => true) + (exec post l es).balance keys =
      l.history keys (fun _ => true) + l.balance keys + (es.map (creditOf keys)).sum := by
  intro es
  induction es with
  | nil => intro l; exact (add_zero _).symm
  | cons e es ih =>
      intro l
      rw [exec_cons, ih, List.map_cons, List.sum_cons]
      cases e with
      | credit key amount => rw [history_credit, balance_credit, creditOf]; ac_rfl
      | close time => simp [creditOf]

/-- The history over two windows that share no time of a close. -/
theorem history_or (l : Ledger κ τ α) (keys : κ → Bool) {v w : τ → Bool}
    (h : ∀ p ∈ l.closed, ¬ (v p.1 = true ∧ w p.1 = true)) :
    l.history keys (fun t => v t || w t) = l.history keys v + l.history keys w := by
  unfold history
  generalize l.closed = closed at h
  induction closed with
  | nil => exact (add_zero _).symm
  | cons p closed ih =>
      obtain ⟨hp, hrest⟩ := List.forall_mem_cons.mp h
      have ih' := ih hrest
      cases hv : v p.1 with
      | false => cases hw : w p.1 <;> simp [hv, hw, ih', add_left_comm]
      | true =>
          have hw : w p.1 = false := by simpa [hv] using hp
          simp [hv, hw, ih', add_assoc]

/-! ### Amounts that are not negative -/

section Ordered

variable [PartialOrder α] [IsOrderedAddMonoid α]

/-- No credit takes anything away. -/
def NonNegative (l : Ledger κ τ α) : Prop :=
  (∀ e ∈ l.current, 0 ≤ e.2) ∧ ∀ p ∈ l.closed, ∀ e ∈ p.2, 0 ≤ e.2

theorem amountOf_nonneg (keys : κ → Bool) {credits : List (κ × α)} (h : ∀ e ∈ credits, 0 ≤ e.2) :
    0 ≤ amountOf keys credits := by
  refine List.sum_nonneg fun x hx => ?_
  obtain ⟨e, he, rfl⟩ := List.mem_map.mp hx
  exact h e (List.mem_of_mem_filter he)

theorem NonNegative.balance_nonneg {l : Ledger κ τ α} (h : l.NonNegative) (keys : κ → Bool) :
    0 ≤ l.balance keys := amountOf_nonneg keys h.1

theorem NonNegative.history_nonneg {l : Ledger κ τ α} (h : l.NonNegative) (keys : κ → Bool)
    (window : τ → Bool) : 0 ≤ l.history keys window := by
  refine List.sum_nonneg fun x hx => ?_
  obtain ⟨p, hp, rfl⟩ := List.mem_map.mp hx
  exact amountOf_nonneg keys (h.2 p (List.mem_of_mem_filter hp))

omit [IsOrderedAddMonoid α] in
theorem NonNegative.post {l : Ledger κ τ α} (h : l.NonNegative) {e : Event κ τ α}
    (he : ∀ key amount, e = .credit key amount → 0 ≤ amount) : (l.post e).NonNegative := by
  obtain ⟨hcurrent, hclosed⟩ := h
  cases e with
  | credit key amount =>
      refine ⟨fun c hc => ?_, hclosed⟩
      rcases List.mem_append.mp hc with hc | hc
      · exact hcurrent c hc
      · rw [List.mem_singleton.mp hc]
        exact he key amount rfl
  | close time =>
      refine ⟨fun c hc => absurd hc List.not_mem_nil, fun p hp => ?_⟩
      rcases List.mem_append.mp hp with hp | hp
      · exact hclosed p hp
      · rw [List.mem_singleton.mp hp]
        exact hcurrent

omit [IsOrderedAddMonoid α] in
theorem NonNegative.exec : ∀ {es : List (Event κ τ α)} {l : Ledger κ τ α}, l.NonNegative →
    (∀ key amount, .credit key amount ∈ es → 0 ≤ amount) →
      (Run.exec Ledger.post l es).NonNegative := by
  intro es
  induction es with
  | nil => intro l h _; exact h
  | cons e es ih =>
      intro l h hes
      refine ih (h.post fun key amount he => hes key amount ?_) fun key amount he =>
        hes key amount (List.mem_cons_of_mem _ he)
      exact he ▸ List.mem_cons_self

/-- What was asked for once is answered with as much or more later on. -/
theorem history_le_exec (keys : κ → Bool) (window : τ → Bool) : ∀ {es : List (Event κ τ α)}
    {l : Ledger κ τ α}, l.NonNegative → (∀ key amount, .credit key amount ∈ es → 0 ≤ amount) →
      l.history keys window ≤ (exec Ledger.post l es).history keys window := by
  intro es
  induction es with
  | nil => intro l _ _; exact le_refl _
  | cons e es ih =>
      intro l h hes
      have hnext : (l.post e).NonNegative := h.post fun key amount he =>
        hes key amount (he ▸ List.mem_cons_self)
      refine le_trans ?_ (ih hnext fun key amount he => hes key amount (List.mem_cons_of_mem _ he))
      cases e with
      | credit key amount => exact le_refl _
      | close time =>
          rw [history_close]
          split
          · exact le_add_of_nonneg_right (h.balance_nonneg keys)
          · rw [add_zero]

end Ordered

end Ledger
