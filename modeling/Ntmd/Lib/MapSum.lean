/-
Sums over the values of a map.

Writing a key changes such a sum by the value written less the value that was there.

A quantity may also depend on the key, and be of any additive kind; then `sumOver` is
its sum.
-/
import Mathlib.Algebra.BigOperators.Group.List.Basic
import Mathlib.Algebra.Order.Ring.Int
import Mathlib.Data.List.AList

namespace MapSum

variable {κ ν : Type}

/-- The sum of a quantity over all values of a map. -/
def sumOf (f : ν → Int) (m : AList fun _ : κ => ν) : Int := (m.entries.map fun e => f e.2).sum

@[simp] theorem sumOf_empty (f : ν → Int) : sumOf f (∅ : AList fun _ : κ => ν) = 0 := rfl

variable [DecidableEq κ]

/-- The quantity at a key, zero when the key is not there. -/
def valueAt (f : ν → Int) (m : AList fun _ : κ => ν) (k : κ) : Int := ((m.lookup k).map f).getD 0

private theorem sum_kerase (f : ν → Int) (k : κ) : ∀ l : List (Σ _ : κ, ν),
    ((l.kerase k).map fun e => f e.2).sum + ((l.dlookup k).map f).getD 0
      = (l.map fun e => f e.2).sum := by
  intro l
  induction l with
  | nil => rfl
  | cons e l ih =>
      obtain ⟨k', v⟩ := e
      by_cases hk : k = k'
      · subst hk
        have herase : List.kerase k (⟨k, v⟩ :: l) = l := List.kerase_cons_eq rfl
        rw [herase, List.dlookup_cons_eq, List.map_cons, List.sum_cons]
        exact Int.add_comm _ _
      · rw [List.kerase_cons_ne hk, List.dlookup_cons_ne _ _ hk, List.map_cons, List.sum_cons,
          List.map_cons, List.sum_cons, ← ih]
        omega

/-- **A write adds the new value to the sum and takes the old one out.** -/
theorem sumOf_insert (f : ν → Int) (m : AList fun _ : κ => ν) (k : κ) (v : ν) :
    sumOf f (m.insert k v) + valueAt f m k = sumOf f m + f v := by
  have herase := sum_kerase f k m.entries
  have hinsert : sumOf f (m.insert k v) = f v + ((m.entries.kerase k).map fun e => f e.2).sum :=
    List.sum_cons
  rw [hinsert, valueAt, AList.lookup, sumOf, ← herase]
  omega

/-! ### Quantities that depend on the key -/

variable {M : Type} [AddCommMonoid M]

omit [DecidableEq κ] in
/-- The sum of a quantity over all entries of a map. -/
def sumOver (f : κ → ν → M) (m : AList fun _ : κ => ν) : M := (m.entries.map fun e => f e.1 e.2).sum

/-- The quantity at a key, zero when the key is not there. -/
def termAt (f : κ → ν → M) (m : AList fun _ : κ => ν) (k : κ) : M := ((m.lookup k).map (f k)).getD 0

omit [DecidableEq κ] in
@[simp] theorem sumOver_empty (f : κ → ν → M) : sumOver f (∅ : AList fun _ : κ => ν) = 0 := rfl

private theorem sum_kerase_over (f : κ → ν → M) (k : κ) : ∀ l : List (Σ _ : κ, ν),
    ((l.kerase k).map fun e => f e.1 e.2).sum + ((l.dlookup k).map (f k)).getD 0
      = (l.map fun e => f e.1 e.2).sum := by
  intro l
  induction l with
  | nil => exact add_zero _
  | cons e l ih =>
      obtain ⟨k', v⟩ := e
      by_cases hk : k = k'
      · subst hk
        have herase : List.kerase k (⟨k, v⟩ :: l) = l := List.kerase_cons_eq rfl
        rw [herase, List.dlookup_cons_eq, List.map_cons, List.sum_cons]
        exact add_comm _ _
      · rw [List.kerase_cons_ne hk, List.dlookup_cons_ne _ _ hk, List.map_cons, List.sum_cons,
          List.map_cons, List.sum_cons, ← ih, add_assoc]

/-- **A write puts its own term in the place of the one that was there.** -/
theorem sumOver_insert (f : κ → ν → M) (m : AList fun _ : κ => ν) (k : κ) (v : ν) :
    sumOver f (m.insert k v) + termAt f m k = sumOver f m + f k v := by
  have herase := sum_kerase_over f k m.entries
  have hinsert : sumOver f (m.insert k v) =
      f k v + ((m.entries.kerase k).map fun e => f e.1 e.2).sum := List.sum_cons
  rw [hinsert, termAt, AList.lookup, sumOver, ← herase, add_assoc, add_comm]

/-- A quantity that is zero at every other key of the map sums to its term at this one. -/
theorem sumOver_eq_termAt {f : κ → ν → M} {m : AList fun _ : κ => ν} {k : κ}
    (h : ∀ e ∈ m.entries, e.1 ≠ k → f e.1 e.2 = 0) : sumOver f m = termAt f m k := by
  have hrest : ∀ e ∈ m.entries.kerase k, f e.1 e.2 = 0 := fun e he => by
    refine h e ((List.kerase_sublist k m.entries).subset he) fun heq => ?_
    have hnot : e.1 ∉ (m.entries.kerase k).keys := heq ▸ List.notMem_keys_kerase k m.nodupKeys
    exact hnot (List.mem_keys_of_mem he)
  rw [sumOver, ← sum_kerase_over f k m.entries, termAt, AList.lookup]
  have hzero : ((m.entries.kerase k).map fun e => f e.1 e.2).sum = 0 := by
    refine List.sum_eq_zero fun x hx => ?_
    obtain ⟨e, he, rfl⟩ := List.mem_map.mp hx
    exact hrest e he
  rw [hzero, zero_add]

end MapSum
