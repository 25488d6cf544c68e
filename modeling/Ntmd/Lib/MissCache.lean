/-
A cache that also remembers what it could not find.

`known` are the keys the cache can answer, `missed` those it has looked for in vain.
The two are consistent when no key is in both, and then a key that can be answered
is never refused.  Keys become known as a side effect of looking for others, so the
question is what a step must not load: `consistent_learn_iff` says it exactly.

Where what is looked up does not change, more can be said: `Settled` is that what the
cache knows is so and what it missed is nowhere to be found, and no order of lookups
and clears takes that away.
-/
import Mathlib.Data.Finset.Insert
import Mathlib.Data.Set.Lattice
import Mathlib.Order.CompletePartialOrder
import Ntmd.Lib.LoadMap

structure MissCache (κ : Type) where
  known : Set κ
  missed : Set κ

namespace MissCache

variable {κ : Type}

/-- No key is both known and missed. -/
def Consistent (c : MissCache κ) : Prop := Disjoint c.known c.missed

/-- Load some keys, and then remember others as missed. -/
def learn (c : MissCache κ) (loaded remembered : Set κ) : MissCache κ where
  known := c.known ∪ loaded
  missed := c.missed ∪ remembered

/-- Forget every missed key. -/
def forget (c : MissCache κ) : MissCache κ := { c with missed := ∅ }

theorem consistent_forget (c : MissCache κ) : c.forget.Consistent := Set.disjoint_empty _

/-- **A step keeps the cache consistent exactly if it loads no key that was missed before, and
remembers none that is known after it.** -/
theorem consistent_learn_iff {c : MissCache κ} (h : c.Consistent) {loaded remembered : Set κ} :
    (c.learn loaded remembered).Consistent ↔
      Disjoint loaded c.missed ∧ Disjoint (c.known ∪ loaded) remembered := by
  rw [Consistent, learn, Set.disjoint_union_right, Set.disjoint_union_left]
  constructor
  · rintro ⟨⟨-, hloaded⟩, hremembered⟩
    exact ⟨hloaded, hremembered⟩
  · rintro ⟨hloaded, hremembered⟩
    exact ⟨⟨h, hloaded⟩, hremembered⟩

/-! ### A map and a list of misses -/

section OfMap

open LoadMap

variable {ν : Type}

/-- The cache that a map and a set of missed keys make. -/
def ofMap (m : AList fun _ : κ => ν) (missed : Finset κ) : MissCache κ where
  known := {k | k ∈ m}
  missed := {k | k ∈ missed}

theorem ofMap_consistent_iff {m : AList fun _ : κ => ν} {missed : Finset κ} :
    (ofMap m missed).Consistent ↔ ∀ k ∈ m, k ∉ missed := Set.disjoint_left

/-- A map beside an empty list is what forgetting leaves. -/
theorem consistent_ofMap_empty (m : AList fun _ : κ => ν) : (ofMap m ∅).Consistent := by
  have hforget : ofMap m ∅ = (ofMap m ∅).forget := by
    rw [forget, ofMap]
    simp
  rw [hforget]
  exact consistent_forget _

theorem disjoint_keys_iff {l : List (κ × ν)} {missed : Set κ} :
    Disjoint {k | ∃ e ∈ l, e.1 = k} missed ↔ ∀ e ∈ l, e.1 ∉ missed := by
  rw [Set.disjoint_left]
  constructor
  · intro h e he
    exact h ⟨e, he, rfl⟩
  · rintro h k ⟨e, he, rfl⟩
    exact h e he

variable [DecidableEq κ]

theorem ofMap_load (m : AList fun _ : κ => ν) (missed : Finset κ) (l : List (κ × ν)) :
    ofMap (load m l) missed = (ofMap m missed).learn {k | ∃ e ∈ l, e.1 = k} ∅ := by
  rw [learn, Set.union_empty, ofMap, ofMap]
  congr 1
  ext k
  exact mem_load

theorem ofMap_load_insert (m : AList fun _ : κ => ν) (missed : Finset κ) (l : List (κ × ν))
    (k : κ) :
    ofMap (load m l) (insert k missed) = (ofMap m missed).learn {k | ∃ e ∈ l, e.1 = k} {k} := by
  rw [learn, ofMap, ofMap]
  congr 1
  · ext k'
    exact mem_load
  · ext k'
    simp

/-- Loading entries keeps the cache consistent exactly if none of them was missed. -/
theorem consistent_load_iff {m : AList fun _ : κ => ν} {missed : Finset κ}
    (h : (ofMap m missed).Consistent) (l : List (κ × ν)) :
    (ofMap (load m l) missed).Consistent ↔ ∀ e ∈ l, e.1 ∉ missed := by
  rw [ofMap_load, consistent_learn_iff h, disjoint_keys_iff]
  exact and_iff_left (Set.disjoint_empty _)

/-- The same when a key is remembered afterwards, which must not have been loaded either. -/
theorem consistent_load_insert_iff {m : AList fun _ : κ => ν} {missed : Finset κ}
    (h : (ofMap m missed).Consistent) (l : List (κ × ν)) (k : κ) :
    (ofMap (load m l) (insert k missed)).Consistent ↔
      (∀ e ∈ l, e.1 ∉ missed) ∧ k ∉ load m l := by
  have hremember : Disjoint ((ofMap m missed).known ∪ {k | ∃ e ∈ l, e.1 = k}) {k} ↔
      k ∉ load m l := by
    rw [Set.disjoint_singleton_right, mem_load]
    rfl
  rw [ofMap_load_insert, consistent_learn_iff h, disjoint_keys_iff, hremember]
  rfl

/-! ### Over something that does not change -/

/-- What the map knows holds, and what was missed is absent. -/
structure Settled (Holds : κ → ν → Prop) (Absent : κ → Prop) (m : AList fun _ : κ => ν)
    (missed : Finset κ) : Prop where
  known : ∀ k v, m.lookup k = some v → Holds k v
  missed : ∀ k ∈ missed, Absent k

variable {Holds : κ → ν → Prop} {Absent : κ → Prop} {m : AList fun _ : κ => ν} {missed : Finset κ}

theorem settled_empty : Settled Holds Absent (∅ : AList fun _ : κ => ν) ∅ :=
  ⟨fun k v h => absurd h (by simp), fun k h => absurd h (Finset.notMem_empty k)⟩

/-- What is known or missed may be asked for less. -/
theorem Settled.mono {Holds' : κ → ν → Prop} {Absent' : κ → Prop}
    (h : Settled Holds Absent m missed) (hholds : ∀ k v, Holds k v → Holds' k v)
    (habsent : ∀ k, Absent k → Absent' k) : Settled Holds' Absent' m missed where
  known k v hlookup := hholds k v (h.known k v hlookup)
  missed k hk := habsent k (h.missed k hk)

/-- Only what holds is loaded. -/
theorem Settled.load (h : Settled Holds Absent m missed) {l : List (κ × ν)}
    (hl : ∀ e ∈ l, Holds e.1 e.2) : Settled Holds Absent (load m l) missed := by
  refine ⟨fun k v hlookup => ?_, h.missed⟩
  rcases lookup_load_cases hlookup with hmem | hold
  · exact hl (k, v) hmem
  · exact h.known k v hold

/-- Only what is absent is remembered as missed. -/
theorem Settled.remember (h : Settled Holds Absent m missed) {k : κ} (hk : Absent k) :
    Settled Holds Absent m (insert k missed) := by
  refine ⟨h.known, fun k' hk' => ?_⟩
  rcases Finset.mem_insert.mp hk' with rfl | hmem
  · exact hk
  · exact h.missed k' hmem

/-- Where nothing is missed, it does not matter what is absent. -/
theorem Settled.forget (h : Settled Holds Absent m missed) {Absent' : κ → Prop} :
    Settled Holds Absent' m ∅ :=
  ⟨h.known, fun k hk => absurd hk (Finset.notMem_empty k)⟩

end OfMap

end MissCache
