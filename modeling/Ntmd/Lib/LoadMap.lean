/-
Maps filled from a list of entries, the last one of a key winning.

`load` is what a loop of `m[key] = value` leaves behind.  Its value at a key is
decided by the last entry with that key (`lookup_load`), and for most purposes it
is enough that a value found was either loaded or there before.
-/
import Mathlib.Data.List.AList

namespace LoadMap

variable {κ ν : Type} [DecidableEq κ]

/-- The map after the entries were written into it, one after the other. -/
def load (m : AList fun _ : κ => ν) (l : List (κ × ν)) : AList fun _ : κ => ν :=
  l.foldl (fun m e => m.insert e.1 e.2) m

@[simp] theorem load_nil (m : AList fun _ : κ => ν) : load m [] = m := rfl

@[simp] theorem load_cons (m : AList fun _ : κ => ν) (e : κ × ν) (l : List (κ × ν)) :
    load m (e :: l) = load (m.insert e.1 e.2) l := rfl

theorem load_append (m : AList fun _ : κ => ν) (l l' : List (κ × ν)) :
    load m (l ++ l') = load (load m l) l' := List.foldl_append

theorem mem_load {k : κ} : ∀ {l : List (κ × ν)} {m : AList fun _ : κ => ν},
    k ∈ load m l ↔ k ∈ m ∨ ∃ e ∈ l, e.1 = k := by
  intro l
  induction l with
  | nil => intro m; simp
  | cons e l ih =>
      intro m
      rw [load_cons, ih, AList.mem_insert, List.exists_mem_cons_iff, eq_comm (a := k), or_assoc,
        or_left_comm]

/-- The last entry with a key. -/
def last (l : List (κ × ν)) (k : κ) : Option ν := (l.reverse.find? fun e => e.1 = k).map Prod.snd

theorem last_append (l l' : List (κ × ν)) (k : κ) :
    last (l ++ l') k = (last l' k).or (last l k) := by
  rw [last, last, last, List.reverse_append, List.find?_append]
  cases l'.reverse.find? fun e => e.1 = k <;> rfl

theorem last_cons (e : κ × ν) (l : List (κ × ν)) (k : κ) :
    last (e :: l) k = (last l k).or (if e.1 = k then some e.2 else none) := by
  rw [show e :: l = [e] ++ l from rfl, last_append]
  by_cases he : e.1 = k <;> simp [last, he]

/-- The last entry is found before or after its value is mapped. -/
theorem last_map {ν' : Type} (f : ν → ν') (k : κ) :
    ∀ l : List (κ × ν), last (l.map fun e => (e.1, f e.2)) k = (last l k).map f := by
  intro l
  induction l with
  | nil => rfl
  | cons e l ih =>
      rw [List.map_cons, last_cons, last_cons, ih]
      cases last l k with
      | some v => rfl
      | none => by_cases he : e.1 = k <;> simp [he]

/-- **The last entry of a key wins**, and a key without entries keeps its value. -/
theorem lookup_load {k : κ} : ∀ {l : List (κ × ν)} {m : AList fun _ : κ => ν},
    (load m l).lookup k = (last l k).or (m.lookup k) := by
  intro l
  induction l with
  | nil => intro m; rfl
  | cons e l ih =>
      intro m
      rw [load_cons, ih, last_cons, Option.or_assoc]
      congr 1
      by_cases he : e.1 = k
      · rw [← he, AList.lookup_insert]
        simp
      · rw [AList.lookup_insert_ne (fun h => he h.symm)]
        simp [he]

theorem mem_of_last {l : List (κ × ν)} {k : κ} {v : ν} (h : last l k = some v) : (k, v) ∈ l := by
  obtain ⟨e, he, rfl⟩ := Option.map_eq_some_iff.mp h
  have hk : e.1 = k := by simpa using List.find?_some he
  rw [← hk]
  exact List.mem_reverse.mp (List.mem_of_find?_eq_some he)

theorem last_eq_none_iff {l : List (κ × ν)} {k : κ} : last l k = none ↔ ∀ e ∈ l, e.1 ≠ k := by
  simp [last]

/-- An entry whose key has no other value is found. -/
theorem last_eq_some {l : List (κ × ν)} {k : κ} {v : ν} (hmem : (k, v) ∈ l)
    (h : ∀ w, (k, w) ∈ l → w = v) : last l k = some v := by
  cases hlast : last l k with
  | none => exact absurd rfl (last_eq_none_iff.mp hlast _ hmem)
  | some w => rw [h w (mem_of_last hlast)]

/-- A value found was loaded, or it was there before and its key was not loaded. -/
theorem lookup_load_cases {l : List (κ × ν)} {m : AList fun _ : κ => ν} {k : κ} {v : ν}
    (h : (load m l).lookup k = some v) : (k, v) ∈ l ∨ m.lookup k = some v := by
  rw [lookup_load] at h
  cases hlast : last l k with
  | some w =>
      rw [hlast, Option.some_or, Option.some.injEq] at h
      exact Or.inl (mem_of_last (h ▸ hlast))
  | none =>
      rw [hlast, Option.none_or] at h
      exact Or.inr h

end LoadMap
