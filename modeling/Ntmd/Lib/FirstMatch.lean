/-
The first element of a list with a property, and the elements looked at to find it.

A search from front to back looks at an element exactly if none before it has the
property (`Reached`).  `IsFirst` says of an answer that it is the first match, or none
when there is none.  The lemmas follow the search: over a list taken apart at its
front, over two lists searched one after the other, and over a list from which
elements without the property were left out.
-/
import Mathlib.Data.List.Basic

namespace FirstMatch

variable {α : Type} {p : α → Prop}

/-- The element is in the list, and nothing before it has the property. -/
def Reached (p : α → Prop) (l : List α) (a : α) : Prop :=
  ∃ before after, l = before ++ a :: after ∧ ∀ b ∈ before, ¬ p b

/-- The first element with the property, none when no element has it. -/
def IsFirst (p : α → Prop) (l : List α) : Option α → Prop
  | some a => p a ∧ Reached p l a
  | none => ∀ a ∈ l, ¬ p a

theorem Reached.mem {l : List α} {a : α} (h : Reached p l a) : a ∈ l := by
  obtain ⟨before, after, rfl, -⟩ := h
  simp

theorem not_reached_nil {a : α} : ¬ Reached p [] a := fun h => absurd h.mem (by simp)

theorem reached_cons {b : α} {l : List α} {a : α} :
    Reached p (b :: l) a ↔ a = b ∨ (¬ p b ∧ Reached p l a) := by
  constructor
  · rintro ⟨before, after, heq, hbefore⟩
    cases before with
    | nil => exact Or.inl (List.cons.inj heq).1.symm
    | cons c before =>
        obtain ⟨rfl, rfl⟩ := List.cons.inj heq
        exact Or.inr ⟨hbefore b List.mem_cons_self,
          before, after, rfl, fun d hd => hbefore d (List.mem_cons_of_mem _ hd)⟩
  · rintro (rfl | ⟨hb, before, after, rfl, hbefore⟩)
    · exact ⟨[], l, rfl, by simp⟩
    · exact ⟨b :: before, after, rfl, List.forall_mem_cons.mpr ⟨hb, hbefore⟩⟩

theorem reached_append {l' : List α} {a : α} : ∀ {l : List α},
    Reached p (l ++ l') a ↔ Reached p l a ∨ ((∀ b ∈ l, ¬ p b) ∧ Reached p l' a) := by
  intro l
  induction l with
  | nil => simp [not_reached_nil]
  | cons b l ih =>
      rw [List.cons_append, reached_cons, reached_cons, ih, List.forall_mem_cons]
      tauto

/-- Elements without the property can be left out before the search. -/
theorem reached_filter {q : α → Bool} {a : α} : ∀ {l : List α},
    (∀ b ∈ l, q b = false → ¬ p b) →
      (Reached p (l.filter q) a ↔ Reached p l a ∧ q a = true) := by
  intro l
  induction l with
  | nil => intro _; simp [not_reached_nil]
  | cons b l ih =>
      intro hout
      obtain ⟨hb, hl⟩ := List.forall_mem_cons.mp hout
      cases hq : q b with
      | true =>
          rw [List.filter_cons_of_pos hq, reached_cons, reached_cons, ih hl]
          constructor
          · rintro (rfl | ⟨hnot, hreached, ha⟩)
            · exact ⟨Or.inl rfl, hq⟩
            · exact ⟨Or.inr ⟨hnot, hreached⟩, ha⟩
          · rintro ⟨rfl | ⟨hnot, hreached⟩, ha⟩
            · exact Or.inl rfl
            · exact Or.inr ⟨hnot, hreached, ha⟩
      | false =>
          rw [List.filter_cons_of_neg (by simp [hq]), reached_cons, ih hl]
          constructor
          · rintro ⟨hreached, ha⟩
            exact ⟨Or.inr ⟨hb hq, hreached⟩, ha⟩
          · rintro ⟨rfl | ⟨-, hreached⟩, ha⟩
            · exact absurd ha (by simp [hq])
            · exact ⟨hreached, ha⟩

theorem isFirst_nil : IsFirst p ([] : List α) none := by simp [IsFirst]

theorem IsFirst.isSome_iff {l : List α} {o : Option α} (h : IsFirst p l o) :
    o.isSome = true ↔ ∃ a ∈ l, p a := by
  cases o with
  | some a => exact iff_of_true rfl ⟨a, h.2.mem, h.1⟩
  | none =>
      refine iff_of_false (by simp) ?_
      rintro ⟨a, ha, hp⟩
      exact h a ha hp

theorem isFirst_cons_of_pos {a : α} (h : p a) (l : List α) : IsFirst p (a :: l) (some a) :=
  ⟨h, reached_cons.mpr (Or.inl rfl)⟩

theorem IsFirst.cons_of_neg {b : α} {l : List α} {o : Option α} (h : IsFirst p l o) (hb : ¬ p b) :
    IsFirst p (b :: l) o := by
  cases o with
  | some a => exact ⟨h.1, reached_cons.mpr (Or.inr ⟨hb, h.2⟩)⟩
  | none => exact List.forall_mem_cons.mpr ⟨hb, h⟩

/-- What is found in the first list is found in both. -/
theorem IsFirst.append_left {l : List α} {a : α} (h : IsFirst p l (some a)) (l' : List α) :
    IsFirst p (l ++ l') (some a) := ⟨h.1, reached_append.mpr (Or.inl h.2)⟩

/-- When nothing is found in the first list, the second list decides. -/
theorem IsFirst.append_right {l l' : List α} {o : Option α} (h : IsFirst p l none)
    (h' : IsFirst p l' o) : IsFirst p (l ++ l') o := by
  cases o with
  | some a => exact ⟨h'.1, reached_append.mpr (Or.inr ⟨h, h'.2⟩)⟩
  | none => exact List.forall_mem_append.mpr ⟨h, h'⟩

/-- Leaving out elements without the property does not change what is found. -/
theorem isFirst_filter {q : α → Bool} {l : List α} (hout : ∀ b ∈ l, q b = false → ¬ p b)
    {o : Option α} : IsFirst p (l.filter q) o ↔ IsFirst p l o := by
  cases o with
  | some a =>
      refine and_congr_right fun hp => ?_
      rw [reached_filter hout, and_iff_left_iff_imp]
      intro hreached
      by_contra hq
      exact hout a hreached.mem (by simpa using hq) hp
  | none =>
      refine forall_congr' fun a => ?_
      rw [List.mem_filter]
      constructor
      · intro h ha hp
        by_cases hq : q a = true
        · exact h ⟨ha, hq⟩ hp
        · exact hout a ha (by simpa using hq) hp
      · intro h ha
        exact h ha.1

end FirstMatch
