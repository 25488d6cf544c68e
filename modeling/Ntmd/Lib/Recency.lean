/-
How recently the items of a cache were used.

A history is a list of events with the newest in front: an item is used, an item is
dropped, or all of them are.  `lastUse` is the time of an item's last use if nothing
has dropped the item since, and `recents` are the items that have one, the most
recently used in front.  A cache that forgets items keeps a sublist of `recents`, and
that alone makes it hold each item once and in the order of the times; one that is
cut at a capacity after each use holds the front of it (`take_erase_take`).
-/
import Mathlib.Data.List.Nodup

namespace Recency

variable {α : Type} [DecidableEq α]

inductive Event (α : Type)
  | use (a : α)
  | drop (a : α)
  | dropAll

/-- The time of the last use of an item that is still there, counted from the first event. -/
def lastUse : List (Event α) → α → Option Nat
  | [], _ => none
  | .use b :: h, a => if b = a then some h.length else lastUse h a
  | .drop b :: h, a => if b = a then none else lastUse h a
  | .dropAll :: _, _ => none

/-- The items that are still there, the most recently used one in front. -/
def recents : List (Event α) → List α
  | [] => []
  | .use a :: h => a :: (recents h).erase a
  | .drop a :: h => (recents h).erase a
  | .dropAll :: _ => []

/-- Both items are still there, and the first was used last. -/
def Newer (h : List (Event α)) (a b : α) : Prop :=
  ∃ s t, lastUse h a = some s ∧ lastUse h b = some t ∧ t < s

theorem Newer.ne {h : List (Event α)} {a b : α} (hab : Newer h a b) : a ≠ b := by
  rintro rfl
  obtain ⟨s, t, hs, ht, hlt⟩ := hab
  rw [Option.some.inj (hs.symm.trans ht)] at hlt
  exact Nat.lt_irrefl _ hlt

theorem Newer.asymm {h : List (Event α)} {a b : α} (hab : Newer h a b) : ¬ Newer h b a := by
  obtain ⟨s, t, hs, ht, hlt⟩ := hab
  rintro ⟨t', s', ht', hs', hlt'⟩
  rw [Option.some.inj (ht'.symm.trans ht), Option.some.inj (hs'.symm.trans hs)] at hlt'
  exact Nat.lt_asymm hlt hlt'

theorem lastUse_lt {a : α} : ∀ {h : List (Event α)} {t : Nat},
    lastUse h a = some t → t < h.length := by
  intro h
  induction h with
  | nil => intro t ht; exact absurd ht (by simp [lastUse])
  | cons e h ih =>
      intro t ht
      cases e with
      | use b =>
          rw [lastUse] at ht
          split at ht
          · rw [← Option.some.inj ht]
            exact Nat.lt_succ_self _
          · exact Nat.lt_succ_of_lt (ih ht)
      | drop b =>
          rw [lastUse] at ht
          split at ht
          · exact absurd ht (by simp)
          · exact Nat.lt_succ_of_lt (ih ht)
      | dropAll => exact absurd ht (by simp [lastUse])

theorem lastUse_use_of_ne {h : List (Event α)} {a b : α} (hne : b ≠ a) :
    lastUse (.use b :: h) a = lastUse h a := by rw [lastUse, if_neg hne]

theorem lastUse_drop_of_ne {h : List (Event α)} {a b : α} (hne : b ≠ a) :
    lastUse (.drop b :: h) a = lastUse h a := by rw [lastUse, if_neg hne]

theorem nodup_recents : ∀ h : List (Event α), (recents h).Nodup := by
  intro h
  induction h with
  | nil => exact List.nodup_nil
  | cons e h ih =>
      cases e with
      | use a => exact List.nodup_cons.mpr ⟨ih.not_mem_erase, ih.erase a⟩
      | drop a => exact ih.erase a
      | dropAll => exact List.nodup_nil

theorem mem_recents {a : α} : ∀ {h : List (Event α)},
    a ∈ recents h ↔ ∃ t, lastUse h a = some t := by
  intro h
  induction h with
  | nil => simp [recents, lastUse]
  | cons e h ih =>
      cases e with
      | use b =>
          rw [recents, lastUse, List.mem_cons, (nodup_recents h).mem_erase_iff]
          by_cases hb : b = a
          · simp [hb]
          · rw [if_neg hb, ← ih]
            simp [Ne.symm hb]
      | drop b =>
          rw [recents, lastUse, (nodup_recents h).mem_erase_iff]
          by_cases hb : b = a
          · simp [hb]
          · rw [if_neg hb, ← ih]
            simp [Ne.symm hb]
      | dropAll => simp [recents, lastUse]

/-- **The items are in the order of their times.** -/
theorem pairwise_recents : ∀ h : List (Event α), (recents h).Pairwise (Newer h) := by
  intro h
  induction h with
  | nil => exact List.Pairwise.nil
  | cons e h ih =>
      cases e with
      | use b =>
          have hne : ∀ a ∈ (recents h).erase b, b ≠ a := fun a ha hb =>
            (nodup_recents h).not_mem_erase (hb ▸ ha)
          refine List.pairwise_cons.mpr ⟨fun a ha => ?_, ?_⟩
          · obtain ⟨t, ht⟩ := mem_recents.mp (List.mem_of_mem_erase ha)
            refine ⟨h.length, t, ?_, ?_, lastUse_lt ht⟩
            · rw [lastUse, if_pos rfl]
            · rw [lastUse_use_of_ne (hne a ha), ht]
          · refine (ih.sublist List.erase_sublist).imp_of_mem fun {a a'} ha ha' haa' => ?_
            obtain ⟨s, t, hs, ht, hlt⟩ := haa'
            exact ⟨s, t, (lastUse_use_of_ne (hne a ha)).trans hs,
              (lastUse_use_of_ne (hne a' ha')).trans ht, hlt⟩
      | drop b =>
          have hne : ∀ a ∈ (recents h).erase b, b ≠ a := fun a ha hb =>
            (nodup_recents h).not_mem_erase (hb ▸ ha)
          refine (ih.sublist List.erase_sublist).imp_of_mem fun {a a'} ha ha' haa' => ?_
          obtain ⟨s, t, hs, ht, hlt⟩ := haa'
          exact ⟨s, t, (lastUse_drop_of_ne (hne a ha)).trans hs,
            (lastUse_drop_of_ne (hne a' ha')).trans ht, hlt⟩
      | dropAll => exact List.Pairwise.nil

/-! ### Uses alone -/

theorem eraseDups_filter (p : α → Bool) : ∀ l : List α,
    (l.filter p).eraseDups = l.eraseDups.filter p := by
  intro l
  -- The tail without the copies of its head is shorter, but no tail.
  induction hn : l.length using Nat.strongRecOn generalizing l with
  | ind n ih =>
      cases l with
      | nil => rfl
      | cons a l =>
          have hshort : (l.filter fun b => !b == a).length < n := by
            rw [← hn]
            exact Nat.lt_succ_of_le (List.length_filter_le _ _)
          have hrest := ih _ hshort _ rfl
          rw [List.eraseDups_cons, List.filter_cons, List.filter_cons]
          by_cases ha : p a = true
          · rw [if_pos ha, if_pos ha, List.eraseDups_cons, ← hrest, List.filter_filter,
              List.filter_filter]
            simp only [Bool.and_comm]
          · rw [if_neg ha, if_neg ha, ← hrest, List.filter_filter]
            congr 1
            refine List.filter_congr fun b _ => ?_
            by_cases hb : b = a
            · simp [hb, ha]
            · simp [hb]

/-- **After uses alone they are the items of the history, each at its newest use.** -/
theorem recents_uses : ∀ l : List α, recents (l.map .use) = l.eraseDups := by
  intro l
  induction l with
  | nil => rfl
  | cons a l ih =>
      rw [List.map_cons, recents, ih, List.eraseDups_cons, eraseDups_filter,
        (ih ▸ nodup_recents _ : l.eraseDups.Nodup).erase_eq_filter]
      rfl

/-- What a cut has left out does not come back by an erasure that makes room for one. -/
theorem take_erase_take (a : α) : ∀ (n : Nat) (l : List α),
    ((l.take (n + 1)).erase a).take n = (l.erase a).take n := by
  intro n
  induction n with
  | zero => intro l; rw [List.take_zero, List.take_zero]
  | succ n ih =>
      intro l
      cases l with
      | nil => rfl
      | cons b l =>
          rw [List.take_succ_cons]
          by_cases hb : b = a
          · rw [hb, List.erase_cons_head, List.erase_cons_head, List.take_take, Nat.min_self]
          · rw [List.erase_cons_tail (by simpa using hb), List.erase_cons_tail (by simpa using hb),
              List.take_succ_cons, List.take_succ_cons, ih]

end Recency
