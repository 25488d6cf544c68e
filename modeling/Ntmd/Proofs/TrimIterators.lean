/-
The iterators of `trim`.

The second loop moves its iterator before it looks, so it needs a text that is not empty;
on any other text the iterators meet inside of it, and what is between them is what `trim`
is taken to return elsewhere (`trimIterators_eq`).  That is the longest part of the text
without white space at its ends (`isTrimmed_trim`).
-/
import Ntmd.Util.StringUtil

namespace Ntmd

open Bytes

/-! ### Where the iterators stop -/

theorem trimStart_eq (s : Bytes) : ∀ start ≤ s.length,
    trimStart s start = .ok (start + ((s.drop start).takeWhile isSpace).length) := by
  intro start
  -- The distance to the end of the text is what the loop runs down.
  induction hn : s.length - start generalizing start with
  | zero =>
      intro hle
      have hend : start = s.length := by omega
      rw [trimStart, if_pos hend, hend, List.drop_length]
      rfl
  | succ n ih =>
      intro hle
      have hlt : start < s.length := by omega
      have hne : start ≠ s.length := by omega
      rw [trimStart, if_neg hne, List.drop_eq_getElem_cons hlt]
      split
      · rename_i hnone
        rw [List.getElem?_eq_getElem hlt] at hnone
        exact absurd hnone (by simp)
      · rename_i c hc
        rw [List.getElem?_eq_getElem hlt, Option.some.injEq] at hc
        rw [hc]
        by_cases hspace : isSpace c = true
        · rw [if_pos hspace, List.takeWhile_cons_of_pos hspace, ih (start + 1) (by omega) hlt,
            List.length_cons, Nat.add_right_comm, Nat.add_assoc]
        · rw [if_neg hspace, List.takeWhile_cons_of_neg hspace]
          rfl

/-- The second loop keeps what `trimEnd` counts, seen from the first iterator. -/
theorem trimBack_eq {pad kept : Bytes} : ∀ n, n + 1 ≤ kept.length →
    ∃ stop, trimBack (pad ++ kept) pad.length (pad.length + (n + 1)) = .ok stop ∧
      stop + 1 = pad.length + trimEnd kept (n + 1) := by
  intro n
  induction n with
  | zero =>
      intro _
      refine ⟨pad.length, ?_, rfl⟩
      rw [← Nat.add_assoc, Nat.add_zero, trimBack, if_neg (Nat.lt_irrefl _)]
  | succ n ih =>
      intro hn
      have hlt : pad.length < pad.length + (n + 1) := by omega
      have hget : (pad ++ kept)[pad.length + (n + 1)]? = some kept[n + 1] := by
        rw [List.getElem?_append_right (by omega), Nat.add_sub_cancel_left,
          List.getElem?_eq_getElem hn]
      have hlast : kept.getD (n + 1) 0 = kept[n + 1] := by
        rw [List.getD_eq_getElem?_getD, List.getElem?_eq_getElem hn, Option.getD_some]
      rw [← Nat.add_assoc, trimBack, if_pos hlt, trimEnd, hlast]
      simp only [hget]
      split
      · exact ih (by omega)
      · exact ⟨_, rfl, by omega⟩

theorem trimEnd_le (s : Bytes) : ∀ n, trimEnd s n ≤ n := by
  intro n
  induction n with
  | zero => exact Nat.le_refl 0
  | succ n ih =>
      cases n with
      | zero => exact Nat.le_refl 1
      | succ n =>
          rw [trimEnd]
          split
          · omega
          · exact Nat.le_refl _

/-- The second loop on a text that has a character to go back to. -/
theorem trimBack_of_ne_nil {pad kept : Bytes} (h : pad ++ kept ≠ []) :
    ∃ stop, trimBack (pad ++ kept) pad.length (pad ++ kept).length = .ok stop ∧
      stop + 1 = pad.length + trimEnd kept kept.length := by
  cases kept with
  | nil =>
      -- All of it is white space: the loop ends in front of where it began.
      rw [List.append_nil] at h ⊢
      obtain ⟨n, hn⟩ := Nat.exists_eq_succ_of_ne_zero (mt List.eq_nil_of_length_eq_zero h)
      refine ⟨n, ?_, hn.symm⟩
      rw [hn, trimBack, if_neg (by omega)]
  | cons c rest =>
      rw [List.length_append, List.length_cons]
      exact trimBack_eq rest.length (Nat.le_refl _)

/-- **On a text that is not empty the iterators stay inside of it**, and `trim` returns what is
between them. -/
theorem trimIterators_eq {s : Bytes} (h : s ≠ []) : trimIterators s = .ok (trim s) := by
  have hs : s.takeWhile isSpace ++ s.dropWhile isSpace = s := List.takeWhile_append_dropWhile
  have hstart : trimStart s 0 = .ok (s.takeWhile isSpace).length := by
    rw [trimStart_eq s 0 (Nat.zero_le _), Nat.zero_add, List.drop_zero]
  rw [← hs] at h
  obtain ⟨stop, hback, hstop⟩ := trimBack_of_ne_nil h
  have hle := trimEnd_le (s.dropWhile isSpace) (s.dropWhile isSpace).length
  have hlength := congrArg List.length hs
  rw [List.length_append] at hlength
  rw [hs] at hback
  rw [trimIterators, hstart]
  simp only [bind, Except.bind, hback]
  rw [if_pos ⟨by omega, by omega⟩, hstop]
  calc Except.ok ((s.take ((s.takeWhile isSpace).length +
        trimEnd (s.dropWhile isSpace) (s.dropWhile isSpace).length)).drop
          (s.takeWhile isSpace).length)
      = Except.ok ((s.takeWhile isSpace ++ (s.dropWhile isSpace).take
          (trimEnd (s.dropWhile isSpace) (s.dropWhile isSpace).length)).drop
            (s.takeWhile isSpace).length) := by
        rw [← List.take_length_add_append, hs]
    _ = Except.ok (trim s) := by
        rw [List.drop_left]
        rfl

/-! ### What is between them -/

/-- The text begins and ends with a character that is no white space. -/
structure HasEnds (t : Bytes) : Prop where
  first : ∃ c, t.head? = some c ∧ isSpace c = false
  last : ∃ c, t.getLast? = some c ∧ isSpace c = false

/-- The longest part of a text that has such ends, or nothing. -/
structure IsTrimmed (s t : Bytes) : Prop where
  part : t <:+: s
  ends : t ≠ [] → HasEnds t
  longest : ∀ u, u <:+: s → HasEnds u → u.length ≤ t.length

/-- What is taken away is white space. -/
theorem trim_append (s : Bytes) : ∃ pre post, s = pre ++ (trim s ++ post) ∧
    (∀ c ∈ pre, isSpace c = true) ∧ ∀ c ∈ post, isSpace c = true := by
  refine ⟨s.takeWhile isSpace, (s.dropWhile isSpace).rtakeWhile isSpace, ?_,
    fun c hc => List.mem_takeWhile_imp hc, fun c hc => List.mem_rtakeWhile_imp hc⟩
  rw [trim_eq, List.rdropWhile_append_rtakeWhile, List.takeWhile_append_dropWhile]

theorem hasEnds_trim {s : Bytes} (h : trim s ≠ []) : HasEnds (trim s) := by
  constructor
  · have hhead := List.head?_eq_some_head h
    exact ⟨_, hhead, head?_trim hhead⟩
  · refine ⟨_, List.getLast?_eq_some_getLast h, ?_⟩
    have hlast := List.rdropWhile_last_not isSpace (s.dropWhile isSpace) (by rwa [← trim_eq])
    simpa only [← trim_eq, Bool.not_eq_true] using hlast

/-- White space around a text is around each part of it that has ends. -/
theorem length_le_of_hasEnds {pre t post u : Bytes} (hpre : ∀ c ∈ pre, isSpace c = true)
    (hpost : ∀ c ∈ post, isSpace c = true) (hu : u <:+: pre ++ (t ++ post)) (h : HasEnds u) :
    u.length ≤ t.length := by
  obtain ⟨a, b, hab⟩ := hu
  obtain ⟨first, hfirst, hfirstSpace⟩ := h.first
  obtain ⟨last, hlast, hlastSpace⟩ := h.last
  have hlength := congrArg List.length hab
  simp only [List.length_append] at hlength
  have hne : 0 < u.length := List.length_pos_iff.mpr fun hnil => by simp [hnil] at hfirst
  -- The first character of the part is not in front of the text.
  have hfront : pre.length ≤ a.length := by
    by_contra hlt
    have hget : (pre ++ (t ++ post))[a.length]? = some first := by
      rw [← hab, List.append_assoc, List.getElem?_append_right (Nat.le_refl _), Nat.sub_self,
        List.getElem?_append_left hne, ← List.head?_eq_getElem?, hfirst]
    rw [List.getElem?_append_left (by omega)] at hget
    rw [hpre _ (List.mem_of_getElem? hget)] at hfirstSpace
    exact Bool.noConfusion hfirstSpace
  -- Its last character is not behind it.
  have hback : post.length ≤ b.length := by
    by_contra hlt
    have hget : (pre ++ (t ++ post))[a.length + (u.length - 1)]? = some last := by
      rw [← hab, List.append_assoc, List.getElem?_append_right (by omega), Nat.add_sub_cancel_left,
        List.getElem?_append_left (by omega), ← List.getLast?_eq_getElem?, hlast]
    rw [← List.append_assoc, List.getElem?_append_right (by rw [List.length_append]; omega)] at hget
    rw [hpost _ (List.mem_of_getElem? hget)] at hlastSpace
    exact Bool.noConfusion hlastSpace
  omega

theorem isTrimmed_trim (s : Bytes) : IsTrimmed s (trim s) := by
  obtain ⟨pre, post, hs, hpre, hpost⟩ := trim_append s
  refine ⟨⟨pre, post, ?_⟩, hasEnds_trim, fun u hu h => ?_⟩
  · rw [List.append_assoc, ← hs]
  · rw [hs] at hu
    exact length_le_of_hasEnds hpre hpost hu h

theorem trim_eq_nil_iff {s : Bytes} : trim s = [] ↔ ∀ c ∈ s, isSpace c = true := by
  rw [trim_eq, List.rdropWhile_eq_nil_iff]
  constructor
  · intro h c hc
    rw [← List.takeWhile_append_dropWhile (p := isSpace) (l := s)] at hc
    rcases List.mem_append.mp hc with hmem | hmem
    · exact List.mem_takeWhile_imp hmem
    · exact h c hmem
  · exact fun h c hc => h c ((List.dropWhile_suffix _).subset hc)

/-- Without a character the second loop leaves the text at its first step. -/
theorem trimIterators_empty : trimIterators [] = .error .moved := by
  rw [trimIterators, trimStart]
  rfl

/-- The iterators stay inside of the text, and what is between them is the longest part of it. -/
def TrimsInside (s : Bytes) : Prop := ∃ t, trimIterators s = .ok t ∧ IsTrimmed s t

/-- Another call on the result returns it again. -/
def TrimsTwice (s : Bytes) : Prop := ∃ t, trimIterators s = .ok t ∧ trimIterators t = .ok t

/-- **When `trim` stays inside of its text**, and when another call does so as well. -/
theorem trimsInside_iff (s : Bytes) :
    (TrimsInside s ↔ s ≠ []) ∧ (TrimsTwice s ↔ ∃ c ∈ s, isSpace c = false) := by
  constructor
  · constructor
    · rintro ⟨t, ht, -⟩ rfl
      rw [trimIterators_empty] at ht
      exact absurd ht (by simp)
    · exact fun h => ⟨trim s, trimIterators_eq h, isTrimmed_trim s⟩
  · have htwice : (∃ c ∈ s, isSpace c = false) ↔ trim s ≠ [] := by
      rw [ne_eq, trim_eq_nil_iff]
      simp
    rw [htwice]
    constructor
    · rintro ⟨t, ht, htt⟩ htrim
      have hne : s ≠ [] := by
        rintro rfl
        rw [trimIterators_empty] at ht
        exact absurd ht (by simp)
      rw [trimIterators_eq hne, htrim] at ht
      rw [← Except.ok.inj ht, trimIterators_empty] at htt
      exact absurd htt (by simp)
    · intro htrim
      have hne : s ≠ [] := by
        rintro rfl
        exact htrim rfl
      exact ⟨trim s, trimIterators_eq hne, by rw [trimIterators_eq htrim, trim_trim]⟩

/-- The value of `interface=` and the first word of a request that begins with a space. -/
theorem trimIterators_nil :
    ((ascii "interface=").dropWhile (· != 61)).drop 1 = [] ∧
      (split (ascii " live"))[0]? = some [] ∧
      trimIterators [] = .error .moved ∧ ¬ TrimsInside [] := by
  refine ⟨by decide, by decide, trimIterators_empty, fun h => ?_⟩
  obtain ⟨t, ht, -⟩ := h
  rw [trimIterators_empty] at ht
  exact absurd ht (by simp)

end Ntmd
