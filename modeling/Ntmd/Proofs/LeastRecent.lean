/-
The array of the cached pids is a least recently used set.

`update` puts its item in front of the others and cuts the deque at its size
(`mDeque_update`).  So the deque is always a sublist of the items of its history, the
most recently updated in front (`Recency.recents`), and while nothing is erased it is
the front of that list.
-/
import Mathlib.Data.List.Induction
import Ntmd.Lib.Recency
import Ntmd.Lib.Run
import Ntmd.Util.LRUArray

namespace Ntmd

open Recency Run

namespace LRUArray

variable {T : Type} [DecidableEq T]

/-- What a call does to the history of the items. -/
def Action.event : Action T → Event T
  | .update item => .use item
  | .erase item => .drop item
  | .clear => .dropAll

/-- The history of a list of calls, the last call in front. -/
def history (as : List (Action T)) : List (Event T) := (as.map Action.event).reverse

/-- The deque holds the items of its history, up to its size, by the time of their last update. -/
structure IsRecencySet (size : Nat) (as : List (Action T)) (a : LRUArray T) : Prop where
  length_le : a.mDeque.length ≤ size
  nodup : a.mDeque.Nodup
  /-- Nothing is held that was not updated since it was last erased, and since the last clear. -/
  updated : ∀ item ∈ a.mDeque, ∃ t, lastUse (history as) item = some t
  ordered : a.mDeque.Pairwise (Newer (history as))

/-- No item of the deque was last updated before this one. -/
def LeastRecent (as : List (Action T)) (a : LRUArray T) (item : T) : Prop :=
  item ∈ a.mDeque ∧ ∀ other ∈ a.mDeque, other ≠ item → Newer (history as) other item

/-- What an update does to an array that can hold something. -/
structure Updates (size : Nat) (as : List (Action T)) (a : LRUArray T) (item : T) : Prop where
  front : (a.update item).mDeque.head? = some item
  /-- The others stay, but for the least recent one when there was no room for a new item. -/
  others : ∀ other, other ≠ item → (other ∈ (a.update item).mDeque ↔ other ∈ a.mDeque ∧
    ¬ (a.mDeque.length = size ∧ item ∉ a.mDeque ∧ LeastRecent as a other))

/-! ### One call -/

/-- **An update moves its item to the front, and cuts the deque at its size.** -/
theorem mDeque_update {a : LRUArray T} (h : a.mDeque.length ≤ a.mSize) (item : T) :
    (a.update item).mDeque = (item :: a.mDeque.erase item).take a.mSize := by
  unfold update
  split
  · rename_i h0
    rw [h0, List.take_zero]
    exact List.eq_nil_of_length_eq_zero (by omega)
  · rename_i h0
    obtain ⟨n, hn⟩ := Nat.exists_eq_succ_of_ne_zero h0
    rw [hn, List.take_succ_cons]
    rw [hn] at h
    split
    · rename_i hdeque
      rw [hdeque, List.erase_nil, List.take_nil]
    · rename_i front rest hdeque
      have hlength : (front :: rest).length ≤ n + 1 := by rw [← hdeque]; exact h
      rw [hdeque]
      split
      · have herase : ((front :: rest).erase item).length ≤ (front :: rest).length :=
          List.length_erase_le
        dsimp only
        split
        · rename_i hfull
          rw [List.dropLast_eq_take, hfull, Nat.succ_sub_one]
        · rename_i hfull
          rw [List.take_of_length_le (by omega)]
      · rename_i hfront
        rw [Decidable.not_not.mp hfront, List.erase_cons_head, List.take_of_length_le, hdeque,
          Decidable.not_not.mp hfront]
        rw [List.length_cons] at hlength
        omega

theorem mSize_step (a : LRUArray T) (action : Action T) : (a.step action).mSize = a.mSize := by
  cases action with
  | update item =>
      rw [step, update]
      split
      · rfl
      · split
        · rfl
        · split
          · dsimp only
            split <;> rfl
          · rfl
  | erase _ => rfl
  | clear => rfl

omit [DecidableEq T] in
theorem history_append (as : List (Action T)) (action : Action T) :
    history (as ++ [action]) = action.event :: history as := by
  rw [history, List.map_append, List.reverse_append]
  rfl

/-- What the calls keep: the size, and the items in the order of their history. -/
structure RecencyInv (size : Nat) (as : List (Action T)) (a : LRUArray T) : Prop where
  size_eq : a.mSize = size
  length_le : a.mDeque.length ≤ size
  sublist : a.mDeque.Sublist (recents (history as))

variable {size : Nat} {as : List (Action T)} {a : LRUArray T}

theorem RecencyInv.update_eq (h : RecencyInv size as a) (item : T) :
    (a.update item).mDeque = (item :: a.mDeque.erase item).take size := by
  have hlength := h.length_le
  rw [← h.size_eq] at hlength
  rw [mDeque_update hlength, h.size_eq]

theorem RecencyInv.step (h : RecencyInv size as a) (action : Action T) :
    RecencyInv size (as ++ [action]) (a.step action) := by
  refine ⟨(mSize_step a action).trans h.size_eq, ?_, ?_⟩
  · cases action with
    | update _ =>
        rw [LRUArray.step, h.update_eq]
        exact List.length_take_le _ _
    | erase _ => exact Nat.le_trans List.length_erase_le h.length_le
    | clear => exact Nat.zero_le _
  · rw [history_append]
    cases action with
    | update item =>
        rw [LRUArray.step, h.update_eq]
        exact (List.take_sublist _ _).trans ((h.sublist.erase item).cons_cons item)
    | erase item => exact h.sublist.erase item
    | clear => exact List.nil_sublist _

/-- A run, by its last call. -/
theorem recencyInv_run (size : Nat) (as : List (Action T)) :
    RecencyInv size as (exec step (init size) as) := by
  induction as using List.reverseRecOn with
  | nil => exact ⟨rfl, Nat.zero_le _, List.nil_sublist _⟩
  | append_singleton as action ih =>
      rw [exec_append]
      exact ih.step action

theorem RecencyInv.isRecencySet (h : RecencyInv size as a) : IsRecencySet size as a where
  length_le := h.length_le
  nodup := (nodup_recents _).sublist h.sublist
  updated _ hitem := mem_recents.mp (h.sublist.subset hitem)
  ordered := (pairwise_recents _).sublist h.sublist

/-- The item at the back is the least recent one. -/
theorem IsRecencySet.leastRecent_iff (h : IsRecencySet size as a) {others : List T} {back : T}
    (hdeque : a.mDeque = others ++ [back]) (item : T) : LeastRecent as a item ↔ item = back := by
  have hordered : ∀ other ∈ others, Newer (history as) other back := by
    have hpairwise := h.ordered
    rw [hdeque, List.pairwise_append] at hpairwise
    exact fun other hother => hpairwise.2.2 other hother back (List.mem_singleton_self back)
  have hmem : ∀ other, other ∈ a.mDeque ↔ other ∈ others ∨ other = back := by
    intro other
    rw [hdeque, List.mem_append, List.mem_singleton]
  constructor
  · rintro ⟨hitem, hleast⟩
    rcases (hmem item).mp hitem with hothers | hback
    · have hnewer := hordered item hothers
      exact absurd (hleast back ((hmem back).mpr (.inr rfl)) hnewer.ne.symm) hnewer.asymm
    · exact hback
  · rintro rfl
    refine ⟨(hmem item).mpr (.inr rfl), fun other hother hne => ?_⟩
    rcases (hmem other).mp hother with hothers | hback
    · exact hordered other hothers
    · exact absurd hback hne

theorem RecencyInv.updates (h : RecencyInv size as a) (hsize : 0 < size) (item : T) :
    Updates size as a item where
  front := head?_update (by rw [h.size_eq]; omega) item
  others other hother := by
    obtain ⟨n, hn⟩ := Nat.exists_eq_succ_of_ne_zero (Nat.pos_iff_ne_zero.mp hsize)
    have hlength := h.length_le
    have hset := h.isRecencySet
    rw [h.update_eq, hn, List.take_succ_cons, List.mem_cons, or_iff_right hother]
    by_cases hfull : a.mDeque.length = n.succ ∧ item ∉ a.mDeque
    · have hne : a.mDeque ≠ [] := by
        intro hnil
        rw [hnil, List.length_nil] at hfull
        exact absurd hfull.1 (Nat.succ_ne_zero n).symm
      have hdeque := (List.dropLast_concat_getLast hne).symm
      have hleast := hset.leastRecent_iff hdeque other
      have hcut : (a.mDeque.erase item).take n = a.mDeque.dropLast := by
        rw [List.erase_of_not_mem hfull.2, List.dropLast_eq_take, hfull.1, Nat.succ_sub_one]
      have hmem : other ∈ a.mDeque ↔ other ∈ a.mDeque.dropLast ∨ other = a.mDeque.getLast hne := by
        conv_lhs => rw [hdeque]
        rw [List.mem_append, List.mem_singleton]
      have hback : a.mDeque.getLast hne ∉ a.mDeque.dropLast := by
        have hnodup := hset.nodup
        rw [hdeque, List.nodup_append] at hnodup
        exact fun hin => hnodup.2.2 _ hin _ (List.mem_singleton_self _) rfl
      rw [hcut, hleast]
      constructor
      · intro hin
        exact ⟨hmem.mpr (.inl hin), fun hevict => hback (hevict.2.2 ▸ hin)⟩
      · rintro ⟨hin, hkept⟩
        exact (hmem.mp hin).resolve_right fun heq => hkept ⟨hfull.1, hfull.2, heq⟩
    · have hroom : (a.mDeque.erase item).length ≤ n := by
        by_cases hitem : item ∈ a.mDeque
        · rw [List.length_erase_of_mem hitem]
          omega
        · have hne : a.mDeque.length ≠ n.succ := fun heq => hfull ⟨heq, hitem⟩
          rw [List.erase_of_not_mem hitem]
          omega
      rw [List.take_of_length_le hroom, List.mem_erase_of_ne hother]
      exact ⟨fun hmem => ⟨hmem, fun hevict => hfull ⟨hevict.1, hevict.2.1⟩⟩, And.left⟩

/-- What updates alone keep: the deque is the front of the recent items. -/
theorem mDeque_run_updates (size : Nat) (items : List T) :
    (exec step (init size) (items.map .update)).mDeque = items.reverse.eraseDups.take size := by
  have hrun : (exec step (init size) (items.map .update)).mDeque =
      (recents (history (items.map Action.update))).take size := by
    induction items using List.reverseRecOn with
    | nil => exact List.take_nil.symm
    | append_singleton items item ih =>
        have hinv := recencyInv_run size (items.map Action.update)
        rw [List.map_append, exec_append, List.map_singleton, exec_cons, exec_nil, step,
          hinv.update_eq, ih, history_append]
        cases size with
        | zero => rw [List.take_zero, List.take_zero]
        | succ n =>
            rw [List.take_succ_cons, take_erase_take]
            rfl
  rw [hrun, history, List.map_map, ← List.map_reverse, ← recents_uses]
  rfl

/-- **The array is a least recently used set**, after every list of calls. -/
theorem run_isRecencySet :
    (∀ (size : Nat) (as : List (Action T)),
      IsRecencySet size as (exec step (init size) as) ∧
        (0 < size → ∀ item, Updates size as (exec step (init size) as) item)) ∧
    ∀ (size : Nat) (items : List T),
      (exec step (init size) (items.map .update)).mDeque =
        items.reverse.eraseDups.take size :=
  ⟨fun size as => ⟨(recencyInv_run size as).isRecencySet,
    fun hsize item => (recencyInv_run size as).updates hsize item⟩, mDeque_run_updates⟩

end LRUArray

end Ntmd
