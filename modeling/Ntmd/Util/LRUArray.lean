/-
The least recently used array of `util/LRUArray`: a deque with the most recently
updated item in front, and a size it never grows past.
-/
import Mathlib.Data.List.Nodup

namespace Ntmd

structure LRUArray (T : Type) where
  mDeque : List T
  mSize : Nat

namespace LRUArray

variable {T : Type} [DecidableEq T]

/-- Puts the item in front; a full deque drops its back element. -/
def update (a : LRUArray T) (item : T) : LRUArray T :=
  if a.mSize = 0 then a
  else
    match a.mDeque with
    | [] => { a with mDeque := [item] }
    | front :: rest =>
        if front ≠ item then
          -- `erase` takes out the item if it was cached further back.
          let deque := (front :: rest).erase item
          if deque.length = a.mSize then { a with mDeque := item :: deque.dropLast }
          else { a with mDeque := item :: deque }
        else a

def contains (a : LRUArray T) (item : T) : Bool := item ∈ a.mDeque

def erase (a : LRUArray T) (item : T) : LRUArray T := { a with mDeque := a.mDeque.erase item }

def clear (a : LRUArray T) : LRUArray T := { a with mDeque := [] }

/-- The calls that change an array. -/
inductive Action (T : Type)
  | update (item : T)
  | erase (item : T)
  | clear

def step (a : LRUArray T) : Action T → LRUArray T
  | .update item => a.update item
  | .erase item => a.erase item
  | .clear => a.clear

/-- The constructor. -/
def init (size : Nat) : LRUArray T := { mDeque := [], mSize := size }

/-! ### An item is cached once -/

theorem nodup_erase {a : LRUArray T} (h : a.mDeque.Nodup) (item : T) :
    (a.erase item).mDeque.Nodup := h.erase item

theorem nodup_update {a : LRUArray T} (h : a.mDeque.Nodup) (item : T) :
    (a.update item).mDeque.Nodup := by
  unfold update
  split
  · exact h
  · split
    · simp
    · rename_i front rest hdeque
      rw [hdeque] at h
      split
      · have hout : item ∉ (front :: rest).erase item := h.not_mem_erase
        dsimp only
        split
        · exact List.nodup_cons.mpr ⟨fun hmem => hout (List.dropLast_subset _ hmem),
            (h.erase item).sublist (List.dropLast_sublist _)⟩
        · exact List.nodup_cons.mpr ⟨hout, h.erase item⟩
      · rw [hdeque]
        exact h

/-- The item last updated is in front. -/
theorem head?_update {a : LRUArray T} (h : a.mSize ≠ 0) (item : T) :
    (a.update item).mDeque.head? = some item := by
  rw [update, if_neg h]
  split
  · rfl
  · rename_i front rest hdeque
    split
    · dsimp only
      split <;> rfl
    · rename_i heq
      rw [hdeque, List.head?_cons, Decidable.not_not.mp heq]

theorem mSize_foldl_erase : ∀ (items : List T) (a : LRUArray T),
    (items.foldl erase a).mSize = a.mSize := by
  intro items
  induction items with
  | nil => intro a; rfl
  | cons item items ih => intro a; exact ih (a.erase item)

/-- Erasing items one after the other leaves the others. -/
theorem mDeque_foldl_erase : ∀ (items : List T) {a : LRUArray T}, a.mDeque.Nodup →
    (items.foldl erase a).mDeque = a.mDeque.filter (· ∉ items) := by
  intro items
  induction items with
  | nil => intro a _; simp
  | cons item items ih =>
      intro a h
      rw [List.foldl_cons, ih (nodup_erase h item), erase, h.erase_eq_filter, List.filter_filter]
      refine List.filter_congr fun other _ => ?_
      rw [Bool.eq_iff_iff]
      simp only [Bool.and_eq_true, decide_eq_true_eq, bne_iff_ne, List.mem_cons, not_or, and_comm]

end LRUArray

end Ntmd
