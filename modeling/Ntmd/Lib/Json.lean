/-
JSON values, and which of them can be written down.

The texts of a value are its keys and its strings.  They are bytes, and a value can
be written only if all of them are UTF-8: `Valid` is that condition.  Keys are kept
in order and each once, as in a `std::map`, and `set` is an assignment through the
index operator, which makes an object of null.

`dump` is a writer of the compact form.  What is proved elsewhere is proved of every
writer that refuses what is not valid and nothing else, so the escapes it uses are
there to be run, not to be reasoned about.
-/
import Ntmd.Lib.Bytes

inductive Json
  | null
  | num (n : Int)
  | str (s : Bytes)
  | obj (fields : List (Bytes × Json))

/-- A string of bytes is the encoding of a list of characters. -/
def ValidUtf8 (s : Bytes) : Prop := s.toByteArray.IsValidUTF8

instance (s : Bytes) : Decidable (ValidUtf8 s) :=
  inferInstanceAs (Decidable s.toByteArray.IsValidUTF8)

namespace Json

open Bytes

/-! ### Objects -/

/-- The fields with one more, or with its value replaced. -/
def setField (k : Bytes) (v : Json) : List (Bytes × Json) → List (Bytes × Json)
  | [] => [(k, v)]
  | (k', v') :: fields =>
      if k = k' then (k, v) :: fields
      else if k < k' then (k, v) :: (k', v') :: fields
      else (k', v') :: setField k v fields

/-- `j[k] = v`; a value that is not an object is taken for null. -/
def set (j : Json) (k : Bytes) (v : Json) : Json :=
  match j with
  | obj fields => obj (setField k v fields)
  | _ => obj [(k, v)]

/-- `j[k]`, null when there is no such field. -/
def get (j : Json) (k : Bytes) : Json :=
  match j with
  | obj fields =>
      match fields.find? fun field => field.1 == k with
      | some field => field.2
      | none => null
  | _ => null

mutual

/-- The keys and the strings of a value. -/
def texts : Json → List Bytes
  | null => []
  | num _ => []
  | str s => [s]
  | obj fields => fieldTexts fields

def fieldTexts : List (Bytes × Json) → List Bytes
  | [] => []
  | (k, v) :: fields => k :: (v.texts ++ fieldTexts fields)

end

/-- Every text is UTF-8. -/
def Valid (j : Json) : Prop := ∀ s ∈ j.texts, ValidUtf8 s

instance (j : Json) : Decidable j.Valid :=
  inferInstanceAs (Decidable (∀ s ∈ j.texts, ValidUtf8 s))

/-! ### Writing -/

def escape (c : UInt8) : Bytes :=
  if c = 34 ∨ c = 92 then [92, c]
  else if c = 8 then [92, 98]
  else if c = 9 then [92, 116]
  else if c = 10 then [92, 110]
  else if c = 12 then [92, 102]
  else if c = 13 then [92, 114]
  else if c < 32 then [92, 117] ++ (hexPad 4 c.toNat).map toLower
  else [c]

def quote (s : Bytes) : Bytes := 34 :: s.flatMap escape ++ [34]

mutual

/-- The compact form, without a look at the texts. -/
def render : Json → Bytes
  | null => ascii "null"
  | num n => decimalInt n
  | str s => quote s
  | obj fields => 123 :: renderFields fields ++ [125]

def renderFields : List (Bytes × Json) → Bytes
  | [] => []
  | [(k, v)] => quote k ++ 58 :: v.render
  | (k, v) :: fields => quote k ++ 58 :: v.render ++ 44 :: renderFields fields

end

def dump (j : Json) : Option Bytes := if j.Valid then some j.render else none

/-- A writer fails on a text that is not UTF-8, and only then. -/
def Strict (write : Json → Option Bytes) : Prop := ∀ j, (write j).isSome = true ↔ j.Valid

theorem strict_dump : Strict dump := by
  intro j
  rw [dump]
  split
  · rename_i h
    simpa using h
  · rename_i h
    simpa using h

/-! ### The texts of an object -/

theorem mem_fieldTexts {s : Bytes} {fields : List (Bytes × Json)} :
    s ∈ fieldTexts fields ↔ ∃ field ∈ fields, s = field.1 ∨ s ∈ field.2.texts := by
  induction fields with
  | nil => simp [fieldTexts]
  | cons field fields ih =>
      obtain ⟨k, v⟩ := field
      rw [fieldTexts, List.mem_cons, List.mem_append, ih]
      simp only [List.mem_cons, exists_eq_or_imp, or_assoc]

theorem valid_obj {fields : List (Bytes × Json)} :
    (obj fields).Valid ↔ ∀ field ∈ fields, ValidUtf8 field.1 ∧ field.2.Valid := by
  simp only [Valid, texts, mem_fieldTexts]
  constructor
  · intro h field hfield
    exact ⟨h _ ⟨field, hfield, .inl rfl⟩, fun s hs => h s ⟨field, hfield, .inr hs⟩⟩
  · rintro h s ⟨field, hfield, rfl | hs⟩
    · exact (h field hfield).1
    · exact (h field hfield).2 s hs

@[simp] theorem valid_null : null.Valid := by simp [Valid, texts]

@[simp] theorem valid_num (n : Int) : (num n).Valid := by simp [Valid, texts]

@[simp] theorem valid_str {s : Bytes} : (str s).Valid ↔ ValidUtf8 s := by simp [Valid, texts]

theorem mem_of_mem_setField {k : Bytes} {v : Json} {field : Bytes × Json} :
    ∀ {fields : List (Bytes × Json)}, field ∈ setField k v fields →
      field = (k, v) ∨ field ∈ fields := by
  intro fields
  induction fields with
  | nil => simp [setField]
  | cons first fields ih =>
      obtain ⟨k', v'⟩ := first
      rw [setField]
      split
      · intro h
        rcases List.mem_cons.mp h with h | h
        · exact .inl h
        · exact .inr (List.mem_cons_of_mem _ h)
      · split
        · exact fun h => List.mem_cons.mp h
        · intro h
          rcases List.mem_cons.mp h with h | h
          · exact .inr (h ▸ List.mem_cons_self ..)
          · exact (ih h).imp_right (List.mem_cons_of_mem _)

theorem mem_setField_self (k : Bytes) (v : Json) (fields : List (Bytes × Json)) :
    (k, v) ∈ setField k v fields := by
  induction fields with
  | nil => simp [setField]
  | cons first fields ih =>
      rw [setField]
      split
      · exact List.mem_cons_self ..
      · split
        · exact List.mem_cons_self ..
        · exact List.mem_cons_of_mem _ ih

theorem mem_setField_of_ne {k : Bytes} {v : Json} {field : Bytes × Json} (hne : field.1 ≠ k) :
    ∀ {fields : List (Bytes × Json)}, field ∈ fields → field ∈ setField k v fields := by
  intro fields
  induction fields with
  | nil => simp
  | cons first fields ih =>
      obtain ⟨k', v'⟩ := first
      intro h
      rw [setField]
      split
      · rename_i hk
        rcases List.mem_cons.mp h with h | h
        · exact absurd (h ▸ hk.symm) hne
        · exact List.mem_cons_of_mem _ h
      · split
        · exact List.mem_cons_of_mem _ h
        · rcases List.mem_cons.mp h with h | h
          · exact h ▸ List.mem_cons_self ..
          · exact List.mem_cons_of_mem _ (ih h)

/-- Assigning to a field, where what it replaces was valid. -/
theorem valid_setField {k : Bytes} {v : Json} {fields : List (Bytes × Json)} (hv : v.Valid)
    (hold : ∀ field ∈ fields, field.1 = k → field.2.Valid) :
    (obj (setField k v fields)).Valid ↔ ValidUtf8 k ∧ (obj fields).Valid := by
  simp only [valid_obj]
  constructor
  · intro h
    have hk : ValidUtf8 k := (h _ (mem_setField_self k v fields)).1
    refine ⟨hk, fun field hfield => ?_⟩
    by_cases hne : field.1 = k
    · exact ⟨hne ▸ hk, hold field hfield hne⟩
    · exact h field (mem_setField_of_ne hne hfield)
  · rintro ⟨hk, h⟩ field hfield
    rcases mem_of_mem_setField hfield with rfl | hfield
    · exact ⟨hk, hv⟩
    · exact h field hfield

theorem Valid.set {j : Json} (h : j.Valid) {k : Bytes} {v : Json} (hk : ValidUtf8 k)
    (hv : v.Valid) : (j.set k v).Valid := by
  cases j with
  | obj fields =>
      exact (valid_setField hv fun field hfield _ => (valid_obj.mp h field hfield).2).mpr ⟨hk, h⟩
  | _ =>
      refine valid_obj.mpr fun field hfield => ?_
      rw [List.mem_singleton.mp hfield]
      exact ⟨hk, hv⟩

end Json
