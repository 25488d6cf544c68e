/-
Reading a JSON text back.

`read` is a reader of the compact form, without spaces, that `Json.dump` writes.  It
descends into a value with fuel; the length of the text is fuel enough, since every
step takes a byte off it (`read_render`).

`Inverse` says of a reader and a writer that what was written is what is read.  What
is proved elsewhere is proved of every such pair, and `inverse_dump` is that there is
one.

The second half is about objects as maps from keys to values: what `get` finds after
assignments to a field, and that two assignments to different fields commute, which
is what makes a text that is built by assignments in any order the same text.
-/
import Ntmd.Lib.Json

namespace Json

open Bytes

/-! ### A reader -/

/-- The byte that an escape of two bytes stands for. -/
def unescape (c : UInt8) : UInt8 :=
  if c = 98 then 8
  else if c = 116 then 9
  else if c = 110 then 10
  else if c = 102 then 12
  else if c = 114 then 13
  else c

/-- The rest of a string, up to its closing quote.  A `\u` is read below 128, where it is a byte. -/
def readChars : Bytes → Option (Bytes × Bytes)
  | [] => none
  | c :: s =>
      if c = 34 then some ([], s)
      else if c = 92 then
        match s with
        | [] => none
        | e :: s =>
            if e = 117 then
              match s with
              | a :: b :: c :: d :: s =>
                  let code := value 16 [a, b, c, d]
                  if code < 128 then (readChars s).map fun p => (UInt8.ofNat code :: p.1, p.2)
                  else none
              | _ => none
            else (readChars s).map fun p => (unescape e :: p.1, p.2)
      else (readChars s).map fun p => (c :: p.1, p.2)

def readNat (s : Bytes) : Option (Nat × Bytes) :=
  match s.takeWhile isDigit with
  | [] => none
  | ds => some (value 10 ds, s.dropWhile isDigit)

def readInt (s : Bytes) : Option (Int × Bytes) :=
  match s with
  | [] => none
  | c :: s =>
      if c = 45 then (readNat s).map fun p => (-(p.1 : Int), p.2)
      else (readNat (c :: s)).map fun p => ((p.1 : Int), p.2)

/-- A key with the colon behind it. -/
def readKey (s : Bytes) : Option (Bytes × Bytes) :=
  match s with
  | [] => none
  | c :: s =>
      if c = 34 then
        match readChars s with
        | some (k, c :: s) => if c = 58 then some (k, s) else none
        | _ => none
      else none

mutual

/-- A value, and what is behind it. -/
def readValue (fuel : Nat) (s : Bytes) : Option (Json × Bytes) :=
  match fuel, s with
  | 0, _ => none
  | _, [] => none
  | fuel + 1, c :: s =>
      if c = 110 then if s.take 3 = ascii "ull" then some (null, s.drop 3) else none
      else if c = 34 then (readChars s).map fun p => (str p.1, p.2)
      else if c = 123 then
        match s with
        | [] => none
        | c :: s =>
            if c = 125 then some (obj [], s)
            else (readFields fuel (c :: s)).map fun p => (obj p.1, p.2)
      else (readInt (c :: s)).map fun p => (num p.1, p.2)

/-- The fields of an object, and what is behind its closing brace. -/
def readFields (fuel : Nat) (s : Bytes) : Option (List (Bytes × Json) × Bytes) :=
  match fuel with
  | 0 => none
  | fuel + 1 =>
      match readKey s with
      | none => none
      | some (k, s) =>
          match readValue fuel s with
          | some (v, c :: s) =>
              if c = 125 then some ([(k, v)], s)
              else if c = 44 then (readFields fuel s).map fun p => ((k, v) :: p.1, p.2)
              else none
          | _ => none

end

/-- A whole text. -/
def read (s : Bytes) : Option Json :=
  match readValue (s.length + 1) s with
  | some (j, []) => some j
  | _ => none

/-- What was written is what is read. -/
def Inverse (read : Bytes → Option Json) (write : Json → Option Bytes) : Prop :=
  ∀ j t, write j = some t → read t = some j

/-! ### Strings -/

theorem value_control : ∀ n < 32, value 16 ((hexPad 4 n).map toLower) = n := by decide

theorem readChars_u {a b c d : UInt8} {s : Bytes} (h : value 16 [a, b, c, d] < 128) :
    readChars (92 :: 117 :: a :: b :: c :: d :: s) =
      (readChars s).map fun p => (UInt8.ofNat (value 16 [a, b, c, d]) :: p.1, p.2) := by
  rw [readChars]
  simp [h]

theorem readChars_escaped {c : UInt8} {s : Bytes} (h : c ≠ 117) :
    readChars (92 :: c :: s) = (readChars s).map fun p => (unescape c :: p.1, p.2) := by
  rw [readChars.eq_def]
  simp [h]

theorem readChars_plain {c : UInt8} {s : Bytes} (hquote : c ≠ 34) (hescape : c ≠ 92) :
    readChars (c :: s) = (readChars s).map fun p => (c :: p.1, p.2) := by
  rw [readChars.eq_def]
  simp only [if_neg hquote, if_neg hescape]

theorem readChars_control {c : UInt8} (h : c < 32) (s : Bytes) :
    readChars ([92, 117] ++ (hexPad 4 c.toNat).map toLower ++ s) =
      (readChars s).map fun p => (c :: p.1, p.2) := by
  have hcode := value_control c.toNat (UInt8.lt_iff_toNat_lt.mp h)
  have hlength : ((hexPad 4 c.toNat).map toLower).length = 4 := by
    rw [List.length_map, hexPad_length]
  obtain ⟨a, b, d, e, hdigits⟩ := List.length_eq_four.mp hlength
  rw [hdigits] at hcode ⊢
  have hsmall : value 16 [a, b, d, e] < 128 := by
    rw [hcode]
    exact Nat.lt_trans (UInt8.lt_iff_toNat_lt.mp h) (by decide)
  have hread := @readChars_u a b d e s hsmall
  rw [hcode, UInt8.ofNat_toNat] at hread
  exact hread

/-- Each byte is read from its escape. -/
theorem readChars_escape (c : UInt8) (s : Bytes) :
    readChars (escape c ++ s) = (readChars s).map fun p => (c :: p.1, p.2) := by
  unfold escape
  split_ifs with hself hb ht hn hf hr hcontrol
  · rcases hself with rfl | rfl <;> exact readChars_escaped (by decide)
  · subst hb
    exact readChars_escaped (by decide)
  · subst ht
    exact readChars_escaped (by decide)
  · subst hn
    exact readChars_escaped (by decide)
  · subst hf
    exact readChars_escaped (by decide)
  · subst hr
    exact readChars_escaped (by decide)
  · exact readChars_control hcontrol s
  · exact readChars_plain (fun h => hself (.inl h)) fun h => hself (.inr h)

theorem readChars_flatMap (rest : Bytes) : ∀ s : Bytes,
    readChars (s.flatMap escape ++ 34 :: rest) = some (s, rest) := by
  intro s
  induction s with
  | nil => rw [List.flatMap_nil, List.nil_append, readChars.eq_def]; rfl
  | cons c s ih =>
      rw [List.flatMap_cons, List.append_assoc, readChars_escape, ih]
      rfl

/-! ### Numerals -/

/-- The numeral before it ends where it does. -/
def NoDigit (s : Bytes) : Prop := ∀ c ∈ s.head?, isDigit c = false

theorem noDigit_cons {c : UInt8} (h : isDigit c = false) (s : Bytes) : NoDigit (c :: s) := by
  intro d hd
  rw [List.head?_cons, Option.mem_some_iff] at hd
  exact hd ▸ h

theorem takeWhile_digits {ds rest : Bytes} (hds : ∀ c ∈ ds, isDigit c = true)
    (hrest : NoDigit rest) : (ds ++ rest).takeWhile isDigit = ds ∧
      (ds ++ rest).dropWhile isDigit = rest := by
  rw [List.takeWhile_append_of_pos hds, List.dropWhile_append_of_pos hds]
  cases rest with
  | nil => simp
  | cons c rest =>
      have hc : ¬ isDigit c = true := by
        rw [hrest c rfl]
        decide
      rw [List.takeWhile_cons_of_neg hc, List.dropWhile_cons_of_neg hc, List.append_nil]
      exact ⟨rfl, rfl⟩

theorem readNat_decimal (n : Nat) {rest : Bytes} (hrest : NoDigit rest) :
    readNat (decimal n ++ rest) = some (n, rest) := by
  obtain ⟨htake, hdrop⟩ := takeWhile_digits (fun c hc => isDigit_of_mem_decimal hc) hrest
  have hvalue := value_decimal n
  rw [readNat, htake, hdrop]
  cases hds : decimal n with
  | nil => exact absurd hds (decimal_ne_nil n)
  | cons d ds =>
      rw [hds] at hvalue
      exact congrArg some (Prod.ext hvalue rfl)

/-- A numeral begins with a digit or a minus sign. -/
theorem exists_decimalInt_head (n : Int) :
    ∃ c s, decimalInt n = c :: s ∧ (c = 45 ∨ isDigit c = true) := by
  unfold decimalInt
  split
  · exact ⟨45, _, rfl, .inl rfl⟩
  · cases hds : decimal n.natAbs with
    | nil => exact absurd hds (decimal_ne_nil _)
    | cons d ds => exact ⟨d, ds, rfl, .inr (isDigit_of_mem_decimal (hds ▸ List.mem_cons_self))⟩

theorem readInt_decimalInt (n : Int) {rest : Bytes} (hrest : NoDigit rest) :
    readInt (decimalInt n ++ rest) = some (n, rest) := by
  have hread := readNat_decimal n.natAbs hrest
  unfold decimalInt
  split
  · rename_i hneg
    rw [List.cons_append, readInt, if_pos rfl, hread, Option.map_some]
    exact congrArg some (Prod.ext (by simp only; omega) rfl)
  · rename_i hpos
    cases hds : decimal n.natAbs with
    | nil => exact absurd hds (decimal_ne_nil _)
    | cons d ds =>
        have hdigit : isDigit d = true := isDigit_of_mem_decimal (hds ▸ List.mem_cons_self)
        have hminus : d ≠ 45 := by
          rintro rfl
          exact absurd hdigit (by decide)
        rw [hds] at hread
        rw [List.cons_append, readInt, if_neg hminus, ← List.cons_append, hread, Option.map_some]
        exact congrArg some (Prod.ext (by simp only; omega) rfl)

/-! ### Values -/

theorem readValue_decimalInt (fuel : Nat) (n : Int) {rest : Bytes} (hrest : NoDigit rest) :
    readValue (fuel + 1) (decimalInt n ++ rest) = some (num n, rest) := by
  have hread := readInt_decimalInt n hrest
  obtain ⟨c, s, htext, hhead⟩ := exists_decimalInt_head n
  have hother : ∀ d : UInt8, isDigit d = false → d ≠ 45 → c ≠ d := by
    rintro d hd hminus rfl
    rcases hhead with h | h
    · exact hminus h
    · exact absurd (hd.symm.trans h) (by decide)
  rw [htext, List.cons_append] at hread ⊢
  rw [readValue.eq_def]
  simp only
  rw [if_neg (hother 110 (by decide) (by decide)), if_neg (hother 34 (by decide) (by decide)),
    if_neg (hother 123 (by decide) (by decide)), hread, Option.map_some]

theorem readValue_quote (fuel : Nat) (s rest : Bytes) :
    readValue (fuel + 1) (quote s ++ rest) = some (str s, rest) := by
  have hchars := readChars_flatMap rest s
  have hnull : ¬ (34 : UInt8) = 110 := by decide
  simp only [quote, List.cons_append, List.append_assoc, List.nil_append]
  rw [readValue.eq_def]
  simp only [if_neg hnull, if_true]
  rw [hchars, Option.map_some]

theorem renderFields_cons (k : Bytes) (v : Json) (field : Bytes × Json)
    (fields : List (Bytes × Json)) : renderFields ((k, v) :: field :: fields) =
      quote k ++ 58 :: v.render ++ 44 :: renderFields (field :: fields) := by
  rw [renderFields]
  simp

/-- The text of a list of fields begins with a quote. -/
theorem exists_renderFields (field : Bytes × Json) (fields : List (Bytes × Json)) :
    ∃ s, renderFields (field :: fields) = 34 :: s := by
  obtain ⟨k, v⟩ := field
  cases fields with
  | nil => exact ⟨_, by rw [renderFields, quote, List.cons_append, List.cons_append]⟩
  | cons field fields => exact ⟨_, by rw [renderFields_cons, quote]; rfl⟩

theorem readValue_braces {fuel : Nat} {field : Bytes × Json} {fields : List (Bytes × Json)}
    {rest : Bytes}
    (h : readFields fuel (renderFields (field :: fields) ++ 125 :: rest) =
      some (field :: fields, rest)) :
    readValue (fuel + 1) (123 :: (renderFields (field :: fields) ++ 125 :: rest)) =
      some (obj (field :: fields), rest) := by
  obtain ⟨s, hs⟩ := exists_renderFields field fields
  have hnull : ¬ (123 : UInt8) = 110 := by decide
  have hquote : ¬ (123 : UInt8) = 34 := by decide
  have hbrace : ¬ (34 : UInt8) = 125 := by decide
  rw [hs, List.cons_append] at h ⊢
  rw [readValue.eq_def]
  simp only [if_neg hnull, if_neg hquote, if_true, if_neg hbrace]
  rw [h, Option.map_some]

theorem readKey_quote (k rest : Bytes) : readKey (quote k ++ 58 :: rest) = some (k, rest) := by
  have hchars := readChars_flatMap (58 :: rest) k
  simp only [quote, List.cons_append, List.append_assoc, List.nil_append, readKey, hchars, if_true]

mutual

/-- A value is read to its end, whatever is behind it. -/
theorem readValue_render : ∀ (j : Json) (fuel : Nat) (rest : Bytes), j.render.length < fuel →
    NoDigit rest → readValue fuel (j.render ++ rest) = some (j, rest)
  | _, 0, _, hfuel, _ => absurd hfuel (Nat.not_lt_zero _)
  | null, fuel + 1, rest, _, _ => by
      have htext : ascii "null" = 110 :: ascii "ull" := by decide
      rw [render, htext, List.cons_append, readValue.eq_def]
      simp only [if_true]
      rw [List.take_left' (by decide), if_pos rfl, List.drop_left' (by decide)]
  | num n, fuel + 1, rest, _, hrest => by
      rw [render, readValue_decimalInt fuel n hrest]
  | str s, fuel + 1, rest, _, _ => by
      rw [render, readValue_quote]
  | obj [], fuel + 1, rest, _, _ => by
      rw [render, renderFields]
      rfl
  | obj (field :: fields), fuel + 1, rest, hfuel, _ => by
      have htext : (obj (field :: fields)).render ++ rest =
          123 :: (renderFields (field :: fields) ++ 125 :: rest) := by
        rw [render, List.append_assoc, List.cons_append, List.singleton_append]
      have hlength : (renderFields (field :: fields)).length < fuel := by
        rw [render, List.length_append, List.length_cons, List.length_singleton] at hfuel
        omega
      rw [htext]
      exact readValue_braces (readFields_render field fields fuel rest hlength)

theorem readFields_render : ∀ (field : Bytes × Json) (fields : List (Bytes × Json)) (fuel : Nat)
    (rest : Bytes), (renderFields (field :: fields)).length < fuel →
      readFields fuel (renderFields (field :: fields) ++ 125 :: rest) = some (field :: fields, rest)
  | _, _, 0, _, hfuel => absurd hfuel (Nat.not_lt_zero _)
  | (k, v), [], fuel + 1, rest, hfuel => by
      have htext : renderFields [(k, v)] ++ 125 :: rest =
          quote k ++ 58 :: (v.render ++ 125 :: rest) := by
        rw [renderFields, List.append_assoc, List.cons_append]
      have hlength : v.render.length < fuel := by
        rw [renderFields, List.length_append, List.length_cons] at hfuel
        omega
      have hvalue := readValue_render v fuel (125 :: rest) hlength (noDigit_cons (by decide) rest)
      rw [htext, readFields, readKey_quote]
      simp only [hvalue, if_true]
  | (k, v), field :: fields, fuel + 1, rest, hfuel => by
      have htext : renderFields ((k, v) :: field :: fields) ++ 125 :: rest =
          quote k ++ 58 :: (v.render ++ 44 :: (renderFields (field :: fields) ++ 125 :: rest)) := by
        rw [renderFields_cons]
        simp only [List.append_assoc, List.cons_append]
      rw [renderFields_cons] at hfuel
      simp only [List.length_append, List.length_cons] at hfuel
      have hvalue := readValue_render v fuel
        (44 :: (renderFields (field :: fields) ++ 125 :: rest)) (by omega)
        (noDigit_cons (by decide) _)
      have hfields := readFields_render field fields fuel rest (by omega)
      have hcomma : ¬ (44 : UInt8) = 125 := by decide
      rw [htext, readFields, readKey_quote]
      simp only [hvalue, if_neg hcomma, if_true]
      rw [hfields, Option.map_some]

end

/-- **Reading undoes writing**, for every value. -/
theorem read_render (j : Json) : read j.render = some j := by
  have hvalue := readValue_render j (j.render.length + 1) [] (Nat.lt_succ_self _)
    fun c hc => by simp at hc
  rw [List.append_nil] at hvalue
  rw [read, hvalue]

theorem inverse_dump : Inverse read dump := by
  intro j t h
  rw [dump] at h
  split at h
  · rw [← Option.some.inj h, read_render]
  · exact absurd h (by simp)

/-! ### Objects as maps -/

/-- The number that a value is. -/
def asInt : Json → Option Int
  | num n => some n
  | _ => none

/-- The string that a value is. -/
def asText : Json → Option Bytes
  | str s => some s
  | _ => none

theorem get_obj_cons (k k' : Bytes) (v : Json) (fields : List (Bytes × Json)) :
    (obj ((k', v) :: fields)).get k = if k' = k then v else (obj fields).get k := by
  by_cases hk : k' = k
  · rw [if_pos hk, get, List.find?_cons_of_pos (by simp [hk])]
  · rw [if_neg hk, get, List.find?_cons_of_neg (by simp [hk])]
    rfl

/-- What an assignment to a field leaves to be found. -/
theorem get_setField (k k' : Bytes) (v : Json) : ∀ fields : List (Bytes × Json),
    (obj (setField k' v fields)).get k = if k' = k then v else (obj fields).get k := by
  intro fields
  induction fields with
  | nil => rw [setField, get_obj_cons]
  | cons field fields ih =>
      obtain ⟨k₁, v₁⟩ := field
      rw [setField]
      by_cases hsame : k' = k₁
      · rw [if_pos hsame, get_obj_cons, get_obj_cons, hsame]
        split <;> rfl
      · rw [if_neg hsame]
        split
        · rw [get_obj_cons]
        · rw [get_obj_cons, ih, get_obj_cons]
          by_cases hk : k₁ = k
          · rw [if_pos hk, if_neg fun h => hsame (h.trans hk.symm), if_pos hk]
          · rw [if_neg hk, if_neg hk]

theorem get_set (j : Json) (k k' : Bytes) (v : Json) :
    (j.set k' v).get k = if k' = k then v else j.get k := by
  cases j with
  | obj fields => exact get_setField k k' v fields
  | _ => exact get_obj_cons k k' v []

section

variable {k k' : Bytes} (v v' : Json) (fields : List (Bytes × Json))

theorem setField_self : setField k v ((k, v') :: fields) = (k, v) :: fields := by
  rw [setField, if_pos rfl]

theorem setField_before (h : k < k') :
    setField k v ((k', v') :: fields) = (k, v) :: (k', v') :: fields := by
  have hne : k ≠ k' := fun he => List.lt_irrefl k' (he ▸ h)
  rw [setField, if_neg hne, if_pos h]

theorem setField_after (h : k' < k) :
    setField k v ((k', v') :: fields) = (k', v') :: setField k v fields := by
  have hne : k ≠ k' := fun he => List.lt_irrefl k' (he ▸ h)
  rw [setField, if_neg hne, if_neg fun hlt => List.lt_irrefl k' (List.lt_trans h hlt)]

end

theorem lt_of_not_lt_of_ne {a b : Bytes} (hlt : ¬ a < b) (hne : a ≠ b) : b < a :=
  Std.lt_of_le_of_ne hlt hne.symm

theorem setField_comm_of_lt {k k' : Bytes} (hlt : k < k') (v v' : Json) :
    ∀ fields : List (Bytes × Json),
      setField k v (setField k' v' fields) = setField k' v' (setField k v fields) := by
  intro fields
  induction fields with
  | nil =>
      rw [setField, setField, setField_before v v' [] hlt, setField_after v' v [] hlt, setField]
  | cons field fields ih =>
      obtain ⟨k₁, v₁⟩ := field
      by_cases hsame : k = k₁
      · subst hsame
        rw [setField_self, setField_after v' v₁ fields hlt, setField_self,
          setField_after v' v fields hlt]
      · by_cases hbefore : k < k₁
        · rw [setField_before v v₁ fields hbefore, setField_after v' v _ hlt]
          by_cases hsame' : k' = k₁
          · subst hsame'
            rw [setField_self, setField_before v v' fields hlt]
          · by_cases hbefore' : k' < k₁
            · rw [setField_before v' v₁ fields hbefore', setField_before v v' _ hlt]
            · rw [setField_after v' v₁ fields (lt_of_not_lt_of_ne hbefore' hsame'),
                setField_before v v₁ _ hbefore]
        · have hafter : k₁ < k := lt_of_not_lt_of_ne hbefore hsame
          rw [setField_after v v₁ fields hafter, setField_after v' v₁ fields (List.lt_trans hafter hlt),
            setField_after v v₁ _ hafter, setField_after v' v₁ _ (List.lt_trans hafter hlt), ih]

/-- Assignments to two fields commute. -/
theorem setField_comm {k k' : Bytes} (hne : k ≠ k') (v v' : Json) (fields : List (Bytes × Json)) :
    setField k v (setField k' v' fields) = setField k' v' (setField k v fields) := by
  by_cases hlt : k < k'
  · exact setField_comm_of_lt hlt v v' fields
  · exact (setField_comm_of_lt (lt_of_not_lt_of_ne hlt hne) v' v fields).symm

end Json
