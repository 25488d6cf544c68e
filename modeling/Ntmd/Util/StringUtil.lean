/-
The string helpers of `util/StringUtil`.
-/
import Mathlib.Data.List.DropRight
import Ntmd.Lib.Bytes

namespace Ntmd

open Bytes

/-- The second loop of `trim`: how much of the text is kept, which is all of a single character. -/
def trimEnd (s : Bytes) : Nat → Nat
  | 0 => 0
  | 1 => 1
  | n + 2 => if isSpace (s.getD (n + 1) 0) then trimEnd s (n + 1) else n + 2

/-- `trim`. -/
def trim (s : Bytes) : Bytes :=
  let s := s.dropWhile isSpace
  s.take (trimEnd s s.length)

/-- The loop of `split`, with the word it is in and the words before that. -/
def splitLoop (delimiter : UInt8) : Bytes → Bytes → List Bytes → List Bytes
  | [], current, words => if current.isEmpty then words else words ++ [current]
  | c :: s, current, words =>
      if c ≠ delimiter then splitLoop delimiter s (current ++ [c]) words
      else splitLoop delimiter s [] (words ++ [current])

/-- `split`. -/
def split (s : Bytes) (delimiter : UInt8 := 32) : List Bytes := splitLoop delimiter s [] []

/-- `strToLower`. -/
def strToLower (s : Bytes) : Bytes := s.map toLower

/-- `stringToBool`, none when it throws. -/
def stringToBool (s : Bytes) : Option Bool :=
  if s = ascii "true" ∨ s = ascii "yes" ∨ s = ascii "on" ∨ s = ascii "1" then some true
  else if s = ascii "false" ∨ s = ascii "no" ∨ s = ascii "off" ∨ s = ascii "0" then some false
  else none

/-- `isNumber`: every character is a digit, and there is one. -/
def isNumber (s : Bytes) : Bool := !s.isEmpty && s.all isDigit

/-- `containsSemicolon`. -/
def containsSemicolon (s : Bytes) : Bool := s.any (· == 59)

/-! ### The iterators of `trim` -/

/-- The ways an iterator can leave its text. -/
inductive IterFault
  /-- It is moved in front of the beginning, or behind the end. -/
  | moved
  /-- It is dereferenced where there is no character. -/
  | dereferenced
  deriving DecidableEq, Repr

/-- The first loop of `trim`, from the position of `start` on. -/
def trimStart (s : Bytes) (start : Nat) : Except IterFault Nat :=
  if start = s.length then .ok start
  else
    match h : s[start]? with
    | none => .error .dereferenced
    | some c => if isSpace c then trimStart s (start + 1) else .ok start
termination_by s.length - start
decreasing_by
  obtain ⟨hlt, -⟩ := List.getElem?_eq_some_iff.mp h
  omega

/-- The second loop; `end` is moved before it is looked at. -/
def trimBack (s : Bytes) (start : Nat) : Nat → Except IterFault Nat
  | 0 => .error .moved
  | stop + 1 =>
      if start < stop then
        match s[stop]? with
        | none => .error .dereferenced
        | some c => if isSpace c then trimBack s start stop else .ok stop
      else .ok stop

/-- `trim`, with the positions of its iterators. -/
def trimIterators (s : Bytes) : Except IterFault Bytes := do
  let start ← trimStart s 0
  let stop ← trimBack s start s.length
  -- `std::string(start, end + 1)`
  if start ≤ stop + 1 ∧ stop + 1 ≤ s.length then .ok ((s.take (stop + 1)).drop start)
  else .error .moved

/-! ### Trimming -/

/-- The second loop stops in front of the white space at the end. -/
theorem take_trimEnd {s : Bytes} (hs : ∀ c, s.head? = some c → isSpace c = false) :
    ∀ n ≤ s.length, s.take (trimEnd s n) = (s.take n).rdropWhile isSpace := by
  intro n
  induction n with
  | zero => intro _; rw [trimEnd, List.take_zero, List.rdropWhile_nil]
  | succ n ih =>
      intro hn
      have htake : s.take (n + 1) = s.take n ++ [s[n]] := List.take_succ_eq_append_getElem hn
      cases n with
      | zero =>
          have hhead : isSpace s[0] = false := hs _ (List.head?_eq_getElem? ▸ by simp)
          rw [trimEnd, htake, List.take_zero, List.nil_append,
            List.rdropWhile_singleton, if_neg (by simp [hhead])]
      | succ n =>
          have hlast : s.getD (n + 1) 0 = s[n + 1] := by
            rw [List.getD_eq_getElem?_getD, List.getElem?_eq_getElem hn, Option.getD_some]
          rw [trimEnd, hlast, htake, List.rdropWhile_concat]
          split
          · exact ih (by omega)
          · exact htake

/-- **What is left is the text between the white space at its ends.** -/
theorem trim_eq (s : Bytes) : trim s = (s.dropWhile isSpace).rdropWhile isSpace := by
  have hhead : ∀ c, (s.dropWhile isSpace).head? = some c → isSpace c = false := fun c hc => by
    have := List.head?_dropWhile_not isSpace s
    rw [hc] at this
    simpa using this
  have htake := take_trimEnd hhead _ (Nat.le_refl (s.dropWhile isSpace).length)
  rw [List.take_length] at htake
  exact htake

theorem mem_of_mem_trim {s : Bytes} {c : UInt8} (h : c ∈ trim s) : c ∈ s := by
  rw [trim_eq] at h
  exact (List.dropWhile_suffix _).subset ((List.rdropWhile_prefix _ _).subset h)

theorem trim_cons_space {c : UInt8} (h : isSpace c = true) (s : Bytes) :
    trim (c :: s) = trim s := by
  rw [trim_eq, trim_eq, List.dropWhile_cons_of_pos h]

theorem trim_eq_self {s : Bytes} (h : ∀ c ∈ s, isSpace c = false) : trim s = s := by
  have hdrop : s.dropWhile isSpace = s := by
    cases s with
    | nil => rfl
    | cons c s => exact List.dropWhile_cons_of_neg (by simp [h c List.mem_cons_self])
  rw [trim_eq, hdrop, List.rdropWhile_eq_self_iff]
  exact fun hne => by simp [h _ (List.getLast_mem hne)]

/-- The first character kept is the first that is no white space. -/
theorem head?_trim {s : Bytes} {c : UInt8} (h : (trim s).head? = some c) : isSpace c = false := by
  have hprefix := List.rdropWhile_prefix isSpace (s.dropWhile isSpace)
  have hhead := List.head?_dropWhile_not isSpace s
  rw [← trim_eq] at hprefix
  obtain ⟨rest, hrest⟩ := List.head?_eq_some_iff.mp h
  obtain ⟨tail, htail⟩ := hprefix
  rw [← htail, hrest, List.cons_append, List.head?_cons] at hhead
  simpa using hhead

theorem trim_trim (s : Bytes) : trim (trim s) = trim s := by
  have hdrop : (trim s).dropWhile isSpace = trim s := by
    cases hkept : trim s with
    | nil => rfl
    | cons c rest =>
        have hc : isSpace c = false := head?_trim (by rw [hkept]; rfl)
        exact List.dropWhile_cons_of_neg (by simp [hc])
  rw [trim_eq (trim s), hdrop, trim_eq, List.rdropWhile_idempotent]

theorem splitLoop_eq_nil_iff {delimiter : UInt8} :
    ∀ {s current : Bytes} {words : List Bytes},
      splitLoop delimiter s current words = [] ↔ s = [] ∧ current = [] ∧ words = [] := by
  intro s
  induction s with
  | nil =>
      intro current words
      rw [splitLoop]
      split
      · rename_i h
        simp [List.isEmpty_iff.mp h]
      · rename_i h
        simpa using fun hc => absurd (List.isEmpty_iff.mpr hc) h
  | cons c s ih =>
      intro current words
      rw [splitLoop]
      split
      · rw [ih]
        simp
      · rw [ih]
        simp

/-- A text that is not empty has a word, be it an empty one. -/
theorem split_eq_nil_iff {s : Bytes} {delimiter : UInt8} : split s delimiter = [] ↔ s = [] := by
  rw [split, splitLoop_eq_nil_iff]
  simp

/-- The words before the one the loop is in stay as they are. -/
theorem splitLoop_words (delimiter : UInt8) : ∀ (s current : Bytes) (words words' : List Bytes),
    splitLoop delimiter s current (words ++ words') =
      words ++ splitLoop delimiter s current words' := by
  intro s
  induction s with
  | nil =>
      intro current words words'
      rw [splitLoop, splitLoop]
      split
      · rfl
      · rw [List.append_assoc]
  | cons c s ih =>
      intro current words words'
      rw [splitLoop, splitLoop]
      split
      · exact ih _ words words'
      · rw [List.append_assoc]
        exact ih _ words _

/-- The loop goes through a word. -/
theorem splitLoop_word {delimiter : UInt8} : ∀ {word : Bytes}, delimiter ∉ word →
    ∀ (s current : Bytes) (words : List Bytes),
      splitLoop delimiter (word ++ s) current words =
        splitLoop delimiter s (current ++ word) words := by
  intro word
  induction word with
  | nil => intro _ s current words; rw [List.append_nil, List.nil_append]
  | cons c word ih =>
      intro h s current words
      obtain ⟨hc, hword⟩ := not_or.mp (mt List.mem_cons.mpr h)
      rw [List.cons_append, splitLoop, if_pos (Ne.symm hc), ih hword, List.append_assoc]
      rfl

theorem split_word {delimiter : UInt8} {word : Bytes} (h : delimiter ∉ word) (hne : word ≠ []) :
    split word delimiter = [word] := by
  have hloop := splitLoop_word h [] [] []
  rw [List.append_nil, List.nil_append] at hloop
  rw [split, hloop, splitLoop, if_neg (by simpa using hne), List.nil_append]

/-- A word up to the first delimiter is the first of the list. -/
theorem split_cons {delimiter : UInt8} {word : Bytes} (h : delimiter ∉ word) (s : Bytes) :
    split (word ++ delimiter :: s) delimiter = word :: split s delimiter := by
  rw [split, splitLoop_word h, splitLoop, if_neg (by simp), List.nil_append, List.nil_append]
  have hwords := splitLoop_words delimiter s [] [word] []
  rw [List.append_nil] at hwords
  rw [hwords, split]
  rfl

example : split (ascii "a  b ") = [ascii "a", [], ascii "b"] := by decide

end Ntmd
