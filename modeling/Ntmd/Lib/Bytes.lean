/-
Byte strings, and the numerals written in them.

Everything the daemon reads or writes as text is a string of bytes: names of
processes, lines of tables, SQL.  A `Bytes` is that string, `ascii` spells one,
and `cstr` is what a C string function sees of a buffer.

The numerals are printed with `decimal` and `hexPad` and read with `value`.  All
that is needed of them is that reading undoes printing (`value_decimal`,
`value_hexPad`) and that a printed numeral holds nothing but digits.
-/
import Mathlib.Data.Nat.Digits.Lemmas
import Mathlib.Data.List.Basic
import Mathlib.Data.List.TakeWhile
import Mathlib.Tactic.IntervalCases

/-- A string of bytes. -/
abbrev Bytes := List UInt8

namespace Bytes

/-- The bytes of an ASCII text. -/
def ascii (s : String) : Bytes := s.toList.map Char.toUInt8

/-- A buffer as a C string: everything before the first zero byte. -/
def cstr (s : Bytes) : Bytes := s.takeWhile (· != 0)

/-- `isspace` in the C locale. -/
def isSpace (c : UInt8) : Bool := c == 32 || (9 ≤ c && c ≤ 13)

/-- `isdigit`. -/
def isDigit (c : UInt8) : Bool := 48 ≤ c && c ≤ 57

/-- `isxdigit`. -/
def isHex (c : UInt8) : Bool := isDigit c || (65 ≤ c && c ≤ 70) || (97 ≤ c && c ≤ 102)

/-- `tolower` in the C locale. -/
def toLower (c : UInt8) : UInt8 := if 65 ≤ c && c ≤ 90 then c + 32 else c

/-- The number a digit stands for, hexadecimal ones included. -/
def digitVal (c : UInt8) : Nat :=
  if isDigit c then c.toNat - 48
  else if 65 ≤ c && c ≤ 70 then c.toNat - 55
  else if 97 ≤ c && c ≤ 102 then c.toNat - 87
  else 0

/-- The digit for a number below sixteen, in upper case. -/
def digitChar (d : Nat) : UInt8 := if d < 10 then UInt8.ofNat (48 + d) else UInt8.ofNat (55 + d)

/-- What a run of digits means in base `b`. -/
def value (b : Nat) (ds : Bytes) : Nat := ds.foldl (fun acc c => acc * b + digitVal c) 0

/-- `%lu`: the decimal numeral of a natural number. -/
def decimal (n : Nat) : Bytes :=
  if n = 0 then [48] else (Nat.digits 10 n).reverse.map digitChar

/-- `%ld`: the decimal numeral of an integer. -/
def decimalInt (z : Int) : Bytes := if z < 0 then 45 :: decimal z.natAbs else decimal z.natAbs

/-- The hexadecimal numeral of `n` in exactly `w` digits, as `%08X` and `%04X` print it. -/
def hexPad : Nat → Nat → Bytes
  | 0, _ => []
  | w + 1, n => hexPad w (n / 16) ++ [digitChar (n % 16)]

/-! ### Digits -/

theorem digitVal_digitChar {d : Nat} (h : d < 16) : digitVal (digitChar d) = d := by
  interval_cases d <;> decide

theorem isHex_digitChar {d : Nat} (h : d < 16) : isHex (digitChar d) = true := by
  interval_cases d <;> decide

theorem isDigit_digitChar {d : Nat} (h : d < 10) : isDigit (digitChar d) = true := by
  interval_cases d <;> decide

theorem isHex_of_isDigit {c : UInt8} (h : isDigit c = true) : isHex c = true := by
  simp [isHex, h]

theorem not_isSpace_of_isHex {c : UInt8} (h : isHex c = true) : isSpace c = false := by
  have key : ∀ n : Fin 256, isHex (UInt8.ofNat n) = true → isSpace (UInt8.ofNat n) = false := by
    decide +kernel
  simpa using key ⟨c.toNat, c.toNat_lt⟩ (by simpa using h)

theorem not_isDigit_of_isSpace {c : UInt8} (h : isSpace c = true) : isDigit c = false := by
  cases hdigit : isDigit c with
  | false => rfl
  | true =>
      rw [not_isSpace_of_isHex (isHex_of_isDigit hdigit)] at h
      exact Bool.noConfusion h

theorem ne_of_isHex {c d : UInt8} (h : isHex c = true) (hd : isHex d = false) : c ≠ d := by
  rintro rfl
  rw [h] at hd
  exact Bool.noConfusion hd

/-! ### C strings -/

theorem cstr_of_not_mem {s : Bytes} (h : 0 ∉ s) : cstr s = s := by
  refine List.takeWhile_eq_self_iff.mpr fun c hc => ?_
  simpa using fun h0 : c = 0 => h (h0 ▸ hc)

theorem cstr_append {a : Bytes} (h : 0 ∉ a) (b : Bytes) : cstr (a ++ b) = a ++ cstr b :=
  List.takeWhile_append_of_pos fun c hc => by simpa using fun h0 : c = 0 => h (h0 ▸ hc)

/-! ### Reading undoes printing -/

@[simp] theorem value_nil (b : Nat) : value b [] = 0 := rfl

theorem value_append_singleton (b : Nat) (ds : Bytes) (c : UInt8) :
    value b (ds ++ [c]) = value b ds * b + digitVal c := by
  simp [value, List.foldl_append]

theorem value_append (b : Nat) (xs : Bytes) : ∀ ys : Bytes,
    value b (xs ++ ys) = value b xs * b ^ ys.length + value b ys := by
  have hfoldl : ∀ (ys : Bytes) (acc : Nat),
      ys.foldl (fun acc c => acc * b + digitVal c) acc = acc * b ^ ys.length + value b ys := by
    intro ys
    induction ys with
    | nil => intro acc; simp
    | cons c ys ih =>
        intro acc
        have hvalue : value b (c :: ys) = (0 * b + digitVal c) * b ^ ys.length + value b ys := by
          rw [← ih]
          rfl
        rw [List.foldl_cons, ih, hvalue, List.length_cons, Nat.pow_succ', Nat.zero_mul,
          Nat.zero_add, Nat.add_mul, Nat.mul_assoc, Nat.add_assoc]
  intro ys
  rw [value, List.foldl_append, hfoldl]
  rfl

theorem value_hexPad : ∀ (w n : Nat), value 16 (hexPad w n) = n % 16 ^ w := by
  intro w
  induction w with
  | zero => intro n; simp [hexPad, Nat.mod_one]
  | succ w ih =>
      intro n
      have hd : digitVal (digitChar (n % 16)) = n % 16 :=
        digitVal_digitChar (Nat.mod_lt _ (by decide))
      rw [hexPad, value_append_singleton, ih, hd, Nat.pow_succ', Nat.mod_mul, Nat.mul_comm]
      omega

theorem hexPad_length : ∀ (w n : Nat), (hexPad w n).length = w := by
  intro w
  induction w with
  | zero => intro n; rfl
  | succ w ih => intro n; simp [hexPad, ih]

theorem hexPad_ne_nil {w : Nat} (h : 0 < w) (n : Nat) : hexPad w n ≠ [] := by
  rw [← List.length_pos_iff, hexPad_length]
  exact h

theorem isHex_of_mem_hexPad : ∀ {w n : Nat} {c : UInt8}, c ∈ hexPad w n → isHex c = true := by
  intro w
  induction w with
  | zero => intro n c hc; simp [hexPad] at hc
  | succ w ih =>
      intro n c hc
      rcases List.mem_append.mp hc with hc | hc
      · exact ih hc
      · rw [List.mem_singleton.mp hc]
        exact isHex_digitChar (Nat.mod_lt _ (by decide))

/-- Reading a numeral digit by digit, least significant digit first. -/
private theorem value_reverse_map (ds : List Nat) (h : ∀ d ∈ ds, d < 10) :
    value 10 (ds.reverse.map digitChar) = Nat.ofDigits 10 ds := by
  induction ds with
  | nil => rfl
  | cons d rest ih =>
      have hd : digitVal (digitChar d) = d :=
        digitVal_digitChar (Nat.lt_of_lt_of_le (h d (by simp)) (by decide))
      rw [List.reverse_cons, List.map_append, List.map_singleton, value_append_singleton,
        ih fun e he => h e (by simp [he]), hd, Nat.ofDigits_cons]
      omega

theorem value_decimal (n : Nat) : value 10 (decimal n) = n := by
  unfold decimal
  split
  · rename_i h
    rw [h]
    decide
  · rw [value_reverse_map _ fun d hd => Nat.digits_lt_base (by decide) hd, Nat.ofDigits_digits]

theorem isDigit_of_mem_decimal {n : Nat} {c : UInt8} (h : c ∈ decimal n) : isDigit c = true := by
  unfold decimal at h
  split at h
  · rw [List.mem_singleton.mp h]
    decide
  · obtain ⟨d, hd, rfl⟩ := List.mem_map.mp h
    exact isDigit_digitChar (Nat.digits_lt_base (by decide) (List.mem_reverse.mp hd))

theorem decimal_ne_nil (n : Nat) : decimal n ≠ [] := by
  unfold decimal
  split
  · simp
  · rename_i h
    simpa [Nat.digits_eq_nil_iff_eq_zero] using h

/-- A 64-bit number has at most twenty digits. -/
theorem decimal_length_le {n : Nat} (h : n < 2 ^ 64) : (decimal n).length ≤ 20 := by
  unfold decimal
  split
  · decide
  · rw [List.length_map, List.length_reverse, Nat.digits_length_le_iff (by decide)]
    omega

/-- A decimal numeral holds digits and perhaps a minus sign, nothing else. -/
theorem not_mem_decimalInt {z : Int} {c : UInt8} (hdigit : isDigit c = false) (hminus : c ≠ 45) :
    c ∉ decimalInt z := by
  have hdecimal : c ∉ decimal z.natAbs := fun hc => by
    rw [isDigit_of_mem_decimal hc] at hdigit
    exact Bool.noConfusion hdigit
  unfold decimalInt
  split
  · simp [hminus, hdecimal]
  · exact hdecimal

theorem not_isSpace_of_mem_decimalInt {z : Int} {c : UInt8} (h : c ∈ decimalInt z) :
    isSpace c = false := by
  cases hspace : isSpace c with
  | false => rfl
  | true =>
      have hminus : c ≠ 45 := fun hc => absurd (hc ▸ hspace) (by decide)
      exact absurd h (not_mem_decimalInt (not_isDigit_of_isSpace hspace) hminus)

end Bytes
