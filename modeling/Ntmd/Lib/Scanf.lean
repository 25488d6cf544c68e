/-
Reading numbers and lines the way the C library does.

`readInteger` is the common part of `strtol` and of the numeric conversions of
`sscanf`: leading white space, an optional sign, then as many digits as there are.
A `Directive` is one item of a `scanf` format, and `sscanf` runs a format over a
C string, collecting the values assigned until the first directive that fails.

The lemmas follow the way a line is proved to scan: a directive applied to the
text it is meant for, followed by anything that cannot be part of it, consumes
exactly that text.  `Stops p rest` is that side condition.
-/
import Ntmd.Lib.Bytes

namespace Scanf

open Bytes

/-- What is left of a text after an optional sign, and whether the sign was a minus. -/
def dropSign : Bytes → Bool × Bytes
  | 45 :: s => (true, s)
  | 43 :: s => (false, s)
  | s => (false, s)

/-- `strtol` in base ten: the number read and what is left, none if there is no digit. -/
def readDec (s : Bytes) : Option (Int × Bytes) :=
  let (neg, s) := dropSign (s.dropWhile isSpace)
  let ds := s.takeWhile isDigit
  if ds = [] then none
  else some (if neg then -(value 10 ds : Int) else value 10 ds, s.dropWhile isDigit)

/-- A hexadecimal numeral may begin with `0x`; it counts only when a digit follows. -/
def dropHexPrefix : Bytes → Bytes
  | 48 :: x :: c :: s => if (x = 120 || x = 88) && isHex c then c :: s else 48 :: x :: c :: s
  | s => s

/-- `strtoul` in base sixteen. -/
def readHex (s : Bytes) : Option (Int × Bytes) :=
  let (neg, s) := dropSign (s.dropWhile isSpace)
  let s := dropHexPrefix s
  let ds := s.takeWhile isHex
  if ds = [] then none
  else some (if neg then -(value 16 ds : Int) else value 16 ds, s.dropWhile isHex)

/-- The value `strtoul` returns: saturating, and modulo `2^64` for a negative numeral. -/
def clampULong (z : Int) : Nat := if z.natAbs < 2 ^ 64 then (z % 2 ^ 64).toNat else 2 ^ 64 - 1

/-- The value `strtol` returns: saturating at both ends of a 64-bit `long`. -/
def clampLong (z : Int) : Int := max (-2 ^ 63) (min z (2 ^ 63 - 1))

/-- The ways `std::stoi` throws. -/
inductive StoiError
  | invalidArgument
  | outOfRange
  deriving DecidableEq, Repr

/-- `std::stoi`: a decimal prefix of the text, refused when it does not fit an `int`. -/
def stoi (s : Bytes) : Except StoiError Int32 :=
  match readDec s with
  | none => .error .invalidArgument
  | some (z, _) => if -2 ^ 31 ≤ z ∧ z < 2 ^ 31 then .ok (Int32.ofInt z) else .error .outOfRange

/-- One item of a format: white space, a literal, or a conversion (`skip` ones carry a `*`). -/
inductive Directive
  | space
  | lit (c : UInt8)
  | set (width : Nat) (p : UInt8 → Bool)
  | hexShort
  | hexInt
  | long
  | skipDec
  | skipHex
  | skipWord (width : Nat)

/-- A value `sscanf` stores through one of its pointers. -/
inductive Arg
  | text (s : Bytes)
  | num (z : Int)
  deriving DecidableEq, Repr

/-- What a directive stores and what input it leaves, none when it fails. -/
def Directive.apply : Directive → Bytes → Option (List Arg × Bytes)
  | .space, s => some ([], s.dropWhile isSpace)
  | .lit c, s =>
      match s with
      | [] => none
      | d :: s => if d = c then some ([], s) else none
  | .set width p, s =>
      let m := (s.takeWhile p).take width
      if m = [] then none else some ([.text m], s.drop m.length)
  | .hexShort, s => (readHex s).map fun r => ([.num (clampULong r.1 % 2 ^ 16 : Nat)], r.2)
  | .hexInt, s => (readHex s).map fun r => ([.num (clampULong r.1 % 2 ^ 32 : Nat)], r.2)
  | .long, s => (readDec s).map fun r => ([.num (clampLong r.1)], r.2)
  | .skipDec, s => (readDec s).map fun r => ([], r.2)
  | .skipHex, s => (readHex s).map fun r => ([], r.2)
  | .skipWord width, s =>
      let s := s.dropWhile isSpace
      let m := (s.takeWhile fun c => !isSpace c).take width
      if m = [] then none else some ([], s.drop m.length)

/-- The values stored before the first directive that fails. -/
def scan : List Directive → Bytes → List Arg
  | [], _ => []
  | d :: ds, s =>
      match d.apply s with
      | none => []
      | some (vs, rest) => vs ++ scan ds rest

/-- `sscanf` on a line: only the text before a zero byte is there. -/
def sscanf (line : Bytes) (format : List Directive) : List Arg := scan format (cstr line)

/-! ### A directive on the text it is meant for -/

/-- The text does not go on with a character of the class. -/
def Stops (p : UInt8 → Bool) (rest : Bytes) : Prop := ∀ c, rest.head? = some c → p c = false

@[simp] theorem stops_nil (p : UInt8 → Bool) : Stops p [] := by
  intro c h
  simp at h

@[simp] theorem stops_cons {p : UInt8 → Bool} {c : UInt8} {rest : Bytes} :
    Stops p (c :: rest) ↔ p c = false := by
  simp [Stops]

theorem takeWhile_append_stop {p : UInt8 → Bool} {s rest : Bytes} (hs : ∀ c ∈ s, p c = true)
    (hrest : Stops p rest) : (s ++ rest).takeWhile p = s := by
  rw [List.takeWhile_append_of_pos hs]
  cases rest with
  | nil => simp
  | cons c rest => simp [stops_cons.mp hrest]

theorem dropWhile_append_stop {p : UInt8 → Bool} {s rest : Bytes} (hs : ∀ c ∈ s, p c = true)
    (hrest : Stops p rest) : (s ++ rest).dropWhile p = rest := by
  rw [List.dropWhile_append_of_pos hs]
  cases rest with
  | nil => rfl
  | cons c rest => simp [stops_cons.mp hrest]

theorem dropWhile_stop {p : UInt8 → Bool} {s : Bytes} (h : Stops p s) : s.dropWhile p = s := by
  cases s with
  | nil => rfl
  | cons c s => simp [stops_cons.mp h]

theorem dropSign_of_isHex {c : UInt8} {s : Bytes} (h : isHex c = true) :
    dropSign (c :: s) = (false, c :: s) := by
  have h45 : c ≠ 45 := ne_of_isHex h (by decide)
  have h43 : c ≠ 43 := ne_of_isHex h (by decide)
  unfold dropSign
  split <;> simp_all

theorem dropHexPrefix_of_hex {s rest : Bytes} (hs : ∀ c ∈ s, isHex c = true)
    (hrest : Stops (fun c => isHex c || c == 120 || c == 88) rest) :
    dropHexPrefix (s ++ rest) = s ++ rest := by
  -- The second character decides: it is a digit of `s` or the first of `rest`, never an `x`.
  have key : ∀ (x : UInt8) (t : Bytes), s ++ rest = 48 :: x :: t → x ≠ 120 ∧ x ≠ 88 := by
    intro x t h
    have hx : isHex x = true ∨ (isHex x || x == 120 || x == 88) = false := by
      match s, hs, h with
      | [], _, h =>
          rw [List.nil_append] at h
          rw [h] at hrest
          exact absurd (stops_cons.mp hrest) (by decide)
      | [_], _, h =>
          rw [List.singleton_append, List.cons.injEq] at h
          rw [h.2] at hrest
          exact Or.inr (stops_cons.mp hrest)
      | _ :: d :: s', hs, h =>
          simp only [List.cons_append, List.cons.injEq] at h
          rw [← h.2.1]
          exact Or.inl (hs d (by simp))
    rcases hx with hx | hx
    · exact ⟨ne_of_isHex hx (by decide), ne_of_isHex hx (by decide)⟩
    · simp only [Bool.or_eq_false_iff, beq_eq_false_iff_ne] at hx
      exact ⟨hx.1.2, hx.2⟩
  unfold dropHexPrefix
  split
  · rename_i x c t h
    obtain ⟨h120, h88⟩ := key x (c :: t) h
    rw [if_neg (by simp [h120, h88])]
    exact h.symm
  · rfl

theorem readDec_digits {ds rest : Bytes} (hne : ds ≠ []) (hds : ∀ c ∈ ds, isDigit c = true)
    (hrest : Stops isDigit rest) : readDec (ds ++ rest) = some ((value 10 ds : Int), rest) := by
  obtain ⟨c, t, rfl⟩ := List.exists_cons_of_ne_nil hne
  have hc : isHex c = true := isHex_of_isDigit (hds c (by simp))
  unfold readDec
  rw [List.cons_append, dropWhile_stop (stops_cons.mpr (not_isSpace_of_isHex hc)),
    dropSign_of_isHex hc, ← List.cons_append]
  simp only [takeWhile_append_stop hds hrest, dropWhile_append_stop hds hrest]
  simp

theorem readDec_minus {ds rest : Bytes} (hne : ds ≠ []) (hds : ∀ c ∈ ds, isDigit c = true)
    (hrest : Stops isDigit rest) :
    readDec (45 :: (ds ++ rest)) = some (-(value 10 ds : Int), rest) := by
  unfold readDec
  rw [dropWhile_stop (stops_cons.mpr (by decide : isSpace 45 = false))]
  simp only [dropSign]
  rw [takeWhile_append_stop hds hrest, dropWhile_append_stop hds hrest]
  simp [hne]

theorem readDec_decimalInt (z : Int) {rest : Bytes} (hrest : Stops isDigit rest) :
    readDec (decimalInt z ++ rest) = some (z, rest) := by
  have hds : ∀ c ∈ decimal z.natAbs, isDigit c = true := fun c hc => isDigit_of_mem_decimal hc
  unfold decimalInt
  split
  · rw [List.cons_append, readDec_minus (decimal_ne_nil _) hds hrest, value_decimal]
    congr 2
    omega
  · rw [readDec_digits (decimal_ne_nil _) hds hrest, value_decimal]
    congr 2
    omega

theorem readHex_digits {ds rest : Bytes} (hne : ds ≠ []) (hds : ∀ c ∈ ds, isHex c = true)
    (hrest : Stops (fun c => isHex c || c == 120 || c == 88) rest) :
    readHex (ds ++ rest) = some ((value 16 ds : Int), rest) := by
  have hpre : dropHexPrefix (ds ++ rest) = ds ++ rest := dropHexPrefix_of_hex hds hrest
  have hstop : Stops isHex rest := by
    intro c hc
    have := hrest c hc
    simp only [Bool.or_eq_false_iff] at this
    exact this.1.1
  obtain ⟨c, t, rfl⟩ := List.exists_cons_of_ne_nil hne
  have hc : isHex c = true := hds c (by simp)
  rw [List.cons_append] at hpre
  unfold readHex
  rw [List.cons_append, dropWhile_stop (stops_cons.mpr (not_isSpace_of_isHex hc)),
    dropSign_of_isHex hc]
  simp only [hpre]
  rw [← List.cons_append, takeWhile_append_stop hds hstop, dropWhile_append_stop hds hstop]
  simp

/-! ### Scanning on -/

/-- White space before a number is skipped. -/
theorem readDec_pad {pad s : Bytes} (hpad : ∀ c ∈ pad, isSpace c = true) (hs : Stops isSpace s) :
    readDec (pad ++ s) = readDec s := by
  unfold readDec
  rw [dropWhile_append_stop hpad hs, dropWhile_stop hs]

theorem stops_append {p : UInt8 → Bool} {s rest : Bytes} (hne : s ≠ [])
    (hs : ∀ c ∈ s, p c = false) : Stops p (s ++ rest) := by
  obtain ⟨c, t, rfl⟩ := List.exists_cons_of_ne_nil hne
  exact stops_cons.mpr (hs c List.mem_cons_self)

/-- Nothing that is read as a number or a numeral begins with white space. -/
theorem stops_isSpace_hex {ds rest : Bytes} (hne : ds ≠ []) (hds : ∀ c ∈ ds, isHex c = true) :
    Stops isSpace (ds ++ rest) :=
  stops_append hne fun c hc => not_isSpace_of_isHex (hds c hc)

theorem stops_isSpace_decimalInt (z : Int) (rest : Bytes) :
    Stops isSpace (decimalInt z ++ rest) := by
  have hdecimal : Stops isSpace (decimal z.natAbs ++ rest) :=
    stops_isSpace_hex (decimal_ne_nil _) fun c hc => isHex_of_isDigit (isDigit_of_mem_decimal hc)
  unfold decimalInt
  split
  · exact stops_cons.mpr (by decide)
  · exact hdecimal

theorem scan_cons {d : Directive} {ds : List Directive} {s rest : Bytes} {vs : List Arg}
    (h : d.apply s = some (vs, rest)) : scan (d :: ds) s = vs ++ scan ds rest := by
  rw [scan, h]

theorem scan_lit (c : UInt8) (ds : List Directive) (rest : Bytes) :
    scan (.lit c :: ds) (c :: rest) = scan ds rest := by
  have hstep : (Directive.lit c).apply (c :: rest) = some ([], rest) := by
    simp [Directive.apply]
  rw [scan_cons hstep, List.nil_append]

theorem scan_space {pad : Bytes} (hpad : ∀ c ∈ pad, isSpace c = true) {ds : List Directive}
    {rest : Bytes} (hrest : Stops isSpace rest) :
    scan (.space :: ds) (pad ++ rest) = scan ds rest := by
  have hstep : Directive.space.apply (pad ++ rest) = some ([], rest) := by
    rw [Directive.apply, dropWhile_append_stop hpad hrest]
  rw [scan_cons hstep, List.nil_append]

theorem scan_skipDec (z : Int) (ds : List Directive) {rest : Bytes} (hrest : Stops isDigit rest) :
    scan (.skipDec :: ds) (decimalInt z ++ rest) = scan ds rest := by
  have hstep : Directive.skipDec.apply (decimalInt z ++ rest) = some ([], rest) := by
    rw [Directive.apply, readDec_decimalInt z hrest]
    rfl
  rw [scan_cons hstep, List.nil_append]

/-- A numeral may have white space before it. -/
theorem scan_skipDec_pad {pad : Bytes} (hpad : ∀ c ∈ pad, isSpace c = true) (z : Int)
    (ds : List Directive) {rest : Bytes} (hrest : Stops isDigit rest) :
    scan (.skipDec :: ds) (pad ++ (decimalInt z ++ rest)) = scan ds rest := by
  have hstep : Directive.skipDec.apply (pad ++ (decimalInt z ++ rest)) = some ([], rest) := by
    rw [Directive.apply, readDec_pad hpad (stops_isSpace_decimalInt z rest),
      readDec_decimalInt z hrest]
    rfl
  rw [scan_cons hstep, List.nil_append]

theorem scan_long {z : Int} (hlo : -2 ^ 63 ≤ z) (hhi : z < 2 ^ 63) (ds : List Directive)
    {rest : Bytes} (hrest : Stops isDigit rest) :
    scan (.long :: ds) (decimalInt z ++ rest) = .num z :: scan ds rest := by
  have hclamp : clampLong z = z := by
    unfold clampLong
    omega
  have hstep : Directive.long.apply (decimalInt z ++ rest) = some ([.num z], rest) := by
    rw [Directive.apply, readDec_decimalInt z hrest, Option.map_some, hclamp]
  rw [scan_cons hstep, List.singleton_append]

theorem scan_skipHex {hx : Bytes} (hne : hx ≠ []) (hhx : ∀ c ∈ hx, isHex c = true)
    (ds : List Directive) {rest : Bytes}
    (hrest : Stops (fun c => isHex c || c == 120 || c == 88) rest) :
    scan (.skipHex :: ds) (hx ++ rest) = scan ds rest := by
  have hstep : Directive.skipHex.apply (hx ++ rest) = some ([], rest) := by
    rw [Directive.apply, readHex_digits hne hhx hrest]
    rfl
  rw [scan_cons hstep, List.nil_append]

theorem scan_set {width : Nat} {p : UInt8 → Bool} {text : Bytes} (hne : text ≠ [])
    (hlen : text.length ≤ width) (htext : ∀ c ∈ text, p c = true) (ds : List Directive)
    {rest : Bytes} (hrest : Stops p rest) :
    scan (.set width p :: ds) (text ++ rest) = .text text :: scan ds rest := by
  have hmatch : ((text ++ rest).takeWhile p).take width = text := by
    rw [takeWhile_append_stop htext hrest, List.take_of_length_le hlen]
  have hstep : (Directive.set width p).apply (text ++ rest) = some ([.text text], rest) := by
    simp [Directive.apply, hmatch, hne]
  rw [scan_cons hstep, List.singleton_append]

/-- A number that fits 64 bits is returned as it is. -/
theorem clampULong_natCast {n : Nat} (h : n < 2 ^ 64) : clampULong n = n := by
  unfold clampULong
  rw [if_pos (by simpa using h)]
  omega

/-- A number printed with `%08X` or `%04X` is read back, if the digits were enough for it. -/
theorem readHex_hexPad {w n : Nat} (hw : 0 < w) (hn : n < 16 ^ w) {rest : Bytes}
    (hrest : Stops (fun c => isHex c || c == 120 || c == 88) rest) :
    readHex (hexPad w n ++ rest) = some ((n : Int), rest) := by
  rw [readHex_digits (hexPad_ne_nil hw n) (fun c hc => isHex_of_mem_hexPad hc) hrest,
    value_hexPad, Nat.mod_eq_of_lt hn]

/-- `%hX` on a number printed with `%04X`. -/
theorem scan_hexShort {n : Nat} (hn : n < 2 ^ 16) (ds : List Directive) {rest : Bytes}
    (hrest : Stops (fun c => isHex c || c == 120 || c == 88) rest) :
    scan (.hexShort :: ds) (hexPad 4 n ++ rest) = .num n :: scan ds rest := by
  have hclamp : clampULong n % 2 ^ 16 = n := by
    rw [clampULong_natCast (by omega), Nat.mod_eq_of_lt hn]
  have hstep : Directive.hexShort.apply (hexPad 4 n ++ rest) = some ([.num n], rest) := by
    rw [Directive.apply, readHex_hexPad (by decide) hn hrest, Option.map_some, hclamp]
  rw [scan_cons hstep, List.singleton_append]

/-- `%X` on a number printed with `%08X`. -/
theorem scan_hexInt {n : Nat} (hn : n < 2 ^ 32) : scan [.hexInt] (hexPad 8 n) = [.num n] := by
  have hclamp : clampULong n % 2 ^ 32 = n := by
    rw [clampULong_natCast (by omega), Nat.mod_eq_of_lt hn]
  have hstep : Directive.hexInt.apply (hexPad 8 n) = some ([.num n], []) := by
    rw [Directive.apply, ← List.append_nil (hexPad 8 n),
      readHex_hexPad (by decide) hn (stops_nil _), Option.map_some, hclamp]
  rw [scan_cons hstep]
  rfl

/-! ### Whole texts -/

/-- Digits with an optional sign before them, and the number they stand for. -/
inductive IsNumeral : Bytes → Int → Prop
  | plain {ds : Bytes} : ds ≠ [] → (∀ c ∈ ds, isDigit c = true) → IsNumeral ds (value 10 ds)
  | plus {ds : Bytes} : ds ≠ [] → (∀ c ∈ ds, isDigit c = true) →
      IsNumeral (43 :: ds) (value 10 ds)
  | minus {ds : Bytes} : ds ≠ [] → (∀ c ∈ ds, isDigit c = true) →
      IsNumeral (45 :: ds) (-(value 10 ds : Int))

/-- The text is a decimal integer, but for white space around it. -/
def IsDecimal (s : Bytes) (z : Int) : Prop :=
  ∃ pad num post, s = pad ++ (num ++ post) ∧ (∀ c ∈ pad, isSpace c = true) ∧
    (∀ c ∈ post, isSpace c = true) ∧ IsNumeral num z

theorem readDec_plus {ds rest : Bytes} (hne : ds ≠ []) (hds : ∀ c ∈ ds, isDigit c = true)
    (hrest : Stops isDigit rest) :
    readDec (43 :: (ds ++ rest)) = some ((value 10 ds : Int), rest) := by
  unfold readDec
  rw [dropWhile_stop (stops_cons.mpr (by decide : isSpace 43 = false))]
  simp only [dropSign]
  rw [takeWhile_append_stop hds hrest, dropWhile_append_stop hds hrest]
  simp [hne]

theorem readDec_numeral {num rest : Bytes} {z : Int} (h : IsNumeral num z)
    (hrest : Stops isDigit rest) : readDec (num ++ rest) = some (z, rest) := by
  cases h with
  | plain hne hds => exact readDec_digits hne hds hrest
  | plus hne hds => exact readDec_plus hne hds hrest
  | minus hne hds => exact readDec_minus hne hds hrest

theorem IsNumeral.stops_isSpace {num : Bytes} {z : Int} (h : IsNumeral num z) (rest : Bytes) :
    Stops isSpace (num ++ rest) := by
  cases h with
  | plain hne hds => exact stops_isSpace_hex hne fun c hc => isHex_of_isDigit (hds c hc)
  | plus _ _ => exact stops_cons.mpr (by decide)
  | minus _ _ => exact stops_cons.mpr (by decide)

/-- What is left after an optional sign. -/
theorem dropSign_cases (s : Bytes) :
    s = 45 :: (dropSign s).2 ∧ (dropSign s).1 = true ∨
      (s = 43 :: (dropSign s).2 ∨ s = (dropSign s).2) ∧ (dropSign s).1 = false := by
  unfold dropSign
  split
  · exact Or.inl ⟨rfl, rfl⟩
  · exact Or.inr ⟨Or.inl rfl, rfl⟩
  · exact Or.inr ⟨Or.inr rfl, rfl⟩

/-- A number that is read is a numeral behind white space. -/
theorem of_readDec {s rest : Bytes} {z : Int} (h : readDec s = some (z, rest)) :
    ∃ pad num, s = pad ++ (num ++ rest) ∧ (∀ c ∈ pad, isSpace c = true) ∧ IsNumeral num z := by
  have hpad : s = s.takeWhile isSpace ++ s.dropWhile isSpace := List.takeWhile_append_dropWhile.symm
  have hsign := dropSign_cases (s.dropWhile isSpace)
  unfold readDec at h
  generalize dropSign (s.dropWhile isSpace) = signed at h hsign
  obtain ⟨neg, t⟩ := signed
  dsimp only at h hsign
  split at h
  · exact absurd h (by simp)
  · rename_i hne
    have hdigits : t = t.takeWhile isDigit ++ t.dropWhile isDigit :=
      List.takeWhile_append_dropWhile.symm
    have hds : ∀ c ∈ t.takeWhile isDigit, isDigit c = true := fun c hc =>
      List.mem_takeWhile_imp hc
    obtain ⟨hz, hrest⟩ := Prod.mk.inj (Option.some.inj h)
    have hspaces : ∀ c ∈ s.takeWhile isSpace, isSpace c = true := fun c hc =>
      List.mem_takeWhile_imp hc
    rw [hrest] at hdigits
    rcases hsign with ⟨hs, rfl⟩ | ⟨hs | hs, rfl⟩
    · refine ⟨_, 45 :: t.takeWhile isDigit, ?_, hspaces, hz ▸ IsNumeral.minus hne hds⟩
      rw [List.cons_append, ← hdigits, ← hs]
      exact hpad
    · refine ⟨_, 43 :: t.takeWhile isDigit, ?_, hspaces, hz ▸ IsNumeral.plus hne hds⟩
      rw [List.cons_append, ← hdigits, ← hs]
      exact hpad
    · refine ⟨_, t.takeWhile isDigit, ?_, hspaces, hz ▸ IsNumeral.plain hne hds⟩
      rw [← hdigits, ← hs]
      exact hpad

/-- **A text is a decimal integer exactly if it is read with nothing but white space left.** -/
theorem isDecimal_iff {s : Bytes} {z : Int} :
    IsDecimal s z ↔ ∃ rest, readDec s = some (z, rest) ∧ ∀ c ∈ rest, isSpace c = true := by
  constructor
  · rintro ⟨pad, num, post, rfl, hpad, hpost, hnum⟩
    have hstop : Stops isDigit post := fun c hc =>
      not_isDigit_of_isSpace (hpost c (List.mem_of_head? hc))
    exact ⟨post, by rw [readDec_pad hpad (hnum.stops_isSpace post), readDec_numeral hnum hstop],
      hpost⟩
  · rintro ⟨rest, hread, hrest⟩
    obtain ⟨pad, num, hs, hpad, hnum⟩ := of_readDec hread
    exact ⟨pad, num, rest, hs, hpad, hrest, hnum⟩

/-- The number fits an `int`. -/
def IsInt (z : Int) : Prop := -2 ^ 31 ≤ z ∧ z < 2 ^ 31

instance (z : Int) : Decidable (IsInt z) := inferInstanceAs (Decidable (_ ∧ _))

theorem isInt_toInt (n : Int32) : IsInt n.toInt := ⟨n.le_toInt, n.toInt_lt⟩

theorem IsInt.toInt_ofInt {z : Int} (h : IsInt z) : (Int32.ofInt z).toInt = z :=
  Int32.toInt_ofInt_of_le h.1 h.2

/-- The text begins with the number, behind white space. -/
def BeginsWith (s : Bytes) (z : Int) : Prop := ∃ rest, readDec s = some (z, rest)

theorem BeginsWith.unique {s : Bytes} {z z' : Int} (h : BeginsWith s z) (h' : BeginsWith s z') :
    z = z' := by
  obtain ⟨rest, hread⟩ := h
  obtain ⟨rest', hread'⟩ := h'
  rw [hread] at hread'
  exact (Prod.mk.inj (Option.some.inj hread')).1

theorem IsDecimal.beginsWith {s : Bytes} {z : Int} (h : IsDecimal s z) : BeginsWith s z := by
  obtain ⟨rest, hread, -⟩ := isDecimal_iff.mp h
  exact ⟨rest, hread⟩

/-- What goes on after its number is no decimal integer. -/
theorem not_isDecimal {s rest : Bytes} {z : Int} (h : readDec s = some (z, rest)) {c : UInt8}
    (hmem : c ∈ rest) (hc : isSpace c = false) : ¬ ∃ z, IsDecimal s z := by
  rintro ⟨z', hz'⟩
  obtain ⟨rest', hread, hspaces⟩ := isDecimal_iff.mp hz'
  obtain ⟨-, rfl⟩ := Prod.mk.inj (Option.some.inj (h.symm.trans hread))
  rw [hspaces c hmem] at hc
  exact Bool.noConfusion hc

/-- `std::stoi` takes the number a text begins with, if it fits an `int`. -/
theorem stoi_eq_ok_iff {s : Bytes} {n : Int32} : stoi s = .ok n ↔ BeginsWith s n.toInt := by
  unfold stoi BeginsWith
  cases hread : readDec s with
  | none => simp
  | some r =>
      obtain ⟨z, rest⟩ := r
      by_cases hz : -2 ^ 31 ≤ z ∧ z < 2 ^ 31
      · have hofInt : (Int32.ofInt z).toInt = z := IsInt.toInt_ofInt hz
        simp only [if_pos hz, Except.ok.injEq, Option.some.injEq, Prod.mk.injEq, exists_and_left,
          exists_eq', and_true]
        constructor
        · rintro rfl
          exact hofInt.symm
        · rintro rfl
          exact Int32.ofInt_toInt n
      · simp only [if_neg hz, reduceCtorEq, Option.some.injEq, Prod.mk.injEq, exists_and_left,
          exists_eq', and_true, false_iff]
        rintro rfl
        exact hz (isInt_toInt n)

/-- The text begins with a number that fits an `int`. -/
def BeginsWithInt (s : Bytes) : Prop := ∃ z, BeginsWith s z ∧ IsInt z

theorem beginsWithInt_iff {s : Bytes} : BeginsWithInt s ↔ ∃ n, stoi s = .ok n := by
  constructor
  · rintro ⟨z, hz, hfits⟩
    refine ⟨Int32.ofInt z, stoi_eq_ok_iff.mpr ?_⟩
    rw [hfits.toInt_ofInt]
    exact hz
  · rintro ⟨n, hn⟩
    exact ⟨n.toInt, stoi_eq_ok_iff.mp hn, isInt_toInt n⟩

/-- Every other text is refused. -/
theorem stoi_error {s : Bytes} (h : ¬ BeginsWithInt s) : ∃ e, stoi s = .error e := by
  cases hstoi : stoi s with
  | error e => exact ⟨e, rfl⟩
  | ok n => exact absurd (beginsWithInt_iff.mpr ⟨n, hstoi⟩) h

/-- A number that was printed is read back. -/
theorem stoi_decimalInt {z : Int} (h : IsInt z) : stoi (decimalInt z) = .ok (Int32.ofInt z) := by
  have hread := readDec_decimalInt z (stops_nil isDigit)
  rw [List.append_nil] at hread
  rw [stoi, hread]
  exact if_pos h

end Scanf
