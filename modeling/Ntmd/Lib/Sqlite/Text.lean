/-
How SQLite reads the text of a statement, as far as names are concerned.

The lexer is a transducer: a state, one byte at a time, and the tokens emitted so
far.  That makes it compositional, so the fixed part of a statement's text is
evaluated once and only the name in the middle needs an induction.  Inside double
quotes a quote must be doubled; the state `closing` is the moment after a quote,
when the next byte says whether it was the end of the identifier.  Only the first
statement of a text is compiled, so nothing after its semicolon is read.

`lex_quoted_cases` is the fact everything about names rests on: what is read back
as a quoted identifier is the text with its doubled quotes undone, and nothing else.
-/
import Ntmd.Lib.Bytes

namespace Sqlite

open Bytes

/-- The double quote that delimits an identifier. -/
abbrev dquote : UInt8 := 34

/-- The semicolon that ends a statement. -/
abbrev semicolon : UInt8 := 59

inductive Token
  | word (w : Bytes)
  | quoted (name : Bytes)
  | sym (s : Bytes)
  deriving DecidableEq, Repr

inductive LexState
  | start
  | word (acc : Bytes)
  | angle (c : UInt8)
  | quoted (acc : Bytes)
  | closing (acc : Bytes)
  | ended
  deriving DecidableEq, Repr

/-- Letters, digits, underscore and every byte of a multi-byte character. -/
def isWordChar (c : UInt8) : Bool :=
  isDigit c || (65 ≤ c && c ≤ 90) || (97 ≤ c && c ≤ 122) || c == 95 || 128 ≤ c

/-- The first byte of a token. -/
def startToken (c : UInt8) : List Token × LexState :=
  if isSpace c then ([], .start)
  else if c = dquote then ([], .quoted [])
  else if c = semicolon then ([.sym [c]], .ended)
  else if isWordChar c then ([], .word [c])
  else if c = 60 ∨ c = 62 then ([], .angle c)
  else ([.sym [c]], .start)

/-- One byte more: the tokens it completes and the state it leaves. -/
def feed : LexState → UInt8 → List Token × LexState
  | .start, c => startToken c
  | .word acc, c =>
      if isWordChar c then ([], .word (acc ++ [c]))
      else (.word acc :: (startToken c).1, (startToken c).2)
  | .angle o, c =>
      if c = 61 then ([.sym [o, c]], .start)
      else (.sym [o] :: (startToken c).1, (startToken c).2)
  | .quoted acc, c => if c = dquote then ([], .closing acc) else ([], .quoted (acc ++ [c]))
  | .closing acc, c =>
      if c = dquote then ([], .quoted (acc ++ [c]))
      else (.quoted acc :: (startToken c).1, (startToken c).2)
  | .ended, _ => ([], .ended)

/-- The token still open at the end of the text; an open quote is an error. -/
def flush : LexState → Option (List Token)
  | .start => some []
  | .word acc => some [.word acc]
  | .angle c => some [.sym [c]]
  | .quoted _ => none
  | .closing acc => some [.quoted acc]
  | .ended => some []

/-- The tokens of the rest of a text, from a state of the lexer. -/
def lex (st : LexState) : Bytes → Option (List Token)
  | [] => flush st
  | c :: s => (lex (feed st c).2 s).map ((feed st c).1 ++ ·)

/-- The tokens a text completes and the state it leaves, whatever follows it. -/
def lexPrefix (st : LexState) : Bytes → List Token × LexState
  | [] => ([], st)
  | c :: s => ((feed st c).1 ++ (lexPrefix (feed st c).2 s).1, (lexPrefix (feed st c).2 s).2)

/-- The tokens of a text. -/
def tokens (text : Bytes) : Option (List Token) := lex .start text

/-- Table names are compared ignoring ASCII case. -/
def sameName (a b : Bytes) : Bool := a.map toLower == b.map toLower

/-- Names the engine keeps for itself. -/
def isReserved (name : Bytes) : Bool := (name.take 7).map toLower == ascii "sqlite_"

@[simp] theorem sameName_refl (a : Bytes) : sameName a a = true := by simp [sameName]

theorem sameName_iff {a b : Bytes} : sameName a b = true ↔ a.map toLower = b.map toLower := by
  simp [sameName]

/-! ### Lexing a text in pieces -/

theorem lex_append : ∀ (a b : Bytes) (st : LexState),
    lex st (a ++ b) = (lex (lexPrefix st a).2 b).map ((lexPrefix st a).1 ++ ·) := by
  intro a
  induction a with
  | nil => intro b st; simp [lexPrefix]
  | cons c a ih =>
      intro b st
      rw [List.cons_append, lex, ih, Option.map_map]
      congr 1
      funext ts
      simp [lexPrefix]

/-- A byte that completes no token only changes the state. -/
theorem lex_of_feed {st st' : LexState} {c : UInt8} {s : Bytes} (h : feed st c = ([], st')) :
    lex st (c :: s) = lex st' s := by
  simp [lex, h]

/-- What follows a complete identifier is read as if it stood alone. -/
theorem lex_closing {acc rest : Bytes} (h : rest.head? ≠ some dquote) :
    lex (.closing acc) rest = (lex .start rest).map (.quoted acc :: ·) := by
  cases rest with
  | nil => rfl
  | cons c rest =>
      have hc : c ≠ dquote := by simpa using h
      simp only [lex, feed, if_neg hc, Option.map_map]
      congr 1

theorem lex_quoted_cons {acc s : Bytes} {c : UInt8} (h : c ≠ dquote) :
    lex (.quoted acc) (c :: s) = lex (.quoted (acc ++ [c])) s := by
  simp [lex, feed, h]

theorem lex_quoted_doubled {acc s : Bytes} :
    lex (.quoted acc) (dquote :: dquote :: s) = lex (.quoted (acc ++ [dquote])) s := by
  simp [lex, feed]

theorem lex_quoted_close {acc s : Bytes} :
    lex (.quoted acc) (dquote :: s) = lex (.closing acc) s := by
  simp [lex, feed]

/-- A name without quotes is read back as it stands. -/
theorem lex_quoted_plain : ∀ {name : Bytes} {acc rest : Bytes}, dquote ∉ name →
    rest.head? ≠ some dquote →
    lex (.quoted acc) (name ++ dquote :: rest)
      = (lex .start rest).map (.quoted (acc ++ name) :: ·) := by
  intro name
  induction name with
  | nil =>
      intro acc rest _ hrest
      rw [List.nil_append, lex_quoted_close, lex_closing hrest, List.append_nil]
  | cons c name ih =>
      intro acc rest hname hrest
      have hc : c ≠ dquote := fun h => hname (by simp [h])
      rw [List.cons_append, lex_quoted_cons hc, ih (fun h => hname (by simp [h])) hrest,
        List.append_assoc, List.singleton_append]

/-- A text without quotes does not close the quote it is in. -/
theorem lex_quoted_open : ∀ {s : Bytes} {acc : Bytes}, dquote ∉ s → lex (.quoted acc) s = none := by
  intro s
  induction s with
  | nil => intro acc _; rfl
  | cons c s ih =>
      intro acc hs
      rw [lex_quoted_cons fun h => hs (by simp [h])]
      exact ih fun h => hs (by simp [h])

/-! ### Words and numerals -/

/-- A run of word characters is one token, up to the first byte that is none. -/
theorem lex_word : ∀ {ds : Bytes} {acc rest : Bytes} {c : UInt8}, (∀ d ∈ ds, isWordChar d = true) →
    isWordChar c = false →
    lex (.word acc) (ds ++ c :: rest)
      = (lex .start (c :: rest)).map (.word (acc ++ ds) :: ·) := by
  intro ds
  induction ds with
  | nil =>
      intro acc rest c _ hc
      simp only [List.nil_append, lex, feed, hc, Bool.false_eq_true, if_false, Option.map_map,
        List.append_nil]
      congr 1
  | cons d ds ih =>
      intro acc rest c hds hc
      have hd : isWordChar d = true := hds d List.mem_cons_self
      have hstep : feed (.word acc) d = ([], .word (acc ++ [d])) := by simp [feed, hd]
      rw [List.cons_append, lex_of_feed hstep,
        ih (fun e he => hds e (List.mem_cons_of_mem _ he)) hc, List.append_assoc,
        List.singleton_append]

theorem isWordChar_of_isDigit {c : UInt8} (h : isDigit c = true) : isWordChar c = true := by
  simp [isWordChar, h]

/-- A digit starts a word. -/
theorem startToken_of_isDigit {c : UInt8} (h : isDigit c = true) : startToken c = ([], .word [c]) := by
  have hspace := not_isSpace_of_isHex (isHex_of_isDigit h)
  have hquote : c ≠ dquote := ne_of_isHex (isHex_of_isDigit h) (by decide)
  have hsemi : c ≠ semicolon := ne_of_isHex (isHex_of_isDigit h) (by decide)
  simp [startToken, hspace, hquote, hsemi, isWordChar_of_isDigit h]

theorem lex_digits {ds rest : Bytes} {c : UInt8} (hne : ds ≠ []) (hds : ∀ d ∈ ds, isDigit d = true)
    (hc : isWordChar c = false) :
    lex .start (ds ++ c :: rest) = (lex .start (c :: rest)).map (.word ds :: ·) := by
  cases ds with
  | nil => exact absurd rfl hne
  | cons d ds =>
      have hrest : ∀ e ∈ ds, isWordChar e = true := fun e he =>
        isWordChar_of_isDigit (hds e (List.mem_cons_of_mem _ he))
      have hstep : feed .start d = ([], .word [d]) :=
        startToken_of_isDigit (hds d List.mem_cons_self)
      rw [List.cons_append, lex_of_feed hstep, lex_word hrest hc, List.singleton_append]

/-- The tokens of a numeral: a minus sign is one of its own. -/
def intTokens (z : Int) : List Token :=
  if z < 0 then [.sym [45], .word (decimal z.natAbs)] else [.word (decimal z.natAbs)]

theorem lex_decimalInt {z : Int} {rest : Bytes} {c : UInt8} (hc : isWordChar c = false) :
    lex .start (decimalInt z ++ c :: rest)
      = (lex .start (c :: rest)).map (intTokens z ++ ·) := by
  have hdigits : lex .start (decimal z.natAbs ++ c :: rest)
      = (lex .start (c :: rest)).map (.word (decimal z.natAbs) :: ·) :=
    lex_digits (decimal_ne_nil z.natAbs) (fun d => isDigit_of_mem_decimal) hc
  unfold decimalInt intTokens
  split
  · -- the sign is a token by itself
    have hminus : startToken 45 = ([.sym [45]], .start) := by decide
    rw [List.cons_append, lex, feed, hminus, hdigits, Option.map_map]
    congr 1
  · rw [hdigits]
    congr 1

/-! ### Doubled quotes -/

/-- The text that stands for a name between double quotes. -/
def escape (name : Bytes) : Bytes := name.flatMap fun c => if c = dquote then [c, c] else [c]

@[simp] theorem escape_nil : escape [] = [] := rfl

theorem escape_cons (c : UInt8) (name : Bytes) :
    escape (c :: name) = (if c = dquote then [c, c] else [c]) ++ escape name := by
  simp [escape]

theorem count_escape (name : Bytes) : (escape name).count dquote = 2 * name.count dquote := by
  induction name with
  | nil => rfl
  | cons c name ih =>
      rw [escape_cons, List.count_append, ih, List.count_cons]
      by_cases hc : c = dquote
      · simp [hc]
        omega
      · simp [hc]

/--
**A quoted identifier is its text with the doubled quotes undone.**  Either the
quote is never closed, or the text is an escaped name, a quote, and a rest that is
read as if it stood alone.
-/
theorem lex_quoted_cases : ∀ (n : Nat) (s acc : Bytes), s.length ≤ n →
    lex (.quoted acc) s = none ∨
      ∃ name rest, s = escape name ++ dquote :: rest ∧
        lex (.quoted acc) s = (lex .start rest).map (.quoted (acc ++ name) :: ·) := by
  intro n
  induction n with
  | zero =>
      intro s acc hs
      rw [List.length_eq_zero_iff.mp (Nat.le_zero.mp hs)]
      exact Or.inl rfl
  | succ n ih =>
      intro s acc hs
      match s, hs with
      | [], _ => exact Or.inl rfl
      | c :: s, hs =>
          by_cases hc : c = dquote
          · subst hc
            by_cases hnext : s.head? = some dquote
            · -- a doubled quote: one quote of the name
              obtain ⟨s', rfl⟩ : ∃ s', s = dquote :: s' := by
                cases s with
                | nil => simp at hnext
                | cons d s' => exact ⟨s', by simpa using hnext⟩
              rw [lex_quoted_doubled]
              rcases ih s' (acc ++ [dquote]) (by simp at hs; omega) with h | ⟨name, rest, hs', h⟩
              · exact Or.inl h
              · refine Or.inr ⟨dquote :: name, rest, ?_, ?_⟩
                · rw [escape_cons, if_pos rfl, hs']
                  rfl
                · rw [h, List.append_assoc, List.singleton_append]
            · -- the closing quote
              refine Or.inr ⟨[], s, rfl, ?_⟩
              rw [lex_quoted_close, lex_closing hnext, List.append_nil]
          · rw [lex_quoted_cons hc]
            rcases ih s (acc ++ [c]) (by simp at hs; omega) with h | ⟨name, rest, hs', h⟩
            · exact Or.inl h
            · refine Or.inr ⟨c :: name, rest, ?_, ?_⟩
              · rw [escape_cons, if_neg hc, hs']
                rfl
              · rw [h, List.append_assoc, List.singleton_append]

/-- If a name between quotes is read back as itself, then it holds no quote. -/
theorem no_quote_of_lex {name tail : Bytes} (htail : dquote ∉ tail) {ts : List Token}
    (h : lex (.quoted []) (name ++ dquote :: tail) = some (.quoted name :: ts)) :
    dquote ∉ name := by
  rcases lex_quoted_cases _ (name ++ dquote :: tail) [] (Nat.le_refl _) with
    hnone | ⟨read, rest, htext, hlex⟩
  · rw [h] at hnone
    exact absurd hnone (by simp)
  · rw [h] at hlex
    have hread : read = name := by
      cases hrest : lex .start rest with
      | none => simp [hrest] at hlex
      | some ts' =>
          simp only [hrest, Option.map_some, Option.some.injEq, List.nil_append,
            List.cons.injEq, Token.quoted.injEq] at hlex
          exact hlex.1.symm
    -- Count the quotes on both sides: escaping doubles them.
    have hcount := congrArg (List.count dquote) htext
    rw [hread] at hcount
    simp only [List.count_append, List.count_cons_self, count_escape,
      List.count_eq_zero_of_not_mem htail] at hcount
    exact List.count_eq_zero.mp (by omega)

end Sqlite
