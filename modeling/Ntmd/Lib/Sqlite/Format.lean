/-
Statements with a name formatted into them.

A `Format` is a text with a gap between two double quotes.  What is known of the text
around the gap is known once and for all, so it is carried as proofs: the part before
ends inside an open quote, and the part after the closing quote is a list of tokens
of its own with no quote in it.  What a text means then depends on the name only.

A buffer may be too small for the text, and then its end is missing.  `tokens_cut`
says that a name without quotes cannot be mistaken for another one even so.
-/
import Ntmd.Lib.Sqlite.Text

namespace Sqlite

open Bytes

structure Format where
  /-- The text before the name, with the opening quote. -/
  before : Bytes
  /-- The text after the name, past the closing quote. -/
  rest : Bytes
  head : List Token
  tail : List Token
  lex_before : lexPrefix .start before = (head, .quoted [])
  lex_rest : lex .start rest = some tail
  no_quote : dquote ∉ rest

namespace Format

variable (f : Format)

/-- The text after the name. -/
def after : Bytes := dquote :: f.rest

/-- The text for a name. -/
def text (name : Bytes) : Bytes := f.before ++ (name ++ f.after)

theorem tokens_before (s : Bytes) :
    tokens (f.before ++ s) = (lex (.quoted []) s).map (f.head ++ ·) := by
  rw [tokens, lex_append, f.lex_before]

/-- What starts with no quote, being part of a text without quotes. -/
private theorem head?_ne {s : Bytes} (h : dquote ∉ s) : s.head? ≠ some dquote :=
  fun hs => h (List.mem_of_head? hs)

/-- A name without quotes is read back as itself. -/
theorem tokens_text {name : Bytes} (h : dquote ∉ name) :
    tokens (f.text name) = some (f.head ++ .quoted name :: f.tail) := by
  rw [text, after, tokens_before, lex_quoted_plain h (head?_ne f.no_quote), f.lex_rest]
  simp

/-- Only a name without quotes is read back as itself. -/
theorem no_quote_of_tokens {name : Bytes} {ts : List Token}
    (h : tokens (f.text name) = some (f.head ++ .quoted name :: ts)) : dquote ∉ name := by
  rw [text, after, tokens_before] at h
  obtain ⟨ts', hlex, hts⟩ := Option.map_eq_some_iff.mp h
  rw [List.append_cancel_left hts] at hlex
  exact no_quote_of_lex f.no_quote hlex

/-- Whatever is cut off the end of a text, its name is read back as itself or not at all. -/
theorem tokens_cut {name : Bytes} (h : dquote ∉ name) {n : Nat} (hn : f.before.length ≤ n) :
    tokens ((f.text name).take n) = none ∨
      ∃ ts, tokens ((f.text name).take n) = some (f.head ++ .quoted name :: ts) := by
  obtain ⟨m, rfl⟩ := Nat.exists_eq_add_of_le hn
  rw [text, List.take_length_add_append, tokens_before]
  rcases Nat.lt_or_ge name.length m with hm | hm
  · -- The name and its closing quote are whole.
    obtain ⟨k, rfl⟩ := Nat.exists_eq_add_of_lt hm
    have hcut : (name ++ f.after).take (name.length + k + 1)
        = name ++ dquote :: f.rest.take k := by
      rw [Nat.add_assoc, List.take_length_add_append, after, List.take_succ_cons]
    have hrest : dquote ∉ f.rest.take k := fun hq => f.no_quote (List.mem_of_mem_take hq)
    rw [hcut, lex_quoted_plain h (head?_ne hrest)]
    cases lex .start (f.rest.take k) with
    | none => exact Or.inl rfl
    | some ts => exact Or.inr ⟨ts, by simp⟩
  · -- The quote is never closed.
    refine Or.inl ?_
    rw [List.take_append_of_le_length hm, lex_quoted_open fun hq => h (List.mem_of_mem_take hq)]
    rfl

end Format

end Sqlite
