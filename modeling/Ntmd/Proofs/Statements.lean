/-
The texts the daemon hands to SQLite, and what they are read as.

`parseTokens` recognises three statements, and the lemmas about it say which tokens
each of them is.  The texts of `CREATE TABLE` and `INSERT` are `Format`s, so what is
read depends on the name alone: a name that fits the buffer and holds no quote is
read back as itself (`parse_createText`, `parse_insertText`).  A name without a quote
that does not fit is read back as itself or makes no statement of the text at all
(`compileOther_createText`,
`compileOther_insertText`).
-/
import Ntmd.Lib.Sqlite.Format
import Ntmd.Traffic.DBController

namespace Ntmd

open Bytes Sqlite

/-! ### Which tokens a statement is -/

/-- What is recognised is one of three statements, with its name quoted. -/
theorem parseTokens_cases {ts : List Token} {st : Statement} (h : parseTokens ts = some st) :
    (∃ t rest, st = .createTable t ∧ ts = createHead ++ .quoted t :: rest ∧
      Closes createTail rest) ∨
    (∃ t rest, st = .insert t ∧ ts = insertHead ++ .quoted t :: rest ∧ Closes insertTail rest) ∨
    (∃ t rest r, st = .selectSums t r.1 r.2 ∧ ts = selectHead ++ .quoted t :: rest ∧
      parseWhere rest = some r) := by
  unfold parseTokens at h
  split at h
  · rename_i hpre
    obtain ⟨tail, hts⟩ := List.isPrefixOf_iff_prefix.mp hpre
    rw [← hts, List.drop_left] at h
    split at h
    · rename_i t rest
      split at h
      · rename_i hrest
        exact Or.inl ⟨t, rest, (Option.some.inj h).symm, hts.symm, hrest⟩
      · exact absurd h (by simp)
    · exact absurd h (by simp)
  · split at h
    · rename_i hpre
      obtain ⟨tail, hts⟩ := List.isPrefixOf_iff_prefix.mp hpre
      rw [← hts, List.drop_left] at h
      split at h
      · rename_i t rest
        split at h
        · rename_i hrest
          exact Or.inr (Or.inl ⟨t, rest, (Option.some.inj h).symm, hts.symm, hrest⟩)
        · exact absurd h (by simp)
      · exact absurd h (by simp)
    · split at h
      · rename_i hpre
        obtain ⟨tail, hts⟩ := List.isPrefixOf_iff_prefix.mp hpre
        rw [← hts, List.drop_left] at h
        split at h
        · rename_i t rest
          obtain ⟨r, hr, hst⟩ := Option.map_eq_some_iff.mp h
          exact Or.inr (Or.inr ⟨t, rest, r, hst.symm, hts.symm, hr⟩)
        · exact absurd h (by simp)
      · exact absurd h (by simp)

theorem parseTokens_createTable_iff {ts : List Token} {t : Bytes} :
    parseTokens ts = some (.createTable t) ↔
      ∃ rest, ts = createHead ++ .quoted t :: rest ∧ Closes createTail rest := by
  constructor
  · intro h
    rcases parseTokens_cases h with ⟨t', rest, hst, hts, hrest⟩ | ⟨t', rest, hst, -⟩ |
      ⟨t', rest, r, hst, -⟩
    · rw [Statement.createTable.inj hst]
      exact ⟨rest, hts, hrest⟩
    · exact absurd hst (by simp)
    · exact absurd hst (by simp)
  · rintro ⟨rest, rfl, hrest⟩
    simp [parseTokens, createHead, hrest]

theorem parseTokens_insert_iff {ts : List Token} {t : Bytes} :
    parseTokens ts = some (.insert t) ↔
      ∃ rest, ts = insertHead ++ .quoted t :: rest ∧ Closes insertTail rest := by
  constructor
  · intro h
    rcases parseTokens_cases h with ⟨t', rest, hst, -⟩ | ⟨t', rest, hst, hts, hrest⟩ |
      ⟨t', rest, r, hst, -⟩
    · exact absurd hst (by simp)
    · rw [Statement.insert.inj hst]
      exact ⟨rest, hts, hrest⟩
    · exact absurd hst (by simp)
  · rintro ⟨rest, rfl, hrest⟩
    have h : createHead.isPrefixOf (insertHead ++ .quoted t :: rest) = false := rfl
    have h' : insertHead.isPrefixOf (insertHead ++ .quoted t :: rest) = true := by
      simp [insertHead]
    rw [parseTokens, h, if_neg (by simp), if_pos h', List.drop_left]
    simp [hrest]

theorem parseTokens_selectSums {rest : List Token} {r : Int × Option Int}
    (h : parseWhere rest = some r) (t : Bytes) :
    parseTokens (selectHead ++ .quoted t :: rest) = some (.selectSums t r.1 r.2) := by
  have hcreate : createHead.isPrefixOf (selectHead ++ .quoted t :: rest) = false := rfl
  have hinsert : insertHead.isPrefixOf (selectHead ++ .quoted t :: rest) = false := rfl
  have hselect : selectHead.isPrefixOf (selectHead ++ .quoted t :: rest) = true := by
    simp [selectHead]
  rw [parseTokens, hcreate, hinsert, if_neg (by simp), if_neg (by simp), if_pos hselect,
    List.drop_left]
  simp [h]

namespace DBController

/-! ### The texts as formats -/

/-- `sqlCreateTable`. -/
def createFormat : Format where
  before := sqlCreateBefore
  rest := sqlCreateAfter.drop 1
  head := createHead
  tail := createTail
  lex_before := by decide +kernel
  lex_rest := by decide +kernel
  no_quote := by decide +kernel

/-- `sqlInsertValues`. -/
def insertFormat : Format where
  before := sqlInsertBefore
  rest := sqlInsertAfter.drop 1
  head := insertHead
  tail := insertTail
  lex_before := by decide +kernel
  lex_rest := by decide +kernel
  no_quote := by decide +kernel

theorem createFormat_after : createFormat.after = sqlCreateAfter := by decide +kernel

theorem insertFormat_after : insertFormat.after = sqlInsertAfter := by decide +kernel

/-- The buffer holds the text of a name, or the part of it that fits. -/
theorem snprintf_format (f : Format) (size : Nat) {name : Bytes} (h : 0 ∉ name) :
    snprintf size f.before name f.after = (f.text name).take (size - 1) := by
  rw [snprintf, cstr_of_not_mem h, Format.text, List.append_assoc]

theorem createText_eq {name : Bytes} (h : 0 ∉ name) :
    createText name = (createFormat.text name).take 511 := by
  rw [createText, ← createFormat_after]
  exact snprintf_format createFormat 512 h

theorem insertText_eq {name : Bytes} (h : 0 ∉ name) :
    insertText name = (insertFormat.text name).take 511 := by
  rw [insertText, ← insertFormat_after]
  exact snprintf_format insertFormat 512 h

/-- The texts around a name, as far as their length and their bytes matter. -/
theorem createFormat_size :
    createFormat.before.length + createFormat.after.length ≤ 400 ∧ 0 ∉ createFormat.before ∧
      0 ∉ createFormat.after := by
  decide +kernel

theorem insertFormat_size :
    insertFormat.before.length + insertFormat.after.length ≤ 400 ∧ 0 ∉ insertFormat.before ∧
      0 ∉ insertFormat.after := by
  decide +kernel

/-! ### Reading a text back -/

theorem zero_not_mem_text {f : Format} (hbefore : 0 ∉ f.before) (hafter : 0 ∉ f.after)
    {name : Bytes} (h : 0 ∉ name) : 0 ∉ f.text name := by
  simp [Format.text, hbefore, hafter, h]

/-- The text of a short name is not cut off. -/
theorem take_text {f : Format} (hf : f.before.length + f.after.length ≤ 400) {name : Bytes}
    (h : name.length ≤ 15) : (f.text name).take 511 = f.text name := by
  refine List.take_of_length_le ?_
  simp only [Format.text, List.length_append]
  omega

theorem parse_createText {name : Bytes} (hlen : name.length ≤ 15) (hzero : 0 ∉ name) :
    parse (createText name) = (tokens (createFormat.text name)).bind parseTokens := by
  obtain ⟨hsize, hbefore, hafter⟩ := createFormat_size
  rw [parse, createText_eq hzero, take_text hsize hlen,
    cstr_of_not_mem (zero_not_mem_text hbefore hafter hzero)]

theorem parse_insertText {name : Bytes} (hlen : name.length ≤ 15) (hzero : 0 ∉ name) :
    parse (insertText name) = (tokens (insertFormat.text name)).bind parseTokens := by
  obtain ⟨hsize, hbefore, hafter⟩ := insertFormat_size
  rw [parse, insertText_eq hzero, take_text hsize hlen,
    cstr_of_not_mem (zero_not_mem_text hbefore hafter hzero)]

/-- A short name without quotes is read back as itself. -/
theorem parse_createText_plain {name : Bytes} (hlen : name.length ≤ 15) (hzero : 0 ∉ name)
    (hquote : dquote ∉ name) : parse (createText name) = some (.createTable name) := by
  rw [parse_createText hlen hzero, createFormat.tokens_text hquote]
  exact parseTokens_createTable_iff.mpr ⟨createTail, rfl, Or.inl rfl⟩

theorem parse_insertText_plain {name : Bytes} (hlen : name.length ≤ 15) (hzero : 0 ∉ name)
    (hquote : dquote ∉ name) : parse (insertText name) = some (.insert name) := by
  rw [parse_insertText hlen hzero, insertFormat.tokens_text hquote]
  exact parseTokens_insert_iff.mpr ⟨insertTail, rfl, Or.inl rfl⟩

/-- However long a name without quotes is, no other name is inserted into. -/
theorem eq_of_parse_insertText {name t : Bytes} (hzero : 0 ∉ name) (hquote : dquote ∉ name)
    (h : parse (insertText name) = some (.insert t)) : t = name := by
  obtain ⟨hsize, hbefore, hafter⟩ := insertFormat_size
  have hcut : 0 ∉ (insertFormat.text name).take 511 := fun hmem =>
    zero_not_mem_text hbefore hafter hzero (List.mem_of_mem_take hmem)
  rw [parse, insertText_eq hzero, cstr_of_not_mem hcut] at h
  obtain ⟨ts, htokens, hparse⟩ := Option.bind_eq_some_iff.mp h
  obtain ⟨rest, rfl, -⟩ := parseTokens_insert_iff.mp hparse
  rcases insertFormat.tokens_cut hquote (n := 511) (by omega) with hnone | ⟨ts', hts'⟩
  · rw [htokens] at hnone
    exact absurd hnone (by simp)
  · rw [htokens] at hts'
    have hhead := List.append_cancel_left (Option.some.inj hts')
    injection hhead with hquoted
    injection hquoted

/-! ### Texts that are not the daemon's statements -/

/-- What is left of a name without quotes and what follows it, from the first quote on. -/
theorem dropWhile_take {name after : Bytes} (hquote : dquote ∉ name) (hafter : after.head? = some dquote)
    (n : Nat) : ((name ++ after).take n).dropWhile (· != dquote) <+: after := by
  have hpass : ∀ c ∈ name, (c != dquote) = true := fun c hc =>
    bne_iff_ne.mpr fun h => hquote (h ▸ hc)
  rw [List.take_append, List.dropWhile_append]
  split
  · cases hcut : after.take (n - name.length) with
    | nil => exact List.nil_prefix
    | cons c rest =>
        have hc : c = dquote := by
          have hhead := congrArg List.head? hcut
          rw [List.head?_cons, List.head?_take, hafter] at hhead
          split at hhead <;> simp_all
        rw [List.dropWhile_cons_of_neg (by simp [hc]), ← hcut]
        exact List.take_prefix _ _
  · rename_i hleft
    rw [List.isEmpty_iff, List.dropWhile_eq_nil_iff] at hleft
    exact absurd (fun c hc => hpass c (List.mem_of_mem_take hc)) hleft

/-- The text of a name without quotes is no other statement's. -/
theorem isPlain_snprintf {size : Nat} {before name after : Bytes} (hsize : before.length < size)
    (hquote : dquote ∉ name) (hafter : after.head? = some dquote) :
    isPlain before after (snprintf size before name after) = true := by
  obtain ⟨n, hn⟩ := Nat.exists_eq_add_of_le (Nat.le_sub_one_of_lt hsize)
  have hcstr : dquote ∉ cstr name := fun h =>
    hquote ((List.takeWhile_prefix _).subset h)
  rw [isPlain, snprintf, hn, List.append_assoc, List.take_length_add_append, List.drop_left]
  exact List.isPrefixOf_iff_prefix.mpr (dropWhile_take hcstr hafter n)

theorem compileOther_createText {α : Type} {name : Bytes} (hquote : dquote ∉ name) (other : Option α) :
    compileOther sqlCreateBefore sqlCreateAfter (createText name) other = none :=
  if_pos (isPlain_snprintf (by decide +kernel) hquote (by decide +kernel))

theorem compileOther_insertText {α : Type} {name : Bytes} (hquote : dquote ∉ name) (other : Option α) :
    compileOther sqlInsertBefore sqlInsertAfter (insertText name) other = none :=
  if_pos (isPlain_snprintf (by decide +kernel) hquote (by decide +kernel))

end DBController

end Ntmd
