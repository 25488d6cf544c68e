/-
The table an application's traffic goes to.

A process chooses its own name, and the name is formatted between two double quotes.
It is read back as itself exactly if it holds no double quote: anything else may
happen to a name with one, the statement may be about another table or not be a
statement at all.  And a name read back as itself may still be one SQLite refuses,
or the table of another application whose name differs only in case.
`faithfulTables_iff` says that these are the only ways to go wrong.
-/
import Ntmd.Proofs.Statements

namespace Ntmd

open Bytes Sqlite DBController

/-- A name a process can give itself: the kernel keeps 15 bytes of it, and `/proc` ends it
with the newline. -/
def IsComm (name : Bytes) : Prop := name.length ≤ 15 ∧ 0 ∉ name ∧ 10 ∉ name

instance : DecidablePred IsComm := fun _ => inferInstanceAs (Decidable (_ ∧ _ ∧ _))

/-- The table the two statements of an application are about, if both of them are the
daemon's own, agree on it, and are not refused. -/
def tableOf (name : Bytes) : Option Bytes :=
  match parse (createText name), parse (insertText name) with
  | some (.createTable t), some (.insert t') =>
      if t = t' ∧ isReserved t = false then some t else none
  | _, _ => none

theorem tableOf_eq_some_iff {name t : Bytes} :
    tableOf name = some t ↔ parse (createText name) = some (.createTable t) ∧
      parse (insertText name) = some (.insert t) ∧ isReserved t = false := by
  unfold tableOf
  constructor
  · intro h
    split at h
    · rename_i t₁ t₂ hcreate hinsert
      split at h
      · rename_i hok
        obtain ⟨rfl, hres⟩ := hok
        cases h
        exact ⟨hcreate, hinsert, hres⟩
      · exact absurd h (by simp)
    · exact absurd h (by simp)
  · rintro ⟨hcreate, hinsert, hres⟩
    rw [hcreate, hinsert]
    simp [hres]

/-! ### One name -/

/-- A name goes to its own table exactly if it holds no quote and is not refused. -/
theorem tableOf_self_iff {name : Bytes} (h : IsComm name) :
    tableOf name = some name ↔ dquote ∉ name ∧ isReserved name = false := by
  obtain ⟨hlen, hzero, -⟩ := h
  rw [tableOf_eq_some_iff]
  constructor
  · rintro ⟨hcreate, -, hres⟩
    rw [parse_createText hlen hzero] at hcreate
    obtain ⟨ts, htokens, hparse⟩ := Option.bind_eq_some_iff.mp hcreate
    obtain ⟨rest, rfl, -⟩ := parseTokens_createTable_iff.mp hparse
    exact ⟨createFormat.no_quote_of_tokens htokens, hres⟩
  · rintro ⟨hquote, hres⟩
    exact ⟨parse_createText_plain hlen hzero hquote, parse_insertText_plain hlen hzero hquote, hres⟩

/-! ### All names of a map -/

/-- Every name goes to the table of that name, and two names to two tables. -/
def FaithfulTables (traffic : TrafficMap) : Prop :=
  (∀ name ∈ traffic, tableOf name = some name) ∧
    ∀ a ∈ traffic, ∀ b ∈ traffic, a ≠ b → ∀ t t', tableOf a = some t → tableOf b = some t' →
      sameName t t' = false

/--
**The names of a map become tables faithfully exactly if none of them holds a quote or is
reserved, and no two differ only in case.**
-/
theorem faithfulTables_iff {traffic : TrafficMap}
    (h : ∀ name ∈ traffic, IsComm name ∧ containsSemicolon name = false) :
    FaithfulTables traffic ↔
      (∀ name ∈ traffic, dquote ∉ name ∧ isReserved name = false) ∧
        ∀ a ∈ traffic, ∀ b ∈ traffic, a ≠ b → sameName a b = false := by
  have hself : (∀ name ∈ traffic, tableOf name = some name) ↔
      ∀ name ∈ traffic, dquote ∉ name ∧ isReserved name = false :=
    forall₂_congr fun name hname => tableOf_self_iff (h name hname).1
  rw [FaithfulTables, hself]
  refine and_congr_right fun hnames => ?_
  have htable := hself.mpr hnames
  constructor
  · intro hdistinct a ha b hb hab
    exact hdistinct a ha b hb hab a b (htable a ha) (htable b hb)
  · intro hdistinct a ha b hb hab t t' ht ht'
    rw [htable a ha, Option.some.injEq] at ht
    rw [htable b hb, Option.some.injEq] at ht'
    rw [← ht, ← ht']
    exact hdistinct a ha b hb hab

/-- A map of two applications whose names have nothing special. -/
theorem faithfulTables_ssh_web :
    FaithfulTables [⟨ascii "ssh", {}⟩, ⟨ascii "Web Content", {}⟩].toAList := by
  refine (faithfulTables_iff ?_).mpr ⟨?_, ?_⟩
  · show ∀ name ∈ [ascii "ssh", ascii "Web Content"], _
    decide +kernel
  · show ∀ name ∈ [ascii "ssh", ascii "Web Content"], _
    decide +kernel
  · show ∀ a ∈ [ascii "ssh", ascii "Web Content"], ∀ b ∈ [ascii "ssh", ascii "Web Content"], _
    decide +kernel

/-- A process that calls itself `a"b` passes the check for semicolons and has no table. -/
theorem not_faithfulTables_quote :
    ¬ ∀ traffic : TrafficMap,
      (∀ name ∈ traffic, IsComm name ∧ containsSemicolon name = false) →
        FaithfulTables traffic := by
  intro h
  have hname : IsComm [97, dquote, 98] ∧ containsSemicolon [97, dquote, 98] = false := by
    decide
  have hfaithful := h [⟨[97, dquote, 98], {}⟩].toAList fun name hmem => by
    rw [show name = [97, dquote, 98] from List.mem_singleton.mp hmem]
    exact hname
  have hself := (tableOf_self_iff hname.1).mp (hfaithful.1 _ (List.mem_singleton.mpr rfl))
  exact hself.1 (by decide)

end Ntmd
