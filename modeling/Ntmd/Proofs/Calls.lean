/-
What the SQLite calls of a deposit do, for every outcome the environment gives them.

Each statement has an inversion lemma with everything it can do (`stepCreate_cases`,
`stepInsert_cases`), and the rest is read off from these two.  A statement fails in one
of two ways: it changes nothing, or it takes the whole transaction back, after which
every later statement commits on its own.  So each fact about the database comes with
the condition under which the transaction in front of it is still the same one.

The conditions are about what the calls are given, the tables there are and the outcomes;
`Creates` and `CreateRollsBack` say what the `CREATE` of a name comes to,
`CompilesInsert`, `CompilesOther` and `InsertRollsBack` the same for its `INSERT`.  A text that
is not the daemon's own does whatever the environment says, so what the rows become is known
only of names whose texts are (`OwnStatements`); every name without a double quote is one.
-/
import Mathlib.Data.Set.Basic
import Ntmd.Proofs.Statements

namespace Ntmd

open Bytes Sqlite

/-! ### Tables and rows -/

namespace Database

/-- The names a statement can call a table by. -/
def tableSet (db : Database) : Set Bytes := {t | db.hasTable t = true}

theorem mem_tableSet {db : Database} {t : Bytes} : t ∈ db.tableSet ↔ db.hasTable t = true := Iff.rfl

@[simp] theorem createTable_rows (db : Database) (name : Bytes) :
    (db.createTable name).rows = db.rows := by
  unfold createTable
  split <;> rfl

theorem createTable_tableSet (db : Database) (name : Bytes) :
    (db.createTable name).tableSet = db.tableSet ∪ {t | sameName name t = true} := by
  ext t
  change (db.createTable name).hasTable t = true ↔ db.hasTable t = true ∨ sameName name t = true
  unfold createTable
  split
  · rename_i h
    refine (or_iff_left_of_imp fun hsame => ?_).symm
    obtain ⟨u, hu, huname⟩ := List.any_eq_true.mp h
    have hut : sameName u t = true :=
      sameName_iff.mpr ((sameName_iff.mp huname).trans (sameName_iff.mp hsame))
    exact List.any_eq_true.mpr ⟨u, hu, hut⟩
  · simp [hasTable]

/-- A `CREATE` adds its tables to the names, whatever becomes of the rows. -/
theorem create_tableSet (db : Database) (c : Creation) :
    (db.create c).tableSet = db.tableSet ∪ {t | ∃ table ∈ c.tables, sameName table t = true} := by
  change (c.tables.foldl createTable db).tableSet = _
  generalize c.tables = tables
  induction tables generalizing db with
  | nil => simp
  | cons table tables ih =>
      rw [List.foldl_cons, ih, createTable_tableSet, Set.union_assoc]
      refine congrArg (db.tableSet ∪ ·) ?_
      ext t
      simp

/-- The daemon's own `CREATE` makes its one table. -/
theorem create_singleton (db : Database) (table : Bytes) :
    db.create { tables := [table] } = db.createTable table := by
  have hrows : { db.createTable table with rows := (db.createTable table).rows } =
      db.createTable table := rfl
  rwa [createTable_rows] at hrows

/-- An insert that is not refused appends its row, and nothing else. -/
theorem insert_eq_some {db d : Database} {name : Bytes} {row : Row}
    (h : db.insert name row = some d) : d = { db with rows := db.rows ++ [(name, row)] } := by
  unfold insert at h
  split at h
  · exact absurd h (by simp)
  · exact (Option.some.inj h).symm

/-- It is not refused when no row of the table has its timestamp. -/
theorem insert_of_unused {db : Database} {name : Bytes} {row : Row}
    (h : ∀ r ∈ db.rowsOf name, r.timestamp ≠ row.timestamp) :
    db.insert name row = some { db with rows := db.rows ++ [(name, row)] } := by
  rw [insert, if_neg]
  rw [List.any_eq_true]
  rintro ⟨r, hr, heq⟩
  exact h r hr (by simpa using heq)

end Database

namespace DBController

/-! ### What a statement comes to -/

/-- The `CREATE` of a name compiles: as the daemon's own, of a table that is not refused, or as what
else its text is. -/
def CompilesCreate (o : AppOutcomes) (name : Bytes) (c : Database.Creation) : Prop :=
  (∃ table, parse (createText name) = some (.createTable table) ∧ o.prepareCreate = true ∧
    isReserved table = false ∧ c = { tables := [table] }) ∨
  ((∀ table, parse (createText name) ≠ some (.createTable table)) ∧
    compileOther sqlCreateBefore sqlCreateAfter (createText name) o.otherCreate = some c)

/-- The `CREATE` of a name goes through, and does what `c` says. -/
def Creates (o : AppOutcomes) (name : Bytes) (c : Database.Creation) : Prop :=
  CompilesCreate o name c ∧ o.stepCreate = .ok

/-- The `CREATE` of a name fails and takes the transaction back. -/
def CreateRollsBack (o : AppOutcomes) (name : Bytes) : Prop :=
  (∃ c, CompilesCreate o name c) ∧ ∃ e, o.stepCreate = .fail e true

/-- What the `CREATE` of a name adds to the names of tables. -/
def created (o : AppOutcomes) (name : Bytes) : Set Bytes :=
  {t | ∃ c, Creates o name c ∧ ∃ table ∈ c.tables, sameName table t = true}

/-- The `INSERT` of a name compiles, as that into `table`, which is there. -/
def CompilesInsert (o : AppOutcomes) (has : Set Bytes) (name table : Bytes) : Prop :=
  parse (insertText name) = some (.insert table) ∧ o.prepareInsert = true ∧ table ∈ has

/-- The `INSERT` of a name compiles as a statement that is not the daemon's, with this effect. -/
def CompilesOther (o : AppOutcomes) (name : Bytes)
    (rows : List (Bytes × Row) → List (Bytes × Row)) : Prop :=
  (∀ table, parse (insertText name) ≠ some (.insert table)) ∧
    compileOther sqlInsertBefore sqlInsertAfter (insertText name) o.otherInsert = some rows

/-- The `INSERT` of a name fails and takes the transaction back. -/
def InsertRollsBack (o : AppOutcomes) (has : Set Bytes) (name : Bytes) : Prop :=
  ((∃ table, CompilesInsert o has name table) ∨ ∃ rows, CompilesOther o name rows) ∧
    ∃ e, o.stepInsert = .fail e true

/-- The `CREATE` of a name changes no row. -/
def CreateKeepsRows (o : AppOutcomes) (name : Bytes) : Prop :=
  ∀ c, Creates o name c → ∀ rows, c.rows rows = rows

/-- Of the statements made of a name the `INSERT` is the daemon's own, and the `CREATE` changes
no row. -/
structure OwnStatements (o : AppOutcomes) (name : Bytes) : Prop where
  keepsRows : CreateKeepsRows o name
  ownInsert : ∀ rows, ¬ CompilesOther o name rows

/-- Of the texts made of a name nothing compiles but the daemon's own statements. -/
structure OnlyOwn (o : AppOutcomes) (name : Bytes) : Prop where
  ownCreate : ∀ c, CompilesCreate o name c →
    ∃ table, parse (createText name) = some (.createTable table)
  ownInsert : ∀ rows, ¬ CompilesOther o name rows

theorem OnlyOwn.ownStatements {o : AppOutcomes} {name : Bytes} (h : OnlyOwn o name) :
    OwnStatements o name where
  keepsRows c hcreates rows := by
    obtain ⟨table, hparse⟩ := h.ownCreate c hcreates.1
    rcases hcreates.1 with ⟨_, -, -, -, rfl⟩ | ⟨hnot, -⟩
    · rfl
    · exact absurd hparse (hnot table)
  ownInsert := h.ownInsert

/-- A name without a double quote is a name and nothing else. -/
theorem onlyOwn_of_plain {o : AppOutcomes} {name : Bytes} (hquote : dquote ∉ name) :
    OnlyOwn o name where
  ownCreate c h := by
    rcases h with ⟨table, hparse, -⟩ | ⟨-, hother⟩
    · exact ⟨table, hparse⟩
    · exact absurd ((compileOther_createText hquote _).symm.trans hother) (by simp)
  ownInsert rows h := absurd ((compileOther_insertText hquote _).symm.trans h.2) (by simp)

/-- Two ways to compile a `CREATE` are one. -/
theorem CompilesCreate.unique {o : AppOutcomes} {name : Bytes} {c c' : Database.Creation}
    (h : CompilesCreate o name c) (h' : CompilesCreate o name c') : c = c' := by
  rcases h with ⟨table, hparse, -, -, rfl⟩ | ⟨hnot, hother⟩
  · rcases h' with ⟨table', hparse', -, -, rfl⟩ | ⟨hnot', -⟩
    · rw [Statement.createTable.inj (Option.some.inj (hparse.symm.trans hparse'))]
    · exact absurd hparse (hnot' table)
  · rcases h' with ⟨table', hparse', -⟩ | ⟨-, hother'⟩
    · exact absurd hparse' (hnot table')
    · exact Option.some.inj (hother.symm.trans hother')

theorem created_of_creates {o : AppOutcomes} {name : Bytes} {c : Database.Creation}
    (h : Creates o name c) : created o name = {t | ∃ table ∈ c.tables, sameName table t = true} := by
  ext t
  constructor
  · rintro ⟨c', h', htable⟩
    rwa [h.1.unique h'.1]
  · exact fun htable => ⟨c, h, htable⟩

theorem created_of_not_creates {o : AppOutcomes} {name : Bytes} (h : ∀ c, ¬ Creates o name c) :
    created o name = ∅ :=
  Set.eq_empty_of_forall_notMem fun _ ⟨c, hcreates, _⟩ => h c hcreates

theorem Creates.not_rollsBack {o : AppOutcomes} {name : Bytes} {c : Database.Creation}
    (h : Creates o name c) : ¬ CreateRollsBack o name := by
  rintro ⟨-, e, he⟩
  exact absurd (h.2.symm.trans he) (by simp)

/-- A `CREATE` is stepped where it compiles, and is a null statement elsewhere. -/
theorem stepCreate_of_compiles {conn : Conn Database} {name : Bytes} {o : AppOutcomes}
    {c : Database.Creation} (h : CompilesCreate o name c) :
    stepCreate conn (createText name) o = conn.exec o.stepCreate fun db => some (db.create c) := by
  rcases h with ⟨table, hparse, hprepare, hreserved, rfl⟩ | ⟨hnot, hother⟩
  · simp only [Database.create_singleton]
    simp [stepCreate, hparse, hprepare, hreserved]
  · unfold stepCreate
    split
    · rename_i table hparse
      exact absurd hparse (hnot table)
    · simp only [hother]

theorem stepCreate_of_not_compiles {conn : Conn Database} {name : Bytes} {o : AppOutcomes}
    (h : ∀ c, ¬ CompilesCreate o name c) :
    stepCreate conn (createText name) o = (conn, .failed .misuse) := by
  unfold stepCreate
  split
  · rename_i table hparse
    rw [if_neg]
    intro hboth
    obtain ⟨hprepare, hreserved⟩ := Bool.and_eq_true_iff.mp hboth
    exact h _ (Or.inl ⟨table, hparse, hprepare, by simpa using hreserved, rfl⟩)
  · rename_i hnot
    split
    · rename_i c hother
      exact absurd (Or.inr ⟨hnot, hother⟩) (h c)
    · rfl

/-- Everything a `CREATE` can do. -/
theorem stepCreate_cases (conn : Conn Database) (name : Bytes) (o : AppOutcomes) :
    (CreateRollsBack o name ∧ (stepCreate conn (createText name) o).1 = conn.rollback) ∨
    (∃ c, Creates o name c ∧
      (stepCreate conn (createText name) o).1 = conn.put (conn.current.create c)) ∨
    (¬ CreateRollsBack o name ∧ (∀ c, ¬ Creates o name c) ∧
      (stepCreate conn (createText name) o).1 = conn) := by
  by_cases hcompiles : ∃ c, CompilesCreate o name c
  · obtain ⟨c, hc⟩ := hcompiles
    rw [stepCreate_of_compiles hc]
    rcases conn.exec_cases o.stepCreate fun db => some (db.create c) with
      ⟨e, ho, hexec⟩ | ⟨e, ho, hexec⟩ | ⟨-, hnone, -⟩ | ⟨d, ho, hd, hexec⟩
    · exact Or.inl ⟨⟨⟨c, hc⟩, e, ho⟩, congrArg Prod.fst hexec⟩
    · refine Or.inr (Or.inr ⟨?_, fun t ht => ?_, congrArg Prod.fst hexec⟩)
      · rintro ⟨-, e', he'⟩
        simp [ho] at he'
      · exact absurd (ho.symm.trans ht.2) (by simp)
    · exact absurd hnone (by simp)
    · refine Or.inr (Or.inl ⟨c, ⟨hc, ho⟩, ?_⟩)
      rw [hexec, Option.some.inj hd]
  · have hnot : ∀ c, ¬ CompilesCreate o name c := fun c hc => hcompiles ⟨c, hc⟩
    rw [stepCreate_of_not_compiles hnot]
    exact Or.inr (Or.inr ⟨fun h => hcompiles h.1, fun c hc => hnot c hc.1, rfl⟩)

theorem stepCreate_of_rollsBack {conn : Conn Database} {name : Bytes} {o : AppOutcomes}
    (h : CreateRollsBack o name) : (stepCreate conn (createText name) o).1 = conn.rollback := by
  rcases stepCreate_cases conn name o with ⟨-, hrun⟩ | ⟨c, hcreates, -⟩ | ⟨hnot, -⟩
  · exact hrun
  · exact absurd h hcreates.not_rollsBack
  · exact absurd h hnot

theorem stepInsert_of_compiles {conn : Conn Database} {name table : Bytes} {o : AppOutcomes}
    (h : CompilesInsert o conn.current.tableSet name table) (row : Row) :
    stepInsert conn (insertText name) row o
      = conn.exec o.stepInsert fun db => db.insert table row := by
  obtain ⟨hparse, hprepare, htable⟩ := h
  simp [stepInsert, hparse, hprepare, Database.mem_tableSet.mp htable]

theorem stepInsert_of_other {conn : Conn Database} {name : Bytes} {o : AppOutcomes}
    {rows : List (Bytes × Row) → List (Bytes × Row)} (h : CompilesOther o name rows) (row : Row) :
    stepInsert conn (insertText name) row o
      = conn.exec o.stepInsert fun db => some { db with rows := rows db.rows } := by
  obtain ⟨hnot, hother⟩ := h
  unfold stepInsert
  split
  · rename_i table hparse
    exact absurd hparse (hnot table)
  · simp only [hother]

theorem stepInsert_of_not_compiles {conn : Conn Database} {name : Bytes} {row : Row}
    {o : AppOutcomes} (hown : ∀ table, ¬ CompilesInsert o conn.current.tableSet name table)
    (hother : ∀ rows, ¬ CompilesOther o name rows) :
    stepInsert conn (insertText name) row o = (conn, .failed .misuse) := by
  unfold stepInsert
  split
  · rename_i table hparse
    rw [if_neg]
    intro hboth
    obtain ⟨hprepare, htable⟩ := Bool.and_eq_true_iff.mp hboth
    exact hown table ⟨hparse, hprepare, htable⟩
  · rename_i hnot
    split
    · rename_i rows hrows
      exact absurd ⟨hnot, hrows⟩ (hother rows)
    · rfl

/-- Everything an `INSERT` can do. -/
theorem stepInsert_cases (conn : Conn Database) (name : Bytes) (row : Row) (o : AppOutcomes) :
    (InsertRollsBack o conn.current.tableSet name ∧
      (stepInsert conn (insertText name) row o).1 = conn.rollback ∧
      (stepInsert conn (insertText name) row o).2 ≠ .done) ∨
    (∃ table d, CompilesInsert o conn.current.tableSet name table ∧ o.stepInsert = .ok ∧
      conn.current.insert table row = some d ∧
      stepInsert conn (insertText name) row o = (conn.put d, .done)) ∨
    (∃ rows, CompilesOther o name rows ∧ o.stepInsert = .ok ∧
      stepInsert conn (insertText name) row o
        = (conn.put { conn.current with rows := rows conn.current.rows }, .done)) ∨
    (¬ InsertRollsBack o conn.current.tableSet name ∧
      (stepInsert conn (insertText name) row o).1 = conn ∧
      (stepInsert conn (insertText name) row o).2 ≠ .done) := by
  have hkept (h : ∀ e, o.stepInsert ≠ .fail e true) :
      ¬ InsertRollsBack o conn.current.tableSet name := fun ⟨_, e, he⟩ => h e he
  by_cases hcompiles : ∃ table, CompilesInsert o conn.current.tableSet name table
  · obtain ⟨table, hc⟩ := hcompiles
    rw [stepInsert_of_compiles hc]
    rcases conn.exec_cases o.stepInsert fun db => db.insert table row with
      ⟨e, ho, hexec⟩ | ⟨e, ho, hexec⟩ | ⟨ho, -, hexec⟩ | ⟨d, ho, hd, hexec⟩
    · exact Or.inl ⟨⟨Or.inl ⟨table, hc⟩, e, ho⟩, by simp [hexec], by simp [hexec]⟩
    · exact Or.inr (Or.inr (Or.inr ⟨hkept (by simp [ho]), by simp [hexec], by simp [hexec]⟩))
    · exact Or.inr (Or.inr (Or.inr ⟨hkept (by simp [ho]), by simp [hexec], by simp [hexec]⟩))
    · exact Or.inr (Or.inl ⟨table, d, hc, ho, hd, hexec⟩)
  · by_cases hother : ∃ rows, CompilesOther o name rows
    · obtain ⟨rows, hc⟩ := hother
      rw [stepInsert_of_other hc]
      rcases conn.exec_cases o.stepInsert fun db => some { db with rows := rows db.rows } with
        ⟨e, ho, hexec⟩ | ⟨e, ho, hexec⟩ | ⟨-, hnone, -⟩ | ⟨d, ho, hd, hexec⟩
      · exact Or.inl ⟨⟨Or.inr ⟨rows, hc⟩, e, ho⟩, by simp [hexec], by simp [hexec]⟩
      · exact Or.inr (Or.inr (Or.inr ⟨hkept (by simp [ho]), by simp [hexec], by simp [hexec]⟩))
      · exact absurd hnone (by simp)
      · refine Or.inr (Or.inr (Or.inl ⟨rows, hc, ho, ?_⟩))
        rw [hexec, ← Option.some.inj hd]
    · rw [stepInsert_of_not_compiles (fun t ht => hcompiles ⟨t, ht⟩) fun r hr => hother ⟨r, hr⟩]
      exact Or.inr (Or.inr (Or.inr ⟨fun h => h.1.elim hcompiles hother, rfl, by simp⟩))

/-! ### Statements and the transaction -/

theorem stepCreate_tx_of_none {conn : Conn Database} {name : Bytes} {o : AppOutcomes}
    (h : conn.tx = none) : (stepCreate conn (createText name) o).1.tx = none := by
  rcases stepCreate_cases conn name o with ⟨-, hrun⟩ | ⟨c, -, hrun⟩ | ⟨-, -, hrun⟩
  · rw [hrun, Conn.rollback_tx]
  · rw [hrun, Conn.put_tx_eq_none, h]
  · rw [hrun, h]

theorem stepInsert_tx_of_none {conn : Conn Database} {name : Bytes} {row : Row}
    {o : AppOutcomes} (h : conn.tx = none) :
    (stepInsert conn (insertText name) row o).1.tx = none := by
  rcases stepInsert_cases conn name row o with
    ⟨-, hrun, -⟩ | ⟨table, d, -, -, -, hrun⟩ | ⟨rows, -, -, hrun⟩ | ⟨-, hrun, -⟩
  · rw [hrun, Conn.rollback_tx]
  · rw [hrun, Conn.put_tx_eq_none, h]
  · rw [hrun, Conn.put_tx_eq_none, h]
  · rw [hrun, h]

/-- A `CREATE` adds only its own tables to the database it sees, and changes no row there if what it
does changes none.  A rollback must not change what is seen, as it does not while nothing was
written. -/
theorem stepCreate_current {conn : Conn Database} {name : Bytes} {o : AppOutcomes}
    (h : CreateRollsBack o name → conn.committed = conn.current) (hkeeps : CreateKeepsRows o name) :
    (stepCreate conn (createText name) o).1.current.rows = conn.current.rows ∧
      (stepCreate conn (createText name) o).1.current.tableSet
        = conn.current.tableSet ∪ created o name := by
  rcases stepCreate_cases conn name o with ⟨hback, hrun⟩ | ⟨c, hcreates, hrun⟩ | ⟨-, hnot, hrun⟩
  · have hsame : conn.rollback.current = conn.current := h hback
    have hnot : ∀ c, ¬ Creates o name c := fun _ hcreates => hcreates.not_rollsBack hback
    rw [hrun, hsame, created_of_not_creates hnot, Set.union_empty]
    exact ⟨rfl, rfl⟩
  · rw [hrun, Conn.put_current, created_of_creates hcreates]
    exact ⟨hkeeps c hcreates _, Database.create_tableSet _ _⟩
  · rw [hrun, created_of_not_creates hnot, Set.union_empty]
    exact ⟨rfl, rfl⟩

/-- The row that a done `INSERT` of an application adds, with the table its text names. -/
def insertedRow (now : Int64) (name : Bytes) (line : TrafficLine) : Bytes × Row :=
  (match parse (insertText name) with
   | some (.insert table) => table
   | _ => [],
   boundRow now line)

theorem insertedRow_of_parse {now : Int64} {name table : Bytes} {line : TrafficLine}
    (h : parse (insertText name) = some (.insert table)) :
    insertedRow now name line = (table, boundRow now line) := by
  rw [insertedRow, h]

/-- An `INSERT` of the daemon's own that is done appends its row to the database it sees, and keeps
the tables and the transaction. -/
theorem stepInsert_of_done {conn : Conn Database} {now : Int64} {name : Bytes} {line : TrafficLine}
    {o : AppOutcomes} (hown : ∀ rows, ¬ CompilesOther o name rows)
    (hdone : (stepInsert conn (insertText name) (boundRow now line) o).2 = .done) :
    (∃ table, parse (insertText name) = some (.insert table)) ∧
      (stepInsert conn (insertText name) (boundRow now line) o).1.current.rows
        = conn.current.rows ++ [insertedRow now name line] ∧
      (stepInsert conn (insertText name) (boundRow now line) o).1.current.tableSet
        = conn.current.tableSet := by
  rcases stepInsert_cases conn name (boundRow now line) o with
    ⟨-, -, hnot⟩ | ⟨table, d, hcompiles, -, hd, hrun⟩ | ⟨rows, hother, -⟩ | ⟨-, -, hnot⟩
  · exact absurd hdone hnot
  · rw [hrun, Conn.put_current, insertedRow_of_parse hcompiles.1, Database.insert_eq_some hd]
    exact ⟨⟨table, hcompiles.1⟩, rfl, rfl⟩
  · exact absurd hother (hown rows)
  · exact absurd hdone hnot

/-! ### One application, and the loop over all of them -/

/-- The result codes say that the row was inserted. -/
def AppResult.inserted (r : AppResult) : Bool :=
  match r.steps with
  | some (_, insert) => insert == .done
  | none => false

/-- An accepted name: both steps are made, one after the other. -/
theorem depositApp_of_accept {now : Int64} {o : Outcomes} {conn : Conn Database} {name : Bytes}
    {line : TrafficLine} (h : containsSemicolon name = false) :
    depositApp now o conn name line =
      ((stepInsert (stepCreate conn (createText name) (o.app name)).1 (insertText name)
          (boundRow now line) (o.app name)).1,
       { name := name
         steps := some ((stepCreate conn (createText name) (o.app name)).2,
          (stepInsert (stepCreate conn (createText name) (o.app name)).1 (insertText name)
            (boundRow now line) (o.app name)).2) }) := by
  simp [depositApp, h]

theorem depositApp_of_refuse {now : Int64} {o : Outcomes} {conn : Conn Database} {name : Bytes}
    {line : TrafficLine} (h : containsSemicolon name = true) :
    depositApp now o conn name line = (conn, { name := name, steps := none }) := by
  simp [depositApp, h]

theorem depositApps_cons (now : Int64) (o : Outcomes) (conn : Conn Database)
    (e : Σ _ : Bytes, TrafficLine) (rest : List (Σ _ : Bytes, TrafficLine)) :
    depositApps now o conn (e :: rest) =
      ((depositApps now o (depositApp now o conn e.1 e.2).1 rest).1,
       (depositApp now o conn e.1 e.2).2 ::
        (depositApps now o (depositApp now o conn e.1 e.2).1 rest).2) := rfl

theorem depositApp_tx_of_none {now : Int64} {o : Outcomes} {conn : Conn Database} {name : Bytes}
    {line : TrafficLine} (h : conn.tx = none) :
    (depositApp now o conn name line).1.tx = none := by
  cases haccept : containsSemicolon name with
  | true => rw [depositApp_of_refuse haccept]; exact h
  | false =>
      rw [depositApp_of_accept haccept]
      exact stepInsert_tx_of_none (stepCreate_tx_of_none h)

theorem depositApps_tx_of_none {now : Int64} {o : Outcomes} :
    ∀ {entries : List (Σ _ : Bytes, TrafficLine)} {conn : Conn Database}, conn.tx = none →
      (depositApps now o conn entries).1.tx = none := by
  intro entries
  induction entries with
  | nil => intro conn h; exact h
  | cons e rest ih => intro conn h; exact ih (depositApp_tx_of_none h)

/-! ### The whole deposit -/

theorem insertApplicationTraffic_of_begin {conn : Conn Database} {traffic : TrafficMap}
    {now : Int64} {o : Outcomes} (h : (conn.begin o.begin).2 = .ok) :
    insertApplicationTraffic conn traffic now o =
      (((depositApps now o (conn.begin o.begin).1 traffic.entries).1.commit o.commit).1,
       { begin := .ok
         apps := (depositApps now o (conn.begin o.begin).1 traffic.entries).2
         commit := some
          ((depositApps now o (conn.begin o.begin).1 traffic.entries).1.commit o.commit).2 }) := by
  unfold insertApplicationTraffic
  rcases hb : conn.begin o.begin with ⟨conn', rc⟩
  rw [hb] at h
  simp only at h
  subst h
  rfl

/-- A deposit whose `BEGIN` fails does nothing. -/
theorem insertApplicationTraffic_of_not_begin {conn : Conn Database} {traffic : TrafficMap}
    {now : Int64} {o : Outcomes} (h : (conn.begin o.begin).2 ≠ .ok) :
    insertApplicationTraffic conn traffic now o =
      (conn, { begin := (conn.begin o.begin).2, apps := [], commit := none }) := by
  have hsame := Conn.begin_of_not_ok h
  unfold insertApplicationTraffic
  rcases hb : conn.begin o.begin with ⟨conn', rc⟩
  rw [hb] at h hsame
  simp only at h hsame
  split
  · rename_i heq
    exact absurd (congrArg Prod.snd heq) h
  · rename_i heq
    obtain ⟨rfl, rfl⟩ := Prod.mk.inj heq
    rw [hsame]

theorem insertApplicationTraffic_begin (conn : Conn Database) (traffic : TrafficMap) (now : Int64)
    (o : Outcomes) :
    (insertApplicationTraffic conn traffic now o).2.begin = (conn.begin o.begin).2 := by
  by_cases h : (conn.begin o.begin).2 = .ok
  · rw [insertApplicationTraffic_of_begin h, h]
  · rw [insertApplicationTraffic_of_not_begin h]

end DBController

end Ntmd
