/-
Whether a deposit that fails loses traffic.

The map is cleared after every iteration of the deposit loop, so what did not reach
the database in it is gone.  Two accounts of an iteration meet here.  From its result
codes: when every `INSERT` is done and the commit succeeds, each application's row is in
the database (`rows_of_allInserted`).  And from what it is given, which is what
`GoesThrough` is about: the outcomes, the tables, the rows of the same second and the
names decide that the result codes are these (`GoesThrough.results`).
-/
import Ntmd.Proofs.Statements
import Ntmd.Proofs.Transaction

namespace Ntmd

open Bytes Sqlite Run

namespace DBController

/-! ### The rows of a deposit, from its result codes -/

/-- Two stages that never open a transaction keep it together only if each of them does. -/
private theorem isSome_of_stages {a b c : Option Database} (hab : a = none → b = none)
    (hbc : b = none → c = none) (h : c.isSome = a.isSome) :
    b.isSome = a.isSome ∧ c.isSome = b.isSome := by
  cases a <;> cases b <;> cases c <;> simp_all

/-- Where the transaction is still the same one, a rollback found none to take back. -/
private theorem committed_of_kept {conn : Conn Database} {name : Bytes} {o : AppOutcomes}
    (h : (stepCreate conn (createText name) o).1.tx.isSome = conn.tx.isSome)
    (hback : CreateRollsBack o name) : conn.committed = conn.current := by
  rw [stepCreate_of_rollsBack hback, Conn.rollback_tx] at h
  exact (Conn.current_of_none (by simpa using h.symm)).symm

theorem depositApp_rows {now : Int64} {o : Outcomes} {conn : Conn Database} {name : Bytes}
    {line : TrafficLine} (hown : OwnStatements (o.app name) name)
    (htx : (depositApp now o conn name line).1.tx.isSome = conn.tx.isSome)
    (hdone : (depositApp now o conn name line).2.inserted = true) :
    (∃ table, parse (insertText name) = some (.insert table)) ∧
      (depositApp now o conn name line).1.current.rows
        = conn.current.rows ++ [insertedRow now name line] := by
  cases haccept : containsSemicolon name with
  | true =>
      rw [depositApp_of_refuse haccept] at hdone
      exact absurd hdone (by simp [AppResult.inserted])
  | false =>
      rw [depositApp_of_accept haccept] at htx hdone ⊢
      obtain ⟨hcreate, -⟩ := isSome_of_stages stepCreate_tx_of_none stepInsert_tx_of_none htx
      obtain ⟨hrows, -⟩ := stepCreate_current (committed_of_kept hcreate) hown.keepsRows
      obtain ⟨hparse, hrows', -⟩ :=
        stepInsert_of_done hown.ownInsert (by simpa [AppResult.inserted] using hdone)
      exact ⟨hparse, by rw [hrows', hrows]⟩

/-- The loop appends one row for each application, when all of them are inserted. -/
theorem depositApps_rows {now : Int64} {o : Outcomes} :
    ∀ {entries : List (Σ _ : Bytes, TrafficLine)} {conn : Conn Database},
      (∀ e ∈ entries, OwnStatements (o.app e.1) e.1) →
      (depositApps now o conn entries).1.tx.isSome = conn.tx.isSome →
      (∀ r ∈ (depositApps now o conn entries).2, r.inserted = true) →
      (∀ e ∈ entries, ∃ table, parse (insertText e.1) = some (.insert table)) ∧
        (depositApps now o conn entries).1.current.rows
          = conn.current.rows ++ entries.map fun e => insertedRow now e.1 e.2 := by
  intro entries
  induction entries with
  | nil => intro conn _ _ _; exact ⟨by simp, by simp [depositApps]⟩
  | cons e rest ih =>
      intro conn hown htx hall
      obtain ⟨hown, hownRest⟩ := List.forall_mem_cons.mp hown
      rw [depositApps_cons] at htx hall ⊢
      obtain ⟨hhead, hrest⟩ := isSome_of_stages depositApp_tx_of_none depositApps_tx_of_none htx
      obtain ⟨hparse, hrows⟩ := depositApp_rows hown hhead (hall _ List.mem_cons_self)
      obtain ⟨hparse', hrows'⟩ := ih hownRest hrest fun r hr => hall r (List.mem_cons_of_mem _ hr)
      refine ⟨List.forall_mem_cons.mpr ⟨hparse, hparse'⟩, ?_⟩
      rw [hrows', hrows, List.append_assoc, List.map_cons, List.singleton_append]

/-- The first application's `CREATE` takes the transaction back. -/
def FirstCreateRollsBack (o : Outcomes) (names : List Bytes) : Prop :=
  ∃ name rest, names = name :: rest ∧ containsSemicolon name = false ∧
    CreateRollsBack (o.app name) name

/-- What is committed is then what every `INSERT` commits on its own. -/
theorem depositApps_rows_of_rollback {now : Int64} {o : Outcomes}
    {entries : List (Σ _ : Bytes, TrafficLine)} {conn : Conn Database}
    (hown : ∀ e ∈ entries, OwnStatements (o.app e.1) e.1)
    (hlost : FirstCreateRollsBack o (entries.map Sigma.fst))
    (hall : ∀ r ∈ (depositApps now o conn entries).2, r.inserted = true) :
    (∀ e ∈ entries, ∃ table, parse (insertText e.1) = some (.insert table)) ∧
      (depositApps now o conn entries).1.tx = none ∧
      (depositApps now o conn entries).1.committed.rows
        = conn.committed.rows ++ entries.map fun e => insertedRow now e.1 e.2 := by
  obtain ⟨name, names, hnames, haccept, hback⟩ := hlost
  obtain ⟨e, rest, rfl, rfl, -⟩ := List.map_eq_cons_iff.mp hnames
  obtain ⟨hown, hownRest⟩ := List.forall_mem_cons.mp hown
  rw [depositApps_cons, depositApp_of_accept haccept] at hall ⊢
  simp only at hall ⊢
  set created := (stepCreate conn (createText e.1) (o.app e.1)).1 with hcreated
  set stepped := stepInsert created (insertText e.1) (boundRow now e.2) (o.app e.1) with hstepped
  have hrun : created = conn.rollback := stepCreate_of_rollsBack hback
  have hcreatedTx : created.tx = none := by rw [hrun, Conn.rollback_tx]
  have hsteppedTx : stepped.1.tx = none := stepInsert_tx_of_none hcreatedTx
  have hendTx : (depositApps now o stepped.1 rest).1.tx = none := depositApps_tx_of_none hsteppedTx
  have hdone : stepped.2 = .done := by
    simpa [AppResult.inserted] using hall _ List.mem_cons_self
  obtain ⟨hparse, hrows, -⟩ := stepInsert_of_done hown.ownInsert hdone
  obtain ⟨hparse', hrows'⟩ := depositApps_rows hownRest (by rw [hendTx, hsteppedTx])
    fun r hr => hall r (List.mem_cons_of_mem _ hr)
  refine ⟨List.forall_mem_cons.mpr ⟨hparse, hparse'⟩, hendTx, ?_⟩
  rw [← Conn.current_of_none hendTx, hrows', hstepped, hrows, Conn.current_of_none hcreatedTx, hrun,
    Conn.rollback_committed, List.append_assoc, List.map_cons, List.singleton_append]

/-- A deposit whose inserts are all done and get committed brings a row for every application
into the database. -/
theorem rows_of_allInserted {conn : Conn Database} {traffic : TrafficMap} {now : Int64}
    {o : Outcomes} (hown : ∀ e ∈ traffic.entries, OwnStatements (o.app e.1) e.1)
    (hbegin : (insertApplicationTraffic conn traffic now o).2.begin = .ok)
    (hall : ∀ r ∈ (insertApplicationTraffic conn traffic now o).2.apps, r.inserted = true)
    (hcommit : (insertApplicationTraffic conn traffic now o).2.commit = some .ok ∨
      FirstCreateRollsBack o traffic.keys) :
    (∀ e ∈ traffic.entries, ∃ table, parse (insertText e.1) = some (.insert table)) ∧
      (insertApplicationTraffic conn traffic now o).1.committed.rows
        = conn.committed.rows ++ traffic.entries.map fun e => insertedRow now e.1 e.2 := by
  rw [insertApplicationTraffic_begin] at hbegin
  rw [insertApplicationTraffic_of_begin hbegin] at hall hcommit ⊢
  have hbegun := Conn.begin_of_ok hbegin
  simp only [Option.some.injEq] at hall hcommit ⊢
  rcases hcommit with hcommit | hlost
  · -- The loop ends inside the transaction, and that is what is committed.
    obtain ⟨d, hd, hcommitted⟩ := Conn.commit_of_ok hcommit
    obtain ⟨hparse, hrows⟩ := depositApps_rows hown (by rw [hd, hbegun]; rfl) hall
    refine ⟨hparse, ?_⟩
    rw [Conn.current_of_some hd, hbegun] at hrows
    rw [hcommitted]
    exact hrows
  · obtain ⟨hparse, hend, hrows⟩ := depositApps_rows_of_rollback hown hlost hall
    refine ⟨hparse, ?_⟩
    rw [Conn.commit_of_none hend, hrows, hbegun]

/-! ### The result codes of a deposit, from what it is given -/

/-- The row of an application goes in: its name is accepted, its `CREATE` changes no row, the calls
for its `INSERT` succeed, and the table that its text names is there, or created for it, with no row
of this time. -/
structure GoesIn (db : Database) (now : Int64) (o : AppOutcomes) (name : Bytes) : Prop where
  accepted : containsSemicolon name = false
  keepsRows : CreateKeepsRows o name
  prepared : o.prepareInsert = true
  stepped : o.stepInsert = .ok
  unused : ∃ table, parse (insertText name) = some (.insert table) ∧
    table ∈ db.tableSet ∪ created o name ∧
    ∀ r ∈ db.rowsOf table, r.timestamp ≠ bindInt now.toInt

theorem GoesIn.ownStatements {db : Database} {now : Int64} {o : AppOutcomes} {name : Bytes}
    (h : GoesIn db now o name) : OwnStatements o name where
  keepsRows := h.keepsRows
  ownInsert _ hother := by
    obtain ⟨table, hparse, -⟩ := h.unused
    exact hother.1 table hparse

/-- With nothing in its way, the row of a name that is nothing but a name goes in where none has its
time. -/
theorem goesIn_of_plain {name : Bytes} (hlen : name.length ≤ 15) (hzero : 0 ∉ name)
    (hquote : dquote ∉ name) (haccept : containsSemicolon name = false)
    (hreserved : isReserved name = false) {db : Database} {now : Int64}
    (hunused : ∀ r ∈ db.rowsOf name, r.timestamp ≠ bindInt now.toInt) :
    GoesIn db now {} name ∧ ¬ CreateRollsBack {} name := by
  have hcreate : Creates {} name { tables := [name] } :=
    ⟨Or.inl ⟨name, parse_createText_plain hlen hzero hquote, rfl, hreserved, rfl⟩, rfl⟩
  refine ⟨?_, hcreate.not_rollsBack⟩
  exact
    { accepted := haccept
      keepsRows := (onlyOwn_of_plain hquote).ownStatements.keepsRows
      prepared := rfl
      stepped := rfl
      unused := ⟨name, parse_insertText_plain hlen hzero hquote,
        Or.inr ⟨_, hcreate, name, List.mem_singleton_self _, sameName_refl _⟩, hunused⟩ }

/-- Two names go to two tables. -/
def Apart (a b : Bytes) : Prop :=
  ∀ s t, parse (insertText a) = some (.insert s) → parse (insertText b) = some (.insert t) →
    sameName s t = false

/-- The row of an application that goes in is inserted. -/
theorem depositApp_of_goesIn {now : Int64} {o : Outcomes} {conn : Conn Database} {name : Bytes}
    (hin : GoesIn conn.current now (o.app name) name)
    (hback : CreateRollsBack (o.app name) name → conn.committed = conn.current)
    (line : TrafficLine) :
    (depositApp now o conn name line).2.inserted = true ∧
      (depositApp now o conn name line).1.current.rows
        = conn.current.rows ++ [insertedRow now name line] ∧
      (depositApp now o conn name line).1.current.tableSet
        = conn.current.tableSet ∪ created (o.app name) name := by
  obtain ⟨table, hparse, htable, hunused⟩ := hin.unused
  obtain ⟨hrows, htables⟩ := stepCreate_current hback hin.keepsRows
  rw [depositApp_of_accept hin.accepted]
  have hdone : (stepInsert (stepCreate conn (createText name) (o.app name)).1 (insertText name)
      (boundRow now line) (o.app name)).2 = .done := by
    have hunused' : ∀ r ∈ (stepCreate conn (createText name) (o.app name)).1.current.rowsOf table,
        r.timestamp ≠ (boundRow now line).timestamp := by
      rw [Database.rowsOf, hrows]
      exact hunused
    rcases stepInsert_cases (stepCreate conn (createText name) (o.app name)).1 name
      (boundRow now line) (o.app name) with
      ⟨hlost, -, -⟩ | ⟨_, _, -, -, -, hrun⟩ | ⟨_, -, -, hrun⟩ | hkept
    · obtain ⟨-, e, he⟩ := hlost
      exact absurd (hin.stepped.symm.trans he) (by simp)
    · rw [hrun]
    · rw [hrun]
    · -- With its table there and its time unused, the statement cannot be refused.
      have hhas : (stepCreate conn (createText name) (o.app name)).1.current.hasTable table = true := by
        rw [← Database.mem_tableSet, htables]
        exact htable
      simp [stepInsert, hparse, hin.prepared, hin.stepped, hhas, Conn.exec,
        Database.insert_of_unused hunused']
  obtain ⟨-, hrows', htables'⟩ := stepInsert_of_done hin.ownStatements.ownInsert hdone
  refine ⟨by simp [AppResult.inserted, hdone], ?_, ?_⟩
  · rw [hrows', hrows]
  · rw [htables', htables]

/-- A row in another table is in nobody's way. -/
theorem GoesIn.after {db db' : Database} {now : Int64} {o : AppOutcomes} {name other : Bytes}
    {line : TrafficLine} (h : GoesIn db now o name) (happart : Apart other name)
    (hother : ∃ table, parse (insertText other) = some (.insert table))
    (hrows : db'.rows = db.rows ++ [insertedRow now other line])
    (htables : db.tableSet ⊆ db'.tableSet) : GoesIn db' now o name := by
  obtain ⟨table, hparse, htable, hunused⟩ := h.unused
  obtain ⟨otherTable, hotherParse⟩ := hother
  refine ⟨h.accepted, h.keepsRows, h.prepared, h.stepped, table, hparse,
    Set.union_subset_union_left _ htables htable, ?_⟩
  have hsame : db'.rowsOf table = db.rowsOf table := by
    rw [Database.rowsOf, hrows, insertedRow_of_parse hotherParse, List.filter_append]
    simp [happart _ _ hotherParse hparse, Database.rowsOf]
  rw [hsame]
  exact hunused

theorem depositApp_tx_of_rollsBack {now : Int64} {o : Outcomes} {conn : Conn Database} {name : Bytes}
    {line : TrafficLine} (haccept : containsSemicolon name = false)
    (hback : CreateRollsBack (o.app name) name) : (depositApp now o conn name line).1.tx = none := by
  rw [depositApp_of_accept haccept]
  refine stepInsert_tx_of_none ?_
  rw [stepCreate_of_rollsBack hback, Conn.rollback_tx]

/-- The rows of all applications are inserted when each goes in, no two into one table, and the
transaction is taken back before the first row if at all. -/
theorem depositApps_inserted {now : Int64} {o : Outcomes} :
    ∀ {entries : List (Σ _ : Bytes, TrafficLine)} {conn : Conn Database},
      (∀ e ∈ entries, GoesIn conn.current now (o.app e.1) e.1) →
      (entries.map Sigma.fst).Pairwise Apart →
      (∀ e ∈ entries, CreateRollsBack (o.app e.1) e.1 → conn.tx = none) ∨
        (FirstCreateRollsBack o (entries.map Sigma.fst) ∧ conn.committed = conn.current) →
      ∀ r ∈ (depositApps now o conn entries).2, r.inserted = true := by
  intro entries
  induction entries with
  | nil => intro conn _ _ _; simp [depositApps]
  | cons e rest ih =>
      intro conn hin hapart hback
      obtain ⟨hhead, hrest⟩ := List.forall_mem_cons.mp hin
      obtain ⟨hhead', hrest'⟩ := List.pairwise_cons.mp hapart
      have hunwritten : CreateRollsBack (o.app e.1) e.1 → conn.committed = conn.current := by
        intro h
        rcases hback with hback | ⟨-, hsame⟩
        · exact (Conn.current_of_none (hback e List.mem_cons_self h)).symm
        · exact hsame
      -- A transaction taken back by the first application is gone for all others.
      have hgone : ∀ f ∈ rest, CreateRollsBack (o.app f.1) f.1 →
          (depositApp now o conn e.1 e.2).1.tx = none := by
        intro f hf h
        rcases hback with hback | ⟨⟨_, _, hnames, haccept, hfirst⟩, -⟩
        · exact depositApp_tx_of_none (hback f (List.mem_cons_of_mem _ hf) h)
        · rw [List.map_cons, List.cons.injEq] at hnames
          rw [← hnames.1] at haccept hfirst
          exact depositApp_tx_of_rollsBack haccept hfirst
      obtain ⟨hdone, hrows, htables⟩ := depositApp_of_goesIn hhead hunwritten e.2
      rw [depositApps_cons]
      refine List.forall_mem_cons.mpr ⟨hdone, ih ?_ hrest' (Or.inl hgone)⟩
      intro f hf
      refine (hrest f hf).after (hhead' f.1 (List.mem_map_of_mem hf)) ?_ hrows ?_
      · obtain ⟨table, hparse, -⟩ := hhead.unused
        exact ⟨table, hparse⟩
      · rw [htables]
        exact Set.subset_union_left

/-- What a deposit is given lets all of it into the database: every row goes in, no two into one
table, and either nothing takes the transaction back and the commit succeeds, or the first
application's `CREATE` takes it back and every row is committed on its own. -/
structure GoesThrough (conn : Conn Database) (traffic : TrafficMap) (now : Int64) (o : Outcomes) :
    Prop where
  closed : conn.tx = none
  begun : o.begin = .ok
  goesIn : ∀ name ∈ traffic.keys, GoesIn conn.committed now (o.app name) name
  apart : traffic.keys.Pairwise Apart
  kept : ((∀ name ∈ traffic.keys, ¬ CreateRollsBack (o.app name) name) ∧ o.commit = .ok) ∨
    FirstCreateRollsBack o traffic.keys

theorem GoesThrough.ownStatements {conn : Conn Database} {traffic : TrafficMap} {now : Int64}
    {o : Outcomes} (h : GoesThrough conn traffic now o) :
    ∀ e ∈ traffic.entries, OwnStatements (o.app e.1) e.1 := fun e he =>
  (h.goesIn e.1 (List.mem_map_of_mem he)).ownStatements

theorem GoesThrough.results {conn : Conn Database} {traffic : TrafficMap} {now : Int64}
    {o : Outcomes} (h : GoesThrough conn traffic now o) :
    (insertApplicationTraffic conn traffic now o).2.begin = .ok ∧
      (∀ r ∈ (insertApplicationTraffic conn traffic now o).2.apps, r.inserted = true) ∧
      ((insertApplicationTraffic conn traffic now o).2.commit = some .ok ∨
        FirstCreateRollsBack o traffic.keys) := by
  have hbegin : (conn.begin o.begin).2 = .ok := Conn.begin_ok_iff.mpr ⟨h.closed, h.begun⟩
  have hbegun := Conn.begin_of_ok hbegin
  have hopened : (conn.begin o.begin).1.tx = some conn.committed := by rw [hbegun]
  have hsees : (conn.begin o.begin).1.current = conn.committed := Conn.current_of_some hopened
  rw [insertApplicationTraffic_of_begin hbegin]
  refine ⟨rfl, depositApps_inserted ?_ h.apart ?_, ?_⟩
  · intro e he
    rw [hsees]
    exact h.goesIn e.1 (List.mem_map_of_mem he)
  · rcases h.kept with ⟨hkept, -⟩ | hfirst
    · exact Or.inl fun e he hback => absurd hback (hkept e.1 (List.mem_map_of_mem he))
    · exact Or.inr ⟨hfirst, by rw [hsees, hbegun]⟩
  · rcases h.kept with ⟨hkept, hcommit⟩ | hfirst
    · have hnot : ¬ RollsBack o conn.committed.tableSet traffic.keys :=
        not_rollsBack fun name hname => ⟨hkept name hname, (h.goesIn name hname).stepped⟩
      have hopen : (depositApps now o (conn.begin o.begin).1 traffic.entries).1.tx ≠ none :=
        mt (depositApps_tx_eq_none_iff hopened).mp hnot
      obtain ⟨d, hd⟩ := Option.ne_none_iff_exists'.mp hopen
      exact Or.inl (by simp [Conn.commit, hd, hcommit])
    · exact Or.inr hfirst

end DBController

open DBController

/-! ### What did not reach the database -/

/-- The iteration brought the application's row into the committed database. -/
def Reached (s : System) (now : Int64) (o : Outcomes) (name : Bytes) (line : TrafficLine) : Prop :=
  ∃ table new, parse (insertText name) = some (.insert table) ∧
    (s.step (.deposit now o)).conn.committed.rows = s.conn.committed.rows ++ new ∧
    (table, boundRow now line) ∈ new

/-- After a deposit, an application's traffic is in the database or still in the map. -/
def LosesNothing (s : System) : Action → Prop
  | .deposit now o =>
      ∀ name line, s.storage.mApplicationTraffic.lookup name = some line →
        Reached s now o name line ∨
          (s.step (.deposit now o)).storage.mApplicationTraffic.lookup name = some line
  | _ => True

/-- There is nothing to deposit, or all of it goes through. -/
def DepositGoesThrough (s : System) : Action → Prop
  | .deposit now o =>
      s.storage.mApplicationTraffic = ∅ ∨ GoesThrough s.conn s.storage.mApplicationTraffic now o
  | _ => True

/--
**In every run whose deposits go through, no deposit loses traffic**: whatever did not
reach the database in an iteration is still in the map after it.
-/
theorem losesNothing_run (interval : Int32) (db : Database) (as : List Action)
    (h : Along System.step DepositGoesThrough (System.init interval db) as) :
    Along System.step LosesNothing (System.init interval db) as := by
  refine along_of_guard (I := fun _ => True) (fun s a _ hG => ⟨trivial, ?_⟩) trivial h
  cases a with
  | deposit now o =>
      intro name line hline
      have hmem : ⟨name, line⟩ ∈ s.storage.mApplicationTraffic.entries :=
        AList.mem_lookup_iff.mp hline
      rcases hG with hempty | hthrough
      · rw [hempty] at hline
        exact absurd hline (by simp)
      · obtain ⟨hbegin, hall, hcommit⟩ := hthrough.results
        obtain ⟨hparse, hrows⟩ := rows_of_allInserted hthrough.ownStatements hbegin hall hcommit
        obtain ⟨table, htable⟩ := hparse _ hmem
        refine Or.inl ⟨table, _, htable, hrows, List.mem_map.mpr ⟨_, hmem, ?_⟩⟩
        exact insertedRow_of_parse htable
  | lookup thread process pkt => exact trivial
  | increment thread => exact trivial
  | snapshot => exact trivial
  | await frame => exact trivial

/-- A run with a packet of each of two applications, and a deposit of both that goes through. -/
theorem losesNothing_run_two :
    Along System.step LosesNothing (System.init 10 Database.empty)
      [.lookup 0 { comm := ascii "ssh", pid := 7 } { len := 100, direction := .incoming },
       .increment 0,
       .lookup 0 { comm := ascii "cron", pid := 8 } { len := 40, direction := .outgoing },
       .increment 0, .deposit 1672549200 {}] := by
  refine losesNothing_run 10 Database.empty _
    ⟨trivial, trivial, trivial, trivial, Or.inr ?_, trivial⟩
  have hplain : ∀ name ∈ [ascii "cron", ascii "ssh"], name.length ≤ 15 ∧ 0 ∉ name ∧ dquote ∉ name ∧
      containsSemicolon name = false ∧ isReserved name = false := by
    decide
  have hnames : ∀ name ∈ [ascii "cron", ascii "ssh"],
      GoesIn Database.empty 1672549200 {} name ∧ ¬ CreateRollsBack {} name := by
    intro name hname
    obtain ⟨hlen, hzero, hquote, haccept, hreserved⟩ := hplain name hname
    exact goesIn_of_plain hlen hzero hquote haccept hreserved
      (by simp [Database.rowsOf, Database.empty])
  refine ⟨rfl, rfl, fun name hname => (hnames name hname).1, ?_,
    Or.inl ⟨fun name hname => (hnames name hname).2, rfl⟩⟩
  refine List.pairwise_pair.mpr fun s t hs ht => ?_
  rw [eq_of_parse_insertText (by decide) (by decide) hs,
    eq_of_parse_insertText (by decide) (by decide) ht]
  decide

/-- With the database busy at `BEGIN`, the traffic of the interval is lost. -/
theorem not_losesNothing_busy :
    ¬ ∀ (interval : Int32) (db : Database) (as : List Action),
      Along System.step LosesNothing (System.init interval db) as := by
  intro h
  have hrun := h 10 Database.empty
    [.lookup 0 { comm := ascii "ssh", pid := 7 } { len := 100, direction := .incoming },
     .increment 0, .deposit 1672549200 { begin := .fail .busy false }]
  obtain ⟨-, -, hdeposit, -⟩ := hrun
  rcases hdeposit (ascii "ssh") { bytesRx := 100, pktRxCount := 1 } (by decide) with
    ⟨table, new, -, hrows, hmem⟩ | hheld
  · have hnone : ([] : List (Bytes × Row)) = [] ++ new := hrows
    rw [← hnone.trans (List.nil_append new)] at hmem
    exact absurd hmem (by simp)
  · exact absurd hheld (by decide)

end Ntmd
