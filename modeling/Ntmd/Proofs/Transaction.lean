/-
Whether a deposit leaves its transaction open.

The loop over the applications never closes the transaction itself, but a statement
that fails can take it back; `RollsBack` says when one does, from the names, the tables
there are and the outcomes (`depositApps_tx_eq_none_iff`).  If none does, it is for the
`COMMIT` to let go of it; a `SQLITE_BUSY` does not, and nothing in the code looks at
that result.
-/
import Ntmd.Proofs.Calls
import Ntmd.Traffic.TrafficStorage

namespace Ntmd

open Bytes Sqlite Run

namespace DBController

/-- A statement of the loop over these names takes the transaction back; `has` are the tables
there before the loop. -/
def RollsBack (o : Outcomes) : Set Bytes → List Bytes → Prop
  | _, [] => False
  | has, name :: rest =>
      (containsSemicolon name = false ∧
        (CreateRollsBack (o.app name) name ∨
          InsertRollsBack (o.app name) (has ∪ created (o.app name) name) name)) ∨
      RollsBack o (if containsSemicolon name then has else has ∪ created (o.app name) name) rest

theorem not_rollsBack {o : Outcomes} : ∀ {names : List Bytes} {has : Set Bytes},
    (∀ name ∈ names, ¬ CreateRollsBack (o.app name) name ∧ (o.app name).stepInsert = .ok) →
      ¬ RollsBack o has names := by
  intro names
  induction names with
  | nil => intro has _ h; exact h
  | cons name rest ih =>
      intro has hall h
      obtain ⟨⟨hcreate, hinsert⟩, hrest⟩ := List.forall_mem_cons.mp hall
      rcases h with ⟨-, hback | ⟨-, e, he⟩⟩ | h
      · exact hcreate hback
      · exact absurd (hinsert.symm.trans he) (by simp)
      · exact ih hrest h

/-- Inside a transaction a `CREATE` either takes it back or adds its table to what it sees. -/
theorem stepCreate_of_tx {conn : Conn Database} {d : Database} (h : conn.tx = some d) (name : Bytes)
    (o : AppOutcomes) :
    (CreateRollsBack o name ∧ (stepCreate conn (createText name) o).1.tx = none) ∨
    (¬ CreateRollsBack o name ∧ ∃ d', (stepCreate conn (createText name) o).1.tx = some d' ∧
      d'.tableSet = d.tableSet ∪ created o name) := by
  rcases stepCreate_cases conn name o with ⟨hback, hrun⟩ | ⟨c, hcreates, hrun⟩ | ⟨hback, hnot, hrun⟩
  · exact Or.inl ⟨hback, by rw [hrun, Conn.rollback_tx]⟩
  · refine Or.inr ⟨hcreates.not_rollsBack, d.create c, ?_, ?_⟩
    · rw [hrun, Conn.put_of_some h, Conn.current_of_some h]
    · rw [created_of_creates hcreates, Database.create_tableSet]
  · refine Or.inr ⟨hback, d, by rw [hrun, h], ?_⟩
    rw [created_of_not_creates hnot, Set.union_empty]

theorem stepInsert_of_tx {conn : Conn Database} {d : Database} (h : conn.tx = some d) (name : Bytes)
    (row : Row) (o : AppOutcomes) :
    (InsertRollsBack o d.tableSet name ∧ (stepInsert conn (insertText name) row o).1.tx = none) ∨
    (¬ InsertRollsBack o d.tableSet name ∧ ∃ d',
      (stepInsert conn (insertText name) row o).1.tx = some d' ∧ d'.tableSet = d.tableSet) := by
  have hsees := Conn.current_of_some h
  have hkept (ho : o.stepInsert = .ok) : ¬ InsertRollsBack o d.tableSet name := by
    rintro ⟨-, e, he⟩
    exact absurd (ho.symm.trans he) (by simp)
  rcases stepInsert_cases conn name row o with
    ⟨hback, hrun, -⟩ | ⟨table, d', -, ho, hd', hrun⟩ | ⟨rows, -, ho, hrun⟩ | ⟨hback, hrun, -⟩
  · exact Or.inl ⟨hsees ▸ hback, by rw [hrun, Conn.rollback_tx]⟩
  · refine Or.inr ⟨hkept ho, d', by rw [hrun, Conn.put_of_some h], ?_⟩
    rw [Database.insert_eq_some hd', hsees]
    rfl
  · refine Or.inr ⟨hkept ho, _, by rw [hrun, Conn.put_of_some h], ?_⟩
    rw [hsees]
    rfl
  · exact Or.inr ⟨hsees ▸ hback, d, by rw [hrun, h], rfl⟩

/-- The loop loses its transaction exactly if one of its statements takes it back. -/
theorem depositApps_tx_eq_none_iff {now : Int64} {o : Outcomes} :
    ∀ {entries : List (Σ _ : Bytes, TrafficLine)} {conn : Conn Database} {d : Database},
      conn.tx = some d →
      ((depositApps now o conn entries).1.tx = none ↔
        RollsBack o d.tableSet (entries.map Sigma.fst)) := by
  intro entries
  induction entries with
  | nil =>
      intro conn d h
      exact iff_of_false (by rw [depositApps, h]; simp) id
  | cons e rest ih =>
      intro conn d h
      rw [depositApps_cons, List.map_cons, RollsBack]
      cases haccept : containsSemicolon e.1 with
      | true =>
          rw [depositApp_of_refuse haccept, ih h]
          simp
      | false =>
          rw [depositApp_of_accept haccept]
          simp only [true_and, Bool.false_eq_true, if_false]
          rcases stepCreate_of_tx h e.1 (o.app e.1) with ⟨hback, hlost⟩ | ⟨hnot, d₁, hd₁, htables₁⟩
          · exact iff_of_true (depositApps_tx_of_none (stepInsert_tx_of_none hlost))
              (Or.inl (Or.inl hback))
          · rw [← htables₁]
            rcases stepInsert_of_tx hd₁ e.1 (boundRow now e.2) (o.app e.1) with
              ⟨hback, hlost⟩ | ⟨hnot', d₂, hd₂, htables₂⟩
            · exact iff_of_true (depositApps_tx_of_none hlost) (Or.inl (Or.inr hback))
            · rw [ih hd₂, htables₂]
              exact (or_iff_right (not_or.mpr ⟨hnot, hnot'⟩)).symm

/-- A deposit leaves no transaction open exactly if a statement takes it back, or the commit lets
go of it. -/
theorem insertApplicationTraffic_tx_eq_none_iff {conn : Conn Database} {traffic : TrafficMap}
    {now : Int64} {o : Outcomes} (htx : conn.tx = none) :
    (insertApplicationTraffic conn traffic now o).1.tx = none ↔
      (o.begin = .ok →
        RollsBack o conn.committed.tableSet traffic.keys ∨ Conn.Releases o.commit) := by
  by_cases hbegin : o.begin = .ok
  · have hok : (conn.begin o.begin).2 = .ok := Conn.begin_ok_iff.mpr ⟨htx, hbegin⟩
    have hopened : (conn.begin o.begin).1.tx = some conn.committed := by
      rw [Conn.begin_of_ok hok]
    rw [insertApplicationTraffic_of_begin hok, Conn.commit_tx_eq_none,
      depositApps_tx_eq_none_iff hopened]
    exact ⟨fun h _ => h, fun h => h hbegin⟩
  · have hnot : (conn.begin o.begin).2 ≠ .ok := fun h => hbegin (Conn.begin_ok_iff.mp h).2
    rw [insertApplicationTraffic_of_not_begin hnot]
    exact iff_of_true htx fun h => absurd h hbegin

end DBController

open DBController

/-- No transaction is open on the daemon's connection. -/
def NoOpenTransaction (s : System) : Prop := s.conn.tx = none

/-- The transaction of a deposit, if it is begun, is taken back by a statement or let go of by
the commit. -/
def CommitReleases (s : System) : Action → Prop
  | .deposit _ o =>
      o.begin = .ok →
        RollsBack o s.conn.committed.tableSet s.storage.mApplicationTraffic.keys ∨
          Conn.Releases o.commit
  | _ => True

theorem noOpenTransaction_step_iff (s : System) (a : Action) (h : NoOpenTransaction s) :
    NoOpenTransaction (s.step a) ↔ CommitReleases s a := by
  cases a with
  | lookup thread process pkt =>
      refine iff_of_true ?_ trivial
      simp only [System.step]
      split <;> exact h
  | increment thread =>
      refine iff_of_true ?_ trivial
      simp only [System.step]
      split <;> exact h
  | deposit now o => exact insertApplicationTraffic_tx_eq_none_iff h
  | snapshot => exact iff_of_true h trivial
  | await frame => exact iff_of_true h trivial

/--
**No transaction is left open in any state of a run exactly if each deposit's transaction
is taken back or let go of.**
-/
theorem noOpenTransaction_run_iff (interval : Int32) (db : Database) (as : List Action) :
    Always System.step NoOpenTransaction (System.init interval db) as
      ↔ Along System.step CommitReleases (System.init interval db) as :=
  always_iff_along (I := fun _ => True) (fun _ _ h => h)
    (fun s a _ h => noOpenTransaction_step_iff s a h) trivial rfl

/-- A process that calls itself `main"."ssh` has its row refused in the table of another, by an error
that takes the transaction back. -/
example : (insertApplicationTraffic { committed := Database.empty, tx := none }
    (AList.singleton (ascii "main\".\"ssh") { bytesRx := 5 }) 1672549200
    { app := fun _ => { otherInsert := some id, stepInsert := .fail (.other 13) true } }).1.tx = none := by
  decide +kernel

/-- A commit that finds the database busy leaves its transaction open, and the next deposit,
with nothing in its way any more, fails at its `BEGIN`. -/
theorem openTransaction_after_busy :
    ¬ (∀ (interval : Int32) (db : Database) (as : List Action),
        Always System.step NoOpenTransaction (System.init interval db) as) ∧
      (insertApplicationTraffic
        (exec System.step (System.init 10 Database.empty)
          [.deposit 1672549200 { commit := .fail .busy false }]).conn ∅ 1672549210 {}).2.begin
        = .failed .error := by
  refine ⟨fun h => ?_, by decide⟩
  have hrun := (h 10 Database.empty
    [.deposit 1672549200 { commit := .fail .busy false }]).last
  exact absurd hrun (by simp [NoOpenTransaction, System.step, System.depositIteration,
    System.init, insertApplicationTraffic, Conn.begin, depositApps, Conn.commit])

end Ntmd
