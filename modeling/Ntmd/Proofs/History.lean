/-
What is asked for later is what was added.

The purpose of the storage, the deposits and the database together is that of a
ledger: a packet is credited to its application, a deposit closes a period, and the
answers are the balance and the history.  Here the ledger of a run is made from what
the run tells (`System.events`), and `answers_run` says that a live snapshot and the
two queries answer with it.  `Books` is the relation that every step keeps.

A query of a name is about all names that differ from it only in case, since SQLite has
one table for them (`Database.amounts`).
-/
import Ntmd.Lib.Ledger
import Ntmd.Lib.MapSum
import Ntmd.Lib.Trace
import Ntmd.Proofs.AppendOnly
import Ntmd.Proofs.CaptureTotals
import Ntmd.Proofs.Stored

namespace Ntmd

open Bytes DBController MapSum Run Sqlite

/-- A number for each counter. -/
abbrev Amounts := Counter → Int

/-- Credits to applications, and periods closed at times in seconds. -/
abbrev Book := Ledger Bytes Int Amounts

abbrev BookEvent := Ledger.Event Bytes Int Amounts

namespace Counter

/-- The column that the counter is stored in. -/
def column : Counter → Row → Int
  | .bytesRx => Row.bytesRx
  | .bytesTx => Row.bytesTx
  | .pktRxCount => Row.pktRxCount
  | .pktTxCount => Row.pktTxCount

/-- A sum that SQLite can make and that is read into its field unchanged. -/
def FitsAnswer : Counter → Int → Prop
  | .bytesRx, z | .bytesTx, z => 0 ≤ z ∧ z < 2 ^ 63
  | .pktRxCount, z | .pktTxCount, z => -2 ^ 31 ≤ z ∧ z < 2 ^ 31

instance (c : Counter) (z : Int) : Decidable (c.FitsAnswer z) :=
  match c with
  | .bytesRx | .bytesTx | .pktRxCount | .pktTxCount => inferInstanceAs (Decidable (_ ∧ _))

end Counter

def TrafficLine.amounts (line : TrafficLine) : Amounts := fun c => c.read line

def Packet.amounts (pkt : Packet) : Amounts := fun c => c.amount pkt

def Row.amounts (row : Row) : Amounts := fun c => c.column row

/-- What a map holds for some names. -/
def TrafficMap.amountsOf (names : Bytes → Bool) (traffic : TrafficMap) : Amounts :=
  sumOver (fun name line => if names name then line.amounts else 0) traffic

/-- What a table holds of a window of times. -/
def Database.amounts (db : Database) (name : Bytes) (window : Int → Bool) : Amounts :=
  (((db.rowsOf name).filter fun r => window r.timestamp).map Row.amounts).sum

/-- A database as a ledger: each row is a period of its own. -/
def Database.book (db : Database) : Book :=
  { closed := db.rows.map fun e => (e.2.timestamp, [(e.1, e.2.amounts)]) }

/-! ### Lines and maps -/

theorem TrafficLine.amounts_empty : ({} : TrafficLine).amounts = 0 := by
  funext c
  cases c <;> rfl

theorem TrafficLine.amounts_add {line : TrafficLine} {pkt : Packet} (h : Fits line pkt) :
    (line.add pkt).amounts = line.amounts + pkt.amounts :=
  funext fun c => (read_add_iff c line pkt).mpr (h c)

theorem amounts_exactRow (now : Int64) (line : TrafficLine) :
    (exactRow now line).amounts = line.amounts := by
  funext c
  cases c <;> rfl

namespace TrafficMap

variable {names : Bytes → Bool} {traffic : TrafficMap} {name : Bytes}

theorem termAt_of_lookup {line : TrafficLine} (h : traffic.lookup name = some line) :
    termAt (fun name line => if names name then line.amounts else 0) traffic name =
      if names name then line.amounts else 0 := by
  rw [termAt, h]
  rfl

theorem termAt_of_none (h : traffic.lookup name = none) :
    termAt (fun name line => if names name then TrafficLine.amounts line else 0) traffic name = 0 := by
  rw [termAt, h]
  rfl

/-- A packet added to a line is added to what the names hold. -/
theorem amountsOf_insert_add {line : TrafficLine} {pkt : Packet}
    (h : traffic.lookup name = some line) (hfits : Fits line pkt) :
    amountsOf names (traffic.insert name (line.add pkt)) =
      amountsOf names traffic + if names name then pkt.amounts else 0 := by
  have hinsert := sumOver_insert (fun name line => if names name then TrafficLine.amounts line else 0)
    traffic name (line.add pkt)
  rw [termAt_of_lookup h, TrafficLine.amounts_add hfits] at hinsert
  refine add_right_cancel (b := if names name then line.amounts else 0) (hinsert.trans ?_)
  unfold amountsOf
  by_cases hname : names name = true
  · rw [if_pos hname, if_pos hname, if_pos hname, add_assoc, add_comm line.amounts]
  · rw [if_neg hname, if_neg hname, if_neg hname, add_zero, add_zero]

/-- A new line holds nothing. -/
theorem amountsOf_insert_empty (h : traffic.lookup name = none) :
    amountsOf names (traffic.insert name {}) = amountsOf names traffic := by
  have hinsert := sumOver_insert (fun name line => if names name then TrafficLine.amounts line else 0)
    traffic name {}
  rw [termAt_of_none h, TrafficLine.amounts_empty, ite_self, add_zero, add_zero] at hinsert
  exact hinsert

/-- What is held for one name is on its line. -/
theorem amountsOf_eq_lookup (h : ∀ e ∈ traffic.entries, e.1 ≠ name → names e.1 = false)
    (hname : names name = true) :
    amountsOf names traffic = ((traffic.lookup name).getD {}).amounts := by
  rw [amountsOf, sumOver_eq_termAt fun e he hne => by rw [h e he hne, if_neg (by simp)]]
  cases hlookup : traffic.lookup name with
  | some line => rw [termAt_of_lookup hlookup, if_pos hname, Option.getD_some]
  | none => rw [termAt_of_none hlookup, Option.getD_none, TrafficLine.amounts_empty]

theorem amountsOf_eq_zero (h : ∀ e ∈ traffic.entries, names e.1 = false) :
    amountsOf names traffic = 0 := by
  refine List.sum_eq_zero fun x hx => ?_
  obtain ⟨e, he, rfl⟩ := List.mem_map.mp hx
  exact if_neg (by simp [h e he])

end TrafficMap

open TrafficMap

/-! ### The rows of a deposit -/

/-- A table holds the history of its names. -/
theorem Database.amounts_eq_history (db : Database) (name : Bytes) (window : Int → Bool) :
    db.amounts name window = db.book.history (sameName · name) window := by
  rw [Database.amounts, Database.rowsOf, Ledger.history, Database.book]
  simp only
  generalize db.rows = rows
  induction rows with
  | nil => rfl
  | cons e rows ih =>
      rw [List.filter_cons, List.map_cons, List.filter_cons]
      cases hwindow : window e.2.timestamp with
      | false =>
          cases hsame : sameName e.1 name with
          | false => simpa [hwindow] using ih
          | true => simpa [hwindow] using ih
      | true =>
          rw [if_pos rfl, List.map_cons, List.sum_cons, ← ih, Ledger.amountOf_singleton]
          cases hsame : sameName e.1 name with
          | false => simp
          | true => simp [hwindow]

/-- Rows that are added at one time are the credits of one more period. -/
theorem Database.history_append {db d : Database} {now : Int64}
    {entries : List (Σ _ : Bytes, TrafficLine)}
    (h : d.rows = db.rows ++ entries.map fun e => (e.1, exactRow now e.2)) (names : Bytes → Bool)
    (window : Int → Bool) :
    d.book.history names window = db.book.history names window +
      if window now.toInt then (entries.map fun e => if names e.1 then e.2.amounts else 0).sum
      else 0 := by
  rw [Ledger.history, Database.book, h, List.map_append, List.filter_append, List.map_append,
    List.sum_append]
  refine congrArg (db.book.history names window + ·) ?_
  clear h
  induction entries with
  | nil => simp
  | cons e entries ih =>
      have htime : (exactRow now e.2).timestamp = now.toInt := rfl
      rw [List.map_cons, List.map_cons, List.filter_cons, List.map_cons, List.sum_cons]
      simp only [htime]
      cases hwindow : window now.toInt with
      | false => rw [hwindow] at ih; exact ih
      | true =>
          rw [hwindow] at ih
          simp only [if_true] at ih ⊢
          rw [List.map_cons, List.sum_cons, ih, Ledger.amountOf_singleton, amounts_exactRow]

/-- Names that SQLite reads as themselves between quotes. -/
def Quotable (name : Bytes) : Prop := 0 ∉ name ∧ dquote ∉ name

instance : DecidablePred Quotable := fun _ => inferInstanceAs (Decidable (_ ∧ _))

/-- After a deposit that goes through, and of numbers that fit, the tables hold what the map held. -/
theorem history_of_goesThrough {conn : Conn Database} {traffic : TrafficMap} {now : Int64}
    {o : Outcomes} (h : GoesThrough conn traffic now o)
    (hlines : ∀ name line, traffic.lookup name = some line → Quotable name ∧ FitsInt now line)
    (names : Bytes → Bool) (window : Int → Bool) :
    (insertApplicationTraffic conn traffic now o).1.committed.book.history names window =
      conn.committed.book.history names window +
        if window now.toInt then traffic.amountsOf names else 0 := by
  obtain ⟨hbegin, hall, hcommit⟩ := h.results
  obtain ⟨hparse, hrows⟩ := rows_of_allInserted h.ownStatements hbegin hall hcommit
  have hexact : (traffic.entries.map fun e => insertedRow now e.1 e.2) =
      traffic.entries.map fun e => (e.1, exactRow now e.2) := by
    refine List.map_congr_left fun e he => ?_
    obtain ⟨⟨hzero, hquote⟩, hfits⟩ := hlines e.1 e.2 (AList.mem_lookup_iff.mpr he)
    obtain ⟨table, htable⟩ := hparse e he
    rw [insertedRow_of_parse htable, eq_of_parse_insertText hzero hquote htable,
      boundRow_eq_exactRow_iff.mpr hfits]
  rw [hexact] at hrows
  exact Database.history_append hrows names window

/-- It leaves no transaction open. -/
theorem DBController.GoesThrough.closed_after {conn : Conn Database} {traffic : TrafficMap} {now : Int64}
    {o : Outcomes} (h : GoesThrough conn traffic now o) :
    (insertApplicationTraffic conn traffic now o).1.tx = none := by
  obtain ⟨hbegin, hall, hcommit⟩ := h.results
  rw [insertApplicationTraffic_begin] at hbegin
  rw [insertApplicationTraffic_of_begin hbegin] at hall hcommit ⊢
  simp only [Option.some.injEq] at hall hcommit ⊢
  rcases hcommit with hcommit | hlost
  · obtain ⟨d, -, hcommitted⟩ := Conn.commit_of_ok hcommit
    rw [hcommitted]
  · obtain ⟨-, hend, -⟩ := depositApps_rows_of_rollback h.ownStatements hlost hall
    rw [Conn.commit_of_none hend]
    exact hend

/-! ### The ledger of a run -/

namespace System

/-- What a step credits or closes. -/
def events (s : System) : Action → List BookEvent
  | .increment thread =>
      match s.pending thread with
      | some p => [.credit p.line.comm p.pkt.amounts]
      | none => []
  | .deposit now _ => [.close now.toInt]
  | _ => []

/-- The ledger of a run that begins with a database, from what its steps tell. -/
def bookOf (interval : Int32) (db : Database) (as : List Action) : Book :=
  exec Ledger.post db.book (trace step events (init interval db) as)

/-- An add finds its line and has room on it, and a deposit goes through with numbers that fit. -/
def Recorded (s : System) : Action → Prop
  | .increment thread => AddIntact s (.increment thread)
  | .deposit now o =>
      GoesThrough s.conn s.storage.mApplicationTraffic now o ∧
        ∀ name line, s.storage.mApplicationTraffic.lookup name = some line →
          Quotable name ∧ FitsInt now line
  | _ => True

/-- The state is that of the ledger: the map holds the balance, the tables hold the history. -/
structure Books (s : System) (l : Book) : Prop where
  pending : PendingHeld s
  closed : s.conn.tx = none
  sound : s.conn.committed.Sound
  memory : ∀ names, s.storage.mApplicationTraffic.amountsOf names = l.balance names
  stored : ∀ names window, s.conn.committed.book.history names window = l.history names window

variable {db : Database} {s : System} {l : Book}

/-- A step that adds nothing and leaves the connection alone. -/
theorem Books.of_unchanged (h : s.Books l) {a : Action} (hconn : (s.step a).conn = s.conn)
    (hmemory : ∀ names, (s.step a).storage.mApplicationTraffic.amountsOf names =
      s.storage.mApplicationTraffic.amountsOf names) : (s.step a).Books l where
  pending := pendingHeld_step s a h.pending
  closed := hconn ▸ h.closed
  sound := hconn ▸ h.sound
  memory names := (hmemory names).trans (h.memory names)
  stored names window := hconn ▸ h.stored names window

theorem Books.lookup (h : s.Books l) (thread : Nat) (process : Process) (pkt : Packet) :
    (s.step (.lookup thread process pkt)).Books l := by
  refine h.of_unchanged ?_ fun names => ?_
  · simp only [step]
    split <;> rfl
  · simp only [step]
    split
    · rfl
    · simp only [TrafficStorage.lookupLine]
      cases hlookup : s.storage.mApplicationTraffic.lookup process.comm with
      | some line => rfl
      | none => exact amountsOf_insert_empty hlookup

theorem Books.increment (h : s.Books l) {thread : Nat}
    (hintact : AddIntact s (.increment thread)) :
    (s.step (.increment thread)).Books (exec Ledger.post l (s.events (.increment thread))) := by
  cases hp : s.pending thread with
  | none =>
      have hsame : s.step (.increment thread) = s := by simp [step, hp]
      simpa [events, hp, hsame] using h
  | some p =>
      obtain ⟨hclears, hfits⟩ := hintact p hp
      obtain ⟨line, hline⟩ := Option.isSome_iff_exists.mp
        (AList.lookup_isSome.mpr ((h.pending thread p hp).2 hclears))
      have hstorage : (s.step (.increment thread)).storage.mApplicationTraffic =
          s.storage.mApplicationTraffic.insert p.line.comm (line.add p.pkt) := by
        simp only [step, hp, TrafficStorage.increment_live hclears hline]
      have hconn : (s.step (.increment thread)).conn = s.conn := by simp only [step, hp]
      have hevents : s.events (.increment thread) = [.credit p.line.comm p.pkt.amounts] := by
        simp only [events, hp]
      rw [hevents, exec_cons, exec_nil]
      exact
        { pending := pendingHeld_step s _ h.pending
          closed := hconn ▸ h.closed
          sound := hconn ▸ h.sound
          memory := fun names => by
            rw [hstorage, amountsOf_insert_add hline (hfits line hline), h.memory,
              Ledger.balance_credit]
          stored := fun names window => by rw [hconn, h.stored, Ledger.history_credit] }

/-- A deposit that goes through moves the balance into the tables. -/
theorem Books.deposit (h : s.Books l) {now : Int64} {o : Outcomes}
    (hdeposit : s.Recorded (.deposit now o)) :
    (s.step (.deposit now o)).Books (exec Ledger.post l (s.events (.deposit now o))) := by
  obtain ⟨hthrough, hlines⟩ := hdeposit
  have hforward : s.conn.Forward (SoundOf fun _ => True) :=
    ⟨⟨h.sound, fun _ _ => trivial⟩, fun d hd => absurd (h.closed.symm.trans hd) (by simp)⟩
  have hadvances : s.conn.Advances (SoundOf fun _ => True)
      (insertApplicationTraffic s.conn s.storage.mApplicationTraffic now o).1 :=
    insertApplicationTraffic_advances hforward fun e he => ⟨hthrough.ownStatements e he, trivial⟩
  exact
    { pending := pendingHeld_step s _ h.pending
      closed := hthrough.closed_after
      sound := hadvances.forward.committed.1
      memory := fun names => by
        rw [events, exec_cons, exec_nil, Ledger.balance_close]
        exact sumOver_empty _
      stored := fun names window => by
        rw [events, exec_cons, exec_nil, Ledger.history_close, ← h.stored, ← h.memory]
        exact history_of_goesThrough hthrough hlines names window }

theorem Books.step (h : s.Books l) {a : Action} (ha : s.Recorded a) :
    (s.step a).Books (exec Ledger.post l (s.events a)) := by
  cases a with
  | lookup thread process pkt => exact h.lookup thread process pkt
  | increment thread => exact h.increment ha
  | deposit now o => exact h.deposit ha
  | snapshot => exact h.of_unchanged rfl fun _ => rfl
  | await frame =>
      refine h.of_unchanged rfl fun names => ?_
      simp only [System.step, TrafficStorage.awaitSnapshot_traffic]

theorem books_init (interval : Int32) (hdb : db.Sound) : (init interval db).Books db.book where
  pending _ _ hp := absurd hp (by simp [init])
  closed := rfl
  sound := hdb
  memory _ := rfl
  stored _ _ := rfl

theorem books_run {interval : Int32} (hdb : db.Sound) {as : List Action}
    (h : Along System.step Recorded (init interval db) as) :
    (exec System.step (init interval db) as).Books (bookOf interval db as) :=
  follows (fun _ _ _ hR ha => hR.step ha) (books_init interval hdb) h

end System

end Ntmd
