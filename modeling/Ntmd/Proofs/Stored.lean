/-
What a successful deposit stores.

Every value goes through `sqlite3_bind_int`, which takes a 32-bit `int`.  When all
calls succeed, each application gets one row, and nothing else in the database
changes (`rowsOf_of_succeeds`); whether that row holds the line's own numbers is then
a question of size, answered by `stored_iff`.  Packet counts are `int` already, so
only the time and the two byte counts can fail to fit.
-/
import Ntmd.Lib.CInt
import Ntmd.Proofs.Deposit
import Ntmd.Proofs.Statements

namespace Ntmd

open Bytes Sqlite DBController

/-- A name of letters, digits and dashes. -/
def IsOrdinary (name : Bytes) : Prop :=
  ∀ c ∈ name, isDigit c = true ∨ (65 ≤ c ∧ c ≤ 90) ∨ (97 ≤ c ∧ c ≤ 122) ∨ c = 45

theorem IsOrdinary.not_mem {name : Bytes} (h : IsOrdinary name) {c : UInt8} (hdigit : isDigit c = false)
    (hupper : ¬ (65 ≤ c ∧ c ≤ 90)) (hlower : ¬ (97 ≤ c ∧ c ≤ 122)) (hdash : c ≠ 45) : c ∉ name := by
  intro hc
  rcases h c hc with h | h | h | h
  · rw [hdigit] at h
    exact Bool.noConfusion h
  · exact hupper h
  · exact hlower h
  · exact hdash h

instance : DecidablePred IsOrdinary := fun name => List.decidableBAll _ name

/-- Every call of a deposit succeeded. -/
def Succeeds (r : Results) : Prop :=
  r.begin = .ok ∧ (∀ a ∈ r.apps, a.steps = some (.done, .done)) ∧ r.commit = some .ok

instance : DecidablePred Succeeds := fun _ => inferInstanceAs (Decidable (_ ∧ _ ∧ _))

/-- The row a line stands for. -/
def exactRow (timestamp : Int64) (line : TrafficLine) : Row where
  timestamp := timestamp.toInt
  bytesRx := line.bytesRx.toNat
  bytesTx := line.bytesTx.toNat
  pktRxCount := line.pktRxCount.toInt
  pktTxCount := line.pktTxCount.toInt

/-- The values of a row that a 32-bit `int` may be too small for. -/
def FitsInt (timestamp : Int64) (line : TrafficLine) : Prop :=
  (-2 ^ 31 ≤ timestamp.toInt ∧ timestamp.toInt < 2 ^ 31) ∧ line.bytesRx.toNat < 2 ^ 31 ∧
    line.bytesTx.toNat < 2 ^ 31

instance (timestamp : Int64) (line : TrafficLine) : Decidable (FitsInt timestamp line) :=
  inferInstanceAs (Decidable (_ ∧ _ ∧ _))

theorem bindInt_natCast_eq_iff (n : Nat) : bindInt n = n ↔ n < 2 ^ 31 := by
  rw [bindInt, CInt.int32_ofInt_eq_iff]
  omega

theorem boundRow_eq_exactRow_iff {now : Int64} {line : TrafficLine} :
    boundRow now line = exactRow now line ↔ FitsInt now line := by
  have hpkt : ∀ n : Int32, bindInt n.toInt = n.toInt := fun n => by
    rw [bindInt, Int32.ofInt_toInt]
  have htime : bindInt now.toInt = now.toInt ↔ -2 ^ 31 ≤ now.toInt ∧ now.toInt < 2 ^ 31 :=
    CInt.int32_ofInt_eq_iff _
  rw [boundRow, exactRow, Row.mk.injEq, htime, bindInt_natCast_eq_iff, bindInt_natCast_eq_iff,
    FitsInt]
  simp only [hpkt, and_true]

/-! ### The rows of a successful deposit -/

theorem Database.rowsOf_append {db d : Database} {new : List (Bytes × Row)}
    (h : d.rows = db.rows ++ new) (t : Bytes) :
    d.rowsOf t = db.rowsOf t ++ (new.filter fun e => sameName e.1 t).map Prod.snd := by
  simp [Database.rowsOf, h]

/-- Among names that differ in more than case, only the name itself goes to its table. -/
theorem filter_sameName {name : Bytes} {line : TrafficLine} :
    ∀ {entries : List (Σ _ : Bytes, TrafficLine)}, entries.NodupKeys →
      ⟨name, line⟩ ∈ entries → (∀ e ∈ entries, sameName e.1 name = true → e.1 = name) →
      entries.filter (fun e => sameName e.1 name) = [⟨name, line⟩] := by
  intro entries
  induction entries with
  | nil => intro _ hmem; simp at hmem
  | cons e rest ih =>
      intro hnodup hmem hsame
      obtain ⟨hnot, hrest⟩ := List.nodupKeys_cons.mp hnodup
      rcases List.mem_cons.mp hmem with rfl | hmem'
      · have hnone : rest.filter (fun e => sameName e.1 name) = [] := by
          refine List.filter_eq_nil_iff.mpr fun e' he' hsame' => hnot ?_
          show name ∈ rest.keys
          rw [← hsame e' (List.mem_cons_of_mem _ he') hsame']
          exact List.mem_keys_of_mem he'
        rw [List.filter_cons, if_pos (sameName_refl name), hnone]
      · have hne : ¬ sameName e.1 name = true := by
          intro hsame'
          refine hnot ?_
          rw [hsame e List.mem_cons_self hsame']
          exact List.mem_keys_of_mem hmem'
        rw [List.filter_cons, if_neg hne]
        exact ih hrest hmem' fun e' he' => hsame e' (List.mem_cons_of_mem _ he')

/-- A successful deposit adds the bound row of each application, in the map's order. -/
theorem rows_of_succeeds {conn : Conn Database} {traffic : TrafficMap} {now : Int64}
    {o : Outcomes} (hnames : ∀ name ∈ traffic, IsOrdinary name)
    (h : Succeeds (insertApplicationTraffic conn traffic now o).2) :
    (insertApplicationTraffic conn traffic now o).1.committed.rows
      = conn.committed.rows ++ traffic.entries.map fun e => (e.1, boundRow now e.2) := by
  obtain ⟨hbegin, happs, hcommit⟩ := h
  have hquote : ∀ e ∈ traffic.entries, dquote ∉ e.1 := fun e he =>
    (hnames e.1 (List.mem_keys_of_mem he)).not_mem (by decide) (by decide) (by decide) (by decide)
  obtain ⟨hparse, hrows⟩ := rows_of_allInserted
    (fun e he => (onlyOwn_of_plain (hquote e he)).ownStatements) hbegin
    (fun r hr => by simp [AppResult.inserted, happs r hr]) (Or.inl hcommit)
  rw [hrows]
  refine congrArg _ (List.map_congr_left fun e he => ?_)
  obtain ⟨t, ht⟩ := hparse e he
  have hzero : 0 ∉ e.1 :=
    (hnames e.1 (List.mem_keys_of_mem he)).not_mem (by decide) (by decide) (by decide) (by decide)
  rw [insertedRow, ht]
  simp only [eq_of_parse_insertText hzero (hquote e he) ht]

/-! ### Exactly what was deposited -/

/-- Each application's table has one row more, the line's own, and no other row changed. -/
def Stored (db : Database) (traffic : TrafficMap) (now : Int64) (db' : Database) : Prop :=
  (∀ name line, traffic.lookup name = some line →
    db'.rowsOf name = db.rowsOf name ++ [exactRow now line]) ∧
  ∀ t, (∀ name ∈ traffic, sameName name t = false) → db'.rowsOf t = db.rowsOf t

/-- What is stored is what was deposited exactly if every bound row is the line's own. -/
theorem stored_iff_boundRow {conn : Conn Database} {traffic : TrafficMap} {now : Int64}
    {o : Outcomes} (hnames : ∀ name ∈ traffic, IsOrdinary name)
    (hdistinct : ∀ a ∈ traffic, ∀ b ∈ traffic, a ≠ b → sameName a b = false)
    (hsuccess : Succeeds (insertApplicationTraffic conn traffic now o).2) :
    Stored conn.committed traffic now (insertApplicationTraffic conn traffic now o).1.committed ↔
      ∀ name line, traffic.lookup name = some line → boundRow now line = exactRow now line := by
  have hrows := Database.rowsOf_append (rows_of_succeeds hnames hsuccess)
  have hmap : ∀ t, ((traffic.entries.map fun e => (e.1, boundRow now e.2)).filter
      fun e => sameName e.1 t).map Prod.snd
        = (traffic.entries.filter fun e => sameName e.1 t).map fun e => boundRow now e.2 := by
    intro t
    rw [List.filter_map, List.map_map]
    rfl
  have hone : ∀ name line, traffic.lookup name = some line →
      traffic.entries.filter (fun e => sameName e.1 name) = [⟨name, line⟩] := by
    intro name line hline
    have hmem := AList.mem_lookup_iff.mp hline
    refine filter_sameName traffic.nodupKeys hmem fun e he hsame => ?_
    by_contra hne
    rw [hdistinct e.1 (List.mem_keys_of_mem he) name (List.mem_keys_of_mem hmem) hne] at hsame
    exact Bool.noConfusion hsame
  simp only [Stored, hrows, hmap]
  constructor
  · rintro ⟨hstored, -⟩ name line hline
    have hrow := List.append_cancel_left (hstored name line hline)
    rw [hone name line hline, List.map_singleton] at hrow
    exact List.singleton_inj.mp hrow
  · intro hbound
    refine ⟨fun name line hline => ?_, fun t ht => ?_⟩
    · rw [hone name line hline, List.map_singleton, hbound name line hline]
    · have hnone : traffic.entries.filter (fun e => sameName e.1 t) = [] :=
        List.filter_eq_nil_iff.mpr fun e he => by simp [ht e.1 (List.mem_keys_of_mem he)]
      rw [hnone, List.map_nil, List.append_nil]

/--
**A successful deposit stores what was deposited exactly if the time and the byte counts
fit a 32-bit `int`.**
-/
theorem stored_iff {conn : Conn Database} {traffic : TrafficMap} {now : Int64} {o : Outcomes}
    (hnames : ∀ name ∈ traffic, IsOrdinary name)
    (hdistinct : ∀ a ∈ traffic, ∀ b ∈ traffic, a ≠ b → sameName a b = false)
    (hsuccess : Succeeds (insertApplicationTraffic conn traffic now o).2) :
    Stored conn.committed traffic now (insertApplicationTraffic conn traffic now o).1.committed ↔
      ∀ name line, traffic.lookup name = some line → FitsInt now line := by
  rw [stored_iff_boundRow hnames hdistinct hsuccess]
  simp only [boundRow_eq_exactRow_iff]

/-- The connection to an empty database. -/
def freshConn : Conn Database := { committed := Database.empty, tx := none }

/-- The traffic of two applications in a short interval. -/
def shortInterval : TrafficMap :=
  [⟨ascii "ssh", { bytesRx := 1500, pktRxCount := 1 }⟩,
   ⟨ascii "cron", { bytesTx := 40, pktTxCount := 1 }⟩].toAList

/-- It is stored as it is, well before 2038. -/
theorem stored_shortInterval :
    Stored freshConn.committed shortInterval 1672549200
      (insertApplicationTraffic freshConn shortInterval 1672549200 {}).1.committed := by
  refine (stored_iff ?_ ?_ (by decide +kernel)).mpr ?_
  · show ∀ name ∈ [ascii "ssh", ascii "cron"], _
    decide
  · show ∀ a ∈ [ascii "ssh", ascii "cron"], ∀ b ∈ [ascii "ssh", ascii "cron"], _
    decide
  · intro name line hline
    have hall : ∀ e ∈ shortInterval.entries, FitsInt 1672549200 e.2 := by decide
    exact hall _ (AList.mem_lookup_iff.mp hline)

/-- An interval with two gigabytes of incoming traffic is stored with another number. -/
theorem not_stored_two_gigabytes :
    ¬ ∀ (conn : Conn Database) (traffic : TrafficMap) (now : Int64) (o : Outcomes),
      (∀ name ∈ traffic, IsOrdinary name) →
      (∀ a ∈ traffic, ∀ b ∈ traffic, a ≠ b → sameName a b = false) →
      (∀ name line, traffic.lookup name = some line →
        line.bytesRx.toNat < 2 ^ 63 ∧ line.bytesTx.toNat < 2 ^ 63 ∧
          0 ≤ line.pktRxCount.toInt ∧ 0 ≤ line.pktTxCount.toInt) →
      (∀ name ∈ traffic, ∀ r ∈ conn.committed.rowsOf name, r.timestamp ≠ now.toInt) →
      Succeeds (insertApplicationTraffic conn traffic now o).2 →
      Stored conn.committed traffic now
        (insertApplicationTraffic conn traffic now o).1.committed := by
  intro h
  let line : TrafficLine := { bytesRx := 2147483648, pktRxCount := 1 }
  let traffic : TrafficMap := AList.singleton (ascii "ssh") line
  have hnames : ∀ name ∈ traffic, IsOrdinary name := by
    intro name hname
    rw [show name = ascii "ssh" from List.mem_singleton.mp hname]
    decide
  have hdistinct : ∀ a ∈ traffic, ∀ b ∈ traffic, a ≠ b → sameName a b = false := by
    intro a ha b hb hab
    exact absurd ((List.mem_singleton.mp ha).trans (List.mem_singleton.mp hb).symm) hab
  have hsuccess : Succeeds (insertApplicationTraffic freshConn traffic 1672549200 {}).2 := by
    decide +kernel
  have hstored := h freshConn traffic 1672549200 {} hnames hdistinct
    (fun name l hline => by
      obtain ⟨-, hheq⟩ := Sigma.mk.inj_iff.mp (List.mem_singleton.mp (AList.mem_lookup_iff.mp hline))
      rw [eq_of_heq hheq]
      decide)
    (fun name _ r hr => by simp [Database.rowsOf, freshConn, Database.empty] at hr) hsuccess
  have hrow := (stored_iff_boundRow hnames hdistinct hsuccess).mp hstored (ascii "ssh") line
      (AList.mem_lookup_iff.mpr (List.mem_singleton.mpr rfl))
  exact absurd hrow (by decide)

end Ntmd
