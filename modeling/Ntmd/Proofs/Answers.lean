/-
Every answer is read off the ledger of the run.

A live snapshot has the balance of each application, and a query has the history of
its window (`answers_run`).  What a query needs for that is that its text is about the
table of the name, and that the sums fit the fields they are read into.

Two facts about ledgers then become facts about the daemon.  Queries over two windows
that meet nowhere add up to the query over both (`adjacent_windows`), and a query that is
repeated later is answered with as much or more (`Monitor.answers_grow`).
-/
import Mathlib.Algebra.BigOperators.Pi
import Mathlib.Algebra.Order.Pi
import Mathlib.Data.Int.ConditionallyCompleteOrder
import Ntmd.Proofs.Fetch
import Ntmd.Proofs.History
import Ntmd.Proofs.TableNames

namespace Ntmd

open Bytes DBController MapSum Run Sqlite TrafficMap

/-! ### What a query answers -/

namespace Fetch

def query : Fetch → Query
  | since timestamp => sinceQuery timestamp
  | between start stop => betweenQuery start stop

/-- The times a fetch asks for. -/
def window (f : Fetch) : Int → Bool := Database.inRange f.query.since f.query.until?

theorem result_eq_fetch (f : Fetch) (db : Database) (other : Bytes → Option Sums) :
    f.result db other = f.query.fetch db other := by
  cases f with
  | since timestamp => exact fetchTrafficSince_eq db other timestamp
  | between start stop => exact fetchTrafficBetween_eq db other start stop

end Fetch

def DBController.Sums.amounts (s : Sums) : Amounts
  | .bytesRx => s.bytesRx
  | .bytesTx => s.bytesTx
  | .pktRxCount => s.pktRxCount
  | .pktTxCount => s.pktTxCount

theorem Database.amounts_sums (db : Database) (name : Bytes) (since : Int) (until? : Option Int) :
    (db.sums name since until?).amounts = db.amounts name (Database.inRange since until?) := by
  funext c
  rw [Database.amounts, Pi.list_sum_apply, List.map_map]
  cases c <;> rfl

/-- Sums that fit are read as they are. -/
theorem amounts_lineOf {s : Sums} (h : ∀ c : Counter, c.FitsAnswer (s.amounts c)) :
    (lineOf (some s)).amounts = s.amounts := by
  funext c
  have hc := h c
  cases c with
  | bytesRx => exact (CInt.uint64_ofInt_eq_iff _).mpr ⟨hc.1, lt_trans hc.2 (by decide)⟩
  | bytesTx => exact (CInt.uint64_ofInt_eq_iff _).mpr ⟨hc.1, lt_trans hc.2 (by decide)⟩
  | pktRxCount => exact (CInt.int32_ofInt_eq_iff _).mpr hc
  | pktTxCount => exact (CInt.int32_ofInt_eq_iff _).mpr hc

theorem TrafficLine.amounts_of_empty {line : TrafficLine} (h : line.empty = true) :
    line.amounts = 0 := by
  have hzero := TrafficLine.empty_iff.mp h
  funext c
  cases c with
  | bytesRx => exact congrArg Sums.bytesRx hzero
  | bytesTx => exact congrArg Sums.bytesTx hzero
  | pktRxCount => exact congrArg Sums.pktRxCount hzero
  | pktTxCount => exact congrArg Sums.pktTxCount hzero

/-! ### Names of one table -/

theorem toLower_eq_iff {c : UInt8} (h : c = 0 ∨ c = dquote) (x : UInt8) : toLower x = c ↔ x = c := by
  have key : ∀ n : Fin 256, (toLower (UInt8.ofNat n) = 0 ↔ UInt8.ofNat n = 0) ∧
      (toLower (UInt8.ofNat n) = dquote ↔ UInt8.ofNat n = dquote) := by
    decide +kernel
  have hx := key ⟨x.toNat, x.toNat_lt⟩
  simp only [UInt8.ofNat_toNat] at hx
  rcases h with rfl | rfl
  · exact hx.1
  · exact hx.2

theorem mem_of_sameName {a b : Bytes} (h : sameName a b = true) {c : UInt8}
    (hc : c = 0 ∨ c = dquote) (hmem : c ∈ a) : c ∈ b := by
  have hlower : c ∈ b.map toLower := by
    rw [← sameName_iff.mp h]
    exact List.mem_map.mpr ⟨c, hmem, (toLower_eq_iff hc c).mpr rfl⟩
  obtain ⟨x, hx, heq⟩ := List.mem_map.mp hlower
  rwa [(toLower_eq_iff hc x).mp heq] at hx

/-- A query of a name is one of its table, however the two are spelled. -/
theorem DBController.Query.AsksAbout.of_sameName {q : Query} {name table : Bytes}
    (h : q.AsksAbout name) (hsame : sameName table name = true) : q.AsksAbout table := by
  obtain ⟨hzero, hquote, hlen⟩ := h
  have hlength : table.length = name.length := by
    simpa using congrArg List.length (sameName_iff.mp hsame)
  refine ⟨fun hmem => hzero (mem_of_sameName hsame (Or.inl rfl) hmem),
    fun hmem => hquote (mem_of_sameName hsame (Or.inr rfl) hmem), ?_⟩
  have htext : (q.format.text table).length = (q.format.text name).length := by
    simp only [Format.text, List.length_append, hlength]
  rw [htext]
  exact hlen

theorem rowsOf_of_sameName {db : Database} {name table : Bytes} (h : sameName table name = true) :
    db.rowsOf table = db.rowsOf name := by
  have hlower := sameName_iff.mp h
  have hfun : (fun e : Bytes × Row => sameName e.1 table) = fun e => sameName e.1 name :=
    funext fun e => by rw [sameName, sameName, hlower]
  rw [Database.rowsOf, Database.rowsOf, hfun]

theorem Database.apart {db : Database} {a b : Bytes} (ha : a ∈ db.tables) (hb : b ∈ db.tables)
    (hne : a ≠ b) : sameName a b = false := by
  have hsymm : Std.Symm fun a b : Bytes => sameName a b = false :=
    ⟨fun a b h => by rw [sameName, BEq.comm]; exact h⟩
  exact db.distinct.forall ha hb hne

theorem DBController.Query.mem_tables_of_mem_fetch {q : Query} {db : Database}
    {other : Bytes → Option Sums} {e : Σ _ : Bytes, TrafficLine}
    (h : e ∈ (q.fetch db other).entries) : e.1 ∈ db.tables := by
  have hlookup := AList.mem_lookup_iff.mpr h
  rw [Option.mem_def, q.fetch_lookup] at hlookup
  split at hlookup
  · rename_i hcond
    exact hcond.1
  · exact absurd hlookup (by simp)

/-- **What a query answers about a name is what the table of that name holds in the window.** -/
theorem DBController.Query.amountsOf_fetch {q : Query} {db : Database} (hdb : db.Sound)
    (other : Bytes → Option Sums) {name : Bytes} (hasks : q.AsksAbout name)
    (hfits : ∀ c : Counter,
      c.FitsAnswer (db.amounts name (Database.inRange q.since q.until?) c)) :
    (q.fetch db other).amountsOf (sameName · name) =
      db.amounts name (Database.inRange q.since q.until?) := by
  by_cases htable : db.hasTable name = true
  · obtain ⟨table, hmem, hsame⟩ := List.any_eq_true.mp htable
    -- No other table answers to the name.
    have hothers : ∀ e ∈ (q.fetch db other).entries, e.1 ≠ table → sameName e.1 name = false := by
      intro e he hne
      have hapart := Database.apart (Query.mem_tables_of_mem_fetch he) hmem hne
      rw [sameName, sameName_iff.mp hsame] at hapart
      exact hapart
    have hone : (q.fetch db other).amountsOf (sameName · name) =
        (((q.fetch db other).lookup table).getD {}).amounts := amountsOf_eq_lookup hothers hsame
    rw [hone, q.fetch_lookup]
    have hanswer := @answer_of_asksAbout q db other _ hmem (hasks.of_sameName hsame)
    have hsums : (db.sums table q.since q.until?).amounts =
        db.amounts name (Database.inRange q.since q.until?) := by
      rw [Database.amounts_sums, Database.amounts, Database.amounts, rowsOf_of_sameName hsame]
    have hline : (lineOf (q.answer db other table)).amounts =
        db.amounts name (Database.inRange q.since q.until?) := by
      rw [hanswer, amounts_lineOf (by rwa [hsums]), hsums]
    cases hempty : (lineOf (q.answer db other table)).empty with
    | true =>
        rw [if_neg (by simp), Option.getD_none, TrafficLine.amounts_empty, ← hline,
          TrafficLine.amounts_of_empty hempty]
    | false => rw [if_pos ⟨hmem, rfl⟩, Option.getD_some, hline]
  · have hrows : db.rowsOf name = [] := by
      refine List.map_eq_nil_iff.mpr (List.filter_eq_nil_iff.mpr fun e he hsame => htable ?_)
      obtain ⟨t, ht, ht'⟩ := List.any_eq_true.mp (hdb.table e he)
      exact List.any_eq_true.mpr
        ⟨t, ht, sameName_iff.mpr ((sameName_iff.mp ht').trans (sameName_iff.mp hsame))⟩
    have hnone : ∀ e ∈ (q.fetch db other).entries, sameName e.1 name = false := fun e he =>
      Bool.eq_false_iff.mpr fun hsame => htable
        (List.any_eq_true.mpr ⟨e.1, Query.mem_tables_of_mem_fetch he, hsame⟩)
    rw [amountsOf_eq_zero hnone, Database.amounts, hrows]
    rfl

/-! ### Names that are always asked for -/

/-- A name a process can give itself, without a quote. -/
def PlainComm (name : Bytes) : Prop := IsComm name ∧ dquote ∉ name

instance : DecidablePred PlainComm := fun _ => inferInstanceAs (Decidable (_ ∧ _))

theorem decimalInt_length_le (n : Int64) : (decimalInt n.toInt).length ≤ 21 := by
  have hlo := n.le_toInt
  have hhi := n.toInt_lt
  have hlength : (decimal n.toInt.natAbs).length ≤ 20 := decimal_length_le (by omega)
  unfold decimalInt
  split
  · rw [List.length_cons]
    omega
  · omega

/-- The query of a process's name fits its buffer, whatever it asks for. -/
theorem Fetch.asksAbout (f : Fetch) {name : Bytes} (h : PlainComm name) : f.query.AsksAbout name := by
  obtain ⟨⟨hlen, hzero, -⟩, hquote⟩ := h
  refine ⟨hzero, hquote, ?_⟩
  have hbefore : sqlSelectBefore.length = 74 := by decide
  have hafter : f.query.format.after.length ≤ 90 := by
    cases f with
    | since timestamp =>
        have htime := decimalInt_length_le timestamp
        have hword : (ascii "\" where timestamp >= ").length = 21 := by decide
        have hend : (ascii ";").length = 1 := by decide
        rw [query, sinceQuery, sinceFormat_after, sqlSinceAfter, List.length_append,
          List.length_append, hword, hend]
        omega
    | between start stop =>
        have hstart := decimalInt_length_le start
        have hstop := decimalInt_length_le stop
        have hword : (ascii "\" where timestamp >= ").length = 21 := by decide
        have hand : (ascii " and timestamp <= ").length = 18 := by decide
        have hend : (ascii ";").length = 1 := by decide
        rw [query, betweenQuery, betweenFormat_after, sqlBetweenAfter, List.length_append,
          List.length_append, List.length_append, List.length_append, hword, hand, hend]
        omega
  have hformat : f.query.format.before.length = 74 := by cases f <;> exact hbefore
  rw [Format.text, List.length_append, List.length_append, hformat]
  omega

/-! ### Windows that meet nowhere -/

/-- The times of one fetch are those of two others, none of them in both. -/
def Fetch.SplitsInto (f g h : Fetch) : Prop :=
  ∀ t, f.window t = (g.window t || h.window t) ∧ ¬ (g.window t = true ∧ h.window t = true)

theorem Fetch.between_splits {start mid stop : Int64} (hstart : start.toInt ≤ mid.toInt)
    (hstop : mid.toInt < stop.toInt) :
    (between start stop).SplitsInto (between start mid) (between (mid + 1) stop) ∧
      (since start).SplitsInto (between start mid) (since (mid + 1)) := by
  have hnext : (mid + 1).toInt = mid.toInt + 1 := by
    have hlo := mid.le_toInt
    have hhi := stop.toInt_lt
    rw [Int64.toInt_add, show (1 : Int64).toInt = 1 by decide, Int.bmod_def]
    omega
  have hwindow : ∀ a b t, (between a b).window t = (decide (a.toInt ≤ t) && decide (t ≤ b.toInt)) :=
    fun _ _ _ => rfl
  have hsince : ∀ a t, (since a).window t = decide (a.toInt ≤ t) := fun _ _ => Bool.and_true _
  constructor
  · intro t
    rw [hwindow, hwindow, hwindow, hnext, Bool.eq_iff_iff]
    simp only [Bool.or_eq_true, Bool.and_eq_true, decide_eq_true_eq]
    omega
  · intro t
    rw [hwindow, hsince, hsince, hnext, Bool.eq_iff_iff]
    simp only [Bool.or_eq_true, Bool.and_eq_true, decide_eq_true_eq]
    omega

/-- No column of a row is negative. -/
def Database.NonNegative (db : Database) : Prop := ∀ e ∈ db.rows, 0 ≤ e.2.amounts

theorem Database.NonNegative.book {db : Database} (h : db.NonNegative) : db.book.NonNegative := by
  refine ⟨fun e he => absurd he List.not_mem_nil, fun p hp e he => ?_⟩
  obtain ⟨row, hrow, rfl⟩ := List.mem_map.mp hp
  rw [List.mem_singleton.mp he]
  exact h row hrow

theorem Counter.FitsAnswer.of_le {c : Counter} {y z : Int} (h : c.FitsAnswer z) (h0 : 0 ≤ y)
    (hle : y ≤ z) : c.FitsAnswer y := by
  cases c <;> simp only [FitsAnswer] at h ⊢ <;> omega

/-- **Fetches over windows that meet nowhere add up to the fetch over both.** -/
theorem Fetch.SplitsInto.amountsOf_add {f g h : Fetch} (hsplit : f.SplitsInto g h) {db : Database}
    (hdb : db.Sound) (hrows : db.NonNegative) (other : Bytes → Option Sums) {name : Bytes}
    (hname : PlainComm name) (hfits : ∀ c : Counter, c.FitsAnswer (db.amounts name f.window c)) :
    (f.result db other).amountsOf (sameName · name) =
      (g.result db other).amountsOf (sameName · name) +
        (h.result db other).amountsOf (sameName · name) := by
  have hsum : db.amounts name f.window = db.amounts name g.window + db.amounts name h.window := by
    have hwindow : f.window = fun t => g.window t || h.window t := funext fun t => (hsplit t).1
    rw [db.amounts_eq_history, db.amounts_eq_history, db.amounts_eq_history, hwindow]
    exact Ledger.history_or _ _ fun p _ => (hsplit p.1).2
  have hnonneg : ∀ window c, 0 ≤ db.amounts name window c := fun window c => by
    rw [db.amounts_eq_history]
    exact hrows.book.history_nonneg _ _ c
  have hparts : ∀ c : Counter, c.FitsAnswer (db.amounts name g.window c) ∧
      c.FitsAnswer (db.amounts name h.window c) := fun c => by
    have hc := congrFun hsum c
    rw [Pi.add_apply] at hc
    have hg := hnonneg g.window c
    have hh := hnonneg h.window c
    exact ⟨(hfits c).of_le hg (by omega), (hfits c).of_le hh (by omega)⟩
  have hanswer : ∀ k : Fetch, (∀ c : Counter, c.FitsAnswer (db.amounts name k.window c)) →
      (k.result db other).amountsOf (sameName · name) = db.amounts name k.window := fun k hk => by
    rw [k.result_eq_fetch]
    exact Query.amountsOf_fetch hdb other (k.asksAbout hname) hk
  rw [hanswer f hfits, hanswer g fun c => (hparts c).1, hanswer h fun c => (hparts c).2]
  exact hsum

/--
**What is fetched up to a time and from the second after it is what is fetched altogether**, by
`traffic-between` and by `traffic-since`, as long as the sums fit.
-/
theorem adjacent_windows (db : Database) (hdb : db.Sound) (hrows : db.NonNegative)
    (other : Bytes → Option Sums) (name : Bytes) (hname : PlainComm name) (start mid stop : Int64)
    (hstart : start.toInt ≤ mid.toInt) (hstop : mid.toInt < stop.toInt) :
    ((∀ c : Counter, c.FitsAnswer (db.amounts name (Fetch.between start stop).window c)) →
      (fetchTrafficBetween db other start stop).amountsOf (sameName · name) =
        (fetchTrafficBetween db other start mid).amountsOf (sameName · name) +
          (fetchTrafficBetween db other (mid + 1) stop).amountsOf (sameName · name)) ∧
    ((∀ c : Counter, c.FitsAnswer (db.amounts name (Fetch.since start).window c)) →
      (fetchTrafficSince db other start).amountsOf (sameName · name) =
        (fetchTrafficBetween db other start mid).amountsOf (sameName · name) +
          (fetchTrafficSince db other (mid + 1)).amountsOf (sameName · name)) := by
  obtain ⟨hbetween, hsince⟩ := Fetch.between_splits hstart hstop
  exact ⟨hbetween.amountsOf_add hdb hrows other hname, hsince.amountsOf_add hdb hrows other hname⟩

/-- Two rows, asked for together and one by one. -/
theorem adjacent_windows_two :
    (fetchTrafficBetween (twoIntervals 1) (fun _ => none) 1672549200 1672549210).amountsOf
        (sameName · (ascii "ssh")) =
      (fetchTrafficBetween (twoIntervals 1) (fun _ => none) 1672549200 1672549200).amountsOf
          (sameName · (ascii "ssh")) +
        (fetchTrafficBetween (twoIntervals 1) (fun _ => none) (1672549200 + 1) 1672549210).amountsOf
          (sameName · (ascii "ssh")) := by
  refine (adjacent_windows (twoIntervals 1) ⟨?_, ?_⟩ ?_ _ (ascii "ssh") (by decide) 1672549200
    1672549200 1672549210 (by decide) (by decide)).1 ?_
  · decide
  · decide
  · intro e he c
    rcases List.mem_pair.mp he with rfl | rfl <;> cases c <;> decide
  · intro c
    cases c <;> decide +kernel

/-! ### The answers of a run -/

/-- A query of the name that is answered with numbers of a ledger, which fit. -/
def AnswersWith (l : Book) (f : Fetch) (db : Database) (name : Bytes) : Prop :=
  (∀ c : Counter, c.FitsAnswer (l.history (sameName · name) f.window c)) →
    ∀ other, (f.result db other).amountsOf (sameName · name) =
      l.history (sameName · name) f.window

theorem answersWith_of_history {db : Database} (hdb : db.Sound) {l : Book} {name : Bytes}
    (hname : PlainComm name)
    (h : ∀ window, db.amounts name window = l.history (sameName · name) window) (f : Fetch) :
    AnswersWith l f db name := by
  intro hfits other
  rw [f.result_eq_fetch, Query.amountsOf_fetch hdb other (f.asksAbout hname)]
  · exact h f.window
  · intro c
    rw [show db.amounts name (Database.inRange f.query.since f.query.until?) =
      l.history (sameName · name) f.window from h f.window]
    exact hfits c

namespace System

/-- What the state answers is in the ledger: a live snapshot has the balance of each application,
and a query the history of its window. -/
structure Answers (s : System) (l : Book) : Prop where
  live : ∀ name, ((s.storage.getLiveSnapshot.1.lookup name).getD {}).amounts =
    l.balance (· == name)
  history : ∀ (f : Fetch) name, PlainComm name → AnswersWith l f s.conn.current name

theorem Books.answers {s : System} {l : Book} (h : s.Books l) : s.Answers l where
  live name := by
    rw [← h.memory, amountsOf_eq_lookup (fun e _ hne => by simpa using hne) (by simp)]
    rfl
  history f name hname := by
    rw [Conn.current_of_none h.closed]
    refine answersWith_of_history h.sound hname (fun window => ?_) f
    rw [Database.amounts_eq_history, h.stored]

theorem sound_empty : Database.empty.Sound :=
  ⟨fun _ he => absurd he List.not_mem_nil, List.Pairwise.nil⟩

end System

end Ntmd
