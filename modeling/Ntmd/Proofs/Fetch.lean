/-
What a fetch returns of what is stored.

Each table is asked for its four sums with a query of its own.  A table whose name
holds no quote and leaves the query within its buffer is asked about itself
(`parse_query`), and then the two byte sums arrive as they are, while the two packet
sums are narrowed to `int`.  A table whose query is mangled, and refused, is left out of
the map.  `fetched_iff` puts this together: what is returned is exact if and only if no
packet sum reaches 2^31 and no table that is left out has traffic in the range.

Not covered are databases with a table whose mangled query SQLite does answer: what it
then sums, the text says and not the source.
-/
import Ntmd.Lib.CInt
import Ntmd.Proofs.Statements

namespace Ntmd

open Bytes Sqlite

/-! ### The two queries as formats -/

theorem parseInteger_intTokens (z : Int) (ts : List Token) :
    parseInteger (intTokens z ++ ts) = some (z, ts) := by
  have hall : (decimal z.natAbs).all isDigit = true :=
    List.all_eq_true.mpr fun c hc => isDigit_of_mem_decimal hc
  unfold intTokens
  split
  · show parseInteger (.sym [45] :: .word (decimal z.natAbs) :: ts) = _
    rw [parseInteger, if_pos hall, value_decimal]
    congr 2
    omega
  · show parseInteger (.word (decimal z.natAbs) :: ts) = _
    rw [parseInteger, if_pos hall, value_decimal]
    congr 2
    omega

namespace DBController

/-- `where timestamp >=`. -/
def sinceTokens : List Token := [.word (ascii "where"), .word (ascii "timestamp"), .sym [62, 61]]

/-- `and timestamp <=`. -/
def untilTokens : List Token := [.word (ascii "and"), .word (ascii "timestamp"), .sym [60, 61]]

theorem lex_before_select :
    lexPrefix .start sqlSelectBefore = (selectHead, .quoted []) := by
  decide +kernel

theorem lexPrefix_since :
    lexPrefix .start (ascii " where timestamp >= ") = (sinceTokens, .start) := by
  decide +kernel

theorem lexPrefix_until :
    lexPrefix .start (ascii " and timestamp <= ") = (untilTokens, .start) := by
  decide +kernel

/-- The query of `fetchTrafficSince`. -/
def sinceFormat (timestamp : Int64) : Format where
  before := sqlSelectBefore
  rest := ascii " where timestamp >= " ++ (decimalInt timestamp.toInt ++ ascii ";")
  head := selectHead
  tail := sinceTokens ++ (intTokens timestamp.toInt ++ [.sym [59]])
  lex_before := lex_before_select
  lex_rest := by
    rw [lex_append, lexPrefix_since, show ascii ";" = 59 :: [] by decide,
      lex_decimalInt (by decide), show lex .start [59] = some [.sym [59]] by decide]
    rfl
  no_quote := by
    have h := not_mem_decimalInt (z := timestamp.toInt) (c := dquote) (by decide) (by decide)
    simp only [List.mem_append, h, false_or]
    decide

/-- The query of `fetchTrafficBetween`. -/
def betweenFormat (start stop : Int64) : Format where
  before := sqlSelectBefore
  rest := ascii " where timestamp >= " ++ (decimalInt start.toInt ++
    (ascii " and timestamp <= " ++ (decimalInt stop.toInt ++ ascii ";")))
  head := selectHead
  tail := sinceTokens ++ (intTokens start.toInt ++ (untilTokens ++
    (intTokens stop.toInt ++ [.sym [59]])))
  lex_before := lex_before_select
  lex_rest := by
    have huntil : ascii " and timestamp <= " = 32 :: ascii "and timestamp <= " := by decide
    rw [lex_append, lexPrefix_since, huntil, List.cons_append, lex_decimalInt (by decide),
      ← List.cons_append, ← huntil, lex_append, lexPrefix_until, show ascii ";" = 59 :: [] by decide,
      lex_decimalInt (by decide), show lex .start [59] = some [.sym [59]] by decide]
    rfl
  no_quote := by
    have h := fun z => not_mem_decimalInt (z := z) (c := dquote) (by decide) (by decide)
    simp only [List.mem_append, h, false_or]
    decide

theorem sinceFormat_after (timestamp : Int64) :
    (sinceFormat timestamp).after = sqlSinceAfter timestamp := by
  have hquote : ascii "\" where timestamp >= " = dquote :: ascii " where timestamp >= " := by
    decide
  simp [Format.after, sinceFormat, sqlSinceAfter, hquote]

theorem betweenFormat_after (start stop : Int64) :
    (betweenFormat start stop).after = sqlBetweenAfter start stop := by
  have hquote : ascii "\" where timestamp >= " = dquote :: ascii " where timestamp >= " := by
    decide
  simp [Format.after, betweenFormat, sqlBetweenAfter, hquote]

/-- A query of the daemon's, with the range of timestamps it asks for. -/
structure Query where
  format : Format
  since : Int
  until? : Option Int
  head_eq : format.head = selectHead
  parse_tail : parseWhere format.tail = some (since, until?)
  zero_not_mem : 0 ∉ format.before ∧ 0 ∉ format.after

theorem zero_not_mem_select : (0 : UInt8) ∉ sqlSelectBefore := by decide +kernel

def sinceQuery (timestamp : Int64) : Query where
  format := sinceFormat timestamp
  since := timestamp.toInt
  until? := none
  head_eq := rfl
  parse_tail := by simp [sinceFormat, sinceTokens, parseWhere, parseInteger_intTokens]
  zero_not_mem := by
    refine ⟨zero_not_mem_select, ?_⟩
    have h := fun z => not_mem_decimalInt (z := z) (c := 0) (by decide) (by decide)
    rw [sinceFormat_after, sqlSinceAfter]
    simp only [List.mem_append, h, or_false]
    decide

def betweenQuery (start stop : Int64) : Query where
  format := betweenFormat start stop
  since := start.toInt
  until? := some stop.toInt
  head_eq := rfl
  parse_tail := by
    simp [betweenFormat, sinceTokens, untilTokens, parseWhere, parseInteger_intTokens]
  zero_not_mem := by
    refine ⟨zero_not_mem_select, ?_⟩
    have h := fun z => not_mem_decimalInt (z := z) (c := 0) (by decide) (by decide)
    rw [betweenFormat_after, sqlBetweenAfter]
    simp only [List.mem_append, h, or_false]
    decide

/-- What the query of a table is answered with. -/
def Query.answer (q : Query) (db : Database) (other : Bytes → Option Sums) (name : Bytes) :
    Option Sums :=
  selectSums db other (snprintf 256 q.format.before name q.format.after)

/-- The traffic a query fetches. -/
def Query.fetch (q : Query) (db : Database) (other : Bytes → Option Sums) : TrafficMap :=
  fetchTrafficWithQuery db other q.format.before q.format.after

theorem fetchTrafficSince_eq (db : Database) (other : Bytes → Option Sums) (timestamp : Int64) :
    fetchTrafficSince db other timestamp = (sinceQuery timestamp).fetch db other := by
  rw [fetchTrafficSince, Query.fetch, sinceQuery, sinceFormat_after]
  rfl

theorem fetchTrafficBetween_eq (db : Database) (other : Bytes → Option Sums)
    (start stop : Int64) :
    fetchTrafficBetween db other start stop = (betweenQuery start stop).fetch db other := by
  rw [fetchTrafficBetween, Query.fetch, betweenQuery, betweenFormat_after]
  rfl

/-! ### The answer for one table -/

/-- The query of a table asks about that table: its name holds no quote, and the whole text
is shorter than the buffer. -/
def Query.AsksAbout (q : Query) (name : Bytes) : Prop :=
  0 ∉ name ∧ dquote ∉ name ∧ (q.format.text name).length < 256

instance (q : Query) (name : Bytes) : Decidable (q.AsksAbout name) :=
  inferInstanceAs (Decidable (_ ∧ _ ∧ _))

theorem parse_query {q : Query} {name : Bytes} (h : q.AsksAbout name) :
    parse (snprintf 256 q.format.before name q.format.after)
      = some (.selectSums name q.since q.until?) := by
  obtain ⟨hzero, hquote, hlen⟩ := h
  obtain ⟨hbefore, hafter⟩ := q.zero_not_mem
  rw [parse, snprintf_format q.format 256 hzero, List.take_of_length_le (by omega),
    cstr_of_not_mem (zero_not_mem_text hbefore hafter hzero), q.format.tokens_text hquote,
    q.head_eq]
  exact parseTokens_selectSums q.parse_tail name

end DBController

open DBController

/-- The four sums of a table over a range of timestamps. -/
def Database.sums (db : Database) (name : Bytes) (since : Int) (until? : Option Int) : Sums where
  bytesRx := db.sum name since until? Row.bytesRx
  bytesTx := db.sum name since until? Row.bytesTx
  pktRxCount := db.sum name since until? Row.pktRxCount
  pktTxCount := db.sum name since until? Row.pktTxCount

/-- The numbers of a line. -/
def TrafficLine.sums (line : TrafficLine) : Sums where
  bytesRx := line.bytesRx.toNat
  bytesTx := line.bytesTx.toNat
  pktRxCount := line.pktRxCount.toInt
  pktTxCount := line.pktTxCount.toInt

/-- No traffic. -/
def DBController.Sums.zero : Sums where
  bytesRx := 0
  bytesTx := 0
  pktRxCount := 0
  pktTxCount := 0

theorem TrafficLine.empty_iff {line : TrafficLine} : line.empty = true ↔ line.sums = Sums.zero := by
  have h64 : ∀ n : UInt64, n = 0 ↔ (n.toNat : Int) = 0 := by
    intro n
    rw [← UInt64.toNat_inj]
    simp
  have h32 : ∀ n : Int32, n = 0 ↔ n.toInt = 0 := by
    intro n
    rw [← Int32.toInt_inj]
    simp
  rw [TrafficLine.empty, TrafficLine.sums, Sums.zero, Sums.mk.injEq, ← h64, ← h64, ← h32, ← h32]
  simp [and_assoc]

theorem DBController.Query.answer_of_asksAbout {q : Query} {db : Database}
    {other : Bytes → Option Sums} {name : Bytes} (hmem : name ∈ db.tables)
    (h : q.AsksAbout name) : q.answer db other name = some (db.sums name q.since q.until?) := by
  have htable : db.hasTable name = true := List.any_eq_true.mpr ⟨name, hmem, sameName_refl name⟩
  rw [Query.answer, selectSums, parse_query h]
  simp [htable, Database.sums]

/-! ### Sums that fit -/

def columns : List (Row → Int) := [Row.bytesRx, Row.bytesTx, Row.pktRxCount, Row.pktTxCount]

/-- The counters of every table are not negative, and the sum of each column stays in SQLite's
integers. -/
def Countable (db : Database) : Prop :=
  ∀ name ∈ db.tables, ∀ column ∈ columns,
    (∀ r ∈ db.rowsOf name, 0 ≤ column r) ∧ ((db.rowsOf name).map column).sum < 2 ^ 63

theorem sum_filter_bounds {column : Row → Int} (p : Row → Bool) :
    ∀ {rows : List Row}, (∀ r ∈ rows, 0 ≤ column r) →
      0 ≤ ((rows.filter p).map column).sum ∧
        ((rows.filter p).map column).sum ≤ (rows.map column).sum := by
  intro rows
  induction rows with
  | nil => intro _; simp
  | cons r rest ih =>
      intro h
      have hr : 0 ≤ column r := h r List.mem_cons_self
      obtain ⟨hlo, hhi⟩ := ih fun r' hr' => h r' (List.mem_cons_of_mem _ hr')
      rw [List.filter_cons]
      split
      · simp only [List.map_cons, List.sum_cons]
        omega
      · simp only [List.map_cons, List.sum_cons]
        omega

/-- The sum of a column over a range is no larger than over the whole table. -/
theorem Countable.sum_bounds {db : Database} (h : Countable db) {name : Bytes}
    (hmem : name ∈ db.tables) {column : Row → Int} (hcolumn : column ∈ columns) (since : Int)
    (until? : Option Int) :
    0 ≤ db.sum name since until? column ∧ db.sum name since until? column < 2 ^ 63 := by
  obtain ⟨hnonneg, htotal⟩ := h name hmem column hcolumn
  have hbounds :=
    sum_filter_bounds (fun r => Database.inRange since until? r.timestamp) hnonneg
  exact ⟨hbounds.1, Int.lt_of_le_of_lt hbounds.2 htotal⟩

/-- Both packet sums fit the `int` they are read into. -/
def DBController.Sums.PacketsFit (s : Sums) : Prop := s.pktRxCount < 2 ^ 31 ∧ s.pktTxCount < 2 ^ 31

instance (s : Sums) : Decidable s.PacketsFit := inferInstanceAs (Decidable (_ ∧ _))

/-- A row of sums is read as it is exactly if its packet sums fit. -/
theorem sums_lineOf_iff {db : Database} (h : Countable db) {name : Bytes} (hmem : name ∈ db.tables)
    (since : Int) (until? : Option Int) :
    (lineOf (some (db.sums name since until?))).sums = db.sums name since until? ↔
      (db.sums name since until?).PacketsFit := by
  have hbounds : ∀ column ∈ columns, 0 ≤ db.sum name since until? column ∧
      db.sum name since until? column < 2 ^ 63 := fun column hcolumn =>
    h.sum_bounds hmem hcolumn since until?
  have hbytes : ∀ column ∈ columns, ((UInt64.ofInt (db.sum name since until? column)).toNat : Int)
      = db.sum name since until? column := fun column hcolumn => by
    rw [CInt.uint64_ofInt_eq_iff]
    have := hbounds column hcolumn
    omega
  have hpkts : ∀ column ∈ columns, ((Int32.ofInt (db.sum name since until? column)).toInt
      = db.sum name since until? column ↔ db.sum name since until? column < 2 ^ 31) :=
    fun column hcolumn => by
      rw [CInt.int32_ofInt_eq_iff]
      have := hbounds column hcolumn
      omega
  rw [TrafficLine.sums, lineOf, Database.sums, Sums.mk.injEq, Sums.PacketsFit]
  simp only
  rw [hbytes Row.bytesRx (by simp [columns]), hbytes Row.bytesTx (by simp [columns]),
    hpkts Row.pktRxCount (by simp [columns]), hpkts Row.pktTxCount (by simp [columns])]
  simp

/-! ### The whole fetch -/

/-- The loop over the tables leaves each table's own line, unless it is empty. -/
theorem lookup_fold (line : Bytes → TrafficLine) (name : Bytes) :
    ∀ (names : List Bytes) (traffic : TrafficMap),
      (names.foldl (fun traffic n =>
        if (line n).empty then traffic else traffic.insert n (line n)) traffic).lookup name
        = if name ∈ names ∧ (line name).empty = false then some (line name)
          else traffic.lookup name := by
  intro names
  induction names with
  | nil => intro traffic; simp
  | cons n rest ih =>
      intro traffic
      rw [List.foldl_cons, ih]
      by_cases hrest : name ∈ rest ∧ (line name).empty = false
      · rw [if_pos hrest, if_pos ⟨List.mem_cons_of_mem _ hrest.1, hrest.2⟩]
      · rw [if_neg hrest]
        by_cases hn : name = n
        · subst hn
          cases hempty : (line name).empty <;> simp
        · have hlookup : (if (line n).empty then traffic else traffic.insert n (line n)).lookup name
              = traffic.lookup name := by
            split
            · rfl
            · exact AList.lookup_insert_ne hn
          rw [hlookup, if_neg]
          rintro ⟨hmem, hempty⟩
          exact hrest ⟨(List.mem_cons.mp hmem).resolve_left hn, hempty⟩

theorem DBController.Query.fetch_lookup (q : Query) (db : Database) (other : Bytes → Option Sums)
    (name : Bytes) :
    (q.fetch db other).lookup name =
      if name ∈ db.tables ∧ (lineOf (q.answer db other name)).empty = false
      then some (lineOf (q.answer db other name)) else none :=
  lookup_fold (fun n => lineOf (q.answer db other n)) name db.tables ∅

/-- The map holds exactly the applications with traffic in the range, each with its sums. -/
def FetchedExactly (db : Database) (since : Int) (until? : Option Int) (traffic : TrafficMap) :
    Prop :=
  ∀ name,
    (name ∈ traffic ↔ name ∈ db.tables ∧ db.sums name since until? ≠ Sums.zero) ∧
      ∀ line, traffic.lookup name = some line → line.sums = db.sums name since until?

/-- For one table, whether its line is exact. -/
theorem DBController.Query.fetchedExactly_iff (q : Query) (db : Database)
    (other : Bytes → Option Sums) :
    FetchedExactly db q.since q.until? (q.fetch db other) ↔
      ∀ name ∈ db.tables,
        (lineOf (q.answer db other name)).sums = db.sums name q.since q.until? := by
  constructor
  · intro h name hmem
    obtain ⟨hin, hsums⟩ := h name
    rw [← AList.lookup_isSome, q.fetch_lookup] at hin
    rw [q.fetch_lookup] at hsums
    cases hempty : (lineOf (q.answer db other name)).empty with
    | true =>
        rw [if_neg (by simp [hempty])] at hin
        have hzero : db.sums name q.since q.until? = Sums.zero := by
          by_contra hne
          simpa using hin.mpr ⟨hmem, hne⟩
        rw [hzero]
        exact TrafficLine.empty_iff.mp hempty
    | false => exact hsums _ (if_pos ⟨hmem, hempty⟩)
  · intro h name
    rw [← AList.lookup_isSome, q.fetch_lookup]
    by_cases hmem : name ∈ db.tables
    · cases hempty : (lineOf (q.answer db other name)).empty with
      | true =>
          have hzero := TrafficLine.empty_iff.mp hempty
          rw [h name hmem] at hzero
          simp [hzero]
      | false =>
          have hne : db.sums name q.since q.until? ≠ Sums.zero := by
            rw [← h name hmem]
            intro hzero
            rw [TrafficLine.empty_iff.mpr hzero] at hempty
            exact Bool.noConfusion hempty
          simp [hmem, hne, h name hmem]
    · simp [hmem]

/-- Whatever is not asked about is refused: no mangled query of a table is answered. -/
def DBController.Query.OthersRefused (q : Query) (db : Database) (other : Bytes → Option Sums) : Prop :=
  ∀ name ∈ db.tables, ¬ q.AsksAbout name → q.answer db other name = none

/-- Packet sums that fit, where a query asks about the table, and no traffic in the tables that it
leaves out. -/
def DBController.Query.Fits (q : Query) (db : Database) : Prop :=
  ∀ name ∈ db.tables,
    if q.AsksAbout name then (db.sums name q.since q.until?).PacketsFit
    else db.sums name q.since q.until? = Sums.zero

theorem sums_lineOf_none : (lineOf none).sums = Sums.zero := by decide

theorem DBController.Query.fetchedExactly_iff_fits {q : Query} {db : Database} (h : Countable db)
    {other : Bytes → Option Sums} (hrefused : q.OthersRefused db other) :
    FetchedExactly db q.since q.until? (q.fetch db other) ↔ q.Fits db := by
  rw [q.fetchedExactly_iff]
  refine forall₂_congr fun name hmem => ?_
  split
  · rename_i hasks
    rw [q.answer_of_asksAbout hmem hasks]
    exact sums_lineOf_iff h hmem q.since q.until?
  · rename_i hasks
    rw [hrefused name hmem hasks, sums_lineOf_none]
    exact eq_comm

/--
**A fetch returns exactly the traffic stored in its range if and only if the packet sums of every
table stay below 2^31**, and no table that it cannot ask about has traffic there, when its query is
refused.
-/
theorem fetched_iff {db : Database} (h : Countable db) (other : Bytes → Option Sums)
    (start stop : Int64) :
    ((betweenQuery start stop).OthersRefused db other →
      (FetchedExactly db start.toInt (some stop.toInt) (fetchTrafficBetween db other start stop) ↔
        (betweenQuery start stop).Fits db)) ∧
    ((sinceQuery start).OthersRefused db other →
      (FetchedExactly db start.toInt none (fetchTrafficSince db other start) ↔
        (sinceQuery start).Fits db)) := by
  rw [fetchTrafficBetween_eq, fetchTrafficSince_eq]
  exact ⟨Query.fetchedExactly_iff_fits h, Query.fetchedExactly_iff_fits h⟩

/-- One application and two intervals, with this many packets in each. -/
def twoIntervals (pkts : Int) : Database where
  tables := [ascii "ssh"]
  rows := [(ascii "ssh", ⟨1672549200, 1500, 0, pkts, 0⟩), (ascii "ssh", ⟨1672549210, 1500, 0, pkts, 0⟩)]
  distinct := List.pairwise_singleton _ _

theorem countable_twoIntervals {pkts : Int} (h0 : 0 ≤ pkts) (h : pkts < 2 ^ 32) :
    Countable (twoIntervals pkts) := by
  intro name hname column hcolumn
  rw [show name = ascii "ssh" from List.mem_singleton.mp hname]
  have hrows : (twoIntervals pkts).rowsOf (ascii "ssh")
      = [⟨1672549200, 1500, 0, pkts, 0⟩, ⟨1672549210, 1500, 0, pkts, 0⟩] := by
    simp [Database.rowsOf, twoIntervals]
  rw [hrows]
  simp only [columns, List.mem_cons, List.not_mem_nil, or_false] at hcolumn
  rcases hcolumn with rfl | rfl | rfl | rfl
  · simp
  · simp
  · simp only [List.forall_mem_cons, List.map_cons, List.map_nil, List.sum_cons, List.sum_nil]
    refine ⟨⟨h0, h0, by simp⟩, ?_⟩
    omega
  · simp

theorem asksAbout_ssh : (betweenQuery 0 1672549210).AsksAbout (ascii "ssh") := by decide +kernel

theorem toInt_range :
    (betweenQuery 0 1672549210).since = 0 ∧ (betweenQuery 0 1672549210).until? = some 1672549210 := by
  decide

theorem sums_twoIntervals (pkts : Int) :
    (twoIntervals pkts).sums (ascii "ssh") 0 (some 1672549210) = ⟨3000, 0, pkts + pkts, 0⟩ := by
  simp [Database.sums, Database.sum, Database.rowsOf, twoIntervals, Database.inRange]

theorem othersRefused_twoIntervals (pkts : Int) (other : Bytes → Option Sums) :
    (betweenQuery 0 1672549210).OthersRefused (twoIntervals pkts) other := by
  intro name hname hasks
  rw [show name = ascii "ssh" from List.mem_singleton.mp hname] at hasks
  exact absurd asksAbout_ssh hasks

theorem fits_twoIntervals (pkts : Int) :
    (betweenQuery 0 1672549210).Fits (twoIntervals pkts) ↔ pkts + pkts < 2 ^ 31 := by
  have hone : (betweenQuery 0 1672549210).Fits (twoIntervals pkts) ↔
      ((twoIntervals pkts).sums (ascii "ssh") 0 (some 1672549210)).PacketsFit := by
    have htables : (twoIntervals pkts).tables = [ascii "ssh"] := rfl
    rw [Query.Fits, htables, List.forall_mem_singleton, if_pos asksAbout_ssh,
      toInt_range.1, toInt_range.2]
  rw [hone, sums_twoIntervals, Sums.PacketsFit]
  simp

/-- A few packets in each interval, and everything is fetched. -/
theorem fetched_two_intervals :
    FetchedExactly (twoIntervals 1) (0 : Int64).toInt (some (1672549210 : Int64).toInt)
      (fetchTrafficBetween (twoIntervals 1) (fun _ => none) 0 1672549210) :=
  ((fetched_iff (countable_twoIntervals (by decide) (by decide)) _ 0 1672549210).1
    (othersRefused_twoIntervals 1 _)).mpr ((fits_twoIntervals 1).mpr (by decide))

/-- With 2^30 packets in each of two intervals, their sum is fetched as a negative number. -/
theorem not_fetched_two_intervals :
    ¬ ∀ (db : Database), Countable db → ∀ (other : Bytes → Option Sums) (start stop : Int64),
      FetchedExactly db start.toInt (some stop.toInt)
        (fetchTrafficBetween db other start stop) := by
  intro h
  have hcountable : Countable (twoIntervals 1073741824) :=
    countable_twoIntervals (by decide) (by decide)
  have hexact := h _ hcountable (fun _ => none) 0 1672549210
  rw [fetchTrafficBetween_eq] at hexact
  have hsmall := (fits_twoIntervals _).mp
    ((Query.fetchedExactly_iff_fits hcountable (othersRefused_twoIntervals _ _)).mp hexact)
  exact absurd hsmall (by decide)

end Ntmd
