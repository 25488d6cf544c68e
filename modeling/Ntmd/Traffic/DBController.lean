/-
Depositing traffic into the database and fetching it back, `traffic/DBController`.

`insertApplicationTraffic` makes its SQLite calls one after the other and looks at
the result codes of some of them.  The environment's outcomes of all of them are an
argument, and the result codes are returned beside the connection, for the reader
only: the function itself returns nothing.
-/
import Mathlib.Data.List.AList
import Ntmd.Traffic.Database
import Ntmd.Util.StringUtil

namespace Ntmd

open Bytes Sqlite

structure TrafficLine where
  bytesRx : UInt64 := 0
  bytesTx : UInt64 := 0
  pktRxCount : Int32 := 0
  pktTxCount : Int32 := 0
  deriving DecidableEq, Repr

/-- `TrafficLine::empty`. -/
def TrafficLine.empty (line : TrafficLine) : Bool :=
  line.bytesRx == 0 && line.bytesTx == 0 && line.pktRxCount == 0 && line.pktTxCount == 0

abbrev TrafficMap := AList fun _ : Bytes => TrafficLine

namespace DBController

/-! ### Texts -/

/-- `snprintf` into a buffer of `size` bytes, the format having one `%s`. -/
def snprintf (size : Nat) (before name after : Bytes) : Bytes :=
  (before ++ cstr name ++ after).take (size - 1)

/-- `sqlCreateTable`, up to the name. -/
def sqlCreateBefore : Bytes := ascii "CREATE TABLE IF NOT EXISTS \""

/-- `sqlCreateTable`, after the name. -/
def sqlCreateAfter : Bytes :=
  ascii ("\" (timestamp INT PRIMARY KEY NOT NULL, bytesRx INT DEFAULT 0, bytesTx INT DEFAULT 0, " ++
    "pktRxCount INT DEFAULT 0, pktTxCount INT DEFAULT 0);")

/-- `sqlInsertValues`, up to the name. -/
def sqlInsertBefore : Bytes := ascii "INSERT INTO \""

/-- `sqlInsertValues`, after the name. -/
def sqlInsertAfter : Bytes := ascii "\" VALUES (?, ?, ?, ?, ?);"

def createText (name : Bytes) : Bytes := snprintf 512 sqlCreateBefore name sqlCreateAfter

def insertText (name : Bytes) : Bytes := snprintf 512 sqlInsertBefore name sqlInsertAfter

/-- The text is that of a name without a double quote, as far as the buffer holds it. -/
def isPlain (before after text : Bytes) : Bool :=
  ((text.drop before.length).dropWhile (· != dquote)).isPrefixOf after

/-- What a text comes to that is not the daemon's statement.  Of a name without a quote it is one
that the buffer cut short, which does not compile; of any other the environment knows. -/
def compileOther {α : Type} (before after text : Bytes) (other : Option α) : Option α :=
  if isPlain before after text then none else other

/-! ### Depositing -/

/-- `sqlite3_bind_int`: the argument is converted to a 32-bit `int`. -/
def bindInt (v : Int) : Int := (Int32.ofInt v).toInt

/-- The parameters bound for a line. -/
def boundRow (timestamp : Int64) (line : TrafficLine) : Row where
  timestamp := bindInt timestamp.toInt
  bytesRx := bindInt line.bytesRx.toNat
  bytesTx := bindInt line.bytesTx.toNat
  pktRxCount := bindInt line.pktRxCount.toInt
  pktTxCount := bindInt line.pktTxCount.toInt

/-- What the environment makes of the calls for one application; a `false` is a
`sqlite3_prepare_v2` that fails.  Where a quote in the name makes another statement of a text,
`otherCreate` and `otherInsert` are what that statement does, none where it does not compile: the
one still begins as a `CREATE TABLE`, and the other as an `INSERT`, which changes no tables. -/
structure AppOutcomes where
  prepareCreate : Bool := true
  otherCreate : Option Database.Creation := none
  stepCreate : Outcome := .ok
  prepareInsert : Bool := true
  otherInsert : Option (List (Bytes × Row) → List (Bytes × Row)) := none
  stepInsert : Outcome := .ok

/-- What the environment makes of the calls of one deposit. -/
structure Outcomes where
  begin : Outcome := .ok
  app : Bytes → AppOutcomes := fun _ => {}
  commit : Outcome := .ok

/-- The result codes of one application's two steps; none when its name was refused. -/
structure AppResult where
  name : Bytes
  steps : Option (ResultCode × ResultCode)
  deriving DecidableEq, Repr

/-- The result codes of one deposit; none for a commit that was never reached. -/
structure Results where
  begin : ResultCode
  apps : List AppResult
  commit : Option ResultCode
  deriving DecidableEq, Repr

/-- Prepare and step the `CREATE TABLE`; stepping a null statement is a misuse. -/
def stepCreate (conn : Conn Database) (text : Bytes) (o : AppOutcomes) :
    Conn Database × ResultCode :=
  match parse text with
  | some (.createTable name) =>
      if o.prepareCreate && !isReserved name then
        conn.exec o.stepCreate fun db => some (db.createTable name)
      else (conn, .failed .misuse)
  | _ =>
      match compileOther sqlCreateBefore sqlCreateAfter text o.otherCreate with
      | some c => conn.exec o.stepCreate fun db => some (db.create c)
      | none => (conn, .failed .misuse)

/-- Prepare, bind and step the `INSERT`; it does not compile without its table. -/
def stepInsert (conn : Conn Database) (text : Bytes) (row : Row) (o : AppOutcomes) :
    Conn Database × ResultCode :=
  match parse text with
  | some (.insert name) =>
      if o.prepareInsert && conn.current.hasTable name then
        conn.exec o.stepInsert fun db => db.insert name row
      else (conn, .failed .misuse)
  | _ =>
      match compileOther sqlInsertBefore sqlInsertAfter text o.otherInsert with
      | some rows => conn.exec o.stepInsert fun db => some { db with rows := rows db.rows }
      | none => (conn, .failed .misuse)

/-- The texts of a process that calls itself `main"."ssh`: both compile, and are about the table of
another. -/
example : parse (createText (ascii "main\".\"ssh")) = none ∧
    parse (insertText (ascii "main\".\"ssh")) = none ∧
    isPlain sqlInsertBefore sqlInsertAfter (insertText (ascii "main\".\"ssh")) = false := by
  decide +kernel

/-- The body of the loop: one application. -/
def depositApp (now : Int64) (o : Outcomes) (conn : Conn Database) (name : Bytes)
    (line : TrafficLine) : Conn Database × AppResult :=
  if containsSemicolon name then (conn, { name := name, steps := none })
  else
    let (conn, create) := stepCreate conn (createText name) (o.app name)
    let (conn, insert) := stepInsert conn (insertText name) (boundRow now line) (o.app name)
    (conn, { name := name, steps := some (create, insert) })

/-- The loop over the traffic, in the order the map is iterated. -/
def depositApps (now : Int64) (o : Outcomes) (conn : Conn Database) :
    List (Σ _ : Bytes, TrafficLine) → Conn Database × List AppResult
  | [] => (conn, [])
  | ⟨name, line⟩ :: rest =>
      let (conn, result) := depositApp now o conn name line
      let (conn, results) := depositApps now o conn rest
      (conn, result :: results)

/-- `insertApplicationTraffic`; only the result of `BEGIN` is looked at. -/
def insertApplicationTraffic (conn : Conn Database) (traffic : TrafficMap) (now : Int64)
    (o : Outcomes) : Conn Database × Results :=
  match conn.begin o.begin with
  | (conn, .ok) =>
      let (conn, apps) := depositApps now o conn traffic.entries
      let (conn, commit) := conn.commit o.commit
      (conn, { begin := .ok, apps := apps, commit := some commit })
  | (conn, rc) => (conn, { begin := rc, apps := [], commit := none })

/-! ### Fetching -/

/-- A row of four sums. -/
structure Sums where
  bytesRx : Int
  bytesTx : Int
  pktRxCount : Int
  pktTxCount : Int
  deriving DecidableEq, Repr

/-- The row a query text steps to, none when it does not.  What SQLite answers to a text
that is not a query of the daemon's is `other`. -/
def selectSums (db : Database) (other : Bytes → Option Sums) (text : Bytes) : Option Sums :=
  match parse text with
  | some (.selectSums name since until?) =>
      if db.hasTable name then
        some {
          bytesRx := db.sum name since until? Row.bytesRx
          bytesTx := db.sum name since until? Row.bytesTx
          pktRxCount := db.sum name since until? Row.pktRxCount
          pktTxCount := db.sum name since until? Row.pktTxCount }
      else none
  | _ => other text

/-- The line filled from a row: 64-bit columns into two `uint64_t` and two `int`. -/
def lineOf : Option Sums → TrafficLine
  | none => {}
  | some s =>
      { bytesRx := UInt64.ofInt s.bytesRx, bytesTx := UInt64.ofInt s.bytesTx,
        pktRxCount := Int32.ofInt s.pktRxCount, pktTxCount := Int32.ofInt s.pktTxCount }

/-- `fetchApplicationNames`. -/
def fetchApplicationNames (db : Database) : List Bytes := db.tables

/-- `fetchTrafficWithQuery`; the query's one `%s` stands between its two parts. -/
def fetchTrafficWithQuery (db : Database) (other : Bytes → Option Sums) (before after : Bytes) :
    TrafficMap :=
  (fetchApplicationNames db).foldl
    (fun traffic name =>
      let line := lineOf (selectSums db other (snprintf 256 before name after))
      if line.empty then traffic else traffic.insert name line) ∅

/-- The part of both queries before the table name. -/
def sqlSelectBefore : Bytes :=
  ascii "select SUM(bytesRx), SUM(bytesTx), SUM(pktRxCount), SUM(pktTxCount) from \""

/-- The part of the query of `fetchTrafficSince` after the table name. -/
def sqlSinceAfter (timestamp : Int64) : Bytes :=
  ascii "\" where timestamp >= " ++ decimalInt timestamp.toInt ++ ascii ";"

/-- The part of the query of `fetchTrafficBetween` after the table name. -/
def sqlBetweenAfter (start stop : Int64) : Bytes :=
  ascii "\" where timestamp >= " ++ decimalInt start.toInt ++ ascii " and timestamp <= " ++
    decimalInt stop.toInt ++ ascii ";"

/-- `fetchTrafficSince`; the first `snprintf` is of 256 bytes as well, its `%%s` still two bytes. -/
def fetchTrafficSince (db : Database) (other : Bytes → Option Sums) (timestamp : Int64) :
    TrafficMap :=
  fetchTrafficWithQuery db other sqlSelectBefore (sqlSinceAfter timestamp)

def fetchTrafficBetween (db : Database) (other : Bytes → Option Sums) (start stop : Int64) :
    TrafficMap :=
  fetchTrafficWithQuery db other sqlSelectBefore (sqlBetweenAfter start stop)

end DBController

end Ntmd
