/-
The one database handle that the deposit thread and the API threads share.

`insertApplicationTraffic` and `fetchTrafficWithQuery` are each several calls into
SQLite, and nothing keeps the calls of one out of the middle of the other.  Here
each call is a step.  SQLite runs the calls on a connection one at a time, and every
call sees what the connection has written, committed or not.

Taken alone, the steps of a deposit and those of a fetch are the two functions of
`DBController`.
-/
import Ntmd.Lib.Run
import Ntmd.Traffic.DBController

namespace Ntmd

open Bytes Sqlite DBController

/-- A call of `fetchTrafficSince` or of `fetchTrafficBetween`. -/
inductive Fetch
  | since (timestamp : Int64)
  | between (start stop : Int64)
  deriving DecidableEq, Repr

namespace Fetch

/-- Its query, after the table name. -/
def after : Fetch → Bytes
  | since timestamp => sqlSinceAfter timestamp
  | between start stop => sqlBetweenAfter start stop

/-- What it returns when nothing else uses the handle. -/
def result (db : Database) (other : Bytes → Option Sums) : Fetch → TrafficMap
  | since timestamp => fetchTrafficSince db other timestamp
  | between start stop => fetchTrafficBetween db other start stop

end Fetch

/-- Where `insertApplicationTraffic` is. -/
inductive DepositPc
  | idle
  /-- At the top of its loop, with the applications that are left. -/
  | loop (now : Int64) (o : Outcomes) (rest : List (Σ _ : Bytes, TrafficLine))
  /-- Between the `CREATE` and the `INSERT` of an application. -/
  | insert (now : Int64) (o : Outcomes) (name : Bytes) (line : TrafficLine)
      (rest : List (Σ _ : Bytes, TrafficLine))

instance : DecidablePred (· = DepositPc.idle)
  | .idle => isTrue rfl
  | .loop .. => isFalse nofun
  | .insert .. => isFalse nofun

/-- Where `fetchTrafficWithQuery` is. -/
inductive FetchPc
  | idle
  /-- At the top of its loop, with the tables that are left. -/
  | loop (f : Fetch) (tables : List Bytes) (traffic : TrafficMap)

structure SharedHandle where
  conn : Conn Database
  deposit : DepositPc := .idle
  fetch : FetchPc := .idle
  /-- The open deposit has made a `CREATE` call. -/
  wrote : Bool := false
  /-- The database as the connection saw it before the first deposit and after each. -/
  settled : List Database
  /-- The fetches that have returned, each with its map. -/
  returned : List (Fetch × TrafficMap) := []

/-- One call into SQLite, by one of the two threads. -/
inductive HandleAction
  /-- The `BEGIN` of a deposit. -/
  | deposit (traffic : TrafficMap) (now : Int64) (o : Outcomes)
  /-- The deposit's next call: a `CREATE`, an `INSERT` or the `COMMIT`. -/
  | next
  /-- The names of all tables. -/
  | names (f : Fetch)
  /-- The sums of the fetch's next table. -/
  | sums

namespace SharedHandle

variable (other : Database → Bytes → Option Sums)

/-- The fetch goes on with the tables that are left, and returns when there are none. -/
def fetchLoop (s : SharedHandle) (f : Fetch) (tables : List Bytes) (traffic : TrafficMap) :
    SharedHandle :=
  match tables with
  | [] => { s with fetch := .idle, returned := s.returned ++ [(f, traffic)] }
  | _ => { s with fetch := .loop f tables traffic }

/-- The body of the fetch's loop. -/
def fetchTable (db : Database) (f : Fetch) (traffic : TrafficMap) (name : Bytes) : TrafficMap :=
  let line := lineOf (selectSums db (other db) (snprintf 256 sqlSelectBefore name f.after))
  if line.empty then traffic else traffic.insert name line

/-- The next call of an open deposit; no call is made for a name that is refused. -/
def depositStep (s : SharedHandle) : SharedHandle :=
  match s.deposit with
  | .idle => s
  | .loop _ o [] =>
      let conn := (s.conn.commit o.commit).1
      { s with
        conn := conn, deposit := .idle, wrote := false, settled := s.settled ++ [conn.current] }
  | .loop now o (⟨name, line⟩ :: rest) =>
      if containsSemicolon name then { s with deposit := .loop now o rest }
      else
        { s with
          conn := (stepCreate s.conn (createText name) (o.app name)).1
          deposit := .insert now o name line rest
          wrote := true }
  | .insert now o name line rest =>
      { s with
        conn := (stepInsert s.conn (insertText name) (boundRow now line) (o.app name)).1
        deposit := .loop now o rest }

/-- A step that its thread cannot take leaves everything as it is. -/
def step (s : SharedHandle) : HandleAction → SharedHandle
  | .deposit traffic now o =>
      match s.deposit with
      | .idle =>
          match s.conn.begin o.begin with
          | (conn, .ok) => { s with conn := conn, deposit := .loop now o traffic.entries }
          | (conn, _) => { s with conn := conn }
      | _ => s
  | .next => s.depositStep
  | .names f =>
      match s.fetch with
      | .idle => s.fetchLoop f (fetchApplicationNames s.conn.current) ∅
      | _ => s
  | .sums =>
      match s.fetch with
      | .loop f (name :: tables) traffic =>
          s.fetchLoop f tables (fetchTable other s.conn.current f traffic name)
      | _ => s

/-- Before the first deposit. -/
def init (db : Database) : SharedHandle :=
  { conn := { committed := db, tx := none }, settled := [db] }

end SharedHandle

end Ntmd
