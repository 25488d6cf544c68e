/-
The database of the daemon, as SQLite keeps it: one table per application, and the
three statements that are ever run on it.

A statement reaches SQLite as text with a name formatted into it, so `parse` says
what a text means: it reads the tokens and recognises the daemon's own statements,
whatever the quoted name is.  A name with a double quote can make another statement of
the text, or none at all; what SQLite makes of such a text is for the environment to
say, and `Creation` is what a `CREATE TABLE` among them can do.

The tables here have the daemon's columns and key.  Such a text can make one that has
others, on which no query of the daemon compiles; that it has no key is not followed, so
what is proved of the keys is about names that make no such table.
-/
import Mathlib.Data.List.Pairwise
import Ntmd.Lib.Sqlite.Conn
import Ntmd.Lib.Sqlite.Text

namespace Ntmd

open Bytes Sqlite

/-- A row of an application table, every column an integer. -/
structure Row where
  timestamp : Int
  bytesRx : Int
  bytesTx : Int
  pktRxCount : Int
  pktTxCount : Int
  deriving DecidableEq, Repr

/-- The tables, by the name each was created with, and every row with the name its `INSERT` used. -/
structure Database where
  tables : List Bytes
  rows : List (Bytes × Row)
  /-- No two tables have the same name. -/
  distinct : tables.Pairwise fun a b => sameName a b = false

inductive Statement
  | createTable (name : Bytes)
  | insert (name : Bytes)
  | selectSums (name : Bytes) (since : Int) (until? : Option Int)
  deriving DecidableEq, Repr

/-! ### What a text means -/

/-- `CREATE TABLE IF NOT EXISTS`. -/
def createHead : List Token :=
  [.word (ascii "CREATE"), .word (ascii "TABLE"), .word (ascii "IF"), .word (ascii "NOT"),
   .word (ascii "EXISTS")]

/-- The column list of an application table. -/
def createTail : List Token :=
  [.sym [40], .word (ascii "timestamp"), .word (ascii "INT"), .word (ascii "PRIMARY"),
   .word (ascii "KEY"), .word (ascii "NOT"), .word (ascii "NULL"), .sym [44],
   .word (ascii "bytesRx"), .word (ascii "INT"), .word (ascii "DEFAULT"), .word (ascii "0"),
   .sym [44],
   .word (ascii "bytesTx"), .word (ascii "INT"), .word (ascii "DEFAULT"), .word (ascii "0"),
   .sym [44],
   .word (ascii "pktRxCount"), .word (ascii "INT"), .word (ascii "DEFAULT"), .word (ascii "0"),
   .sym [44],
   .word (ascii "pktTxCount"), .word (ascii "INT"), .word (ascii "DEFAULT"), .word (ascii "0"),
   .sym [41], .sym [59]]

/-- `INSERT INTO`. -/
def insertHead : List Token := [.word (ascii "INSERT"), .word (ascii "INTO")]

/-- Five parameters. -/
def insertTail : List Token :=
  [.word (ascii "VALUES"), .sym [40], .sym [63], .sym [44], .sym [63], .sym [44], .sym [63],
   .sym [44], .sym [63], .sym [44], .sym [63], .sym [41], .sym [59]]

/-- `select SUM(bytesRx), SUM(bytesTx), SUM(pktRxCount), SUM(pktTxCount) from`. -/
def selectHead : List Token :=
  [.word (ascii "select"),
   .word (ascii "SUM"), .sym [40], .word (ascii "bytesRx"), .sym [41], .sym [44],
   .word (ascii "SUM"), .sym [40], .word (ascii "bytesTx"), .sym [41], .sym [44],
   .word (ascii "SUM"), .sym [40], .word (ascii "pktRxCount"), .sym [41], .sym [44],
   .word (ascii "SUM"), .sym [40], .word (ascii "pktTxCount"), .sym [41],
   .word (ascii "from")]

/-- An integer literal, with a minus sign of its own if it is negative. -/
def parseInteger : List Token → Option (Int × List Token)
  | .sym [45] :: .word ds :: ts => if ds.all isDigit then some (-(value 10 ds : Int), ts) else none
  | .word ds :: ts => if ds.all isDigit then some ((value 10 ds : Int), ts) else none
  | _ => none

/-- The rest of a query: `where timestamp >= a;` or `where timestamp >= a and timestamp <= b;`. -/
def parseWhere (ts : List Token) : Option (Int × Option Int) :=
  match ts with
  | .word w :: .word t :: .sym [62, 61] :: ts =>
      if w = ascii "where" ∧ t = ascii "timestamp" then
        match parseInteger ts with
        | some (a, [.sym [59]]) => some (a, none)
        | some (a, .word n :: .word t :: .sym [60, 61] :: ts) =>
            if n = ascii "and" ∧ t = ascii "timestamp" then
              match parseInteger ts with
              | some (b, [.sym [59]]) => some (a, some b)
              | _ => none
            else none
        | _ => none
      else none
  | _ => none

/-- What is left of a statement after its name; the end of the text does for the semicolon. -/
def Closes (tail rest : List Token) : Prop := rest = tail ∨ rest = tail.dropLast

instance (tail rest : List Token) : Decidable (Closes tail rest) :=
  inferInstanceAs (Decidable (_ ∨ _))

/-- The daemon's statement a list of tokens spells, if it spells one. -/
def parseTokens (ts : List Token) : Option Statement :=
  if createHead.isPrefixOf ts then
    match ts.drop createHead.length with
    | .quoted name :: rest => if Closes createTail rest then some (.createTable name) else none
    | _ => none
  else if insertHead.isPrefixOf ts then
    match ts.drop insertHead.length with
    | .quoted name :: rest => if Closes insertTail rest then some (.insert name) else none
    | _ => none
  else if selectHead.isPrefixOf ts then
    match ts.drop selectHead.length with
    | .quoted name :: rest => (parseWhere rest).map fun r => .selectSums name r.1 r.2
    | _ => none
  else none

/-- The statement a text holds, a C string of which only the first statement is compiled. -/
def parse (text : Bytes) : Option Statement := (tokens (cstr text)).bind parseTokens

/-! ### What a statement does -/

namespace Database

def empty : Database := { tables := [], rows := [], distinct := List.Pairwise.nil }

def hasTable (db : Database) (name : Bytes) : Bool := db.tables.any fun t => sameName t name

/-- The rows of a table. -/
def rowsOf (db : Database) (name : Bytes) : List Row :=
  (db.rows.filter fun e => sameName e.1 name).map Prod.snd

/-- `CREATE TABLE IF NOT EXISTS`, where the name is not one the engine refuses. -/
def createTable (db : Database) (name : Bytes) : Database :=
  if h : db.hasTable name then db
  else
    { tables := db.tables ++ [name]
      rows := db.rows
      distinct := by
        refine List.pairwise_append.mpr ⟨db.distinct, List.pairwise_singleton _ _, ?_⟩
        intro t ht n hn
        rw [List.mem_singleton.mp hn]
        simpa [hasTable] using fun hc => h (List.any_eq_true.mpr ⟨t, ht, hc⟩) }

/-- What a `CREATE TABLE` does: it makes tables, where none of their names is there, and rows
where it is an `AS SELECT`. -/
structure Creation where
  tables : List Bytes
  rows : List (Bytes × Row) → List (Bytes × Row) := id

def create (db : Database) (c : Creation) : Database :=
  { c.tables.foldl createTable db with rows := c.rows db.rows }

/-- `INSERT INTO`, refused when the table holds the primary key already. -/
def insert (db : Database) (name : Bytes) (row : Row) : Option Database :=
  if (db.rowsOf name).any fun r => r.timestamp == row.timestamp then none
  else some { db with rows := db.rows ++ [(name, row)] }

/-- The timestamp lies in the range a query asks for, inclusive at both ends. -/
def inRange (since : Int) (until? : Option Int) (t : Int) : Bool :=
  since ≤ t && (match until? with | none => true | some e => t ≤ e)

/-- `SUM` of a column over the rows in range; over no rows it is `NULL`, read as zero. -/
def sum (db : Database) (name : Bytes) (since : Int) (until? : Option Int) (column : Row → Int) :
    Int :=
  (((db.rowsOf name).filter fun r => inRange since until? r.timestamp).map column).sum

end Database

end Ntmd
