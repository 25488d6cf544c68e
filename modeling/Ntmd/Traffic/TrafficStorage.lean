/-
The traffic of the current interval, `traffic/TrafficStorage`, and the threads that
work on it.

`add` takes a reference into the map before it takes the lock, so it is two steps.
A reference names a node of the map, and the nodes go when the map is cleared: a
`LineRef` therefore carries the number of clears it was taken after, and writing
through an older one reaches no line of the map.

`System` is the storage with the threads around it: adds that are between their two
steps, the variables that live streams have lent to the storage, the deposit thread's
connection to the database, and a record of what was added and what was handed to the
database, which the program does not keep.
-/
import Mathlib.Logic.Function.Basic
import Ntmd.Lib.Run
import Ntmd.Net.Packet
import Ntmd.Proc.ProcessIndex
import Ntmd.Traffic.DBController

namespace Ntmd

open Bytes Sqlite

/-- A packet's length and count on the line of its direction; unknown counts as transmitted. -/
def TrafficLine.add (line : TrafficLine) (pkt : Packet) : TrafficLine :=
  if pkt.direction = .incoming then
    { line with
      bytesRx := line.bytesRx + UInt64.ofInt pkt.len.toInt, pktRxCount := line.pktRxCount + 1 }
  else
    { line with
      bytesTx := line.bytesTx + UInt64.ofInt pkt.len.toInt, pktTxCount := line.pktTxCount + 1 }

/-- `TrafficLine&`: a node of the map, by its key and the clears before it was looked up. -/
structure LineRef where
  comm : Bytes
  clears : Nat
  deriving DecidableEq, Repr

/-- The variables of one iteration of a live stream: its mutex, and what it waits for. -/
structure LiveFrame where
  locked : Bool := false
  trafficMap : TrafficMap := ∅
  interval : Int32 := 0

structure TrafficStorage where
  mApplicationTraffic : TrafficMap := ∅
  mInterval : Int32
  mAPIWaiting : Bool := false
  /-- The borrowed pointers, each by the frame its variable is in. -/
  apiMutex : Option Nat := none
  apiTrafficMap : Option Nat := none
  apiInterval : Option Nat := none
  /-- How often the map has been cleared. -/
  clears : Nat := 0

namespace TrafficStorage

/-- The first line of `add`: `mApplicationTraffic[process.comm]`, an empty line if there is none. -/
def lookupLine (s : TrafficStorage) (process : Process) : TrafficStorage × LineRef :=
  let ref := { comm := process.comm, clears := s.clears }
  match s.mApplicationTraffic.lookup process.comm with
  | some _ => (s, ref)
  | none =>
      ({ s with mApplicationTraffic := s.mApplicationTraffic.insert process.comm {} }, ref)

/-- The rest of `add`, under the lock. -/
def increment (s : TrafficStorage) (line : LineRef) (pkt : Packet) : TrafficStorage :=
  if line.clears = s.clears then
    match s.mApplicationTraffic.lookup line.comm with
    | some l => { s with mApplicationTraffic := s.mApplicationTraffic.insert line.comm (l.add pkt) }
    | none => s
  else s

/-- `getLiveSnapshot`. -/
def getLiveSnapshot (s : TrafficStorage) : TrafficMap × Int32 :=
  (s.mApplicationTraffic, s.mInterval)

/-- `awaitSnapshot` with the variables of a frame; only one frame can be waiting. -/
def awaitSnapshot (s : TrafficStorage) (frames : Nat → LiveFrame) (frame : Nat) :
    Bool × TrafficStorage × (Nat → LiveFrame) :=
  if s.mAPIWaiting then (false, s, frames)
  else
    (true,
     { s with
       mAPIWaiting := true, apiMutex := some frame, apiTrafficMap := some frame,
       apiInterval := some frame },
     Function.update frames frame { frames frame with locked := true })

/-- The part of `depositLoop` that serves a waiting frame: set its variables, unlock its mutex. -/
def handOff (s : TrafficStorage) (frames : Nat → LiveFrame) :
    TrafficStorage × (Nat → LiveFrame) :=
  if s.mAPIWaiting then
    match s.apiMutex, s.apiTrafficMap, s.apiInterval with
    | some mutex, some traffic, some interval =>
        let frames := Function.update frames traffic
          { frames traffic with trafficMap := s.mApplicationTraffic }
        let frames := Function.update frames interval
          { frames interval with interval := s.mInterval }
        ({ s with mAPIWaiting := false },
         Function.update frames mutex { frames mutex with locked := false })
    | _, _, _ => ({ s with mAPIWaiting := false }, frames)
  else (s, frames)

/-- `mApplicationTraffic.clear()`. -/
def clear (s : TrafficStorage) : TrafficStorage :=
  { s with mApplicationTraffic := ∅, clears := s.clears + 1 }

end TrafficStorage

/-- An add between its two steps. -/
structure PendingAdd where
  line : LineRef
  pkt : Packet

structure System where
  storage : TrafficStorage
  /-- The adds that have looked up their line, by the thread they run in. -/
  pending : Nat → Option PendingAdd := fun _ => none
  frames : Nat → LiveFrame := fun _ => {}
  conn : Conn Database
  /-- The maps handed to `insertApplicationTraffic`. -/
  deposited : List TrafficMap := []
  /-- The adds that have run to their end. -/
  completed : List (Bytes × Packet) := []

/-- One step of one thread. -/
inductive Action
  /-- A thread with no add under way begins one. -/
  | lookup (thread : Nat) (process : Process) (pkt : Packet)
  /-- The add of a thread takes the lock and ends. -/
  | increment (thread : Nat)
  /-- An iteration of `depositLoop`, at a time and with SQLite's outcomes. -/
  | deposit (now : Int64) (o : DBController.Outcomes)
  /-- `getLiveSnapshot`. -/
  | snapshot
  /-- `awaitSnapshot`, from a stream that lends the variables of a frame. -/
  | await (frame : Nat)

namespace System

/-- The body of `depositLoop`: hand the map to the database and to a waiting stream, then
clear it. -/
def depositIteration (s : System) (now : Int64) (o : DBController.Outcomes) : System :=
  let traffic := s.storage.mApplicationTraffic
  { s with
    conn := (DBController.insertApplicationTraffic s.conn traffic now o).1
    deposited := s.deposited ++ [traffic]
    frames := (s.storage.handOff s.frames).2
    storage := (s.storage.handOff s.frames).1.clear }

/-- A step that its thread cannot take leaves everything as it is. -/
def step (s : System) : Action → System
  | .lookup thread process pkt =>
      match s.pending thread with
      | some _ => s
      | none =>
          { s with
            storage := (s.storage.lookupLine process).1
            pending := Function.update s.pending thread
              (some { line := (s.storage.lookupLine process).2, pkt := pkt }) }
  | .increment thread =>
      match s.pending thread with
      | none => s
      | some p =>
          { s with
            storage := s.storage.increment p.line p.pkt
            pending := Function.update s.pending thread none
            completed := s.completed ++ [(p.line.comm, p.pkt)] }
  | .deposit now o => s.depositIteration now o
  | .snapshot => s
  | .await frame =>
      { s with
        storage := (s.storage.awaitSnapshot s.frames frame).2.1
        frames := (s.storage.awaitSnapshot s.frames frame).2.2 }

/-- The storage and the connection as the constructors leave them. -/
def init (interval : Int32) (db : Database) : System :=
  { storage := { mInterval := interval }, conn := { committed := db, tx := none } }

end System

end Ntmd
