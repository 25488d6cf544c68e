/-
The monitor and the API next to each other.

The handlers of the API read the storage and the database that the capture thread and
the deposit thread write, so what a client is told depends on when its request is
accepted.  A `Service` is all the threads of the daemon together: those of a
`Monitor`, the loop that reads the requests, and one thread for each stream.

The thread of a stream lends a frame of its own to the storage, and `frame` has the one
that its present iteration is about.  A deposit is one step here; what a query sees in
the middle of one is `SharedHandle`.

A fault, an exception that nothing catches and a signal that nothing handles end the
daemon, whichever thread they come from, and after that no step does anything.
-/
import Ntmd.Api.APIController
import Ntmd.Monitor

namespace Ntmd

open DBController

structure Service where
  monitor : Monitor
  api : ApiServer := {}
  /-- The frame of the iteration that a stream's thread is in, from its call of `awaitSnapshot` to
  its send. -/
  frame : Nat → Option Nat := fun _ => none
  /-- The frame of the next iteration that begins. -/
  nextFrame : Nat := 0

/-- One step of one thread, or of a client. -/
inductive ServiceAction
  | monitor (a : MonitorAction)
  /-- The loop accepts a connection and reads its request; with what SQLite answers to other texts,
  and the midnight before now. -/
  | accept (r : ReadResult) (other : Bytes → Option Sums) (midnight : Int64)
  /-- The thread of a connection goes on, and whether a send succeeds. -/
  | advance (conn : Nat) (ok : Bool)
  | disconnect (conn : Nat)

/-- A step of the monitor's own threads; only streams call `awaitSnapshot`. -/
def MonitorAction.own : MonitorAction → Bool
  | .await _ => false
  | _ => true

namespace Service

def dead (s : Service) : Bool := s.monitor.fault.isSome || s.api.down.isSome

/-- What a handler reads now. -/
def reads (s : Service) (other : Bytes → Option Sums) (midnight : Int64) : Reads where
  storage := s.monitor.sys.storage
  db := s.monitor.sys.conn.current
  other := other
  startOfCurrentDay := midnight

/-- `awaitSnapshot`, with the variables of a new iteration. -/
def register (w : Writers) (s : Service) (conn : Nat) : Service :=
  if (s.monitor.sys.storage.awaitSnapshot s.monitor.sys.frames s.nextFrame).1 then
    { s with
      monitor := s.monitor.step (.await s.nextFrame)
      frame := Function.update s.frame conn (some s.nextFrame)
      nextFrame := s.nextFrame + 1 }
  else { s with api := s.api.step w (.advance conn { snapshot := none }) }

/-- `await.lock()`, when the mutex is unlocked, and the text of what is in the frame then. -/
def collect (w : Writers) (s : Service) (conn frame : Nat) : Service :=
  let lent := s.monitor.sys.frames frame
  { s with
    monitor :=
      { s.monitor with
        sys :=
          { s.monitor.sys with
            frames := Function.update s.monitor.sys.frames frame { lent with locked := true } } }
    api := s.api.step w
      (.advance conn { snapshot := some (lent.trafficMap, lent.interval) }) }

/-- The next step of a connection's thread. -/
def advance (w : Writers) (s : Service) (conn : Nat) (ok : Bool) : Service :=
  match s.api.conns[conn]? with
  | none => s
  | some c =>
      match c.pc with
      | .await _ =>
          match s.frame conn with
          | none => s.register w conn
          | some frame =>
              if (s.monitor.sys.frames frame).locked then s else s.collect w conn frame
      | .update _ _ =>
          -- The variables of the iteration end with it.
          { s with
            api := s.api.step w (.advance conn { sent := ok })
            frame := Function.update s.frame conn none }
      | _ => { s with api := s.api.step w (.advance conn { sent := ok }) }

/-- A step that its thread cannot take leaves everything as it is. -/
def step (w : Writers) (s : Service) (a : ServiceAction) : Service :=
  if s.dead then s
  else
    match a with
    | .monitor a => if a.own then { s with monitor := s.monitor.step a } else s
    | .accept r other midnight =>
        { s with api := s.api.step w (.accept r (s.reads other midnight)) }
    | .advance conn ok => s.advance w conn ok
    | .disconnect conn => { s with api := s.api.step w (.disconnect conn) }

/-- What `main` has made before any thread takes a step. -/
def init (iplist : IPList) (resolver : ProcessResolver) (interval : Int32) (db : Database) :
    Service :=
  { monitor := Monitor.init iplist resolver interval db }

end Service

end Ntmd
