/-
The objects that `main` makes, with the threads that work on them.

The capture thread runs `pktCallback` on one frame after the other.  It is inside
`add` between two of its steps, so a deposit may come in the middle of a packet: a
`frame` takes the callback to where `add` has looked up its line, and `increment` does
the rest.  The deposit thread, the two threads that clear what could not be found, and
the API's calls on the storage come in between as they like.

A fault of the capture thread ends the daemon, and after that no step does anything.
-/
import Ntmd.Net.SnifferLoop

namespace Ntmd

open Bytes Sqlite

structure Monitor where
  mIPList : IPList
  mProcessResolver : ProcessResolver
  sys : System
  fault : Option CaptureFault := none

/-- One step of one thread. -/
inductive MonitorAction
  /-- `pktCallback` is called on a frame, with what `resolve` sees of `/proc`. -/
  | frame (f : CapturedFrame) (net : ProcNet) (proc : Proc)
  /-- The capture thread takes the lock in `add`, and `pktCallback` returns. -/
  | increment
  | clearSockets
  | clearProcesses
  /-- An iteration of `depositLoop`, at a time and with SQLite's outcomes. -/
  | deposit (now : Int64) (o : DBController.Outcomes)
  /-- `getLiveSnapshot`. -/
  | snapshot
  /-- `awaitSnapshot`, from a stream that lends the variables of a frame. -/
  | await (frame : Nat)

namespace Monitor

/-- The capture thread among the threads that add. -/
def captureThread : Nat := 0

/-- The callback has not returned from its last frame. -/
def busy (s : Monitor) : Bool := (s.sys.pending captureThread).isSome

/-- `pktCallback`, up to where `add` has looked up its line. -/
def beginFrame (s : Monitor) (f : CapturedFrame) (net : ProcNet) (proc : Proc) : Monitor :=
  match Packet.ofFrame f.header f.raw s.mIPList with
  | none => { s with fault := some .frame }
  | some pkt =>
      if pkt.discard then s
      else
        match s.mProcessResolver.resolve pkt net proc with
        | .error c => { s with fault := some (.resolve c) }
        | .ok (process, resolver) =>
            { s with
              mProcessResolver := resolver
              sys := s.sys.step (.lookup captureThread process pkt) }

/-- A step that its thread cannot take leaves everything as it is. -/
def step (s : Monitor) (a : MonitorAction) : Monitor :=
  if s.fault.isSome then s
  else
    match a with
    | .frame f net proc => if s.busy then s else s.beginFrame f net proc
    | .increment => { s with sys := s.sys.step (.increment captureThread) }
    | .clearSockets =>
        { s with mProcessResolver := s.mProcessResolver.step .clearSockets }
    | .clearProcesses =>
        { s with mProcessResolver := s.mProcessResolver.step .clearProcesses }
    | .deposit now o => { s with sys := s.sys.step (.deposit now o) }
    | .snapshot => { s with sys := s.sys.step .snapshot }
    | .await frame => { s with sys := s.sys.step (.await frame) }

/-- What the constructors leave: the local addresses, the indexes, an empty storage and the
connection. -/
def init (iplist : IPList) (resolver : ProcessResolver) (interval : Int32) (db : Database) :
    Monitor :=
  { mIPList := iplist, mProcessResolver := resolver, sys := System.init interval db }

end Monitor

end Ntmd
