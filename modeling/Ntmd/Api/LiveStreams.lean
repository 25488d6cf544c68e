/-
The threads of `live` and `live-text` beside the deposit thread, from `api/APIController`.

Each client of the two commands gets a thread that goes round a loop: lend the
variables of this iteration to the storage, wait on their mutex until a deposit has
set them, and send what is in them.  A frame is the variables of one iteration, so
each iteration has a frame of its own.  The mutex is a lock that any thread may
release.

Beside the threads the system keeps what the program does not: how many deposits
there were before a frame was registered, since when a client is being served, and
which maps were sent to it.
-/
import Ntmd.Traffic.TrafficStorage

namespace Ntmd

/-- The two commands that start a stream. -/
inductive StreamKind
  | live
  | liveText
  deriving DecidableEq, Repr

/-- Where the thread of a stream is. -/
inductive StreamPc
  | unused
  /-- Before the welcome message of `live-text`. -/
  | greeting
  /-- At the top of the loop. -/
  | ready
  /-- `awaitSnapshot` returned true with this frame, and `await.lock()` has not returned. -/
  | waiting (frame : Nat)
  /-- `await.lock()` has returned, and the frame is about to be sent. -/
  | served (frame : Nat)
  /-- The thread has returned, after an error reply or a failed send. -/
  | ended
  deriving DecidableEq, Repr

structure LiveSystem where
  sys : System
  streams : Nat → StreamPc := fun _ => .unused
  /-- The frame of the next iteration that begins. -/
  nextFrame : Nat := 0
  /-- The deposits there had been when a frame was registered. -/
  registeredAt : Nat → Nat := fun _ => 0
  /-- The deposits there had been when a stream was first accepted, as long as its client is
  there. -/
  acceptedAt : Nat → Option Nat := fun _ => none
  /-- The clients that have disconnected. -/
  gone : Nat → Bool := fun _ => false
  /-- The maps that were sent to a client. -/
  sent : Nat → List TrafficMap := fun _ => []

/-- One step of one thread, or of a client. -/
inductive LiveAction
  /-- A client requests a stream. -/
  | connect (stream : Nat) (kind : StreamKind)
  /-- The welcome message, and whether it could be sent. -/
  | greet (stream : Nat) (ok : Bool)
  /-- `awaitSnapshot`, with the variables of a new iteration. -/
  | await (stream : Nat)
  /-- `await.lock()`, which returns only when the mutex is unlocked. -/
  | lock (stream : Nat)
  /-- The map of the iteration, and whether it could be sent. -/
  | send (stream : Nat) (ok : Bool)
  /-- The client goes away; its stream learns of it by a send that fails. -/
  | disconnect (stream : Nat)
  /-- An iteration of `depositLoop`. -/
  | deposit (now : Int64) (o : DBController.Outcomes)
  /-- The two steps of an add, and `getLiveSnapshot`. -/
  | lookup (thread : Nat) (process : Process) (pkt : Packet)
  | increment (thread : Nat)
  | snapshot

namespace LiveSystem

/-- The deposits so far. -/
abbrev deposited (s : LiveSystem) : List TrafficMap := s.sys.deposited

/-- The pc of a stream is set. -/
def setPc (s : LiveSystem) (stream : Nat) (pc : StreamPc) : LiveSystem :=
  { s with streams := Function.update s.streams stream pc }

/-- `awaitSnapshot` of a thread at the top of its loop. -/
def awaitStep (s : LiveSystem) (stream : Nat) : LiveSystem :=
  match s.sys.storage.awaitSnapshot s.sys.frames s.nextFrame with
  | (true, storage, frames) =>
      { s with
        sys := { s.sys with storage := storage, frames := frames }
        streams := Function.update s.streams stream (.waiting s.nextFrame)
        nextFrame := s.nextFrame + 1
        registeredAt := Function.update s.registeredAt s.nextFrame s.deposited.length
        acceptedAt :=
          if s.gone stream then s.acceptedAt
          else Function.update s.acceptedAt stream
            (some ((s.acceptedAt stream).getD s.deposited.length)) }
  | (false, storage, frames) =>
      -- The error reply, and the close.
      { s with
        sys := { s.sys with storage := storage, frames := frames }
        streams := Function.update s.streams stream .ended }

/-- `await.lock()` of a thread whose mutex is unlocked. -/
def lockStep (s : LiveSystem) (stream frame : Nat) : LiveSystem :=
  { s with
    sys := { s.sys with
      frames := Function.update s.sys.frames frame { s.sys.frames frame with locked := true } }
    streams := Function.update s.streams stream (.served frame) }

/-- The send at the bottom of the loop; a failed one ends the thread. -/
def sendStep (s : LiveSystem) (stream frame : Nat) (ok : Bool) : LiveSystem :=
  { s with
    streams := Function.update s.streams stream (if ok then .ready else .ended)
    acceptedAt := if ok then s.acceptedAt else Function.update s.acceptedAt stream none
    sent := Function.update s.sent stream
      (s.sent stream ++ [(s.sys.frames frame).trafficMap]) }

/-- A step that its thread cannot take leaves everything as it is. -/
def step (s : LiveSystem) : LiveAction → LiveSystem
  | .connect stream kind =>
      match s.streams stream, kind with
      | .unused, .live => s.setPc stream .ready
      | .unused, .liveText => s.setPc stream .greeting
      | _, _ => s
  | .greet stream ok =>
      match s.streams stream with
      | .greeting => s.setPc stream (if ok then .ready else .ended)
      | _ => s
  | .await stream =>
      match s.streams stream with
      | .ready => s.awaitStep stream
      | _ => s
  | .lock stream =>
      match s.streams stream with
      | .waiting frame => if (s.sys.frames frame).locked then s else s.lockStep stream frame
      | _ => s
  | .send stream ok =>
      match s.streams stream with
      | .served frame => s.sendStep stream frame ok
      | _ => s
  | .disconnect stream =>
      { s with
        acceptedAt := Function.update s.acceptedAt stream none
        gone := Function.update s.gone stream true }
  | .deposit now o => { s with sys := s.sys.step (.deposit now o) }
  | .lookup thread process pkt => { s with sys := s.sys.step (.lookup thread process pkt) }
  | .increment thread => { s with sys := s.sys.step (.increment thread) }
  | .snapshot => { s with sys := s.sys.step .snapshot }

/-- Before any client has connected. -/
def init (interval : Int32) (db : Database) : LiveSystem := { sys := System.init interval db }

end LiveSystem

end Ntmd
