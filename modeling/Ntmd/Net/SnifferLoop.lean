/-
The loop over captured frames, `net/SnifferLoop`, with the parts of `net/Sniffer` it uses.

The capture thread is handed one frame after the other.  Between two frames the
threads of the two indexes may clear what could not be found.
-/
import Ntmd.Net.Frame
import Ntmd.Proc.ProcessResolver
import Ntmd.Traffic.TrafficStorage

namespace Ntmd

/-- `add`, with both of its steps taken. -/
def TrafficStorage.add (s : TrafficStorage) (process : Process) (pkt : Packet) : TrafficStorage :=
  (s.lookupLine process).1.increment (s.lookupLine process).2 pkt

structure Sniffer where
  mIPList : IPList
  mProcessResolver : ProcessResolver
  mTrafficStorage : TrafficStorage

/-- The ways a frame ends the daemon. -/
inductive CaptureFault
  /-- A header is read past the end of the frame. -/
  | frame
  /-- `resolve` does not return. -/
  | resolve (c : Crash)
  deriving DecidableEq, Repr

namespace Sniffer

/-- `SnifferLoop::pktCallback`, with what `resolve` sees of `/proc`. -/
def pktCallback (s : Sniffer) (f : CapturedFrame) (net : ProcNet) (proc : Proc) :
    Except CaptureFault Sniffer :=
  match Packet.ofFrame f.header f.raw s.mIPList with
  | none => .error .frame
  | some pkt =>
      if pkt.discard then .ok s
      else
        match s.mProcessResolver.resolve pkt net proc with
        | .error c => .error (.resolve c)
        | .ok (process, resolver) =>
            .ok { s with
              mProcessResolver := resolver
              mTrafficStorage := s.mTrafficStorage.add process pkt }

/-- What happens while no deposit does. -/
inductive Action
  | frame (f : CapturedFrame) (net : ProcNet) (proc : Proc)
  | clearSockets
  | clearProcesses

def step (s : Sniffer) : Action → Except CaptureFault Sniffer
  | .frame f net proc => s.pktCallback f net proc
  | .clearSockets =>
      .ok { s with mProcessResolver := s.mProcessResolver.step .clearSockets }
  | .clearProcesses =>
      .ok { s with mProcessResolver := s.mProcessResolver.step .clearProcesses }

/-- The state after a run in which every call returns. -/
def run (s : Sniffer) : List Action → Except CaptureFault Sniffer
  | [] => .ok s
  | a :: as => do
      let s ← s.step a
      s.run as

end Sniffer

end Ntmd
