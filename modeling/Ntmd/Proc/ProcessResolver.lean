/-
From a packet to the process that owns its socket, `proc/ProcessResolver`.
-/
import Ntmd.Proc.KernelLinks
import Ntmd.Proc.SocketIndex

namespace Ntmd

structure ProcessResolver where
  mSocketIndex : SocketIndex
  mProcessIndex : ProcessIndex

namespace ProcessResolver

/-- The placeholder for packets that no process is found for. -/
def mUnknownProcess : Process := { comm := Bytes.ascii "Unknown Traffic", pid := 0 }

/-- `resolve`, with what it sees of `/proc/net` and of `/proc`. -/
def resolve (s : ProcessResolver) (pkt : Packet) (net : ProcNet) (proc : Proc) :
    Except Crash (Process × ProcessResolver) :=
  let (inode, sockets) := s.mSocketIndex.get pkt net
  if inode = 0 then .ok (mUnknownProcess, { s with mSocketIndex := sockets })
  else do
    let (process, processes) ← s.mProcessIndex.get inode proc
    match process with
    | some process =>
        .ok (process, { mSocketIndex := sockets, mProcessIndex := processes })
    | none => .ok (mUnknownProcess, { mSocketIndex := sockets, mProcessIndex := processes })

/-- What can happen to the resolver: a packet, or one of the two threads that clear a list. -/
inductive Action
  | resolve (pkt : Packet) (net : ProcNet) (proc : KernelProc)
  | clearSockets
  | clearProcesses

/-- A call that ends the daemon leaves nothing to go on from; the state stays as it was. -/
def step (s : ProcessResolver) : Action → ProcessResolver
  | .resolve pkt net proc =>
      match s.resolve pkt net proc.toProc with
      | .ok (_, s') => s'
      | .error _ => s
  | .clearSockets => { s with mSocketIndex := s.mSocketIndex.clearNotFound }
  | .clearProcesses => { s with mProcessIndex := s.mProcessIndex.clearNotFound }

end ProcessResolver

end Ntmd
