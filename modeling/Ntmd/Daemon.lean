/-
The loop of `main.cpp` and the signals of `Daemon.cpp`, around everything the daemon
runs.

A signal handler writes one flag and may come between any two steps.  `main` looks at
the flags in `running`, which takes several steps, and otherwise is in
`Sniffer::dispatch`, the only place where frames come to the capture thread.  The
other threads do not look at the flags at all.

The daemon is gone when its loop has ended, when a signal that it has no handler for
arrives, and when the service is dead.  What the detached threads may still do while
`main` returns is not followed.
-/
import Ntmd.Service

namespace Ntmd

/-- The two flags of the class. -/
structure Daemon where
  mIsRunning : Bool := true
  mReload : Bool := false
  deriving DecidableEq, Repr

/-- `signalHandler`; it is installed for the first three. -/
def Daemon.signalHandler (d : Daemon) : Signal → Daemon
  | .sigint => { d with mIsRunning := false }
  | .sigterm => { d with mIsRunning := false }
  | .sighup => { d with mReload := true }
  | .sigpipe => d

/-- Where the thread of `main` is. -/
inductive MainPc
  /-- In `running`, before it looks at `mReload`. -/
  | running
  /-- In `running`, before it sets `mReload` to false. -/
  | clear
  /-- In `running`, before it calls `reload`. -/
  | reload
  /-- In `running`, before it looks at `mIsRunning`. -/
  | test
  /-- Before it calls `dispatch`. -/
  | call
  | dispatch
  /-- After the loop. -/
  | ended
  deriving DecidableEq, Repr

structure Program where
  service : Service
  daemon : Daemon := {}
  pc : MainPc := .running
  /-- The signal that has ended the daemon. -/
  killed : Option Signal := none

inductive ProgramAction
  /-- The next step in `running`, or the return of `dispatch`. -/
  | main
  | signal (sig : Signal)
  | service (a : ServiceAction)

/-- A step of `pktCallback`, which `dispatch` calls. -/
def ServiceAction.inDispatch : ServiceAction → Bool
  | .monitor (.frame _ _ _) => true
  | .monitor .increment => true
  | _ => false

namespace Program

def gone (p : Program) : Bool := p.service.dead || p.pc = .ended || p.killed.isSome

/-- The loop; `reload` only writes to the log, and `dispatch` does not return from the middle of a
callback. -/
def main (p : Program) : Program :=
  match p.pc with
  | .running => { p with pc := if p.daemon.mReload then .clear else .test }
  | .clear => { p with daemon := { p.daemon with mReload := false }, pc := .reload }
  | .reload => { p with pc := .test }
  | .test => { p with pc := if p.daemon.mIsRunning then .call else .ended }
  | .call => { p with pc := .dispatch }
  | .dispatch => if p.service.monitor.busy then p else { p with pc := .running }
  | .ended => p

/-- A signal arrives. -/
def signal (p : Program) (sig : Signal) : Program :=
  if Daemon.handled.contains sig then { p with daemon := p.daemon.signalHandler sig }
  else { p with killed := some sig }

/-- A step that cannot be taken leaves everything as it is. -/
def step (w : Writers) (p : Program) (a : ProgramAction) : Program :=
  if p.gone then p
  else
    match a with
    | .main => p.main
    | .signal sig => p.signal sig
    | .service a =>
        if a.inDispatch && p.pc != .dispatch then p else { p with service := p.service.step w a }

/-- The objects of `main`, before its loop. -/
def init (iplist : IPList) (resolver : ProcessResolver) (interval : Int32) (db : Database) :
    Program :=
  { service := Service.init iplist resolver interval db }

end Program

end Ntmd
