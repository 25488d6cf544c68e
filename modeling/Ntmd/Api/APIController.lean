/-
The handlers of `api/APIController` and the connections they serve.

A handler builds its text from what it reads, and then makes its calls on the socket
one after the other: `HandlerPc` is where it stands, `call` the call it makes next
and `next` where an outcome of that call takes it.  `live` and `live-text` go on in
threads of their own, the others in the loop that reads the requests.

`ApiServer` is that loop with all the connections it has accepted.  A fault, an
exception that nothing catches and a signal that nothing handles end the daemon, and
after that no step does anything.
-/
import Ntmd.Api.LiveStreams
import Ntmd.Api.Request
import Ntmd.Lib.Json
import Ntmd.Lib.LocalTime

namespace Ntmd

open Bytes DBController Server

/-- The signals the daemon has to do with. -/
inductive Signal
  | sigint
  | sigterm
  | sighup
  | sigpipe
  deriving DecidableEq, Repr

/-- The signals that the constructor of `Daemon` installs a handler for. -/
def Daemon.handled : List Signal := [.sigint, .sigterm, .sighup]

/-! ### Texts -/

/-- The object of one line. -/
def lineJson (line : TrafficLine) : Json :=
  (((Json.null.set (ascii "bytesRx") (.num line.bytesRx.toNat)).set
    (ascii "bytesTx") (.num line.bytesTx.toNat)).set
    (ascii "pktRxCount") (.num line.pktRxCount.toInt)).set
    (ascii "pktTxCount") (.num line.pktTxCount.toInt)

/-- `trafficToJson`; the first traffic makes an object of `payload["data"]`. -/
def trafficToJson (traffic : TrafficMap) : Json :=
  traffic.entries.foldl
    (fun payload e =>
      payload.set (ascii "data") ((payload.get (ascii "data")).set e.1 (lineJson e.2)))
    (Json.null.set (ascii "length") (.num traffic.entries.length))

/-- What `live` and `snapshot` answer. -/
def livePayload (traffic : TrafficMap) (interval : Int32) : Json :=
  ((trafficToJson traffic).set (ascii "interval") (.num interval.toInt)).set
    (ascii "result") (.str (ascii "success"))

/-- What the three queries answer. -/
def historyPayload (traffic : TrafficMap) : Json :=
  (trafficToJson traffic).set (ascii "result") (.str (ascii "success"))

/-- An error reply. -/
def errorPayload (errmsg : Bytes) : Json :=
  (Json.null.set (ascii "result") (.str (ascii "error"))).set (ascii "errmsg") (.str errmsg)

def welcomeMsg : Bytes :=
  ascii "Connected to ntmd live traffic update stream, awaiting first traffic interval.\n"

def onlyOneStream : Bytes :=
  ascii "Only one live API stream at a time is currently supported."

/-- The two functions that make texts and are not the repository's own, or compute in floating
point: `json::dump` and `bytesToHumanOvertime`. -/
structure Writers where
  dump : Json → Option Bytes
  bytesToHumanOvertime : UInt64 → UInt32 → Bytes

/-- A line of `live-text`; an opening brace is 123, a closing one 125. -/
def liveTextLine (w : Writers) (interval : UInt32) (name : Bytes) (line : TrafficLine) : Bytes :=
  ascii "  " ++ name ++ [32, 123] ++ ascii " rx: " ++ w.bytesToHumanOvertime line.bytesRx interval ++
    ascii ", tx: " ++ w.bytesToHumanOvertime line.bytesTx interval ++
    ascii ", rxc: " ++ decimalInt line.pktRxCount.toInt ++
    ascii ", txc: " ++ decimalInt line.pktTxCount.toInt ++ [32, 125, 10]

def liveTextMsg (w : Writers) (traffic : TrafficMap) (interval : Int32) : Bytes :=
  ascii "Application Traffic:\n" ++
    traffic.entries.flatMap fun e => liveTextLine w interval.toUInt32 e.1 e.2

/-! ### Handlers -/

/-- What a handler reads. -/
structure Reads where
  storage : TrafficStorage
  db : Database
  /-- What SQLite answers to a text that is not a query of the daemon's. -/
  other : Bytes → Option Sums
  /-- The `mktime` of the current day's midnight. -/
  startOfCurrentDay : Int64

/-- Where a handler is. -/
inductive HandlerPc
  /-- Before its only message; it closes the socket whatever becomes of it. -/
  | reply (msg : Bytes) (noSignal : Bool)
  /-- Before the welcome message of `live-text`. -/
  | welcome
  /-- At the top of a stream's loop. -/
  | await (kind : StreamKind)
  /-- At the bottom of a stream's loop. -/
  | update (kind : StreamKind) (msg : Bytes)
  | closing
  | returned
  deriving DecidableEq

/-- A call on the socket; `noSignal` is whether its flags are `MSG_NOSIGNAL`. -/
inductive SocketCall
  | send (msg : Bytes) (noSignal : Bool)
  | close
  deriving DecidableEq

/-- What became of the call of a step: of a send, and of `awaitSnapshot` with what its frame then
holds. -/
structure Answer where
  sent : Bool := true
  snapshot : Option (TrafficMap × Int32) := none

namespace HandlerPc

/-- The call that is made next, none at the top of a stream's loop and after the return. -/
def call : HandlerPc → Option SocketCall
  | reply msg noSignal => some (.send msg noSignal)
  | welcome => some (.send welcomeMsg true)
  | update _ msg => some (.send msg true)
  | closing => some .close
  | await _ => none
  | returned => none

/-- The rejection of a stream. -/
def reject (w : Writers) : StreamKind → Option HandlerPc
  | .live => (w.dump (errorPayload onlyOneStream)).map (reply · false)
  | .liveText => some (reply onlyOneStream true)

/-- The message of an iteration. -/
def serve (w : Writers) (traffic : TrafficMap) (interval : Int32) : StreamKind → Option HandlerPc
  | .live => (w.dump (livePayload traffic interval)).map (update .live)
  | .liveText => some (update .liveText (liveTextMsg w traffic interval))

/-- Where the thread gets with an answer, none when `dump` throws. -/
def next (w : Writers) (pc : HandlerPc) (a : Answer) : Option HandlerPc :=
  match pc with
  | reply _ _ => some closing
  | welcome => some (if a.sent then await .liveText else returned)
  | await kind =>
      match a.snapshot with
      | some (traffic, interval) => serve w traffic interval kind
      | none => reject w kind
  | update kind _ => some (if a.sent then await kind else closing)
  | closing => some returned
  | returned => some returned

end HandlerPc

/-- `snapshot`, up to its call of `send`. -/
def snapshot (w : Writers) (r : Reads) : Option HandlerPc :=
  let (traffic, interval) := r.storage.getLiveSnapshot
  (w.dump (livePayload traffic interval)).map (.reply · true)

/-- `trafficDaily`, up to its call of `send`. -/
def trafficDaily (w : Writers) (r : Reads) : Option HandlerPc :=
  (w.dump (historyPayload (fetchTrafficSince r.db r.other r.startOfCurrentDay))).map (.reply · true)

/-- The timestamp that `trafficDaily` passes on: the fields of now without the time of day. -/
def startOfCurrentDay (z : LocalTime.Zone) (now : Int) : Int :=
  z.mktime { z.localtime now with hour := 0, min := 0, sec := 0 }

/-- `trafficDaily` at the time `now`. -/
def trafficDailyAt (z : LocalTime.Zone) (now : Int) (w : Writers) (r : Reads) : Option HandlerPc :=
  trafficDaily w { r with startOfCurrentDay := Int64.ofInt (startOfCurrentDay z now) }

/-- `trafficSince`, up to its call of `send`. -/
def trafficSince (w : Writers) (r : Reads) (ts : Int64) : Option HandlerPc :=
  (w.dump (historyPayload (fetchTrafficSince r.db r.other ts))).map (.reply · true)

/-- `trafficBetween`, up to its call of `send`. -/
def trafficBetween (w : Writers) (r : Reads) (start stop : Int64) : Option HandlerPc :=
  (w.dump (historyPayload (fetchTrafficBetween r.db r.other start stop))).map (.reply · true)

/-- Where the handling of a command begins, none when `dump` throws. -/
def handle (w : Writers) (r : Reads) : Command → Option HandlerPc
  | .liveText => some .welcome
  | .live => some (.await .live)
  | .snapshot => snapshot w r
  | .trafficDaily => trafficDaily w r
  | .trafficSince ts => trafficSince w r ts
  | .trafficBetween start stop => trafficBetween w r start stop
  | .refused errmsg => (w.dump (errorPayload errmsg)).map (.reply · false)

/-- The commands that are handled in a thread of their own. -/
def Command.detached : Command → Bool
  | .liveText => true
  | .live => true
  | _ => false

/-! ### Connections -/

structure ApiConn where
  command : Command
  pc : HandlerPc
  /-- The client has disconnected. -/
  gone : Bool := false
  /-- The calls made so far. -/
  calls : List SocketCall := []

/-- The next call is a send without `MSG_NOSIGNAL` to a client that has gone. -/
def ApiConn.brokenPipe (c : ApiConn) : Bool :=
  match c.pc.call with
  | some (.send _ noSignal) => !noSignal && c.gone
  | _ => false

/-- The ways the API ends the daemon. -/
inductive Down
  | fault (f : Fault)
  /-- An exception leaves the thread. -/
  | uncaught
  | signal (s : Signal)
  deriving DecidableEq, Repr

structure ApiServer where
  buffer : Buffer := .zero
  conns : List ApiConn := []
  /-- The connection whose handler the loop itself is in. -/
  loop : Option Nat := none
  down : Option Down := none

inductive ApiAction
  /-- The loop accepts a connection and reads its request. -/
  | accept (r : ReadResult) (reads : Reads)
  /-- A thread makes its next call, or `awaitSnapshot` and `await.lock()`. -/
  | advance (conn : Nat) (a : Answer)
  | disconnect (conn : Nat)

namespace ApiServer

/-- The loop has returned from the last handler it was in. -/
def free (s : ApiServer) : Bool :=
  match s.loop with
  | none => true
  | some i =>
      match s.conns[i]? with
      | none => true
      | some c => c.pc = .returned

/-- A connection is accepted, and what it asks for is begun. -/
def accept (w : Writers) (s : ApiServer) (r : ReadResult) (reads : Reads) : ApiServer :=
  match serveOne s.buffer r with
  | .error f => { s with down := some (.fault f) }
  | .ok (buffer, served) =>
      match handle w reads served.command with
      | none => { s with buffer := buffer, down := some .uncaught }
      | some pc =>
          { s with
            buffer := buffer
            conns := s.conns ++ [{ command := served.command, pc := pc }]
            loop := if served.command.detached then none else some s.conns.length }

/-- The next step of a connection's thread.  A send that may raise `SIGPIPE` raises it. -/
def advance (w : Writers) (s : ApiServer) (i : Nat) (c : ApiConn) (a : Answer) : ApiServer :=
  if c.brokenPipe && !Daemon.handled.contains .sigpipe then { s with down := some (.signal .sigpipe) }
  else
    match c.pc.next w a with
    | none => { s with down := some .uncaught }
    | some pc =>
        { s with conns := s.conns.set i { c with pc := pc, calls := c.calls ++ c.pc.call.toList } }

/-- A step that cannot be taken leaves everything as it is. -/
def step (w : Writers) (s : ApiServer) (action : ApiAction) : ApiServer :=
  if s.down.isSome then s
  else
    match action with
    | .accept r reads => if s.free then s.accept w r reads else s
    | .advance i a =>
        match s.conns[i]? with
        | none => s
        | some c => s.advance w i c a
    | .disconnect i =>
        match s.conns[i]? with
        | none => s
        | some c => { s with conns := s.conns.set i { c with gone := true } }

end ApiServer

end Ntmd
