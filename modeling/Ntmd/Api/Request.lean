/-
Reading a request, the loop of `api/APIController::startSocketServer`.

All connections are read into one buffer of 1024 bytes, so what an earlier client
sent is still there when the next is read.  The buffer is terminated at the index
that `read` returned, be it -1 or 1024, and the words of the request are accessed
by index; an access outside ends in a `Fault`.  What a request asks for is a
`Command`: one of the six handlers with its parameters, or an error reply of the
loop itself.
-/
import Ntmd.Lib.Scanf
import Ntmd.Util.StringUtil

namespace Ntmd

open Bytes Scanf

/-- What `read` of at most `sizeof(buffer)` bytes gives for a connection. -/
inductive ReadResult
  | error
  | bytes (data : Bytes) (le : data.length ≤ 1024)

namespace ReadResult

/-- The return value. -/
def valread : ReadResult → Int
  | .error => -1
  | .bytes data _ => data.length

/-- The bytes read on the connection. -/
def data : ReadResult → Bytes
  | .error => []
  | .bytes data _ => data

end ReadResult

/-- An access outside its object. -/
inductive Fault
  /-- `buffer[index]`. -/
  | bufferWrite (index : Int)
  /-- The string is read past the end of the buffer. -/
  | bufferRead
  /-- `request[index]`. -/
  | word (index : Nat)
  deriving DecidableEq, Repr

/-- `char buffer[1024]`. -/
structure Buffer where
  content : Bytes
  length_eq : content.length = 1024

namespace Buffer

/-- `= {0}`. -/
def zero : Buffer := ⟨List.replicate 1024 0, List.length_replicate⟩

/-- `read(newSocket, buffer, sizeof(buffer))`. -/
def read (b : Buffer) : ReadResult → Buffer
  | .error => b
  | .bytes data le =>
      ⟨data ++ b.content.drop data.length, by
        rw [List.length_append, List.length_drop, b.length_eq]
        omega⟩

/-- `buffer[index] = '\0'`. -/
def terminate (b : Buffer) (index : Int) : Except Fault Buffer :=
  if 0 ≤ index ∧ index < 1024 then
    .ok ⟨b.content.set index.toNat 0, by rw [List.length_set, b.length_eq]⟩
  else .error (.bufferWrite index)

/-- `std::string(buffer)`. -/
def string (b : Buffer) : Except Fault Bytes :=
  if (0 : UInt8) ∈ b.content then .ok (cstr b.content) else .error .bufferRead

end Buffer

/-- What the loop does for a request. -/
inductive Command
  | liveText
  | live
  | snapshot
  | trafficDaily
  | trafficSince (ts : Int64)
  | trafficBetween (start stop : Int64)
  /-- An error reply. -/
  | refused (errmsg : Bytes)
  deriving DecidableEq

namespace Server

/-- `request[index]`. -/
def word (request : List Bytes) (index : Nat) : Except Fault Bytes :=
  match request[index]? with
  | some w => .ok w
  | none => .error (.word index)

/-- The branch of `traffic-since`. -/
def dispatchSince (request : List Bytes) : Except Fault Command :=
  if 2 ≤ request.length then do
    match stoi (← word request 1) with
    | .ok ts => return .trafficSince ts.toInt64
    | .error .invalidArgument =>
        return .refused (ascii "Invalid timestamp parameter for traffic-since.")
    | .error .outOfRange =>
        return .refused (ascii "Timestamp parameter value too large for traffic-since.")
  else return .refused (ascii "Missing timestamp parameter for traffic-since.")

/-- The branch of `traffic-between`; `start` is converted first. -/
def dispatchBetween (request : List Bytes) : Except Fault Command :=
  if 3 ≤ request.length then do
    let start ← word request 1
    let stop ← word request 2
    match (do return (← stoi start, ← stoi stop) : Except StoiError (Int32 × Int32)) with
    | .ok (start, stop) => return .trafficBetween start.toInt64 stop.toInt64
    | .error .invalidArgument =>
        return .refused (ascii "Invalid timestamp parameter(s) for traffic-between.")
    | .error .outOfRange =>
        return .refused (ascii "Timestamp parameter value(s) too large for traffic-between.")
  else return .refused (ascii "Missing timestamp parameter(s) for traffic-between.")

/-- What the words of a request ask for. -/
def dispatch (request : List Bytes) : Except Fault Command := do
  let cmd := trim (← word request 0)
  if cmd = ascii "live-text" then return .liveText
  else if cmd = ascii "live" then return .live
  else if cmd = ascii "snapshot" then return .snapshot
  else if cmd = ascii "traffic-daily" then return .trafficDaily
  else if cmd = ascii "traffic-since" then dispatchSince request
  else if cmd = ascii "traffic-between" then dispatchBetween request
  else return .refused (ascii "Unknown command.")

/-- What was made of a connection. -/
structure Served where
  request : List Bytes
  command : Command
  deriving DecidableEq

/-- One connection: read it, and find out what it asks for. -/
def serveOne (buffer : Buffer) (r : ReadResult) : Except Fault (Buffer × Served) := do
  let buffer ← (buffer.read r).terminate r.valread
  let request := split (← buffer.string)
  let command ← dispatch request
  return (buffer, { request := request, command := command })

/-- The loop over the connections. -/
def serve (buffer : Buffer) : List ReadResult → Except Fault (List Served)
  | [] => .ok []
  | r :: rs => do
      let (buffer, served) ← serveOne buffer r
      return served :: (← serve buffer rs)

end Server

end Ntmd
