/-
The index of processes by the sockets they own, `proc/ProcessIndex`.

A scan of one process reads the links of its file descriptor folder into a buffer
on the stack.  `readlink` does not terminate what it writes, and the buffer is not
cleared between links, so its content is part of the loop's state.  What `/proc`
shows is the environment's; within one call every folder is looked at once at most,
so a `Proc` describes everything a call can see even when `/proc` changes meanwhile.
-/
import Mathlib.Data.List.AList
import Mathlib.Data.Finset.Insert
import Ntmd.Lib.Scanf
import Ntmd.Util.LRUArray
import Ntmd.Util.StringUtil

namespace Ntmd

open Bytes Scanf

structure Process where
  comm : Bytes
  pid : Int32
  deriving DecidableEq, Repr

/-- An entry of a file descriptor folder: is it a link, and what `readlink` finds, if it can. -/
structure FdEntry where
  isLink : Bool
  target : Option Bytes

/-- The folder of one process: the content of `comm`, the entries of `fd`, and what the
stack held where `linkRaw` comes to lie. -/
structure PidDir where
  comm : Option Bytes
  fd : Option (List FdEntry)
  linkRaw : Vector UInt8 80

/-- An entry of `/proc` itself. -/
structure ProcEntry where
  isDir : Bool
  name : Bytes

/-- What one call sees of `/proc`. -/
structure Proc where
  /-- The entries of `/proc`, none when it cannot be opened. -/
  entries : Option (List ProcEntry)
  /-- Whether the `fd` folder of a process exists when the cache is searched. -/
  fdExists : Bytes → Bool
  /-- The folder of a process, as `processPidDir` reads it. -/
  pidDir : Bytes → PidDir

/-- The ways a scan ends the daemon. -/
inductive Crash
  /-- No zero byte in the buffer: the string is read past its end. -/
  | overread
  /-- An exception of `std::stoi` or `substr` that nothing catches. -/
  | uncaught (e : StoiError)
  /-- `std::exit`. -/
  | exit
  deriving DecidableEq, Repr

/-- `std::to_string` of a pid. -/
def pidStr (pid : Int32) : Bytes := decimalInt pid.toInt

/-- `std::stoi` where nothing catches its exceptions. -/
def stoiOrDie (s : Bytes) : Except Crash Int32 :=
  match stoi s with
  | .ok n => .ok n
  | .error e => .error (.uncaught e)

abbrev ProcessMap := AList fun _ : UInt64 => Process

structure ProcessIndex where
  mProcessMap : ProcessMap := ∅
  mLRUCache : LRUArray Int32
  mCouldNotFind : Finset UInt64 := ∅

namespace ProcessIndex

/-- `readlink(path, linkRaw, 79)`: the target over the front of the buffer. -/
def readlink (target buf : Bytes) : Bytes := target.take 79 ++ buf.drop (target.take 79).length

/-- The buffer as a `std::string`, which needs a zero byte in it. -/
def linkString (buf : Bytes) : Except Crash Bytes :=
  if (0 : UInt8) ∈ buf then .ok (cstr buf) else .error .overread

/-- The inode a link names, none when it is not a socket. -/
def socketInode (link : Bytes) : Except Crash (Option UInt64) :=
  if (ascii "socket:").isPrefixOf link then
    if link.length < 8 then .error (.uncaught .outOfRange)
    else (stoiOrDie (link.drop 8)).map fun n => some (UInt64.ofInt n.toInt)
  else .ok none

/-- The loop over a file descriptor folder. -/
def scanFds (process : Process) (target : UInt64) :
    List FdEntry → Bytes → ProcessMap → Option Process →
      Except Crash (ProcessMap × Option Process)
  | [], _, m, found => .ok (m, found)
  | entry :: entries, buf, m, found =>
      if entry.isLink then
        match entry.target with
        | none => scanFds process target entries buf m found
        | some text => do
            let buf := readlink text buf
            let link ← linkString buf
            match ← socketInode link with
            | none => scanFds process target entries buf m found
            | some inode =>
                let found := if inode ≠ 0 ∧ inode = target then some process else found
                scanFds process target entries buf (m.insert inode process) found
      else scanFds process target entries buf m found

/-- `processPidDir`: every socket of the process goes into the map. -/
def processPidDir (dir : PidDir) (pid : Int32) (target : UInt64) (m : ProcessMap) :
    Except Crash (ProcessMap × Option Process) :=
  match dir.comm with
  | none => .ok (m, none)
  | some content =>
      match dir.fd with
      | none => .ok (m, none)
      | some entries =>
          let process := { comm := content.takeWhile (· != 10), pid := pid }
          scanFds process target entries dir.linkRaw.toList m none

/-- The loop of `searchCache`; the last component collects the expired pids. -/
def searchCacheLoop (proc : Proc) (target : UInt64) :
    List Int32 → ProcessMap → List Int32 →
      Except Crash (ProcessMap × Option Process × List Int32)
  | [], m, expired => .ok (m, none, expired)
  | pid :: pids, m, expired =>
      if proc.fdExists (pidStr pid) then do
        let (m, found) ← processPidDir (proc.pidDir (pidStr pid)) pid target m
        match found with
        | some process => .ok (m, some process, expired)
        | none => searchCacheLoop proc target pids m expired
      else searchCacheLoop proc target pids m (expired ++ [pid])

/-- `searchCache`: expired pids leave the cache, unless the search returns early. -/
def searchCache (s : ProcessIndex) (proc : Proc) (target : UInt64) :
    Except Crash (ProcessIndex × Option Process) := do
  let (m, found, expired) ← searchCacheLoop proc target s.mLRUCache.mDeque s.mProcessMap []
  match found with
  | some process => .ok ({ s with mProcessMap := m }, some process)
  | none =>
      .ok ({ s with mProcessMap := m, mLRUCache := expired.foldl LRUArray.erase s.mLRUCache }, none)

/-- The pids of the process folders in `/proc` that are not cached, in the order of `readdir`. -/
def uncachedPids (cache : LRUArray Int32) : List ProcEntry → Except Crash (List Int32)
  | [] => .ok []
  | entry :: entries =>
      if entry.isDir && isNumber entry.name then do
        let pid ← stoiOrDie entry.name
        let pids ← uncachedPids cache entries
        .ok (if cache.contains pid then pids else pid :: pids)
      else uncachedPids cache entries

/-- `std::set<pid_t, std::greater<pid_t>>::insert`. -/
def insertSorted (pid : Int32) : List Int32 → List Int32
  | [] => [pid]
  | p :: ps => if p < pid then pid :: p :: ps else if p = pid then p :: ps else p :: insertSorted pid ps

/-- The loop over the sorted pids, left as soon as the target is found. -/
def searchSorted (proc : Proc) (target : UInt64) :
    List Int32 → ProcessMap → Except Crash (ProcessMap × Option Process)
  | [], m => .ok (m, none)
  | pid :: pids, m => do
      let (m, found) ← processPidDir (proc.pidDir (pidStr pid)) pid target m
      match found with
      | some process => .ok (m, some process)
      | none => searchSorted proc target pids m

def search (s : ProcessIndex) (proc : Proc) (target : UInt64) :
    Except Crash (ProcessIndex × Option Process) := do
  let (s, found) ← searchCache s proc target
  match found with
  | some process => .ok (s, some process)
  | none =>
      match proc.entries with
      | none => .error .exit
      | some entries => do
          let pids ← uncachedPids s.mLRUCache entries
          let sorted := pids.foldl (fun ps pid => insertSorted pid ps) []
          let (m, found) ← searchSorted proc target sorted s.mProcessMap
          .ok ({ s with mProcessMap := m }, found)

/-- The loop of `refresh`: every process that is not cached, in the order of `readdir`. -/
def refreshLoop (proc : Proc) : List Int32 → ProcessMap → Except Crash ProcessMap
  | [], m => .ok m
  | pid :: pids, m => do
      let (m, _) ← processPidDir (proc.pidDir (pidStr pid)) pid 0 m
      refreshLoop proc pids m

def refresh (s : ProcessIndex) (proc : Proc) : Except Crash ProcessIndex :=
  match proc.entries with
  | none => .error .exit
  | some entries => do
      let pids ← uncachedPids s.mLRUCache entries
      let m ← refreshLoop proc pids ∅
      .ok { s with mProcessMap := m }

/-- The constructor; the size is converted to `std::size_t`. -/
def init (cacheSize : Int32) (proc : Proc) : Except Crash ProcessIndex :=
  refresh { mLRUCache := { mDeque := [], mSize := (UInt64.ofInt cacheSize.toInt).toNat } } proc

/-- `get`: the process that owns the socket with this inode. -/
def get (s : ProcessIndex) (inode : UInt64) (proc : Proc) :
    Except Crash (Option Process × ProcessIndex) :=
  if inode ∈ s.mCouldNotFind then .ok (none, s)
  else
    match s.mProcessMap.lookup inode with
    | some process => .ok (some process, s)
    | none => do
        let (s, found) ← search s proc inode
        match found with
        | some process =>
            .ok (some process, { s with mLRUCache := s.mLRUCache.update process.pid })
        | none => .ok (none, { s with mCouldNotFind := insert inode s.mCouldNotFind })

/-- The loop of the second thread, every sixty seconds. -/
def clearNotFound (s : ProcessIndex) : ProcessIndex := { s with mCouldNotFind := ∅ }

/-- What can happen to the index after its construction. -/
inductive Action
  | get (inode : UInt64) (proc : Proc)
  | clear

/-- A call that ends the daemon leaves nothing to go on from; the state stays as it was. -/
def step (s : ProcessIndex) : Action → ProcessIndex
  | .get inode proc =>
      match s.get inode proc with
      | .ok (_, s') => s'
      | .error _ => s
  | .clear => s.clearNotFound

end ProcessIndex

end Ntmd
