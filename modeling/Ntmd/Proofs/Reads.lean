/-
What the two indexes read, and that reading is all that fills them.

Each refresh and each scan is a loop that writes into a map as it goes, and stops
early once it has found what it was called for.  Here the reading is separated from
the writing: a pure function lists the entries that are read, in order, and the map
afterwards is the map before with those entries loaded (`refresh_eq`, `search_eq`).
Everything said later about where an answer came from is said about these lists.
-/
import Ntmd.Lib.LoadMap
import Ntmd.Proc.ProcessResolver

namespace Ntmd

open LoadMap

/-! ### The socket tables -/

namespace SocketIndex

/-- The entries a table's lines hold, its header line skipped. -/
def tableEntries (net : ProcNet) (table : ProcNetTable) : List (PacketHash × UInt64) :=
  match net table with
  | none => []
  | some lines => (lines.drop 1).filterMap (lineEntry table)

/-- The lines of the tables that a packet of this type is looked for in. -/
def linesFor (net : ProcNet) (type : PacketType) : List (PacketHash × UInt64) :=
  (tablesFor type).flatMap (tableEntries net)

theorem foldl_refreshLine (table : ProcNetTable) : ∀ (lines : List Bytes) (m : SocketMap),
    lines.foldl (refreshLine table) m = load m (lines.filterMap (lineEntry table)) := by
  intro lines
  induction lines with
  | nil => intro m; rfl
  | cons line lines ih =>
      intro m
      rw [List.foldl_cons, ih, List.filterMap_cons, refreshLine]
      cases lineEntry table line <;> rfl

theorem refreshTable_eq (net : ProcNet) (s : SocketIndex) (table : ProcNetTable) :
    refreshTable net s table
      = { s with mSocketMap := load s.mSocketMap (tableEntries net table) } := by
  unfold refreshTable tableEntries
  cases net table with
  | none => rfl
  | some lines => simp only [foldl_refreshLine]

theorem refresh_eq (net : ProcNet) : ∀ (tables : List ProcNetTable) (s : SocketIndex),
    s.refresh tables net
      = { s with mSocketMap := load s.mSocketMap (tables.flatMap (tableEntries net)) } := by
  intro tables
  induction tables with
  | nil => intro s; rfl
  | cons table tables ih =>
      intro s
      have hcons : s.refresh (table :: tables) net = (refreshTable net s table).refresh tables net :=
        rfl
      rw [hcons, ih, refreshTable_eq, List.flatMap_cons, load_append]

theorem refresh_mCouldNotFind (s : SocketIndex) (tables : List ProcNetTable) (net : ProcNet) :
    (s.refresh tables net).mCouldNotFind = s.mCouldNotFind := by
  rw [refresh_eq]

/-- The answer for a packet whose key is neither missed nor known. -/
theorem get_of_unknown {s : SocketIndex} {pkt : Packet} {net : ProcNet}
    (hmissed : PacketHash.ofPacket pkt ∉ s.mCouldNotFind)
    (hunknown : s.mSocketMap.lookup (PacketHash.ofPacket pkt) = none)
    (htables : tablesFor pkt.type ≠ []) :
    s.get pkt net =
      match (s.refresh (tablesFor pkt.type) net).mSocketMap.lookup (PacketHash.ofPacket pkt) with
      | some inode => (inode, s.refresh (tablesFor pkt.type) net)
      | none =>
          (0, { s.refresh (tablesFor pkt.type) net with
            mCouldNotFind := insert (PacketHash.ofPacket pkt) s.mCouldNotFind }) := by
  rw [get, if_neg hmissed, hunknown]
  cases h : tablesFor pkt.type with
  | nil => exact absurd h htables
  | cons table tables =>
      cases hfound : (s.refresh (table :: tables) net).mSocketMap.lookup (PacketHash.ofPacket pkt) with
      | some inode => simp only [hfound]
      | none => simp only [hfound, refresh_mCouldNotFind]

/-- The answer for every other packet changes nothing. -/
theorem get_of_known {s : SocketIndex} {pkt : Packet} {net : ProcNet} {inode : UInt64}
    (hmissed : PacketHash.ofPacket pkt ∉ s.mCouldNotFind)
    (hknown : s.mSocketMap.lookup (PacketHash.ofPacket pkt) = some inode) :
    s.get pkt net = (inode, s) := by
  rw [get, if_neg hmissed, hknown]

theorem get_of_missed {s : SocketIndex} {pkt : Packet} {net : ProcNet}
    (hmissed : PacketHash.ofPacket pkt ∈ s.mCouldNotFind) : s.get pkt net = (0, s) := by
  rw [get, if_pos hmissed]

theorem get_of_no_tables {s : SocketIndex} {pkt : Packet} {net : ProcNet}
    (hmissed : PacketHash.ofPacket pkt ∉ s.mCouldNotFind)
    (hunknown : s.mSocketMap.lookup (PacketHash.ofPacket pkt) = none)
    (htables : tablesFor pkt.type = []) : s.get pkt net = (0, s) := by
  rw [get, if_neg hmissed, hunknown, htables]

end SocketIndex

/-! ### The process folders -/

namespace ProcessIndex

/-- The sockets a process's links name, as far as the loop over them gets. -/
def linkReads (process : Process) : List FdEntry → Bytes → Except Crash (List (UInt64 × Process))
  | [], _ => .ok []
  | entry :: entries, buf =>
      if entry.isLink then
        match entry.target with
        | none => linkReads process entries buf
        | some text =>
            match (linkString (readlink text buf)).bind socketInode with
            | .error e => .error e
            | .ok none => linkReads process entries (readlink text buf)
            | .ok (some inode) =>
                (linkReads process entries (readlink text buf)).map ((inode, process) :: ·)
      else linkReads process entries buf

/-- The process found, if its socket is among those read; inode zero is never found. -/
def foundIn (target : UInt64) (l : List (UInt64 × Process)) : Option Process :=
  if target = 0 then none else last l target

theorem foundIn_cons (target inode : UInt64) (process : Process) (l : List (UInt64 × Process)) :
    foundIn target ((inode, process) :: l) =
      (foundIn target l).or (if inode ≠ 0 ∧ inode = target then some process else none) := by
  unfold foundIn
  by_cases h0 : target = 0
  · subst h0
    by_cases hi : inode = 0 <;> simp [hi]
  · rw [if_neg h0, if_neg h0, last_cons]
    by_cases hi : inode = target
    · have hne : inode ≠ 0 := fun h => h0 (hi ▸ h)
      simp [hi, hi ▸ hne]
    · simp [hi]

theorem foundIn_append (target : UInt64) (l l' : List (UInt64 × Process)) :
    foundIn target (l ++ l') = (foundIn target l').or (foundIn target l) := by
  unfold foundIn
  by_cases h0 : target = 0
  · simp [h0]
  · rw [if_neg h0, if_neg h0, if_neg h0, last_append]

theorem scanFds_eq (process : Process) (target : UInt64) :
    ∀ (entries : List FdEntry) (buf : Bytes) (m : ProcessMap) (found : Option Process),
      scanFds process target entries buf m found =
        (linkReads process entries buf).map fun l => (load m l, (foundIn target l).or found) := by
  intro entries
  induction entries with
  | nil => intro buf m found; simp [scanFds, linkReads, Except.map, foundIn, last]
  | cons entry entries ih =>
      intro buf m found
      rw [scanFds, linkReads]
      split
      · cases entry.target with
        | none => exact ih buf m found
        | some text =>
            simp only
            cases hlink : linkString (readlink text buf) with
            | error e => rfl
            | ok link =>
                simp only [bind, Except.bind]
                cases hinode : socketInode link with
                | error e => rfl
                | ok inode =>
                    cases inode with
                    | none => exact ih _ m found
                    | some inode =>
                        simp only
                        rw [ih]
                        cases linkReads process entries (readlink text buf) with
                        | error e => rfl
                        | ok l =>
                            simp only [Except.map, load_cons, foundIn_cons, Option.or_assoc]
                            congr 3
                            split <;> rfl
      · exact ih buf m found

/-- The process a folder describes: the first line of `comm`, and the pid. -/
def processOf (content : Bytes) (pid : Int32) : Process :=
  { comm := content.takeWhile (· != 10), pid := pid }

/-- The sockets read from one process's folder, none when it has gone. -/
def dirReads (dir : PidDir) (pid : Int32) : Except Crash (List (UInt64 × Process)) :=
  match dir.comm, dir.fd with
  | some content, some entries => linkReads (processOf content pid) entries dir.linkRaw.toList
  | _, _ => .ok []

theorem processPidDir_eq (dir : PidDir) (pid : Int32) (target : UInt64) (m : ProcessMap) :
    processPidDir dir pid target m =
      (dirReads dir pid).map fun l => (load m l, foundIn target l) := by
  have hempty : foundIn target [] = none := by simp [foundIn, last]
  unfold processPidDir dirReads
  cases dir.comm with
  | none => simp [Except.map, hempty]
  | some content =>
      cases dir.fd with
      | none => simp [Except.map, hempty]
      | some entries => simp only [scanFds_eq, Option.or_none, processOf]

/-- What a walk over process folders reads, ending with the folder that has the target. -/
def sortedReads (proc : Proc) (target : UInt64) :
    List Int32 → Except Crash (List (UInt64 × Process))
  | [] => .ok []
  | pid :: pids =>
      match dirReads (proc.pidDir (pidStr pid)) pid with
      | .error e => .error e
      | .ok l =>
          if (foundIn target l).isSome then .ok l
          else (sortedReads proc target pids).map (l ++ ·)

theorem searchSorted_eq (proc : Proc) (target : UInt64) : ∀ (pids : List Int32) (m : ProcessMap),
    searchSorted proc target pids m =
      (sortedReads proc target pids).map fun l => (load m l, foundIn target l) := by
  intro pids
  induction pids with
  | nil => intro m; simp [searchSorted, sortedReads, Except.map, foundIn, last]
  | cons pid pids ih =>
      intro m
      rw [searchSorted, sortedReads, processPidDir_eq]
      cases dirReads (proc.pidDir (pidStr pid)) pid with
      | error e => rfl
      | ok l =>
          simp only [Except.map, bind, Except.bind]
          cases hfound : foundIn target l with
          | some process => simp [hfound]
          | none =>
              simp only [ih, Option.isSome_none, Bool.false_eq_true, if_false]
              cases sortedReads proc target pids with
              | error e => rfl
              | ok l' => simp [Except.map, load_append, foundIn_append, hfound]

/-- What a walk over the cached pids reads, and the pids it finds expired. -/
def cacheReads (proc : Proc) (target : UInt64) :
    List Int32 → Except Crash (List (UInt64 × Process) × List Int32)
  | [] => .ok ([], [])
  | pid :: pids =>
      if proc.fdExists (pidStr pid) then
        match dirReads (proc.pidDir (pidStr pid)) pid with
        | .error e => .error e
        | .ok l =>
            if (foundIn target l).isSome then .ok (l, [])
            else (cacheReads proc target pids).map fun r => (l ++ r.1, r.2)
      else (cacheReads proc target pids).map fun r => (r.1, pid :: r.2)

theorem searchCacheLoop_eq (proc : Proc) (target : UInt64) :
    ∀ (pids : List Int32) (m : ProcessMap) (expired : List Int32),
      searchCacheLoop proc target pids m expired =
        (cacheReads proc target pids).map fun r =>
          (load m r.1, foundIn target r.1, expired ++ r.2) := by
  intro pids
  induction pids with
  | nil => intro m expired; simp [searchCacheLoop, cacheReads, Except.map, foundIn, last]
  | cons pid pids ih =>
      intro m expired
      rw [searchCacheLoop, cacheReads]
      split
      · rw [processPidDir_eq]
        cases dirReads (proc.pidDir (pidStr pid)) pid with
        | error e => rfl
        | ok l =>
            simp only [Except.map, bind, Except.bind]
            cases hfound : foundIn target l with
            | some process => simp [hfound]
            | none =>
                simp only [ih, Option.isSome_none, Bool.false_eq_true, if_false]
                cases cacheReads proc target pids with
                | error e => rfl
                | ok r => simp [Except.map, load_append, foundIn_append, hfound]
      · rw [ih]
        cases cacheReads proc target pids with
        | error e => rfl
        | ok r => simp [Except.map]

/-- What a search reads, and the cache it leaves. -/
def searchReads (s : ProcessIndex) (proc : Proc) (target : UInt64) :
    Except Crash (List (UInt64 × Process) × LRUArray Int32) :=
  match cacheReads proc target s.mLRUCache.mDeque with
  | .error e => .error e
  | .ok r =>
      if (foundIn target r.1).isSome then .ok (r.1, s.mLRUCache)
      else
        match proc.entries with
        | none => .error .exit
        | some entries =>
            match uncachedPids (r.2.foldl LRUArray.erase s.mLRUCache) entries with
            | .error e => .error e
            | .ok pids =>
                (sortedReads proc target (pids.foldl (fun ps pid => insertSorted pid ps) [])).map
                  fun l => (r.1 ++ l, r.2.foldl LRUArray.erase s.mLRUCache)

/-- **A search loads what it reads, and finds the target if it has read it.** -/
theorem search_eq (s : ProcessIndex) (proc : Proc) (target : UInt64) :
    s.search proc target = (searchReads s proc target).map fun r =>
      ({ s with mProcessMap := load s.mProcessMap r.1, mLRUCache := r.2 },
        foundIn target r.1) := by
  rw [search, searchCache, searchReads, searchCacheLoop_eq]
  cases cacheReads proc target s.mLRUCache.mDeque with
  | error e => rfl
  | ok r =>
      simp only [Except.map, bind, Except.bind, List.nil_append]
      cases hfound : foundIn target r.1 with
      | some process => simp [hfound]
      | none =>
          simp only [Option.isSome_none, Bool.false_eq_true, if_false]
          cases proc.entries with
          | none => rfl
          | some entries =>
              simp only
              cases uncachedPids (r.2.foldl LRUArray.erase s.mLRUCache) entries with
              | error e => rfl
              | ok pids =>
                  simp only [searchSorted_eq]
                  cases sortedReads proc target
                      (pids.foldl (fun ps pid => insertSorted pid ps) []) with
                  | error e => rfl
                  | ok l => simp [Except.map, load_append, foundIn_append, hfound]

/-- The answer for an inode that is neither missed nor known. -/
theorem get_of_unknown {s : ProcessIndex} {inode : UInt64} {proc : Proc}
    (hmissed : inode ∉ s.mCouldNotFind) (hunknown : s.mProcessMap.lookup inode = none) :
    s.get inode proc =
      match searchReads s proc inode with
      | .error e => .error e
      | .ok r =>
          match foundIn inode r.1 with
          | some process =>
              .ok (some process,
                { mProcessMap := load s.mProcessMap r.1
                  mLRUCache := r.2.update process.pid
                  mCouldNotFind := s.mCouldNotFind })
          | none =>
              .ok (none,
                { mProcessMap := load s.mProcessMap r.1
                  mLRUCache := r.2
                  mCouldNotFind := insert inode s.mCouldNotFind }) := by
  rw [get, if_neg hmissed, hunknown]
  simp only [search_eq]
  cases searchReads s proc inode with
  | error e => rfl
  | ok r =>
      cases hfound : foundIn inode r.1 with
      | some process => simp only [Except.map, bind, Except.bind, hfound]
      | none => simp only [Except.map, bind, Except.bind, hfound]

theorem get_of_known {s : ProcessIndex} {inode : UInt64} {proc : Proc} {process : Process}
    (hmissed : inode ∉ s.mCouldNotFind) (hknown : s.mProcessMap.lookup inode = some process) :
    s.get inode proc = .ok (some process, s) := by
  rw [get, if_neg hmissed, hknown]

theorem get_of_missed {s : ProcessIndex} {inode : UInt64} {proc : Proc}
    (hmissed : inode ∈ s.mCouldNotFind) : s.get inode proc = .ok (none, s) := by
  rw [get, if_pos hmissed]

end ProcessIndex

end Ntmd
