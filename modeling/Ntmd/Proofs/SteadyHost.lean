/-
A host that does not change, and the process every packet belongs to on it.

`SteadyTables` is about the socket index and `PlainScan` about one search of the
process index.  Here the two are put behind each other, as the resolver does, and the
statement is about a run of it: whatever packets came before and whenever the two
lists were cleared, a packet is attributed to a process that has its socket open, and
to nobody only if there is no such process (`attributed_run`).

Both indexes are caches that remember what they missed, over something that does not
change, so the invariant of each is `MissCache.Settled`.  A key is looked for in the
tables of the packet's protocol only, but the map is filled from all tables; that no
other protocol has a line with the key is what `OwnKey` asks for.
-/
import Ntmd.Lib.MissCache
import Ntmd.Proofs.FolderReads
import Ntmd.Proofs.PlainScan
import Ntmd.Proofs.SteadyTables

namespace Ntmd

open Bytes FirstMatch LoadMap MissCache ProcessIndex Run SocketIndex

/-- A host whose tables and folders stay as they are, and whose links are all terminated. -/
structure Host where
  net : ProcNet
  proc : SteadyProc
  terminated : ∀ pid, Terminated (proc.pidDir (pidStr pid))

namespace Host

variable (host : Host)

/-- The process has the socket with this inode open. -/
def Owns (process : Process) (inode : UInt64) : Prop :=
  ∃ pid, process = processAt host.proc.toProc pid ∧ LinksTo host.proc.toProc pid inode

/-- No process that is listed has the socket open. -/
def Orphan (inode : UInt64) : Prop :=
  ∀ pid ∈ listedPids host.proc.listing, ¬ LinksTo host.proc.toProc pid inode

/-- No line of another protocol's table has this key. -/
def OwnKey (type : PacketType) (key : PacketHash) : Prop :=
  ∀ table, ∀ e ∈ tableEntries host.net table, e.1 = key → table ∈ tablesFor type

end Host

variable {host : Host}

/-! ### The processes -/

namespace ProcessIndex

/-- What the index knows is true of the folders. -/
structure OnHost (host : Host) (s : ProcessIndex) : Prop where
  settled : MissCache.Settled (fun inode process => host.Owns process inode) host.Orphan
    s.mProcessMap s.mCouldNotFind
  nodup : s.mLRUCache.mDeque.Nodup

/-- What a walk over folders reads is what is in them. -/
theorem owns_dirReads {pid : Int32} {l : List (UInt64 × Process)}
    (h : dirReads (host.proc.pidDir (pidStr pid)) pid = .ok l) : ∀ e ∈ l, host.Owns e.2 e.1 := by
  cases hfd : (host.proc.pidDir (pidStr pid)).fd with
  | none =>
      rw [dirReads_of_no_fd hfd] at h
      rw [← Except.ok.inj h]
      exact fun e he => absurd he List.not_mem_nil
  | some entries =>
      rw [dirReads_of_fd hfd] at h
      intro e he
      obtain ⟨hprocess, entry, hentry⟩ :=
        mem_linkReads (host.proc.targets (pidStr pid) entries hfd) h e he
      exact ⟨pid, hprocess, entries, hfd, entry, hentry⟩

theorem owns_searchReads {s : ProcessIndex} {target : UInt64}
    {r : List (UInt64 × Process) × LRUArray Int32}
    (h : searchReads s host.proc.toProc target = .ok r) : ∀ e ∈ r.1, host.Owns e.2 e.1 := by
  intro e he
  obtain ⟨pid, l, hdir, hmem⟩ := readFrom_searchReads h e he
  exact owns_dirReads hdir e hmem

/-- The answer for an inode on the host. -/
def Answers (host : Host) (inode : UInt64) : Option Process → Prop
  | some process => host.Owns process inode
  | none => host.Orphan inode

/-- **A search on the host returns, and what it returns is true.** -/
theorem get_onHost {s : ProcessIndex} (h : s.OnHost host) {inode : UInt64} (h0 : inode ≠ 0) :
    ∃ answer s', s.get inode host.proc.toProc = .ok (answer, s') ∧ Answers host inode answer ∧
      s'.OnHost host := by
  by_cases hmissed : inode ∈ s.mCouldNotFind
  · rw [get_of_missed hmissed]
    exact ⟨none, s, rfl, h.settled.missed inode hmissed, h⟩
  cases hlookup : s.mProcessMap.lookup inode with
  | some process =>
      rw [get_of_known hmissed hlookup]
      exact ⟨some process, s, rfl, h.settled.known inode process hlookup, h⟩
  | none =>
      obtain ⟨r, owner, hreads, hfirst, hfound, -, -⟩ :=
        (searchReads_spec h0 h.nodup).1 fun pid _ => host.terminated pid
      have howns := owns_searchReads hreads
      have hnodup := nodup_of_searchReads h.nodup hreads
      rw [ProcessIndex.get_of_unknown hmissed hlookup, hreads]
      simp only [hfound]
      cases owner with
      | some pid =>
          exact ⟨_, _, rfl, ⟨pid, rfl, hfirst.1⟩,
            ⟨h.settled.load howns, LRUArray.nodup_update hnodup _⟩⟩
      | none =>
          have horphan : host.Orphan inode := by
            intro pid hpid
            refine hfirst pid ?_
            by_cases hcached : pid ∈ s.mLRUCache.mDeque
            · exact List.mem_append_left _ hcached
            · exact List.mem_append_right _ (mem_descending.mpr
                (List.mem_filter.mpr ⟨hpid, by simp [hcached]⟩))
          exact ⟨_, _, rfl, horphan, ⟨(h.settled.load howns).remember horphan, hnodup⟩⟩

/-- The first scan reads every folder. -/
theorem refreshLoop_onHost : ∀ (pids : List Int32) {m : ProcessMap},
    MissCache.Settled (fun inode process => host.Owns process inode) host.Orphan m ∅ →
      ∃ m', refreshLoop host.proc.toProc pids m = .ok m' ∧
        MissCache.Settled (fun inode process => host.Owns process inode) host.Orphan m' ∅ := by
  intro pids
  induction pids with
  | nil => intro m h; exact ⟨m, rfl, h⟩
  | cons pid pids ih =>
      intro m h
      obtain ⟨l, hl, -⟩ := dirReads_of_terminated (show (1 : UInt64) ≠ 0 by decide) (host.terminated pid)
      obtain ⟨m', hm', hsettled⟩ := ih (h.load (owns_dirReads hl))
      refine ⟨m', ?_, hsettled⟩
      rw [refreshLoop, processPidDir_eq, hl]
      exact hm'

theorem init_onHost (host : Host) (cacheSize : Int32) :
    ∃ s, init cacheSize host.proc.toProc = .ok s ∧ s.OnHost host := by
  have hpids := uncachedPids_eq
    { mDeque := [], mSize := (UInt64.ofInt cacheSize.toInt).toNat } host.proc.names
  obtain ⟨m, hm, hsettled⟩ := @refreshLoop_onHost host ((listedPids host.proc.listing).filter
    fun pid => pid ∉ ([] : List Int32)) _ settled_empty
  refine ⟨{ mProcessMap := m,
            mLRUCache := { mDeque := [], mSize := (UInt64.ofInt cacheSize.toInt).toNat } },
    ?_, ⟨hsettled, List.nodup_nil⟩⟩
  rw [init, refresh, host.proc.entries_eq]
  simp only [bind, Except.bind]
  rw [hpids]
  simp only
  rw [hm]

end ProcessIndex

/-! ### The sockets -/

namespace SocketIndex

/-- What the index knows of a key is true of the tables of the key's protocol, when no other
protocol's table has a line with it. -/
def OnHost (host : Host) (types : PacketHash → PacketType) (s : SocketIndex) : Prop :=
  MissCache.Settled
    (fun key inode => host.OwnKey (types key) key → (key, inode) ∈ linesFor host.net (types key))
    (fun key => host.OwnKey (types key) key → ∀ e ∈ linesFor host.net (types key), e.1 ≠ key)
    s.mSocketMap s.mCouldNotFind

variable {types : PacketHash → PacketType}

/-- Whichever tables are read. -/
theorem mem_linesFor {tables : List ProcNetTable} :
    ∀ e ∈ tables.flatMap (tableEntries host.net), host.OwnKey (types e.1) e.1 →
      e ∈ linesFor host.net (types e.1) := by
  intro e he hown
  obtain ⟨table, -, htable⟩ := List.mem_flatMap.mp he
  exact List.mem_flatMap.mpr ⟨table, hown table e htable rfl, htable⟩

theorem init_onHost (host : Host) (types : PacketHash → PacketType) :
    (init host.net).OnHost host types := by
  rw [init, refresh_eq]
  exact settled_empty.load mem_linesFor

theorem inode_ne_zero_of_mem {type : PacketType} {key : PacketHash} {inode : UInt64}
    (h : (key, inode) ∈ linesFor host.net type) : inode ≠ 0 := by
  obtain ⟨table, -, htable⟩ := List.mem_flatMap.mp h
  exact inode_ne_zero htable

/-- **A packet is answered with the inode of one of its lines, or with zero if it has none.** -/
theorem get_onHost {s : SocketIndex} (h : s.OnHost host types) {pkt : Packet}
    (htype : types (PacketHash.ofPacket pkt) = pkt.type) :
    (s.get pkt host.net).2.OnHost host types ∧
      (host.OwnKey pkt.type (PacketHash.ofPacket pkt) →
        (PacketHash.ofPacket pkt, (s.get pkt host.net).1) ∈ linesFor host.net pkt.type ∨
          ((s.get pkt host.net).1 = 0 ∧
            ∀ e ∈ linesFor host.net pkt.type, e.1 ≠ PacketHash.ofPacket pkt)) := by
  have ⟨hknown, hmiss⟩ := h
  by_cases hmissed : PacketHash.ofPacket pkt ∈ s.mCouldNotFind
  · rw [get_of_missed hmissed]
    exact ⟨h, fun hown => Or.inr ⟨rfl, htype ▸ hmiss _ hmissed (htype ▸ hown)⟩⟩
  cases hlookup : s.mSocketMap.lookup (PacketHash.ofPacket pkt) with
  | some inode =>
      rw [get_of_known hmissed hlookup]
      exact ⟨h, fun hown => Or.inl (htype ▸ hknown _ inode hlookup (htype ▸ hown))⟩
  | none =>
      by_cases htables : tablesFor pkt.type = []
      · rw [get_of_no_tables hmissed hlookup htables]
        refine ⟨h, fun _ => Or.inr ⟨rfl, fun e he => ?_⟩⟩
        rw [linesFor, htables] at he
        exact absurd he List.not_mem_nil
      have hloaded : (s.refresh (tablesFor pkt.type) host.net).OnHost host types := by
        rw [refresh_eq]
        exact Settled.load h mem_linesFor
      have hread : (s.refresh (tablesFor pkt.type) host.net).mSocketMap =
          load s.mSocketMap (linesFor host.net pkt.type) := by
        rw [refresh_eq]
        rfl
      rw [SocketIndex.get_of_unknown hmissed hlookup htables]
      cases hfound : (s.refresh (tablesFor pkt.type) host.net).mSocketMap.lookup
          (PacketHash.ofPacket pkt) with
      | some inode =>
          exact ⟨hloaded, fun hown =>
            Or.inl (htype ▸ hloaded.known _ inode hfound (htype ▸ hown))⟩
      | none =>
          have hnone : ∀ e ∈ linesFor host.net pkt.type, e.1 ≠ PacketHash.ofPacket pkt := by
            rw [hread, lookup_load, hlookup, Option.or_none] at hfound
            exact last_eq_none_iff.mp hfound
          refine ⟨?_, fun _ => Or.inr ⟨rfl, hnone⟩⟩
          rw [OnHost, ← refresh_mCouldNotFind s (tablesFor pkt.type) host.net]
          exact Settled.remember hloaded fun _ => htype.symm ▸ hnone

end SocketIndex

/-! ### The resolver -/

/-- The process that a packet belongs to: one that has a socket of the packet's line open, or the
placeholder when there is no line, or nobody has the line's socket open. -/
inductive Host.Attributes (host : Host) (pkt : Packet) : Process → Prop
  | owner {process : Process} {inode : UInt64}
      (line : (PacketHash.ofPacket pkt, inode) ∈ linesFor host.net pkt.type)
      (owns : host.Owns process inode) : Attributes host pkt process
  | noLine (none : ∀ e ∈ linesFor host.net pkt.type, e.1 ≠ PacketHash.ofPacket pkt) :
      Attributes host pkt ProcessResolver.mUnknownProcess
  | orphan {inode : UInt64}
      (line : (PacketHash.ofPacket pkt, inode) ∈ linesFor host.net pkt.type)
      (orphan : host.Orphan inode) : Attributes host pkt ProcessResolver.mUnknownProcess

namespace ProcessResolver

structure OnHost (host : Host) (types : PacketHash → PacketType) (s : ProcessResolver) : Prop where
  sockets : s.mSocketIndex.OnHost host types
  processes : s.mProcessIndex.OnHost host

variable {types : PacketHash → PacketType} {s : ProcessResolver}

/-- **On the host every packet is resolved, and to a process it belongs to.** -/
theorem resolve_onHost (h : s.OnHost host types) {pkt : Packet}
    (htype : types (PacketHash.ofPacket pkt) = pkt.type) :
    ∃ process s', s.resolve pkt host.net host.proc.toProc = .ok (process, s') ∧
      s'.OnHost host types ∧
      (host.OwnKey pkt.type (PacketHash.ofPacket pkt) → host.Attributes pkt process) := by
  obtain ⟨hsockets, hline⟩ := SocketIndex.get_onHost h.sockets htype
  rcases hget : s.mSocketIndex.get pkt host.net with ⟨inode, sockets⟩
  rw [hget] at hsockets hline
  simp only at hsockets hline
  unfold resolve
  rw [hget]
  simp only
  by_cases h0 : inode = 0
  · rw [if_pos h0]
    refine ⟨_, _, rfl, ⟨hsockets, h.processes⟩, fun hown => ?_⟩
    rcases hline hown with hmem | ⟨-, hnone⟩
    · exact absurd h0 (inode_ne_zero_of_mem hmem)
    · exact .noLine hnone
  · obtain ⟨answer, processes, hanswer, htrue, hprocesses⟩ :=
      ProcessIndex.get_onHost h.processes h0
    rw [if_neg h0, hanswer]
    have hmem : host.OwnKey pkt.type (PacketHash.ofPacket pkt) →
        (PacketHash.ofPacket pkt, inode) ∈ linesFor host.net pkt.type := fun hown => by
      rcases hline hown with hmem | ⟨hzero, -⟩
      · exact hmem
      · exact absurd hzero h0
    cases answer with
    | some process =>
        exact ⟨_, _, rfl, ⟨hsockets, hprocesses⟩, fun hown => .owner (hmem hown) htrue⟩
    | none => exact ⟨_, _, rfl, ⟨hsockets, hprocesses⟩, fun hown => .orphan (hmem hown) htrue⟩

/-- The packets of a run. -/
def packetsOf (as : List Action) : List Packet :=
  as.filterMap fun
    | .resolve pkt _ _ => some pkt
    | _ => none

/-- What a call sees is the host. -/
def SeenOn (host : Host) : Action → Prop
  | .resolve _ net proc => net = host.net ∧ proc = host.proc.toKernelProc
  | _ => True

/-- The call returns a process that the packet belongs to. -/
def Attributed (host : Host) (s : ProcessResolver) : Action → Prop
  | .resolve pkt net proc =>
      ∃ process s', s.resolve pkt net proc.toProc = .ok (process, s') ∧
        (host.OwnKey pkt.type (PacketHash.ofPacket pkt) → host.Attributes pkt process)
  | _ => True

theorem step_onHost (h : s.OnHost host types) {a : Action} (ha : SeenOn host a)
    (htypes : ∀ pkt ∈ packetsOf [a], types (PacketHash.ofPacket pkt) = pkt.type) :
    (s.step a).OnHost host types ∧ s.Attributed host a := by
  cases a with
  | resolve pkt net proc =>
      obtain ⟨rfl, rfl⟩ := ha
      obtain ⟨process, s', hresolve, hs', hprocess⟩ :=
        resolve_onHost h (htypes pkt (List.mem_singleton.mpr rfl))
      refine ⟨?_, process, s', hresolve, hprocess⟩
      rw [step, hresolve]
      exact hs'
  | clearSockets => exact ⟨⟨Settled.forget h.sockets, h.processes⟩, trivial⟩
  | clearProcesses =>
      exact ⟨⟨h.sockets, ⟨h.processes.settled.forget, h.processes.nodup⟩⟩, trivial⟩

/-- Keys that are used by one protocol each. -/
theorem exists_types {packets : List Packet}
    (h : ∀ p ∈ packets, ∀ q ∈ packets, PacketHash.ofPacket p = PacketHash.ofPacket q →
      p.type = q.type) :
    ∃ types : PacketHash → PacketType, ∀ p ∈ packets, types (PacketHash.ofPacket p) = p.type := by
  refine ⟨fun key => ((packets.find? fun p => PacketHash.ofPacket p = key).map (·.type)).getD
    .unknown, fun p hp => ?_⟩
  cases hfind : packets.find? fun q => PacketHash.ofPacket q = PacketHash.ofPacket p with
  | none => exact absurd (List.find?_eq_none.mp hfind p hp) (by simp)
  | some q =>
      have hkey : PacketHash.ofPacket q = PacketHash.ofPacket p := by
        simpa using List.find?_some hfind
      simp only [hfind, Option.map_some, Option.getD_some]
      exact h q (List.mem_of_find?_eq_some hfind) p hp hkey

theorem along_onHost : ∀ {as : List Action} {s : ProcessResolver}, s.OnHost host types →
    (∀ a ∈ as, SeenOn host a) →
      (∀ pkt ∈ packetsOf as, types (PacketHash.ofPacket pkt) = pkt.type) →
        Along step (Attributed host) s as := by
  intro as
  induction as with
  | nil => intro s _ _ _; exact trivial
  | cons a as ih =>
      intro s h hseen htypes
      obtain ⟨ha, has⟩ := List.forall_mem_cons.mp hseen
      have hpackets : packetsOf (a :: as) = packetsOf [a] ++ packetsOf as :=
        List.filterMap_append (l := [a])
      rw [hpackets] at htypes
      obtain ⟨hone, hrest⟩ := List.forall_mem_append.mp htypes
      obtain ⟨hnext, hattributed⟩ := step_onHost h ha hone
      exact ⟨hattributed, ih hnext has hrest⟩

/--
**On a host that stays as it is, every packet of every run is attributed to a process that has the
socket of its line open**, and to the placeholder only if there is none.  The indexes can be made,
and no call ends the daemon.
-/
theorem attributed_run (host : Host) (cacheSize : Int32) (as : List Action)
    (hseen : ∀ a ∈ as, SeenOn host a)
    (hsame : ∀ p ∈ packetsOf as, ∀ q ∈ packetsOf as,
      PacketHash.ofPacket p = PacketHash.ofPacket q → p.type = q.type) :
    ∃ processes, ProcessIndex.init cacheSize host.proc.toProc = .ok processes ∧
      Along step (Attributed host)
        { mSocketIndex := SocketIndex.init host.net, mProcessIndex := processes } as := by
  obtain ⟨processes, hinit, hprocesses⟩ := ProcessIndex.init_onHost host cacheSize
  obtain ⟨types, htypes⟩ := exists_types hsame
  exact ⟨processes, hinit,
    along_onHost ⟨SocketIndex.init_onHost host types, hprocesses⟩ hseen htypes⟩

/-- A host with one connection, whose socket two processes share. -/
def sharedConnection : Host where
  net := connection "100"
  proc := ProcessIndex.shortPath
  terminated pid entries _ text _ := by
    refine ⟨79, List.length_take_le 79 text, ?_⟩
    show (Vector.replicate 80 (0 : UInt8)).toList[79]? = some 0
    decide

theorem attributed_run_shared :
    ∃ processes, ProcessIndex.init 5 sharedConnection.proc.toProc = .ok processes ∧
      Along step (Attributed sharedConnection)
        { mSocketIndex := SocketIndex.init sharedConnection.net, mProcessIndex := processes }
        [.resolve connectionPacket sharedConnection.net sharedConnection.proc.toKernelProc,
          .clearProcesses, .clearSockets,
          .resolve connectionPacket sharedConnection.net sharedConnection.proc.toKernelProc] := by
  refine attributed_run sharedConnection 5 _ ?_ ?_
  · intro a ha
    simp only [List.mem_cons, List.not_mem_nil, or_false] at ha
    rcases ha with rfl | rfl | rfl | rfl
    · exact ⟨rfl, rfl⟩
    · exact trivial
    · exact trivial
    · exact ⟨rfl, rfl⟩
  · intro p hp q hq _
    rcases List.mem_pair.mp hp with rfl | rfl <;> rcases List.mem_pair.mp hq with rfl | rfl <;> rfl

end ProcessResolver

end Ntmd
