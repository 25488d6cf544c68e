/-
The process a packet is attributed to.

An answer goes through two caches, each filled from `/proc` at another time.  What a
cache reads during the call itself is true at the call (`hasLine_of_miss`,
`linksTo_of_miss`), so a wrong owner can only come from an entry that was there
before and has gone stale since.
-/
import Ntmd.Lib.CInt
import Ntmd.Lib.Run
import Ntmd.Proofs.Reads

namespace Ntmd

open Bytes LoadMap Run Scanf

/-! ### Reading a link -/

namespace ProcessIndex

/-- The buffer begins with the link. -/
theorem getElem?_readlink {text buf : Bytes} {i : Nat} {c : UInt8} (hi : i < 79)
    (h : text[i]? = some c) : (readlink text buf)[i]? = some c := by
  obtain ⟨hlt, hc⟩ := List.getElem?_eq_some_iff.mp h
  rw [readlink, List.getElem?_append_left (by simp; omega), List.getElem?_take_of_lt hi, h]

/-- A text that begins like a socket's has the bytes of it. -/
theorem getElem?_of_isPrefixOf {buf : Bytes} (h : (ascii "socket:").isPrefixOf (cstr buf) = true)
    {i : Nat} (hi : i < 7) : buf[i]? = (ascii "socket:")[i]? := by
  obtain ⟨t, ht⟩ := (List.isPrefixOf_iff_prefix.mp h).trans (List.takeWhile_prefix _)
  have hlen : (ascii "socket:").length = 7 := by decide
  rw [← ht, List.getElem?_append_left (by omega)]

theorem zero_not_mem_socketTarget (n : UInt64) : (0 : UInt8) ∉ socketTarget n := by
  have hdecimal : (0 : UInt8) ∉ decimal n.toNat := fun h0 =>
    absurd (isDigit_of_mem_decimal h0) (by decide)
  simp only [socketTarget, List.mem_append, hdecimal, false_or]
  decide

theorem length_socketTarget_le (n : UInt64) : (socketTarget n).length ≤ 79 := by
  have hdecimal := decimal_length_le n.toNat_lt
  have hopen : (ascii "socket:[").length = 8 := by decide
  have hclose : (ascii "]").length = 1 := by decide
  simp only [socketTarget, List.length_append, hopen, hclose]
  omega

/-- `std::stoi` on what follows the bracket. -/
theorem stoi_decimal {n : UInt64} {rest : Bytes} {i : Int32}
    (h : stoi (decimal n.toNat ++ (93 :: rest)) = .ok i) : UInt64.ofInt i.toInt = n := by
  rw [stoi, readDec_digits (decimal_ne_nil _) (fun c => isDigit_of_mem_decimal)
    (stops_cons.mpr (by decide)), value_decimal] at h
  simp only at h
  split at h
  · rename_i hfits
    rw [← Except.ok.inj h, (CInt.int32_ofInt_eq_iff _).mpr hfits]
    exact CInt.uint64_ofInt_toNat n
  · exact absurd h (by simp)

/-- What is read from a link to a socket: the inode, unless it is too large for an `int`. -/
theorem socketInode_socketTarget {n inode : UInt64} {buf : Bytes}
    (h : (linkString (readlink (socketTarget n) buf)).bind socketInode = .ok (some inode)) :
    inode = n := by
  have htake : (socketTarget n).take 79 = socketTarget n :=
    List.take_of_length_le (length_socketTarget_le n)
  unfold linkString at h
  rw [readlink, htake, cstr_append (zero_not_mem_socketTarget n)] at h
  generalize cstr (buf.drop (socketTarget n).length) = rest at h
  have hdrop : (socketTarget n ++ rest).drop 8 = decimal n.toNat ++ (93 :: rest) := by
    have hopen : (ascii "socket:[").length = 8 := by decide
    rw [socketTarget, List.append_assoc, ← hopen, List.drop_left, List.append_assoc]
    rfl
  split at h
  · simp only [Except.bind, socketInode, hdrop] at h
    split at h
    · split at h
      · exact absurd h (by simp)
      · unfold stoiOrDie at h
        cases hstoi : stoi (decimal n.toNat ++ (93 :: rest)) with
        | error e =>
            rw [hstoi] at h
            exact absurd h (by simp [Except.map])
        | ok i =>
            rw [hstoi] at h
            have hinode := Option.some.inj (Except.ok.inj h)
            rw [← hinode, stoi_decimal hstoi]
    · exact absurd h (by simp)
  · exact absurd h (by simp [Except.bind])

/-- **A socket's inode is read from a link to that socket only.** -/
theorem target_of_socketInode {text buf : Bytes} {inode : UInt64}
    (htext : (∃ n, text = socketTarget n) ∨ IsOtherTarget text)
    (h : (linkString (readlink text buf)).bind socketInode = .ok (some inode)) :
    text = socketTarget inode := by
  rcases htext with ⟨n, rfl⟩ | ⟨i, c, hi, hc, hne⟩
  · rw [socketInode_socketTarget h]
  · -- Not the beginning of a socket's link, whatever the buffer held before.
    unfold linkString at h
    split at h
    · simp only [Except.bind, socketInode] at h
      split at h
      · rename_i hprefix
        rw [← getElem?_of_isPrefixOf hprefix hi, getElem?_readlink (by omega) hc] at hne
        exact absurd rfl hne
      · exact absurd h (by simp)
    · exact absurd h (by simp [Except.bind])

/-! ### Whatever is read is true at the moment -/

/-- A mapped result comes from a result. -/
theorem of_map_ok {α β : Type} {f : α → β} {x : Except Crash α} {b : β} (h : x.map f = .ok b) :
    ∃ a, x = .ok a ∧ f a = b := by
  cases x with
  | error c => exact absurd h (by simp [Except.map])
  | ok a => exact ⟨a, rfl, Except.ok.inj h⟩

theorem exists_map_ok_iff {α β : Type} {f : α → β} {x : Except Crash α} :
    (∃ b, x.map f = .ok b) ↔ ∃ a, x = .ok a := by
  constructor
  · rintro ⟨b, hb⟩
    obtain ⟨a, ha, -⟩ := of_map_ok hb
    exact ⟨a, ha⟩
  · rintro ⟨a, rfl⟩
    exact ⟨f a, rfl⟩

/-- A socket read from a folder is one that a link in it names. -/
theorem mem_linkReads {process : Process} : ∀ {entries : List FdEntry} {buf : Bytes}
    {l : List (UInt64 × Process)},
    (∀ entry ∈ entries, ∀ text, entry.target = some text →
      (∃ n, text = socketTarget n) ∨ IsOtherTarget text) →
    linkReads process entries buf = .ok l →
    ∀ e ∈ l, e.2 = process ∧
      ∃ entry ∈ entries, entry.isLink = true ∧ entry.target = some (socketTarget e.1) := by
  intro entries
  induction entries with
  | nil =>
      intro buf l _ h e he
      rw [← Except.ok.inj h] at he
      exact absurd he (by simp)
  | cons entry entries ih =>
      intro buf l htargets h e he
      have hlater : ∀ {buf' l'}, linkReads process entries buf' = .ok l' → e ∈ l' →
          e.2 = process ∧ ∃ entry' ∈ entry :: entries, entry'.isLink = true ∧
            entry'.target = some (socketTarget e.1) := fun h' he' => by
        obtain ⟨hprocess, entry', hentry', hlink⟩ :=
          ih (fun entry' hentry' => htargets entry' (List.mem_cons_of_mem _ hentry')) h' e he'
        exact ⟨hprocess, entry', List.mem_cons_of_mem _ hentry', hlink⟩
      rw [linkReads] at h
      split at h
      · rename_i hlink
        cases htarget : entry.target with
        | none =>
            rw [htarget] at h
            exact hlater h he
        | some text =>
            rw [htarget] at h
            simp only at h
            split at h
            · exact absurd h (by simp)
            · exact hlater h he
            · rename_i inode hread
              obtain ⟨l', hreads, rfl⟩ := of_map_ok h
              rcases List.mem_cons.mp he with rfl | he'
              · have htext := htargets entry List.mem_cons_self text htarget
                rw [target_of_socketInode htext hread] at htarget
                exact ⟨rfl, entry, List.mem_cons_self, hlink, htarget⟩
              · exact hlater hreads he'
      · exact hlater h he

/-- Every socket in a list of reads is linked to, at this moment, by the process it is listed
with. -/
def AllLinked (proc : Proc) (l : List (UInt64 × Process)) : Prop :=
  ∀ e ∈ l, LinksTo proc e.2.pid e.1

theorem allLinked_nil (proc : Proc) : AllLinked proc [] := by simp [AllLinked]

theorem AllLinked.append {proc : Proc} {l l' : List (UInt64 × Process)} (h : AllLinked proc l)
    (h' : AllLinked proc l') : AllLinked proc (l ++ l') := List.forall_mem_append.mpr ⟨h, h'⟩

theorem allLinked_dirReads {proc : KernelProc} {pid : Int32} {l : List (UInt64 × Process)}
    (h : dirReads (proc.pidDir (pidStr pid)) pid = .ok l) : AllLinked proc.toProc l := by
  unfold dirReads at h
  split at h
  · rename_i content entries hcomm hfd
    intro e he
    obtain ⟨hprocess, entry, hentry⟩ := mem_linkReads (proc.targets _ entries hfd) h e he
    rw [hprocess]
    exact ⟨entries, hfd, entry, hentry⟩
  · rw [← Except.ok.inj h]
    exact allLinked_nil _

theorem allLinked_sortedReads {proc : KernelProc} {target : UInt64} :
    ∀ {pids : List Int32} {l : List (UInt64 × Process)},
      sortedReads proc.toProc target pids = .ok l → AllLinked proc.toProc l := by
  intro pids
  induction pids with
  | nil =>
      intro l h
      rw [← Except.ok.inj h]
      exact allLinked_nil _
  | cons pid pids ih =>
      intro l h
      rw [sortedReads] at h
      split at h
      · exact absurd h (by simp)
      · rename_i l₁ hdir
        split at h
        · rw [← Except.ok.inj h]
          exact allLinked_dirReads hdir
        · obtain ⟨l₂, hrest, rfl⟩ := of_map_ok h
          exact (allLinked_dirReads hdir).append (ih hrest)

theorem allLinked_cacheReads {proc : KernelProc} {target : UInt64} :
    ∀ {pids : List Int32} {r : List (UInt64 × Process) × List Int32},
      cacheReads proc.toProc target pids = .ok r → AllLinked proc.toProc r.1 := by
  intro pids
  induction pids with
  | nil =>
      intro r h
      rw [← Except.ok.inj h]
      exact allLinked_nil _
  | cons pid pids ih =>
      intro r h
      rw [cacheReads] at h
      split at h
      · split at h
        · exact absurd h (by simp)
        · rename_i l hdir
          split at h
          · rw [← Except.ok.inj h]
            exact allLinked_dirReads hdir
          · obtain ⟨r', hrest, rfl⟩ := of_map_ok h
            exact (allLinked_dirReads hdir).append (ih hrest)
      · obtain ⟨r', hrest, rfl⟩ := of_map_ok h
        have hlinked := ih hrest
        exact hlinked

theorem allLinked_searchReads {s : ProcessIndex} {proc : KernelProc} {target : UInt64}
    {r : List (UInt64 × Process) × LRUArray Int32}
    (h : searchReads s proc.toProc target = .ok r) : AllLinked proc.toProc r.1 := by
  unfold searchReads at h
  split at h
  · exact absurd h (by simp)
  · rename_i c hcache
    split at h
    · rw [← Except.ok.inj h]
      exact allLinked_cacheReads hcache
    · split at h
      · exact absurd h (by simp)
      · split at h
        · exact absurd h (by simp)
        · obtain ⟨l, hsorted, rfl⟩ := of_map_ok h
          exact (allLinked_cacheReads hcache).append (allLinked_sortedReads hsorted)

/-- A process found after a miss links to the socket at this moment. -/
theorem linksTo_of_miss {s : ProcessIndex} {inode : UInt64} {proc : KernelProc} {process : Process}
    {s' : ProcessIndex} (hunknown : s.mProcessMap.lookup inode = none)
    (h : s.get inode proc.toProc = .ok (some process, s')) :
    LinksTo proc.toProc process.pid inode := by
  by_cases hmissed : inode ∈ s.mCouldNotFind
  · rw [get_of_missed hmissed] at h
    exact absurd (Prod.mk.inj (Except.ok.inj h)).1 (by simp)
  rw [get_of_unknown hmissed hunknown] at h
  split at h
  · exact absurd h (by simp)
  · rename_i r hreads
    split at h
    · rename_i p hfound
      have hp : p = process := Option.some.inj (Prod.mk.inj (Except.ok.inj h)).1
      rw [← hp]
      unfold foundIn at hfound
      split at hfound
      · exact absurd hfound (by simp)
      · exact allLinked_searchReads hreads (inode, p) (mem_of_last hfound)
    · exact absurd (Prod.mk.inj (Except.ok.inj h)).1 (by simp)

end ProcessIndex

/-- A line of a table has this key and this inode. -/
def HasLine (net : ProcNet) (key : PacketHash) (inode : UInt64) : Prop :=
  ∃ table, (key, inode) ∈ SocketIndex.tableEntries net table

/-- The inode the map holds for a packet, or else the packet's own tables. -/
def SocketIndex.heldInode (s : SocketIndex) (pkt : Packet) (net : ProcNet) : Option UInt64 :=
  (s.mSocketMap.lookup (PacketHash.ofPacket pkt)).or
    (last ((tablesFor pkt.type).flatMap (tableEntries net)) (PacketHash.ofPacket pkt))

/-- An inode answered is the one held. -/
theorem SocketIndex.heldInode_of_get {s : SocketIndex} {pkt : Packet} {net : ProcNet}
    (h : (s.get pkt net).1 ≠ 0) :
    PacketHash.ofPacket pkt ∉ s.mCouldNotFind ∧
      s.heldInode pkt net = some (s.get pkt net).1 := by
  by_cases hmissed : PacketHash.ofPacket pkt ∈ s.mCouldNotFind
  · rw [get_of_missed hmissed] at h
    exact absurd rfl h
  refine ⟨hmissed, ?_⟩
  unfold heldInode
  cases hlookup : s.mSocketMap.lookup (PacketHash.ofPacket pkt) with
  | some inode => rw [get_of_known hmissed hlookup, Option.some_or]
  | none =>
      by_cases htables : tablesFor pkt.type = []
      · rw [get_of_no_tables hmissed hlookup htables] at h
        exact absurd rfl h
      · rw [get_of_unknown hmissed hlookup htables, refresh_eq] at h ⊢
        simp only at h ⊢
        rw [lookup_load, hlookup, Option.or_none] at h ⊢
        cases hlast : last ((tablesFor pkt.type).flatMap (tableEntries net))
            (PacketHash.ofPacket pkt) with
        | some inode => rfl
        | none =>
            rw [hlast] at h
            exact absurd rfl h

namespace ProcessResolver

/-- A packet that is attributed to a process has a line whose socket the process links to. -/
def Owned (s : ProcessResolver) : Action → Prop
  | .resolve pkt net proc =>
      ∀ process s', s.resolve pkt net proc.toProc = .ok (process, s') → process ≠ mUnknownProcess →
        ∃ inode, HasLine net (PacketHash.ofPacket pkt) inode ∧
          LinksTo proc.toProc process.pid inode
  | _ => True

/-- What the caches hold for the packet has not gone stale: an inode in the socket map is still
that of a line with the key, and a process in the process map still links to the inode. -/
def StillCurrent (s : ProcessResolver) : Action → Prop
  | .resolve pkt net proc =>
      PacketHash.ofPacket pkt ∉ s.mSocketIndex.mCouldNotFind →
        (∀ inode, s.mSocketIndex.mSocketMap.lookup (PacketHash.ofPacket pkt) = some inode →
          HasLine net (PacketHash.ofPacket pkt) inode) ∧
        ∀ inode, s.mSocketIndex.heldInode pkt net = some inode →
          inode ∉ s.mProcessIndex.mCouldNotFind → ∀ process, s.mProcessIndex.mProcessMap.lookup inode = some process →
            LinksTo proc.toProc process.pid inode
  | _ => True

theorem owned_of_stillCurrent (s : ProcessResolver) (a : Action) (h : s.StillCurrent a) :
    s.Owned a := by
  cases a with
  | clearSockets => exact trivial
  | clearProcesses => exact trivial
  | resolve pkt net proc =>
      intro process s' hresolve hknown
      unfold resolve at hresolve
      rcases hget : s.mSocketIndex.get pkt net with ⟨inode, sockets⟩
      rw [hget] at hresolve
      simp only at hresolve
      split at hresolve
      · exact absurd (Prod.mk.inj (Except.ok.inj hresolve)).1.symm hknown
      rename_i hinode
      have hanswer : (s.mSocketIndex.get pkt net).1 = inode := by rw [hget]
      have hne : (s.mSocketIndex.get pkt net).1 ≠ 0 := hanswer.trans_ne hinode
      obtain ⟨hmissed, hheld⟩ := SocketIndex.heldInode_of_get hne
      rw [hanswer] at hheld
      obtain ⟨hsocket, hprocess⟩ := h hmissed
      refine ⟨inode, ?_, ?_⟩
      · -- The line: still there after a hit, just read after a miss.
        cases hlookup : s.mSocketIndex.mSocketMap.lookup (PacketHash.ofPacket pkt) with
        | some inode' =>
            have heq := hheld
            rw [SocketIndex.heldInode, hlookup, Option.some_or, Option.some.injEq] at heq
            rw [← heq]
            exact hsocket inode' hlookup
        | none =>
            rw [SocketIndex.heldInode, hlookup, Option.none_or] at hheld
            obtain ⟨table, -, hmem⟩ := List.mem_flatMap.mp (mem_of_last hheld)
            exact ⟨table, hmem⟩
      · -- The link: the same of the process map.
        cases hprocesses : s.mProcessIndex.get inode proc.toProc with
        | error c =>
            rw [hprocesses] at hresolve
            exact absurd hresolve (by simp [bind, Except.bind])
        | ok answer =>
            obtain ⟨found, processes⟩ := answer
            rw [hprocesses] at hresolve
            simp only [bind, Except.bind] at hresolve
            cases found with
            | none => exact absurd (Prod.mk.inj (Except.ok.inj hresolve)).1.symm hknown
            | some found =>
                have hfound : found = process := (Prod.mk.inj (Except.ok.inj hresolve)).1
                rw [hfound] at hprocesses
                cases hlookup : s.mProcessIndex.mProcessMap.lookup inode with
                | none => exact ProcessIndex.linksTo_of_miss hlookup hprocesses
                | some cached =>
                    by_cases hmissed' : inode ∈ s.mProcessIndex.mCouldNotFind
                    · rw [ProcessIndex.get_of_missed hmissed'] at hprocesses
                      exact absurd (Prod.mk.inj (Except.ok.inj hprocesses)).1 (by simp)
                    · rw [ProcessIndex.get_of_known hmissed' hlookup] at hprocesses
                      have hcached := Option.some.inj (Prod.mk.inj (Except.ok.inj hprocesses)).1
                      rw [← hcached]
                      exact hprocess inode hheld hmissed' cached hlookup

/--
**In every run whose cached answers have not gone stale, a packet is attributed only to a
process that owns its socket.**
-/
theorem owned_run (s : ProcessResolver) (as : List Action) (h : Along step StillCurrent s as) :
    Along step Owned s as :=
  along_of_guard (I := fun _ => True)
    (fun s a _ hG => ⟨trivial, s.owned_of_stillCurrent a hG⟩) trivial h

/-- A host with one connection, whose line shows this inode. -/
def connection (inode : String) : ProcNet
  | .tcp => some [ascii "  sl  local_address rem_address",
      ascii "   0: 0200A8C0:A8CA 22D8B85D:01BB 01 00:00 00:00 00 1000 0 " ++ ascii inode]
  | _ => some []

/-- A packet of the connection. -/
def connectionPacket : Packet :=
  { type := .tcp, protocol := 6, sip := 0x0200A8C0, dip := 0x22D8B85D, sport := 43210, dport := 443
    direction := .outgoing }

/-- Two processes, one of which has the socket with this inode open. -/
def twoProcesses (owner : Bytes) (inode : UInt64) : KernelProc where
  entries := some [⟨true, ascii "10"⟩, ⟨true, ascii "20"⟩]
  fdExists _ := true
  pidDir name :=
    { comm := some (ascii "ssh")
      fd := some (if name = owner then [⟨true, some (socketTarget inode)⟩] else [])
      linkRaw := .replicate 80 0 }
  targets := by
    intro name entries hfd entry hentry text htext
    rw [← Option.some.inj hfd] at hentry
    split at hentry
    · rw [List.mem_singleton.mp hentry] at htext
      exact Or.inl ⟨inode, (Option.some.inj htext).symm⟩
    · exact absurd hentry (by simp)

/-- The first packet of a connection is attributed to the process that has it open. -/
theorem owned_first_packet :
    Along step Owned
      { mSocketIndex := SocketIndex.init (connection "100")
        mProcessIndex := { mLRUCache := { mDeque := [], mSize := 5 } } }
      [.resolve connectionPacket (connection "100") (twoProcesses (ascii "10") 100)] := by
  refine owned_run _ _ ⟨fun _ => ⟨fun inode h => ⟨.tcp, ?_⟩, fun _ _ _ process h => ?_⟩, trivial⟩
  · have hlookup : (SocketIndex.init (connection "100")).mSocketMap.lookup
        (PacketHash.ofPacket connectionPacket) = some 100 := by
      decide +kernel
    rw [← Option.some.inj (hlookup.symm.trans h)]
    decide +kernel
  · exact absurd h (by simp)

/-- The port goes to another process's socket, and the packets still to the old process. -/
theorem not_owned_reused_port :
    ¬ ∀ net cacheSize proc p as, ProcessIndex.init cacheSize proc = .ok p →
      Along step Owned { mSocketIndex := SocketIndex.init net, mProcessIndex := p } as := by
  intro h
  obtain ⟨p, hinit, hlookup, hmissed⟩ : ∃ p,
      ProcessIndex.init 5 (twoProcesses (ascii "10") 100).toProc = .ok p ∧
        p.mProcessMap.lookup 100 = some { comm := ascii "ssh", pid := 10 } ∧
        p.mCouldNotFind = ∅ :=
    ⟨_, rfl, by decide +kernel, rfl⟩
  have hsocket : (SocketIndex.init (connection "100")).mSocketMap.lookup
      (PacketHash.ofPacket connectionPacket) = some 100 := by
    decide +kernel
  have howned := (h (connection "100") 5 _ p
    [.resolve connectionPacket (connection "200") (twoProcesses (ascii "20") 200)] hinit).1
  obtain ⟨inode, -, entries, hfd, entry, hentry, -⟩ := howned { comm := ascii "ssh", pid := 10 } _
    (by
      rw [resolve, SocketIndex.get_of_known (by simp [SocketIndex.init, SocketIndex.refresh_eq])
        hsocket]
      simp only [show (100 : UInt64) ≠ 0 by decide, if_false,
        ProcessIndex.get_of_known (hmissed ▸ Finset.notMem_empty _) hlookup]
      rfl)
    (by decide)
  have hempty : entries = [] := (Option.some.inj hfd).symm
  rw [hempty] at hentry
  exact absurd hentry (by simp)

end ProcessResolver

end Ntmd
