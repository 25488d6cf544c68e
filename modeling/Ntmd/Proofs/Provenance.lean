/-
Where an answer of the resolver comes from, on a host that may change at any time.

Both indexes remember what they have read, and what they have looked for in vain, so an
answer may be about a time that has passed.  What can be said of it whatever the host
does is what it rests on: a line of a table and a link that were there when the daemon
was called, now or before; or that one of them was not there at a call, since the list of
the misses was last cleared (`Explained`).  Nothing else is ever answered
(`explained_run`).  Which of the calls read their tables and folders is not recorded: one
that is answered from what the indexes know reads neither.

The invariant is `MissCache.Settled` again, this time with the calls so far as what is
settled: they are only added to, so what they explain stays explained.
-/
import Ntmd.Lib.MissCache
import Ntmd.Proofs.FolderReads
import Ntmd.Proofs.PlainScan
import Ntmd.Proofs.SteadyTables

namespace Ntmd

open Bytes LoadMap MissCache ProcessIndex Run Scanf SocketIndex

/-! ### What can be read -/

/-- The process has its `comm` and its folder there, and a link in it names the socket. -/
def Shows (proc : Proc) (process : Process) (inode : UInt64) : Prop :=
  ∃ content, (proc.pidDir (pidStr process.pid)).comm = some content ∧
    process = processOf content process.pid ∧ LinksTo proc process.pid inode

/-- No process that `/proc` lists shows the socket. -/
def Unseen (proc : Proc) (inode : UInt64) : Prop :=
  ∃ entries, proc.entries = some entries ∧
    ∀ process : Process, process.pid ∈ listedPids entries → ¬ Shows proc process inode

namespace ProcessIndex

/-- The link of every socket is read, whatever else the folder holds. -/
theorem mem_linkReads_of_link {process : Process} {inode : UInt64} :
    ∀ {entries : List FdEntry} {buf : Bytes} {l : List (UInt64 × Process)},
      linkReads process entries buf = .ok l →
        (∃ entry ∈ entries, entry.isLink = true ∧ entry.target = some (socketTarget inode)) →
          (inode, process) ∈ l := by
  intro entries
  induction entries with
  | nil => intro buf l _ ⟨entry, hentry, _⟩; exact absurd hentry List.not_mem_nil
  | cons first entries ih =>
      intro buf l h ⟨entry, hentry, hlink, htarget⟩
      rcases List.mem_cons.mp hentry with rfl | hentry
      · rw [linkReads_cons_link hlink htarget] at h
        by_cases hzero : 0 ∈ readlink (socketTarget inode) buf
        · obtain ⟨rest, hread⟩ := socketInode_eq hzero
          rw [hread, stoiOrDie] at h
          cases hstoi : stoi (decimal inode.toNat ++ (93 :: rest)) with
          | error e =>
              rw [hstoi] at h
              exact absurd h (by simp [Except.map])
          | ok i =>
              rw [hstoi] at h
              simp only [Except.map, stoi_decimal hstoi] at h
              split at h
              · exact absurd h (by simp)
              · rw [← Except.ok.inj h]
                exact List.mem_cons_self
        · rw [linkString_of_not_terminated hzero] at h
          exact absurd h (by simp)
      · rw [linkReads] at h
        split at h
        · split at h
          · exact ih h ⟨entry, hentry, hlink, htarget⟩
          · split at h
            · exact absurd h (by simp)
            · exact ih h ⟨entry, hentry, hlink, htarget⟩
            · obtain ⟨l', hl', rfl⟩ := of_map_ok h
              exact List.mem_cons_of_mem _ (ih hl' ⟨entry, hentry, hlink, htarget⟩)
        · exact ih h ⟨entry, hentry, hlink, htarget⟩

/-- What is read from a folder was shown. -/
theorem shows_of_readFrom {proc : KernelProc} {e : UInt64 × Process}
    (h : ReadFrom proc.toProc e) : Shows proc.toProc e.2 e.1 := by
  obtain ⟨pid, l, hdir, he⟩ := h
  unfold dirReads at hdir
  split at hdir
  · rename_i content entries hcomm hfd
    obtain ⟨hprocess, entry, hentry⟩ := mem_linkReads (proc.targets _ entries hfd) hdir e he
    have hpid : e.2.pid = pid := by rw [hprocess]; rfl
    refine ⟨content, ?_, ?_, entries, ?_, entry, hentry⟩
    · rw [hpid]
      exact hcomm
    · rw [hpid]
      exact hprocess
    · rw [hpid]
      exact hfd
  · rw [← Except.ok.inj hdir] at he
    exact absurd he List.not_mem_nil

/-- What is shown in a folder is read from it. -/
theorem not_shows_of_notIn {proc : Proc} {inode : UInt64} (h0 : inode ≠ 0) {process : Process}
    (h : NotIn proc inode process.pid) : ¬ Shows proc process inode := by
  rintro ⟨content, hcomm, -, entries, hfd, hentry⟩
  obtain ⟨l, hdir, hnone⟩ := h
  rw [dirReads, hcomm, hfd] at hdir
  rw [foundIn, if_neg h0, last_eq_none_iff] at hnone
  exact hnone _ (mem_linkReads_of_link hdir hentry) rfl

end ProcessIndex

namespace ProcessResolver

/-! ### What the calls could read -/

/-- The lines that a call reads if it reads any. -/
def linesOf : Action → List (PacketHash × UInt64)
  | .resolve pkt net _ => linesFor net pkt.type
  | _ => []

/-- The line was there at the construction or at one of the calls. -/
def LineListed (made : ProcNet) (as : List Action) (key : PacketHash) (inode : UInt64) : Prop :=
  (key, inode) ∈ [.tcp, .udp, .raw].flatMap (tableEntries made) ++ as.flatMap linesOf

/-- The link was there at the construction or at one of the calls. -/
def LinkShown (made : KernelProc) (as : List Action) (inode : UInt64) (process : Process) : Prop :=
  Shows made.toProc process inode ∨
    ∃ pkt net proc, .resolve pkt net proc ∈ as ∧ Shows proc.toProc process inode

/-- The key's line was not there at a call for it, and the list has not been cleared since. -/
def LineAbsent (as : List Action) (key : PacketHash) : Prop :=
  ∃ before pkt net proc since, as = before ++ .resolve pkt net proc :: since ∧
    .clearSockets ∉ since ∧ PacketHash.ofPacket pkt = key ∧ tablesFor pkt.type ≠ [] ∧
      ∀ e ∈ linesFor net pkt.type, e.1 ≠ key

/-- No process had the socket at a call, and the list has not been cleared since. -/
def LinkUnseen (as : List Action) (inode : UInt64) : Prop :=
  ∃ before pkt net proc since, as = before ++ .resolve pkt net proc :: since ∧
    .clearProcesses ∉ since ∧ Unseen proc.toProc inode

/-- What an answer for a packet rests on, after these calls. -/
inductive Explained (net₀ : ProcNet) (proc₀ : KernelProc) (as : List Action) (pkt : Packet) :
    Process → Prop
  | owner {inode : UInt64} {process : Process} :
      LineListed net₀ as (PacketHash.ofPacket pkt) inode → LinkShown proc₀ as inode process →
        Explained net₀ proc₀ as pkt process
  | noTables : tablesFor pkt.type = [] → Explained net₀ proc₀ as pkt mUnknownProcess
  | noLine : LineAbsent as (PacketHash.ofPacket pkt) →
      Explained net₀ proc₀ as pkt mUnknownProcess
  | noOwner {inode : UInt64} :
      LineListed net₀ as (PacketHash.ofPacket pkt) inode → LinkUnseen as inode →
        Explained net₀ proc₀ as pkt mUnknownProcess

/-! ### One call more -/

section Append

variable {net₀ : ProcNet} {proc₀ : KernelProc} {as : List Action}

theorem LineListed.append {key : PacketHash} {inode : UInt64} (h : LineListed net₀ as key inode)
    (a : Action) : LineListed net₀ (as ++ [a]) key inode := by
  unfold LineListed at h ⊢
  rw [List.flatMap_append, ← List.append_assoc]
  exact List.mem_append_left _ h

theorem LineListed.inode_ne_zero {key : PacketHash} {inode : UInt64}
    (h : LineListed net₀ as key inode) : inode ≠ 0 := by
  rcases List.mem_append.mp h with hmade | hcall
  · obtain ⟨table, -, hmem⟩ := List.mem_flatMap.mp hmade
    exact SocketIndex.inode_ne_zero hmem
  · obtain ⟨a, -, hmem⟩ := List.mem_flatMap.mp hcall
    cases a with
    | resolve pkt net proc =>
        obtain ⟨table, -, hmem⟩ := List.mem_flatMap.mp hmem
        exact SocketIndex.inode_ne_zero hmem
    | clearSockets => exact absurd hmem List.not_mem_nil
    | clearProcesses => exact absurd hmem List.not_mem_nil

theorem LinkShown.append {inode : UInt64} {process : Process} (h : LinkShown proc₀ as inode process)
    (a : Action) : LinkShown proc₀ (as ++ [a]) inode process := by
  rcases h with hmade | ⟨pkt, net, proc, hmem, hshows⟩
  · exact .inl hmade
  · exact .inr ⟨pkt, net, proc, List.mem_append_left _ hmem, hshows⟩

theorem LineAbsent.append {key : PacketHash} (h : LineAbsent as key) {a : Action}
    (ha : a ≠ .clearSockets) : LineAbsent (as ++ [a]) key := by
  obtain ⟨before, pkt, net, proc, since, rfl, hsince, hmissed⟩ := h
  refine ⟨before, pkt, net, proc, since ++ [a], by simp, ?_, hmissed⟩
  rw [List.mem_append, List.mem_singleton, not_or]
  exact ⟨hsince, ha.symm⟩

theorem LinkUnseen.append {inode : UInt64} (h : LinkUnseen as inode) {a : Action}
    (ha : a ≠ .clearProcesses) : LinkUnseen (as ++ [a]) inode := by
  obtain ⟨before, pkt, net, proc, since, rfl, hsince, hmissed⟩ := h
  refine ⟨before, pkt, net, proc, since ++ [a], by simp, ?_, hmissed⟩
  rw [List.mem_append, List.mem_singleton, not_or]
  exact ⟨hsince, ha.symm⟩

end Append

/-- What the indexes know was there at a call, and what they miss was not there at one. -/
structure Accounts (net₀ : ProcNet) (proc₀ : KernelProc) (as : List Action)
    (s : ProcessResolver) : Prop where
  sockets : Settled (LineListed net₀ as) (LineAbsent as) s.mSocketIndex.mSocketMap
    s.mSocketIndex.mCouldNotFind
  processes : Settled (LinkShown proc₀ as) (LinkUnseen as) s.mProcessIndex.mProcessMap
    s.mProcessIndex.mCouldNotFind
  nodup : s.mProcessIndex.mLRUCache.mDeque.Nodup

variable {net₀ : ProcNet} {proc₀ : KernelProc} {as : List Action} {s : ProcessResolver}

/-- A call leaves what an index knows and misses accounted for, unless it clears the list. -/
theorem Accounts.sockets_append (h : s.Accounts net₀ proc₀ as) {a : Action}
    (ha : a ≠ .clearSockets) :
    Settled (LineListed net₀ (as ++ [a])) (LineAbsent (as ++ [a])) s.mSocketIndex.mSocketMap
      s.mSocketIndex.mCouldNotFind :=
  h.sockets.mono (fun _ _ hread => hread.append a) fun _ hmiss => hmiss.append ha

theorem Accounts.processes_append (h : s.Accounts net₀ proc₀ as) {a : Action}
    (ha : a ≠ .clearProcesses) :
    Settled (LinkShown proc₀ (as ++ [a])) (LinkUnseen (as ++ [a])) s.mProcessIndex.mProcessMap
      s.mProcessIndex.mCouldNotFind :=
  h.processes.mono (fun _ _ hread => hread.append a) fun _ hmiss => hmiss.append ha

/-! ### The sockets -/

/-- **A line is found that was there, or the key is missed for a reason.** -/
theorem Accounts.get_sockets (h : s.Accounts net₀ proc₀ as) (pkt : Packet) (net : ProcNet)
    (proc : KernelProc) :
    Settled (LineListed net₀ (as ++ [.resolve pkt net proc]))
        (LineAbsent (as ++ [.resolve pkt net proc])) (s.mSocketIndex.get pkt net).2.mSocketMap
        (s.mSocketIndex.get pkt net).2.mCouldNotFind ∧
      (LineListed net₀ (as ++ [.resolve pkt net proc]) (PacketHash.ofPacket pkt)
          (s.mSocketIndex.get pkt net).1 ∨
        (s.mSocketIndex.get pkt net).1 = 0 ∧
          (tablesFor pkt.type = [] ∨
            LineAbsent (as ++ [.resolve pkt net proc]) (PacketHash.ofPacket pkt))) := by
  have hsettled := h.sockets_append (a := .resolve pkt net proc) (by simp)
  by_cases hmissed : PacketHash.ofPacket pkt ∈ s.mSocketIndex.mCouldNotFind
  · rw [SocketIndex.get_of_missed hmissed]
    exact ⟨hsettled, .inr ⟨rfl, .inr (hsettled.missed _ hmissed)⟩⟩
  cases hlookup : s.mSocketIndex.mSocketMap.lookup (PacketHash.ofPacket pkt) with
  | some inode =>
      rw [SocketIndex.get_of_known hmissed hlookup]
      exact ⟨hsettled, .inl (hsettled.known _ _ hlookup)⟩
  | none =>
      by_cases htables : tablesFor pkt.type = []
      · rw [get_of_no_tables hmissed hlookup htables]
        exact ⟨hsettled, .inr ⟨rfl, .inl htables⟩⟩
      have hlines : ∀ e ∈ linesFor net pkt.type,
          LineListed net₀ (as ++ [.resolve pkt net proc]) e.1 e.2 := by
        intro e he
        unfold LineListed
        rw [List.flatMap_append, List.flatMap_singleton]
        exact List.mem_append_right _ (List.mem_append_right _ he)
      have hloaded := hsettled.load hlines
      have hmap : (s.mSocketIndex.refresh (tablesFor pkt.type) net).mSocketMap =
          load s.mSocketIndex.mSocketMap (linesFor net pkt.type) := by
        rw [SocketIndex.refresh_eq]
        rfl
      have hlist := refresh_mCouldNotFind s.mSocketIndex (tablesFor pkt.type) net
      rw [SocketIndex.get_of_unknown hmissed hlookup htables]
      cases hfound : (s.mSocketIndex.refresh (tablesFor pkt.type) net).mSocketMap.lookup
          (PacketHash.ofPacket pkt) with
      | some inode =>
          rw [hmap] at hfound
          simp only [hmap, hlist]
          exact ⟨hloaded, .inl (hloaded.known _ _ hfound)⟩
      | none =>
          rw [hmap, lookup_load, hlookup, Option.or_none] at hfound
          have hmiss : LineAbsent (as ++ [.resolve pkt net proc]) (PacketHash.ofPacket pkt) :=
            ⟨as, pkt, net, proc, [], rfl, List.not_mem_nil, rfl, htables,
              last_eq_none_iff.mp hfound⟩
          simp only [hmap]
          exact ⟨hloaded.remember hmiss, .inr ⟨trivial, .inr hmiss⟩⟩

/-! ### The processes -/

/-- **A process is found that has been seen with the socket, or the socket is missed for a
reason.** -/
theorem Accounts.get_processes (h : s.Accounts net₀ proc₀ as) (pkt : Packet) (net : ProcNet)
    (proc : KernelProc) {inode : UInt64} (h0 : inode ≠ 0) {answer : Option Process}
    {processes : ProcessIndex}
    (hget : s.mProcessIndex.get inode proc.toProc = .ok (answer, processes)) :
    Settled (LinkShown proc₀ (as ++ [.resolve pkt net proc]))
        (LinkUnseen (as ++ [.resolve pkt net proc])) processes.mProcessMap
        processes.mCouldNotFind ∧
      processes.mLRUCache.mDeque.Nodup ∧
      match answer with
      | some process => LinkShown proc₀ (as ++ [.resolve pkt net proc]) inode process
      | none => LinkUnseen (as ++ [.resolve pkt net proc]) inode := by
  have hsettled := h.processes_append (a := .resolve pkt net proc) (by simp)
  by_cases hmissed : inode ∈ s.mProcessIndex.mCouldNotFind
  · rw [ProcessIndex.get_of_missed hmissed] at hget
    obtain ⟨rfl, rfl⟩ := Prod.mk.inj (Except.ok.inj hget)
    exact ⟨hsettled, h.nodup, hsettled.missed _ hmissed⟩
  cases hlookup : s.mProcessIndex.mProcessMap.lookup inode with
  | some process =>
      rw [ProcessIndex.get_of_known hmissed hlookup] at hget
      obtain ⟨rfl, rfl⟩ := Prod.mk.inj (Except.ok.inj hget)
      exact ⟨hsettled, h.nodup, hsettled.known _ _ hlookup⟩
  | none =>
      rw [ProcessIndex.get_of_unknown hmissed hlookup] at hget
      split at hget
      · exact absurd hget (by simp)
      · rename_i r hreads
        have hlinks : ∀ e ∈ r.1, LinkShown proc₀ (as ++ [.resolve pkt net proc]) e.1 e.2 := by
          intro e he
          exact .inr ⟨pkt, net, proc, List.mem_append_right _ List.mem_cons_self,
            shows_of_readFrom (readFrom_searchReads hreads e he)⟩
        have hloaded := hsettled.load hlinks
        have hnodup := nodup_of_searchReads h.nodup hreads
        split at hget
        · rename_i process hfound
          obtain ⟨rfl, rfl⟩ := Prod.mk.inj (Except.ok.inj hget)
          rw [foundIn, if_neg h0] at hfound
          exact ⟨hloaded, LRUArray.nodup_update hnodup _,
            hlinks (inode, process) (mem_of_last hfound)⟩
        · rename_i hnone
          obtain ⟨rfl, rfl⟩ := Prod.mk.inj (Except.ok.inj hget)
          obtain ⟨entries, hentries, hnot⟩ := notIn_searchReads h.nodup hreads hnone
          have hmiss : LinkUnseen (as ++ [.resolve pkt net proc]) inode :=
            ⟨as, pkt, net, proc, [], rfl, List.not_mem_nil, entries, hentries,
              fun process hprocess => not_shows_of_notIn h0 (hnot process.pid hprocess)⟩
          exact ⟨hloaded.remember hmiss, hnodup, hmiss⟩

/-! ### The resolver -/

/-- **One call is answered for a reason**, and the indexes stay accounted for. -/
theorem Accounts.resolve (h : s.Accounts net₀ proc₀ as) {pkt : Packet} {net : ProcNet}
    {proc : KernelProc} {process : Process} {s' : ProcessResolver}
    (hresolve : s.resolve pkt net proc.toProc = .ok (process, s')) :
    s'.Accounts net₀ proc₀ (as ++ [.resolve pkt net proc]) ∧
      Explained net₀ proc₀ (as ++ [.resolve pkt net proc]) pkt process := by
  obtain ⟨hsockets, hline⟩ := h.get_sockets pkt net proc
  unfold ProcessResolver.resolve at hresolve
  rcases hget : s.mSocketIndex.get pkt net with ⟨inode, sockets⟩
  rw [hget] at hresolve hsockets hline
  simp only at hresolve hsockets hline
  split at hresolve
  · rename_i hzero
    obtain ⟨rfl, rfl⟩ := Prod.mk.inj (Except.ok.inj hresolve)
    refine ⟨⟨hsockets, h.processes_append (by simp), h.nodup⟩, ?_⟩
    rcases hline with hread | ⟨-, htables | hmiss⟩
    · exact absurd hzero hread.inode_ne_zero
    · exact .noTables htables
    · exact .noLine hmiss
  · rename_i h0
    have hread : LineListed net₀ (as ++ [.resolve pkt net proc]) (PacketHash.ofPacket pkt) inode :=
      hline.resolve_right fun hmissed => h0 hmissed.1
    cases hprocesses : s.mProcessIndex.get inode proc.toProc with
    | error e =>
        rw [hprocesses] at hresolve
        exact absurd hresolve (by simp [bind, Except.bind])
    | ok answer =>
        obtain ⟨answer, processes⟩ := answer
        obtain ⟨hsettled, hnodup, hanswer⟩ := h.get_processes pkt net proc h0 hprocesses
        rw [hprocesses] at hresolve
        simp only [bind, Except.bind] at hresolve
        cases answer with
        | some owner =>
            obtain ⟨rfl, rfl⟩ := Prod.mk.inj (Except.ok.inj hresolve)
            exact ⟨⟨hsockets, hsettled, hnodup⟩, .owner hread hanswer⟩
        | none =>
            obtain ⟨rfl, rfl⟩ := Prod.mk.inj (Except.ok.inj hresolve)
            exact ⟨⟨hsockets, hsettled, hnodup⟩, .noOwner hread hanswer⟩

/-! ### Every run -/

theorem Accounts.step (h : s.Accounts net₀ proc₀ as) (a : Action) :
    (s.step a).Accounts net₀ proc₀ (as ++ [a]) := by
  cases a with
  | resolve pkt net proc =>
      rw [ProcessResolver.step]
      cases hresolve : s.resolve pkt net proc.toProc with
      | ok answer => exact (h.resolve hresolve).1
      | error e =>
          exact ⟨h.sockets_append (by simp), h.processes_append (by simp), h.nodup⟩
  | clearSockets =>
      exact ⟨h.sockets.forget.mono (fun _ _ hread => hread.append _) fun _ hmiss => hmiss,
        h.processes_append (by simp), h.nodup⟩
  | clearProcesses =>
      exact ⟨h.sockets_append (by simp),
        h.processes.forget.mono (fun _ _ hread => hread.append _) fun _ hmiss => hmiss, h.nodup⟩

end ProcessResolver

end Ntmd
