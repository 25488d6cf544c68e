/-
The frames of an application, and what is counted for it.

On a host that stays as it is, the resolver attributes each packet to a process that
it belongs to, and never ends the daemon (`resolve_onHost`).  So a set of names for
which every frame goes either always to one of them or never, whichever of its
processes it is attributed to, gets exactly the traffic of its frames: in the map, in
the tables, or on the way (`applications_run`).

This is the purpose of the program, from the wire to the database.  Each assumption
stands for a way in which it is missed: frames cut short, a clear between the two
steps of an add, a counter or a column without room, a deposit that fails, names
SQLite takes for one table, keys that two protocols use, and a host that changes.
-/
import Ntmd.Proofs.Accounts
import Ntmd.Proofs.SteadyHost

namespace Ntmd

open Bytes ProcessIndex Run Sqlite

namespace Monitor

/-- What the frame's call sees is the host. -/
def SeenOn (host : Host) : MonitorAction → Prop
  | .frame _ net proc => net = host.net ∧ proc = host.proc.toProc
  | _ => True

/-- The packet that a frame is resolved as. -/
def packetOf (iplist : IPList) (f : CapturedFrame) : Option Packet :=
  (Packet.ofFrame f.header f.raw iplist).filter fun pkt => !pkt.discard

/-- The frames of a run. -/
def framesOf (as : List MonitorAction) : List CapturedFrame :=
  as.filterMap fun
    | .frame f _ _ => some f
    | _ => none

/-- Frames with the same key are of the same protocol. -/
def SameProtocol (iplist : IPList) (fs : List CapturedFrame) : Prop :=
  ∀ p ∈ fs.filterMap (packetOf iplist), ∀ q ∈ fs.filterMap (packetOf iplist),
    PacketHash.ofPacket p = PacketHash.ofPacket q → p.type = q.type

/-- Whichever process the frame's packet is attributed to, its name is among the names exactly if
the frame is mine. -/
def Belongs (host : Host) (iplist : IPList) (names : Bytes → Bool) (mine : CapturedFrame → Bool)
    (f : CapturedFrame) : Prop :=
  ∀ pkt ∈ packetOf iplist f, host.OwnKey pkt.type (PacketHash.ofPacket pkt) ∧
    ∀ process, host.Attributes pkt process → names process.comm = mine f

structure OnHost (host : Host) (types : PacketHash → PacketType) (s : Monitor) : Prop where
  resolver : s.mProcessResolver.OnHost host types
  running : s.fault = none

variable {host : Host} {types : PacketHash → PacketType} {s : Monitor}

theorem mem_packetOf {iplist : IPList} {f : CapturedFrame} {pkt : Packet}
    (h : Packet.ofFrame f.header f.raw iplist = some pkt) (hkept : pkt.discard = false) :
    pkt ∈ packetOf iplist f := by
  rw [packetOf, h, Option.filter_some, if_pos (by simp [hkept])]
  rfl

theorem frame_onHost (h : s.OnHost host types) {f : CapturedFrame} (hf : f.Complete)
    (htypes : ∀ pkt ∈ packetOf s.mIPList f, types (PacketHash.ofPacket pkt) = pkt.type) :
    (s.step (.frame f host.net host.proc.toProc)).OnHost host types := by
  obtain ⟨pkt, hpkt, -⟩ := Packet.ofFrame_spec hf s.mIPList
  have hresolved : pkt.discard = false → ∃ process resolver,
      s.mProcessResolver.resolve pkt host.net host.proc.toProc = .ok (process, resolver) ∧
        resolver.OnHost host types := fun hkept => by
    obtain ⟨process, resolver, hresolve, hnext, -⟩ :=
      ProcessResolver.resolve_onHost h.resolver (htypes pkt (mem_packetOf hpkt hkept))
    exact ⟨process, resolver, hresolve, hnext⟩
  rcases s.step_frame_cases f host.net host.proc.toProc with ⟨-, hstep⟩ | ⟨e, herror, -, -⟩ |
    ⟨_, -, -, -, -, hstep⟩ | ⟨pkt', process, resolver, -, -, hpkt', hkept, hresolve, hstep⟩
  · rw [hstep]
    exact h
  · -- A complete frame is parsed, and its packet is resolved.
    rw [Sniffer.pktCallback, hpkt] at herror
    cases hdiscard : pkt.discard with
    | true => simp [hdiscard] at herror
    | false =>
        obtain ⟨process, resolver, hresolve, -⟩ := hresolved hdiscard
        simp [hdiscard, hresolve] at herror
  · rw [hstep]
    exact h
  · obtain rfl : pkt = pkt' := Option.some.inj (hpkt.symm.trans hpkt')
    obtain ⟨process', resolver', hresolve', hnext⟩ := hresolved hkept
    rw [hresolve'] at hresolve
    obtain ⟨-, rfl⟩ := Prod.mk.inj (Except.ok.inj hresolve)
    rw [hstep]
    exact ⟨hnext, h.running⟩

/-- Every other step leaves the resolver alone, or clears one of its lists. -/
theorem step_resolver (s : Monitor) {a : MonitorAction} (ha : ∀ f net proc, a ≠ .frame f net proc) :
    (s.step a).fault = s.fault ∧ ((s.step a).mProcessResolver = s.mProcessResolver ∨
      (s.step a).mProcessResolver = s.mProcessResolver.step .clearSockets ∨
        (s.step a).mProcessResolver = s.mProcessResolver.step .clearProcesses) := by
  unfold step
  split
  · exact ⟨rfl, Or.inl rfl⟩
  · cases a with
    | frame f net proc => exact absurd rfl (ha f net proc)
    | clearSockets => exact ⟨rfl, Or.inr (Or.inl rfl)⟩
    | clearProcesses => exact ⟨rfl, Or.inr (Or.inr rfl)⟩
    | _ => exact ⟨rfl, Or.inl rfl⟩

theorem OnHost.of_not_frame (h : s.OnHost host types) {a : MonitorAction}
    (ha : ∀ f net proc, a ≠ .frame f net proc) : (s.step a).OnHost host types := by
  obtain ⟨hfault, hresolver⟩ := s.step_resolver ha
  have hnone : ∀ pkt ∈ ([] : List Packet), types (PacketHash.ofPacket pkt) = pkt.type :=
    fun pkt hpkt => absurd hpkt List.not_mem_nil
  refine ⟨?_, hfault.trans h.running⟩
  rcases hresolver with heq | heq | heq
  · rw [heq]
    exact h.resolver
  · rw [heq]
    exact (ProcessResolver.step_onHost h.resolver (a := .clearSockets) trivial hnone).1
  · rw [heq]
    exact (ProcessResolver.step_onHost h.resolver (a := .clearProcesses) trivial hnone).1

theorem step_onHost (h : s.OnHost host types) {a : MonitorAction} (ha : s.CompleteFrame a)
    (hseen : SeenOn host a)
    (htypes : ∀ f ∈ framesOf [a], ∀ pkt ∈ packetOf s.mIPList f,
      types (PacketHash.ofPacket pkt) = pkt.type) : (s.step a).OnHost host types := by
  cases a with
  | frame f net proc =>
      obtain ⟨rfl, rfl⟩ := hseen
      exact frame_onHost h ha (htypes f (List.mem_singleton.mpr rfl))
  | _ => exact h.of_not_frame (by simp)

/-- A frame that belongs is attributed accordingly. -/
theorem attributedAs_onHost {names : Bytes → Bool} {mine : CapturedFrame → Bool}
    (h : s.OnHost host types) {a : MonitorAction} (hseen : SeenOn host a)
    (htypes : ∀ f ∈ framesOf [a], ∀ pkt ∈ packetOf s.mIPList f,
      types (PacketHash.ofPacket pkt) = pkt.type)
    (hbelongs : ∀ f ∈ framesOf [a], Belongs host s.mIPList names mine f) :
    s.AttributedAs names mine a := by
  cases a with
  | frame f net proc =>
      obtain ⟨rfl, rfl⟩ := hseen
      intro pkt process resolver hpkt hkept hresolve
      have hmem := mem_packetOf hpkt hkept
      have hf : f ∈ framesOf [.frame f host.net host.proc.toProc] := List.mem_singleton.mpr rfl
      obtain ⟨hown, hnames⟩ := hbelongs f hf pkt hmem
      obtain ⟨process', resolver', hresolve', -, hattributes⟩ :=
        ProcessResolver.resolve_onHost h.resolver (htypes f hf pkt hmem)
      rw [hresolve] at hresolve'
      obtain ⟨rfl, -⟩ := Prod.mk.inj (Except.ok.inj hresolve')
      exact hnames process (hattributes hown)
  | _ => trivial

theorem along_onHost {iplist : IPList} {names : Bytes → Bool} {mine : CapturedFrame → Bool} :
    ∀ {as : List MonitorAction} {s : Monitor}, s.OnHost host types → s.mIPList = iplist →
      Along step CompleteFrame s as → (∀ a ∈ as, SeenOn host a) →
        (∀ f ∈ framesOf as, ∀ pkt ∈ packetOf iplist f,
          types (PacketHash.ofPacket pkt) = pkt.type) →
          (∀ f ∈ framesOf as, Belongs host iplist names mine f) →
            (exec step s as).fault = none ∧ Along step (AttributedAs names mine) s as := by
  intro as
  induction as with
  | nil => intro s h _ _ _ _ _; exact ⟨h.running, trivial⟩
  | cons a as ih =>
      intro s h hlist hcomplete hseen htypes hbelongs
      obtain ⟨ha, has⟩ := List.forall_mem_cons.mp hseen
      have hframes : framesOf (a :: as) = framesOf [a] ++ framesOf as :=
        List.filterMap_append (l := [a])
      rw [hframes] at htypes hbelongs
      obtain ⟨htype, htypes'⟩ := List.forall_mem_append.mp htypes
      obtain ⟨hone, hrest⟩ := List.forall_mem_append.mp hbelongs
      rw [← hlist] at htype hone
      obtain ⟨hfault, halong⟩ := ih (step_onHost h hcomplete.1 ha htype)
        ((s.step_mIPList a).trans hlist) hcomplete.2 has htypes' hrest
      exact ⟨hfault, attributedAs_onHost h ha htype hone, halong⟩

/-- A monitor that is started on the host. -/
def start (host : Host) (processes : ProcessIndex) (iplist : IPList) (interval : Int32)
    (db : Database) : Monitor :=
  init iplist { mSocketIndex := SocketIndex.init host.net, mProcessIndex := processes } interval db

/--
**On a host that stays as it is, what is counted for an application is the traffic of its frames**,
in every run and with the threads in any order, and no frame ends the daemon.
-/
theorem applications_run (host : Host) (cacheSize : Int32) (processes : ProcessIndex)
    (hinit : ProcessIndex.init cacheSize host.proc.toProc = .ok processes) (iplist : IPList)
    (interval : Int32) (db : Database) (hdb : db.Sound) (as : List MonitorAction)
    (h : Along step Recorded (start host processes iplist interval db) as)
    (hseen : ∀ a ∈ as, SeenOn host a) (hsame : SameProtocol iplist (framesOf as))
    (names : Bytes → Bool) (mine : CapturedFrame → Bool)
    (hbelongs : ∀ f ∈ framesOf as, Belongs host iplist names mine f) :
    (exec step (start host processes iplist interval db) as).fault = none ∧
      ∀ c : Counter, (exec step (start host processes iplist interval db) as).accounted names c =
        (start host processes iplist interval db).accounted names c +
          Sniffer.counted iplist.contains c
            ((trace step taken (start host processes iplist interval db) as).filter mine) := by
  obtain ⟨processes', hinit', hprocesses⟩ := ProcessIndex.init_onHost host cacheSize
  obtain rfl : processes = processes' := Except.ok.inj (hinit.symm.trans hinit')
  obtain ⟨types, htypes⟩ := ProcessResolver.exists_types hsame
  have htypes' : ∀ f ∈ framesOf as, ∀ pkt ∈ packetOf iplist f,
      types (PacketHash.ofPacket pkt) = pkt.type := fun f hf pkt hpkt =>
    htypes pkt (List.mem_filterMap.mpr ⟨f, hf, hpkt⟩)
  have hcomplete : Along step CompleteFrame (start host processes iplist interval db) as :=
    along_of_guard (I := fun _ => True) (fun _ _ _ ha => ⟨trivial, ha.1⟩) trivial h
  obtain ⟨hfault, hmine⟩ := along_onHost (s := start host processes iplist interval db)
    ⟨⟨SocketIndex.init_onHost host types, hprocesses⟩, rfl⟩ rfl hcomplete hseen htypes' hbelongs
  refine ⟨hfault, fun c => ?_⟩
  rw [accounted_run (System.books_init interval hdb) h hmine, sum_amountsOfFrame]
  rfl

/-- A first packet has room on its line. -/
theorem fits_empty {pkt : Packet} {n : Nat} (hlen : pkt.len.toInt = n) (hn : n < 2 ^ 31) :
    Fits {} pkt := by
  intro c
  by_cases hdir : pkt.direction = .incoming
  · cases c <;> (simp [Counter.read, Counter.amount, Counter.InRange, hdir, hlen]; try omega)
  · cases c <;> (simp [Counter.read, Counter.amount, Counter.InRange, hdir, hlen]; try omega)

theorem recorded_first (hempty : s.sys.storage.mApplicationTraffic = ∅)
    (hidle : s.sys.pending captureThread = none) {f : CapturedFrame} (hf : f.Complete)
    (net : ProcNet) (proc : Proc) : (s.step (.frame f net proc)).Recorded .increment := by
  refine ⟨trivial, ?_⟩
  unfold sysActions
  split
  · exact trivial
  refine ⟨fun p hp => ?_, trivial⟩
  obtain ⟨pkt, hpkt, hdiscard, hcounts⟩ := Packet.ofFrame_spec hf s.mIPList
  rcases s.step_frame_cases f net proc with ⟨-, hstep⟩ | ⟨e, -, hstep, -⟩ |
    ⟨_, -, -, -, -, hstep⟩ | ⟨pkt', process, resolver, -, -, hpkt', hkept, -, hstep⟩
  · rw [hstep, hidle] at hp
    exact absurd hp (by simp)
  · rw [hstep] at hp
    exact absurd (hidle.symm.trans hp) (by simp)
  · rw [hstep, hidle] at hp
    exact absurd hp (by simp)
  · obtain rfl : pkt = pkt' := Option.some.inj (hpkt.symm.trans hpkt')
    obtain ⟨dir, hdir⟩ := Option.ne_none_iff_exists'.mp (mt hdiscard.mpr (by simp [hkept]))
    obtain ⟨-, hlen⟩ := hcounts dir hdir
    rw [hstep] at hp ⊢
    simp only [System.step, hidle, TrafficStorage.lookupLine, hempty, AList.lookup_empty,
      Function.update_self, Option.some.injEq] at hp ⊢
    rw [← hp]
    refine ⟨rfl, fun line hline => ?_⟩
    rw [AList.lookup_insert, Option.some.injEq] at hline
    rw [← hline]
    exact fits_empty hlen hf.len_lt

/-- A host whose one UDP socket has the port that a datagram comes in on. -/
def openPort : Host where
  net
    | .udp => some [ascii "  sl  local_address rem_address",
        ascii "   0: 00000000:0043 00000000:0000 07 00:00000000 00:00000000 00000000 0 0 100"]
    | _ => some []
  proc := ProcessIndex.shortPath
  terminated := ProcessResolver.sharedConnection.terminated

theorem linesFor_openPort : SocketIndex.linesFor openPort.net .udp = [(PacketHash.ofPort 67, 100)] := by
  decide +kernel

/-- The datagram belongs to the process that has the socket open, whichever of the two it is. -/
theorem belongs_datagram :
    Belongs openPort oneAddress (· == ascii "sshd") (fun _ => true)
      (Sniffer.datagram [8, 8, 8, 8] [192, 168, 0, 2]) := by
  intro pkt hpkt
  have hparsed : (packetOf oneAddress (Sniffer.datagram [8, 8, 8, 8] [192, 168, 0, 2])).map
      (fun pkt => (pkt.type, PacketHash.ofPacket pkt)) = some (.udp, PacketHash.ofPort 67) := by
    decide +kernel
  rw [Option.mem_def.mp hpkt, Option.map_some, Option.some.injEq, Prod.mk.injEq] at hparsed
  obtain ⟨htype, hkey⟩ := hparsed
  rw [htype, hkey]
  refine ⟨fun table e he _ => ?_, fun process hprocess => ?_⟩
  · cases table with
    | udp => exact List.mem_cons_self
    | _ => exact absurd he List.not_mem_nil
  · cases hprocess with
    | owner line owns =>
        obtain ⟨pid, rfl, -⟩ := owns
        rfl
    | noLine none =>
        rw [htype, hkey, linesFor_openPort] at none
        exact absurd rfl (none _ List.mem_cons_self)
    | orphan line orphan =>
        rw [htype, hkey, linesFor_openPort, List.mem_singleton, Prod.mk.injEq] at line
        refine absurd ?_ (orphan 10 (by decide +kernel))
        rw [line.2]
        exact ⟨_, rfl, _, List.mem_cons_of_mem _ List.mem_cons_self, rfl, rfl⟩

def oneFrame : List MonitorAction :=
  [.frame (Sniffer.datagram [8, 8, 8, 8] [192, 168, 0, 2]) openPort.net openPort.proc.toProc,
    .increment]

/-- The datagram's bytes and its packet are counted for the name of the two processes. -/
theorem applications_run_openPort :
    ∃ processes, ProcessIndex.init 5 openPort.proc.toProc = .ok processes ∧
      (exec step (start openPort processes oneAddress 10 Database.empty) oneFrame).fault = none ∧
        ∀ c : Counter, (exec step (start openPort processes oneAddress 10 Database.empty)
            oneFrame).accounted (· == ascii "sshd") c =
          (start openPort processes oneAddress 10 Database.empty).accounted (· == ascii "sshd") c +
            Sniffer.counted oneAddress.contains c ((trace step taken
              (start openPort processes oneAddress 10 Database.empty) oneFrame).filter
                fun _ => true) := by
  obtain ⟨processes, hinit, -⟩ := ProcessIndex.init_onHost openPort 5
  have hcomplete := @Sniffer.complete_datagram [8, 8, 8, 8] [192, 168, 0, 2] rfl rfl _ List.mem_cons_self
  have hrecorded : Along step Recorded (start openPort processes oneAddress 10 Database.empty)
      oneFrame :=
    ⟨recorded_frame _ hcomplete _ _, recorded_first rfl rfl hcomplete _ _, trivial⟩
  have hseen : ∀ a ∈ oneFrame, SeenOn openPort a := by
    intro a ha
    rcases List.mem_pair.mp ha with rfl | rfl
    · exact ⟨rfl, rfl⟩
    · exact trivial
  have hsame : SameProtocol oneAddress (framesOf oneFrame) := by
    intro p hp q hq _
    obtain ⟨f, hf, hp⟩ := List.mem_filterMap.mp hp
    obtain ⟨g, hg, hq⟩ := List.mem_filterMap.mp hq
    rw [List.mem_singleton.mp hf] at hp
    rw [List.mem_singleton.mp hg, hp] at hq
    rw [Option.some.inj hq]
  refine ⟨processes, hinit, applications_run openPort 5 processes hinit oneAddress 10
    Database.empty System.sound_empty oneFrame hrecorded hseen hsame (· == ascii "sshd")
    (fun _ => true) fun f hf => ?_⟩
  rw [List.mem_singleton.mp hf]
  exact belongs_datagram

end Monitor

end Ntmd
