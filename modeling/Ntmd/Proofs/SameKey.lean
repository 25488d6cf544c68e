/-
A packet and its socket's line have the same key.

Both sides are put beside the connection they are about, from a local end `l` to a
remote end `r`: `ofFrame_key` says that a frame in either direction gives the key
`connKey l r` (or for UDP the port of `l` alone), and `lineEntry_print` that a
kernel's line gives the same.
-/
import Ntmd.Net.Frame
import Ntmd.Proofs.SocketLine

namespace Ntmd

open Bytes Scanf

/-! ### Words and bytes -/

theorem word16_toNat (a b : UInt8) : (word16 a b).toNat = a.toNat + 256 * b.toNat := by
  have ha := a.toNat_lt
  have hb := b.toNat_lt
  rw [word16, UInt16.toNat_ofNat']
  omega

theorem ntohs_word16 (p : UInt16) :
    ntohs (word16 (UInt8.ofNat (p.toNat / 256)) (UInt8.ofNat (p.toNat % 256))) = p := by
  have h := p.toNat_lt
  have hhi : (UInt8.ofNat (p.toNat / 256)).toNat = p.toNat / 256 := by
    rw [UInt8.toNat_ofNat']
    omega
  have hlo : (UInt8.ofNat (p.toNat % 256)).toNat = p.toNat % 256 := by
    rw [UInt8.toNat_ofNat']
    omega
  have hmod : (p.toNat / 256 + 256 * (p.toNat % 256)) % 256 = p.toNat / 256 := by omega
  have hdiv : (p.toNat / 256 + 256 * (p.toNat % 256)) / 256 = p.toNat % 256 := by omega
  rw [ntohs, word16_toNat, hhi, hlo, hmod, hdiv, ← UInt16.toNat_inj, UInt16.toNat_ofNat']
  omega

theorem word32_toNat (a b c d : UInt8) :
    (word32 a b c d).toNat = a.toNat + 256 * b.toNat + 65536 * c.toNat + 16777216 * d.toNat := by
  have ha := a.toNat_lt
  have hb := b.toNat_lt
  have hc := c.toNat_lt
  have hd := d.toNat_lt
  rw [word32, UInt32.toNat_ofNat']
  omega

/-- An address is known by its word. -/
theorem Endpoint.eq_of_ip {e e' : Endpoint} (hip : e.ip = e'.ip) (hport : e.port = e'.port) :
    e = e' := by
  have hword : e.ip.toNat = e'.ip.toNat := congrArg _ hip
  rw [Endpoint.ip, Endpoint.ip, word32_toNat, word32_toNat] at hword
  have ha := e.a.toNat_lt
  have hb := e.b.toNat_lt
  have hc := e.c.toNat_lt
  have hd := e.d.toNat_lt
  have ha' := e'.a.toNat_lt
  have hb' := e'.b.toNat_lt
  have hc' := e'.c.toNat_lt
  have hd' := e'.d.toNat_lt
  obtain ⟨a, b, c, d, port⟩ := e
  obtain ⟨a', b', c', d', port'⟩ := e'
  simp only [Endpoint.mk.injEq, ← UInt8.toNat_inj] at *
  exact ⟨by omega, by omega, by omega, by omega, hport⟩

theorem Endpoint.AddressAt.load32 {e : Endpoint} {raw : Bytes} {i : Nat} (h : e.AddressAt raw i) :
    load32 raw i = some e.ip := by
  obtain ⟨ha, hb, hc, hd⟩ := h
  rw [Ntmd.load32, ha, hb, hc, hd]
  rfl

theorem Endpoint.PortAt.load16 {e : Endpoint} {raw : Bytes} {i : Nat} (h : e.PortAt raw i) :
    ∃ v, load16 raw i = some v ∧ ntohs v = e.port := by
  obtain ⟨hhi, hlo⟩ := h
  refine ⟨_, ?_, ntohs_word16 e.port⟩
  rw [Ntmd.load16, hhi, hlo]

/-! ### The local addresses -/

/-- A list with an address in it is searched through from the first slot to the last. -/
theorem IPList.contains_iff {l : IPList} (h : 0 < l.mSize) (ip : UInt32) :
    l.contains ip = true ↔ ip ∈ l.addresses := by
  have hsize := l.size_le
  rw [IPList.contains, IPList.addresses, Bool.or_eq_true, List.any_eq_true,
    List.mem_take_iff_getElem]
  constructor
  · rintro (hfirst | ⟨i, hi, hip⟩)
    · exact ⟨0, by simp; omega, by simpa using hfirst⟩
    · obtain ⟨hlo, hhi⟩ := List.mem_range'_1.mp hi
      have hi64 : i < 64 := by omega
      refine ⟨i, by simp; omega, ?_⟩
      simpa [hi64] using hip
  · rintro ⟨i, hi, rfl⟩
    rw [Vector.length_toList] at hi
    cases i with
    | zero => exact Or.inl (by simp)
    | succ i =>
        have hi64 : i + 1 < 64 := by omega
        exact Or.inr ⟨i + 1, List.mem_range'_1.mpr ⟨by omega, by omega⟩, by simp [hi64]⟩

theorem IPList.size_pos {l : IPList} {ip : UInt32} (h : ip ∈ l.addresses) : 0 < l.mSize := by
  rcases Nat.eq_zero_or_pos l.mSize with h0 | h0
  · rw [IPList.addresses, h0] at h
    exact absurd h (by simp)
  · exact h0

theorem directionOf_outgoing {iplist : IPList} {src dst : UInt32} (h : src ∈ iplist.addresses) :
    Packet.directionOf iplist src dst = .outgoing := by
  rw [Packet.directionOf, if_pos ((IPList.contains_iff (IPList.size_pos h) src).mpr h)]

theorem directionOf_incoming {iplist : IPList} {src dst : UInt32} (hs : src ∉ iplist.addresses)
    (hd : dst ∈ iplist.addresses) : Packet.directionOf iplist src dst = .incoming := by
  have hcontains := IPList.contains_iff (IPList.size_pos hd)
  rw [Packet.directionOf, if_neg (mt (hcontains src).mp hs), if_pos ((hcontains dst).mpr hd)]

/-! ### The packet -/

namespace Packet

/-- The transport header of a frame whose direction is known. -/
theorem ofFrame_eq {raw : Bytes} {ihl : Nat} {protocol : UInt8} {src dst : Endpoint}
    (h : IsFrame raw ihl protocol src dst) (header : PcapHeader) {iplist : IPList}
    (hdir : directionOf iplist src.ip dst.ip ≠ .unknown) :
    ofFrame header raw iplist = parseTransport raw (ihl * 4 + 14)
      { protocol := protocol, sip := src.ip, dip := dst.ip, len := Int32.ofNat header.len.toNat,
        timestamp := header.tsSec, direction := directionOf iplist src.ip dst.ip } := by
  obtain ⟨verIhl, hver, hihl⟩ := h.ihl_eq
  have hether : load16 raw 12 = some (word16 8 0) := by
    rw [load16, h.etherType.1, h.etherType.2]
  have hntohs : ntohs (word16 8 0) = etherTypeIP := by decide
  simp [ofFrame, hether, hntohs, hver, hihl, h.protocol_eq, h.source.load32, h.dest.load32, hdir]

/-- The ports of a frame's transport header. -/
theorem ports_of_isFrame {raw : Bytes} {ihl : Nat} {protocol : UInt8} {src dst : Endpoint}
    (h : IsFrame raw ihl protocol src dst) :
    ∃ s d, load16 raw (ihl * 4 + 14) = some s ∧ load16 raw (ihl * 4 + 14 + 2) = some d ∧
      ntohs s = src.port ∧ ntohs d = dst.port := by
  obtain ⟨s, hs, hsport⟩ := h.sourcePort.load16
  obtain ⟨d, hd, hdport⟩ := h.destPort.load16
  exact ⟨s, d, hs, hd, hsport, hdport⟩

theorem parseTransport_tcp {raw : Bytes} {ihl : Nat} {src dst : Endpoint}
    (h : IsFrame raw ihl ipprotoTCP src dst) {pkt : Packet} (hpkt : pkt.protocol = ipprotoTCP) :
    parseTransport raw (ihl * 4 + 14) pkt = some { pkt with
      type := .tcp, totalHeaderLen := Int32.ofNat (ihl * 4 + 14 + 4),
      sport := src.port, dport := dst.port } := by
  obtain ⟨s, d, hs, hd, hsport, hdport⟩ := ports_of_isFrame h
  simp [parseTransport, hpkt, hs, hd, hsport, hdport]

theorem IsService.swap {p q : UInt16} (h : IsService p q) : IsService q p := by
  unfold IsService at h ⊢
  tauto

theorem distinguishUdp_of_not_isService {pkt : Packet} (h : ¬ IsService pkt.sport pkt.dport) :
    distinguishUdp pkt = pkt := by
  simp only [IsService, not_or] at h
  obtain ⟨h53, h5353, h1900, h123⟩ := h
  have hdns : ¬ ((pkt.sport = 53 ∨ pkt.dport = 53) ∨ (pkt.sport = 5353 ∧ pkt.dport = 5353)) := by
    tauto
  have hssdp : ¬ (pkt.sport = 1900 ∨ pkt.dport = 1900) := by tauto
  simp only [distinguishUdp, if_neg hdns, if_neg hssdp, if_neg h123]

theorem parseTransport_udp {raw : Bytes} {ihl : Nat} {src dst : Endpoint}
    (h : IsFrame raw ihl ipprotoUDP src dst) (hports : ¬ IsService src.port dst.port)
    {pkt : Packet} (hpkt : pkt.protocol = ipprotoUDP) :
    parseTransport raw (ihl * 4 + 14) pkt = some { pkt with
      type := .udp, totalHeaderLen := Int32.ofNat (ihl * 4 + 14 + 8),
      sport := src.port, dport := dst.port } := by
  obtain ⟨s, d, hs, hd, hsport, hdport⟩ := ports_of_isFrame h
  have hne : ipprotoUDP ≠ ipprotoTCP := by decide
  simp [parseTransport, hpkt, hne, hs, hd, hsport, hdport, distinguishUdp_of_not_isService, hports]

end Packet

open Packet

/-! ### The two keys -/

/-- The key of a connection between a local and a remote end. -/
def connKey (l r : Endpoint) : PacketHash :=
  { ip1 := l.ip, port1 := l.port, ip2 := r.ip, port2 := r.port }

theorem connKey_inj {l r l' r' : Endpoint} (h : connKey l r = connKey l' r') :
    l = l' ∧ r = r' := by
  obtain ⟨hip1, hport1, hip2, hport2⟩ := (PacketHash.mk.injEq ..).mp h
  exact ⟨Endpoint.eq_of_ip hip1 hport1, Endpoint.eq_of_ip hip2 hport2⟩

/-- A frame of the connection, in one direction or the other. -/
def IsTraffic (raw : Bytes) (protocol : UInt8) (l r : Endpoint) : Prop :=
  ∃ ihl, 5 ≤ ihl ∧ ihl ≤ 15 ∧ (IsFrame raw ihl protocol l r ∨ IsFrame raw ihl protocol r l)

/-- The local end is one of the device's addresses, and the remote end is not. -/
def IsConnection (iplist : IPList) (l r : Endpoint) : Prop :=
  l.ip ∈ iplist.addresses ∧ r.ip ∉ iplist.addresses

theorem ofFrame_tcp {iplist : IPList} {l r : Endpoint} (hconn : IsConnection iplist l r)
    {raw : Bytes} (h : IsTraffic raw ipprotoTCP l r) (header : PcapHeader) :
    ∃ pkt, ofFrame header raw iplist = some pkt ∧ pkt.discard = false ∧ pkt.type = .tcp ∧
      PacketHash.ofPacket pkt = connKey l r := by
  obtain ⟨ihl, -, -, hout | hin⟩ := h
  · have hdir : directionOf iplist l.ip r.ip = .outgoing := directionOf_outgoing hconn.1
    rw [ofFrame_eq hout header (by rw [hdir]; decide), parseTransport_tcp hout rfl]
    exact ⟨_, rfl, rfl, rfl, by simp [PacketHash.ofPacket, hdir, connKey]⟩
  · have hdir := directionOf_incoming hconn.2 hconn.1
    rw [ofFrame_eq hin header (by rw [hdir]; decide), parseTransport_tcp hin rfl]
    exact ⟨_, rfl, rfl, rfl, by simp [PacketHash.ofPacket, hdir, connKey]⟩

theorem ofFrame_udp {iplist : IPList} {l r : Endpoint} (hconn : IsConnection iplist l r)
    (hports : ¬ IsService l.port r.port) {raw : Bytes} (h : IsTraffic raw ipprotoUDP l r)
    (header : PcapHeader) :
    ∃ pkt, ofFrame header raw iplist = some pkt ∧ pkt.discard = false ∧ pkt.type = .udp ∧
      PacketHash.ofPacket pkt = PacketHash.ofPort l.port := by
  obtain ⟨ihl, -, -, hout | hin⟩ := h
  · have hdir : directionOf iplist l.ip r.ip = .outgoing := directionOf_outgoing hconn.1
    rw [ofFrame_eq hout header (by rw [hdir]; decide), parseTransport_udp hout hports rfl]
    exact ⟨_, rfl, rfl, rfl, by simp [PacketHash.ofPacket, hdir, PacketHash.ofPort]⟩
  · have hdir := directionOf_incoming hconn.2 hconn.1
    rw [ofFrame_eq hin header (by rw [hdir]; decide),
      parseTransport_udp hin (fun hs => hports hs.swap) rfl]
    exact ⟨_, rfl, rfl, rfl, by simp [PacketHash.ofPacket, hdir, PacketHash.ofPort]⟩

/-! ### The lines -/

/-- The line is that of a socket between the two ends. -/
def KernelLine.IsBetween (line : KernelLine) (l r : Endpoint) : Prop :=
  line.sock.localIP = l.ip ∧ line.sock.localPort = l.port ∧ line.sock.remoteIP = r.ip ∧
    line.sock.remotePort = r.port

namespace SocketIndex

/-- A line of an open socket writes its inode under its key, and nothing else. -/
theorem refreshLine_print {line : KernelLine} (h : line.sock.inode ≠ 0) (table : ProcNetTable)
    (m : SocketMap) :
    refreshLine table m line.print = m.insert (line.sock.hash table) line.sock.inode := by
  rw [refreshLine, lineEntry_print, if_neg h]

/-- A line that does not match in all five values changes nothing. -/
theorem refreshLine_of_malformed {line : Bytes} (h : (sscanf line lineFormat).length ≠ 5)
    (table : ProcNetTable) (m : SocketMap) : refreshLine table m line = m := by
  have hnone : Socket.ofLine line = none := by
    unfold Socket.ofLine
    split
    · rename_i heq
      rw [heq] at h
      exact absurd rfl h
    · rfl
  rw [refreshLine, lineEntry, hnone]

/-- A line whose inode is zero changes nothing. -/
theorem refreshLine_of_closed {line : Bytes} {sock : Socket} (h : Socket.ofLine line = some sock)
    (h0 : sock.inode = 0) (table : ProcNetTable) (m : SocketMap) :
    refreshLine table m line = m := by
  rw [refreshLine, lineEntry, h]
  simp [h0]

end SocketIndex

open SocketIndex

/--
**The packet side and the `/proc` side compute the same key.**  A TCP frame in either
direction has the key of its connection's line, and no other connection has it; a UDP
datagram has the key of any line with its local port.
-/
theorem same_key (iplist : IPList) :
    (∀ l r, IsConnection iplist l r → ∀ raw, IsTraffic raw ipprotoTCP l r → ∀ header,
      ∃ pkt, ofFrame header raw iplist = some pkt ∧ pkt.discard = false ∧
        ∀ line : KernelLine, line.IsBetween l r → line.sock.inode ≠ 0 → ∀ m,
          refreshLine .tcp m line.print
            = m.insert (PacketHash.ofPacket pkt) line.sock.inode) ∧
    (∀ l r l' r', IsConnection iplist l r → IsConnection iplist l' r' →
      ∀ raw raw', IsTraffic raw ipprotoTCP l r → IsTraffic raw' ipprotoTCP l' r' →
      ∀ header header' pkt pkt', ofFrame header raw iplist = some pkt →
        ofFrame header' raw' iplist = some pkt' →
        PacketHash.ofPacket pkt = PacketHash.ofPacket pkt' → l = l' ∧ r = r') ∧
    (∀ l r, IsConnection iplist l r → ¬ IsService l.port r.port →
      ∀ raw, IsTraffic raw ipprotoUDP l r → ∀ header,
      ∃ pkt, ofFrame header raw iplist = some pkt ∧ pkt.discard = false ∧
        ∀ line : KernelLine, line.sock.localPort = l.port → line.sock.inode ≠ 0 → ∀ m,
          refreshLine .udp m line.print
            = m.insert (PacketHash.ofPacket pkt) line.sock.inode) ∧
    (∀ table m line, (sscanf line lineFormat).length ≠ 5 → refreshLine table m line = m) ∧
    (∀ table m line sock, Socket.ofLine line = some sock → sock.inode = 0 →
      refreshLine table m line = m) := by
  refine ⟨?_, ?_, ?_, ?_, ?_⟩
  · intro l r hconn raw hraw header
    obtain ⟨pkt, hpkt, hdiscard, -, hkey⟩ := ofFrame_tcp hconn hraw header
    refine ⟨pkt, hpkt, hdiscard, fun line hline hinode m => ?_⟩
    obtain ⟨hlip, hlport, hrip, hrport⟩ := hline
    rw [refreshLine_print hinode, hkey, Socket.hash, if_neg (by decide), hlip, hlport, hrip,
      hrport, connKey]
  · intro l r l' r' hconn hconn' raw raw' hraw hraw' header header' pkt pkt' hpkt hpkt' heq
    obtain ⟨p, hp, -, -, hkey⟩ := ofFrame_tcp hconn hraw header
    obtain ⟨p', hp', -, -, hkey'⟩ := ofFrame_tcp hconn' hraw' header'
    rw [hpkt, Option.some.injEq] at hp
    rw [hpkt', Option.some.injEq] at hp'
    rw [hp, hp', hkey, hkey'] at heq
    exact connKey_inj heq
  · intro l r hconn hports raw hraw header
    obtain ⟨pkt, hpkt, hdiscard, -, hkey⟩ := ofFrame_udp hconn hports hraw header
    refine ⟨pkt, hpkt, hdiscard, fun line hport hinode m => ?_⟩
    rw [refreshLine_print hinode, hkey, Socket.hash, if_pos rfl, hport]
  · intro table m line h
    exact refreshLine_of_malformed h table m
  · intro table m line sock h h0
    exact refreshLine_of_closed h h0 table m

/-! ### One connection -/

def localEnd : Endpoint := ⟨192, 168, 0, 2, 43210⟩

def remoteEnd : Endpoint := ⟨93, 184, 216, 34, 443⟩

/-- A device with the one address of the local end. -/
def oneAddress : IPList :=
  { mIPs := (Vector.replicate 64 0).set 0 localEnd.ip (Nat.succ_pos 63), mSize := 1
    size_le := Nat.le_add_left 1 63 }

/-- A frame from the local end to the remote one, with twenty bytes of IP header. -/
def outgoingFrame (protocol : UInt8) : Bytes :=
  [0, 0, 0, 0, 0, 0, 0, 0, 0, 0, 0, 0, 8, 0,
   0x45, 0, 0, 60, 0, 0, 0x40, 0, 64, protocol, 0, 0, 192, 168, 0, 2, 93, 184, 216, 34,
   0xA8, 0xCA, 0x01, 0xBB]

/-- The line of the socket between the two ends. -/
def openLine : KernelLine where
  sock :=
    { localIP := localEnd.ip, localPort := localEnd.port, remoteIP := remoteEnd.ip
      remotePort := remoteEnd.port, inode := 31337 }
  slotPad := 3
  slot := 7
  state := ⟨ascii "01", by decide, List.all_eq_true.mp (by decide)⟩
  txQueue := ⟨ascii "00000000", by decide, List.all_eq_true.mp (by decide)⟩
  rxQueue := ⟨ascii "00000000", by decide, List.all_eq_true.mp (by decide)⟩
  timer := ⟨ascii "02", by decide, List.all_eq_true.mp (by decide)⟩
  expires := ⟨ascii "000A1F3C", by decide, List.all_eq_true.mp (by decide)⟩
  retransmits := ⟨ascii "00000000", by decide, List.all_eq_true.mp (by decide)⟩
  uidPad := 2
  uid := 1000
  timeoutPad := 8
  timeout := 0
  rest := ascii "2 0000000000000000 21 4 30 10 -1"
  inode_lt := by decide
  zero_not_mem := by decide

theorem isTraffic_outgoingFrame (protocol : UInt8) :
    IsTraffic (outgoingFrame protocol) protocol localEnd remoteEnd :=
  ⟨5, by decide, by decide, Or.inl
    { etherType := ⟨rfl, rfl⟩
      ihl_eq := ⟨0x45, rfl, by decide⟩
      protocol_eq := rfl
      source := ⟨rfl, rfl, rfl, rfl⟩
      dest := ⟨rfl, rfl, rfl, rfl⟩
      sourcePort := ⟨rfl, rfl⟩
      destPort := ⟨rfl, rfl⟩ }⟩

theorem isConnection_oneAddress : IsConnection oneAddress localEnd remoteEnd := by
  have haddresses : oneAddress.addresses = [localEnd.ip] := by decide
  rw [IsConnection, haddresses]
  decide

/-- A frame of the connection, its line, and the header line of the table. -/
theorem same_key_open :
    (∃ pkt, ofFrame ⟨1672549200, 74⟩ (outgoingFrame ipprotoTCP) oneAddress = some pkt ∧
      refreshLine .tcp ∅ openLine.print = AList.insert (PacketHash.ofPacket pkt) 31337 ∅) ∧
    (∃ pkt, ofFrame ⟨1672549200, 74⟩ (outgoingFrame ipprotoUDP) oneAddress = some pkt ∧
      refreshLine .udp ∅ openLine.print = AList.insert (PacketHash.ofPacket pkt) 31337 ∅) ∧
    refreshLine .tcp ∅ (ascii "  sl  local_address rem_address") = ∅ := by
  obtain ⟨htcp, -, hudp, hmalformed, -⟩ := same_key oneAddress
  refine ⟨?_, ?_, ?_⟩
  · obtain ⟨pkt, hpkt, -, hline⟩ := htcp localEnd remoteEnd isConnection_oneAddress _
      (isTraffic_outgoingFrame ipprotoTCP) ⟨1672549200, 74⟩
    exact ⟨pkt, hpkt, hline openLine ⟨rfl, rfl, rfl, rfl⟩ (by decide) ∅⟩
  · obtain ⟨pkt, hpkt, -, hline⟩ := hudp localEnd remoteEnd isConnection_oneAddress
      (by unfold IsService; decide) _ (isTraffic_outgoingFrame ipprotoUDP) ⟨1672549200, 74⟩
    exact ⟨pkt, hpkt, hline openLine rfl (by decide) ∅⟩
  · exact hmalformed .tcp ∅ _ (by decide)

end Ntmd
