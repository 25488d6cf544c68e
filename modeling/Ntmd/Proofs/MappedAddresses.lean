/-
What the tcp6 table is read as.

The 32 digits of an IPv6 address go through the same `%X` as the 8 digits of an IPv4
one.  The conversion saturates at 64 bits and keeps the low 32: when the upper two
words of the address are zero what is left is its last word, which in `::ffff:a.b.c.d`
is the word of `a.b.c.d`, and otherwise it is 255.255.255.255 (`unpackIP_print`).
-/
import Ntmd.Net.Frame
import Ntmd.Proofs.SameKey
import Ntmd.Proofs.SocketLine

namespace Ntmd

open Bytes Scanf

namespace Address6

/-- The upper half of the address, its network prefix. -/
def upper (ip : Address6) : Nat := ip.w0.toNat * 2 ^ 32 + ip.w1.toNat

/-- The IPv4 address an IPv6 address is read as. -/
def asIPv4 (ip : Address6) : UInt32 := if ip.upper = 0 then ip.w3 else 0xFFFFFFFF

theorem isAddressText_print (ip : Address6) : IsAddressText ip.print where
  ne_nil := by
    rw [← List.length_pos_iff]
    simp [print, hexPad_length]
  length_le := by simp [print, hexPad_length]
  isHex c hc := by
    rw [print, List.mem_append, List.mem_append, List.mem_append] at hc
    rcases hc with ((hc | hc) | hc) | hc <;> exact isHex_of_mem_hexPad hc

/-- The digits as one number. -/
theorem value_print (ip : Address6) :
    value 16 ip.print = ip.upper * 2 ^ 64 + (ip.w2.toNat * 2 ^ 32 + ip.w3.toNat) := by
  have h0 := ip.w0.toNat_lt
  have h1 := ip.w1.toNat_lt
  have h2 := ip.w2.toNat_lt
  have h3 := ip.w3.toNat_lt
  rw [print, value_append, value_append, value_append, value_hexPad, value_hexPad, value_hexPad,
    value_hexPad, hexPad_length, hexPad_length, hexPad_length, upper]
  omega

/-- The low half of what `strtoul` makes of the digits. -/
theorem clampULong_print (ip : Address6) :
    clampULong (value 16 ip.print : Nat) % 2 ^ 32 = ip.asIPv4.toNat := by
  have h2 := ip.w2.toNat_lt
  have h3 := ip.w3.toNat_lt
  rw [value_print, asIPv4]
  split
  · rename_i hupper
    rw [hupper, clampULong_natCast (by omega)]
    omega
  · rename_i hupper
    -- Anything in the upper half takes the number over the largest one of 64 bits.
    have hsaturated : ¬ (ip.upper * 2 ^ 64 + (ip.w2.toNat * 2 ^ 32 + ip.w3.toNat)) < 2 ^ 64 := by
      omega
    rw [clampULong, Int.natAbs_natCast, if_neg hsaturated]
    rfl

theorem unpackIP_print (ip : Address6) : unpackIP ip.print = ip.asIPv4 := by
  have htext := isAddressText_print ip
  have hread : readHex ip.print = some ((value 16 ip.print : Int), []) := by
    rw [← List.append_nil ip.print, readHex_digits htext.ne_nil htext.isHex (stops_nil _),
      List.append_nil]
  have hstep : Directive.hexInt.apply ip.print = some ([.num ip.asIPv4.toNat], []) := by
    rw [Directive.apply, hread, Option.map_some, clampULong_print]
  rw [unpackIP, sscanf, cstr_of_not_mem htext.zero_not_mem, scan_cons hstep]
  exact CInt.uint32_ofInt_toNat ip.asIPv4

theorem asIPv4_mapped (a b c d : UInt8) : (mapped a b c d).asIPv4 = word32 a b c d := by
  have hupper : (mapped a b c d).upper = (word32 0 0 0 0).toNat * 2 ^ 32 + (word32 0 0 0 0).toNat :=
    rfl
  rw [asIPv4, hupper, if_pos (by decide)]
  rfl

end Address6

/-- The address of a packet on this host's side. -/
def Packet.localIP (pkt : Packet) : UInt32 := if pkt.direction = .outgoing then pkt.sip else pkt.dip

/-- The address of a packet on the other side. -/
def Packet.remoteIP (pkt : Packet) : UInt32 :=
  if pkt.direction = .outgoing then pkt.dip else pkt.sip

/-- The map with the inode under the key, which closed sockets are not put into. -/
def SocketMap.stored (m : SocketMap) (key : PacketHash) (inode : UInt64) : SocketMap :=
  if inode = 0 then m else m.insert key inode

theorem PacketHash.ofPacket_tcp {pkt : Packet} (htype : pkt.type = .tcp) :
    (ofPacket pkt).ip1 = pkt.localIP ∧ (ofPacket pkt).ip2 = pkt.remoteIP := by
  have hudp : ¬ pkt.type = .udp := by
    rw [htype]
    decide
  rw [ofPacket, Packet.localIP, Packet.remoteIP, if_neg hudp, if_neg hudp]
  split <;> exact ⟨rfl, rfl⟩

/-- The key a line of tcp6 is stored under. -/
def KernelLine.key6 (l : KernelLine) (localIP remoteIP : Address6) : PacketHash :=
  { ip1 := localIP.asIPv4, port1 := l.sock.localPort
    ip2 := remoteIP.asIPv4, port2 := l.sock.remotePort }

theorem refreshLine_stored6 (l : KernelLine) (localIP remoteIP : Address6) (m : SocketMap) :
    SocketIndex.refreshLine .tcp6 m (l.print6 localIP remoteIP) =
      m.stored (l.key6 localIP remoteIP) l.sock.inode := by
  rw [SocketIndex.refreshLine, lineEntry, KernelLine.print6,
    ofLine_printWith l localIP.isAddressText_print remoteIP.isAddressText_print,
    localIP.unpackIP_print, remoteIP.unpackIP_print, SocketMap.stored]
  by_cases hinode : l.sock.inode = 0
  · simp [hinode]
  · simp only [hinode, if_false]
    rfl

theorem refreshLine_stored (table : ProcNetTable) (l : KernelLine) (m : SocketMap) :
    SocketIndex.refreshLine table m l.print = m.stored (l.sock.hash table) l.sock.inode := by
  rw [SocketIndex.refreshLine, lineEntry_print, SocketMap.stored]
  by_cases hinode : l.sock.inode = 0
  · simp [hinode]
  · simp only [hinode, if_false]

/-- **The tcp6 table is read soundly as one of IPv4.** -/
theorem tcp6_sound :
    (∀ (src dst : Endpoint) (l6 l : KernelLine),
      l6.sock.localPort = src.port → l6.sock.remotePort = dst.port →
      l.sock.localIP = src.ip → l.sock.localPort = src.port →
      l.sock.remoteIP = dst.ip → l.sock.remotePort = dst.port →
      ∃ key, ∀ m,
        SocketIndex.refreshLine .tcp6 m (l6.print6 (.mapped src.a src.b src.c src.d)
          (.mapped dst.a dst.b dst.c dst.d)) = m.stored key l6.sock.inode ∧
        SocketIndex.refreshLine .tcp m l.print = m.stored key l.sock.inode) ∧
    ∀ (l6 : KernelLine) (localIP remoteIP : Address6), ∃ key,
      (∀ m, SocketIndex.refreshLine .tcp6 m (l6.print6 localIP remoteIP) =
        m.stored key l6.sock.inode) ∧
      (localIP.upper ≠ 0 → key.ip1 = 0xFFFFFFFF ∧
        ∀ pkt : Packet, pkt.type = .tcp → pkt.localIP ≠ 0xFFFFFFFF →
          PacketHash.ofPacket pkt ≠ key) ∧
      (remoteIP.upper ≠ 0 → key.ip2 = 0xFFFFFFFF ∧
        ∀ pkt : Packet, pkt.type = .tcp → pkt.remoteIP ≠ 0xFFFFFFFF →
          PacketHash.ofPacket pkt ≠ key) := by
  constructor
  · intro src dst l6 l hport6 hremotePort6 hlocal hport hremote hremotePort
    refine ⟨l6.key6 (.mapped src.a src.b src.c src.d) (.mapped dst.a dst.b dst.c dst.d),
      fun m => ⟨refreshLine_stored6 l6 _ _ m, ?_⟩⟩
    rw [refreshLine_stored, Socket.hash, if_neg (by decide), KernelLine.key6, Address6.asIPv4_mapped,
      Address6.asIPv4_mapped, hlocal, hport, hremote, hremotePort, hport6, hremotePort6]
    rfl
  · intro l6 localIP remoteIP
    refine ⟨l6.key6 localIP remoteIP, refreshLine_stored6 l6 localIP remoteIP, ?_, ?_⟩
    · intro hupper
      have hkey : (l6.key6 localIP remoteIP).ip1 = 0xFFFFFFFF := if_neg hupper
      refine ⟨hkey, fun pkt htype hne heq => hne ?_⟩
      rw [← (PacketHash.ofPacket_tcp htype).1, heq, hkey]
    · intro hupper
      have hkey : (l6.key6 localIP remoteIP).ip2 = 0xFFFFFFFF := if_neg hupper
      refine ⟨hkey, fun pkt htype hne heq => hne ?_⟩
      rw [← (PacketHash.ofPacket_tcp htype).2, heq, hkey]

/-- The global address `2606:2800:220:1::1946`. -/
def globalAddress : Address6 :=
  ⟨word32 0x26 0x06 0x28 0x00, word32 0x02 0x20 0x00 0x01, word32 0 0 0 0, word32 0 0 0x19 0x46⟩

/--
A connection listed in `tcp6` by its mapped addresses has the key of its line in `tcp`.  The
line of one between global addresses has a key that the frame of the connection does not have.
-/
theorem tcp6_sound_open :
    (∃ key,
      SocketIndex.refreshLine .tcp6 ∅ (openLine.print6 (.mapped 192 168 0 2)
        (.mapped 93 184 216 34)) = AList.insert key 31337 ∅ ∧
      SocketIndex.refreshLine .tcp ∅ openLine.print = AList.insert key 31337 ∅) ∧
    ∃ key pkt,
      SocketIndex.refreshLine .tcp6 ∅ (openLine.print6 globalAddress globalAddress) =
        AList.insert key 31337 ∅ ∧
      key.ip1 = 0xFFFFFFFF ∧ key.ip2 = 0xFFFFFFFF ∧
      Packet.ofFrame ⟨1672549200, 74⟩ (outgoingFrame Packet.ipprotoTCP) oneAddress = some pkt ∧
      PacketHash.ofPacket pkt ≠ key := by
  obtain ⟨hmapped, hany⟩ := tcp6_sound
  constructor
  · obtain ⟨key, hkey⟩ := hmapped localEnd remoteEnd openLine openLine rfl rfl rfl rfl rfl rfl
    exact ⟨key, hkey ∅⟩
  · obtain ⟨key, hline, hlocal, hremote⟩ := hany openLine globalAddress globalAddress
    obtain ⟨hip1, hpackets⟩ := hlocal (by decide)
    obtain ⟨hip2, -⟩ := hremote (by decide)
    obtain ⟨pkt, hpkt, -, htype, hpacket⟩ := ofFrame_tcp isConnection_oneAddress
      (isTraffic_outgoingFrame Packet.ipprotoTCP) ⟨1672549200, 74⟩
    have hsource : pkt.localIP = localEnd.ip := by
      rw [← (PacketHash.ofPacket_tcp htype).1, hpacket]
      rfl
    refine ⟨key, pkt, hline ∅, hip1, hip2, hpkt, hpackets pkt htype ?_⟩
    rw [hsource]
    decide

end Ntmd
