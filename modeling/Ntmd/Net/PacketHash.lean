/-
The key that ties a packet to a socket, `net/PacketHash`: local and remote end of
the connection, or for UDP the local port alone.
-/
import Ntmd.Net.Packet

namespace Ntmd

structure PacketHash where
  ip1 : UInt32 := 0
  port1 : UInt16 := 0
  ip2 : UInt32 := 0
  port2 : UInt16 := 0
  deriving DecidableEq, Repr

namespace PacketHash

/-- For UDP sockets, which have no set addresses. -/
def ofPort (localport : UInt16) : PacketHash := { port1 := localport }

/-- `PacketHash(const Packet&)`: source and destination are reordered to local and remote. -/
def ofPacket (pkt : Packet) : PacketHash :=
  if pkt.direction = .outgoing then
    if pkt.type = .udp then { port1 := pkt.sport }
    else { port1 := pkt.sport, ip1 := pkt.sip, ip2 := pkt.dip, port2 := pkt.dport }
  else
    if pkt.type = .udp then { port1 := pkt.dport }
    else { port1 := pkt.dport, ip1 := pkt.dip, ip2 := pkt.sip, port2 := pkt.sport }

end PacketHash

end Ntmd
