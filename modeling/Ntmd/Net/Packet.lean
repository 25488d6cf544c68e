/-
Parsing a captured frame, `net/Packet`.

`Packet.ofFrame` is the constructor.  The frame is the bytes libpcap captured, and
every read is of a byte that is there: a read past the end makes the constructor
undefined, which is the `none` of its result.  Integers in headers are loaded the
way a little-endian host loads them; `ntohs` swaps the two bytes of a port back.
-/
import Ntmd.Lib.Bytes
import Ntmd.Net.IPList

namespace Ntmd

inductive Direction
  | unknown
  | incoming
  | outgoing
  deriving DecidableEq, Repr

inductive PacketType
  | unknown
  | tcp
  | udp
  | icmp
  | dns
  | ssdp
  | ntp
  deriving DecidableEq, Repr

/-- The part of `pcap_pkthdr` the constructor reads. -/
structure PcapHeader where
  tsSec : Int64
  len : UInt32

structure Packet where
  type : PacketType := .unknown
  protocol : UInt8 := 0
  sip : UInt32 := 0
  dip : UInt32 := 0
  sport : UInt16 := 0
  dport : UInt16 := 0
  len : Int32 := 0
  totalHeaderLen : Int32 := 0
  direction : Direction := .unknown
  timestamp : Int64 := 0
  discard : Bool := false
  deriving DecidableEq, Repr

/-- Two bytes as a little-endian host loads them. -/
def word16 (a b : UInt8) : UInt16 := UInt16.ofNat (a.toNat + 256 * b.toNat)

/-- Four bytes as a little-endian host loads them. -/
def word32 (a b c d : UInt8) : UInt32 :=
  UInt32.ofNat (a.toNat + 256 * b.toNat + 65536 * c.toNat + 16777216 * d.toNat)

def load16 (raw : Bytes) (i : Nat) : Option UInt16 :=
  match raw[i]?, raw[i + 1]? with
  | some a, some b => some (word16 a b)
  | _, _ => none

def load32 (raw : Bytes) (i : Nat) : Option UInt32 :=
  match raw[i]?, raw[i + 1]?, raw[i + 2]?, raw[i + 3]? with
  | some a, some b, some c, some d => some (word32 a b c d)
  | _, _, _, _ => none

/-- Network to host byte order of a 16-bit value. -/
def ntohs (v : UInt16) : UInt16 := UInt16.ofNat (v.toNat % 256 * 256 + v.toNat / 256)

namespace Packet

/-- Size of the Ethernet header, `sizeof(ethhdr)`. -/
abbrev ethhdrLen : Nat := 14

abbrev etherTypeIP : UInt16 := 0x0800
abbrev ipprotoICMP : UInt8 := 1
abbrev ipprotoTCP : UInt8 := 6
abbrev ipprotoUDP : UInt8 := 17

/-- The direction the addresses give, the source being looked at first. -/
def directionOf (iplist : IPList) (sip dip : UInt32) : Direction :=
  if iplist.contains sip then .outgoing
  else if iplist.contains dip then .incoming
  else .unknown

/-- UDP packets are told apart further by their ports, and some kinds discarded. -/
def distinguishUdp (pkt : Packet) : Packet :=
  let pkt :=
    if (pkt.sport = 53 ∨ pkt.dport = 53) ∨ (pkt.sport = 5353 ∧ pkt.dport = 5353) then
      { pkt with type := .dns, discard := true }
    else pkt
  let pkt :=
    if pkt.sport = 1900 ∨ pkt.dport = 1900 then { pkt with type := .ssdp, discard := true } else pkt
  if pkt.sport = 123 ∧ pkt.dport = 123 then { pkt with type := .ntp, discard := true } else pkt

/-- The switch on the transport protocol, its header being at `offset`. -/
def parseTransport (rawPkt : Bytes) (offset : Nat) (pkt : Packet) : Option Packet :=
  if pkt.protocol = ipprotoTCP then do
    let source ← load16 rawPkt offset
    let dest ← load16 rawPkt (offset + 2)
    -- `sizeof(tcpHeader->doff * 4)` is the size of an `int`.
    return { pkt with
      type := .tcp, totalHeaderLen := Int32.ofNat (offset + 4),
      sport := ntohs source, dport := ntohs dest }
  else if pkt.protocol = ipprotoUDP then do
    let source ← load16 rawPkt offset
    let dest ← load16 rawPkt (offset + 2)
    return distinguishUdp { pkt with
      type := .udp, totalHeaderLen := Int32.ofNat (offset + 8),
      sport := ntohs source, dport := ntohs dest }
  else if pkt.protocol = ipprotoICMP then
    return { pkt with
      type := .icmp, totalHeaderLen := Int32.ofNat (offset + 8), sport := 0, dport := 0 }
  else return { pkt with discard := true }

/-- The constructor `Packet(header, rawPkt, iplist)`. -/
def ofFrame (header : PcapHeader) (rawPkt : Bytes) (iplist : IPList) : Option Packet := do
  let etherType ← load16 rawPkt 12
  if ntohs etherType ≠ etherTypeIP then
    return { discard := true }
  else
    -- The IP header length is the low half of its first byte, in words.
    let verIhl ← rawPkt[ethhdrLen]?
    let ipHeaderLen := verIhl.toNat % 16 * 4
    let sip ← load32 rawPkt (ethhdrLen + 12)
    let dip ← load32 rawPkt (ethhdrLen + 16)
    let protocol ← rawPkt[ethhdrLen + 9]?
    let pkt : Packet :=
      { protocol := protocol, sip := sip, dip := dip, len := Int32.ofNat header.len.toNat,
        timestamp := header.tsSec, direction := directionOf iplist sip dip }
    if pkt.direction = .unknown then
      return { pkt with discard := true }
    else parseTransport rawPkt (ipHeaderLen + ethhdrLen) pkt

end Packet

end Ntmd
