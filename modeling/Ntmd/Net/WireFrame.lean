/-
Frames as a host builds them.

This is the environment's side of `Packet.ofFrame`, from the fields to the bytes: an
Ethernet header, an IP header with its options, one of three transport headers and a
payload, with nothing behind it.  The daemon reads some of the fields; the others are here
because they are in front of those that it reads, or of the payload.
-/
import Ntmd.Net.Frame

namespace Ntmd

/-- The two bytes of a number as they are on the wire, the high byte first. -/
def htons (v : UInt16) : Bytes := [UInt8.ofNat (v.toNat / 256), UInt8.ofNat (v.toNat % 256)]

/-- The four bytes of an address, which the host loads from the wire as they are. -/
def octets (ip : UInt32) : Bytes :=
  [UInt8.ofNat (ip.toNat % 256), UInt8.ofNat (ip.toNat / 256 % 256),
    UInt8.ofNat (ip.toNat / 65536 % 256), UInt8.ofNat (ip.toNat / 16777216)]

/-- The options of an IP or a TCP header, filled up to whole words. -/
structure Options where
  bytes : Bytes
  words : Nat
  length_eq : bytes.length = 4 * words
  /-- A length of four bits is fifteen words at most, and five are taken. -/
  words_le : words ≤ 10

inductive Transport
  | tcp (sport dport : UInt16) (seqAck : Vector UInt8 8) (reserved : Fin 16) (flags : UInt8)
      (windowCheckUrgent : Vector UInt8 6) (options : Options)
  | udp (sport dport : UInt16) (check : Vector UInt8 2)
  | icmp (header : Vector UInt8 8)

namespace Transport

def protocol : Transport → UInt8
  | tcp .. => Packet.ipprotoTCP
  | udp .. => Packet.ipprotoUDP
  | icmp .. => Packet.ipprotoICMP

def sport : Transport → UInt16
  | tcp sport .. => sport
  | udp sport .. => sport
  | icmp .. => 0

def dport : Transport → UInt16
  | tcp _ dport .. => dport
  | udp _ dport _ => dport
  | icmp .. => 0

/-- The header in front of so many bytes of payload. -/
def header (payloadLen : Nat) : Transport → Bytes
  | tcp sport dport seqAck reserved flags windowCheckUrgent options =>
      htons sport ++ (htons dport ++ (seqAck.toList ++
        (UInt8.ofNat ((5 + options.words) * 16 + reserved) :: flags ::
          (windowCheckUrgent.toList ++ options.bytes))))
  | udp sport dport check =>
      htons sport ++ (htons dport ++ (htons (UInt16.ofNat (8 + payloadLen)) ++ check.toList))
  | icmp header => header.toList

/-- Its length. -/
def headerLen : Transport → Nat
  | tcp _ _ _ _ _ _ options => 20 + 4 * options.words
  | udp .. => 8
  | icmp .. => 8

end Transport

/-- The fields of a frame whose datagram is whole: no more fragments, and an offset of 0. -/
structure WireFrame where
  /-- The addresses of the Ethernet header. -/
  ethernet : Vector UInt8 12
  tos : UInt8
  identification : Vector UInt8 2
  reserved : Bool
  dontFragment : Bool
  ttl : UInt8
  check : Vector UInt8 2
  sip : UInt32
  dip : UInt32
  options : Options
  transport : Transport
  payload : Bytes

namespace WireFrame

/-- How long the IP header is with its options. -/
def ipHeaderLen (f : WireFrame) : Nat := 20 + 4 * f.options.words

/-- Where the payload begins. -/
def payloadAt (f : WireFrame) : Nat := 14 + f.ipHeaderLen + f.transport.headerLen

/-- The length of the datagram, as far as sixteen bits hold it. -/
def totalLen (f : WireFrame) : UInt16 :=
  UInt16.ofNat (f.ipHeaderLen + f.transport.headerLen + f.payload.length)

/-- The flags with the high bits of the fragment offset. -/
def fragFlags (f : WireFrame) : UInt8 :=
  (if f.reserved then 128 else 0) + if f.dontFragment then 64 else 0

/-- The type of the Ethernet frame and the IP header up to its options. -/
def fixedHeader (f : WireFrame) : Bytes :=
  htons Packet.etherTypeIP ++
    ([UInt8.ofNat (4 * 16 + (5 + f.options.words)), f.tos] ++ (htons f.totalLen ++
      ([f.identification[0], f.identification[1], f.fragFlags, 0, f.ttl, f.transport.protocol,
        f.check[0], f.check[1]] ++ (octets f.sip ++ octets f.dip))))

def encode (f : WireFrame) : Bytes :=
  f.ethernet.toList ++ (f.fixedHeader ++ (f.options.bytes ++
    (f.transport.header f.payload.length ++ f.payload)))

/-- The frame as libpcap hands it over, uncut, at a time. -/
def captured (f : WireFrame) (tsSec : Int64) : CapturedFrame where
  header := { tsSec, len := UInt32.ofNat f.encode.length }
  raw := f.encode

end WireFrame

end Ntmd
