/-
Frames as they are on the wire.

This is the other side of `Packet.ofFrame`: one end of a connection, and what it
means for a captured frame to carry a segment or a datagram from one end to the
other.  Nothing is asked of the bytes the daemon does not look at.
-/
import Ntmd.Net.Packet

namespace Ntmd

/-- The ports by which DNS, SSDP and NTP are told from other datagrams. -/
def Packet.IsService (sport dport : UInt16) : Prop :=
  (sport = 53 ∨ dport = 53) ∨ (sport = 5353 ∧ dport = 5353) ∨ (sport = 1900 ∨ dport = 1900) ∨
    (sport = 123 ∧ dport = 123)

instance (sport dport : UInt16) : Decidable (Packet.IsService sport dport) :=
  inferInstanceAs (Decidable (_ ∨ _ ∨ _ ∨ _))

/-- One end of a connection: the four octets of its address, and its port. -/
structure Endpoint where
  a : UInt8
  b : UInt8
  c : UInt8
  d : UInt8
  port : UInt16
  deriving DecidableEq, Repr

/-- The address as the host loads it from the wire. -/
def Endpoint.ip (e : Endpoint) : UInt32 := word32 e.a e.b e.c e.d

/-- The octets of the address stand at `i`. -/
def Endpoint.AddressAt (e : Endpoint) (raw : Bytes) (i : Nat) : Prop :=
  raw[i]? = some e.a ∧ raw[i + 1]? = some e.b ∧ raw[i + 2]? = some e.c ∧ raw[i + 3]? = some e.d

/-- The port stands at `i`, its high byte first. -/
def Endpoint.PortAt (e : Endpoint) (raw : Bytes) (i : Nat) : Prop :=
  raw[i]? = some (UInt8.ofNat (e.port.toNat / 256)) ∧
    raw[i + 1]? = some (UInt8.ofNat (e.port.toNat % 256))

/-- An IPv4 frame with `ihl` words of IP header, from `src` to `dst`. -/
structure IsFrame (raw : Bytes) (ihl : Nat) (protocol : UInt8) (src dst : Endpoint) : Prop where
  etherType : raw[12]? = some 8 ∧ raw[13]? = some 0
  ihl_eq : ∃ verIhl, raw[14]? = some verIhl ∧ verIhl.toNat % 16 = ihl
  protocol_eq : raw[23]? = some protocol
  source : src.AddressAt raw 26
  dest : dst.AddressAt raw 30
  sourcePort : src.PortAt raw (ihl * 4 + 14)
  destPort : dst.PortAt raw (ihl * 4 + 16)

/-! ### What a captured frame says -/

/-- A frame as libpcap hands it over. -/
structure CapturedFrame where
  header : PcapHeader
  raw : Bytes

namespace CapturedFrame

def byte (f : CapturedFrame) (i : Nat) : UInt8 := f.raw.getD i 0

def isIPv4 (f : CapturedFrame) : Bool := f.byte 12 == 8 && f.byte 13 == 0

def protocol (f : CapturedFrame) : UInt8 := f.byte 23

def source (f : CapturedFrame) : UInt32 := word32 (f.byte 26) (f.byte 27) (f.byte 28) (f.byte 29)

def dest (f : CapturedFrame) : UInt32 := word32 (f.byte 30) (f.byte 31) (f.byte 32) (f.byte 33)

/-- Where the IP header with its options ends. -/
def transportAt (f : CapturedFrame) : Nat := (f.byte 14).toNat % 16 * 4 + 14

/-- A port on the wire, its high byte first. -/
def portAt (f : CapturedFrame) (i : Nat) : Nat := (f.byte i).toNat * 256 + (f.byte (i + 1)).toNat

def sourcePort (f : CapturedFrame) : Nat := f.portAt f.transportAt

def destPort (f : CapturedFrame) : Nat := f.portAt (f.transportAt + 2)

def hasServicePort (f : CapturedFrame) : Bool :=
  decide (Packet.IsService (UInt16.ofNat f.sourcePort) (UInt16.ofNat f.destPort))

/-- An IPv4 frame of one of the three protocols, and no datagram of one of those services. -/
def isTraffic (f : CapturedFrame) : Bool :=
  f.isIPv4 && (f.protocol == 6 || f.protocol == 1 || (f.protocol == 17 && !f.hasServicePort))

/-- The direction a frame counts for when these are the local addresses. -/
def countsAs (f : CapturedFrame) (isLocal : UInt32 → Bool) : Option Direction :=
  if f.isTraffic then
    if isLocal f.source then some .outgoing
    else if isLocal f.dest then some .incoming
    else none
  else none

/-- The least a header of the protocol takes. -/
def transportLen (protocol : UInt8) : Nat :=
  if protocol = 6 then 20 else if protocol = 17 then 8 else if protocol = 1 then 8 else 0

/-- The capture did not cut the headers off, and its length is that of a real frame. -/
structure Complete (f : CapturedFrame) : Prop where
  ethernet : 14 ≤ f.raw.length
  ip : f.isIPv4 = true → 34 ≤ f.raw.length
  transport : f.isIPv4 = true → f.transportAt + transportLen f.protocol ≤ f.raw.length
  len_lt : f.header.len.toNat < 2 ^ 31

end CapturedFrame

end Ntmd
