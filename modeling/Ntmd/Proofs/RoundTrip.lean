/-
What comes back of a frame.

`decoded_iff` builds a frame from its fields and hands it to the constructor.  The
protocol, the addresses and the ports come back whatever the two headers have in them.
The length of the payload comes back for UDP and ICMP alone, as far as an `int` holds that
of the frame: for TCP the constructor adds the size of an expression to the offset, which is
four, and not its value.
-/
import Ntmd.Net.WireFrame
import Ntmd.Proofs.FrameReads

namespace Ntmd

open Packet

/-! ### The parts of a frame -/

theorem octets_eq (ip : UInt32) : ∃ a b c d, octets ip = [a, b, c, d] ∧ word32 a b c d = ip := by
  refine ⟨_, _, _, _, rfl, ?_⟩
  have h := ip.toNat_lt
  rw [← UInt32.toNat_inj, word32_toNat]
  simp only [UInt8.toNat_ofNat']
  omega

/-- The ports at the beginning of a header. -/
theorem load16_htons {raw : Bytes} {i : Nat} {v : UInt16} (hhi : raw[i]? = (htons v)[0]?)
    (hlo : raw[i + 1]? = (htons v)[1]?) : ∃ w, load16 raw i = some w ∧ ntohs w = v := by
  refine ⟨_, ?_, ntohs_word16 v⟩
  rw [load16, hhi, hlo]
  rfl

theorem Transport.length_header (t : Transport) (n : Nat) :
    (t.header n).length = t.headerLen := by
  cases t with
  | tcp sport dport seqAck reserved flags windowCheckUrgent options =>
      simp [header, headerLen, htons, options.length_eq]
      omega
  | udp sport dport check => simp [header, headerLen, htons]
  | icmp header => simp [Transport.header, headerLen]

namespace WireFrame

variable (f : WireFrame)

theorem length_fixedHeader : f.fixedHeader.length = 22 := rfl

theorem length_encode : f.encode.length = f.payloadAt + f.payload.length := by
  simp only [encode, List.length_append, Vector.length_toList, length_fixedHeader,
    f.options.length_eq, Transport.length_header, payloadAt, ipHeaderLen]
  omega

/-- The bytes behind the addresses of the Ethernet header, which have fixed places. -/
theorem encode_getElem? {i : Nat} (h : i < 22) : f.encode[12 + i]? = f.fixedHeader[i]? := by
  have hlen : f.ethernet.toList.length = 12 := Vector.length_toList
  rw [encode, List.getElem?_append_right (by omega), hlen, Nat.add_sub_cancel_left,
    List.getElem?_append_left (by rw [length_fixedHeader]; exact h)]

/-- The bytes behind the IP header. -/
theorem encode_drop : f.encode.drop (14 + f.ipHeaderLen) =
    f.transport.header f.payload.length ++ f.payload := by
  have hlen : (f.ethernet.toList ++ (f.fixedHeader ++ f.options.bytes)).length =
      14 + f.ipHeaderLen := by
    simp only [List.length_append, Vector.length_toList, length_fixedHeader, f.options.length_eq,
      ipHeaderLen]
    omega
  rw [encode, ← List.append_assoc, ← List.append_assoc, ← hlen, List.append_assoc (f.ethernet.toList),
    List.drop_left]

theorem encode_transport (i : Nat) : f.encode[14 + f.ipHeaderLen + i]? =
    (f.transport.header f.payload.length ++ f.payload)[i]? := by
  rw [← List.getElem?_drop, encode_drop]

/-- The payload is where it is said to be. -/
theorem encode_payloadAt : f.encode.drop f.payloadAt = f.payload := by
  rw [payloadAt, ← List.drop_drop, encode_drop, ← f.transport.length_header f.payload.length,
    List.drop_left]

/-! ### What the IP header says -/

variable (tsSec : Int64)

theorem byte_captured {i : Nat} (h : i < 22) :
    (f.captured tsSec).byte (12 + i) = f.fixedHeader.getD i 0 := by
  show f.encode.getD (12 + i) 0 = _
  rw [List.getD_eq_getElem?_getD, encode_getElem? f h, ← List.getD_eq_getElem?_getD]

theorem isIPv4_captured : (f.captured tsSec).isIPv4 = true := by
  have h12 : (f.captured tsSec).byte 12 = 8 := byte_captured f tsSec (i := 0) (by omega)
  have h13 : (f.captured tsSec).byte 13 = 0 := byte_captured f tsSec (i := 1) (by omega)
  rw [CapturedFrame.isIPv4, h12, h13]
  rfl

theorem protocol_captured : (f.captured tsSec).protocol = f.transport.protocol :=
  byte_captured f tsSec (i := 11) (by omega)

theorem transportAt_captured : (f.captured tsSec).transportAt = 14 + f.ipHeaderLen := by
  have hbyte : (f.captured tsSec).byte 14 = UInt8.ofNat (4 * 16 + (5 + f.options.words)) :=
    byte_captured f tsSec (i := 2) (by omega)
  have hwords := f.options.words_le
  rw [CapturedFrame.transportAt, hbyte, UInt8.toNat_ofNat', ipHeaderLen]
  omega

/-- An address in the IP header is loaded as the address it is. -/
theorem word32_captured {i : Nat} {ip : UInt32} {rest : Bytes} (hi : i + 4 ≤ 22)
    (h : f.fixedHeader.drop i = octets ip ++ rest) :
    word32 ((f.captured tsSec).byte (12 + i)) ((f.captured tsSec).byte (12 + (i + 1)))
      ((f.captured tsSec).byte (12 + (i + 2))) ((f.captured tsSec).byte (12 + (i + 3))) = ip := by
  obtain ⟨a, b, c, d, hoctets, hword⟩ := octets_eq ip
  have hget : ∀ k, f.fixedHeader.getD (i + k) 0 = (a :: b :: c :: d :: rest).getD k 0 := by
    intro k
    rw [List.getD_eq_getElem?_getD, ← List.getElem?_drop, h, hoctets,
      ← List.getD_eq_getElem?_getD]
    rfl
  rw [byte_captured f tsSec (by omega), byte_captured f tsSec (by omega),
    byte_captured f tsSec (by omega), byte_captured f tsSec (by omega), hget 1, hget 2, hget 3,
    ← Nat.add_zero i, hget 0]
  exact hword

theorem source_captured : (f.captured tsSec).source = f.sip := by
  have hoctets : f.fixedHeader.drop 14 = octets f.sip ++ octets f.dip := rfl
  exact word32_captured f tsSec (i := 14) (by omega) hoctets

theorem dest_captured : (f.captured tsSec).dest = f.dip := by
  have hoctets : f.fixedHeader.drop 18 = octets f.dip ++ [] := rfl
  exact word32_captured f tsSec (i := 18) (by omega) hoctets

end WireFrame

/-! ### What the transport header says -/

/-- What the constructor counts for the header of the transport. -/
def Transport.countedLen : Transport → Nat
  | tcp .. => 4
  | udp .. => 8
  | icmp .. => 8

/-- It is the length of the header, but for TCP. -/
theorem Transport.countedLen_eq_iff (t : Transport) :
    t.countedLen = t.headerLen ↔ t.protocol ≠ ipprotoTCP := by
  cases t with
  | tcp sport dport seqAck reserved flags windowCheckUrgent options =>
      refine iff_of_false (fun h => ?_) fun h => h rfl
      have hlen : 4 = 20 + 4 * options.words := h
      omega
  | udp sport dport check =>
      have hne : ipprotoUDP ≠ ipprotoTCP := by decide
      exact iff_of_true rfl hne
  | icmp header =>
      have hne : ipprotoICMP ≠ ipprotoTCP := by decide
      exact iff_of_true rfl hne

theorem Transport.countedLen_le (t : Transport) : t.countedLen ≤ t.headerLen := by
  cases t with
  | tcp sport dport seqAck reserved flags windowCheckUrgent options =>
      show 4 ≤ 20 + 4 * options.words
      omega
  | udp sport dport check => exact Nat.le_refl 8
  | icmp header => exact Nat.le_refl 8

theorem Transport.headerLen_le (t : Transport) : t.headerLen ≤ 60 := by
  cases t with
  | tcp sport dport seqAck reserved flags windowCheckUrgent options =>
      have hwords := options.words_le
      show 20 + 4 * options.words ≤ 60
      omega
  | udp sport dport check => exact (by decide : 8 ≤ 60)
  | icmp header => exact (by decide : 8 ≤ 60)

/-- The marks of a datagram are its type and whether it is discarded. -/
theorem Packet.distinguishUdp_eq (pkt : Packet) : distinguishUdp pkt =
    { pkt with type := (distinguishUdp pkt).type, discard := (distinguishUdp pkt).discard } := by
  unfold distinguishUdp
  dsimp only
  split <;> split <;> split <;> rfl

/-- What a header at `offset` makes of the packet of the IP header. -/
structure AddsTransport (t : Transport) (offset : Nat) (pkt pkt' : Packet) : Prop where
  protocol_eq : pkt'.protocol = t.protocol
  sip_eq : pkt'.sip = pkt.sip
  dip_eq : pkt'.dip = pkt.dip
  len_eq : pkt'.len = pkt.len
  sport_eq : pkt'.sport = t.sport
  dport_eq : pkt'.dport = t.dport
  totalHeaderLen_eq : pkt'.totalHeaderLen = Int32.ofNat (offset + t.countedLen)

theorem parseTransport_header {t : Transport} {raw payload : Bytes} {offset n : Nat}
    {pkt : Packet} (hbytes : ∀ i, raw[offset + i]? = (t.header n ++ payload)[i]?)
    (hprotocol : pkt.protocol = t.protocol) :
    ∃ pkt', parseTransport raw offset pkt = some pkt' ∧ AddsTransport t offset pkt pkt' := by
  cases t with
  | tcp sport dport seqAck reserved flags windowCheckUrgent options =>
      obtain ⟨source, hsource, hsport⟩ := load16_htons (v := sport) (hbytes 0) (hbytes 1)
      obtain ⟨dest, hdest, hdport⟩ := load16_htons (v := dport) (hbytes 2) (hbytes 3)
      rw [Nat.add_zero] at hsource
      have htcp : pkt.protocol = ipprotoTCP := hprotocol
      rw [parseTransport, if_pos htcp, hsource, hdest]
      exact ⟨_, rfl, hprotocol, rfl, rfl, rfl, hsport, hdport, rfl⟩
  | udp sport dport check =>
      obtain ⟨source, hsource, hsport⟩ := load16_htons (v := sport) (hbytes 0) (hbytes 1)
      obtain ⟨dest, hdest, hdport⟩ := load16_htons (v := dport) (hbytes 2) (hbytes 3)
      rw [Nat.add_zero] at hsource
      have hudp : pkt.protocol = ipprotoUDP := hprotocol
      have hne : pkt.protocol ≠ ipprotoTCP := by
        rw [hudp]
        decide
      rw [parseTransport, if_neg hne, if_pos hudp, hsource, hdest]
      refine ⟨_, rfl, ?_⟩
      rw [distinguishUdp_eq]
      exact ⟨hprotocol, rfl, rfl, rfl, hsport, hdport, rfl⟩
  | icmp header =>
      have hicmp : pkt.protocol = ipprotoICMP := hprotocol
      have hne : pkt.protocol ≠ ipprotoTCP ∧ pkt.protocol ≠ ipprotoUDP := by
        rw [hicmp]
        decide
      rw [parseTransport, if_neg hne.1, if_neg hne.2, if_pos hicmp]
      exact ⟨_, rfl, hprotocol, rfl, rfl, rfl, rfl, rfl, rfl⟩

/-! ### The round trip -/

/-- The packet has the fields of the frame. -/
structure HasFields (f : WireFrame) (pkt : Packet) : Prop where
  protocol_eq : pkt.protocol = f.transport.protocol
  sip_eq : pkt.sip = f.sip
  dip_eq : pkt.dip = f.dip
  sport_eq : pkt.sport = f.transport.sport
  dport_eq : pkt.dport = f.transport.dport

/-- The packet has the length of the payload, and where that begins. -/
structure HasLengths (f : WireFrame) (pkt : Packet) : Prop where
  payload : pkt.len.toInt - pkt.totalHeaderLen.toInt = f.payload.length
  begins : f.encode.drop pkt.totalHeaderLen.toInt.toNat = f.payload

/-- The packet of a frame at a time, when these are the local addresses. -/
def WireFrame.decoded (f : WireFrame) (tsSec : Int64) (iplist : IPList) : Option Packet :=
  ofFrame (f.captured tsSec).header (f.captured tsSec).raw iplist

theorem decoded_eq (f : WireFrame) (tsSec : Int64) {iplist : IPList}
    (hlisted : iplist.contains f.sip = true ∨ iplist.contains f.dip = true) :
    ∃ pkt, f.decoded tsSec iplist = some pkt ∧ HasFields f pkt ∧
      pkt.len = Int32.ofNat (f.captured tsSec).header.len.toNat ∧
      pkt.totalHeaderLen = Int32.ofNat (14 + f.ipHeaderLen + f.transport.countedLen) := by
  have hlen : 34 ≤ (f.captured tsSec).raw.length := by
    show 34 ≤ f.encode.length
    rw [f.length_encode, WireFrame.payloadAt, WireFrame.ipHeaderLen]
    omega
  have hdirection : directionOf iplist (f.captured tsSec).source (f.captured tsSec).dest ≠
      .unknown := by
    rw [CapturedFrame.directionOf_ne_unknown_iff, CapturedFrame.isListed, f.source_captured,
      f.dest_captured, Bool.or_eq_true]
    exact hlisted
  have hprotocol : (ofIPHeader (f.captured tsSec) iplist).protocol = f.transport.protocol :=
    f.protocol_captured tsSec
  obtain ⟨pkt, hpkt, hadds⟩ := parseTransport_header f.encode_transport hprotocol
  refine ⟨pkt, ?_, ⟨hadds.protocol_eq, ?_, ?_, hadds.sport_eq, hadds.dport_eq⟩, hadds.len_eq,
    hadds.totalHeaderLen_eq⟩
  · rw [WireFrame.decoded, ofFrame_ipv4 hlen (f.isIPv4_captured tsSec), if_neg hdirection,
      f.transportAt_captured]
    exact hpkt
  · exact hadds.sip_eq.trans (f.source_captured tsSec)
  · exact hadds.dip_eq.trans (f.dest_captured tsSec)

/-- A length as the constructor stores it, in an `int` that is made of 32 bits. -/
theorem exists_toInt_len (n : Nat) :
    ∃ k : Int, (Int32.ofNat (UInt32.ofNat n).toNat).toInt = n + 2 ^ 32 * k := by
  have hmod : ((n % 2 ^ 32 : Nat) : Int).bmod (2 ^ 32) = (n : Int).bmod (2 ^ 32) := by
    rw [Int.natCast_mod]
    exact Int.emod_bmod _ _
  refine ⟨-(n : Int).bdiv (2 ^ 32), ?_⟩
  rw [UInt32.toNat_ofNat', Int32.toInt_ofNat']
  calc ((n % 2 ^ 32 : Nat) : Int).bmod (2 ^ 32)
      = n - ((2 ^ 32 : Nat) : Int) * (n : Int).bdiv (2 ^ 32) := by
        rw [hmod, Int.bmod_eq_self_sub_mul_bdiv]
    _ = n + 2 ^ 32 * -(n : Int).bdiv (2 ^ 32) := by
        push_cast
        ring

/-- **What comes back of a frame**: its fields always, and its lengths unless it is TCP or does not
fit an `int`. -/
theorem decoded_iff (f : WireFrame) (tsSec : Int64) {iplist : IPList}
    (hlisted : iplist.contains f.sip = true ∨ iplist.contains f.dip = true) :
    (∃ pkt, f.decoded tsSec iplist = some pkt ∧ HasFields f pkt) ∧
      ((∃ pkt, f.decoded tsSec iplist = some pkt ∧ HasFields f pkt ∧ HasLengths f pkt) ↔
        f.transport.protocol ≠ ipprotoTCP ∧ f.encode.length < 2 ^ 31) := by
  obtain ⟨pkt, hpkt, hfields, hpktLen, htotal⟩ := decoded_eq f tsSec hlisted
  refine ⟨⟨pkt, hpkt, hfields⟩, ?_⟩
  have hparts := f.length_encode
  have hcounted := f.transport.countedLen_le
  have hheader := f.transport.headerLen_le
  have hwords := f.options.words_le
  rw [WireFrame.payloadAt, WireFrame.ipHeaderLen] at hparts
  have htotalInt : pkt.totalHeaderLen.toInt =
      ((14 + f.ipHeaderLen + f.transport.countedLen : Nat) : Int) := by
    rw [htotal, WireFrame.ipHeaderLen, Int32.toInt_ofNat_of_lt (by omega)]
  obtain ⟨k, hk⟩ := exists_toInt_len f.encode.length
  have hlenInt : pkt.len.toInt = f.encode.length + 2 ^ 32 * k := by
    rw [hpktLen]
    exact hk
  have hlt := pkt.len.toInt_lt
  have hle := pkt.len.le_toInt
  rw [← Transport.countedLen_eq_iff]
  constructor
  · rintro ⟨pkt', hpkt', -, hlengths⟩
    rw [hpkt, Option.some.injEq] at hpkt'
    have hpayload := hlengths.payload
    rw [← hpkt', htotalInt, hlenInt, WireFrame.ipHeaderLen] at hpayload
    constructor <;> omega
  · rintro ⟨heq, hfits⟩
    refine ⟨pkt, hpkt, hfields, ?_, ?_⟩
    · rw [htotalInt, WireFrame.ipHeaderLen]
      omega
    · have hoffset : 14 + f.ipHeaderLen + f.transport.countedLen = f.payloadAt := by
        rw [heq, WireFrame.payloadAt]
      rw [htotalInt, Int.toNat_natCast, hoffset, f.encode_payloadAt]

/-- A frame from the local end with a word of IP options and three bytes of payload. -/
def greeting (transport : Transport) : WireFrame where
  ethernet := Vector.replicate 12 0
  tos := 0
  identification := #v[0, 0]
  reserved := false
  dontFragment := true
  ttl := 64
  check := #v[0, 0]
  sip := localEnd.ip
  dip := remoteEnd.ip
  options := { bytes := [1, 1, 1, 0], words := 1, length_eq := rfl, words_le := by decide }
  transport
  payload := [104, 105, 33]

theorem contains_greeting (transport : Transport) :
    oneAddress.contains (greeting transport).sip = true := by
  show oneAddress.contains localEnd.ip = true
  decide

def greetingUdp : WireFrame := greeting (.udp 43210 443 #v[0, 0])

def greetingTcp : WireFrame :=
  greeting (.tcp 43210 443 (Vector.replicate 8 0) 0 24 (Vector.replicate 6 0)
    { bytes := [], words := 0, length_eq := rfl, words_le := by decide })

/-- A datagram. -/
theorem decoded_iff_greetingUdp :
    (oneAddress.contains greetingUdp.sip = true ∨ oneAddress.contains greetingUdp.dip = true) ∧
      (∃ pkt, greetingUdp.decoded 1672549200 oneAddress = some pkt ∧
        HasFields greetingUdp pkt ∧ HasLengths greetingUdp pkt) := by
  have hlisted := Or.inl (b := oneAddress.contains greetingUdp.dip = true)
    (contains_greeting (.udp 43210 443 #v[0, 0]))
  have hudp : greetingUdp.transport.protocol ≠ ipprotoTCP ∧ greetingUdp.encode.length < 2 ^ 31 := by
    decide
  exact ⟨hlisted, (decoded_iff greetingUdp 1672549200 hlisted).2.mpr hudp⟩

/-- A segment of 61 bytes, 58 of them headers, for which 42 are counted. -/
theorem not_hasLengths_greetingTcp :
    (oneAddress.contains greetingTcp.sip = true ∨ oneAddress.contains greetingTcp.dip = true) ∧
      greetingTcp.encode.length = 61 ∧ greetingTcp.payloadAt = 58 ∧
      (greetingTcp.decoded 1672549200 oneAddress).map (fun pkt => (pkt.len, pkt.totalHeaderLen)) =
        some (61, 42) ∧
      ¬ ∃ pkt, greetingTcp.decoded 1672549200 oneAddress = some pkt ∧
        HasFields greetingTcp pkt ∧ HasLengths greetingTcp pkt := by
  have hlens : (greetingTcp.decoded 1672549200 oneAddress).map
      (fun pkt => (pkt.len, pkt.totalHeaderLen)) = some (61, 42) := by decide
  refine ⟨Or.inl (contains_greeting _), by decide, by decide, hlens, ?_⟩
  rintro ⟨pkt, hpkt, -, hlengths⟩
  rw [hpkt, Option.map_some, Option.some.injEq, Prod.mk.injEq] at hlens
  have hpayload := hlengths.payload
  rw [hlens.1, hlens.2] at hpayload
  exact absurd hpayload (by decide)

end Ntmd
