/-
What the constructor makes of a complete frame.

Whether a frame counts, and in which direction, is read off its bytes in `countsAs`.
`ofFrame_spec` says that the packet is discarded exactly when the frame does not count,
and has the frame's length and direction when it does.
-/
import Ntmd.Lib.CInt
import Ntmd.Proofs.SameKey

namespace Ntmd

open Packet

theorem ntohs_word16_toNat (a b : UInt8) :
    (ntohs (word16 a b)).toNat = a.toNat * 256 + b.toNat := by
  have ha := a.toNat_lt
  have hb := b.toNat_lt
  have hmod : (a.toNat + 256 * b.toNat) % 256 = a.toNat := by omega
  have hdiv : (a.toNat + 256 * b.toNat) / 256 = b.toNat := by omega
  rw [ntohs, word16_toNat, hmod, hdiv, UInt16.toNat_ofNat', Nat.mod_eq_of_lt (by omega)]

namespace CapturedFrame

variable {f : CapturedFrame}

theorem getElem?_raw {i : Nat} (h : i < f.raw.length) : f.raw[i]? = some (f.byte i) := by
  rw [byte, List.getD_eq_getElem?_getD, List.getElem?_eq_getElem h, Option.getD_some]

theorem load16_raw {i : Nat} (h : i + 1 < f.raw.length) :
    load16 f.raw i = some (word16 (f.byte i) (f.byte (i + 1))) := by
  rw [load16, getElem?_raw (by omega), getElem?_raw h]

theorem load32_raw {i : Nat} (h : i + 3 < f.raw.length) :
    load32 f.raw i =
      some (word32 (f.byte i) (f.byte (i + 1)) (f.byte (i + 2)) (f.byte (i + 3))) := by
  rw [load32, getElem?_raw (by omega), getElem?_raw (by omega), getElem?_raw (by omega),
    getElem?_raw h]

/-- The port of a packet is the port on the wire. -/
theorem ntohs_eq_iff (f : CapturedFrame) (i n : Nat) (hn : n < 2 ^ 16) :
    ntohs (word16 (f.byte i) (f.byte (i + 1))) = UInt16.ofNat n ↔ f.portAt i = n := by
  rw [← UInt16.toNat_inj, ntohs_word16_toNat, UInt16.toNat_ofNat', Nat.mod_eq_of_lt hn, portAt]

theorem portAt_lt (f : CapturedFrame) (i : Nat) : f.portAt i < 2 ^ 16 := by
  have h := (f.byte i).toNat_lt
  have h' := (f.byte (i + 1)).toNat_lt
  rw [portAt]
  omega

theorem etherType_iff (f : CapturedFrame) :
    ntohs (word16 (f.byte 12) (f.byte 13)) = etherTypeIP ↔ f.isIPv4 = true := by
  have h := ntohs_eq_iff f 12 2048 (by decide)
  have h12 := (f.byte 12).toNat_lt
  have h13 := (f.byte 13).toNat_lt
  rw [isIPv4, Bool.and_eq_true, beq_iff_eq, beq_iff_eq, ← UInt8.toNat_inj, ← UInt8.toNat_inj]
  refine h.trans ?_
  show (f.byte 12).toNat * 256 + (f.byte 13).toNat = 2048 ↔
    (f.byte 12).toNat = 8 ∧ (f.byte 13).toNat = 0
  omega

/-- A frame of another kind, or one that is neither from nor to a local address. -/
theorem countsAs_eq_none {isLocal : UInt32 → Bool} (h : f.isTraffic = false ∨
    (isLocal f.source = false ∧ isLocal f.dest = false)) : f.countsAs isLocal = none := by
  rw [countsAs]
  rcases h with h | ⟨hs, hd⟩
  · rw [h]
    rfl
  · rw [hs, hd]
    simp

/-- What counts is told by the direction the constructor computes. -/
theorem countsAs_of_isTraffic (h : f.isTraffic = true) (iplist : IPList) :
    f.countsAs iplist.contains =
      if directionOf iplist f.source f.dest = .unknown then none
      else some (directionOf iplist f.source f.dest) := by
  rw [countsAs, if_pos h, directionOf]
  split
  · simp
  · split <;> simp

end CapturedFrame

open CapturedFrame

namespace Packet

/-- One of the three marks that a datagram can get. -/
theorem mark_spec (c : Prop) [Decidable c] (type : PacketType) (pkt : Packet) :
    ∃ pkt', (if c then { pkt with type := type, discard := true } else pkt) = pkt' ∧
      pkt'.sport = pkt.sport ∧ pkt'.dport = pkt.dport ∧ pkt'.direction = pkt.direction ∧
      pkt'.len = pkt.len ∧ (pkt'.discard = true ↔ pkt.discard = true ∨ c) ∧
      (pkt'.discard = false → pkt'.type = pkt.type) := by
  by_cases h : c
  · exact ⟨_, rfl, by simp [h]⟩
  · exact ⟨_, rfl, by simp [h]⟩

/-- What `distinguishUdp` leaves of a datagram. -/
structure Distinguished (pkt pkt' : Packet) : Prop where
  sport_eq : pkt'.sport = pkt.sport
  dport_eq : pkt'.dport = pkt.dport
  direction_eq : pkt'.direction = pkt.direction
  len_eq : pkt'.len = pkt.len
  discard_iff : pkt'.discard = true ↔ pkt.discard = true ∨ IsService pkt.sport pkt.dport
  type_eq : pkt'.discard = false → pkt'.type = pkt.type

theorem distinguishUdp_spec (pkt : Packet) : Distinguished pkt (distinguishUdp pkt) := by
  obtain ⟨pkt₁, h₁, hs₁, hd₁, hdir₁, hlen₁, hdis₁, ht₁⟩ := mark_spec
    ((pkt.sport = 53 ∨ pkt.dport = 53) ∨ (pkt.sport = 5353 ∧ pkt.dport = 5353)) .dns pkt
  obtain ⟨pkt₂, h₂, hs₂, hd₂, hdir₂, hlen₂, hdis₂, ht₂⟩ :=
    mark_spec (pkt₁.sport = 1900 ∨ pkt₁.dport = 1900) .ssdp pkt₁
  obtain ⟨pkt₃, h₃, hs₃, hd₃, hdir₃, hlen₃, hdis₃, ht₃⟩ :=
    mark_spec (pkt₂.sport = 123 ∧ pkt₂.dport = 123) .ntp pkt₂
  have heq : distinguishUdp pkt = pkt₃ := by
    rw [← h₃, ← h₂, ← h₁]
    rfl
  rw [heq]
  refine ⟨by rw [hs₃, hs₂, hs₁], by rw [hd₃, hd₂, hd₁], by rw [hdir₃, hdir₂, hdir₁],
    by rw [hlen₃, hlen₂, hlen₁], ?_, fun hkept => ?_⟩
  · rw [hdis₃, hdis₂, hdis₁, hs₂, hd₂, hs₁, hd₁, IsService, or_assoc, or_assoc, or_assoc]
  · have hkept₂ : pkt₂.discard = false :=
      Bool.eq_false_iff.mpr fun h => by simp [hdis₃.mpr (Or.inl h)] at hkept
    have hkept₁ : pkt₁.discard = false :=
      Bool.eq_false_iff.mpr fun h => by simp [hdis₂.mpr (Or.inl h)] at hkept₂
    rw [ht₃ hkept, ht₂ hkept₂, ht₁ hkept₁]

/-- The ports of a datagram are those on the wire. -/
theorem isService_iff {f : CapturedFrame} {pkt : Packet}
    (hs : pkt.sport = ntohs (word16 (f.byte f.transportAt) (f.byte (f.transportAt + 1))))
    (hd : pkt.dport = ntohs (word16 (f.byte (f.transportAt + 2)) (f.byte (f.transportAt + 3)))) :
    IsService pkt.sport pkt.dport ↔ f.hasServicePort = true := by
  have hsport := (ntohs_eq_iff f f.transportAt _ (f.portAt_lt _)).mpr rfl
  have hdport := (ntohs_eq_iff f (f.transportAt + 2) _ (f.portAt_lt _)).mpr rfl
  rw [hasServicePort, decide_eq_true_iff, hs, hd, hsport, hdport]
  exact Iff.rfl

/-- The transport header of a frame whose direction is known. -/
theorem parseTransport_spec {f : CapturedFrame} (hf : f.Complete) (hip : f.isIPv4 = true)
    (pkt : Packet) (hprotocol : pkt.protocol = f.protocol) (hdiscard : pkt.discard = false) :
    ∃ pkt', parseTransport f.raw f.transportAt pkt = some pkt' ∧
      (pkt'.discard = true ↔ f.isTraffic = false) ∧ pkt'.direction = pkt.direction ∧
      pkt'.len = pkt.len := by
  have hlen := hf.transport hip
  have hports : 4 ≤ transportLen f.protocol →
      load16 f.raw f.transportAt =
        some (word16 (f.byte f.transportAt) (f.byte (f.transportAt + 1))) ∧
      load16 f.raw (f.transportAt + 2) =
        some (word16 (f.byte (f.transportAt + 2)) (f.byte (f.transportAt + 3))) := fun h =>
    ⟨load16_raw (by omega), load16_raw (by omega)⟩
  rw [parseTransport, hprotocol, isTraffic, hip, Bool.true_and]
  by_cases htcp : f.protocol = ipprotoTCP
  · obtain ⟨hsource, hdest⟩ := hports (by rw [htcp]; decide)
    rw [if_pos htcp, hsource, hdest]
    exact ⟨_, rfl, by simp [htcp, hdiscard], rfl, rfl⟩
  rw [if_neg htcp]
  by_cases hudp : f.protocol = ipprotoUDP
  · obtain ⟨hsource, hdest⟩ := hports (by rw [hudp]; decide)
    rw [if_pos hudp, hsource, hdest]
    have hmarked := distinguishUdp_spec { pkt with
      protocol := f.protocol, type := .udp, totalHeaderLen := Int32.ofNat (f.transportAt + 8),
      sport := ntohs (word16 (f.byte f.transportAt) (f.byte (f.transportAt + 1))),
      dport := ntohs (word16 (f.byte (f.transportAt + 2)) (f.byte (f.transportAt + 3))) }
    refine ⟨_, rfl, ?_, hmarked.direction_eq, hmarked.len_eq⟩
    rw [hmarked.discard_iff, isService_iff rfl rfl, hudp]
    have hother : ¬ ipprotoUDP = 6 ∧ ¬ ipprotoUDP = 1 := by decide
    simp [hdiscard, hother]
  rw [if_neg hudp]
  by_cases hicmp : f.protocol = ipprotoICMP
  · rw [if_pos hicmp]
    exact ⟨_, rfl, by simp [hicmp, hdiscard], rfl, rfl⟩
  · rw [if_neg hicmp]
    exact ⟨_, rfl, by simp [htcp, hudp, hicmp], rfl, rfl⟩

/-- The packet as the IP header alone makes it. -/
def ofIPHeader (f : CapturedFrame) (iplist : IPList) : Packet :=
  { protocol := f.protocol, sip := f.source, dip := f.dest,
    len := Int32.ofNat f.header.len.toNat, timestamp := f.header.tsSec,
    direction := directionOf iplist f.source f.dest }

theorem ofFrame_not_ipv4 {f : CapturedFrame} (hethernet : 14 ≤ f.raw.length)
    (hip : f.isIPv4 = false) (iplist : IPList) :
    ofFrame f.header f.raw iplist = some { discard := true } := by
  have hether : load16 f.raw 12 = some (word16 (f.byte 12) (f.byte 13)) :=
    load16_raw (by omega)
  rw [ofFrame, hether]
  simp [mt (etherType_iff f).mp (Bool.eq_false_iff.mp hip)]

theorem ofFrame_ipv4 {f : CapturedFrame} (hlen : 34 ≤ f.raw.length) (hip : f.isIPv4 = true)
    (iplist : IPList) :
    ofFrame f.header f.raw iplist =
      if directionOf iplist f.source f.dest = .unknown then
        some { ofIPHeader f iplist with discard := true }
      else parseTransport f.raw f.transportAt (ofIPHeader f iplist) := by
  have hether : load16 f.raw 12 = some (word16 (f.byte 12) (f.byte 13)) :=
    load16_raw (by omega)
  have hver : f.raw[ethhdrLen]? = some (f.byte 14) := getElem?_raw (by show 14 < _; omega)
  have hsip : load32 f.raw (ethhdrLen + 12) = some f.source := load32_raw (by show 29 < _; omega)
  have hdip : load32 f.raw (ethhdrLen + 16) = some f.dest := load32_raw (by show 33 < _; omega)
  have hprotocol : f.raw[ethhdrLen + 9]? = some f.protocol := getElem?_raw (by show 23 < _; omega)
  rw [ofFrame, hether]
  simp only [bind, Option.bind, (etherType_iff f).mpr hip, ne_eq, not_true_eq_false, if_false,
    hver, hsip, hdip, hprotocol]
  rfl

/-- **A packet is discarded exactly if its frame does not count**, and has the frame's length and
direction otherwise. -/
theorem ofFrame_spec {f : CapturedFrame} (hf : f.Complete) (iplist : IPList) :
    ∃ pkt, ofFrame f.header f.raw iplist = some pkt ∧
      (pkt.discard = true ↔ f.countsAs iplist.contains = none) ∧
      ∀ dir, f.countsAs iplist.contains = some dir →
        pkt.direction = dir ∧ pkt.len.toInt = f.header.len.toNat := by
  by_cases hip : f.isIPv4 = true
  swap
  · have hnone : f.countsAs iplist.contains = none := by
      refine countsAs_eq_none (Or.inl ?_)
      rw [isTraffic, Bool.eq_false_iff.mpr hip, Bool.false_and]
    exact ⟨{ discard := true }, ofFrame_not_ipv4 hf.ethernet (Bool.eq_false_iff.mpr hip) iplist,
      by simp [hnone], by simp [hnone]⟩
  have hlength : (Int32.ofNat f.header.len.toNat).toInt = f.header.len.toNat :=
    Int32.toInt_ofNat_of_lt hf.len_lt
  rw [ofFrame_ipv4 (hf.ip hip) hip]
  by_cases hdir : directionOf iplist f.source f.dest = .unknown
  · have hnone : f.countsAs iplist.contains = none := by
      by_cases htraffic : f.isTraffic = true
      · rw [countsAs_of_isTraffic htraffic, if_pos hdir]
      · exact countsAs_eq_none (Or.inl (Bool.eq_false_iff.mpr htraffic))
    rw [if_pos hdir]
    exact ⟨_, rfl, by simp [hnone], by simp [hnone]⟩
  · rw [if_neg hdir]
    obtain ⟨pkt, hpkt, hdiscard, hdirection, hlen'⟩ :=
      parseTransport_spec hf hip (ofIPHeader f iplist) rfl rfl
    refine ⟨pkt, hpkt, ?_, fun dir hcounts => ?_⟩
    · rw [hdiscard]
      cases htraffic : f.isTraffic with
      | false => exact iff_of_true rfl (countsAs_eq_none (Or.inl htraffic))
      | true =>
          rw [countsAs_of_isTraffic htraffic, if_neg hdir]
          simp
    · have htraffic : f.isTraffic = true := by
        by_contra h
        rw [countsAs_eq_none (Or.inl (Bool.eq_false_iff.mpr h))] at hcounts
        exact absurd hcounts (by simp)
      rw [countsAs_of_isTraffic htraffic, if_neg hdir] at hcounts
      rw [hdirection, hlen', ← Option.some.inj hcounts]
      exact ⟨rfl, hlength⟩

end Packet

end Ntmd
