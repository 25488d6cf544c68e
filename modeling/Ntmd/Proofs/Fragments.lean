/-
Where the ports of a packet come from.

A later fragment of a datagram has no transport header, and an IP header is never
shorter than five words.  The constructor looks at neither: it takes the ports from
wherever the length of the IP header points, which in a later fragment is the payload.
`portsFromHeader_iff` says of which frames the ports are those of a transport header,
and cannot be changed through the payload.
-/
import Ntmd.Proofs.FrameReads

namespace Ntmd

open Packet

namespace CapturedFrame

/-- The length of the IP header, in words. -/
def ihl (f : CapturedFrame) : Nat := (f.byte 14).toNat % 16

/-- The offset of the fragment, thirteen bits in units of eight bytes. -/
def fragmentOffset (f : CapturedFrame) : Nat :=
  ((f.byte 20).toNat * 256 + (f.byte 21).toNat) % 2 ^ 13

/-- Where the headers of the frame end.  Only a first fragment has one for the transport. -/
def headersLen (f : CapturedFrame) : Nat :=
  if f.isIPv4 then
    max 34 (f.transportAt + if f.fragmentOffset = 0 then transportLen f.protocol else 0)
  else 14

/-- The capture did not cut the headers off. -/
def HasHeaders (f : CapturedFrame) : Prop := f.headersLen ≤ f.raw.length

/-- The two frames differ in what comes after the headers at most. -/
def SameHeaders (f g : CapturedFrame) : Prop := ∀ i < f.headersLen, f.byte i = g.byte i

end CapturedFrame

/-- What a packet is told apart by. -/
def Packet.parsed (pkt : Packet) : PacketType × UInt16 × UInt16 × Direction × Bool :=
  (pkt.type, pkt.sport, pkt.dport, pkt.direction, pkt.discard)

open CapturedFrame

/-- The ports of an accepted packet come from a transport header, whatever is behind it. -/
structure PortsFromHeader (iplist : IPList) (f : CapturedFrame) : Prop where
  own : ∀ pkt, ofFrame f.header f.raw iplist = some pkt → pkt.discard = false →
    pkt.type = .tcp ∨ pkt.type = .udp →
      5 ≤ f.ihl ∧ f.fragmentOffset = 0 ∧
        pkt.sport.toNat = f.sourcePort ∧ pkt.dport.toNat = f.destPort
  /-- No payload makes another packet of the same headers. -/
  independent : ∀ g : CapturedFrame, g.HasHeaders → SameHeaders f g →
    (ofFrame g.header g.raw iplist).map parsed = (ofFrame f.header f.raw iplist).map parsed

namespace CapturedFrame

variable {f g : CapturedFrame}

theorem SameHeaders.isIPv4_eq (h : SameHeaders f g) : g.isIPv4 = f.isIPv4 := by
  have hlen : 14 ≤ f.headersLen := by
    rw [headersLen]
    split <;> omega
  rw [isIPv4, isIPv4, h 12 (by omega), h 13 (by omega)]

theorem le_headersLen (hip : f.isIPv4 = true) : 34 ≤ f.headersLen := by
  rw [headersLen, if_pos hip]
  omega

section IPv4

variable (h : SameHeaders f g) (hip : f.isIPv4 = true)
include h hip

theorem SameHeaders.byte_eq {i : Nat} (hi : i < 34) : g.byte i = f.byte i :=
  (h i (by have := le_headersLen hip; omega)).symm

theorem SameHeaders.protocol_eq : g.protocol = f.protocol := h.byte_eq hip (by omega)

theorem SameHeaders.transportAt_eq : g.transportAt = f.transportAt := by
  rw [transportAt, transportAt, h.byte_eq hip (by omega)]

theorem SameHeaders.source_eq : g.source = f.source := by
  rw [source, source, h.byte_eq hip (by omega), h.byte_eq hip (by omega),
    h.byte_eq hip (by omega), h.byte_eq hip (by omega)]

theorem SameHeaders.dest_eq : g.dest = f.dest := by
  rw [dest, dest, h.byte_eq hip (by omega), h.byte_eq hip (by omega),
    h.byte_eq hip (by omega), h.byte_eq hip (by omega)]

theorem SameHeaders.headersLen_eq : g.headersLen = f.headersLen := by
  have hfragment : g.fragmentOffset = f.fragmentOffset := by
    rw [fragmentOffset, fragmentOffset, h.byte_eq hip (by omega), h.byte_eq hip (by omega)]
  rw [headersLen, headersLen, h.isIPv4_eq, h.transportAt_eq hip, h.protocol_eq hip, hfragment]

end IPv4

end CapturedFrame

namespace Packet

variable {f g : CapturedFrame} {iplist : IPList}

theorem parsed_distinguishUdp {p q : Packet} (h : p.parsed = q.parsed) :
    (distinguishUdp p).parsed = (distinguishUdp q).parsed := by
  obtain ⟨ptype, _, _, _, psport, pdport, _, _, pdirection, _, pdiscard⟩ := p
  obtain ⟨qtype, _, _, _, qsport, qdport, _, _, qdirection, _, qdiscard⟩ := q
  simp only [parsed, Prod.mk.injEq] at h
  obtain ⟨rfl, rfl, rfl, rfl, rfl⟩ := h
  simp only [distinguishUdp]
  split_ifs <;> rfl

/-- A transport header tells packets apart by its ports alone. -/
theorem parseTransport_congr {p q : Packet} (hp : p.protocol = f.protocol)
    (hq : q.protocol = f.protocol) (hparsed : p.parsed = q.parsed)
    (hports : f.hasPorts = true → load16 g.raw f.transportAt = load16 f.raw f.transportAt ∧
      load16 g.raw (f.transportAt + 2) = load16 f.raw (f.transportAt + 2)) :
    (parseTransport g.raw f.transportAt p).map parsed =
      (parseTransport f.raw f.transportAt q).map parsed := by
  rw [hasPorts] at hports
  have hdirection : p.direction = q.direction := congrArg (fun v => v.2.2.2.1) hparsed
  have hdiscard : p.discard = q.discard := congrArg (fun v => v.2.2.2.2) hparsed
  rw [parseTransport, parseTransport, hp, hq]
  by_cases htcp : f.protocol = ipprotoTCP
  · obtain ⟨hsource, hdest⟩ := hports (by simp [htcp])
    rw [if_pos htcp, if_pos htcp, hsource, hdest]
    cases load16 f.raw f.transportAt with
    | none => rfl
    | some source =>
        cases load16 f.raw (f.transportAt + 2) with
        | none => rfl
        | some dest => simp [parsed, hdirection, hdiscard]
  rw [if_neg htcp, if_neg htcp]
  by_cases hudp : f.protocol = ipprotoUDP
  · obtain ⟨hsource, hdest⟩ := hports (by simp [hudp])
    rw [if_pos hudp, if_pos hudp, hsource, hdest]
    cases load16 f.raw f.transportAt with
    | none => rfl
    | some source =>
        cases load16 f.raw (f.transportAt + 2) with
        | none => rfl
        | some dest =>
            refine congrArg some (parsed_distinguishUdp ?_)
            simp [parsed, hdirection, hdiscard]
  rw [if_neg hudp, if_neg hudp]
  split
  · simp [parsed, hdirection, hdiscard]
  · refine congrArg some ?_
    simp only [parsed, Prod.mk.injEq] at hparsed ⊢
    exact ⟨hparsed.1, hparsed.2.1, hparsed.2.2.1, hdirection, trivial⟩

/-- **Frames with the same headers make the same packet**, if the ports are read from them. -/
theorem ofFrame_congr (hf : f.HasHeaders) (hg : g.HasHeaders) (h : SameHeaders f g)
    (hports : f.isIPv4 = true → f.isListed iplist = true → f.hasPorts = true →
      f.transportAt + 4 ≤ f.headersLen) :
    (ofFrame g.header g.raw iplist).map parsed = (ofFrame f.header f.raw iplist).map parsed := by
  by_cases hip : f.isIPv4 = true
  swap
  · have hip' : f.isIPv4 = false := Bool.eq_false_iff.mpr hip
    have hlen : f.headersLen = 14 := by rw [headersLen, hip']; rfl
    have hlen' : g.headersLen = 14 := by rw [headersLen, h.isIPv4_eq, hip']; rfl
    rw [HasHeaders] at hf hg
    rw [ofFrame_not_ipv4 (by omega) hip', ofFrame_not_ipv4 (by omega) (h.isIPv4_eq.trans hip')]
  · rw [HasHeaders] at hf hg
    rw [h.headersLen_eq hip] at hg
    have hlen := le_headersLen hip
    rw [ofFrame_ipv4 (by omega) hip, ofFrame_ipv4 (by omega) (h.isIPv4_eq.trans hip),
      h.source_eq hip, h.dest_eq hip, h.transportAt_eq hip]
    have hparsed : (ofIPHeader g iplist).parsed = (ofIPHeader f iplist).parsed := by
      rw [ofIPHeader, ofIPHeader, h.source_eq hip, h.dest_eq hip]
      rfl
    by_cases hdir : directionOf iplist f.source f.dest = .unknown
    · rw [if_pos hdir, if_pos hdir]
      simp only [ofIPHeader, h.source_eq hip, h.dest_eq hip]
      rfl
    · rw [if_neg hdir, if_neg hdir]
      refine parseTransport_congr (h.protocol_eq hip) rfl hparsed fun hhas => ?_
      have hread := hports hip (directionOf_ne_unknown_iff.mp hdir) hhas
      rw [load16_raw (by omega), load16_raw (by omega), load16_raw (by omega),
        load16_raw (by omega), h f.transportAt (by omega), h (f.transportAt + 1) (by omega),
        h (f.transportAt + 2) (by omega), h (f.transportAt + 2 + 1) (by omega)]
      exact ⟨rfl, rfl⟩

/-- What a frame whose ports are read is made into. -/
theorem ofFrame_ports (hip : f.isIPv4 = true) (hlen : 34 ≤ f.raw.length)
    (hlisted : f.isListed iplist = true) (hports : f.hasPorts = true)
    (hread : f.transportAt + 4 ≤ f.raw.length) :
    ∃ pkt, ofFrame f.header f.raw iplist = some pkt ∧
      pkt.sport.toNat = f.sourcePort ∧ pkt.dport.toNat = f.destPort ∧
      (pkt.discard = true ↔ f.protocol = ipprotoUDP ∧ f.hasServicePort = true) ∧
      (pkt.discard = false → pkt.type = .tcp ∨ pkt.type = .udp) := by
  have hdir := directionOf_ne_unknown_iff.mpr hlisted
  have hsport := ntohs_word16_toNat (f.byte f.transportAt) (f.byte (f.transportAt + 1))
  have hdport := ntohs_word16_toNat (f.byte (f.transportAt + 2)) (f.byte (f.transportAt + 3))
  have hprotocol : (ofIPHeader f iplist).protocol = f.protocol := rfl
  rw [ofFrame_ipv4 hlen hip, if_neg hdir, parseTransport, hprotocol,
    load16_raw (i := f.transportAt) (by omega), load16_raw (i := f.transportAt + 2) (by omega)]
  by_cases htcp : f.protocol = ipprotoTCP
  · rw [if_pos htcp]
    refine ⟨_, rfl, hsport, hdport, ?_, fun _ => Or.inl rfl⟩
    exact iff_of_false (by simp [ofIPHeader]) fun hudp => absurd (htcp.symm.trans hudp.1) (by decide)
  · rw [if_neg htcp]
    have hudp : f.protocol = ipprotoUDP := by simpa [hasPorts, htcp] using hports
    rw [if_pos hudp]
    refine ⟨_, rfl, ?_⟩
    have hmarked := distinguishUdp_spec { ofIPHeader f iplist with
      type := .udp, totalHeaderLen := Int32.ofNat (f.transportAt + 8),
      sport := ntohs (word16 (f.byte f.transportAt) (f.byte (f.transportAt + 1))),
      dport := ntohs (word16 (f.byte (f.transportAt + 2)) (f.byte (f.transportAt + 2 + 1))) }
    refine ⟨(congrArg UInt16.toNat hmarked.sport_eq).trans hsport,
      (congrArg UInt16.toNat hmarked.dport_eq).trans hdport, hmarked.discard_iff.trans ?_,
      fun hkept => Or.inr (hmarked.type_eq hkept)⟩
    rw [isService_iff rfl rfl]
    simp [ofIPHeader, hudp]

end Packet

namespace CapturedFrame

variable {f : CapturedFrame}

theorem transportAt_eq (f : CapturedFrame) : f.transportAt = f.ihl * 4 + 14 := rfl

/-- The frame with this payload behind its IP header. -/
def withPayload (f : CapturedFrame) (payload : Bytes) : CapturedFrame :=
  ⟨f.header, f.raw.take f.transportAt ++ payload⟩

theorem headersLen_later (hip : f.isIPv4 = true) (hihl : 5 ≤ f.ihl) (hlater : f.fragmentOffset ≠ 0) :
    f.headersLen = f.transportAt := by
  have hat := f.transportAt_eq
  rw [headersLen, if_pos hip, if_neg hlater]
  omega

theorem withPayload_byte (hf : f.transportAt ≤ f.raw.length) (payload : Bytes) (i : Nat) :
    (f.withPayload payload).byte (f.transportAt + i) = payload.getD i 0 := by
  have hlen : (f.raw.take f.transportAt).length = f.transportAt := List.length_take_of_le hf
  rw [byte, withPayload, List.getD_eq_getElem?_getD, List.getD_eq_getElem?_getD,
    List.getElem?_append_right (by rw [hlen]; omega), hlen, Nat.add_sub_cancel_left]

/-- A later fragment keeps its headers whatever it carries. -/
theorem sameHeaders_withPayload (hf : f.HasHeaders) (hip : f.isIPv4 = true) (hihl : 5 ≤ f.ihl)
    (hlater : f.fragmentOffset ≠ 0) (payload : Bytes) :
    SameHeaders f (f.withPayload payload) ∧ (f.withPayload payload).HasHeaders := by
  rw [HasHeaders, headersLen_later hip hihl hlater] at hf
  have hlen : (f.raw.take f.transportAt).length = f.transportAt := List.length_take_of_le hf
  have hsame : SameHeaders f (f.withPayload payload) := by
    intro i hi
    rw [headersLen_later hip hihl hlater] at hi
    rw [byte, byte, withPayload, List.getD_eq_getElem?_getD, List.getD_eq_getElem?_getD,
      List.getElem?_append_left (by rw [hlen]; exact hi), List.getElem?_take_of_lt hi]
  refine ⟨hsame, ?_⟩
  rw [HasHeaders, hsame.headersLen_eq hip, headersLen_later hip hihl hlater, withPayload,
    List.length_append, hlen]
  omega

/-- The ports that a later fragment is given are the first bytes of what it carries. -/
theorem sport_withPayload {iplist : IPList} (hf : f.HasHeaders) (hip : f.isIPv4 = true)
    (hihl : 5 ≤ f.ihl) (hlater : f.fragmentOffset ≠ 0) (hlisted : f.isListed iplist = true)
    (hports : f.hasPorts = true) (a b c d : UInt8) :
    ((ofFrame f.header (f.withPayload [a, b, c, d]).raw iplist).map parsed).map
      (fun v => v.2.1.toNat) = some (a.toNat * 256 + b.toNat) := by
  obtain ⟨hsame, hhas⟩ := sameHeaders_withPayload hf hip hihl hlater [a, b, c, d]
  have hat := f.transportAt_eq
  rw [HasHeaders, headersLen_later hip hihl hlater] at hf
  have hlen : (f.raw.take f.transportAt).length = f.transportAt := List.length_take_of_le hf
  have hraw : (f.withPayload [a, b, c, d]).raw.length = f.transportAt + 4 := by
    rw [withPayload, List.length_append, hlen]
    rfl
  have hlisted' : (f.withPayload [a, b, c, d]).isListed iplist = true := by
    rw [isListed, hsame.source_eq hip, hsame.dest_eq hip]
    exact hlisted
  have hports' : (f.withPayload [a, b, c, d]).hasPorts = true := by
    rw [hasPorts, hsame.protocol_eq hip]
    exact hports
  obtain ⟨pkt, hpkt, hsport, -⟩ := ofFrame_ports (hsame.isIPv4_eq.trans hip) (by omega)
    hlisted' hports' (by rw [hsame.transportAt_eq hip]; omega)
  have hheader : (f.withPayload [a, b, c, d]).header = f.header := rfl
  rw [hheader] at hpkt
  rw [hpkt, Option.map_some, Option.map_some]
  refine congrArg some (hsport.trans ?_)
  rw [sourcePort, portAt, hsame.transportAt_eq hip, withPayload_byte hf _ 1]
  have hfirst := withPayload_byte hf [a, b, c, d] 0
  rw [Nat.add_zero] at hfirst
  rw [hfirst]
  rfl

/-- The frames whose ports, if they are accepted, come from a header: an IP header of at least its
least length and no later fragment; and the datagrams whose ports lie inside a shorter IP header and
are those of a discarded service. -/
def OwnPorts (f : CapturedFrame) (iplist : IPList) : Prop :=
  f.isIPv4 = true → f.isListed iplist = true → f.hasPorts = true →
    (5 ≤ f.ihl ∧ f.fragmentOffset = 0) ∨
      (f.ihl < 5 ∧ f.protocol = ipprotoUDP ∧ f.hasServicePort = true)

theorem OwnPorts.of_portsFromHeader {iplist : IPList} (hf : f.HasHeaders)
    (h : PortsFromHeader iplist f) : f.OwnPorts iplist := by
  intro hip hlisted hports
  by_cases hihl : 5 ≤ f.ihl
  · refine Or.inl ⟨hihl, by_contra fun hlater => ?_⟩
    -- Two payloads that would be read as different ports.
    have hone := sport_withPayload hf hip hihl hlater hlisted hports 1 1 1 1
    have htwo := sport_withPayload hf hip hihl hlater hlisted hports 2 2 2 2
    obtain ⟨hsame₁, hhas₁⟩ := sameHeaders_withPayload hf hip hihl hlater [1, 1, 1, 1]
    obtain ⟨hsame₂, hhas₂⟩ := sameHeaders_withPayload hf hip hihl hlater [2, 2, 2, 2]
    have hparsed := (h.independent _ hhas₁ hsame₁).trans (h.independent _ hhas₂ hsame₂).symm
    have hparsed' : (ofFrame f.header (f.withPayload [1, 1, 1, 1]).raw iplist).map parsed =
        (ofFrame f.header (f.withPayload [2, 2, 2, 2]).raw iplist).map parsed := hparsed
    rw [hparsed'] at hone
    exact absurd (hone.symm.trans htwo) (by decide)
  · have hlen := le_headersLen hip
    have hat := f.transportAt_eq
    rw [HasHeaders] at hf
    obtain ⟨pkt, hpkt, -, -, hdiscard, htype⟩ :=
      ofFrame_ports hip (by omega) hlisted hports (by omega)
    have hkept : pkt.discard = true := by
      by_contra hkept
      have hkept := Bool.not_eq_true _ ▸ hkept
      exact hihl (h.own pkt hpkt hkept (htype hkept)).1
    exact Or.inr ⟨by omega, hdiscard.mp hkept⟩

/-- Nothing else is accepted as a segment or a datagram. -/
theorem hasPorts_of_accepted {iplist : IPList} (hf : f.HasHeaders) {pkt : Packet}
    (hpkt : ofFrame f.header f.raw iplist = some pkt) (hkept : pkt.discard = false)
    (htype : pkt.type = .tcp ∨ pkt.type = .udp) :
    f.isIPv4 = true ∧ f.isListed iplist = true ∧ f.hasPorts = true := by
  rw [HasHeaders] at hf
  by_cases hip : f.isIPv4 = true
  swap
  · have hip' : f.isIPv4 = false := Bool.eq_false_iff.mpr hip
    rw [headersLen, hip', if_neg (by decide)] at hf
    rw [ofFrame_not_ipv4 hf hip'] at hpkt
    rw [← Option.some.inj hpkt] at hkept
    exact absurd hkept (by simp)
  have hlen := le_headersLen hip
  rw [ofFrame_ipv4 (by omega) hip] at hpkt
  by_cases hdir : directionOf iplist f.source f.dest = .unknown
  · rw [if_pos hdir] at hpkt
    rw [← Option.some.inj hpkt] at hkept
    exact absurd hkept (by simp)
  rw [if_neg hdir] at hpkt
  refine ⟨hip, directionOf_ne_unknown_iff.mp hdir, ?_⟩
  by_contra hports
  have hprotocol : (ofIPHeader f iplist).protocol = f.protocol := rfl
  rw [hasPorts, Bool.or_eq_true, beq_iff_eq, beq_iff_eq, not_or] at hports
  rw [parseTransport, hprotocol, if_neg hports.1, if_neg hports.2] at hpkt
  split at hpkt
  · rw [← Option.some.inj hpkt] at htype
    exact absurd htype (by simp)
  · rw [← Option.some.inj hpkt] at hkept
    exact absurd hkept (by simp)

theorem OwnPorts.portsFromHeader {iplist : IPList} (hf : f.HasHeaders) (h : f.OwnPorts iplist) :
    PortsFromHeader iplist f := by
  have hread : f.isIPv4 = true → f.isListed iplist = true → f.hasPorts = true →
      f.transportAt + 4 ≤ f.headersLen := by
    intro hip hlisted hports
    have hat := f.transportAt_eq
    rcases h hip hlisted hports with ⟨hihl, hfirst⟩ | ⟨hihl, -, -⟩
    · have htransport : 8 ≤ transportLen f.protocol := by
        rw [hasPorts, Bool.or_eq_true, beq_iff_eq, beq_iff_eq] at hports
        rcases hports with htcp | hudp
        · rw [htcp]
          decide
        · rw [hudp]
          decide
      rw [headersLen, if_pos hip, if_pos hfirst]
      omega
    · have := le_headersLen hip
      omega
  refine ⟨fun pkt hpkt hkept htype => ?_, fun g hg hsame => ofFrame_congr hf hg hsame hread⟩
  obtain ⟨hip, hlisted, hports⟩ := hasPorts_of_accepted hf hpkt hkept htype
  have hlen := le_headersLen hip
  have hread' := hread hip hlisted hports
  rw [HasHeaders] at hf
  obtain ⟨pkt', hpkt', hsport, hdport, hdiscard, -⟩ :=
    ofFrame_ports hip (by omega) hlisted hports (by omega)
  obtain rfl : pkt' = pkt := Option.some.inj (hpkt'.symm.trans hpkt)
  rcases h hip hlisted hports with ⟨hihl, hfirst⟩ | ⟨-, hservice⟩
  · exact ⟨hihl, hfirst, hsport, hdport⟩
  · rw [hdiscard.mpr hservice] at hkept
    exact absurd hkept (by decide)

end CapturedFrame

/-- **Whether the ports of a frame are those of its transport header**, whatever its payload. -/
theorem portsFromHeader_iff (iplist : IPList) (f : CapturedFrame) (hf : f.HasHeaders) :
    PortsFromHeader iplist f ↔ f.OwnPorts iplist :=
  ⟨OwnPorts.of_portsFromHeader hf, OwnPorts.portsFromHeader hf⟩

/-- A segment of the open connection, with twenty bytes of TCP header. -/
def segment : CapturedFrame := ⟨⟨1672549200, 54⟩, outgoingFrame ipprotoTCP ++ List.replicate 16 0⟩

theorem portsFromHeader_segment : PortsFromHeader oneAddress segment := by
  refine (portsFromHeader_iff oneAddress segment ?_).mpr fun _ _ _ => Or.inl ?_
  · show _ ≤ _
    decide
  · decide

/-- The second fragment of a TCP segment: its offset is 1480 bytes, and behind the IP header there
are four bytes of the payload. -/
def laterFragment : CapturedFrame :=
  ⟨⟨1672549200, 38⟩,
    [0, 0, 0, 0, 0, 0, 0, 0, 0, 0, 0, 0, 8, 0,
     0x45, 0, 0, 24, 0, 0, 0, 185, 64, 6, 0, 0, 192, 168, 0, 2, 93, 184, 216, 34,
     0xDE, 0xAD, 0xBE, 0xEF]⟩

/-- It is accepted, with the payload as its ports. -/
theorem not_portsFromHeader_laterFragment :
    laterFragment.HasHeaders ∧ ¬ PortsFromHeader oneAddress laterFragment := by
  refine ⟨by show _ ≤ _; decide, fun h => ?_⟩
  have hpkt : ∃ pkt, ofFrame laterFragment.header laterFragment.raw oneAddress = some pkt ∧
      pkt.discard = false ∧ pkt.type = .tcp ∧ pkt.sport = 0xDEAD := by
    refine ⟨_, rfl, ?_⟩
    decide
  obtain ⟨pkt, hpkt, hkept, htype, -⟩ := hpkt
  exact absurd (h.own pkt hpkt hkept (Or.inl htype)).2.1 (by decide)

end Ntmd
