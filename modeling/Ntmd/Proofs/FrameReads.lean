/-
Which bytes of a captured frame the constructor reads.

`ofFrame` has no result when it reads past the captured bytes.  It looks at the
Ethernet header of every frame, at the IP header of an IPv4 frame, and at the two
ports when one of the addresses is local and the protocol has ports: `Readable` says
that these are in the capture.  No length is looked at before any of the reads, so
what is not there is read all the same (`ofFrame_isSome_iff`).
-/
import Ntmd.Proofs.FrameParse

namespace Ntmd

open Packet

theorem load16_isSome_iff (raw : Bytes) (i : Nat) :
    (load16 raw i).isSome = true ↔ i + 2 ≤ raw.length := by
  rw [load16]
  split
  · rename_i a b ha hb
    exact iff_of_true rfl (List.getElem?_eq_some_iff.mp hb).1
  · rename_i hshort
    refine iff_of_false (by simp) fun hlen => ?_
    exact hshort _ _ (List.getElem?_eq_getElem (by omega)) (List.getElem?_eq_getElem (by omega))

theorem load32_isSome_iff {raw : Bytes} {i : Nat} :
    (load32 raw i).isSome = true ↔ i + 4 ≤ raw.length := by
  rw [load32]
  split
  · rename_i a b c d ha hb hc hd
    exact iff_of_true rfl (List.getElem?_eq_some_iff.mp hd).1
  · rename_i hshort
    refine iff_of_false (by simp) fun hlen => ?_
    exact hshort _ _ _ _ (List.getElem?_eq_getElem (by omega))
      (List.getElem?_eq_getElem (by omega)) (List.getElem?_eq_getElem (by omega))
      (List.getElem?_eq_getElem (by omega))

namespace CapturedFrame

/-- One of the addresses is in the list. -/
def isListed (f : CapturedFrame) (iplist : IPList) : Bool :=
  iplist.contains f.source || iplist.contains f.dest

/-- The protocols that have ports. -/
def hasPorts (f : CapturedFrame) : Bool := f.protocol == ipprotoTCP || f.protocol == ipprotoUDP

/-- The headers that the constructor comes to look at are in the capture. -/
structure Readable (f : CapturedFrame) (iplist : IPList) : Prop where
  ethernet : 14 ≤ f.raw.length
  ip : f.isIPv4 = true → 34 ≤ f.raw.length
  ports : f.isIPv4 = true → f.isListed iplist = true → f.hasPorts = true →
    f.transportAt + 4 ≤ f.raw.length

variable {f : CapturedFrame}

theorem directionOf_ne_unknown_iff {iplist : IPList} :
    directionOf iplist f.source f.dest ≠ .unknown ↔ f.isListed iplist = true := by
  rw [directionOf, isListed]
  cases iplist.contains f.source <;> cases iplist.contains f.dest <;> simp

end CapturedFrame

open CapturedFrame

namespace Packet

variable {f : CapturedFrame}

/-- Both ports are read, or the read of one of them fails. -/
theorem ports_isSome_iff (f : CapturedFrame) (pkt : UInt16 → UInt16 → Packet) :
    (do
      let source ← load16 f.raw f.transportAt
      let dest ← load16 f.raw (f.transportAt + 2)
      return pkt source dest : Option Packet).isSome = true ↔
      f.transportAt + 4 ≤ f.raw.length := by
  have hsource := load16_isSome_iff f.raw f.transportAt
  have hdest := load16_isSome_iff f.raw (f.transportAt + 2)
  cases hs : load16 f.raw f.transportAt with
  | none =>
      rw [hs] at hsource
      refine iff_of_false (by simp) fun hlen => absurd (hsource.mpr (by omega)) (by simp)
  | some source =>
      cases hd : load16 f.raw (f.transportAt + 2) with
      | none =>
          rw [hd] at hdest
          refine iff_of_false (by simp) fun hlen => absurd (hdest.mpr (by omega)) (by simp)
      | some dest =>
          rw [hd] at hdest
          exact iff_of_true rfl (by have := hdest.mp rfl; omega)

/-- A TCP or UDP header is read up to its ports, and no other at all. -/
theorem parseTransport_isSome_iff {pkt : Packet} (hprotocol : pkt.protocol = f.protocol) :
    (parseTransport f.raw f.transportAt pkt).isSome = true ↔
      (f.hasPorts = true → f.transportAt + 4 ≤ f.raw.length) := by
  rw [parseTransport, hprotocol, hasPorts]
  by_cases htcp : f.protocol = ipprotoTCP
  · rw [if_pos htcp, htcp]
    exact (ports_isSome_iff f _).trans (by simp)
  rw [if_neg htcp]
  by_cases hudp : f.protocol = ipprotoUDP
  · rw [if_pos hudp, hudp]
    exact (ports_isSome_iff f _).trans (by simp)
  rw [if_neg hudp]
  refine iff_of_true ?_ (by simp [htcp, hudp])
  split <;> rfl

/-- **The constructor stays inside the frame exactly if the headers it looks at are there.** -/
theorem ofFrame_isSome_iff (f : CapturedFrame) (iplist : IPList) :
    (ofFrame f.header f.raw iplist).isSome = true ↔ f.Readable iplist := by
  by_cases hethernet : 14 ≤ f.raw.length
  swap
  · refine iff_of_false ?_ fun h => hethernet h.ethernet
    have hether : load16 f.raw 12 = none := by
      rw [← Option.not_isSome_iff_eq_none, load16_isSome_iff]
      omega
    rw [ofFrame, hether]
    simp
  by_cases hip : f.isIPv4 = true
  swap
  · rw [ofFrame_not_ipv4 hethernet (Bool.eq_false_iff.mpr hip)]
    exact iff_of_true rfl ⟨hethernet, fun h => absurd h hip, fun h => absurd h hip⟩
  by_cases hlen : 34 ≤ f.raw.length
  swap
  · refine iff_of_false ?_ fun h => hlen (h.ip hip)
    have hdip : load32 f.raw (ethhdrLen + 16) = none := by
      rw [← Option.not_isSome_iff_eq_none, load32_isSome_iff]
      show ¬ 34 ≤ _
      exact hlen
    rw [ofFrame, hdip]
    simp [load16_raw (f := f) (i := 12) (by omega), (etherType_iff f).mpr hip]
  rw [ofFrame_ipv4 hlen hip]
  by_cases hlisted : f.isListed iplist = true
  · rw [if_neg (directionOf_ne_unknown_iff.mpr hlisted), parseTransport_isSome_iff rfl]
    exact ⟨fun h => ⟨hethernet, fun _ => hlen, fun _ _ => h⟩, fun h => h.ports hip hlisted⟩
  · rw [if_pos (not_not.mp (mt directionOf_ne_unknown_iff.mp hlisted))]
    exact iff_of_true rfl ⟨hethernet, fun _ => hlen, fun _ h => absurd h hlisted⟩

/-- A frame of the least size, whose IP header claims to be as long as one can be. -/
def longHeaderFrame : Bytes :=
  [0, 0, 0, 0, 0, 0, 0, 0, 0, 0, 0, 0, 8, 0,
   0x4F, 0, 0, 46, 0, 0, 0x40, 0, 64, 6, 0, 0, 93, 184, 216, 34, 192, 168, 0, 2] ++
  List.replicate 26 0

/-- Its ports would stand at bytes 74 to 77 of the sixty that were captured. -/
theorem ofFrame_longHeaderFrame :
    longHeaderFrame.length = 60 ∧ ofFrame ⟨1672549200, 60⟩ longHeaderFrame oneAddress = none := by
  refine ⟨rfl, ?_⟩
  decide

end Packet

end Ntmd
