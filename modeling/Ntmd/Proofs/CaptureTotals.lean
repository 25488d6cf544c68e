/-
The totals of captured traffic do not depend on how it is attributed.

A frame that counts adds its length and one packet to one line, whichever line
`resolve` chooses, and every other frame leaves the storage alone; so the totals over
all lines grow by what the frames say (`total_run`).  The local addresses enter
through `IPList.contains`, which looks at the first slot of the array even when the
list is empty: there the frames that count are not those of the list.
-/
import Ntmd.Lib.MapSum
import Ntmd.Net.SnifferLoop
import Ntmd.Proofs.Conservation
import Ntmd.Proofs.FrameParse
import Ntmd.Proofs.SameKey

namespace Ntmd

open MapSum

namespace Counter

/-- The direction a counter is about. -/
def direction : Counter → Direction
  | .bytesRx | .pktRxCount => .incoming
  | .bytesTx | .pktTxCount => .outgoing

/-- What a frame of that direction adds: its length, or one packet. -/
def ofFrame : Counter → CapturedFrame → Int
  | .bytesRx, f | .bytesTx, f => f.header.len.toNat
  | .pktRxCount, _ | .pktTxCount, _ => 1

/-- The most a frame adds. -/
def cap : Counter → Int
  | .bytesRx | .bytesTx => 2 ^ 31
  | .pktRxCount | .pktTxCount => 1

theorem amount_of_frame (c : Counter) {f : CapturedFrame} {pkt : Packet}
    (hdir : pkt.direction ≠ .unknown) (hlen : pkt.len.toInt = f.header.len.toNat) :
    c.amount pkt = if c.direction = pkt.direction then c.ofFrame f else 0 := by
  cases hdirection : pkt.direction with
  | unknown => exact absurd hdirection hdir
  | incoming => cases c <;> simp [amount, direction, ofFrame, hdirection, hlen]
  | outgoing => cases c <;> simp [amount, direction, ofFrame, hdirection, hlen]

theorem ofFrame_bounds (c : Counter) {f : CapturedFrame} (hf : f.Complete) :
    0 ≤ c.ofFrame f ∧ c.ofFrame f ≤ c.cap := by
  have hlen := hf.len_lt
  cases c <;> simp only [ofFrame, cap] <;> omega

end Counter

namespace TrafficStorage

/-- The line of an application, an empty one when it has none. -/
def lineOf (s : TrafficStorage) (comm : Bytes) : TrafficLine :=
  (s.mApplicationTraffic.lookup comm).getD {}

/-- An add writes one line. -/
theorem add_eq (s : TrafficStorage) (process : Process) (pkt : Packet) :
    s.add process pkt =
      { s with mApplicationTraffic :=
          s.mApplicationTraffic.insert process.comm ((s.lineOf process.comm).add pkt) } := by
  unfold add lookupLine lineOf
  cases hlookup : s.mApplicationTraffic.lookup process.comm with
  | some l => exact increment_live rfl hlookup
  | none =>
      refine (increment_live rfl (AList.lookup_insert _)).trans ?_
      simp only [AList.insert_insert]
      rfl

theorem read_lineOf (c : Counter) (s : TrafficStorage) (comm : Bytes) :
    c.read (s.lineOf comm) = held c comm s.mApplicationTraffic := by
  unfold lineOf held
  cases s.mApplicationTraffic.lookup comm with
  | some l => rfl
  | none => cases c <;> rfl

end TrafficStorage

namespace Sniffer

/-- A counter over all applications. -/
def total (c : Counter) (s : Sniffer) : Int := sumOf c.read s.mTrafficStorage.mApplicationTraffic

/-- What the frames that count add to a counter. -/
def counted (isLocal : UInt32 → Bool) (c : Counter) (fs : List CapturedFrame) : Int :=
  ((fs.filter fun f => f.countsAs isLocal = some c.direction).map c.ofFrame).sum

/-- The frames of a run. -/
def framesOf (as : List Action) : List CapturedFrame :=
  as.filterMap fun
    | .frame f _ _ => some f
    | _ => none

/-- One line changes, in one direction, by the length of the frame and by one packet. -/
def ChangesOneLine (m m' : TrafficMap) (f : CapturedFrame) (dir : Direction) : Prop :=
  ∃ comm, comm ∈ m' ∧ (∀ comm', comm' ≠ comm → m'.lookup comm' = m.lookup comm') ∧
    ∀ c : Counter, held c comm m' = held c comm m + if c.direction = dir then c.ofFrame f else 0

/-- What a frame does to the storage. -/
def FrameCounted (isLocal : UInt32 → Bool) (f : CapturedFrame) (s s' : Sniffer) : Prop :=
  match f.countsAs isLocal with
  | none => s'.mTrafficStorage = s.mTrafficStorage
  | some dir => ChangesOneLine s.mTrafficStorage.mApplicationTraffic
      s'.mTrafficStorage.mApplicationTraffic f dir

/-- The totals of a run grow by its frames, over any stretch of it, and each frame is counted once. -/
structure Conserves (isLocal : UInt32 → Bool) (s : Sniffer) (as : List Action) : Prop where
  totals : ∀ before during after, as = before ++ (during ++ after) → ∀ s₁ s₂,
    s.run before = .ok s₁ → s₁.run during = .ok s₂ →
      ∀ c, s₂.total c = s₁.total c + counted isLocal c (framesOf during)
  frames : ∀ before f net proc after, as = before ++ (.frame f net proc :: after) → ∀ s₁ s₂,
    s.run before = .ok s₁ → s₁.pktCallback f net proc = .ok s₂ → FrameCounted isLocal f s₁ s₂

/-! ### One frame -/

/-- What counts never counts in an unknown direction. -/
theorem countsAs_ne_unknown {f : CapturedFrame} {isLocal : UInt32 → Bool} :
    f.countsAs isLocal ≠ some .unknown := by
  unfold CapturedFrame.countsAs
  split
  · split
    · simp
    · split <;> simp
  · simp

/-- **A frame that counts is added to one application, every other frame to none.** -/
theorem pktCallback_spec {s s' : Sniffer} {f : CapturedFrame} {net : ProcNet} {proc : Proc}
    (hf : f.Complete) (h : s.pktCallback f net proc = .ok s') :
    s'.mIPList = s.mIPList ∧
      (f.countsAs s.mIPList.contains = none → s'.mTrafficStorage = s.mTrafficStorage) ∧
      ∀ dir, f.countsAs s.mIPList.contains = some dir →
        ∃ (process : Process) (pkt : Packet), pkt.direction = dir ∧ pkt.len.toInt = f.header.len.toNat ∧
          s'.mTrafficStorage = s.mTrafficStorage.add process pkt := by
  obtain ⟨pkt, hpkt, hdiscard, hcounts⟩ := Packet.ofFrame_spec hf s.mIPList
  rw [pktCallback, hpkt] at h
  simp only at h
  split at h
  · rename_i hdiscarded
    rw [← Except.ok.inj h]
    refine ⟨rfl, fun _ => rfl, fun dir hdir => ?_⟩
    rw [hdiscard.mp hdiscarded] at hdir
    exact absurd hdir (by simp)
  · rename_i hkept
    split at h
    · exact absurd h (by simp)
    · rename_i process resolver hresolve
      rw [← Except.ok.inj h]
      refine ⟨rfl, fun hnone => absurd (hdiscard.mpr hnone) hkept, fun dir hdir => ?_⟩
      obtain ⟨hdirection, hlen⟩ := hcounts dir hdir
      exact ⟨process, pkt, hdirection, hlen, rfl⟩

/-- After `n` frames no counter is above what `n` frames can add. -/
def Bounded (n : Nat) (s : Sniffer) : Prop :=
  ∀ (c : Counter) comm, 0 ≤ held c comm s.mTrafficStorage.mApplicationTraffic ∧
    held c comm s.mTrafficStorage.mApplicationTraffic ≤ n * c.cap

/-- A line that has taken fewer than 2^31 frames has room for one more. -/
theorem read_add_of_bounded {n : Nat} {s : Sniffer} (hbound : Bounded n s) (hn : n < 2 ^ 31 - 1)
    {f : CapturedFrame} (hf : f.Complete) {pkt : Packet} (hdir : pkt.direction ≠ .unknown)
    (hlen : pkt.len.toInt = f.header.len.toNat) (comm : Bytes) (c : Counter) :
    c.read ((s.mTrafficStorage.lineOf comm).add pkt) =
      held c comm s.mTrafficStorage.mApplicationTraffic +
        if c.direction = pkt.direction then c.ofFrame f else 0 := by
  obtain ⟨hlo, hhi⟩ := hbound c comm
  obtain ⟨hframe, hcap⟩ := c.ofFrame_bounds hf
  have hamount := c.amount_of_frame hdir hlen
  rw [← TrafficStorage.read_lineOf] at hlo hhi ⊢
  rw [← hamount, read_add_iff, hamount]
  have hle : (if c.direction = pkt.direction then c.ofFrame f else 0) ≤ c.cap := by
    split <;> omega
  have hge : 0 ≤ if c.direction = pkt.direction then c.ofFrame f else 0 := by
    split <;> omega
  cases c <;> simp only [Counter.cap] at hhi hle <;> simp only [Counter.InRange] <;> omega

theorem pktCallback_counted {n : Nat} {s s' : Sniffer} {f : CapturedFrame} {net : ProcNet}
    {proc : Proc} (hbound : Bounded n s) (hn : n < 2 ^ 31 - 1) (hf : f.Complete)
    (h : s.pktCallback f net proc = .ok s') :
    s'.mIPList = s.mIPList ∧ Bounded (n + 1) s' ∧ FrameCounted s.mIPList.contains f s s' ∧
      ∀ c, s'.total c = s.total c + counted s.mIPList.contains c [f] := by
  obtain ⟨hlist, hnone, hsome⟩ := pktCallback_spec hf h
  have hgrow : ∀ c : Counter, (n : Int) * c.cap + c.cap = (n + 1 : Nat) * c.cap := fun c => by
    cases c <;> simp only [Counter.cap] <;> omega
  refine ⟨hlist, ?_⟩
  cases hcounts : f.countsAs s.mIPList.contains with
  | none =>
      have hstorage := hnone hcounts
      refine ⟨fun c comm => ?_, by rw [FrameCounted, hcounts]; exact hstorage, fun c => ?_⟩
      · obtain ⟨hlo, hhi⟩ := hbound c comm
        have hcap : 0 ≤ c.cap := by cases c <;> decide
        have := hgrow c
        rw [hstorage]
        exact ⟨hlo, by omega⟩
      · rw [total, hstorage, counted, List.filter_cons_of_neg (by simp [hcounts])]
        exact (Int.add_zero _).symm
  | some dir =>
      obtain ⟨process, pkt, rfl, hlen, hstorage⟩ := hsome dir hcounts
      have hdir : pkt.direction ≠ .unknown := fun hd => countsAs_ne_unknown (hd ▸ hcounts)
      have hread := read_add_of_bounded hbound hn hf hdir hlen process.comm
      rw [TrafficStorage.add_eq] at hstorage
      refine ⟨fun c comm => ?_, ?_, fun c => ?_⟩
      · -- Only the line written can have grown, and by no more than one frame's worth.
        obtain ⟨hlo, hhi⟩ := hbound c comm
        obtain ⟨hframe, hcap⟩ := c.ofFrame_bounds hf
        have := hgrow c
        rw [hstorage]
        by_cases hcomm : comm = process.comm
        · rw [hcomm] at hlo hhi ⊢
          rw [held_insert_self, hread]
          split <;> omega
        · rw [held_insert_ne c _ _ hcomm]
          exact ⟨hlo, by omega⟩
      · rw [FrameCounted, hcounts, hstorage]
        refine ⟨process.comm, (AList.mem_insert _).mpr (Or.inl rfl), fun comm hcomm => ?_, fun c => ?_⟩
        · exact AList.lookup_insert_ne hcomm
        · rw [held_insert_self, hread]
      · have hsum := sumOf_insert c.read s.mTrafficStorage.mApplicationTraffic process.comm
          ((s.mTrafficStorage.lineOf process.comm).add pkt)
        have hheld : valueAt c.read s.mTrafficStorage.mApplicationTraffic process.comm =
            held c process.comm s.mTrafficStorage.mApplicationTraffic := by
          unfold valueAt held
          cases s.mTrafficStorage.mApplicationTraffic.lookup process.comm <;> rfl
        rw [hheld, hread] at hsum
        have hcounted : counted s.mIPList.contains c [f] =
            if c.direction = pkt.direction then c.ofFrame f else 0 := by
          rw [counted]
          by_cases hc : c.direction = pkt.direction
          · simp [hcounts, hc]
          · simp [hcounts, hc, Ne.symm hc]
        rw [total, total, hstorage, hcounted]
        simp only
        omega

/-! ### A run -/

theorem run_append {s : Sniffer} : ∀ (as bs : List Action),
    s.run (as ++ bs) = (s.run as).bind fun s' => s'.run bs := by
  intro as
  induction as generalizing s with
  | nil => intro bs; rfl
  | cons a as ih =>
      intro bs
      rw [List.cons_append, run, run]
      cases s.step a with
      | error e => rfl
      | ok s' => exact ih bs

theorem counted_append (isLocal : UInt32 → Bool) (c : Counter) (fs fs' : List CapturedFrame) :
    counted isLocal c (fs ++ fs') = counted isLocal c fs + counted isLocal c fs' := by
  rw [counted, List.filter_append, List.map_append, List.sum_append]
  rfl

theorem framesOf_append (as bs : List Action) :
    framesOf (as ++ bs) = framesOf as ++ framesOf bs := List.filterMap_append

/-- **A stretch of a run adds up its frames**, as the list of addresses is asked. -/
theorem run_counted : ∀ {as : List Action} {n : Nat} {s s' : Sniffer}, Bounded n s →
    n + (framesOf as).length < 2 ^ 31 → (∀ f ∈ framesOf as, f.Complete) → s.run as = .ok s' →
      s'.mIPList = s.mIPList ∧ Bounded (n + (framesOf as).length) s' ∧
        ∀ c, s'.total c = s.total c + counted s.mIPList.contains c (framesOf as) := by
  intro as
  induction as with
  | nil =>
      intro n s s' hbound _ _ hrun
      rw [← Except.ok.inj hrun]
      exact ⟨rfl, hbound, fun c => (Int.add_zero _).symm⟩
  | cons a as ih =>
      intro n s s' hbound hlength hcomplete hrun
      rw [run] at hrun
      cases hstep : s.step a with
      | error e =>
          rw [hstep] at hrun
          exact absurd hrun (by simp [bind, Except.bind])
      | ok s₁ =>
          rw [hstep] at hrun
          cases a with
          | frame f net proc =>
              have hframes : framesOf (.frame f net proc :: as) = [f] ++ framesOf as := rfl
              rw [hframes, List.length_append, List.length_singleton] at hlength
              rw [hframes] at hcomplete
              obtain ⟨hlist₁, hbound₁, -, htotal₁⟩ := pktCallback_counted hbound (by omega)
                (hcomplete f List.mem_cons_self) hstep
              obtain ⟨hlist, hbound', htotal⟩ := ih hbound₁ (by omega)
                (fun g hg => hcomplete g (List.mem_cons_of_mem _ hg)) hrun
              rw [hframes, List.length_append, List.length_singleton, ← Nat.add_assoc]
              refine ⟨hlist.trans hlist₁, hbound', fun c => ?_⟩
              rw [htotal, htotal₁, counted_append, hlist₁, Int.add_assoc]
          | clearSockets =>
              rw [← Except.ok.inj hstep] at hrun
              exact @ih n { s with mProcessResolver := s.mProcessResolver.step .clearSockets } s'
                hbound hlength hcomplete hrun
          | clearProcesses =>
              rw [← Except.ok.inj hstep] at hrun
              exact @ih n { s with mProcessResolver := s.mProcessResolver.step .clearProcesses } s'
                hbound hlength hcomplete hrun

/-- A run that returns is a run of each of its parts. -/
theorem run_split {s s' : Sniffer} {as bs : List Action} (h : s.run (as ++ bs) = .ok s') :
    ∃ s₁, s.run as = .ok s₁ ∧ s₁.run bs = .ok s' := by
  rw [run_append] at h
  cases hrun : s.run as with
  | error e =>
      rw [hrun] at h
      exact absurd h (by simp [Except.bind])
  | ok s₁ =>
      rw [hrun] at h
      exact ⟨s₁, rfl, h⟩

/-- **Totals are conserved for every list, with `contains` deciding what is local.** -/
theorem conserves_contains {s : Sniffer} {as : List Action}
    (hempty : s.mTrafficStorage.mApplicationTraffic = ∅) (hlength : (framesOf as).length < 2 ^ 31)
    (hcomplete : ∀ f ∈ framesOf as, f.Complete) : Conserves s.mIPList.contains s as := by
  have hbound : Bounded 0 s := fun c comm => by
    rw [hempty, held_empty]
    exact ⟨Int.le_refl 0, by simp⟩
  constructor
  · rintro before during after rfl s₁ s₂ hbefore hduring c
    rw [framesOf_append, framesOf_append, List.length_append, List.length_append] at hlength
    rw [framesOf_append, framesOf_append] at hcomplete
    obtain ⟨hlist₁, hbound₁, -⟩ := run_counted hbound (by omega)
      (fun f hf => hcomplete f (List.mem_append_left _ hf)) hbefore
    obtain ⟨-, -, htotal⟩ := run_counted hbound₁ (by omega)
      (fun f hf => hcomplete f (List.mem_append_right _ (List.mem_append_left _ hf))) hduring
    rw [htotal, hlist₁]
  · rintro before f net proc after rfl s₁ s₂ hbefore hcallback
    have hframes : framesOf (.frame f net proc :: after) = f :: framesOf after := rfl
    rw [framesOf_append, hframes, List.length_append, List.length_cons] at hlength
    rw [framesOf_append, hframes] at hcomplete
    obtain ⟨hlist₁, hbound₁, -⟩ := run_counted hbound (by omega)
      (fun g hg => hcomplete g (List.mem_append_left _ hg)) hbefore
    obtain ⟨-, -, hcounted, -⟩ := pktCallback_counted hbound₁ (by omega)
      (hcomplete f (List.mem_append_right _ List.mem_cons_self)) hcallback
    rw [← hlist₁]
    exact hcounted

/-- Only what counts matters of what is local. -/
theorem Conserves.congr {p q : UInt32 → Bool} {s : Sniffer} {as : List Action}
    (h : Conserves p s as) (hpq : ∀ f ∈ framesOf as, f.countsAs p = f.countsAs q) :
    Conserves q s as := by
  constructor
  · rintro before during after rfl s₁ s₂ hbefore hduring c
    rw [h.totals before during after rfl s₁ s₂ hbefore hduring c, counted, counted]
    congr 3
    refine List.filter_congr fun f hf => ?_
    rw [hpq f (by
      rw [framesOf_append, framesOf_append]
      exact List.mem_append_right _ (List.mem_append_left _ hf))]
  · rintro before f net proc after rfl s₁ s₂ hbefore hcallback
    have hcounted := h.frames before f net proc after rfl s₁ s₂ hbefore hcallback
    rw [FrameCounted, hpq f (by
      rw [framesOf_append]
      exact List.mem_append_right _ List.mem_cons_self)] at hcounted
    exact hcounted

/-! ### The addresses in the list -/

/-- The address is one of those in the list. -/
def listed (iplist : IPList) (ip : UInt32) : Bool := ip ∈ iplist.addresses

theorem listed_eq_contains {iplist : IPList} (h : 0 < iplist.mSize) :
    listed iplist = iplist.contains := by
  funext ip
  rw [listed, Bool.eq_iff_iff, decide_eq_true_iff]
  exact (IPList.contains_iff h ip).symm

/-- Nothing counts for an empty list. -/
theorem countsAs_listed_of_empty {iplist : IPList} (h : iplist.mSize = 0) (f : CapturedFrame) :
    f.countsAs (listed iplist) = none := by
  have hnone : ∀ ip, listed iplist ip = false := fun ip => by simp [listed, IPList.addresses, h]
  exact CapturedFrame.countsAs_eq_none (Or.inr ⟨hnone _, hnone _⟩)

/-- A frame that counts changes the storage. -/
theorem not_changesOneLine_self {m : TrafficMap} {f : CapturedFrame} {dir : Direction}
    (hdir : dir ≠ .unknown) : ¬ ChangesOneLine m m f dir := by
  rintro ⟨comm, -, -, hheld⟩
  cases dir with
  | unknown => exact hdir rfl
  | incoming =>
      have := hheld .pktRxCount
      simp only [Counter.direction, Counter.ofFrame, if_true] at this
      omega
  | outgoing =>
      have := hheld .pktTxCount
      simp only [Counter.direction, Counter.ofFrame, if_true] at this
      omega

/-- With an empty list a frame that counts nevertheless spoils the totals. -/
theorem not_conserves_of_empty {s s' : Sniffer} {as : List Action} (h0 : s.mIPList.mSize = 0)
    (hempty : s.mTrafficStorage.mApplicationTraffic = ∅) (hrun : s.run as = .ok s')
    (hlength : (framesOf as).length < 2 ^ 31) (hcomplete : ∀ f ∈ framesOf as, f.Complete)
    {f : CapturedFrame} (hf : f ∈ framesOf as) (hcounts : f.countsAs s.mIPList.contains ≠ none) :
    ¬ Conserves (listed s.mIPList) s as := by
  intro hlisted
  have hcontains := conserves_contains hempty hlength hcomplete
  obtain ⟨dir, hdir⟩ := Option.ne_none_iff_exists'.mp hcounts
  obtain ⟨a, ha, hframe⟩ := List.mem_filterMap.mp hf
  cases a with
  | clearSockets => exact absurd hframe (by simp)
  | clearProcesses => exact absurd hframe (by simp)
  | frame g net proc =>
      obtain rfl : g = f := Option.some.inj hframe
      obtain ⟨before, after, rfl⟩ := List.append_of_mem ha
      obtain ⟨s₁, hbefore, hafter⟩ := run_split hrun
      obtain ⟨s₂, hstep, -⟩ := @run_split s₁ s' [.frame g net proc] after hafter
      have hcallback : s₁.pktCallback g net proc = .ok s₂ := by
        cases hpkt : s₁.pktCallback g net proc with
        | error e =>
            rw [run, step, hpkt] at hstep
            exact absurd hstep (by simp [bind, Except.bind])
        | ok s₃ =>
            rw [run, step, hpkt] at hstep
            exact congrArg _ (Except.ok.inj hstep)
      -- At its place in the run the frame changes a line, which it should not.
      have hunchanged := hlisted.frames before g net proc after rfl s₁ s₂ hbefore hcallback
      have hchanged := hcontains.frames before g net proc after rfl s₁ s₂ hbefore hcallback
      rw [FrameCounted, countsAs_listed_of_empty h0] at hunchanged
      rw [FrameCounted, hdir] at hchanged
      simp only at hunchanged hchanged
      rw [hunchanged] at hchanged
      exact not_changesOneLine_self (fun hd => countsAs_ne_unknown (hd ▸ hdir)) hchanged

/--
**The totals of a run are those of the frames from and to the listed addresses exactly if the
list is not empty, or none of the frames counts by what is in its first slot.**
-/
theorem conserves_listed_iff (s s' : Sniffer) (as : List Action)
    (hempty : s.mTrafficStorage.mApplicationTraffic = ∅) (hrun : s.run as = .ok s')
    (hlength : (framesOf as).length < 2 ^ 31) (hcomplete : ∀ f ∈ framesOf as, f.Complete) :
    Conserves (listed s.mIPList) s as ↔
      0 < s.mIPList.mSize ∨ ∀ f ∈ framesOf as, f.countsAs s.mIPList.contains = none := by
  have hcontains := conserves_contains hempty hlength hcomplete
  rcases Nat.eq_zero_or_pos s.mIPList.mSize with h0 | hpos
  · rw [or_iff_right (by omega)]
    constructor
    · intro hlisted f hf
      by_contra hcounts
      exact not_conserves_of_empty h0 hempty hrun hlength hcomplete hf hcounts hlisted
    · intro hnone
      exact hcontains.congr fun f hf => (hnone f hf).trans (countsAs_listed_of_empty h0 f).symm
  · rw [listed_eq_contains hpos]
    exact iff_of_true hcontains (Or.inl hpos)

/-- A datagram without payload between the client's and the server's port of DHCP. -/
def datagram (src dst : Bytes) : CapturedFrame where
  header := { tsSec := 1672549200, len := 42 }
  raw := List.replicate 12 0 ++ ([8, 0, 0x45] ++ (List.replicate 8 0 ++ ([17, 0, 0] ++
    (src ++ (dst ++ [0, 68, 0, 67, 0, 8, 0, 0])))))

/-- A sniffer before its first frame, on a host whose tables are empty. -/
def sniffer (iplist : IPList) : Sniffer where
  mIPList := iplist
  mProcessResolver :=
    { mSocketIndex := {}, mProcessIndex := { mLRUCache := { mDeque := [], mSize := 5 } } }
  mTrafficStorage := { mInterval := 10 }

/-- A datagram that arrives when no table can be opened. -/
def arrives (src dst : Bytes) : List Action :=
  [.frame (datagram src dst) (fun _ => none)
    ⟨some [], fun _ => false, fun _ => ⟨none, none, .replicate 80 0⟩⟩]

theorem complete_datagram {src dst : Bytes} (hsrc : src.length = 4) (hdst : dst.length = 4) :
    ∀ f ∈ framesOf (arrives src dst), f.Complete := by
  intro f hf
  rw [List.mem_singleton.mp hf]
  have hlength : (datagram src dst).raw.length = 42 := by simp [datagram, hsrc, hdst]
  refine ⟨by omega, fun _ => by omega, fun _ => ?_, ?_⟩
  · have hver : (datagram src dst).byte 14 = 0x45 := rfl
    have hprotocol : (datagram src dst).byte 23 = 17 := rfl
    rw [hlength, CapturedFrame.transportAt, CapturedFrame.protocol, hver, hprotocol]
    decide
  · show (42 : UInt32).toNat < 2 ^ 31
    decide

/-- A datagram that comes in, and one that goes out. -/
def twoFrames : List Action :=
  arrives [8, 8, 8, 8] [192, 168, 0, 2] ++ arrives [192, 168, 0, 2] [9, 9, 9, 9]

theorem conserves_listed_twoFrames :
    Conserves (listed oneAddress) (sniffer oneAddress) twoFrames := by
  obtain ⟨s', hrun⟩ : ∃ s', (sniffer oneAddress).run twoFrames = .ok s' := ⟨_, rfl⟩
  have hcomplete : ∀ f ∈ framesOf twoFrames, f.Complete := by
    rw [twoFrames, framesOf_append]
    exact List.forall_mem_append.mpr ⟨complete_datagram rfl rfl, complete_datagram rfl rfl⟩
  exact (conserves_listed_iff (sniffer oneAddress) s' _ rfl hrun (by decide) hcomplete).mpr
    (Or.inl (by decide))

/-- A host without an address asks for one, and its datagram counts as sent by a listed address. -/
theorem not_conserves_listed_empty :
    ¬ ∀ s s' as, s.mTrafficStorage.mApplicationTraffic = ∅ → s.run as = .ok s' →
      (framesOf as).length < 2 ^ 31 → (∀ f ∈ framesOf as, f.Complete) →
        Conserves (listed s.mIPList) s as := by
  intro h
  obtain ⟨s', hrun⟩ : ∃ s',
      (sniffer {}).run (arrives [0, 0, 0, 0] [255, 255, 255, 255]) = .ok s' := ⟨_, rfl⟩
  have hcomplete : ∀ f ∈ framesOf (arrives [0, 0, 0, 0] [255, 255, 255, 255]), f.Complete :=
    complete_datagram rfl rfl
  exact not_conserves_of_empty rfl rfl hrun (by decide) hcomplete List.mem_cons_self (by decide)
    (h _ s' _ rfl hrun (by decide) hcomplete)

end Sniffer

end Ntmd
