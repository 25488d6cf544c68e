/-
Neither index has a key both in its map and in its not-found list, as long as it does
not load one.

A key gets into the list when it is looked for in vain, and into the map whenever a
line or a link with it is read, which mostly happens while another key is looked for.
Nothing takes a key out of the list at that moment, so the two drift apart exactly
when something is read that is in the list already.  Both indexes are seen as a
`MissCache`, and what each of their steps loads is what `Reads` says it reads.
-/
import Ntmd.Lib.MissCache
import Ntmd.Lib.Run
import Ntmd.Proofs.Reads

namespace Ntmd

open LoadMap MissCache Run

/-! ### Sockets -/

namespace SocketIndex

/-- No key is both in the map and in the not-found list. -/
def Consistent (s : SocketIndex) : Prop := (ofMap s.mSocketMap s.mCouldNotFind).Consistent

/-- Every key the map can answer is answered, and not refused. -/
def AnswersKnown (s : SocketIndex) : Prop :=
  ∀ pkt net inode, s.mSocketMap.lookup (PacketHash.ofPacket pkt) = some inode →
    (s.get pkt net).1 = inode

/-- No line that a step reads has a key the index could not find before. -/
def LoadsNoMissed (s : SocketIndex) : Action → Prop
  | .get pkt net =>
      PacketHash.ofPacket pkt ∉ s.mCouldNotFind → PacketHash.ofPacket pkt ∉ s.mSocketMap →
        ∀ e ∈ (tablesFor pkt.type).flatMap (tableEntries net), e.1 ∉ s.mCouldNotFind
  | .refresh tables net => ∀ e ∈ tables.flatMap (tableEntries net), e.1 ∉ s.mCouldNotFind
  | .clear => True

theorem consistent_get_iff {s : SocketIndex} (h : s.Consistent) (pkt : Packet) (net : ProcNet) :
    (s.get pkt net).2.Consistent ↔ s.LoadsNoMissed (.get pkt net) := by
  by_cases hmissed : PacketHash.ofPacket pkt ∈ s.mCouldNotFind
  · rw [get_of_missed hmissed]
    exact iff_of_true h fun hnot => absurd hmissed hnot
  cases hlookup : s.mSocketMap.lookup (PacketHash.ofPacket pkt) with
  | some inode =>
      rw [get_of_known hmissed hlookup]
      have hmem : PacketHash.ofPacket pkt ∈ s.mSocketMap := by
        rw [← AList.lookup_isSome, hlookup]
        rfl
      exact iff_of_true h fun _ hnot => absurd hmem hnot
  | none =>
      have hunknown : PacketHash.ofPacket pkt ∉ s.mSocketMap := AList.lookup_eq_none.mp hlookup
      have hguard : s.LoadsNoMissed (.get pkt net) ↔
          ∀ e ∈ (tablesFor pkt.type).flatMap (tableEntries net), e.1 ∉ s.mCouldNotFind :=
        ⟨fun hg => hg hmissed hunknown, fun hg _ _ => hg⟩
      rw [hguard]
      by_cases htables : tablesFor pkt.type = []
      · rw [get_of_no_tables hmissed hlookup htables, htables]
        exact iff_of_true h (by simp)
      · rw [get_of_unknown hmissed hlookup htables, refresh_eq]
        simp only
        cases hfound : (load s.mSocketMap ((tablesFor pkt.type).flatMap (tableEntries net))).lookup
            (PacketHash.ofPacket pkt) with
        | some inode => exact consistent_load_iff h _
        | none =>
            -- The key remembered is one the refresh did not load.
            rw [Consistent, consistent_load_insert_iff h]
            exact and_iff_left (AList.lookup_eq_none.mp hfound)

theorem consistent_step_iff {s : SocketIndex} (h : s.Consistent) (a : Action) :
    (s.step a).Consistent ↔ s.LoadsNoMissed a := by
  cases a with
  | get pkt net => exact consistent_get_iff h pkt net
  | refresh tables net =>
      rw [step, refresh_eq]
      exact consistent_load_iff h _
  | clear => exact iff_of_true (consistent_ofMap_empty _) trivial

theorem consistent_init (net : ProcNet) : (init net).Consistent := by
  rw [Consistent, init, refresh_eq]
  exact consistent_ofMap_empty _

theorem answersKnown_of_consistent {s : SocketIndex} (h : s.Consistent) : s.AnswersKnown := by
  intro pkt net inode hknown
  have hmem : PacketHash.ofPacket pkt ∈ s.mSocketMap := by
    rw [← AList.lookup_isSome, hknown]
    rfl
  rw [get_of_known (ofMap_consistent_iff.mp h _ hmem) hknown]

end SocketIndex

/-! ### Processes -/

namespace ProcessIndex

/-- No inode is both in the map and in the not-found list. -/
def Consistent (s : ProcessIndex) : Prop := (ofMap s.mProcessMap s.mCouldNotFind).Consistent

/-- Every inode the map can answer is answered, and not refused. -/
def AnswersKnown (s : ProcessIndex) : Prop :=
  ∀ inode proc process, s.mProcessMap.lookup inode = some process →
    s.get inode proc = .ok (some process, s)

/-- No link that a step reads has an inode the index could not find before, and none has inode
zero while zero itself is looked for. -/
def LoadsNoMissed (s : ProcessIndex) : Action → Prop
  | .get inode proc =>
      inode ∉ s.mCouldNotFind → inode ∉ s.mProcessMap →
        ∀ r, searchReads s proc inode = .ok r →
          ∀ e ∈ r.1, e.1 ∉ s.mCouldNotFind ∧ ¬ (inode = 0 ∧ e.1 = 0)
  | .clear => True

/-- Nothing found means that the inode was not read, unless it is zero. -/
theorem foundIn_eq_none_iff {target : UInt64} {l : List (UInt64 × Process)} :
    foundIn target l = none ↔ target = 0 ∨ ∀ e ∈ l, e.1 ≠ target := by
  unfold foundIn
  by_cases h0 : target = 0
  · simp [h0]
  · rw [if_neg h0, last_eq_none_iff]
    simp [h0]

theorem consistent_get_iff {s : ProcessIndex} (h : s.Consistent) (inode : UInt64) (proc : Proc) :
    (s.step (.get inode proc)).Consistent ↔ s.LoadsNoMissed (.get inode proc) := by
  rw [step]
  by_cases hmissed : inode ∈ s.mCouldNotFind
  · rw [get_of_missed hmissed]
    exact iff_of_true h fun hnot => absurd hmissed hnot
  cases hlookup : s.mProcessMap.lookup inode with
  | some process =>
      rw [get_of_known hmissed hlookup]
      have hmem : inode ∈ s.mProcessMap := by
        rw [← AList.lookup_isSome, hlookup]
        rfl
      exact iff_of_true h fun _ hnot => absurd hmem hnot
  | none =>
      have hunknown : inode ∉ s.mProcessMap := AList.lookup_eq_none.mp hlookup
      have hguard : s.LoadsNoMissed (.get inode proc) ↔ ∀ r, searchReads s proc inode = .ok r →
          ∀ e ∈ r.1, e.1 ∉ s.mCouldNotFind ∧ ¬ (inode = 0 ∧ e.1 = 0) :=
        ⟨fun hg => hg hmissed hunknown, fun hg _ _ => hg⟩
      rw [hguard, get_of_unknown hmissed hlookup]
      cases hreads : searchReads s proc inode with
      | error e => exact iff_of_true h (by simp)
      | ok r =>
          simp only [Except.ok.injEq, forall_eq']
          cases hfound : foundIn inode r.1 with
          | some process =>
              have h0 : inode ≠ 0 := by
                rintro rfl
                simp [foundIn] at hfound
              simp only [h0, false_and, not_false_eq_true, and_true]
              exact consistent_load_iff h r.1
          | none =>
              -- Remembered although it may have been read: only inode zero is.
              simp only
              rw [Consistent, consistent_load_insert_iff h, mem_load, not_or, forall₂_and]
              refine and_congr_right fun _ => ?_
              rcases foundIn_eq_none_iff.mp hfound with rfl | hnot
              · refine ⟨fun hnot e he h0 => hnot.2 ⟨e, he, h0.2⟩, fun hnot => ⟨hunknown, ?_⟩⟩
                rintro ⟨e, he, heq⟩
                exact hnot e he ⟨rfl, heq⟩
              · refine iff_of_true ⟨hunknown, ?_⟩ fun e he h0 => hnot e he (h0.2.trans h0.1.symm)
                rintro ⟨e, he, heq⟩
                exact hnot e he heq

theorem consistent_step_iff {s : ProcessIndex} (h : s.Consistent) (a : Action) :
    (s.step a).Consistent ↔ s.LoadsNoMissed a := by
  cases a with
  | get inode proc => exact consistent_get_iff h inode proc
  | clear => exact iff_of_true (consistent_ofMap_empty _) trivial

theorem consistent_init {cacheSize : Int32} {proc : Proc} {s : ProcessIndex}
    (h : init cacheSize proc = .ok s) : s.Consistent := by
  have hmissed : s.mCouldNotFind = ∅ := by
    unfold init refresh at h
    cases hentries : proc.entries with
    | none => simp [hentries] at h
    | some entries =>
        simp only [hentries, bind, Except.bind] at h
        split at h
        · exact absurd h (by simp)
        · split at h
          · exact absurd h (by simp)
          · rw [← Except.ok.inj h]
  rw [Consistent, hmissed]
  exact consistent_ofMap_empty _

theorem answersKnown_of_consistent {s : ProcessIndex} (h : s.Consistent) : s.AnswersKnown := by
  intro inode proc process hknown
  have hmem : inode ∈ s.mProcessMap := by
    rw [← AList.lookup_isSome, hknown]
    rfl
  exact get_of_known (ofMap_consistent_iff.mp h _ hmem) hknown

end ProcessIndex

/-! ### Both -/

/--
**In every state of a run no key is both in the map and in the not-found list, and every key
of the map is answered, exactly if no step of the run reads a key that is in the list.**
-/
theorem consistent_run_iff (net : ProcNet) (as : List SocketIndex.Action) (cacheSize : Int32)
    (proc : Proc) (bs : List ProcessIndex.Action) :
    (Always SocketIndex.step (fun s => s.Consistent ∧ s.AnswersKnown) (SocketIndex.init net) as ↔
      Along SocketIndex.step SocketIndex.LoadsNoMissed (SocketIndex.init net) as) ∧
    (∀ s, ProcessIndex.init cacheSize proc = .ok s →
      (Always ProcessIndex.step (fun s => s.Consistent ∧ s.AnswersKnown) s bs ↔
        Along ProcessIndex.step ProcessIndex.LoadsNoMissed s bs)) := by
  have hsocket : (fun s : SocketIndex => s.Consistent ∧ s.AnswersKnown) = SocketIndex.Consistent :=
    funext fun _ => propext (and_iff_left_of_imp SocketIndex.answersKnown_of_consistent)
  have hprocess :
      (fun s : ProcessIndex => s.Consistent ∧ s.AnswersKnown) = ProcessIndex.Consistent :=
    funext fun _ => propext (and_iff_left_of_imp ProcessIndex.answersKnown_of_consistent)
  rw [hsocket, hprocess]
  constructor
  · exact always_iff_along (I := fun _ => True) (fun _ _ h => h)
      (fun s a _ h => SocketIndex.consistent_step_iff h a) trivial (SocketIndex.consistent_init net)
  · intro s hinit
    exact always_iff_along (I := fun _ => True) (fun _ _ h => h)
      (fun s a _ h => ProcessIndex.consistent_step_iff h a) trivial
      (ProcessIndex.consistent_init hinit)

/-- The tables of a host without sockets. -/
def noSockets : ProcNet := fun _ => some []

/-- The TCP table of a host with one connection, header included. -/
def oneSocket : ProcNet
  | .tcp => some [Bytes.ascii "  sl  local_address rem_address",
      Bytes.ascii "   0: 0200A8C0:A8CA 22D8B85D:01BB 01 00:00 00:00 00 1000 0 31337 1"]
  | _ => some []

/-- A packet of that connection. -/
def firstPacket : Packet :=
  { type := .tcp, protocol := 6, sip := 0x0200A8C0, dip := 0x22D8B85D, sport := 43210, dport := 443
    direction := .outgoing }

/-- A packet of another connection. -/
def secondPacket : Packet := { firstPacket with sport := 43211 }

/-- A `/proc` without processes. -/
def noProcesses : Proc := ⟨some [], fun _ => false, fun _ => ⟨none, none, .replicate 80 0⟩⟩

/-- A `/proc` with one process, which has one socket open. -/
def oneProcess : Proc :=
  ⟨some [⟨true, Bytes.ascii "10"⟩], fun _ => true, fun _ =>
    ⟨some (Bytes.ascii "ssh" ++ [10]), some [⟨true, some (Bytes.ascii "socket:[31337]")⟩],
      .replicate 80 0⟩⟩

/-- Each index remembers a miss, and what it loads later is not that. -/
theorem consistent_run_otherKeys :
    Always SocketIndex.step (fun s => s.Consistent ∧ s.AnswersKnown) (SocketIndex.init noSockets)
      [.get secondPacket noSockets, .get firstPacket oneSocket, .clear] ∧
    Always ProcessIndex.step (fun s => s.Consistent ∧ s.AnswersKnown)
      { mLRUCache := { mDeque := [], mSize := 5 } }
      [.get 5 noProcesses, .get 31337 oneProcess, .clear] := by
  obtain ⟨hsocket, hprocess⟩ := consistent_run_iff noSockets
    [.get secondPacket noSockets, .get firstPacket oneSocket, .clear] 5 noProcesses
    [.get 5 noProcesses, .get 31337 oneProcess, .clear]
  constructor
  · refine hsocket.mpr ⟨fun _ _ => ?_, fun _ _ => ?_, trivial, trivial⟩
    · decide +kernel
    · decide +kernel
  · refine (hprocess _ rfl).mpr ⟨fun _ _ r hr => ?_, fun _ _ r hr => ?_, trivial, trivial⟩
    · rw [← Except.ok.inj hr]
      exact fun e he => absurd he List.not_mem_nil
    · rw [← Except.ok.inj hr]
      decide +kernel

/-- A packet overtakes the appearance of its socket, and the next packet's refresh loads it. -/
theorem not_consistent_overtaken :
    ¬ (∀ net as, Always SocketIndex.step (fun s => s.Consistent ∧ s.AnswersKnown)
        (SocketIndex.init net) as) ∧
      (exec SocketIndex.step (SocketIndex.init noSockets)
        [.get firstPacket noSockets, .get secondPacket oneSocket]).get firstPacket oneSocket
        = (0, exec SocketIndex.step (SocketIndex.init noSockets)
            [.get firstPacket noSockets, .get secondPacket oneSocket]) := by
  have hmissed : PacketHash.ofPacket firstPacket ∈ (exec SocketIndex.step (SocketIndex.init noSockets)
      [.get firstPacket noSockets, .get secondPacket oneSocket]).mCouldNotFind := by
    decide +kernel
  have hknown : PacketHash.ofPacket firstPacket ∈ (exec SocketIndex.step (SocketIndex.init noSockets)
      [.get firstPacket noSockets, .get secondPacket oneSocket]).mSocketMap := by
    decide +kernel
  refine ⟨fun h => ?_, SocketIndex.get_of_missed hmissed⟩
  exact ofMap_consistent_iff.mp (h noSockets _).last.1 _ hknown hmissed

end Ntmd
