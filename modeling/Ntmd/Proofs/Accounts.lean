/-
From the frames on the wire to the ledger.

The monitor is two components that the earlier results are about: its storage takes
the steps of a `System`, and what those tell is a ledger.  `exec_sys` is the first
half of the way down and `answers_run` the second.  What is added here is the way up,
to the frames: each frame that counts becomes one packet that is pending and then
credited, and nothing is credited otherwise (`pending_credited`).

That is said for any set of application names together with the frames that go to them
(`AttributedAs`).  For all names and all frames there is nothing to ask of the resolver.

Without anything in between, the two steps of a frame are `pktCallback`.
-/
import Ntmd.Monitor
import Ntmd.Proofs.Clock

namespace Ntmd

open Bytes DBController Run Sqlite

namespace Monitor

/-! ### The steps of a monitor -/

/-- The steps of the storage that a step of the monitor makes. -/
def sysActions (s : Monitor) (a : MonitorAction) : List Action :=
  if s.fault.isSome then []
  else
    match a with
    | .frame f net proc =>
        if s.busy then []
        else
          match Packet.ofFrame f.header f.raw s.mIPList with
          | none => []
          | some pkt =>
              if pkt.discard then []
              else
                match s.mProcessResolver.resolve pkt net proc with
                | .error _ => []
                | .ok (process, _) => [.lookup captureThread process pkt]
    | .increment => [.increment captureThread]
    | .clearSockets => []
    | .clearProcesses => []
    | .deposit now o => [.deposit now o]
    | .snapshot => [.snapshot]
    | .await frame => [.await frame]

/-- The frame that a step takes in, if `pktCallback` is called and comes through. -/
def taken (s : Monitor) (a : MonitorAction) : List CapturedFrame :=
  match a with
  | .frame f _ _ => if s.fault.isSome || s.busy || (s.step a).fault.isSome then [] else [f]
  | _ => []

variable {s : Monitor}

/-- Everything that the call on a frame can do. -/
theorem step_frame_cases (s : Monitor) (f : CapturedFrame) (net : ProcNet) (proc : Proc) :
    (s.fault.isSome = true ∨ s.busy = true) ∧ s.step (.frame f net proc) = s ∨
    (∃ e, Sniffer.pktCallback ⟨s.mIPList, s.mProcessResolver, s.sys.storage⟩ f net proc = .error e ∧
      s.step (.frame f net proc) = { s with fault := some e } ∧
      s.sysActions (.frame f net proc) = []) ∨
    (∃ pkt, s.fault = none ∧ s.busy = false ∧
      Packet.ofFrame f.header f.raw s.mIPList = some pkt ∧ pkt.discard = true ∧
      s.step (.frame f net proc) = s) ∨
    (∃ pkt process resolver, s.fault = none ∧ s.busy = false ∧
      Packet.ofFrame f.header f.raw s.mIPList = some pkt ∧ pkt.discard = false ∧
      s.mProcessResolver.resolve pkt net proc = .ok (process, resolver) ∧
      s.step (.frame f net proc) =
        { s with
          mProcessResolver := resolver
          sys := s.sys.step (.lookup captureThread process pkt) }) := by
  cases hfault : s.fault with
  | some e => exact Or.inl ⟨Or.inl rfl, by simp [step, hfault]⟩
  | none =>
      cases hbusy : s.busy with
      | true => exact Or.inl ⟨Or.inr rfl, by simp [step, hfault, hbusy]⟩
      | false =>
          refine Or.inr ?_
          have hstep : s.step (.frame f net proc) = s.beginFrame f net proc := by
            simp [step, hfault, hbusy]
          rw [hstep]
          cases hpkt : Packet.ofFrame f.header f.raw s.mIPList with
          | none =>
              exact Or.inl ⟨.frame, by simp [Sniffer.pktCallback, hpkt], by simp [beginFrame, hpkt],
                by simp [sysActions, hfault, hbusy, hpkt]⟩
          | some pkt =>
              cases hdiscard : pkt.discard with
              | true =>
                  exact Or.inr (Or.inl ⟨pkt, rfl, rfl, rfl, hdiscard, by
                    simp [beginFrame, hpkt, hdiscard]⟩)
              | false =>
                  cases hresolve : s.mProcessResolver.resolve pkt net proc with
                  | error c =>
                      exact Or.inl ⟨.resolve c,
                        by simp [Sniffer.pktCallback, hpkt, hdiscard, hresolve],
                        by simp [beginFrame, hpkt, hdiscard, hresolve],
                        by simp [sysActions, hfault, hbusy, hpkt, hdiscard, hresolve]⟩
                  | ok r =>
                      exact Or.inr (Or.inr ⟨pkt, r.1, r.2, rfl, rfl, rfl, hdiscard, hresolve, by
                        simp [beginFrame, hpkt, hdiscard, hresolve, hfault]⟩)

theorem step_of_fault (h : s.fault.isSome = true) (a : MonitorAction) : s.step a = s := by
  unfold step
  exact if_pos h

/-- **A step of the monitor is these steps of its storage.** -/
theorem step_sys (s : Monitor) (a : MonitorAction) :
    (s.step a).sys = exec System.step s.sys (s.sysActions a) := by
  cases hfault : s.fault with
  | some e =>
      have hsome : s.fault.isSome = true := by simp [hfault]
      have hactions : s.sysActions a = [] := by simp [sysActions, hsome]
      rw [step_of_fault hsome, hactions, exec_nil]
  | none =>
      cases a with
      | frame f net proc =>
          rcases s.step_frame_cases f net proc with ⟨hnot, hstep⟩ | ⟨e, -, hstep, hactions⟩ |
            ⟨pkt, -, hbusy, hpkt, hdiscard, hstep⟩ |
            ⟨pkt, process, resolver, -, hbusy, hpkt, hdiscard, hresolve, hstep⟩
          · rcases hnot with hnot | hbusy
            · rw [hfault] at hnot
              exact absurd hnot (by simp)
            · rw [hstep]
              simp [sysActions, hfault, hbusy]
          · rw [hstep, hactions, exec_nil]
          · rw [hstep]
            simp [sysActions, hfault, hbusy, hpkt, hdiscard]
          · rw [hstep]
            simp [sysActions, hfault, hbusy, hpkt, hdiscard, hresolve]
      | _ => simp [step, sysActions, hfault]

/-! ### Without a thread in between -/

/-- The monitor is between two frames, and its parts are those of the sniffer. -/
structure Idle (m : Monitor) (t : Sniffer) : Prop where
  addresses : m.mIPList = t.mIPList
  resolver : m.mProcessResolver = t.mProcessResolver
  storage : m.sys.storage = t.mTrafficStorage
  running : m.fault = none
  free : m.sys.pending captureThread = none

/-- Each frame with both of its steps. -/
def stepsOf : Sniffer.Action → List MonitorAction
  | .frame f net proc => [.frame f net proc, .increment]
  | .clearSockets => [.clearSockets]
  | .clearProcesses => [.clearProcesses]

/-- A frame and the rest of its `add` are `pktCallback`. -/
theorem Idle.frame {t t' : Sniffer} (h : s.Idle t) {f : CapturedFrame} {net : ProcNet} {proc : Proc}
    (hcallback : t.pktCallback f net proc = .ok t') :
    (exec step s (stepsOf (.frame f net proc))).Idle t' := by
  have hsniffer : t = ⟨s.mIPList, s.mProcessResolver, s.sys.storage⟩ := by
    rw [h.addresses, h.resolver, h.storage]
  have hbusy : s.busy = false := by simp [busy, h.free]
  have hfault := h.running
  have hidle := h.free
  rw [hsniffer] at hcallback
  rw [stepsOf, exec_cons, exec_cons, exec_nil]
  rcases s.step_frame_cases f net proc with ⟨hnot, -⟩ | ⟨e, herror, -⟩ |
    ⟨pkt, -, -, hpkt, hdiscard, hstep⟩ |
    ⟨pkt, process, resolver, -, -, hpkt, hdiscard, hresolve, hstep⟩
  · rcases hnot with hnot | hnot
    · rw [hfault] at hnot
      exact absurd hnot (by simp)
    · rw [hbusy] at hnot
      exact absurd hnot (by simp)
  · rw [herror] at hcallback
    exact absurd hcallback (by simp)
  · rw [Sniffer.pktCallback, hpkt] at hcallback
    simp only [hdiscard, if_true, Except.ok.injEq] at hcallback
    rw [hstep, ← hcallback, ← hsniffer]
    constructor <;> simp [step, hfault, System.step, hidle, h.addresses, h.resolver, h.storage]
  · rw [Sniffer.pktCallback, hpkt] at hcallback
    simp only [hdiscard, Bool.false_eq_true, if_false, hresolve, Except.ok.injEq] at hcallback
    rw [hstep, ← hcallback]
    constructor <;> simp [step, hfault, System.step, hidle, TrafficStorage.add]

theorem Idle.step {t t' : Sniffer} (h : s.Idle t) {a : Sniffer.Action} (hstep : t.step a = .ok t') :
    (exec Monitor.step s (stepsOf a)).Idle t' := by
  have ⟨haddresses, hresolver, hstorage, hrunning, hfree⟩ := h
  cases a with
  | frame f net proc => exact h.frame hstep
  | clearSockets =>
      rw [← Except.ok.inj hstep]
      constructor <;> simp [stepsOf, Monitor.step, hrunning, haddresses, hresolver, hstorage, hfree]
  | clearProcesses =>
      rw [← Except.ok.inj hstep]
      constructor <;> simp [stepsOf, Monitor.step, hrunning, haddresses, hresolver, hstorage, hfree]

/-- **With nothing in between, the steps of the monitor are the loop over the captured frames.** -/
theorem idle_run : ∀ {as : List Sniffer.Action} {t t' : Sniffer} {s : Monitor}, s.Idle t →
    t.run as = .ok t' → (exec Monitor.step s (as.flatMap stepsOf)).Idle t' := by
  intro as
  induction as with
  | nil =>
      intro t t' s h hrun
      rw [← Except.ok.inj hrun]
      exact h
  | cons a as ih =>
      intro t t' s h hrun
      obtain ⟨t₁, hstep, hrest⟩ := @Sniffer.run_split t t' [a] as hrun
      have hone : t.step a = .ok t₁ := by
        cases hfirst : t.step a with
        | error e =>
            rw [Sniffer.run, hfirst] at hstep
            exact absurd hstep (by simp [bind, Except.bind])
        | ok t₂ =>
            rw [Sniffer.run, hfirst] at hstep
            exact congrArg _ (Except.ok.inj hstep)
      rw [List.flatMap_cons, exec_append]
      exact ih (h.step hone) hrest

/-! ### Frames and credits -/

/-- What the packet that is being added comes to, if it goes to one of the names. -/
def pendingAmounts (names : Bytes → Bool) (s : Monitor) : Amounts :=
  match s.sys.pending captureThread with
  | some p => if names p.line.comm then p.pkt.amounts else 0
  | none => 0

/-- What a frame adds to the counters, if it counts. -/
def frameAmounts (isLocal : UInt32 → Bool) (f : CapturedFrame) : Amounts :=
  fun c => Sniffer.counted isLocal c [f]

/-- The same for some of the frames only. -/
def amountsOfFrame (isLocal : UInt32 → Bool) (mine : CapturedFrame → Bool) (f : CapturedFrame) :
    Amounts :=
  if mine f then frameAmounts isLocal f else 0

/-- What a step credits or closes. -/
def bookEvents (s : Monitor) (a : MonitorAction) : List BookEvent :=
  trace System.step System.events s.sys (s.sysActions a)

theorem frameAmounts_of_none {isLocal : UInt32 → Bool} {f : CapturedFrame}
    (h : f.countsAs isLocal = none) : frameAmounts isLocal f = 0 := by
  funext c
  rw [frameAmounts, Sniffer.counted, List.filter_cons_of_neg (by simp [h])]
  rfl

theorem frameAmounts_of_some {isLocal : UInt32 → Bool} {f : CapturedFrame} {pkt : Packet}
    (h : f.countsAs isLocal = some pkt.direction) (hlen : pkt.len.toInt = f.header.len.toNat) :
    frameAmounts isLocal f = pkt.amounts := by
  have hdir : pkt.direction ≠ .unknown := fun hd => Sniffer.countsAs_ne_unknown (hd ▸ h)
  funext c
  rw [frameAmounts, Packet.amounts, c.amount_of_frame hdir hlen, Sniffer.counted]
  by_cases hc : c.direction = pkt.direction
  · simp [h, hc]
  · simp [h, hc, Ne.symm hc]

/-- A frame that comes to the callback is complete. -/
def CompleteFrame (_ : Monitor) : MonitorAction → Prop
  | .frame f _ _ => f.Complete
  | _ => True

/-- The frames that are mine, and no others, go to applications with these names. -/
def AttributedAs (names : Bytes → Bool) (mine : CapturedFrame → Bool) (s : Monitor) :
    MonitorAction → Prop
  | .frame f net proc =>
      ∀ pkt process resolver, Packet.ofFrame f.header f.raw s.mIPList = some pkt →
        pkt.discard = false → s.mProcessResolver.resolve pkt net proc = .ok (process, resolver) →
          names process.comm = mine f
  | _ => True

variable {names : Bytes → Bool} {mine : CapturedFrame → Bool}

theorem attributedAs_all (s : Monitor) (a : MonitorAction) :
    s.AttributedAs (fun _ => true) (fun _ => true) a := by
  cases a with
  | frame f net proc => intro _ _ _ _ _ _; rfl
  | _ => trivial

theorem step_mIPList (s : Monitor) (a : MonitorAction) : (s.step a).mIPList = s.mIPList := by
  cases a with
  | frame f net proc =>
      rcases s.step_frame_cases f net proc with ⟨-, hstep⟩ | ⟨e, -, hstep, -⟩ |
        ⟨pkt, -, -, -, -, hstep⟩ | ⟨pkt, process, resolver, -, -, -, -, -, hstep⟩ <;> rw [hstep]
  | _ =>
      unfold step
      split <;> rfl

/-- A frame that counts is pending after its first step. -/
theorem pending_frame (s : Monitor) {f : CapturedFrame} (hf : f.Complete) {net : ProcNet}
    {proc : Proc} (hmine : s.AttributedAs names mine (.frame f net proc)) :
    (s.step (.frame f net proc)).pendingAmounts names +
        ((s.bookEvents (.frame f net proc)).map (Ledger.creditOf names)).sum =
      s.pendingAmounts names +
        ((s.taken (.frame f net proc)).map (amountsOfFrame s.mIPList.contains mine)).sum := by
  obtain ⟨pkt, hpkt, hdiscard, hcounts⟩ := Packet.ofFrame_spec hf s.mIPList
  rcases s.step_frame_cases f net proc with ⟨hnot, hstep⟩ | ⟨e, -, hstep, hactions⟩ |
    ⟨pkt', hfault, hbusy, hpkt', hdiscarded, hstep⟩ |
    ⟨pkt', process, resolver, hfault, hbusy, hpkt', hkept, hresolve, hstep⟩
  · have htaken : s.taken (.frame f net proc) = [] := by
      rcases hnot with h | h <;> simp [taken, h]
    have hactions : s.sysActions (.frame f net proc) = [] := by
      rcases hnot with h | h <;> simp [sysActions, h]
    rw [hstep, htaken, bookEvents, hactions]
    rfl
  · have htaken : s.taken (.frame f net proc) = [] := by simp [taken, hstep]
    rw [hstep, htaken, bookEvents, hactions]
    rfl
  · obtain rfl : pkt = pkt' := Option.some.inj (hpkt.symm.trans hpkt')
    have htaken : s.taken (.frame f net proc) = [f] := by simp [taken, hfault, hbusy, hstep]
    have hactions : s.sysActions (.frame f net proc) = [] := by
      simp [sysActions, hfault, hbusy, hpkt, hdiscarded]
    rw [hstep, htaken, bookEvents, hactions, List.map_singleton, List.sum_singleton, amountsOfFrame,
      frameAmounts_of_none (hdiscard.mp hdiscarded), ite_self]
    rfl
  · obtain rfl : pkt = pkt' := Option.some.inj (hpkt.symm.trans hpkt')
    have htaken : s.taken (.frame f net proc) = [f] := by simp [taken, hfault, hbusy, hstep]
    have hactions : s.sysActions (.frame f net proc) = [.lookup captureThread process pkt] := by
      simp [sysActions, hfault, hbusy, hpkt, hkept, hresolve]
    have hidle : s.sys.pending captureThread = none := by simpa [busy] using hbusy
    obtain ⟨dir, hdir⟩ := Option.ne_none_iff_exists'.mp (mt hdiscard.mpr (by simp [hkept]))
    obtain ⟨hdirection, hlen⟩ := hcounts dir hdir
    have hamounts : frameAmounts s.mIPList.contains f = pkt.amounts :=
      frameAmounts_of_some (hdirection ▸ hdir) hlen
    rw [hstep, htaken, bookEvents, hactions, List.map_singleton, List.sum_singleton, amountsOfFrame,
      hamounts, ← hmine pkt process resolver hpkt hkept hresolve]
    simp [pendingAmounts, System.step, System.events, hidle]

theorem pending_step (s : Monitor) (a : MonitorAction) (ha : s.CompleteFrame a)
    (hmine : s.AttributedAs names mine a) :
    (s.step a).pendingAmounts names + ((s.bookEvents a).map (Ledger.creditOf names)).sum =
      s.pendingAmounts names +
        ((s.taken a).map (amountsOfFrame s.mIPList.contains mine)).sum := by
  cases hfault : s.fault with
  | some e =>
      have hsome : s.fault.isSome = true := by simp [hfault]
      have hactions : s.sysActions a = [] := by simp [sysActions, hsome]
      have htaken : s.taken a = [] := by cases a <;> simp [taken, hsome]
      rw [step_of_fault hsome, bookEvents, hactions, htaken]
      rfl
  | none =>
      cases a with
      | frame f net proc => exact s.pending_frame ha hmine
      | increment =>
          -- The packet goes from pending to credited.
          cases hp : s.sys.pending captureThread with
          | none => simp [step, hfault, System.step, hp, pendingAmounts, bookEvents, sysActions,
              System.events, taken]
          | some p => simp [step, hfault, System.step, hp, pendingAmounts, bookEvents, sysActions,
              System.events, taken, Ledger.creditOf]
      | clearSockets => simp [step, hfault, pendingAmounts, bookEvents, sysActions, taken]
      | clearProcesses => simp [step, hfault, pendingAmounts, bookEvents, sysActions, taken]
      | deposit now o =>
          simp [step, hfault, pendingAmounts, bookEvents, sysActions, taken, System.step,
            System.depositIteration, System.events, Ledger.creditOf]
      | snapshot =>
          simp [step, hfault, pendingAmounts, bookEvents, sysActions, taken, System.step,
            System.events]
      | await frame =>
          simp [step, hfault, pendingAmounts, bookEvents, sysActions, taken, System.step,
            System.events]

/-- What was taken in is pending or credited. -/
theorem pending_credited {as : List MonitorAction}
    (h : Along step (fun s a => s.CompleteFrame a ∧ s.AttributedAs names mine a) s as) :
    (exec step s as).pendingAmounts names +
        ((trace step bookEvents s as).map (Ledger.creditOf names)).sum =
      s.pendingAmounts names +
        ((trace step taken s as).map (amountsOfFrame s.mIPList.contains mine)).sum :=
  (balance_exec (I := fun t => t.mIPList = s.mIPList) (fun t a ht ha =>
    ⟨(t.step_mIPList a).trans ht, ht ▸ t.pending_step a ha.1 ha.2⟩) rfl h).2

/-! ### The accounts of a run -/

/-- A complete frame, and a storage that records what it is given. -/
def Recorded (s : Monitor) (a : MonitorAction) : Prop :=
  s.CompleteFrame a ∧ Along System.step System.Recorded s.sys (s.sysActions a)

/-- The ledger of a run that begins with a database, from what its steps tell. -/
def ledgerOf (s : Monitor) (db : Database) (as : List MonitorAction) : Book :=
  exec Ledger.post db.book (trace step bookEvents s as)

/-- What is in the map, in the tables and on the way to the map, for some names. -/
def accounted (names : Bytes → Bool) (s : Monitor) : Amounts :=
  s.sys.storage.mApplicationTraffic.amountsOf names +
    s.sys.conn.committed.book.history names (fun _ => true) + s.pendingAmounts names

theorem books_step {l : Book} (h : s.sys.Books l) {a : MonitorAction} (ha : s.Recorded a) :
    (s.step a).sys.Books (exec Ledger.post l (s.bookEvents a)) := by
  rw [step_sys]
  exact follows (fun _ _ _ hR hG => hR.step hG) h ha.2

theorem accounted_eq {l : Book} (h : s.sys.Books l) :
    s.accounted names =
      l.history names (fun _ => true) + l.balance names + s.pendingAmounts names := by
  rw [accounted, h.memory, h.stored]
  ac_rfl

/-- A run accounts for the frames it takes in. -/
theorem accounted_run {l : Book} (hbooks : s.sys.Books l) {as : List MonitorAction}
    (h : Along step Recorded s as) (hmine : Along step (AttributedAs names mine) s as) :
    (exec step s as).accounted names = s.accounted names +
      ((trace step taken s as).map (amountsOfFrame s.mIPList.contains mine)).sum := by
  have hframes : Along step (fun s a => s.CompleteFrame a ∧ s.AttributedAs names mine a) s as :=
    (along_of_guard (I := fun _ => True) (fun _ _ _ ha => ⟨trivial, fun hm => ⟨ha.1, hm⟩⟩) trivial
      h).mp hmine
  have hrun : (exec step s as).sys.Books (exec Ledger.post l (trace step bookEvents s as)) :=
    follows (R := fun s l => s.sys.Books l) (fun _ _ _ hR ha => books_step hR ha) hbooks h
  calc (exec step s as).accounted names
      = l.history names (fun _ => true) + l.balance names +
          ((trace step bookEvents s as).map (Ledger.creditOf names)).sum +
            (exec step s as).pendingAmounts names := by
        rw [accounted_eq hrun, Ledger.settled_add_balance]
    _ = l.history names (fun _ => true) + l.balance names +
          ((exec step s as).pendingAmounts names +
            ((trace step bookEvents s as).map (Ledger.creditOf names)).sum) := by ac_rfl
    _ = _ := by rw [pending_credited hframes, accounted_eq hbooks, add_assoc, add_assoc, add_assoc]

theorem books_run {iplist : IPList} {resolver : ProcessResolver} {interval : Int32} {db : Database}
    (hdb : db.Sound) {as : List MonitorAction}
    (h : Along step Recorded (init iplist resolver interval db) as) :
    (exec step (init iplist resolver interval db) as).sys.Books
      (ledgerOf (init iplist resolver interval db) db as) := by
  have hbooks : (init iplist resolver interval db).sys.Books db.book :=
    System.books_init interval hdb
  exact follows (R := fun s l => s.sys.Books l) (fun _ _ _ hR ha => books_step hR ha) hbooks h

theorem sum_amountsOfFrame (isLocal : UInt32 → Bool) (mine : CapturedFrame → Bool)
    (fs : List CapturedFrame) :
    (fs.map (amountsOfFrame isLocal mine)).sum = fun c => Sniffer.counted isLocal c (fs.filter mine) := by
  induction fs with
  | nil => rfl
  | cons f fs ih =>
      rw [List.map_cons, List.sum_cons, ih, amountsOfFrame, List.filter_cons]
      funext c
      cases mine f with
      | false => exact zero_add _
      | true => exact (Sniffer.counted_append isLocal c [f] (fs.filter mine)).symm

/-- An event that takes nothing away. -/
def Adds : BookEvent → Prop
  | .credit _ amount => 0 ≤ amount
  | .close _ => True

theorem frameAmounts_nonneg (isLocal : UInt32 → Bool) (f : CapturedFrame) :
    0 ≤ frameAmounts isLocal f := by
  intro c
  refine List.sum_nonneg fun x hx => ?_
  obtain ⟨g, -, rfl⟩ := List.mem_map.mp hx
  cases c <;> simp [Counter.ofFrame]

/-- A frame makes one step of the storage at most, and that begins an add. -/
theorem sysActions_frame (s : Monitor) (f : CapturedFrame) (net : ProcNet) (proc : Proc) :
    s.sysActions (.frame f net proc) = [] ∨
      ∃ process pkt, s.sysActions (.frame f net proc) = [.lookup captureThread process pkt] := by
  simp only [sysActions]
  split
  · exact Or.inl rfl
  · split
    · exact Or.inl rfl
    · split
      · exact Or.inl rfl
      · split
        · exact Or.inl rfl
        · split
          · exact Or.inl rfl
          · exact Or.inr ⟨_, _, rfl⟩

/-- A frame only becomes pending. -/
theorem bookEvents_frame (s : Monitor) (f : CapturedFrame) (net : ProcNet) (proc : Proc) :
    s.bookEvents (.frame f net proc) = [] := by
  rcases s.sysActions_frame f net proc with h | ⟨process, pkt, h⟩
  · rw [bookEvents, h]
    rfl
  · rw [bookEvents, h]
    rfl

/-- A complete frame is recorded, whatever it is attributed to. -/
theorem recorded_frame (s : Monitor) {f : CapturedFrame} (hf : f.Complete) (net : ProcNet)
    (proc : Proc) : s.Recorded (.frame f net proc) := by
  refine ⟨hf, ?_⟩
  rcases s.sysActions_frame f net proc with h | ⟨process, pkt, h⟩
  · rw [h]
    exact trivial
  · rw [h]
    exact ⟨trivial, trivial⟩

/-- What is pending is not negative, and neither is what is credited. -/
theorem adds_step (s : Monitor) (a : MonitorAction) (h : 0 ≤ s.pendingAmounts fun _ => true)
    (ha : s.CompleteFrame a) :
    0 ≤ (s.step a).pendingAmounts (fun _ => true) ∧ ∀ e ∈ s.bookEvents a, Adds e := by
  cases hfault : s.fault with
  | some e =>
      have hsome : s.fault.isSome = true := by simp [hfault]
      have hactions : s.sysActions a = [] := by simp [sysActions, hsome]
      rw [step_of_fault hsome, bookEvents, hactions]
      exact ⟨h, fun e he => absurd he List.not_mem_nil⟩
  | none =>
      cases a with
      | frame f net proc =>
          have hframe := s.pending_frame ha (s.attributedAs_all (.frame f net proc))
          rw [bookEvents_frame] at hframe ⊢
          rw [List.map_nil, List.sum_nil, add_zero] at hframe
          refine ⟨?_, fun e he => absurd he List.not_mem_nil⟩
          rw [hframe]
          refine add_nonneg h (List.sum_nonneg fun x hx => ?_)
          obtain ⟨g, -, rfl⟩ := List.mem_map.mp hx
          exact frameAmounts_nonneg _ g
      | increment =>
          cases hp : s.sys.pending captureThread with
          | none =>
              simp [step, hfault, System.step, hp, pendingAmounts, bookEvents, sysActions,
                System.events]
          | some p =>
              have hpkt : 0 ≤ p.pkt.amounts := by simpa [pendingAmounts, hp] using h
              simpa [step, hfault, System.step, hp, pendingAmounts, bookEvents, sysActions,
                System.events, Adds] using hpkt
      | clearSockets =>
          simpa [step, hfault, pendingAmounts, bookEvents, sysActions] using h
      | clearProcesses =>
          simpa [step, hfault, pendingAmounts, bookEvents, sysActions] using h
      | deposit now o =>
          refine ⟨by simpa [step, hfault, pendingAmounts, System.step, System.depositIteration] using h,
            fun e he => ?_⟩
          simp only [bookEvents, sysActions, hfault, Option.isSome_none, Bool.false_eq_true, if_false,
            trace_cons, trace_nil, System.events, List.append_nil, List.mem_singleton] at he
          rw [he]
          exact trivial
      | snapshot =>
          simpa [step, hfault, pendingAmounts, bookEvents, sysActions, System.step,
            System.events] using h
      | await frame =>
          simpa [step, hfault, pendingAmounts, bookEvents, sysActions, System.step,
            System.events] using h

/--
**A query that is asked again later on is answered with as much or more**, for every application
and every counter, as long as the sums fit.
-/
theorem answers_grow (iplist : IPList) (resolver : ProcessResolver) (interval : Int32)
    (db : Database) (hdb : db.Sound) (hrows : db.NonNegative) (as bs : List MonitorAction)
    (h : Along step Recorded (init iplist resolver interval db) (as ++ bs)) (f : Fetch)
    (name : Bytes) (hname : PlainComm name)
    (hfits : ∀ c : Counter, c.FitsAnswer
      ((ledgerOf (init iplist resolver interval db) db (as ++ bs)).history (sameName · name)
        f.window c)) (other : Bytes → Option Sums) :
    (f.result (exec step (init iplist resolver interval db) as).sys.conn.current other).amountsOf
        (sameName · name) ≤
      (f.result (exec step (init iplist resolver interval db) (as ++ bs)).sys.conn.current
        other).amountsOf (sameName · name) := by
  have hframes : Along step CompleteFrame (init iplist resolver interval db) (as ++ bs) :=
    along_of_guard (I := fun _ => True) (fun _ _ _ ha => ⟨trivial, ha.1⟩) trivial h
  have hadds : ∀ e ∈ trace step bookEvents (init iplist resolver interval db) (as ++ bs), Adds e :=
    forall_trace (I := fun s => 0 ≤ s.pendingAmounts fun _ => true) (fun s a => s.adds_step a) (le_refl _) hframes
  rw [trace_append] at hadds
  have hledger : ledgerOf (init iplist resolver interval db) db (as ++ bs) =
      exec Ledger.post (ledgerOf (init iplist resolver interval db) db as)
        (trace step bookEvents (exec step (init iplist resolver interval db) as) bs) := by
    rw [ledgerOf, trace_append, exec_append]
    rfl
  have hnonneg : (ledgerOf (init iplist resolver interval db) db as).NonNegative :=
    hrows.book.exec fun key amount he => hadds _ (List.mem_append_left _ he)
  have hgrows : (ledgerOf (init iplist resolver interval db) db as).history (sameName · name)
      f.window ≤ (ledgerOf (init iplist resolver interval db) db (as ++ bs)).history
        (sameName · name) f.window := by
    rw [hledger]
    exact Ledger.history_le_exec _ _ hnonneg fun key amount he =>
      hadds _ (List.mem_append_right _ he)
  have hearlier := (books_run hdb (along_append.mp h).1).answers.history f name hname
    (fun c => (hfits c).of_le (hnonneg.history_nonneg _ _ c) (hgrows c)) other
  have hlater := (books_run hdb h).answers.history f name hname hfits other
  rw [hearlier, hlater]
  exact hgrows

/-- A datagram that no process is found for. -/
def oneDatagram : List MonitorAction :=
  [.frame (Sniffer.datagram [8, 8, 8, 8] [192, 168, 0, 2]) (fun _ => none)
      ⟨some [], fun _ => false, fun _ => ⟨none, none, .replicate 80 0⟩⟩,
    .increment]

/-- A monitor of one address and no table. -/
def fresh : Monitor :=
  init oneAddress (Sniffer.sniffer oneAddress).mProcessResolver 10 Database.empty

theorem namesTables_unknown : NamesTables fun name => name = ProcessResolver.mUnknownProcess.comm where
  plain name hname := hname ▸ by decide
  accepted name hname := hname ▸ by decide
  allowed name hname := hname ▸ by decide
  apart a b ha hb _ := ha.trans hb.symm

theorem recorded_increment {p : PendingAdd} {line : TrafficLine}
    (hp : s.sys.pending captureThread = some p) (hclears : p.line.clears = s.sys.storage.clears)
    (hline : s.sys.storage.mApplicationTraffic.lookup p.line.comm = some line)
    (hfits : Fits line p.pkt) : s.Recorded .increment := by
  refine ⟨trivial, ?_⟩
  unfold sysActions
  split
  · exact trivial
  · refine ⟨fun q hq => ?_, trivial⟩
    rw [← Option.some.inj (hp.symm.trans hq)]
    exact ⟨hclears, fun l hl => Option.some.inj (hline.symm.trans hl) ▸ hfits⟩

theorem recorded_deposit {line : TrafficLine} {now : Int64} (hclosed : s.sys.conn.tx = none)
    (hmap : s.sys.storage.mApplicationTraffic =
      AList.singleton ProcessResolver.mUnknownProcess.comm line)
    (hfits : FitsInt now line)
    (holder : ∀ e ∈ s.sys.conn.committed.rows, e.2.timestamp < now.toInt) :
    s.Recorded (.deposit now {}) := by
  refine ⟨trivial, ?_⟩
  unfold sysActions
  split
  · exact trivial
  · refine ⟨⟨?_, fun name l hl => ?_⟩, trivial⟩
    · refine goesThrough_of_older namesTables_unknown hclosed (fun name hname => ?_)
        ⟨rfl, fun _ => rfl, rfl⟩ hfits.1 holder
      rw [hmap] at hname
      exact List.mem_singleton.mp hname
    · rw [hmap] at hl
      obtain ⟨rfl, hheq⟩ := Sigma.mk.inj_iff.mp (List.mem_singleton.mp (AList.mem_lookup_iff.mp hl))
      rw [eq_of_heq hheq]
      exact ⟨by decide, hfits⟩

theorem recorded_oneDatagram :
    Along step Recorded fresh (oneDatagram ++ [.deposit 1672549200 {}]) := by
  have hcomplete := @Sniffer.complete_datagram [8, 8, 8, 8] [192, 168, 0, 2] rfl rfl _ List.mem_cons_self
  refine ⟨recorded_frame _ hcomplete _ _, recorded_increment rfl rfl rfl ?_,
    recorded_deposit rfl rfl ?_ fun e he => absurd he List.not_mem_nil, trivial⟩
  · intro c
    cases c <;> exact ⟨by decide, by decide⟩
  · decide

theorem answers_grow_oneDatagram :
    ((Fetch.since 0).result (exec step fresh oneDatagram).sys.conn.current
        fun _ => none).amountsOf (sameName · ProcessResolver.mUnknownProcess.comm) ≤
      ((Fetch.since 0).result
        (exec step fresh (oneDatagram ++ [.deposit 1672549200 {}])).sys.conn.current
        fun _ => none).amountsOf (sameName · ProcessResolver.mUnknownProcess.comm) :=
  answers_grow oneAddress _ 10 Database.empty System.sound_empty
    (fun e he => absurd he List.not_mem_nil) oneDatagram [.deposit 1672549200 {}]
    recorded_oneDatagram (.since 0) ProcessResolver.mUnknownProcess.comm (by decide)
    (fun c => by cases c <;> decide +kernel) _

end Monitor

end Ntmd
