/-
When a live stream keeps its place and misses nothing.

The storage has one place for a waiting stream, and every deposit frees it.  Until the
stream's thread has sent what it got and registered again, whoever asks first gets the
place, and a deposit finds nobody to hand its map to.  `Undisturbed` is the condition
that neither happens, and a run is as a continuous stream should be exactly if its
steps meet it.
-/
import Ntmd.Proofs.HandOff

namespace Ntmd

open Run

namespace LiveSystem

/-- The stream has been accepted, and its client has not disconnected since. -/
def Accepted (s : LiveSystem) (stream : Nat) : Prop := ∃ n, s.acceptedAt stream = some n

/-- A map that was handed over and is still to be sent. -/
def inHand (s : LiveSystem) (stream : Nat) : List TrafficMap :=
  match s.streams stream with
  | .waiting frame =>
      if (s.sys.frames frame).locked then [] else [(s.sys.frames frame).trafficMap]
  | .served frame => [(s.sys.frames frame).trafficMap]
  | _ => []

/-- What a stream got, whether it has been sent on already or not. -/
def received (s : LiveSystem) (stream : Nat) : List TrafficMap :=
  s.sent stream ++ s.inHand stream

/-- An accepted stream gets the map of every deposit since then, each once and in order. -/
def MissesNothing (s : LiveSystem) : Prop :=
  ∀ stream n, s.acceptedAt stream = some n → s.received stream = s.deposited.drop n

/-- A call of `awaitSnapshot` succeeds for an accepted stream, and is rejected for every other. -/
def KeepsPlace (s : LiveSystem) : LiveAction → Prop
  | .await stream =>
      s.streams stream = .ready →
        (s.Accepted stream → s.sys.storage.mAPIWaiting = false) ∧
        ∀ stream', stream' ≠ stream → s.Accepted stream' → s.sys.storage.mAPIWaiting = true
  | _ => True

/-- No deposit, and no call of `awaitSnapshot` by another stream, comes while an accepted stream is
not registered. -/
def Undisturbed (s : LiveSystem) : LiveAction → Prop
  | .deposit _ _ => ∀ stream, s.Accepted stream → ∃ frame, s.Registered stream frame
  | .await stream =>
      s.streams stream = .ready →
        ∀ stream', stream' ≠ stream → s.Accepted stream' → ∃ frame, s.Registered stream' frame
  | _ => True

/-- What the record of a stream has to do with its thread. -/
structure StreamInv (s : LiveSystem) : Prop extends s.HandOffInv where
  accepted_le : ∀ stream n, s.acceptedAt stream = some n → n ≤ s.deposited.length
  accepted_pc : ∀ stream, s.Accepted stream →
    s.streams stream ≠ .unused ∧ s.streams stream ≠ .greeting ∧ s.gone stream = false
  fresh : ∀ stream, s.acceptedAt stream = none → s.gone stream = false →
    s.streams stream ≠ .ended → s.sent stream = [] ∧ ∀ frame, ¬ s.Holds stream frame

/-- The accepted stream is the only one, and it alone can be registered. -/
structure Undisplaced (s : LiveSystem) : Prop where
  alone : ∀ stream stream', s.Accepted stream → s.Accepted stream' → stream = stream'
  place : ∀ stream stream' frame, s.Accepted stream → s.Registered stream' frame →
    stream' = stream
  kept : ∀ stream, s.Accepted stream → s.streams stream ≠ .ended
  complete : s.MissesNothing

variable {s : LiveSystem}

/-! ### The record -/

/-- A thread outside a frame goes on without one. -/
theorem StreamInv.of_setPc (h : s.StreamInv) {stream : Nat} {pc : StreamPc}
    (hbefore : s.streams stream = .unused ∨ s.streams stream = .greeting ∨
      s.streams stream = .ready)
    (hafter : pc = .ready ∨ pc = .greeting ∨ pc = .ended)
    (haccepted : s.Accepted stream → pc ≠ .greeting) : (s.setPc stream pc).StreamInv := by
  have hnot : ∀ frame, ¬ s.Holds stream frame := fun frame hf => by
    rcases hf with hf | hf <;> rw [hf] at hbefore <;> simp at hbefore
  have hpc : ∀ frame, pc ≠ .waiting frame ∧ pc ≠ .served frame := fun frame => by
    rcases hafter with rfl | rfl | rfl <;> simp
  refine ⟨h.toHandOffInv.of_setPc hnot hpc, h.accepted_le, fun t ht => ?_, fun t ht hg hpct => ?_⟩
  · obtain ⟨hunused, hgreeting, hgone⟩ := h.accepted_pc t ht
    by_cases hts : t = stream
    · subst hts
      rw [streams_setPc]
      refine ⟨?_, haccepted ht, hgone⟩
      rcases hafter with rfl | rfl | rfl <;> simp
    · rw [streams_setPc_of_ne hts]
      exact ⟨hunused, hgreeting, hgone⟩
  · by_cases hts : t = stream
    · subst hts
      have hended : s.streams t ≠ .ended := by
        rcases hbefore with hb | hb | hb <;> simp [hb]
      refine ⟨(h.fresh t ht hg hended).1, fun frame hf => ?_⟩
      rw [Holds, streams_setPc] at hf
      rcases hf with hf | hf
      · exact (hpc frame).1 hf
      · exact (hpc frame).2 hf
    · rw [streams_setPc_of_ne hts] at hpct
      obtain ⟨hsent, hholds⟩ := h.fresh t ht hg hpct
      refine ⟨hsent, fun frame hf => hholds frame ?_⟩
      rw [Holds, streams_setPc_of_ne hts] at hf
      exact hf

/-- A step that leaves the threads and the records alone. -/
theorem StreamInv.of_sys (h : s.StreamInv) {sys : System} (hinv : { s with sys := sys }.HandOffInv)
    (hdeposited : s.deposited.length ≤ sys.deposited.length) :
    { s with sys := sys }.StreamInv :=
  ⟨hinv, fun t n ht => (h.accepted_le t n ht).trans hdeposited, h.accepted_pc, h.fresh⟩

section Await

variable {stream : Nat} (hfree : s.sys.storage.mAPIWaiting = false)

include hfree

theorem acceptedAt_awaitStep_of_ne {t : Nat} (ht : t ≠ stream) :
    (s.awaitStep stream).acceptedAt t = s.acceptedAt t := by
  rw [LiveSystem.awaitStep, TrafficStorage.awaitSnapshot_of_free hfree]
  simp only
  split
  · rfl
  · exact Function.update_of_ne ht _ _

theorem acceptedAt_awaitStep_of_gone (hgone : s.gone stream = true) :
    (s.awaitStep stream).acceptedAt = s.acceptedAt := by
  rw [LiveSystem.awaitStep, TrafficStorage.awaitSnapshot_of_free hfree]
  simp only [hgone, if_true]

theorem acceptedAt_awaitStep (hgone : s.gone stream = false) :
    (s.awaitStep stream).acceptedAt stream =
      some ((s.acceptedAt stream).getD s.deposited.length) := by
  rw [LiveSystem.awaitStep, TrafficStorage.awaitSnapshot_of_free hfree]
  simp only [hgone, Bool.false_eq_true, if_false, Function.update_self]

end Await

theorem StreamInv.awaitStep (h : s.StreamInv) {stream : Nat}
    (hfree : s.sys.storage.mAPIWaiting = false) : (s.awaitStep stream).StreamInv := by
  obtain ⟨hdeposited, hgone, hsent⟩ := record_awaitStep stream hfree
  refine ⟨(h.toHandOffInv.awaitStep_free hfree).1, fun t n ht => ?_, fun t ht => ?_,
    fun t ht hg hended => ?_⟩
  · rw [hdeposited]
    by_cases hts : t = stream
    · subst hts
      cases hg : s.gone t with
      | true =>
          rw [acceptedAt_awaitStep_of_gone hfree hg] at ht
          exact h.accepted_le t n ht
      | false =>
          rw [acceptedAt_awaitStep hfree hg, Option.some.injEq] at ht
          cases hat : s.acceptedAt t with
          | none => exact ht ▸ by simp [hat]
          | some m => exact ht ▸ by simpa [hat] using h.accepted_le t m hat
    · rw [acceptedAt_awaitStep_of_ne hfree hts] at ht
      exact h.accepted_le t n ht
  · rw [hgone]
    by_cases hts : t = stream
    · subst hts
      rw [streams_awaitStep hfree]
      refine ⟨by simp, by simp, Bool.eq_false_iff.mpr fun hg => ?_⟩
      rw [Accepted, acceptedAt_awaitStep_of_gone hfree hg] at ht
      exact absurd ((h.accepted_pc t ht).2.2.symm.trans hg) (by simp)
    · rw [streams_awaitStep_of_ne hfree hts]
      rw [Accepted, acceptedAt_awaitStep_of_ne hfree hts] at ht
      exact h.accepted_pc t ht
  · rw [hgone] at hg
    by_cases hts : t = stream
    · subst hts
      rw [acceptedAt_awaitStep hfree hg] at ht
      exact absurd ht (by simp)
    · rw [acceptedAt_awaitStep_of_ne hfree hts] at ht
      rw [streams_awaitStep_of_ne hfree hts] at hended
      obtain ⟨hnil, hnone⟩ := h.fresh t ht hg hended
      refine ⟨by rw [hsent]; exact hnil, fun frame hf => hnone frame ?_⟩
      rw [Holds, streams_awaitStep_of_ne hfree hts] at hf
      exact hf

/-- A step of a thread that holds a frame, with the record of its own stream at most. -/
theorem StreamInv.of_holder {s' : LiveSystem} (h : s.StreamInv) (hinv : s'.HandOffInv)
    {stream frame : Nat} (hholds : s.Holds stream frame)
    (hpc : s'.streams stream ≠ .unused ∧ s'.streams stream ≠ .greeting)
    (hother : ∀ t, t ≠ stream → s'.streams t = s.streams t ∧ s'.sent t = s.sent t ∧
      s'.acceptedAt t = s.acceptedAt t)
    (haccepted : s'.acceptedAt stream = s.acceptedAt stream ∨
      (s'.acceptedAt stream = none ∧ s'.streams stream = .ended))
    (hgone : s'.gone = s.gone) (hdeposited : s'.deposited = s.deposited) : s'.StreamInv := by
  have hat : ∀ t n, s'.acceptedAt t = some n → s.acceptedAt t = some n := by
    intro t n ht
    by_cases hts : t = stream
    · subst hts
      rcases haccepted with heq | ⟨hnone, -⟩
      · exact heq.symm.trans ht
      · exact absurd (hnone.symm.trans ht) (by simp)
    · exact (hother t hts).2.2.symm.trans ht
  refine ⟨hinv, fun t n ht => ?_, fun t ht => ?_, fun t ht hg hended => ?_⟩
  · rw [hdeposited]
    exact h.accepted_le t n (hat t n ht)
  · obtain ⟨n, hn⟩ := ht
    obtain ⟨hunused, hgreeting, hg⟩ := h.accepted_pc t ⟨n, hat t n hn⟩
    rw [hgone]
    by_cases hts : t = stream
    · subst hts
      exact ⟨hpc.1, hpc.2, hg⟩
    · rw [(hother t hts).1]
      exact ⟨hunused, hgreeting, hg⟩
  · rw [hgone] at hg
    by_cases hts : t = stream
    · subst hts
      rcases haccepted with heq | ⟨-, he⟩
      · have hnot : s.streams t ≠ .ended := by
          rcases hholds with hf | hf <;> simp [hf]
        exact absurd hholds ((h.fresh t (heq.symm.trans ht) hg hnot).2 frame)
      · exact absurd he hended
    · obtain ⟨hstreams, hsent, hrecord⟩ := hother t hts
      rw [hstreams] at hended
      obtain ⟨hnil, hnone⟩ := h.fresh t (hrecord.symm.trans ht) hg hended
      refine ⟨hsent.trans hnil, fun f hf => hnone f ?_⟩
      rw [Holds, hstreams] at hf
      exact hf

/-- The client's record goes with the client. -/
theorem StreamInv.disconnect (h : s.StreamInv) (stream : Nat) :
    (s.step (.disconnect stream)).StreamInv := by
  have hat : ∀ t, (s.step (.disconnect stream)).Accepted t → t ≠ stream ∧ s.Accepted t := by
    rintro t ⟨n, hn⟩
    by_cases hts : t = stream
    · subst hts
      exact absurd ((Function.update_self _ _ _).symm.trans hn) (by simp)
    · exact ⟨hts, n, (Function.update_of_ne hts _ _).symm.trans hn⟩
  refine ⟨handOffInv_step h.toHandOffInv _, fun t n ht => ?_, fun t ht => ?_,
    fun t ht hg hended => ?_⟩
  · have hts := (hat t ⟨n, ht⟩).1
    exact h.accepted_le t n ((Function.update_of_ne hts _ _).symm.trans ht)
  · obtain ⟨hts, haccepted⟩ := hat t ht
    obtain ⟨hunused, hgreeting, hgone⟩ := h.accepted_pc t haccepted
    exact ⟨hunused, hgreeting, (Function.update_of_ne hts _ _).trans hgone⟩
  · by_cases hts : t = stream
    · subst hts
      exact absurd ((Function.update_self _ _ _).symm.trans hg) (by simp)
    · exact h.fresh t ((Function.update_of_ne hts _ _).symm.trans ht)
        ((Function.update_of_ne hts _ _).symm.trans hg) hended

theorem streamInv_step (h : s.StreamInv) (a : LiveAction) : (s.step a).StreamInv := by
  have hinv := handOffInv_step h.toHandOffInv a
  have hmoves := moves_step s a
  generalize s.step a = s' at hinv hmoves
  cases hmoves with
  | stays => exact h
  | @connect stream _ _ hpc hafter =>
      refine h.of_setPc (Or.inl hpc) ?_ fun ht => absurd hpc (h.accepted_pc stream ht).1
      rcases hafter with rfl | rfl <;> simp
  | @greet stream _ _ hpc hafter =>
      refine h.of_setPc (Or.inr (Or.inl hpc)) ?_ fun ht =>
        absurd hpc (h.accepted_pc stream ht).2.1
      rcases hafter with rfl | rfl <;> simp
  | rejected hpc => exact h.of_setPc (Or.inr (Or.inr hpc)) (Or.inr (Or.inr rfl)) (by simp)
  | accepted hpc hfree => exact h.awaitStep hfree
  | lock hpc hfree =>
      refine h.of_holder hinv (Or.inl hpc) ?_ (fun t ht => ?_) (Or.inl rfl) rfl rfl
      · simp [streams_lockStep]
      · exact ⟨streams_lockStep_of_ne ht, rfl, rfl⟩
  | @send stream frame ok hpc =>
      refine h.of_holder hinv (Or.inr hpc) ?_ (fun t ht => ?_) ?_ rfl rfl
      · cases ok <;> simp [streams_sendStep]
      · refine ⟨streams_sendStep_of_ne ht, Function.update_of_ne ht _ _, ?_⟩
        cases ok with
        | true => rfl
        | false => exact Function.update_of_ne ht _ _
      · cases ok with
        | true => exact Or.inl rfl
        | false => exact Or.inr ⟨Function.update_self _ _ _, streams_sendStep⟩
  | disconnect => exact h.disconnect _
  | deposit =>
      refine h.of_sys hinv ?_
      show _ ≤ (s.deposited ++ [_]).length
      rw [List.length_append]
      exact Nat.le_add_right _ _
  | add ha hdeposited =>
      refine h.of_sys hinv ?_
      rw [hdeposited]

theorem streamInv_init (interval : Int32) (db : Database) : (init interval db).StreamInv := by
  refine ⟨handOffInv_init interval db, fun t n ht => ?_, fun t ht => ?_, fun t _ _ _ => ?_⟩
  · exact absurd ht (by simp [init])
  · obtain ⟨n, hn⟩ := ht
    exact absurd hn (by simp [init])
  · exact ⟨rfl, fun frame hf => by rcases hf with hf | hf <;> exact absurd hf (by simp [init])⟩

/-! ### What a stream has received -/

theorem inHand_of_not_holds {stream : Nat} (h : ∀ frame, ¬ s.Holds stream frame) :
    s.inHand stream = [] := by
  unfold inHand
  split
  · rename_i frame hpc
    exact absurd (Or.inl hpc) (h frame)
  · rename_i frame hpc
    exact absurd (Or.inr hpc) (h frame)
  · rfl

theorem inHand_of_registered {stream frame : Nat} (h : s.Registered stream frame) :
    s.inHand stream = [] := by
  obtain ⟨hpc, hlocked⟩ := h
  simp only [inHand, hpc, hlocked, if_true]

theorem inHand_of_handedOver {stream frame : Nat} (h : s.HandedOver stream frame) :
    s.inHand stream = [(s.sys.frames frame).trafficMap] := by
  rcases h with ⟨hpc, hlocked⟩ | hpc
  · simp only [inHand, hpc, hlocked, Bool.false_eq_true, if_false]
  · simp only [inHand, hpc]

/-- It depends on its thread and on the frame it holds alone. -/
theorem received_congr {s' : LiveSystem} {stream : Nat} (hsent : s'.sent stream = s.sent stream)
    (hpc : s'.streams stream = s.streams stream)
    (hframes : ∀ frame, s.Holds stream frame → s'.sys.frames frame = s.sys.frames frame) :
    s'.received stream = s.received stream := by
  have hhand : s'.inHand stream = s.inHand stream := by
    unfold inHand
    rw [hpc]
    split
    · rename_i frame hp
      rw [hframes frame (Or.inl hp)]
    · rename_i frame hp
      rw [hframes frame (Or.inr hp)]
    · rfl
  rw [received, received, hsent, hhand]

/-- A deposit adds its map to what a registered stream has received, and to nothing else. -/
theorem HandOffInv.received_deposit (h : s.HandOffInv) (now : Int64) (o : DBController.Outcomes)
    (stream : Nat) :
    (∀ frame, s.Registered stream frame → (s.step (.deposit now o)).received stream =
      s.received stream ++ [s.sys.storage.mApplicationTraffic]) ∧
    ((∀ frame, ¬ s.Registered stream frame) →
      (s.step (.deposit now o)).received stream = s.received stream) := by
  obtain ⟨hinv, -, hwritten⟩ := h.deposit now o
  constructor
  · intro frame hreg
    have hhanded := h.handedOver_deposit hreg now o
    -- What it was handed is the last of the deposits there are now.
    have hmap := (hinv.handed stream frame hhanded).1
    have hat : (s.step (.deposit now o)).registeredAt frame = s.deposited.length :=
      h.next stream frame hreg
    have hdeposited : (s.step (.deposit now o)).deposited =
        s.deposited ++ [s.sys.storage.mApplicationTraffic] := rfl
    rw [hat, hdeposited, List.getElem?_append_right (Nat.le_refl _), Nat.sub_self] at hmap
    have hmap' := Option.some.inj hmap
    rw [received, received, inHand_of_handedOver hhanded, inHand_of_registered hreg,
      List.append_nil, ← hmap']
    rfl
  · intro hnot
    refine received_congr rfl rfl fun frame hholds => ?_
    by_contra hne
    obtain ⟨t, hreg⟩ := hwritten frame hne
    have ht := h.frame_own t stream frame hreg.holds hholds
    exact hnot frame (ht ▸ hreg)

/-! ### One step -/

/-- A step that accepts nobody, registers nobody and deposits nothing. -/
theorem Undisplaced.of_received {s' : LiveSystem} (h : s.Undisplaced)
    (hdeposited : s'.deposited = s.deposited)
    (hregistered : ∀ stream frame, s'.Registered stream frame → s.Registered stream frame)
    (hkept : ∀ stream n, s'.acceptedAt stream = some n → s.acceptedAt stream = some n ∧
      s'.received stream = s.received stream ∧ s'.streams stream ≠ .ended) : s'.Undisplaced := by
  have haccepted : ∀ t, s'.Accepted t → s.Accepted t := fun t ⟨n, hn⟩ => ⟨n, (hkept t n hn).1⟩
  refine ⟨fun t t' ht ht' => h.alone t t' (haccepted t ht) (haccepted t' ht'),
    fun t t' frame ht hreg => h.place t t' frame (haccepted t ht) (hregistered t' frame hreg),
    fun t ⟨n, hn⟩ => (hkept t n hn).2.2, fun t n hn => ?_⟩
  obtain ⟨hat, hreceived, -⟩ := hkept t n hn
  rw [hreceived, hdeposited]
  exact h.complete t n hat

/-- The thread of a stream that is not accepted goes on without a frame. -/
theorem Undisplaced.of_setPc (h : s.Undisplaced) {stream : Nat} {pc : StreamPc}
    (hnot : ¬ s.Accepted stream) (hpc : ∀ frame, pc ≠ .waiting frame) :
    (s.setPc stream pc).Undisplaced := by
  refine h.of_received rfl (fun t frame hreg => ?_) (fun t n hn => ?_)
  · by_cases hts : t = stream
    · subst hts
      exact absurd (streams_setPc.symm.trans hreg.1) (hpc frame)
    · exact ⟨(streams_setPc_of_ne hts).symm.trans hreg.1, hreg.2⟩
  · have hts : t ≠ stream := by
      rintro rfl
      exact hnot ⟨n, hn⟩
    refine ⟨hn, received_congr rfl (streams_setPc_of_ne hts) fun _ _ => rfl, ?_⟩
    rw [streams_setPc_of_ne hts]
    exact h.kept t ⟨n, hn⟩

/-- A step of the storage that leaves the frames and the deposits alone. -/
theorem Undisplaced.of_sys (h : s.Undisplaced) {sys : System}
    (hdeposited : sys.deposited = s.sys.deposited) (hframes : sys.frames = s.sys.frames) :
    { s with sys := sys }.Undisplaced := by
  refine h.of_received hdeposited (fun t frame hreg => ?_) (fun t n hn => ?_)
  · refine ⟨hreg.1, ?_⟩
    rw [← hframes]
    exact hreg.2
  · exact ⟨hn, received_congr rfl rfl fun frame _ => congrFun hframes frame, h.kept t ⟨n, hn⟩⟩

/-- The thread goes from waiting to serving the same map. -/
theorem Undisplaced.lockStep (h : s.Undisplaced) (hinv : s.HandOffInv) {stream frame : Nat}
    (hpc : s.streams stream = .waiting frame) (hfree : (s.sys.frames frame).locked = false) :
    (s.lockStep stream frame).Undisplaced := by
  have hne : ∀ t f, t ≠ stream → s.Holds t f → f ≠ frame := by
    rintro t f hts hholds rfl
    exact hts (hinv.frame_own t stream f hholds (Or.inl hpc))
  refine h.of_received rfl (fun t f hreg => ?_) (fun t n hn => ⟨hn, ?_, ?_⟩)
  · have hts : t ≠ stream := by
      rintro rfl
      exact absurd (streams_lockStep.symm.trans hreg.1) (by simp)
    have hwaiting : s.streams t = .waiting f := (streams_lockStep_of_ne hts).symm.trans hreg.1
    have hlocked := hreg.2
    rw [frames_lockStep_of_ne (hne t f hts (Or.inl hwaiting))] at hlocked
    exact ⟨hwaiting, hlocked⟩
  · by_cases hts : t = stream
    · subst hts
      have hmap : ((s.lockStep t frame).sys.frames frame).trafficMap =
          (s.sys.frames frame).trafficMap := by
        simp only [LiveSystem.lockStep, Function.update_self]
      rw [received, received, inHand_of_handedOver (Or.inr streams_lockStep),
        inHand_of_handedOver (Or.inl ⟨hpc, hfree⟩), hmap]
      rfl
    · exact received_congr rfl (streams_lockStep_of_ne hts) fun f hholds =>
        frames_lockStep_of_ne (hne t f hts hholds)
  · by_cases hts : t = stream
    · rw [hts, streams_lockStep]
      simp
    · rw [streams_lockStep_of_ne hts]
      exact h.kept t ⟨n, hn⟩

/-- What was in hand is sent. -/
theorem Undisplaced.sendStep (h : s.Undisplaced) {stream frame : Nat}
    (hpc : s.streams stream = .served frame) (ok : Bool) :
    (s.sendStep stream frame ok).Undisplaced := by
  refine h.of_received rfl (fun t f hreg => ?_) (fun t n hn => ?_)
  · have hts : t ≠ stream := by
      rintro rfl
      have hwaiting := streams_sendStep.symm.trans hreg.1
      cases ok <;> simp at hwaiting
    exact ⟨(streams_sendStep_of_ne hts).symm.trans hreg.1, hreg.2⟩
  · by_cases hts : t = stream
    · subst hts
      cases ok with
      | true =>
          have hholds : ∀ f, ¬ (s.sendStep t frame true).Holds t f := fun f hf => by
            rw [Holds, streams_sendStep] at hf
            simp at hf
          refine ⟨hn, ?_, by rw [streams_sendStep]; simp⟩
          rw [received, received, inHand_of_not_holds hholds, inHand_of_handedOver (Or.inr hpc),
            List.append_nil]
          exact Function.update_self _ _ _
      | false => exact absurd ((Function.update_self _ _ _).symm.trans hn) (by simp)
    · have hat : s.acceptedAt t = some n := by
        cases ok with
        | true => exact hn
        | false => exact (Function.update_of_ne hts _ _).symm.trans hn
      refine ⟨hat, ?_, ?_⟩
      · exact received_congr (Function.update_of_ne hts _ _) (streams_sendStep_of_ne hts)
          fun _ _ => rfl
      · rw [streams_sendStep_of_ne hts]
        exact h.kept t ⟨n, hat⟩

/-- The only stream that may be accepted is registered. -/
theorem Undisplaced.awaitStep (h : s.Undisplaced) (hinv : s.StreamInv) {stream : Nat}
    (hpc : s.streams stream = .ready) (hfree : s.sys.storage.mAPIWaiting = false)
    (hothers : ∀ t, t ≠ stream → ¬ s.Accepted t) : (s.awaitStep stream).Undisplaced := by
  obtain ⟨hinv', hreg⟩ := hinv.toHandOffInv.awaitStep_free hfree
  obtain ⟨hdeposited, -, hsent⟩ := record_awaitStep stream hfree
  have honly : ∀ t, (s.awaitStep stream).Accepted t → t = stream := by
    intro t ht
    by_contra hts
    rw [Accepted, acceptedAt_awaitStep_of_ne hfree hts] at ht
    exact hothers t hts ht
  refine ⟨fun t t' ht ht' => (honly t ht).trans (honly t' ht').symm,
    fun t t' frame ht hreg' => ?_, fun t ht => ?_, fun t n hn => ?_⟩
  · rw [honly t ht]
    exact (hinv'.registered_unique hreg' hreg).1
  · rw [honly t ht, hreg.1]
    simp
  · have hts := honly t ⟨n, hn⟩
    subst hts
    rw [received, inHand_of_registered hreg, List.append_nil, hsent, hdeposited]
    cases hg : s.gone t with
    | true =>
        rw [acceptedAt_awaitStep_of_gone hfree hg] at hn
        exact absurd ((hinv.accepted_pc t ⟨n, hn⟩).2.2.symm.trans hg) (by simp)
    | false =>
        rw [acceptedAt_awaitStep hfree hg, Option.some.injEq] at hn
        have hholds : ∀ frame, ¬ s.Holds t frame := fun frame hf => by
          rcases hf with hf | hf <;> exact absurd (hpc.symm.trans hf) (by simp)
        cases hat : s.acceptedAt t with
        | none =>
            -- Accepted just now: nothing was sent to it yet.
            rw [hat, Option.getD_none] at hn
            rw [(hinv.fresh t hat hg (by simp [hpc])).1, ← hn, List.drop_length]
        | some m =>
            rw [hat, Option.getD_some] at hn
            have hcomplete := h.complete t m hat
            rw [received, inHand_of_not_holds hholds, List.append_nil] at hcomplete
            rw [hcomplete, hn]

/-- While the flag is up, it is for the accepted stream if there is one. -/
theorem Undisplaced.registered (h : s.Undisplaced) (hinv : s.HandOffInv)
    (hw : s.sys.storage.mAPIWaiting = true) {stream : Nat} (haccepted : s.Accepted stream) :
    ∃ frame, s.Registered stream frame := by
  obtain ⟨t, frame, hreg⟩ := hinv.waiting hw
  exact ⟨frame, h.place stream t frame haccepted hreg ▸ hreg⟩

/-- Accepted is nobody before the loop. -/
theorem StreamInv.not_accepted (h : s.StreamInv) {stream : Nat}
    (hpc : s.streams stream = .unused ∨ s.streams stream = .greeting) : ¬ s.Accepted stream := by
  intro ht
  obtain ⟨hunused, hgreeting, -⟩ := h.accepted_pc stream ht
  rcases hpc with hpc | hpc
  · exact hunused hpc
  · exact hgreeting hpc

/-- An undisturbed step keeps the one accepted stream in its place. -/
theorem Undisplaced.step (h : s.Undisplaced) (hinv : s.StreamInv) {a : LiveAction}
    (ha : s.Undisturbed a) : (s.step a).Undisplaced ∧ s.KeepsPlace a := by
  have hmoves := moves_step s a
  generalize s.step a = s' at hmoves
  cases hmoves with
  | stays hpc =>
      refine ⟨h, ?_⟩
      cases a with
      | await stream => exact fun hready => absurd hready (hpc stream rfl)
      | _ => exact trivial
  | connect hpc hafter =>
      refine ⟨h.of_setPc (hinv.not_accepted (Or.inl hpc)) fun frame => ?_, trivial⟩
      rcases hafter with rfl | rfl <;> simp
  | greet hpc hafter =>
      refine ⟨h.of_setPc (hinv.not_accepted (Or.inr hpc)) fun frame => ?_, trivial⟩
      rcases hafter with rfl | rfl <;> simp
  | @rejected stream hpc hwaiting =>
      -- The flag is up for a stream that is not at the top of its loop.
      have hrejected : ¬ s.Accepted stream := fun ht => by
        obtain ⟨frame, hreg⟩ := h.registered hinv.toHandOffInv hwaiting ht
        exact absurd (hpc.symm.trans hreg.1) (by simp)
      exact ⟨h.of_setPc hrejected (by simp),
        fun _ => ⟨fun ht => absurd ht hrejected, fun _ _ _ => hwaiting⟩⟩
  | @accepted stream hpc hfree =>
      have hothers : ∀ t, t ≠ stream → ¬ s.Accepted t := fun t hts ht => by
        obtain ⟨frame, hreg⟩ := ha hpc t hts ht
        exact absurd ((hinv.pointers t frame hreg).1.symm.trans hfree) (by simp)
      exact ⟨h.awaitStep hinv hpc hfree hothers,
        fun _ => ⟨fun _ => hfree, fun t hts ht => absurd ht (hothers t hts)⟩⟩
  | lock hpc hfree => exact ⟨h.lockStep hinv.toHandOffInv hpc hfree, trivial⟩
  | send hpc => exact ⟨h.sendStep hpc _, trivial⟩
  | @disconnect stream =>
      refine ⟨h.of_received rfl (fun _ _ hreg => hreg) (fun t n hn => ?_), trivial⟩
      have hts : t ≠ stream := by
        rintro rfl
        exact absurd ((Function.update_self _ _ _).symm.trans hn) (by simp)
      have hat : s.acceptedAt t = some n := (Function.update_of_ne hts _ _).symm.trans hn
      exact ⟨hat, rfl, h.kept t ⟨n, hat⟩⟩
  | @deposit now o =>
      refine ⟨⟨h.alone, fun t t' frame _ hreg => ?_, h.kept, fun t n hn => ?_⟩, trivial⟩
      · exact absurd hreg ((hinv.toHandOffInv.deposit now o).2.1 t' frame)
      · obtain ⟨frame, hreg⟩ := ha t ⟨n, hn⟩
        rw [(hinv.toHandOffInv.received_deposit now o t).1 frame hreg, h.complete t n hn]
        exact (List.drop_append_of_le_length (hinv.accepted_le t n hn)).symm
  | add ha hdeposited hframes =>
      refine ⟨h.of_sys hdeposited hframes, ?_⟩
      rcases ha with ⟨thread, process, pkt, rfl⟩ | ⟨thread, rfl⟩
      · exact trivial
      · exact trivial

/-! ### A whole run -/

/-- Where the place was kept so far, a step keeps it exactly if it is undisturbed. -/
theorem Undisplaced.step_iff (h : s.Undisplaced) (hinv : s.StreamInv) (a : LiveAction) :
    (s.step a).MissesNothing ∧ s.KeepsPlace a ↔ s.Undisturbed a := by
  refine ⟨fun ⟨hcomplete, hkeeps⟩ => ?_, fun ha => ?_⟩
  · cases a with
    | deposit now o =>
        intro t ⟨n, hn⟩
        by_contra hnot
        have hnone : ∀ frame, ¬ s.Registered t frame := fun frame hreg => hnot ⟨frame, hreg⟩
        -- The stream would have received one map less than there are deposits.
        have hmissed := hcomplete t n hn
        rw [(hinv.toHandOffInv.received_deposit now o t).2 hnone, h.complete t n hn] at hmissed
        have hlength := congrArg List.length hmissed
        have hdeposited : (s.step (.deposit now o)).deposited =
            s.deposited ++ [s.sys.storage.mApplicationTraffic] := rfl
        have hle := hinv.accepted_le t n hn
        rw [hdeposited, List.length_drop, List.length_drop, List.length_append,
          List.length_singleton] at hlength
        omega
    | await stream =>
        intro hpc t hts ht
        exact h.registered hinv.toHandOffInv ((hkeeps hpc).2 t hts ht) ht
    | _ => exact trivial
  · obtain ⟨hnext, hkeeps⟩ := h.step hinv ha
    exact ⟨hnext.complete, hkeeps⟩

theorem undisplaced_init (interval : Int32) (db : Database) : (init interval db).Undisplaced := by
  have hnone : ∀ t, ¬ (init interval db).Accepted t := fun t ⟨n, hn⟩ =>
    absurd hn (by simp [init])
  exact ⟨fun t _ ht _ => absurd ht (hnone t), fun t _ _ ht _ => absurd ht (hnone t),
    fun t ht => absurd ht (hnone t), fun t n hn => absurd ⟨n, hn⟩ (hnone t)⟩

/--
**A run displaces no stream and keeps nothing from one exactly if each of its steps is
undisturbed.**  The steps that are not are a deposit, or a call of `awaitSnapshot` by another
stream, between an accepted stream's hand-off and its next call.
-/
theorem undisplaced_run_iff (interval : Int32) (db : Database) (as : List LiveAction) :
    Always step MissesNothing (init interval db) as ∧ Along step KeepsPlace (init interval db) as ↔
      Along step Undisturbed (init interval db) as :=
  always_along_iff (I := StreamInv) (fun _ a hinv => streamInv_step hinv a) (fun _ h => h.complete)
    (fun _ a hinv h => h.step_iff hinv a) (fun _ _ hinv h ha => (h.step hinv ha).1)
    (streamInv_init interval db) (undisplaced_init interval db)

/-- Stream 1 asks after a deposit has served stream 0, which is still there. -/
def secondClient : List LiveAction :=
  [.connect 0 .live, .await 0, .deposit 0 {}, .connect 1 .live, .await 1]

/-- It gets the place. -/
theorem not_undisplaced_secondClient :
    ¬ (Always step MissesNothing (init 1 Database.empty) secondClient ∧
      Along step KeepsPlace (init 1 Database.empty) secondClient) := by
  rintro ⟨-, -, -, -, -, hkeeps, -⟩
  have hrejected := (hkeeps rfl).2 0 (by decide) ⟨0, rfl⟩
  exact Bool.false_ne_true hrejected

end LiveSystem

end Ntmd
