/-
Each deposit goes to one stream at most.

A stream is sent the maps of deposits.  `Delivered` says which: their numbers go up
along each stream, so that none is sent twice and none out of order, and no number is
on two streams.  Nothing is asked of the threads or of the clients for that; a stream
that is displaced, or late, has gaps in its numbers, and no more than that.

A frame is bound to be sent the deposit after its registration, and its place among
the numbers is kept for it (`Deliveries`) until its thread comes to send it.
-/
import Ntmd.Proofs.HandOff

namespace Ntmd

open Run

namespace LiveSystem

/-- The numbers of the deposits that were sent to each stream. -/
structure Delivered (s : LiveSystem) (numbers : Nat → List Nat) : Prop where
  maps : ∀ stream,
    List.Forall₂ (fun n m => s.deposited[n]? = some m) (numbers stream) (s.sent stream)
  sorted : ∀ stream, (numbers stream).Pairwise (· < ·)
  apart : ∀ stream stream', stream ≠ stream' → ∀ n ∈ numbers stream, n ∉ numbers stream'

/-- Together with the deposits that are on their way, or to come. -/
structure Deliveries (s : LiveSystem) (numbers : Nat → List Nat) : Prop
    extends s.Delivered numbers where
  held_after : ∀ stream frame, s.Holds stream frame → ∀ n ∈ numbers stream, n < s.registeredAt frame
  held_apart : ∀ stream frame, s.Holds stream frame → ∀ stream', s.registeredAt frame ∉ numbers stream'
  held_once : ∀ stream stream' frame frame', s.Holds stream frame → s.Holds stream' frame' →
    s.registeredAt frame = s.registeredAt frame' → stream = stream'

variable {s : LiveSystem} {numbers : Nat → List Nat}

theorem Delivered.lt (h : s.Delivered numbers) {stream n : Nat} (hn : n ∈ numbers stream) :
    n < s.deposited.length := by
  obtain ⟨i, hi, rfl⟩ := List.mem_iff_getElem.mp hn
  have hlength := (h.maps stream).length_eq
  have hmap := (h.maps stream).get hi (hlength ▸ hi)
  exact (List.getElem?_eq_some_iff.mp hmap).1

/-- Nothing is sent, and no frame becomes held. -/
theorem Deliveries.of_unchanged {s' : LiveSystem} (h : s.Deliveries numbers)
    (hsent : s'.sent = s.sent) (hat : s'.registeredAt = s.registeredAt)
    (hdeposited : ∀ (n : Nat) m, s.deposited[n]? = some m → s'.deposited[n]? = some m)
    (hholds : ∀ stream frame, s'.Holds stream frame → s.Holds stream frame) :
    s'.Deliveries numbers where
  maps stream := by
    rw [hsent]
    exact (h.maps stream).imp fun _ _ => hdeposited _ _
  sorted := h.sorted
  apart := h.apart
  held_after stream frame hf := by
    rw [hat]
    exact h.held_after stream frame (hholds stream frame hf)
  held_apart stream frame hf := by
    rw [hat]
    exact h.held_apart stream frame (hholds stream frame hf)
  held_once stream stream' frame frame' hf hf' heq := by
    rw [hat] at heq
    exact h.held_once stream stream' frame frame' (hholds stream frame hf)
      (hholds stream' frame' hf') heq

theorem Deliveries.of_setPc (h : s.Deliveries numbers) {stream : Nat} {pc : StreamPc}
    (hpc : ∀ frame, pc ≠ .waiting frame ∧ pc ≠ .served frame) :
    (s.setPc stream pc).Deliveries numbers := by
  refine h.of_unchanged rfl rfl (fun _ _ hm => hm) fun t frame hf => ?_
  by_cases ht : t = stream
  · subst ht
    rw [Holds, streams_setPc] at hf
    rcases hf with hf | hf
    · exact absurd hf (hpc frame).1
    · exact absurd hf (hpc frame).2
  · rwa [Holds, streams_setPc_of_ne ht] at hf

theorem Deliveries.lockStep (h : s.Deliveries numbers) {stream frame : Nat}
    (hpc : s.streams stream = .waiting frame) : (s.lockStep stream frame).Deliveries numbers := by
  refine h.of_unchanged rfl rfl (fun _ _ hm => hm) fun t f hf => ?_
  by_cases ht : t = stream
  · subst ht
    rw [Holds, streams_lockStep] at hf
    rcases hf with hf | hf
    · exact absurd hf (by simp)
    · rw [← StreamPc.served.inj hf]
      exact Or.inl hpc
  · rwa [Holds, streams_lockStep_of_ne ht] at hf

/-- The number of a frame that is registered now is new. -/
theorem Deliveries.awaitStep (h : s.Deliveries numbers) (hinv : s.HandOffInv) {stream : Nat}
    (hpc : s.streams stream = .ready) (hfree : s.sys.storage.mAPIWaiting = false) :
    (s.awaitStep stream).Deliveries numbers := by
  have hholds : ∀ t f, (s.awaitStep stream).Holds t f →
      (t = stream ∧ f = s.nextFrame ∧
        (s.awaitStep stream).registeredAt f = s.deposited.length) ∨
      (s.Holds t f ∧ (s.awaitStep stream).registeredAt f = s.registeredAt f ∧
        s.registeredAt f < s.deposited.length) := by
    intro t f hf
    by_cases ht : t = stream
    · subst ht
      rw [Holds, streams_awaitStep hfree] at hf
      rcases hf with hf | hf
      · obtain rfl := StreamPc.waiting.inj hf
        exact Or.inl ⟨rfl, rfl, registeredAt_awaitStep hfree⟩
      · exact absurd hf (by simp)
    · rw [Holds, streams_awaitStep_of_ne hfree ht] at hf
      have hne : f ≠ s.nextFrame := Nat.ne_of_lt (hinv.frame_lt t f hf)
      have hnot : ¬ s.Registered t f := fun hreg =>
        absurd ((hinv.pointers t f hreg).1.symm.trans hfree) (by simp)
      have hhanded : s.HandedOver t f := by
        rcases hf with hf | hf
        · exact Or.inl ⟨hf, Bool.eq_false_iff.mpr fun hlocked => hnot ⟨hf, hlocked⟩⟩
        · exact Or.inr hf
      exact Or.inr ⟨hf, registeredAt_awaitStep_of_ne hfree hne,
        (List.getElem?_eq_some_iff.mp (hinv.handed t f hhanded).1).1⟩
  obtain ⟨hdeposited, -, hsent⟩ := record_awaitStep stream hfree
  refine ⟨⟨fun t => ?_, h.sorted, h.apart⟩, fun t f hf n hn => ?_, fun t f hf t' hmem => ?_,
    fun t t' f f' hf hf' heq => ?_⟩
  · rw [hsent, hdeposited]
    exact h.maps t
  · rcases hholds t f hf with ⟨-, -, hat⟩ | ⟨hf, hat, -⟩
    · rw [hat]
      exact h.toDelivered.lt hn
    · rw [hat]
      exact h.held_after t f hf n hn
  · rcases hholds t f hf with ⟨-, -, hat⟩ | ⟨hf, hat, -⟩
    · rw [hat] at hmem
      exact absurd (h.toDelivered.lt hmem) (Nat.lt_irrefl _)
    · rw [hat] at hmem
      exact h.held_apart t f hf t' hmem
  · rcases hholds t f hf with ⟨rfl, -, hat⟩ | ⟨hf, hat, hlt⟩ <;>
      rcases hholds t' f' hf' with ⟨rfl, -, hat'⟩ | ⟨hf', hat', hlt'⟩
    · rfl
    · omega
    · omega
    · exact h.held_once t t' f f' hf hf' (by omega)

theorem mem_update_append {stream t n k : Nat} :
    n ∈ Function.update numbers stream (numbers stream ++ [k]) t ↔
      n ∈ numbers t ∨ (t = stream ∧ n = k) := by
  by_cases ht : t = stream
  · subst ht
    simp
  · simp [ht]

/-- A stream sends the deposit that its frame was bound for. -/
theorem Deliveries.sendStep (h : s.Deliveries numbers) (hinv : s.HandOffInv) {stream frame : Nat}
    (hpc : s.streams stream = .served frame) (ok : Bool) :
    (s.sendStep stream frame ok).Deliveries
      (Function.update numbers stream (numbers stream ++ [s.registeredAt frame])) := by
  have hhold : s.Holds stream frame := Or.inr hpc
  have hmap := (hinv.handed stream frame (Or.inr hpc)).1
  have hholds : ∀ t f, (s.sendStep stream frame ok).Holds t f → t ≠ stream ∧ s.Holds t f := by
    intro t f hf
    have ht : t ≠ stream := by
      rintro rfl
      rw [Holds, streams_sendStep] at hf
      cases ok <;> simp at hf
    rw [Holds, streams_sendStep_of_ne ht] at hf
    exact ⟨ht, hf⟩
  refine ⟨⟨fun t => ?_, fun t => ?_, fun t t' hne n hn hn' => ?_⟩, fun t f hf n hn => ?_,
    fun t f hf t' hmem => ?_, fun t t' f f' hf hf' heq =>
      h.held_once t t' f f' (hholds t f hf).2 (hholds t' f' hf').2 heq⟩
  · by_cases ht : t = stream
    · subst ht
      have hsent : (s.sendStep t frame ok).sent t = s.sent t ++ [(s.sys.frames frame).trafficMap] :=
        Function.update_self _ _ _
      rw [hsent, Function.update_self]
      exact List.rel_append (h.maps t) (.cons hmap .nil)
    · have hsent : (s.sendStep stream frame ok).sent t = s.sent t := Function.update_of_ne ht _ _
      rw [hsent, Function.update_of_ne ht]
      exact h.maps t
  · by_cases ht : t = stream
    · subst ht
      rw [Function.update_self]
      refine List.pairwise_append.mpr ⟨h.sorted t, List.pairwise_singleton _ _, fun n hn m hm => ?_⟩
      rw [List.mem_singleton.mp hm]
      exact h.held_after t frame hhold n hn
    · rw [Function.update_of_ne ht]
      exact h.sorted t
  · rcases mem_update_append.mp hn with hold | ⟨ht, hnew⟩ <;>
      rcases mem_update_append.mp hn' with hold' | ⟨ht', hnew'⟩
    · exact h.apart t t' hne n hold hold'
    · exact h.held_apart stream frame hhold t (hnew' ▸ hold)
    · exact h.held_apart stream frame hhold t' (hnew ▸ hold')
    · exact hne (ht.trans ht'.symm)
  · obtain ⟨ht, hheld⟩ := hholds t f hf
    rcases mem_update_append.mp hn with hn | ⟨rfl, -⟩
    · exact h.held_after t f hheld n hn
    · exact absurd rfl ht
  · obtain ⟨ht, hheld⟩ := hholds t f hf
    rcases mem_update_append.mp hmem with hmem | ⟨-, hnumber⟩
    · exact h.held_apart t f hheld t' hmem
    · exact ht (h.held_once t stream f frame hheld hhold hnumber)

theorem deliveries_step (h : s.Deliveries numbers) (hinv : s.HandOffInv) (a : LiveAction) :
    ∃ numbers', (s.step a).Deliveries numbers' := by
  have hmoves := moves_step s a
  generalize s.step a = s' at hmoves
  cases hmoves with
  | stays => exact ⟨_, h⟩
  | connect _ hafter =>
      refine ⟨_, h.of_setPc fun frame => ?_⟩
      rcases hafter with rfl | rfl <;> simp
  | greet _ hafter =>
      refine ⟨_, h.of_setPc fun frame => ?_⟩
      rcases hafter with rfl | rfl <;> simp
  | rejected => exact ⟨_, h.of_setPc (by simp)⟩
  | accepted hpc hfree => exact ⟨_, h.awaitStep hinv hpc hfree⟩
  | lock hpc => exact ⟨_, h.lockStep hpc⟩
  | send hpc => exact ⟨_, h.sendStep hinv hpc _⟩
  | disconnect => exact ⟨_, h.of_unchanged rfl rfl (fun _ _ hm => hm) fun _ _ hf => hf⟩
  | deposit =>
      refine ⟨_, h.of_unchanged rfl rfl (fun n m hm => ?_) fun _ _ hf => hf⟩
      have hlt := (List.getElem?_eq_some_iff.mp hm).1
      exact (List.getElem?_append_left hlt).trans hm
  | add _ hdeposited =>
      refine ⟨_, h.of_unchanged rfl rfl (fun n m hm => ?_) fun _ _ hf => hf⟩
      rw [deposited, hdeposited]
      exact hm

theorem deliveries_exec (interval : Int32) (db : Database) (as : List LiveAction) :
    ∃ numbers, (exec step (init interval db) as).Deliveries numbers := by
  have hinit : (init interval db).Deliveries fun _ => [] :=
    ⟨⟨fun _ => .nil, fun _ => .nil, fun _ _ _ n hn => absurd hn List.not_mem_nil⟩,
      fun _ _ _ n hn => absurd hn List.not_mem_nil, fun _ _ _ _ => List.not_mem_nil,
      fun t t' f f' hf => by rcases hf with hf | hf <;> exact absurd hf (by simp [init])⟩
  have hrun : Always step (fun s => s.HandOffInv ∧ ∃ numbers, s.Deliveries numbers)
      (init interval db) as :=
    always_of_inv (fun _ a h => ⟨handOffInv_step h.1 a, h.2.elim fun _ hd => deliveries_step hd h.1 a⟩)
      (fun _ h => h) ⟨handOffInv_init interval db, _, hinit⟩
  exact hrun.last.2

/--
**In every run each deposit is sent to one stream at most, and once**, and every stream is sent its
deposits in their order.
-/
theorem deliveries_run (interval : Int32) (db : Database) (as : List LiveAction) :
    ∃ numbers, (exec step (init interval db) as).Delivered numbers := by
  obtain ⟨numbers, h⟩ := deliveries_exec interval db as
  exact ⟨numbers, h.toDelivered⟩

end LiveSystem

end Ntmd
