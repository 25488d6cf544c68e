/-
Handing the traffic of an interval over to a live stream is safe.

The storage holds pointers into one iteration of a stream's thread, and a flag that
says whether they are good.  `HandOffInv` is what ties the two together: the flag is
up exactly when a frame is registered whose mutex is still locked, and the pointers
are then that frame's.  A deposit unlocks that mutex and takes the flag down in one
step, so nothing is written to a frame whose thread has gone on.
-/
import Ntmd.Api.LiveStreams

namespace Ntmd

open Run

/-! ### The two calls of the storage -/

namespace TrafficStorage

/-- A rejected call changes nothing. -/
theorem awaitSnapshot_of_waiting {s : TrafficStorage} (h : s.mAPIWaiting = true)
    (frames : Nat → LiveFrame) (frame : Nat) :
    s.awaitSnapshot frames frame = (false, s, frames) := by
  rw [awaitSnapshot, if_pos h]

theorem awaitSnapshot_of_free {s : TrafficStorage} (h : s.mAPIWaiting = false)
    (frames : Nat → LiveFrame) (frame : Nat) :
    s.awaitSnapshot frames frame =
      (true, { s with
        mAPIWaiting := true, apiMutex := some frame, apiTrafficMap := some frame,
        apiInterval := some frame },
       Function.update frames frame { frames frame with locked := true }) := by
  rw [awaitSnapshot, if_neg (by simp [h])]

/-- The borrowed pointers are those to the variables of one frame. -/
def PointsTo (s : TrafficStorage) (frame : Nat) : Prop :=
  s.apiMutex = some frame ∧ s.apiTrafficMap = some frame ∧ s.apiInterval = some frame

theorem handOff_of_free {s : TrafficStorage} (h : s.mAPIWaiting = false)
    (frames : Nat → LiveFrame) : s.handOff frames = (s, frames) := by
  rw [handOff, if_neg (by simp [h])]

/-- A waiting frame gets the map and the interval, and its mutex is unlocked. -/
theorem handOff_of_waiting {s : TrafficStorage} (h : s.mAPIWaiting = true) {frame : Nat}
    (hpointers : s.PointsTo frame) (frames : Nat → LiveFrame) :
    s.handOff frames =
      ({ s with mAPIWaiting := false },
       Function.update frames frame
        { locked := false, trafficMap := s.mApplicationTraffic, interval := s.mInterval }) := by
  obtain ⟨hmutex, hmap, hinterval⟩ := hpointers
  rw [handOff, if_pos h, hmutex, hmap, hinterval]
  simp [Function.update_idem]

/-- An add writes the map only. -/
theorem lookupLine_fst (s : TrafficStorage) (process : Process) :
    ∃ m, (s.lookupLine process).1 = { s with mApplicationTraffic := m } := by
  unfold lookupLine
  split
  · exact ⟨_, rfl⟩
  · exact ⟨_, rfl⟩

theorem increment_eq (s : TrafficStorage) (line : LineRef) (pkt : Packet) :
    ∃ m, s.increment line pkt = { s with mApplicationTraffic := m } := by
  unfold increment
  split
  · split
    · exact ⟨_, rfl⟩
    · exact ⟨_, rfl⟩
  · exact ⟨_, rfl⟩

end TrafficStorage

namespace LiveSystem

/-- The frame is of the iteration that the stream's thread is in. -/
def Holds (s : LiveSystem) (stream frame : Nat) : Prop :=
  s.streams stream = .waiting frame ∨ s.streams stream = .served frame

/-- The thread has registered the frame, and its mutex has not been unlocked since. -/
def Registered (s : LiveSystem) (stream frame : Nat) : Prop :=
  s.streams stream = .waiting frame ∧ (s.sys.frames frame).locked = true

/-- A deposit has served the frame, and its thread has not sent it yet. -/
def HandedOver (s : LiveSystem) (stream frame : Nat) : Prop :=
  (s.streams stream = .waiting frame ∧ (s.sys.frames frame).locked = false) ∨
    s.streams stream = .served frame

/-- What ties the flag and the pointers of the storage to the threads. -/
structure HandOffInv (s : LiveSystem) : Prop where
  frame_lt : ∀ stream frame, s.Holds stream frame → frame < s.nextFrame
  frame_own : ∀ stream stream' frame, s.Holds stream frame → s.Holds stream' frame →
    stream = stream'
  waiting : s.sys.storage.mAPIWaiting = true → ∃ stream frame, s.Registered stream frame
  pointers : ∀ stream frame, s.Registered stream frame →
    s.sys.storage.mAPIWaiting = true ∧ s.sys.storage.PointsTo frame
  next : ∀ stream frame, s.Registered stream frame →
    s.registeredAt frame = s.deposited.length
  handed : ∀ stream frame, s.HandedOver stream frame →
    s.deposited[s.registeredAt frame]? = some (s.sys.frames frame).trafficMap ∧
      (s.sys.frames frame).interval = s.sys.storage.mInterval

variable {s : LiveSystem}

theorem Registered.holds {stream frame : Nat} (h : s.Registered stream frame) :
    s.Holds stream frame := Or.inl h.1

theorem HandedOver.holds {stream frame : Nat} (h : s.HandedOver stream frame) :
    s.Holds stream frame := by
  rcases h with ⟨h, -⟩ | h
  · exact Or.inl h
  · exact Or.inr h

/-! ### What a step does to the threads -/

section Streams

variable {stream frame : Nat} {pc : StreamPc} {ok : Bool}

theorem streams_setPc : (s.setPc stream pc).streams stream = pc := Function.update_self _ _ _

theorem streams_setPc_of_ne {t : Nat} (ht : t ≠ stream) :
    (s.setPc stream pc).streams t = s.streams t := Function.update_of_ne ht _ _

theorem streams_lockStep : (s.lockStep stream frame).streams stream = .served frame :=
  Function.update_self _ _ _

theorem streams_lockStep_of_ne {t : Nat} (ht : t ≠ stream) :
    (s.lockStep stream frame).streams t = s.streams t := Function.update_of_ne ht _ _

theorem frames_lockStep_of_ne {f : Nat} (hf : f ≠ frame) :
    (s.lockStep stream frame).sys.frames f = s.sys.frames f := Function.update_of_ne hf _ _

theorem streams_sendStep :
    (s.sendStep stream frame ok).streams stream = if ok then .ready else .ended :=
  Function.update_self _ _ _

theorem streams_sendStep_of_ne {t : Nat} (ht : t ≠ stream) :
    (s.sendStep stream frame ok).streams t = s.streams t := Function.update_of_ne ht _ _

end Streams

section Await

variable {stream : Nat} (hfree : s.sys.storage.mAPIWaiting = false)

include hfree

theorem streams_awaitStep : (s.awaitStep stream).streams stream = .waiting s.nextFrame := by
  rw [awaitStep, TrafficStorage.awaitSnapshot_of_free hfree]
  exact Function.update_self _ _ _

theorem streams_awaitStep_of_ne {t : Nat} (ht : t ≠ stream) :
    (s.awaitStep stream).streams t = s.streams t := by
  rw [awaitStep, TrafficStorage.awaitSnapshot_of_free hfree]
  exact Function.update_of_ne ht _ _

theorem locked_awaitStep : ((s.awaitStep stream).sys.frames s.nextFrame).locked = true := by
  rw [awaitStep, TrafficStorage.awaitSnapshot_of_free hfree]
  simp only [Function.update_self]

theorem frames_awaitStep_of_ne {f : Nat} (hf : f ≠ s.nextFrame) :
    (s.awaitStep stream).sys.frames f = s.sys.frames f := by
  rw [awaitStep, TrafficStorage.awaitSnapshot_of_free hfree]
  exact Function.update_of_ne hf _ _

theorem registeredAt_awaitStep :
    (s.awaitStep stream).registeredAt s.nextFrame = s.deposited.length := by
  rw [awaitStep, TrafficStorage.awaitSnapshot_of_free hfree]
  exact Function.update_self _ _ _

theorem registeredAt_awaitStep_of_ne {f : Nat} (hf : f ≠ s.nextFrame) :
    (s.awaitStep stream).registeredAt f = s.registeredAt f := by
  rw [awaitStep, TrafficStorage.awaitSnapshot_of_free hfree]
  exact Function.update_of_ne hf _ _

theorem nextFrame_awaitStep : (s.awaitStep stream).nextFrame = s.nextFrame + 1 := by
  rw [awaitStep, TrafficStorage.awaitSnapshot_of_free hfree]

variable (stream)

theorem storage_awaitStep :
    (s.awaitStep stream).sys.storage.mAPIWaiting = true ∧
      (s.awaitStep stream).sys.storage.PointsTo s.nextFrame ∧
      (s.awaitStep stream).sys.storage.mInterval = s.sys.storage.mInterval := by
  rw [awaitStep, TrafficStorage.awaitSnapshot_of_free hfree]
  exact ⟨rfl, ⟨rfl, rfl, rfl⟩, rfl⟩

theorem record_awaitStep :
    (s.awaitStep stream).deposited = s.deposited ∧ (s.awaitStep stream).gone = s.gone ∧
      (s.awaitStep stream).sent = s.sent := by
  rw [awaitStep, TrafficStorage.awaitSnapshot_of_free hfree]
  exact ⟨rfl, rfl, rfl⟩

end Await

/-- Everything that a step can do. -/
inductive Moves (s : LiveSystem) : LiveAction → LiveSystem → Prop
  /-- The thread cannot take it, or it changes nothing. -/
  | stays {a} (hpc : ∀ stream, a = .await stream → s.streams stream ≠ .ready)
      (hdeposit : ∀ now o, a ≠ .deposit now o) : Moves s a s
  | connect {stream kind pc} (hpc : s.streams stream = .unused)
      (hafter : pc = .ready ∨ pc = .greeting) : Moves s (.connect stream kind) (s.setPc stream pc)
  | greet {stream ok pc} (hpc : s.streams stream = .greeting) (hafter : pc = .ready ∨ pc = .ended) :
      Moves s (.greet stream ok) (s.setPc stream pc)
  | rejected {stream} (hpc : s.streams stream = .ready)
      (hwaiting : s.sys.storage.mAPIWaiting = true) :
      Moves s (.await stream) (s.setPc stream .ended)
  | accepted {stream} (hpc : s.streams stream = .ready)
      (hfree : s.sys.storage.mAPIWaiting = false) : Moves s (.await stream) (s.awaitStep stream)
  | lock {stream frame} (hpc : s.streams stream = .waiting frame)
      (hfree : (s.sys.frames frame).locked = false) :
      Moves s (.lock stream) (s.lockStep stream frame)
  | send {stream frame ok} (hpc : s.streams stream = .served frame) :
      Moves s (.send stream ok) (s.sendStep stream frame ok)
  | disconnect {stream} : Moves s (.disconnect stream) (s.step (.disconnect stream))
  | deposit {now o} : Moves s (.deposit now o) (s.step (.deposit now o))
  /-- An add, which writes the map of the storage only. -/
  | add {a sys} (ha : (∃ thread process pkt, a = .lookup thread process pkt) ∨
        ∃ thread, a = .increment thread)
      (hdeposited : sys.deposited = s.sys.deposited) (hframes : sys.frames = s.sys.frames)
      (hstorage : ∃ m, sys.storage = { s.sys.storage with mApplicationTraffic := m }) :
      Moves s a { s with sys := sys }

theorem moves_step (s : LiveSystem) (a : LiveAction) : s.Moves a (s.step a) := by
  cases a with
  | connect stream kind =>
      simp only [step]
      split
      · rename_i hpc
        exact .connect hpc (Or.inl rfl)
      · rename_i hpc
        exact .connect hpc (Or.inr rfl)
      · exact .stays (by simp) (by simp)
  | greet stream ok =>
      simp only [step]
      split
      · rename_i hpc
        exact .greet hpc (by cases ok <;> simp)
      · exact .stays (by simp) (by simp)
  | await stream =>
      simp only [step]
      split
      · rename_i hpc
        cases hw : s.sys.storage.mAPIWaiting with
        | false => exact .accepted hpc hw
        | true =>
            rw [awaitStep, TrafficStorage.awaitSnapshot_of_waiting hw]
            exact .rejected hpc hw
      · rename_i hpc
        exact .stays (by simpa using hpc) (by simp)
  | lock stream =>
      simp only [step]
      split
      · rename_i frame hpc
        split
        · exact .stays (by simp) (by simp)
        · rename_i hfree
          exact .lock hpc (Bool.eq_false_iff.mpr hfree)
      · exact .stays (by simp) (by simp)
  | send stream ok =>
      simp only [step]
      split
      · rename_i frame hpc
        exact .send hpc
      · exact .stays (by simp) (by simp)
  | disconnect stream => exact .disconnect
  | deposit now o => exact .deposit
  | lookup thread process pkt =>
      simp only [step, System.step]
      split
      · exact .stays (by simp) (by simp)
      · exact .add (Or.inl ⟨thread, process, pkt, rfl⟩) rfl rfl
          (s.sys.storage.lookupLine_fst process)
  | increment thread =>
      simp only [step, System.step]
      split
      · exact .stays (by simp) (by simp)
      · rename_i p _
        exact .add (Or.inr ⟨thread, rfl⟩) rfl rfl (s.sys.storage.increment_eq p.line p.pkt)
  | snapshot => exact .stays (by simp) (by simp)

/-! ### The invariant -/

/-- There is one registered stream at most. -/
theorem HandOffInv.registered_unique (h : s.HandOffInv) {stream stream' frame frame' : Nat}
    (hreg : s.Registered stream frame) (hreg' : s.Registered stream' frame') :
    stream = stream' ∧ frame = frame' := by
  have hframe : frame = frame' := by
    obtain ⟨-, hmutex, -⟩ := h.pointers stream frame hreg
    obtain ⟨-, hmutex', -⟩ := h.pointers stream' frame' hreg'
    exact Option.some.inj (hmutex.symm.trans hmutex')
  rw [← hframe] at hreg'
  exact ⟨h.frame_own stream stream' frame hreg.holds hreg'.holds, hframe⟩

/-- A step that registers nothing and serves nothing keeps the invariant. -/
theorem HandOffInv.of_unchanged {s' : LiveSystem} (h : s.HandOffInv)
    (hnext : s'.nextFrame = s.nextFrame) (hat : s'.registeredAt = s.registeredAt)
    (hdeposited : s'.deposited = s.deposited)
    (hflag : s'.sys.storage.mAPIWaiting = s.sys.storage.mAPIWaiting)
    (hpointers : ∀ frame, s.sys.storage.PointsTo frame → s'.sys.storage.PointsTo frame)
    (hinterval : s'.sys.storage.mInterval = s.sys.storage.mInterval)
    (hframes : ∀ frame, (s'.sys.frames frame).trafficMap = (s.sys.frames frame).trafficMap ∧
      (s'.sys.frames frame).interval = (s.sys.frames frame).interval)
    (hholds : ∀ stream frame, s'.Holds stream frame → s.Holds stream frame)
    (hregistered : ∀ stream frame, s'.Registered stream frame ↔ s.Registered stream frame)
    (hhanded : ∀ stream frame, s'.HandedOver stream frame → s.HandedOver stream frame) :
    s'.HandOffInv where
  frame_lt stream frame hf := by
    rw [hnext]
    exact h.frame_lt stream frame (hholds stream frame hf)
  frame_own stream stream' frame hf hf' :=
    h.frame_own stream stream' frame (hholds stream frame hf) (hholds stream' frame hf')
  waiting hw := by
    rw [hflag] at hw
    obtain ⟨stream, frame, hreg⟩ := h.waiting hw
    exact ⟨stream, frame, (hregistered stream frame).mpr hreg⟩
  pointers stream frame hreg := by
    obtain ⟨hw, hpoints⟩ := h.pointers stream frame ((hregistered stream frame).mp hreg)
    exact ⟨hflag.trans hw, hpointers frame hpoints⟩
  next stream frame hreg := by
    rw [hat, hdeposited]
    exact h.next stream frame ((hregistered stream frame).mp hreg)
  handed stream frame hf := by
    obtain ⟨hmap, hint⟩ := h.handed stream frame (hhanded stream frame hf)
    rw [hat, hdeposited, (hframes frame).1, (hframes frame).2, hinterval]
    exact ⟨hmap, hint⟩

/-- A thread outside a frame goes on without one. -/
theorem HandOffInv.of_setPc (h : s.HandOffInv) {stream : Nat} {pc : StreamPc}
    (hbefore : ∀ frame, ¬ s.Holds stream frame)
    (hafter : ∀ frame, pc ≠ .waiting frame ∧ pc ≠ .served frame) :
    (s.setPc stream pc).HandOffInv := by
  have hholds : ∀ t frame, (s.setPc stream pc).Holds t frame → t ≠ stream ∧ s.Holds t frame := by
    intro t frame hf
    by_cases ht : t = stream
    · subst ht
      rw [Holds, streams_setPc] at hf
      rcases hf with hf | hf
      · exact absurd hf (hafter frame).1
      · exact absurd hf (hafter frame).2
    · rw [Holds, streams_setPc_of_ne ht] at hf
      exact ⟨ht, hf⟩
  refine h.of_unchanged rfl rfl rfl rfl (fun _ hp => hp) rfl (fun _ => ⟨rfl, rfl⟩)
    (fun t frame hf => (hholds t frame hf).2) (fun t frame => ?_) (fun t frame hf => ?_)
  · constructor
    · intro hreg
      have ht := (hholds t frame hreg.holds).1
      exact ⟨(streams_setPc_of_ne ht).symm.trans hreg.1, hreg.2⟩
    · intro hreg
      have ht : t ≠ stream := fun ht => hbefore frame (ht ▸ hreg.holds)
      exact ⟨(streams_setPc_of_ne ht).trans hreg.1, hreg.2⟩
  · have ht := (hholds t frame hf.holds).1
    rw [HandedOver, streams_setPc_of_ne ht] at hf
    exact hf

/-- A step of the storage's other users. -/
theorem HandOffInv.of_sys (h : s.HandOffInv) {sys : System}
    (hdeposited : sys.deposited = s.sys.deposited) (hframes : sys.frames = s.sys.frames)
    (hflag : sys.storage.mAPIWaiting = s.sys.storage.mAPIWaiting)
    (hpointers : ∀ frame, s.sys.storage.PointsTo frame → sys.storage.PointsTo frame)
    (hinterval : sys.storage.mInterval = s.sys.storage.mInterval) :
    { s with sys := sys }.HandOffInv := by
  refine h.of_unchanged rfl rfl hdeposited hflag hpointers hinterval (fun frame => ?_)
    (fun t frame hf => hf) (fun t frame => ?_) (fun t frame hf => ?_)
  · simp only [hframes]
    exact ⟨trivial, trivial⟩
  · simp only [Registered, hframes]
  · simp only [HandedOver, hframes] at hf
    exact hf

theorem HandOffInv.lockStep (h : s.HandOffInv) {stream frame : Nat}
    (hpc : s.streams stream = .waiting frame) (hfree : (s.sys.frames frame).locked = false) :
    (s.lockStep stream frame).HandOffInv := by
  have hown : ∀ t, s.Holds t frame → t = stream := fun t ht =>
    h.frame_own t stream frame ht (Or.inl hpc)
  refine h.of_unchanged rfl rfl rfl rfl (fun _ hp => hp) rfl (fun f => ?_) (fun t f hf => ?_)
    (fun t f => ?_) (fun t f hf => ?_)
  · by_cases hf : f = frame
    · subst hf
      simp [LiveSystem.lockStep]
    · rw [frames_lockStep_of_ne hf]
      exact ⟨rfl, rfl⟩
  · by_cases ht : t = stream
    · subst ht
      rw [Holds, streams_lockStep] at hf
      rcases hf with hf | hf
      · exact absurd hf (by simp)
      · exact Or.inl (hpc.trans (by rw [StreamPc.served.inj hf]))
    · rw [Holds, streams_lockStep_of_ne ht] at hf
      exact hf
  · -- The mutex locked here is that of a thread that is registered no longer.
    by_cases ht : t = stream
    · subst ht
      refine iff_of_false (fun hreg => ?_) fun hreg => ?_
      · exact absurd (streams_lockStep.symm.trans hreg.1) (by simp)
      · obtain rfl : frame = f := StreamPc.waiting.inj (hpc.symm.trans hreg.1)
        exact absurd (hfree.symm.trans hreg.2) (by simp)
    · rw [Registered, Registered, streams_lockStep_of_ne ht]
      refine and_congr_right fun hwaiting => ?_
      have hf : f ≠ frame := fun hf => ht (hown t (hf ▸ Or.inl hwaiting))
      rw [frames_lockStep_of_ne hf]
  · by_cases ht : t = stream
    · subst ht
      rcases hf with ⟨hf, -⟩ | hf
      · exact absurd (streams_lockStep.symm.trans hf) (by simp)
      · obtain rfl : frame = f := StreamPc.served.inj (streams_lockStep.symm.trans hf)
        exact Or.inl ⟨hpc, hfree⟩
    · rw [HandedOver, streams_lockStep_of_ne ht] at hf
      rcases hf with ⟨hwaiting, hunlocked⟩ | hserved
      · have hf : f ≠ frame := fun hf => ht (hown t (hf ▸ Or.inl hwaiting))
        rw [frames_lockStep_of_ne hf] at hunlocked
        exact Or.inl ⟨hwaiting, hunlocked⟩
      · exact Or.inr hserved

theorem HandOffInv.sendStep (h : s.HandOffInv) {stream frame : Nat}
    (hpc : s.streams stream = .served frame) (ok : Bool) :
    (s.sendStep stream frame ok).HandOffInv := by
  have hnone : ∀ f, ¬ (s.sendStep stream frame ok).Holds stream f := fun f hf => by
    rw [Holds, streams_sendStep] at hf
    cases ok <;> simp at hf
  have hne : ∀ {t f}, (s.sendStep stream frame ok).Holds t f → t ≠ stream := fun hf ht =>
    hnone _ (ht ▸ hf)
  refine h.of_unchanged rfl rfl rfl rfl (fun _ hp => hp) rfl (fun _ => ⟨rfl, rfl⟩)
    (fun t f hf => ?_) (fun t f => ?_) (fun t f hf => ?_)
  · rw [Holds, streams_sendStep_of_ne (hne hf)] at hf
    exact hf
  · constructor
    · intro hreg
      exact ⟨(streams_sendStep_of_ne (hne hreg.holds)).symm.trans hreg.1, hreg.2⟩
    · intro hreg
      have ht : t ≠ stream := by
        rintro rfl
        exact absurd (hpc.symm.trans hreg.1) (by simp)
      exact ⟨(streams_sendStep_of_ne ht).trans hreg.1, hreg.2⟩
  · rw [HandedOver, streams_sendStep_of_ne (hne (HandedOver.holds hf))] at hf
    exact hf

/-- A frame is registered while no other is. -/
theorem HandOffInv.awaitStep_free (h : s.HandOffInv) {stream : Nat}
    (hfree : s.sys.storage.mAPIWaiting = false) :
    (s.awaitStep stream).HandOffInv ∧ (s.awaitStep stream).Registered stream s.nextFrame := by
  have hnone : ∀ t f, ¬ s.Registered t f := fun t f hreg => by
    rw [(h.pointers t f hreg).1] at hfree
    exact absurd hfree (by simp)
  have hself : (s.awaitStep stream).streams stream = .waiting s.nextFrame :=
    streams_awaitStep hfree
  have hlocked : ((s.awaitStep stream).sys.frames s.nextFrame).locked = true :=
    locked_awaitStep hfree
  obtain ⟨hwaiting, hpointers, hinterval⟩ := storage_awaitStep stream hfree
  have hdeposited := (record_awaitStep stream hfree).1
  have hholds : ∀ t f, (s.awaitStep stream).Holds t f →
      (t = stream ∧ f = s.nextFrame) ∨ (t ≠ stream ∧ f ≠ s.nextFrame ∧ s.Holds t f) := by
    intro t f hf
    by_cases ht : t = stream
    · subst ht
      rw [Holds, hself] at hf
      rcases hf with hf | hf
      · exact Or.inl ⟨rfl, (StreamPc.waiting.inj hf).symm⟩
      · exact absurd hf (by simp)
    · rw [Holds, streams_awaitStep_of_ne hfree ht] at hf
      have hlt := h.frame_lt t f hf
      exact Or.inr ⟨ht, by omega, hf⟩
  have hregistered : ∀ t f, (s.awaitStep stream).Registered t f →
      t = stream ∧ f = s.nextFrame := by
    intro t f hreg
    rcases hholds t f hreg.holds with heq | ⟨ht, hf, -⟩
    · exact heq
    · refine absurd ⟨(streams_awaitStep_of_ne hfree ht).symm.trans hreg.1, ?_⟩ (hnone t f)
      rw [← frames_awaitStep_of_ne hfree hf]
      exact hreg.2
  refine ⟨⟨?_, ?_, ?_, ?_, ?_, ?_⟩, hself, hlocked⟩
  · intro t f hf
    rw [nextFrame_awaitStep hfree]
    rcases hholds t f hf with ⟨-, rfl⟩ | ⟨-, -, hf⟩
    · exact Nat.lt_succ_self _
    · exact Nat.lt_succ_of_lt (h.frame_lt t f hf)
  · intro t t' f hf hf'
    rcases hholds t f hf with ⟨rfl, rfl⟩ | ⟨-, hne, hf⟩
    · rcases hholds t' _ hf' with ⟨rfl, -⟩ | ⟨-, hne, -⟩
      · rfl
      · exact absurd rfl hne
    · rcases hholds t' f hf' with ⟨-, rfl⟩ | ⟨-, -, hf'⟩
      · exact absurd rfl hne
      · exact h.frame_own t t' f hf hf'
  · exact fun _ => ⟨stream, s.nextFrame, hself, hlocked⟩
  · intro t f hreg
    obtain ⟨-, rfl⟩ := hregistered t f hreg
    exact ⟨hwaiting, hpointers⟩
  · intro t f hreg
    obtain ⟨-, rfl⟩ := hregistered t f hreg
    rw [hdeposited]
    exact registeredAt_awaitStep hfree
  · intro t f hf
    rcases hholds t f hf.holds with ⟨rfl, rfl⟩ | ⟨ht, hne, -⟩
    · rcases hf with ⟨-, hunlocked⟩ | hserved
      · exact absurd (hlocked.symm.trans hunlocked) (by simp)
      · exact absurd (hself.symm.trans hserved) (by simp)
    · rw [HandedOver, streams_awaitStep_of_ne hfree ht, frames_awaitStep_of_ne hfree hne] at hf
      rw [registeredAt_awaitStep_of_ne hfree hne, frames_awaitStep_of_ne hfree hne, hdeposited,
        hinterval]
      exact h.handed t f hf

/-- A deposit serves the registered frame, if there is one, and no other. -/
theorem HandOffInv.deposit (h : s.HandOffInv) (now : Int64) (o : DBController.Outcomes) :
    (s.step (.deposit now o)).HandOffInv ∧
      (∀ t f, ¬ (s.step (.deposit now o)).Registered t f) ∧
      ∀ f, (s.step (.deposit now o)).sys.frames f ≠ s.sys.frames f → ∃ t, s.Registered t f := by
  have hkept : ∀ {i m}, s.deposited[i]? = some m →
      (s.deposited ++ [s.sys.storage.mApplicationTraffic])[i]? = some m := fun hi => by
    rw [List.getElem?_append_left (List.getElem?_eq_some_iff.mp hi).1]
    exact hi
  cases hw : s.sys.storage.mAPIWaiting with
  | false =>
      have hnone : ∀ t f, ¬ s.Registered t f := fun t f hreg => by
        rw [(h.pointers t f hreg).1] at hw
        exact absurd hw (by simp)
      have hframes : (s.step (.deposit now o)).sys.frames = s.sys.frames := by
        simp only [step, System.step, System.depositIteration, TrafficStorage.handOff_of_free hw]
      have hregistered : ∀ t f, ¬ (s.step (.deposit now o)).Registered t f := fun t f hreg => by
        rw [Registered, hframes] at hreg
        exact hnone t f hreg
      refine ⟨⟨h.frame_lt, h.frame_own, fun hwaiting => ?_, fun t f hreg => ?_, fun t f hreg => ?_,
        fun t f hf => ?_⟩, hregistered, fun f hne => ?_⟩
      · simp only [step, System.step, System.depositIteration, TrafficStorage.handOff_of_free hw,
          TrafficStorage.clear, hw] at hwaiting
        exact absurd hwaiting (by simp)
      · exact absurd hreg (hregistered t f)
      · exact absurd hreg (hregistered t f)
      · rw [HandedOver, hframes] at hf
        obtain ⟨hmap, hinterval⟩ := h.handed t f hf
        rw [hframes]
        refine ⟨hkept hmap, hinterval.trans ?_⟩
        simp only [step, System.step, System.depositIteration, TrafficStorage.handOff_of_free hw,
          TrafficStorage.clear]
      · rw [hframes] at hne
        exact absurd rfl hne
  | true =>
      obtain ⟨t₀, f₀, hreg₀⟩ := h.waiting hw
      have hhandOff := TrafficStorage.handOff_of_waiting hw (h.pointers t₀ f₀ hreg₀).2 s.sys.frames
      have hframes : (s.step (.deposit now o)).sys.frames = Function.update s.sys.frames f₀
          { locked := false, trafficMap := s.sys.storage.mApplicationTraffic,
            interval := s.sys.storage.mInterval } := by
        simp only [step, System.step, System.depositIteration, hhandOff]
      have hself : (s.step (.deposit now o)).sys.frames f₀ =
          { locked := false, trafficMap := s.sys.storage.mApplicationTraffic,
            interval := s.sys.storage.mInterval } := by
        rw [hframes, Function.update_self]
      have hother : ∀ f, f ≠ f₀ → (s.step (.deposit now o)).sys.frames f = s.sys.frames f :=
        fun f hf => by rw [hframes, Function.update_of_ne hf]
      have hinterval : (s.step (.deposit now o)).sys.storage.mInterval = s.sys.storage.mInterval := by
        simp only [step, System.step, System.depositIteration, hhandOff, TrafficStorage.clear]
      have hregistered : ∀ t f, ¬ (s.step (.deposit now o)).Registered t f := by
        rintro t f ⟨hpc, hlocked⟩
        by_cases hf : f = f₀
        · subst hf
          rw [hself] at hlocked
          exact absurd hlocked (by simp)
        · rw [hother f hf] at hlocked
          exact hf (h.registered_unique ⟨hpc, hlocked⟩ hreg₀).2
      refine ⟨⟨h.frame_lt, h.frame_own, fun hwaiting => ?_, fun t f hreg => ?_, fun t f hreg => ?_,
        fun t f hf => ?_⟩, hregistered, fun f hne => ?_⟩
      · simp only [step, System.step, System.depositIteration, hhandOff,
          TrafficStorage.clear] at hwaiting
        exact absurd hwaiting (by simp)
      · exact absurd hreg (hregistered t f)
      · exact absurd hreg (hregistered t f)
      · by_cases hf₀ : f = f₀
        · -- The frame just served: it was registered after the deposits before this one.
          subst hf₀
          rw [hself, hinterval]
          refine ⟨?_, rfl⟩
          show (s.deposited ++ [s.sys.storage.mApplicationTraffic])[s.registeredAt f]? = _
          rw [h.next t₀ f hreg₀, List.getElem?_append_right (Nat.le_refl _), Nat.sub_self]
          rfl
        · rw [HandedOver, hother f hf₀] at hf
          obtain ⟨hmap, hint⟩ := h.handed t f hf
          rw [hother f hf₀, hinterval]
          exact ⟨hkept hmap, hint⟩
      · by_cases hf₀ : f = f₀
        · exact ⟨t₀, hf₀ ▸ hreg₀⟩
        · exact absurd (hother f hf₀) hne

theorem handOffInv_step (h : s.HandOffInv) (a : LiveAction) : (s.step a).HandOffInv := by
  have hnone : ∀ {stream pc}, s.streams stream = pc → (∀ frame, pc ≠ .waiting frame) →
      (∀ frame, pc ≠ .served frame) → ∀ frame, ¬ s.Holds stream frame := by
    intro stream pc hpc hwaiting hserved frame hf
    rcases hf with hf | hf
    · exact hwaiting frame (hpc.symm.trans hf)
    · exact hserved frame (hpc.symm.trans hf)
  have hmoves := moves_step s a
  generalize s.step a = s' at hmoves
  cases hmoves with
  | stays => exact h
  | connect hpc hafter =>
      refine h.of_setPc (hnone hpc (by simp) (by simp)) fun frame => ?_
      rcases hafter with rfl | rfl <;> simp
  | greet hpc hafter =>
      refine h.of_setPc (hnone hpc (by simp) (by simp)) fun frame => ?_
      rcases hafter with rfl | rfl <;> simp
  | rejected hpc => exact h.of_setPc (hnone hpc (by simp) (by simp)) (by simp)
  | accepted hpc hfree => exact (h.awaitStep_free hfree).1
  | lock hpc hfree => exact h.lockStep hpc hfree
  | send hpc => exact h.sendStep hpc _
  | disconnect =>
      exact h.of_unchanged rfl rfl rfl rfl (fun _ hp => hp) rfl (fun _ => ⟨rfl, rfl⟩)
        (fun _ _ hf => hf) (fun _ _ => Iff.rfl) (fun _ _ hf => hf)
  | deposit => exact (h.deposit _ _).1
  | add ha hdeposited hframes hstorage =>
      obtain ⟨m, hm⟩ := hstorage
      refine h.of_sys hdeposited hframes ?_ (fun frame hp => ?_) ?_
      · rw [hm]
      · rw [hm]
        exact hp
      · rw [hm]

/-- The stream that was registered has been served. -/
theorem HandOffInv.handedOver_deposit (h : s.HandOffInv) {stream frame : Nat}
    (hreg : s.Registered stream frame) (now : Int64) (o : DBController.Outcomes) :
    (s.step (.deposit now o)).HandedOver stream frame := by
  have hpc : (s.step (.deposit now o)).streams stream = .waiting frame := hreg.1
  have hnone := (h.deposit now o).2.1 stream frame
  exact Or.inl ⟨hpc, Bool.eq_false_iff.mpr fun hlocked => hnone ⟨hpc, hlocked⟩⟩

/-- A stream stays registered until the next deposit. -/
theorem HandOffInv.registered_step (h : s.HandOffInv) {a : LiveAction}
    (ha : ∀ now o, a ≠ .deposit now o) {t f : Nat} (hreg : s.Registered t f) :
    (s.step a).Registered t f := by
  have hne : ∀ {stream pc}, s.streams stream = pc → pc ≠ .waiting f → t ≠ stream := by
    rintro stream pc hpc hnot rfl
    exact hnot (hpc.symm.trans hreg.1)
  have hmoves := moves_step s a
  generalize s.step a = s' at hmoves
  cases hmoves with
  | stays => exact hreg
  | connect hpc => exact ⟨(streams_setPc_of_ne (hne hpc (by simp))).trans hreg.1, hreg.2⟩
  | greet hpc => exact ⟨(streams_setPc_of_ne (hne hpc (by simp))).trans hreg.1, hreg.2⟩
  | rejected hpc => exact ⟨(streams_setPc_of_ne (hne hpc (by simp))).trans hreg.1, hreg.2⟩
  | accepted hpc hfree => exact absurd ((h.pointers t f hreg).1.symm.trans hfree) (by simp)
  | @lock stream frame hpc hfree =>
      have hframe : f ≠ frame := by
        rintro rfl
        exact absurd (hreg.2.symm.trans hfree) (by simp)
      have hts : t ≠ stream := hne hpc fun heq => hframe (StreamPc.waiting.inj heq).symm
      refine ⟨(streams_lockStep_of_ne hts).trans hreg.1, ?_⟩
      rw [frames_lockStep_of_ne hframe]
      exact hreg.2
  | send hpc => exact ⟨(streams_sendStep_of_ne (hne hpc (by simp))).trans hreg.1, hreg.2⟩
  | disconnect => exact hreg
  | deposit => exact absurd rfl (ha _ _)
  | add _ _ hframes =>
      refine ⟨hreg.1, ?_⟩
      rw [hframes]
      exact hreg.2

theorem handOffInv_init (interval : Int32) (db : Database) : (init interval db).HandOffInv := by
  have hnone : ∀ t f, ¬ (init interval db).Holds t f := fun t f hf => by
    rcases hf with hf | hf <;> exact absurd hf (by simp [init])
  exact ⟨fun t f hf => absurd hf (hnone t f), fun t t' f hf _ => absurd hf (hnone t f),
    fun hw => absurd hw (by simp [init, System.init]), fun t f hreg => absurd hreg.holds (hnone t f),
    fun t f hreg => absurd hreg.holds (hnone t f), fun t f hf => absurd hf.holds (hnone t f)⟩

/-! ### The hand-off of every run -/

/-- The flag, the pointers and the frames agree. -/
structure HandOffSafe (s : LiveSystem) : Prop where
  /-- The flag is up exactly when one stream is registered and not yet served. -/
  waiting_iff : s.sys.storage.mAPIWaiting = true ↔ ∃! stream, ∃ frame, s.Registered stream frame
  /-- The pointers are then those of its current iteration. -/
  pointers : ∀ stream frame, s.Registered stream frame → s.sys.storage.PointsTo frame
  /-- A stream that was served sees the map of the deposit after its registration. -/
  served : ∀ stream frame, s.HandedOver stream frame →
    s.deposited[s.registeredAt frame]? = some (s.sys.frames frame).trafficMap ∧
      (s.sys.frames frame).interval = s.sys.storage.mInterval

/-- No stream is served, or lost, by the step. -/
def KeepsRegistered (s : LiveSystem) (a : LiveAction) : Prop :=
  ∀ stream frame, s.Registered stream frame → (s.step a).Registered stream frame

/-- What the steps of the two parties do to each other. -/
def HandOffStep (s : LiveSystem) : LiveAction → Prop
  | .deposit now o =>
      -- Written to are only the variables of a thread that is still blocked, and it is served then.
      (∀ frame, (s.step (.deposit now o)).sys.frames frame ≠ s.sys.frames frame →
        ∃ stream, s.Registered stream frame) ∧
      (∀ stream frame, s.Registered stream frame →
        (s.step (.deposit now o)).HandedOver stream frame) ∧
      ∀ stream frame, ¬ (s.step (.deposit now o)).Registered stream frame
  | .await stream =>
      s.KeepsRegistered (.await stream) ∧
        (s.streams stream = .ready →
          (s.sys.storage.mAPIWaiting = true → (s.step (.await stream)).sys = s.sys) ∧
          (s.sys.storage.mAPIWaiting = false →
            (s.step (.await stream)).Registered stream s.nextFrame ∧
            (s.step (.await stream)).registeredAt s.nextFrame = s.deposited.length))
  | a => s.KeepsRegistered a

theorem HandOffInv.safe (h : s.HandOffInv) : s.HandOffSafe where
  waiting_iff := by
    constructor
    · intro hw
      obtain ⟨t, f, hreg⟩ := h.waiting hw
      refine ⟨t, ⟨f, hreg⟩, ?_⟩
      rintro t' ⟨f', hreg'⟩
      exact (h.registered_unique hreg' hreg).1
    · rintro ⟨t, ⟨f, hreg⟩, -⟩
      exact (h.pointers t f hreg).1
  pointers t f hreg := (h.pointers t f hreg).2
  served := h.handed

theorem HandOffInv.handOffStep (h : s.HandOffInv) (a : LiveAction) : s.HandOffStep a := by
  cases a with
  | deposit now o =>
      obtain ⟨-, hnone, hwritten⟩ := h.deposit now o
      exact ⟨hwritten, fun _ _ hreg => h.handedOver_deposit hreg now o, hnone⟩
  | await stream =>
      refine ⟨fun _ _ hreg => h.registered_step (by simp) hreg, fun hready => ?_⟩
      have hstep : s.step (.await stream) = s.awaitStep stream := by
        simp only [step, hready]
      rw [hstep]
      constructor
      · intro hw
        rw [awaitStep, TrafficStorage.awaitSnapshot_of_waiting hw]
      · intro hw
        exact ⟨(h.awaitStep_free hw).2, registeredAt_awaitStep hw⟩
  | _ => exact fun _ _ hreg => h.registered_step (by simp) hreg

/--
**The hand-off is safe in every run**: the flag is up exactly when one stream waits, the
pointers are then its own, a deposit writes to nothing else, and a stream stays registered until
the first deposit after its registration, whose map it sees.
-/
theorem handOff_safe (interval : Int32) (db : Database) (as : List LiveAction) :
    Always step HandOffSafe (init interval db) as ∧
      Along step HandOffStep (init interval db) as :=
  ⟨always_of_inv (fun _ a h => handOffInv_step h a) (fun _ h => h.safe) (handOffInv_init interval db),
    along_of_inv (fun _ a h => handOffInv_step h a) (fun _ a h => h.handOffStep a)
      (handOffInv_init interval db)⟩

end LiveSystem

end Ntmd
