/-
Where added traffic goes.

Every add ends up in a map that is deposited, or in the one still in memory, or
nowhere: between its two steps the deposit thread may clear the map, and then the
line the add holds is a line of no map.  `Conserved` says that nothing was lost.
The last section settles when that is so: exactly as long as every add takes its
second step on a line that is still there and has room for it.

The invariant behind it is `PendingHeld`: an add whose line was looked up after the
last clear still finds that line, since a map only loses lines by being cleared.
-/
import Ntmd.Lib.CInt
import Ntmd.Traffic.TrafficStorage

namespace Ntmd

open Run

/-- The four counters of a line. -/
inductive Counter
  | bytesRx
  | bytesTx
  | pktRxCount
  | pktTxCount
  deriving DecidableEq, Repr

namespace Counter

/-- The counter's value on a line. -/
def read : Counter → TrafficLine → Int
  | .bytesRx, l => l.bytesRx.toNat
  | .bytesTx, l => l.bytesTx.toNat
  | .pktRxCount, l => l.pktRxCount.toInt
  | .pktTxCount, l => l.pktTxCount.toInt

/-- What a packet adds to the counter. -/
def amount : Counter → Packet → Int
  | .bytesRx, pkt => if pkt.direction = .incoming then pkt.len.toInt else 0
  | .bytesTx, pkt => if pkt.direction = .incoming then 0 else pkt.len.toInt
  | .pktRxCount, pkt => if pkt.direction = .incoming then 1 else 0
  | .pktTxCount, pkt => if pkt.direction = .incoming then 0 else 1

/-- The values the counter's type can hold. -/
def InRange : Counter → Int → Prop
  | .bytesRx, z | .bytesTx, z => 0 ≤ z ∧ z < 2 ^ 64
  | .pktRxCount, z | .pktTxCount, z => -2 ^ 31 ≤ z ∧ z < 2 ^ 31

end Counter

/-- No counter of the line leaves its type's range when the packet is added. -/
def Fits (l : TrafficLine) (pkt : Packet) : Prop :=
  ∀ c : Counter, c.InRange (c.read l + c.amount pkt)

/-! ### One line and one packet -/

private theorem inRange_read (c : Counter) (l : TrafficLine) : c.InRange (c.read l) := by
  cases c with
  | bytesRx => have := l.bytesRx.toNat_lt; simp only [Counter.InRange, Counter.read]; omega
  | bytesTx => have := l.bytesTx.toNat_lt; simp only [Counter.InRange, Counter.read]; omega
  | pktRxCount => exact ⟨l.pktRxCount.le_toInt, l.pktRxCount.toInt_lt⟩
  | pktTxCount => exact ⟨l.pktTxCount.le_toInt, l.pktTxCount.toInt_lt⟩

/-- Adding a packet adds its amount to a counter exactly if the counter has room for it. -/
theorem read_add_iff (c : Counter) (l : TrafficLine) (pkt : Packet) :
    c.read (l.add pkt) = c.read l + c.amount pkt ↔ c.InRange (c.read l + c.amount pkt) := by
  have hself := inRange_read c l
  by_cases h : pkt.direction = .incoming
  · cases c with
    | bytesRx =>
        simpa [Counter.read, Counter.amount, Counter.InRange, TrafficLine.add, h]
          using CInt.uint64_add_ofInt_eq_iff l.bytesRx pkt.len.toInt
    | bytesTx =>
        simp only [Counter.read, Counter.amount, TrafficLine.add, h, if_true, Int.add_zero]
        exact iff_of_true trivial hself
    | pktRxCount =>
        simpa [Counter.read, Counter.amount, Counter.InRange, TrafficLine.add, h]
          using CInt.int32_succ_eq_iff l.pktRxCount
    | pktTxCount =>
        simp only [Counter.read, Counter.amount, TrafficLine.add, h, if_true, Int.add_zero]
        exact iff_of_true trivial hself
  · cases c with
    | bytesRx =>
        simp only [Counter.read, Counter.amount, TrafficLine.add, h, if_false, Int.add_zero]
        exact iff_of_true trivial hself
    | bytesTx =>
        simpa [Counter.read, Counter.amount, Counter.InRange, TrafficLine.add, h]
          using CInt.uint64_add_ofInt_eq_iff l.bytesTx pkt.len.toInt
    | pktRxCount =>
        simp only [Counter.read, Counter.amount, TrafficLine.add, h, if_false, Int.add_zero]
        exact iff_of_true trivial hself
    | pktTxCount =>
        simpa [Counter.read, Counter.amount, Counter.InRange, TrafficLine.add, h]
          using CInt.int32_succ_eq_iff l.pktTxCount

/-- A packet always counts: one of its amounts is not zero. -/
theorem exists_amount_ne_zero (pkt : Packet) : ∃ c : Counter, c.amount pkt ≠ 0 := by
  by_cases h : pkt.direction = .incoming
  · exact ⟨.pktRxCount, by simp [Counter.amount, h]⟩
  · exact ⟨.pktTxCount, by simp [Counter.amount, h]⟩

/-! ### Sums over maps -/

/-- A counter of an application in a map, zero when the application has no line. -/
def held (c : Counter) (comm : Bytes) (m : TrafficMap) : Int :=
  match m.lookup comm with
  | some l => c.read l
  | none => 0

theorem held_of_lookup {c : Counter} {comm : Bytes} {m : TrafficMap} {l : TrafficLine}
    (h : m.lookup comm = some l) : held c comm m = c.read l := by
  simp [held, h]

@[simp] theorem held_empty (c : Counter) (comm : Bytes) : held c comm ∅ = 0 := by
  simp [held]

theorem held_insert_self (c : Counter) (comm : Bytes) (l : TrafficLine) (m : TrafficMap) :
    held c comm (m.insert comm l) = c.read l := by
  simp [held]

theorem held_insert_ne (c : Counter) {comm comm' : Bytes} (l : TrafficLine) (m : TrafficMap)
    (h : comm ≠ comm') : held c comm (m.insert comm' l) = held c comm m := by
  simp [held, AList.lookup_insert_ne h]

/-- The maps deposited so far and the one in memory, together. -/
def total (c : Counter) (comm : Bytes) (s : System) : Int :=
  (s.deposited.map (held c comm)).sum + held c comm s.storage.mApplicationTraffic

/-- What the completed adds of an application come to. -/
def added (c : Counter) (comm : Bytes) (s : System) : Int :=
  ((s.completed.filter fun e => e.1 = comm).map fun e => c.amount e.2).sum

/-- No completed add is lost and none is counted twice. -/
def Conserved (s : System) : Prop := ∀ (c : Counter) (comm : Bytes), total c comm s = added c comm s

/-! ### The storage's functions -/

namespace TrafficStorage

@[simp] theorem handOff_clears (s : TrafficStorage) (frames : Nat → LiveFrame) :
    (s.handOff frames).1.clears = s.clears := by
  unfold handOff
  split
  · split <;> rfl
  · rfl

@[simp] theorem awaitSnapshot_traffic (s : TrafficStorage) (frames : Nat → LiveFrame) (f : Nat) :
    (s.awaitSnapshot frames f).2.1.mApplicationTraffic = s.mApplicationTraffic := by
  unfold awaitSnapshot
  split <;> rfl

@[simp] theorem awaitSnapshot_clears (s : TrafficStorage) (frames : Nat → LiveFrame) (f : Nat) :
    (s.awaitSnapshot frames f).2.1.clears = s.clears := by
  unfold awaitSnapshot
  split <;> rfl

@[simp] theorem lookupLine_clears (s : TrafficStorage) (p : Process) :
    (s.lookupLine p).1.clears = s.clears := by
  unfold lookupLine
  split <;> rfl

@[simp] theorem lookupLine_ref (s : TrafficStorage) (p : Process) :
    (s.lookupLine p).2 = { comm := p.comm, clears := s.clears } := by
  unfold lookupLine
  split <;> rfl

/-- Looking a line up makes an empty one at most. -/
theorem held_lookupLine (s : TrafficStorage) (p : Process) (c : Counter) (comm : Bytes) :
    held c comm (s.lookupLine p).1.mApplicationTraffic = held c comm s.mApplicationTraffic := by
  unfold lookupLine
  split
  · rfl
  · rename_i hnone
    by_cases h : comm = p.comm
    · subst h
      rw [held_insert_self]
      simp only [held, hnone]
      cases c <;> rfl
    · exact held_insert_ne c _ _ h

/-- A line looked up is there afterwards. -/
theorem mem_lookupLine (s : TrafficStorage) (p : Process) :
    p.comm ∈ (s.lookupLine p).1.mApplicationTraffic := by
  unfold lookupLine
  split
  · rename_i l h
    exact AList.lookup_isSome.mp (by simp [h])
  · exact (AList.mem_insert _).mpr (Or.inl rfl)

theorem mem_lookupLine_of_mem (s : TrafficStorage) (p : Process) {comm : Bytes}
    (h : comm ∈ s.mApplicationTraffic) : comm ∈ (s.lookupLine p).1.mApplicationTraffic := by
  unfold lookupLine
  split
  · exact h
  · exact (AList.mem_insert _).mpr (Or.inr h)

/-- A write through a line that is no longer there changes nothing. -/
theorem increment_stale {s : TrafficStorage} {line : LineRef} {pkt : Packet}
    (h : line.clears ≠ s.clears) : s.increment line pkt = s := by
  simp [increment, h]

theorem increment_live {s : TrafficStorage} {line : LineRef} {pkt : Packet} {l : TrafficLine}
    (h : line.clears = s.clears) (hl : s.mApplicationTraffic.lookup line.comm = some l) :
    s.increment line pkt =
      { s with mApplicationTraffic := s.mApplicationTraffic.insert line.comm (l.add pkt) } := by
  simp [increment, h, hl]

@[simp] theorem increment_clears (s : TrafficStorage) (line : LineRef) (pkt : Packet) :
    (s.increment line pkt).clears = s.clears := by
  unfold increment
  split
  · split <;> rfl
  · rfl

theorem mem_increment (s : TrafficStorage) (line : LineRef) (pkt : Packet) {comm : Bytes}
    (h : comm ∈ s.mApplicationTraffic) : comm ∈ (s.increment line pkt).mApplicationTraffic := by
  unfold increment
  split
  · split
    · exact (AList.mem_insert _).mpr (Or.inr h)
    · exact h
  · exact h

end TrafficStorage

/-! ### The line of a pending add -/

/-- Line references are of the past, and one taken since the last clear is to a line in the map. -/
def PendingHeld (s : System) : Prop :=
  ∀ thread p, s.pending thread = some p →
    p.line.clears ≤ s.storage.clears ∧
      (p.line.clears = s.storage.clears → p.line.comm ∈ s.storage.mApplicationTraffic)

theorem pendingHeld_step (s : System) (a : Action) (h : PendingHeld s) : PendingHeld (s.step a) := by
  cases a with
  | lookup thread process pkt =>
      simp only [System.step]
      split
      · exact h
      · intro t p hp
        by_cases ht : t = thread
        · subst ht
          simp only [Function.update_self, Option.some.injEq] at hp
          subst hp
          simp only [TrafficStorage.lookupLine_ref, TrafficStorage.lookupLine_clears]
          exact ⟨Nat.le_refl _, fun _ => s.storage.mem_lookupLine process⟩
        · simp only [Function.update_of_ne ht] at hp
          obtain ⟨hle, hmem⟩ := h t p hp
          simp only [TrafficStorage.lookupLine_clears]
          exact ⟨hle, fun hc => s.storage.mem_lookupLine_of_mem process (hmem hc)⟩
  | increment thread =>
      simp only [System.step]
      split
      · exact h
      · intro t p hp
        by_cases ht : t = thread
        · subst ht
          simp at hp
        · simp only [Function.update_of_ne ht] at hp
          obtain ⟨hle, hmem⟩ := h t p hp
          simp only [TrafficStorage.increment_clears]
          exact ⟨hle, fun hc => s.storage.mem_increment _ _ (hmem hc)⟩
  | deposit now o =>
      intro t p hp
      obtain ⟨hle, -⟩ := h t p hp
      simp only [System.step, System.depositIteration, TrafficStorage.clear,
        TrafficStorage.handOff_clears]
      exact ⟨by omega, fun hc => absurd hc (by omega)⟩
  | snapshot => exact h
  | await frame =>
      intro t p hp
      simpa [System.step] using h t p hp

/-! ### When nothing is lost -/

/--
An add that ends finds its line as it left it: no clear has come since it was looked
up, and the line has room for the packet.
-/
def AddIntact (s : System) : Action → Prop
  | .increment thread =>
      ∀ p, s.pending thread = some p →
        p.line.clears = s.storage.clears ∧
          ∀ l, s.storage.mApplicationTraffic.lookup p.line.comm = some l → Fits l p.pkt
  | _ => True

theorem total_increment_live {s : System} {thread : Nat} {p : PendingAdd} {l : TrafficLine}
    (hp : s.pending thread = some p) (hc : p.line.clears = s.storage.clears)
    (hl : s.storage.mApplicationTraffic.lookup p.line.comm = some l) (c : Counter) (comm : Bytes) :
    total c comm (s.step (.increment thread)) =
      total c comm s + if p.line.comm = comm then c.read (l.add p.pkt) - c.read l else 0 := by
  simp only [System.step, hp, total, TrafficStorage.increment_live hc hl]
  by_cases h : p.line.comm = comm
  · subst h
    rw [held_insert_self, if_pos rfl, held_of_lookup hl]
    omega
  · rw [held_insert_ne c _ _ (fun hc => h hc.symm), if_neg h]
    omega

theorem added_increment {s : System} {thread : Nat} {p : PendingAdd}
    (hp : s.pending thread = some p) (c : Counter) (comm : Bytes) :
    added c comm (s.step (.increment thread)) =
      added c comm s + if p.line.comm = comm then c.amount p.pkt else 0 := by
  simp only [System.step, hp, added, List.filter_append, List.map_append, List.sum_append]
  by_cases h : p.line.comm = comm <;> simp [h]

/-- The second step of an add keeps the balance exactly if the add is intact. -/
theorem conserved_increment_iff {s : System} (hI : PendingHeld s) (hP : Conserved s)
    (thread : Nat) :
    Conserved (s.step (.increment thread)) ↔ AddIntact s (.increment thread) := by
  cases hp : s.pending thread with
  | none =>
      have hs : s.step (.increment thread) = s := by simp [System.step, hp]
      rw [hs]
      exact ⟨fun _ p h => by rw [hp] at h; exact absurd h (by simp), fun _ => hP⟩
  | some p =>
      by_cases hc : p.line.clears = s.storage.clears
      · obtain ⟨l, hl⟩ := Option.isSome_iff_exists.mp
          (AList.lookup_isSome.mpr ((hI thread p hp).2 hc))
        have hbal : ∀ c comm, total c comm (s.step (.increment thread))
              = added c comm (s.step (.increment thread)) ↔
            (p.line.comm = comm → c.InRange (c.read l + c.amount p.pkt)) := by
          intro c comm
          rw [total_increment_live hp hc hl, added_increment hp, hP c comm, ← read_add_iff]
          by_cases h : p.line.comm = comm
          · simp only [h, if_true, forall_const]
            omega
          · simp [h]
        constructor
        · intro h p' hp'
          obtain rfl : p = p' := by rw [hp] at hp'; exact Option.some.inj hp'
          refine ⟨hc, fun l' hl' c => ?_⟩
          obtain rfl : l = l' := by rw [hl] at hl'; exact Option.some.inj hl'
          exact (hbal c p.line.comm).mp (h c p.line.comm) rfl
        · intro h c comm
          exact (hbal c comm).mpr fun _ => (h p hp).2 l hl c
      · -- The line is gone: the add is recorded and nothing else changes.
        constructor
        · intro h
          obtain ⟨c, hne⟩ := exists_amount_ne_zero p.pkt
          have hstale : total c p.line.comm (s.step (.increment thread))
              = total c p.line.comm s := by
            simp only [System.step, hp, total, TrafficStorage.increment_stale hc]
          have := h c p.line.comm
          rw [hstale, added_increment hp, hP c p.line.comm, if_pos rfl] at this
          omega
        · intro h
          exact absurd (h p hp).1 hc

theorem conserved_of_unchanged {s s' : System} (hP : Conserved s)
    (ht : ∀ c comm, total c comm s' = total c comm s) (ha : s'.completed = s.completed) :
    Conserved s' := by
  intro c comm
  rw [ht, hP c comm, added, added, ha]

theorem total_lookup (s : System) (thread : Nat) (process : Process) (pkt : Packet) (c : Counter)
    (comm : Bytes) : total c comm (s.step (.lookup thread process pkt)) = total c comm s := by
  simp only [System.step]
  split
  · rfl
  · simp [total, TrafficStorage.held_lookupLine]

/-- A deposit moves the map in memory to the deposited ones. -/
theorem total_deposit (s : System) (now : Int64) (o : DBController.Outcomes) (c : Counter)
    (comm : Bytes) : total c comm (s.step (.deposit now o)) = total c comm s := by
  simp [System.step, System.depositIteration, total, TrafficStorage.clear]

theorem total_await (s : System) (frame : Nat) (c : Counter) (comm : Bytes) :
    total c comm (s.step (.await frame)) = total c comm s := by
  simp [System.step, total]

theorem conserved_step_iff (s : System) (a : Action) (hI : PendingHeld s) (hP : Conserved s) :
    Conserved (s.step a) ↔ AddIntact s a := by
  cases a with
  | lookup thread process pkt =>
      have hc : (s.step (.lookup thread process pkt)).completed = s.completed := by
        simp only [System.step]
        split <;> rfl
      exact iff_of_true (conserved_of_unchanged hP (total_lookup s thread process pkt) hc) trivial
  | increment thread => exact conserved_increment_iff hI hP thread
  | deposit now o =>
      exact iff_of_true (conserved_of_unchanged hP (total_deposit s now o) rfl) trivial
  | snapshot => exact iff_of_true hP trivial
  | await frame => exact iff_of_true (conserved_of_unchanged hP (total_await s frame) rfl) trivial

/--
**Traffic is conserved in every state of a run exactly if every add of the run is
intact**: no deposit comes between its two steps, and its line has room for it.
-/
theorem conserved_run_iff (interval : Int32) (db : Database) (as : List Action) :
    Always System.step Conserved (System.init interval db) as
      ↔ Along System.step AddIntact (System.init interval db) as := by
  refine always_iff_along (I := PendingHeld) pendingHeld_step conserved_step_iff ?_ ?_
  · intro thread p hp
    exact absurd hp (by simp [System.init])
  · intro c comm
    simp [System.init, total, added]

/-- An add that is overtaken by a deposit: a packet of one hundred bytes is lost. -/
theorem not_conserved_overtaken :
    ¬ ∀ (interval : Int32) (db : Database) (as : List Action),
      Always System.step Conserved (System.init interval db) as := by
  intro h
  have hrun := (h 10 Database.empty
    [.lookup 0 { comm := Bytes.ascii "ssh", pid := 7 } { len := 100, direction := .incoming },
     .deposit 1672549200 {}, .increment 0]).last
  exact absurd (hrun .bytesRx (Bytes.ascii "ssh")) (by decide)

end Ntmd
