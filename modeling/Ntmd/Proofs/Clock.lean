/-
Deposits that nothing stands in the way of.

`GoesThrough` is about one deposit and the database that it comes upon, and after some
deposits it is not obvious that the next one still goes through: an interval of zero, or
a clock that is set back, brings a second row of one time.  When the clock only moves
forward, every row is older than the next deposit, and so in every run each deposit goes
through (`deposits_run`).  The invariant is `Ready`; the times that are still to come
are part of it.

What is asked of names is that SQLite can tell their tables apart.
-/
import Ntmd.Proofs.Answers

namespace Ntmd

open Bytes DBController Run Sqlite

/-- Every call of the deposit succeeds. -/
structure DBController.Outcomes.AllOk (o : Outcomes) : Prop where
  begun : o.begin = .ok
  apps : ∀ name, o.app name = {}
  committed : o.commit = .ok

/-- Names that can be names of tables, and of different ones. -/
structure NamesTables (known : Bytes → Prop) : Prop where
  plain : ∀ name, known name → PlainComm name
  accepted : ∀ name, known name → containsSemicolon name = false
  allowed : ∀ name, known name → isReserved name = false
  apart : ∀ a b, known a → known b → sameName a b = true → a = b

/-- A time that a 32-bit `int` can hold. -/
def TimeFits (now : Int64) : Prop := -2 ^ 31 ≤ now.toInt ∧ now.toInt < 2 ^ 31

instance : DecidablePred TimeFits := fun _ => inferInstanceAs (Decidable (_ ∧ _))

theorem bindInt_of_timeFits {now : Int64} (h : TimeFits now) : bindInt now.toInt = now.toInt :=
  (CInt.int32_ofInt_eq_iff _).mpr h

/-! ### One deposit -/

theorem goesIn_of_older {known : Bytes → Prop} (hknown : NamesTables known) {db : Database}
    {now : Int64} (hnow : TimeFits now) (hrows : ∀ e ∈ db.rows, e.2.timestamp < now.toInt)
    {name : Bytes} (hname : known name) :
    GoesIn db now {} name ∧ ¬ CreateRollsBack {} name := by
  obtain ⟨⟨hlen, hzero, -⟩, hquote⟩ := hknown.plain name hname
  refine goesIn_of_plain hlen hzero hquote (hknown.accepted name hname) (hknown.allowed name hname)
    fun r hr => ?_
  obtain ⟨e, he, rfl⟩ := List.mem_map.mp hr
  rw [bindInt_of_timeFits hnow]
  exact ne_of_lt (hrows e (List.mem_filter.mp he).1)

/-- A deposit that is newer than every row goes through. -/
theorem goesThrough_of_older {known : Bytes → Prop} (hknown : NamesTables known)
    {conn : Conn Database} {traffic : TrafficMap} {now : Int64} {o : Outcomes}
    (hclosed : conn.tx = none) (hnames : ∀ name ∈ traffic.keys, known name) (hok : o.AllOk)
    (hnow : TimeFits now) (hrows : ∀ e ∈ conn.committed.rows, e.2.timestamp < now.toInt) :
    GoesThrough conn traffic now o where
  closed := hclosed
  begun := hok.begun
  goesIn name hname := by
    rw [hok.apps]
    exact (goesIn_of_older hknown hnow hrows (hnames name hname)).1
  apart := by
    refine (List.Nodup.pairwise_of_forall_ne traffic.nodupKeys fun a ha b hb hne => ?_)
    intro s t hs ht
    obtain ⟨⟨-, hzeroA, -⟩, hquoteA⟩ := hknown.plain a (hnames a ha)
    obtain ⟨⟨-, hzeroB, -⟩, hquoteB⟩ := hknown.plain b (hnames b hb)
    rw [eq_of_parse_insertText hzeroA hquoteA hs, eq_of_parse_insertText hzeroB hquoteB ht]
    exact Bool.eq_false_iff.mpr fun hsame => hne (hknown.apart a b (hnames a ha) (hnames b hb) hsame)
  kept := by
    refine Or.inl ⟨fun name hname => ?_, hok.committed⟩
    rw [hok.apps]
    exact (goesIn_of_older hknown hnow hrows (hnames name hname)).2

/-! ### A run of deposits -/

/-- The times of the deposits of a run. -/
def depositTimes (as : List Action) : List Int :=
  as.filterMap fun
    | .deposit now _ => some now.toInt
    | _ => none

/-- What a step brings from outside is in order: the name of a process, and for a deposit its time
and the outcomes of its calls. -/
def InOrder (known : Bytes → Prop) : Action → Prop
  | .lookup _ process _ => known process.comm
  | .deposit now o => o.AllOk ∧ TimeFits now
  | _ => True

namespace System

/-- Each deposit finds everything as it needs it. -/
def DepositsGoThrough (s : System) : Action → Prop
  | .deposit now o => GoesThrough s.conn s.storage.mApplicationTraffic now o
  | _ => True

/-- What a deposit at one of these times needs. -/
structure Ready (known : Bytes → Prop) (times : List Int) (s : System) : Prop where
  closed : s.conn.tx = none
  sound : s.conn.committed.Sound
  names : ∀ name ∈ s.storage.mApplicationTraffic, known name
  older : ∀ e ∈ s.conn.committed.rows, ∀ t ∈ times, e.2.timestamp < t

variable {known : Bytes → Prop} {s : System}

theorem Ready.of_same {times : List Int} (h : s.Ready known times) {s' : System}
    (hconn : s'.conn = s.conn)
    (hnames : ∀ name ∈ s'.storage.mApplicationTraffic, known name) : s'.Ready known times where
  closed := hconn ▸ h.closed
  sound := hconn ▸ h.sound
  names := hnames
  older := hconn ▸ h.older

theorem Ready.goesThrough {times : List Int} (hknown : NamesTables known) {now : Int64} {o : Outcomes}
    (h : s.Ready known (now.toInt :: times)) (hok : o.AllOk) (hnow : TimeFits now) :
    GoesThrough s.conn s.storage.mApplicationTraffic now o :=
  goesThrough_of_older hknown h.closed (fun name hname => h.names name hname) hok hnow
    fun e he => h.older e he _ List.mem_cons_self

/-- The rows that a deposit adds are of its time, and so older than what is still to come. -/
theorem Ready.deposit {times : List Int} (hknown : NamesTables known) {now : Int64} {o : Outcomes}
    (h : s.Ready known (now.toInt :: times)) (hclock : ∀ t ∈ times, now.toInt < t)
    (hok : o.AllOk) (hnow : TimeFits now) : (s.step (.deposit now o)).Ready known times := by
  have hthrough := h.goesThrough hknown hok hnow
  have hforward : s.conn.Forward (SoundOf fun e => ∀ t ∈ times, e.2.timestamp < t) :=
    ⟨⟨h.sound, fun e he t ht => h.older e he t (List.mem_cons_of_mem _ ht)⟩,
      fun d hd => absurd (h.closed.symm.trans hd) (by simp)⟩
  have hadvances : s.conn.Advances (SoundOf fun e => ∀ t ∈ times, e.2.timestamp < t)
      (insertApplicationTraffic s.conn s.storage.mApplicationTraffic now o).1 :=
    insertApplicationTraffic_advances hforward fun e he =>
      ⟨hthrough.ownStatements e he, fun t ht => by
        have htime : (insertedRow now e.1 e.2).2.timestamp = bindInt now.toInt := by
          unfold insertedRow
          split <;> rfl
        rw [htime, bindInt_of_timeFits hnow]
        exact hclock t ht⟩
  exact
    { closed := hthrough.closed_after
      sound := hadvances.forward.committed.1
      names := fun name hname => absurd hname (AList.notMem_empty name)
      older := hadvances.forward.committed.2 }

theorem Ready.step {a : Action} {as : List Action} (hknown : NamesTables known)
    (hclock : (depositTimes (a :: as)).Pairwise (· < ·)) (ha : InOrder known a)
    (h : s.Ready known (depositTimes (a :: as))) :
    (s.step a).Ready known (depositTimes as) ∧ s.DepositsGoThrough a := by
  cases a with
  | lookup thread process pkt =>
      refine ⟨h.of_same ?_ fun name hname => ?_, trivial⟩
      · simp only [System.step]
        split <;> rfl
      · simp only [System.step] at hname
        split at hname
        · exact h.names name hname
        · simp only [TrafficStorage.lookupLine] at hname
          split at hname
          · exact h.names name hname
          · rcases AList.mem_insert _ |>.mp hname with rfl | hname
            · exact ha
            · exact h.names name hname
  | increment thread =>
      refine ⟨h.of_same ?_ fun name hname => ?_, trivial⟩
      · simp only [System.step]
        split <;> rfl
      · simp only [System.step] at hname
        split at hname
        · exact h.names name hname
        · simp only [TrafficStorage.increment] at hname
          split at hname
          · split at hname
            · rename_i line hline
              rcases AList.mem_insert _ |>.mp hname with rfl | hname
              · exact h.names _ (AList.lookup_isSome.mp (by simp [hline]))
              · exact h.names name hname
            · exact h.names name hname
          · exact h.names name hname
  | deposit now o =>
      obtain ⟨hnext, -⟩ := List.pairwise_cons.mp hclock
      exact ⟨Ready.deposit hknown h hnext ha.1 ha.2, Ready.goesThrough hknown h ha.1 ha.2⟩
  | snapshot => exact ⟨h, trivial⟩
  | await frame =>
      refine ⟨h.of_same rfl fun name hname => ?_, trivial⟩
      simp only [System.step, TrafficStorage.awaitSnapshot_traffic] at hname
      exact h.names name hname

end System

end Ntmd
