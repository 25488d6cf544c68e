/-
What the clients of the running daemon are told.

A request is answered from what the storage and the database held when it was
accepted.  The threads of the monitor have kept a ledger by then (`books_exec`), the
handler has made a text of it, and the client reads the text: `told_run` puts the three
together.  A snapshot says what each application has since the last deposit, and the
three queries what it had in their windows.

That the text is on this client's connection and nothing else is, is `Conversation`.
-/
import Ntmd.Proofs.Streams

namespace Ntmd

open Bytes DBController Run Sqlite

namespace Service

variable {w : Writers} {s : Service}

/-! ### The daemon as the loop of the API sees it -/

/-- The threads of the monitor record what they are given. -/
def Recorded (s : Service) : ServiceAction → Prop
  | .monitor a => s.dead = false → a.own = true → s.monitor.Recorded a
  | _ => True

/-- What a step credits or closes. -/
def bookEvents (s : Service) (a : ServiceAction) : List BookEvent :=
  if s.dead then []
  else
    match a with
    | .monitor a => if a.own then s.monitor.bookEvents a else []
    | _ => []

/-- The ledger of a run that begins with a database. -/
def ledgerOf (w : Writers) (s : Service) (db : Database) (as : List ServiceAction) : Book :=
  exec Ledger.post db.book (trace (step w) bookEvents s as)

theorem sysActions_await (m : Monitor) (frame : Nat) :
    m.sysActions (.await frame) = [] ∨ m.sysActions (.await frame) = [.await frame] := by
  simp only [Monitor.sysActions]
  split
  · exact Or.inl rfl
  · exact Or.inr rfl

theorem bookEvents_await (m : Monitor) (frame : Nat) : m.bookEvents (.await frame) = [] := by
  rcases sysActions_await m frame with h | h <;> rw [Monitor.bookEvents, h] <;> rfl

/-- A registration is nothing to the books. -/
theorem books_await {m : Monitor} {l : Book} (h : m.sys.Books l) (frame : Nat) :
    (m.step (.await frame)).sys.Books l := by
  have hrecorded : m.Recorded (.await frame) := by
    refine ⟨trivial, ?_⟩
    rcases sysActions_await m frame with hactions | hactions <;> rw [hactions]
    · exact trivial
    · exact ⟨trivial, trivial⟩
  have hbooks := Monitor.books_step h hrecorded
  rwa [bookEvents_await, exec_nil] at hbooks

/-- Everything that a step does to the monitor: one of its own steps, or something for a stream. -/
theorem step_monitor_cases (w : Writers) (s : Service) (a : ServiceAction) :
    (∃ m, a = .monitor m ∧ s.dead = false ∧ m.own = true ∧
      (s.step w a).monitor = s.monitor.step m) ∨
    ((∀ m, a = .monitor m → s.dead = true ∨ m.own = false) ∧
      ((s.step w a).monitor = s.monitor ∨
        (∃ frame, (s.step w a).monitor = s.monitor.step (.await frame)) ∨
        ∃ frames, (s.step w a).monitor =
          { s.monitor with sys := { s.monitor.sys with frames := frames } })) := by
  cases hdead : s.dead with
  | true => exact Or.inr ⟨fun _ _ => Or.inl rfl, Or.inl (by simp [step, hdead])⟩
  | false =>
      cases a with
      | monitor m =>
          cases hown : m.own with
          | true => exact Or.inl ⟨m, rfl, rfl, hown, by simp [step, hdead, hown]⟩
          | false =>
              refine Or.inr ⟨?_, Or.inl (by simp [step, hdead, hown])⟩
              intro m' hm
              obtain rfl := ServiceAction.monitor.inj hm
              exact Or.inr hown
      | accept r other midnight => exact Or.inr ⟨by simp, Or.inl (by simp [step, hdead])⟩
      | disconnect conn => exact Or.inr ⟨by simp, Or.inl (by simp [step, hdead])⟩
      | advance conn ok =>
          refine Or.inr ⟨by simp, ?_⟩
          simp only [step, hdead, Bool.false_eq_true, if_false]
          unfold Service.advance
          cases s.api.conns[conn]? with
          | none => exact Or.inl rfl
          | some c =>
              dsimp only
              cases c.pc with
              | await kind =>
                  dsimp only
                  cases s.frame conn with
                  | none =>
                      dsimp only
                      unfold Service.register
                      split
                      · exact Or.inr (Or.inl ⟨s.nextFrame, rfl⟩)
                      · exact Or.inl rfl
                  | some frame =>
                      dsimp only
                      split
                      · exact Or.inl rfl
                      · exact Or.inr (Or.inr ⟨_, rfl⟩)
              | _ => exact Or.inl rfl

theorem bookEvents_of_own {m : MonitorAction} (hdead : s.dead = false) (hown : m.own = true) :
    s.bookEvents (.monitor m) = s.monitor.bookEvents m := by simp [bookEvents, hdead, hown]

theorem bookEvents_of_not_own {a : ServiceAction}
    (h : ∀ m, a = .monitor m → s.dead = true ∨ m.own = false) : s.bookEvents a = [] := by
  cases hdead : s.dead with
  | true => simp [bookEvents, hdead]
  | false =>
      cases a with
      | monitor m => simp [bookEvents, hdead, (h m rfl).resolve_left (by simp [hdead])]
      | _ => simp [bookEvents]

theorem books_step {l : Book} (h : s.monitor.sys.Books l) {a : ServiceAction} (ha : s.Recorded a) :
    (s.step w a).monitor.sys.Books (exec Ledger.post l (s.bookEvents a)) := by
  rcases s.step_monitor_cases w a with ⟨m, rfl, hdead, hown, hstep⟩ | ⟨hnot, hstep⟩
  · rw [hstep, bookEvents_of_own hdead hown]
    exact Monitor.books_step h (ha hdead hown)
  · rw [bookEvents_of_not_own hnot, exec_nil]
    rcases hstep with hstep | ⟨frame, hstep⟩ | ⟨frames, hstep⟩ <;> rw [hstep]
    · exact h
    · exact books_await h frame
    · exact ⟨h.pending, h.closed, h.sound, h.memory, h.stored⟩

theorem books_exec {l : Book} (h : s.monitor.sys.Books l) {as : List ServiceAction}
    (hrecorded : Along (step w) Recorded s as) :
    (exec (step w) s as).monitor.sys.Books
      (exec Ledger.post l (trace (step w) bookEvents s as)) :=
  follows (R := fun s l => s.monitor.sys.Books l) (fun _ _ _ hR ha => books_step hR ha) h hrecorded

/-- A step of a monitor's own thread, as long as the API is up. -/
theorem step_monitor {a : MonitorAction} (hdown : s.api.down = none) (ha : a.own = true) :
    s.step w (.monitor a) = { s with monitor := s.monitor.step a } := by
  unfold step
  cases hfault : s.monitor.fault with
  | none => simp [dead, hfault, hdown, ha]
  | some e =>
      rw [Monitor.step_of_fault (by simp [hfault])]
      simp [dead, hfault]

/-- The threads of the monitor go on as they do without the API, and record what they record. -/
theorem exec_monitor : ∀ {as : List MonitorAction} {s : Service}, s.api.down = none →
    (∀ a ∈ as, a.own = true) → exec (step w) s (as.map .monitor) =
      { s with monitor := exec Monitor.step s.monitor as } ∧
        (Along Monitor.step Monitor.Recorded s.monitor as →
          Along (step w) Recorded s (as.map .monitor)) := by
  intro as
  induction as with
  | nil => intro s _ _; exact ⟨rfl, fun _ => trivial⟩
  | cons a as ih =>
      intro s hdown hown
      have hrest := @ih { s with monitor := s.monitor.step a } hdown fun b hb =>
        hown b (List.mem_cons_of_mem _ hb)
      have hstep := step_monitor (w := w) hdown (hown a List.mem_cons_self)
      refine ⟨?_, fun h => ⟨fun _ _ => h.1, hstep ▸ hrest.2 h.2⟩⟩
      rw [List.map_cons, exec_cons, hstep]
      exact hrest.1

/-- A writer that refuses nothing. -/
def plainWriters : Writers where
  dump j := some j.render
  bytesToHumanOvertime _ _ := ascii "0.0 B/s"

/-- What a client writes that asks for everything. -/
def sinceRequest : ReadResult := .bytes (ascii "traffic-since 0") (by decide)

end Service

end Ntmd
