/-
What is lost when a life of the daemon ends.

Everything that was captured is in a table, in the map or in the packet that is being
added, and the last two are gone with the life.  So over any number of lives the tables
have what was captured but for what each of the lives had not deposited
(`accounted_lives`).

A packet that is being added is lost only when the daemon does not end by itself: the
loop looks at its flags only between two calls of `dispatch`, and no call returns from
the middle of a packet.
-/
import Ntmd.Proofs.Lifetimes
import Ntmd.Proofs.Signals

namespace Ntmd

open Bytes DBController Run Sqlite

namespace Service

variable {w : Writers} {s : Service} {names : Bytes → Bool} {mine : CapturedFrame → Bool}

/-- The frame that a step takes in. -/
def taken (s : Service) (a : ServiceAction) : List CapturedFrame :=
  if s.dead then []
  else
    match a with
    | .monitor m => if m.own then s.monitor.taken m else []
    | _ => []

/-- The frames that are mine, and no others, go to applications with these names. -/
def AttributedAs (names : Bytes → Bool) (mine : CapturedFrame → Bool) (s : Service) :
    ServiceAction → Prop
  | .monitor m => s.monitor.AttributedAs names mine m
  | _ => True

theorem taken_of_own {m : MonitorAction} (hdead : s.dead = false) (hown : m.own = true) :
    s.taken (.monitor m) = s.monitor.taken m := by simp [taken, hdead, hown]

theorem taken_of_not_own {a : ServiceAction}
    (h : ∀ m, a = .monitor m → s.dead = true ∨ m.own = false) : s.taken a = [] := by
  cases hdead : s.dead with
  | true => simp [taken, hdead]
  | false =>
      cases a with
      | monitor m => simp [taken, hdead, (h m rfl).resolve_left (by simp [hdead])]
      | _ => simp [taken]

theorem pending_await (m : Monitor) (frame : Nat) :
    (m.step (.await frame)).pendingAmounts names = m.pendingAmounts names := by
  have hpending := @Monitor.pending_step names (fun _ => true) m (.await frame) trivial trivial
  rw [bookEvents_await] at hpending
  simpa [Monitor.taken] using hpending

theorem step_mIPList (w : Writers) (s : Service) (a : ServiceAction) :
    (s.step w a).monitor.mIPList = s.monitor.mIPList := by
  rcases s.step_monitor_cases w a with ⟨m, -, -, -, hstep⟩ |
    ⟨-, hstep | ⟨frame, hstep⟩ | ⟨frames, hstep⟩⟩ <;> rw [hstep]
  · exact s.monitor.step_mIPList m
  · exact s.monitor.step_mIPList (.await frame)

theorem pending_step {a : ServiceAction} (ha : s.Recorded a) (hmine : s.AttributedAs names mine a) :
    (s.step w a).monitor.pendingAmounts names + ((s.bookEvents a).map (Ledger.creditOf names)).sum =
      s.monitor.pendingAmounts names +
        ((s.taken a).map (Monitor.amountsOfFrame s.monitor.mIPList.contains mine)).sum := by
  rcases s.step_monitor_cases w a with ⟨m, rfl, hdead, hown, hstep⟩ | ⟨hnot, hstep⟩
  · rw [hstep, bookEvents_of_own hdead hown, taken_of_own hdead hown]
    exact s.monitor.pending_step m (ha hdead hown).1 hmine
  · rw [bookEvents_of_not_own hnot, taken_of_not_own hnot]
    refine congrArg (· + (0 : Amounts)) ?_
    rcases hstep with hstep | ⟨frame, hstep⟩ | ⟨frames, hstep⟩ <;> rw [hstep]
    · exact pending_await s.monitor frame
    · rfl

/-- What a run takes in is pending or credited. -/
theorem pending_credited {as : List ServiceAction} (h : Along (step w) Recorded s as)
    (hmine : Along (step w) (AttributedAs names mine) s as) :
    (exec (step w) s as).monitor.pendingAmounts names +
        ((trace (step w) bookEvents s as).map (Ledger.creditOf names)).sum =
      s.monitor.pendingAmounts names +
        ((trace (step w) taken s as).map
          (Monitor.amountsOfFrame s.monitor.mIPList.contains mine)).sum := by
  have hboth : Along (step w) (fun s a => s.Recorded a ∧ s.AttributedAs names mine a) s as :=
    (along_of_guard (I := fun _ => True) (fun _ _ _ ha => ⟨trivial, fun hm => ⟨ha, hm⟩⟩) trivial
      h).mp hmine
  have hstep : ∀ (t : Service) a, t.monitor.mIPList = s.monitor.mIPList →
      t.Recorded a ∧ t.AttributedAs names mine a →
        (t.step w a).monitor.mIPList = s.monitor.mIPList ∧
          (t.step w a).monitor.pendingAmounts names +
              ((t.bookEvents a).map (Ledger.creditOf names)).sum =
            t.monitor.pendingAmounts names +
              ((t.taken a).map (Monitor.amountsOfFrame s.monitor.mIPList.contains mine)).sum := by
    intro t a ht ha
    refine ⟨(t.step_mIPList w a).trans ht, ?_⟩
    rw [← ht]
    exact pending_step ha.1 ha.2
  exact (balance_exec (μ := fun t : Service => t.monitor.pendingAmounts names) hstep rfl hboth).2

/-- Only the two steps of `pktCallback` begin or end an add. -/
theorem busy_step {a : ServiceAction} (h : a.inDispatch = false) :
    (s.step w a).monitor.busy = s.monitor.busy := by
  rcases s.step_monitor_cases w a with ⟨m, rfl, -, hown, hstep⟩ |
    ⟨-, hstep | ⟨frame, hstep⟩ | ⟨frames, hstep⟩⟩ <;> rw [hstep]
  · unfold Monitor.step
    split
    · rfl
    · cases m with
      | frame f net proc => exact absurd h (by simp [ServiceAction.inDispatch])
      | increment => exact absurd h (by simp [ServiceAction.inDispatch])
      | await frame => exact absurd hown (by simp [MonitorAction.own])
      | _ => rfl
  · unfold Monitor.step
    split <;> rfl
  · rfl

end Service

namespace Program

variable {w : Writers} {p : Program}

/-- Out of `dispatch`, no packet is being added. -/
def FreeOutside (p : Program) : Prop := p.pc ≠ .dispatch → p.service.monitor.busy = false

theorem freeOutside_step (h : p.FreeOutside) (a : ProgramAction) : (p.step w a).FreeOutside := by
  by_cases hgone : p.gone = true
  · rw [step_of_gone hgone]
    exact h
  · have hgone' : p.gone = false := by simpa using hgone
    cases a with
    | main =>
        rw [step_main hgone']
        intro hpc
        rw [p.main_service]
        by_cases hdispatch : p.pc = .dispatch
        · by_contra hbusy
          exact hpc (by simp [main, hdispatch, hbusy])
        · exact h hdispatch
    | signal sig =>
        rw [step_signal hgone', FreeOutside, signal_pc]
        unfold signal
        split
        · exact h
        · exact h
    | service a =>
        intro hpc
        rw [(step_service w p a).2] at hpc
        have hfree := h hpc
        cases hin : a.inDispatch with
        | true => simpa [step, hgone', hin, hpc] using hfree
        | false =>
            have hstep : (p.step w (.service a)).service = p.service.step w a := by
              simp [step, hgone', hin]
            rw [hstep, Service.busy_step hin]
            exact hfree

end Program

namespace Life

variable {w : Writers} {db : Database} {life : Life} {names : Bytes → Bool}
  {mine : CapturedFrame → Bool}

/-- The frames that a life takes in. -/
def taken (w : Writers) (db : Database) (life : Life) : List CapturedFrame :=
  trace (Service.step w) Service.taken (life.start db).service
    (trace (Program.step w) Program.serviceActions (life.start db) life.steps)

/-- My frames are attributed to these names, in a whole life. -/
def AttributedAs (w : Writers) (names : Bytes → Bool) (mine : CapturedFrame → Bool) (db : Database)
    (life : Life) : Prop :=
  Along (Service.step w) (Service.AttributedAs names mine) (life.start db).service
    (trace (Program.step w) Program.serviceActions (life.start db) life.steps)

/-- What a life takes in that counts for the names. -/
def counted (w : Writers) (mine : CapturedFrame → Bool) (db : Database) (life : Life) : Amounts :=
  fun c => Sniffer.counted life.iplist.contains c ((life.taken w db).filter mine)

/-- What is in memory when a life ends; a loop that has ended has not left a packet behind. -/
def lost (w : Writers) (names : Bytes → Bool) (db : Database) (life : Life) : Amounts :=
  (life.final w db).service.monitor.sys.storage.mApplicationTraffic.amountsOf names +
    if (life.final w db).pc = .ended then 0
    else (life.final w db).service.monitor.pendingAmounts names

theorem pendingAmounts_of_ended (h : (life.final w db).pc = .ended) :
    (life.final w db).service.monitor.pendingAmounts names = 0 := by
  have hfree : (life.final w db).FreeOutside :=
    (always_of_inv (P := Program.FreeOutside) (fun p a hp => Program.freeOutside_step hp a)
      (fun _ hp => hp) (fun _ => rfl)).last
  have hbusy := hfree (by simp [h])
  unfold Monitor.busy at hbusy
  have hnone : (life.final w db).service.monitor.sys.pending Monitor.captureThread = none := by
    simpa using hbusy
  rw [Monitor.pendingAmounts, hnone]

theorem lost_eq (w : Writers) (names : Bytes → Bool) (db : Database) (life : Life) :
    life.lost w names db =
      (life.final w db).service.monitor.sys.storage.mApplicationTraffic.amountsOf names +
        (life.final w db).service.monitor.pendingAmounts names := by
  by_cases hended : (life.final w db).pc = .ended
  · rw [lost, if_pos hended, pendingAmounts_of_ended hended]
  · rw [lost, if_neg hended]

/-- **One life** adds what it takes in to the tables, but for what it loses. -/
theorem accounted_life (hdb : db.Sound) (hlife : life.Recorded w db)
    (hmine : life.AttributedAs w names mine db) :
    (life.leaves w db).book.history names (fun _ => true) + life.lost w names db =
      db.book.history names (fun _ => true) + life.counted w mine db := by
  have hbooks := Program.books_exec ((keeps_start hdb).books life) hlife
  have hpending := Service.pending_credited (Program.recorded_service hlife) hmine
  rw [← Program.service_exec] at hpending
  have hstart : (life.start db).service.monitor.pendingAmounts names = 0 := rfl
  have hcounted : ((life.taken w db).map
      (Monitor.amountsOfFrame life.iplist.contains mine)).sum = life.counted w mine db :=
    Monitor.sum_amountsOfFrame _ _ _
  have hcredited : (life.final w db).service.monitor.pendingAmounts names +
      ((life.bookEvents w db).map (Ledger.creditOf names)).sum = life.counted w mine db := by
    rw [hstart, zero_add] at hpending
    rw [← hcounted]
    exact hpending
  calc (life.leaves w db).book.history names (fun _ => true) + life.lost w names db
      = (exec Ledger.post db.book (life.bookEvents w db)).history names (fun _ => true) +
          ((exec Ledger.post db.book (life.bookEvents w db)).balance names +
            (life.final w db).service.monitor.pendingAmounts names) := by
        rw [lost_eq]
        exact congrArg₂ (· + ·) (hbooks.stored names _)
          (congrArg (· + _) (hbooks.memory names))
    _ = db.book.history names (fun _ => true) + db.book.balance names +
          ((life.bookEvents w db).map (Ledger.creditOf names)).sum +
            (life.final w db).service.monitor.pendingAmounts names := by
        rw [← add_assoc, Ledger.settled_add_balance]
    _ = db.book.history names (fun _ => true) + db.book.balance names + life.counted w mine db := by
        rw [← hcredited]
        ac_rfl
    _ = _ := by rw [(keeps_start hdb).empty, add_zero]

/--
**Over all lives of the daemon, the tables have what was captured but for what each life had not
deposited when it ended**, for any set of names and the frames that go to them.
-/
theorem accounted_lives (w : Writers) (names : Bytes → Bool) (mine : CapturedFrame → Bool)
    (db : Database) (hdb : db.Sound) (lives : List Life)
    (h : Along (leaves w) (fun db life => life.Recorded w db ∧ life.AttributedAs w names mine db) db
      lives) :
    (exec (leaves w) db lives).book.history names (fun _ => true) +
        (trace (leaves w) (fun db life => [life.lost w names db]) db lives).sum =
      db.book.history names (fun _ => true) +
        (trace (leaves w) (fun db life => [life.counted w mine db]) db lives).sum := by
  have hstep : ∀ (db : Database) (life : Life), db.Sound →
      life.Recorded w db ∧ life.AttributedAs w names mine db →
        (life.leaves w db).Sound ∧
          (life.leaves w db).book.history names (fun _ => true) +
              ([life.lost w names db].map id).sum =
            db.book.history names (fun _ => true) + ([life.counted w mine db].map id).sum := by
    intro db life hsound hboth
    refine ⟨((keeps_start hsound).leaves hboth.1).sound, ?_⟩
    simpa using accounted_life hsound hboth.1 hboth.2
  have hrun := (balance_exec (μ := fun db => db.book.history names (fun _ => true)) hstep hdb h).2
  simpa using hrun

theorem attributedAs_all (w : Writers) (db : Database) (life : Life) :
    life.AttributedAs w (fun _ => true) (fun _ => true) db := by
  have hstep : ∀ (s : Service) a, s.AttributedAs (fun _ => true) (fun _ => true) a := by
    intro s a
    cases a with
    | monitor m => exact s.monitor.attributedAs_all m
    | _ => trivial
  exact along_of_inv (I := fun _ => True) (fun _ _ _ => trivial) (fun s a _ => hstep s a) trivial

theorem accounted_lives_two :
    (exec (leaves Service.plainWriters) Database.empty [firstLife, secondLife]).book.history
          (fun _ => true) (fun _ => true) +
        (trace (leaves Service.plainWriters) (fun db life =>
          [life.lost Service.plainWriters (fun _ => true) db]) Database.empty
            [firstLife, secondLife]).sum =
      Database.empty.book.history (fun _ => true) (fun _ => true) +
        (trace (leaves Service.plainWriters) (fun db life =>
          [life.counted Service.plainWriters (fun _ => true) db]) Database.empty
            [firstLife, secondLife]).sum :=
  accounted_lives Service.plainWriters (fun _ => true) (fun _ => true) Database.empty
    System.sound_empty [firstLife, secondLife]
    ⟨⟨recorded_firstLife, attributedAs_all _ _ _⟩, ⟨recorded_secondLife _, attributedAs_all _ _ _⟩,
      trivial⟩

end Life

end Ntmd
