/-
What the loop of `main` makes of the signals.

A handler only writes a flag, so a signal is heard when `running` looks at its flag,
and `running` clears one of them.  Whether a SIGHUP can be lost between the look and
the clearing, and how long the daemon goes on after a SIGTERM, depends on where the
signal comes in between the steps.

`Moves` is everything that a step can do to the flags and to the loop.  The results
about a whole run each follow from one quantity that a step bounds: the reloads that
are owed, and the events that may still come before a flag is looked at.
-/
import Mathlib.Algebra.BigOperators.Group.List.Basic
import Mathlib.Algebra.Group.Action.Defs
import Ntmd.Daemon
import Ntmd.Lib.Trace

namespace Ntmd

open Run Sqlite

namespace Program

inductive Event
  | hup
  | stop
  | reload
  /-- `dispatch` is called once more. -/
  | dispatch
  /-- The loop ends. -/
  | ended
  deriving DecidableEq, Repr

/-- What a step tells. -/
def events (p : Program) (a : ProgramAction) : List Event :=
  if p.gone then []
  else
    match a with
    | .main =>
        match p.pc with
        | .reload => [.reload]
        | .test => if p.daemon.mIsRunning then [] else [.ended]
        | .call => [.dispatch]
        | _ => []
    | .signal .sigint => [.stop]
    | .signal .sigterm => [.stop]
    | .signal .sighup => [.hup]
    | .signal .sigpipe => []
    | .service _ => []

/-- The step that the thread of `main` takes in its loop, by where it is. -/
def mainSteps (p : Program) (a : ProgramAction) : List MainPc :=
  match a with
  | .main => if p.gone || p.pc = .dispatch && p.service.monitor.busy then [] else [p.pc]
  | _ => []

/-- Everything that a step can do to the flags and to the loop, and what it tells. -/
inductive Moves : Daemon → MainPc → List Event → Daemon → MainPc → Prop
  | stay (d : Daemon) (pc : MainPc) : Moves d pc [] d pc
  | look (d : Daemon) : Moves d .running [] d (if d.mReload then .clear else .test)
  | clear (d : Daemon) : Moves d .clear [] { d with mReload := false } .reload
  | reload (d : Daemon) : Moves d .reload [.reload] d .test
  | again (d : Daemon) (h : d.mIsRunning = true) : Moves d .test [] d .call
  | leave (d : Daemon) (h : d.mIsRunning = false) : Moves d .test [.ended] d .ended
  | call (d : Daemon) : Moves d .call [.dispatch] d .dispatch
  | back (d : Daemon) : Moves d .dispatch [] d .running
  | hup (d : Daemon) (pc : MainPc) : Moves d pc [.hup] { d with mReload := true } pc
  | stop (d : Daemon) (pc : MainPc) : Moves d pc [.stop] { d with mIsRunning := false } pc

variable {w : Writers} {p : Program}

theorem step_of_gone (h : p.gone = true) (a : ProgramAction) : p.step w a = p := by
  unfold step
  exact if_pos h

theorem events_of_gone (h : p.gone = true) (a : ProgramAction) : p.events a = [] := by
  unfold events
  exact if_pos h

theorem step_main (h : p.gone = false) : p.step w .main = p.main := by simp [step, h]

theorem step_signal (h : p.gone = false) (sig : Signal) :
    p.step w (.signal sig) = p.signal sig := by simp [step, h]

/-- The service takes its steps without the flags and the loop. -/
theorem step_service (w : Writers) (p : Program) (a : ServiceAction) :
    (p.step w (.service a)).daemon = p.daemon ∧ (p.step w (.service a)).pc = p.pc := by
  by_cases hgone : p.gone = true
  · rw [step_of_gone hgone]
    exact ⟨rfl, rfl⟩
  · by_cases hout : (a.inDispatch && p.pc != .dispatch) = true
    · simp [step, hgone, hout]
    · simp [step, hgone, hout]

theorem signal_pc (p : Program) (sig : Signal) : (p.signal sig).pc = p.pc := by
  unfold signal
  split <;> rfl

theorem moves_main (hgone : p.gone = false) :
    Moves p.daemon p.pc (p.events .main) p.main.daemon p.main.pc := by
  unfold main events
  rw [hgone]
  cases hpc : p.pc with
  | running => exact .look p.daemon
  | clear => exact .clear p.daemon
  | reload => exact .reload p.daemon
  | test =>
      cases hrunning : p.daemon.mIsRunning with
      | true => exact .again p.daemon hrunning
      | false => exact .leave p.daemon hrunning
  | call => exact .call p.daemon
  | dispatch =>
      by_cases hbusy : p.service.monitor.busy = true
      · simp only [hbusy, if_true, hpc]
        exact .stay p.daemon .dispatch
      · simp only [hbusy]
        exact .back p.daemon
  | ended =>
      simp only [hpc]
      exact .stay p.daemon .ended

theorem moves_step (w : Writers) (p : Program) (a : ProgramAction) :
    Moves p.daemon p.pc (p.events a) (p.step w a).daemon (p.step w a).pc := by
  by_cases hgone : p.gone = true
  · rw [events_of_gone hgone, step_of_gone hgone]
    exact .stay p.daemon p.pc
  · have hgone' : p.gone = false := by simpa using hgone
    cases a with
    | main =>
        rw [step_main hgone']
        exact moves_main hgone'
    | signal sig =>
        rw [step_signal hgone']
        unfold events
        rw [hgone']
        cases sig with
        | sigint => exact .stop p.daemon p.pc
        | sigterm => exact .stop p.daemon p.pc
        | sighup => exact .hup p.daemon p.pc
        | sigpipe => exact .stay p.daemon p.pc
    | service a =>
        have hevents : p.events (.service a) = [] := by simp [events]
        have hstay := step_service w p a
        rw [hevents, hstay.1, hstay.2]
        exact .stay p.daemon p.pc

theorem events_length (p : Program) (a : ProgramAction) : (p.events a).length ≤ 1 := by
  unfold events
  repeat' split
  all_goals simp

/-! ### Reloads -/

/-- The reloads that are still to come for signals that have arrived. -/
def owed (d : Daemon) (pc : MainPc) : Nat :=
  (if d.mReload then 1 else 0) + if pc = .reload then 1 else 0

/-- An event, counted when it is the one that is asked for. -/
def Event.is (x e : Event) : Nat := if e = x then 1 else 0

theorem sum_is (x : Event) (es : List Event) : (es.map (Event.is x)).sum = es.count x := by
  induction es with
  | nil => rfl
  | cons e es ih =>
      rw [List.map_cons, List.sum_cons, ih, List.count_cons, Nat.add_comm]
      by_cases h : e = x
      · simp [Event.is, h]
      · simp [Event.is, h]

/-- A flag that is about to be cleared is set. -/
def Owes (d : Daemon) (pc : MainPc) : Prop := pc = .clear → d.mReload = true

theorem Moves.owed_le {d d' : Daemon} {pc pc' : MainPc} {es : List Event}
    (h : Moves d pc es d' pc') (howes : Owes d pc) :
    Owes d' pc' ∧ owed d' pc' + (es.map (Event.is .reload)).sum ≤ owed d pc + (es.map (Event.is .hup)).sum := by
  cases h with
  | stay => exact ⟨howes, le_refl _⟩
  | look =>
      cases hreload : d.mReload <;> simp [Owes, owed, hreload]
  | clear =>
      have hset : d.mReload = true := howes rfl
      simp [Owes, owed, hset]
  | reload => simp [Owes, owed, Event.is]
  | again => simp [Owes, owed]
  | call => simp [Owes, owed, Event.is]
  | leave => simp [Owes, owed, Event.is]
  | back => simp [Owes, owed]
  | hup =>
      refine ⟨fun _ => rfl, ?_⟩
      simp only [owed, List.map_singleton, List.sum_singleton, Event.is]
      split <;> split <;> simp_all
  | stop =>
      refine ⟨howes, ?_⟩
      simp [owed, Event.is]

/-! ### What a signal brings about -/

/-- A flag is set, or its reload is next. -/
def Pending (d : Daemon) (pc : MainPc) : Prop := d.mReload = true ∨ pc = .reload

/-- Whether the loop is past its look at `mReload`. -/
def past (pc : MainPc) : Nat := if pc = .test ∨ pc = .call then 1 else 0

def Event.leavesRunning (e : Event) : Nat := Event.is .dispatch e + Event.is .ended e

/-- As long as the reload does not come, `running` is left once at most. -/
theorem Moves.past_le {d d' : Daemon} {pc pc' : MainPc} {es : List Event} (h : Moves d pc es d' pc')
    (hpending : Pending d pc) (hno : ∀ e ∈ es, e ≠ .reload) :
    Pending d' pc' ∧ past pc' + (es.map Event.leavesRunning).sum ≤ past pc := by
  cases h with
  | stay => exact ⟨hpending, le_refl _⟩
  | look =>
      have hset : d.mReload = true := hpending.resolve_right (by simp)
      simp [Pending, past, hset]
  | clear => simp [Pending, past]
  | reload => exact absurd rfl (hno _ List.mem_cons_self)
  | again =>
      have hset : d.mReload = true := hpending.resolve_right (by simp)
      simp [Pending, past, hset]
  | call =>
      have hset : d.mReload = true := hpending.resolve_right (by simp)
      simp [Pending, past, hset, Event.leavesRunning, Event.is]
  | leave =>
      have hset : d.mReload = true := hpending.resolve_right (by simp)
      simp [Pending, past, hset, Event.leavesRunning, Event.is]
  | back =>
      have hset : d.mReload = true := hpending.resolve_right (by simp)
      simp [Pending, past, hset]
  | hup => exact ⟨Or.inl rfl, by simp [Event.leavesRunning, Event.is]⟩
  | stop => exact ⟨hpending, by simp [Event.leavesRunning, Event.is]⟩

/-- Whether `running` has already said that the daemon goes on. -/
def atCall (pc : MainPc) : Nat := if pc = .call then 1 else 0

theorem Moves.stopped {d d' : Daemon} {pc pc' : MainPc} {es : List Event} (h : Moves d pc es d' pc')
    (hstop : d.mIsRunning = false) :
    d'.mIsRunning = false ∧ atCall pc' + (es.map (Event.is .dispatch)).sum ≤ atCall pc := by
  cases h with
  | look => cases hreload : d.mReload <;> simp [hstop, atCall]
  | again hrunning => simp [hstop] at hrunning
  | _ => simp [hstop, atCall, Event.is]

theorem Moves.goes_on {d d' : Daemon} {pc pc' : MainPc} {es : List Event} (h : Moves d pc es d' pc')
    (hrunning : d.mIsRunning = true) (hno : ∀ e ∈ es, e ≠ .stop) :
    d'.mIsRunning = true ∧ ∀ e ∈ es, e ≠ .ended := by
  cases h with
  | leave hstop => simp [hrunning] at hstop
  | stop => exact absurd rfl (hno _ List.mem_cons_self)
  | _ => simp [hrunning]

/-- The steps of the loop that are left when `dispatch` is not called any more. -/
def left : MainPc → Nat
  | .call => 6
  | .dispatch => 5
  | .running => 4
  | .clear => 3
  | .reload => 2
  | .test => 1
  | .ended => 0

theorem left_main (hstop : p.daemon.mIsRunning = false) (hended : p.pc ≠ .ended)
    (hfree : ¬ (p.pc = .dispatch ∧ p.service.monitor.busy = true)) :
    left p.main.pc + 1 ≤ left p.pc := by
  unfold main
  cases hpc : p.pc with
  | running =>
      dsimp only
      split <;> decide
  | clear => exact le_refl _
  | reload => exact le_refl _
  | test =>
      rw [hstop]
      exact le_refl _
  | call => exact le_refl _
  | dispatch =>
      have hbusy : p.service.monitor.busy = false := by simpa [hpc] using hfree
      rw [hbusy]
      exact le_refl _
  | ended => exact absurd hpc hended

theorem left_step (hstop : p.daemon.mIsRunning = false) (a : ProgramAction) :
    left (p.step w a).pc + ((p.mainSteps a).map fun _ => 1).sum ≤ left p.pc := by
  by_cases hgone : p.gone = true
  · have hsteps : p.mainSteps a = [] := by
      unfold mainSteps
      split
      · simp [hgone]
      · rfl
    rw [step_of_gone hgone, hsteps]
    exact le_refl _
  · have hgone' : p.gone = false := by simpa using hgone
    have hended : p.pc ≠ .ended := by
      intro hpc
      simp [gone, hpc] at hgone
    cases a with
    | main =>
        rw [step_main hgone']
        by_cases hfree : p.pc = .dispatch ∧ p.service.monitor.busy = true
        · have hsteps : p.mainSteps .main = [] := by simp [mainSteps, hfree.1, hfree.2]
          rw [hsteps, main, hfree.1]
          simp [hfree.1, hfree.2]
        · have hsteps : (p.mainSteps .main).length ≤ 1 := by
            unfold mainSteps
            dsimp only
            split <;> simp
          have hleft := left_main hstop hended hfree
          simp only [List.map_const', List.sum_replicate, smul_eq_mul, mul_one]
          omega
    | signal sig =>
        rw [step_signal hgone', signal_pc]
        exact le_refl _
    | service a =>
        rw [(step_service w p a).2]
        exact le_refl _

/-! ### What an event tells of its step -/

theorem Moves.of_reload {d d' : Daemon} {pc pc' : MainPc} (h : Moves d pc [.reload] d' pc') :
    pc = .reload := by
  cases h with
  | reload => rfl

theorem Moves.of_hup {d d' : Daemon} {pc pc' : MainPc} (h : Moves d pc [.hup] d' pc') :
    d'.mReload = true := by
  cases h with
  | hup => rfl

theorem Moves.of_stop {d d' : Daemon} {pc pc' : MainPc} (h : Moves d pc [.stop] d' pc') :
    d'.mIsRunning = false := by
  cases h with
  | stop => rfl

theorem Moves.of_ended {d d' : Daemon} {pc pc' : MainPc} (h : Moves d pc [.ended] d' pc') :
    d.mIsRunning = false ∧ pc' = .ended := by
  cases h with
  | leave hstop => exact ⟨hstop, rfl⟩

theorem trace_of_gone (hgone : p.gone = true) : ∀ {as : List ProgramAction},
    trace (step w) events p as = [] := by
  intro as
  induction as with
  | nil => rfl
  | cons a as ih => rw [trace_cons, step_of_gone hgone, events_of_gone hgone, ih]; rfl

/-! ### Whole runs -/

theorem sum_leavesRunning (es : List Event) :
    (es.map Event.leavesRunning).sum = es.count .dispatch + es.count .ended := by
  rw [← sum_is, ← sum_is, ← List.sum_map_add]
  rfl

variable {iplist : IPList} {resolver : ProcessResolver} {interval : Int32} {db : Database}

/-- In every run there are no more reloads, and none owed, than there have been signals for. -/
theorem owed_run (as : List ProgramAction) :
    owed (exec (step w) (init iplist resolver interval db) as).daemon
        (exec (step w) (init iplist resolver interval db) as).pc +
        (trace (step w) events (init iplist resolver interval db) as).count .reload ≤
      (trace (step w) events (init iplist resolver interval db) as).count .hup := by
  have howes : Owes (init iplist resolver interval db).daemon (init iplist resolver interval db).pc := by
    simp [Owes, init]
  have hrun := (bounded_exec (I := fun p => Owes p.daemon p.pc) (μ := fun p => owed p.daemon p.pc) (fun p a h _ => (moves_step w p a).owed_le h) howes
      (along_true (step w) _ as)).2
  rw [sum_is, sum_is] at hrun
  simpa [owed, init] using hrun

theorem past_run {as : List ProgramAction} (hpending : Pending p.daemon p.pc)
    (hno : .reload ∉ trace (step w) events p as) :
    (trace (step w) events p as).count .dispatch + (trace (step w) events p as).count .ended ≤ 1 := by
  have hsteps : Along (step w) (fun p a => ∀ e ∈ p.events a, e ≠ .reload) p as :=
    along_iff_forall_trace.mpr fun e he hreload => hno (hreload ▸ he)
  have hrun := spent_exec (I := fun p => Pending p.daemon p.pc) (μ := fun p => past p.pc)
    (fun p a h hes => (moves_step w p a).past_le h hes) hpending hsteps
  have hpast : past p.pc ≤ 1 := by
    unfold past
    split <;> decide
  rw [sum_leavesRunning] at hrun
  omega

theorem dispatch_run {as : List ProgramAction} (hstop : p.daemon.mIsRunning = false) :
    (trace (step w) events p as).count .dispatch ≤ 1 := by
  have hrun := spent_exec (I := fun p => p.daemon.mIsRunning = false) (μ := fun p => atCall p.pc)
    (fun p a hp _ => (moves_step w p a).stopped hp) hstop (along_true (step w) p as)
  have hcall : atCall p.pc ≤ 1 := by
    unfold atCall
    split <;> decide
  rw [sum_is] at hrun
  omega

/-- What becomes of the signals, by what a run tells. -/
structure ObeysSignals (told : List Event) : Prop where
  /-- A reload is for a SIGHUP that no reload before was for. -/
  reload_called : ∀ before after, told = before ++ .reload :: after →
    before.count .reload < before.count .hup
  /-- A SIGHUP is not lost: without its reload, the loop does not go round a second time. -/
  hup_heard : ∀ before after, told = before ++ .hup :: after → .reload ∉ after →
    after.count .dispatch + after.count .ended ≤ 1
  /-- After a SIGINT or a SIGTERM, `dispatch` is called once more at most. -/
  stop_heard : ∀ before after, told = before ++ .stop :: after → after.count .dispatch ≤ 1
  ended_called : ∀ before after, told = before ++ .ended :: after → .stop ∈ before ∧ after = []

/-- No matter what the threads do, a signal is heard in `running`. -/
theorem obeysSignals (as : List ProgramAction) :
    ObeysSignals (trace (step w) events (init iplist resolver interval db) as) where
  reload_called before after h := by
    obtain ⟨as₁, a, as₂, -, rfl, hreload, -⟩ := trace_split events_length h
    have hmoves := moves_step w (exec (step w) (init iplist resolver interval db) as₁) a
    rw [hreload] at hmoves
    have howed := @owed_run w iplist resolver interval db as₁
    rw [hmoves.of_reload] at howed
    simp only [owed, if_true] at howed
    omega
  hup_heard before after h hno := by
    obtain ⟨as₁, a, as₂, -, -, hhup, rfl⟩ := trace_split events_length h
    have hmoves := moves_step w (exec (step w) (init iplist resolver interval db) as₁) a
    rw [hhup] at hmoves
    exact past_run (Or.inl hmoves.of_hup) hno
  stop_heard before after h := by
    obtain ⟨as₁, a, as₂, -, -, hstop, rfl⟩ := trace_split events_length h
    have hmoves := moves_step w (exec (step w) (init iplist resolver interval db) as₁) a
    rw [hstop] at hmoves
    exact dispatch_run hmoves.of_stop
  ended_called before after h := by
    obtain ⟨as₁, a, as₂, -, rfl, hended, rfl⟩ := trace_split events_length h
    have hmoves := moves_step w (exec (step w) (init iplist resolver interval db) as₁) a
    rw [hended] at hmoves
    obtain ⟨hstopped, hpc⟩ := hmoves.of_ended
    refine ⟨?_, trace_of_gone (by simp [gone, hpc])⟩
    by_contra hno
    have hsteps : Along (step w) (fun p a => ∀ e ∈ p.events a, e ≠ .stop)
        (init iplist resolver interval db) as₁ :=
      along_iff_forall_trace.mpr fun e he hstop => hno (hstop ▸ he)
    have hrunning := (always_of_guard (P := fun p => p.daemon.mIsRunning = true)
      (fun p a hp hes => ((moves_step w p a).goes_on hp hes).1) (fun _ hp => hp) rfl hsteps).last
    rw [hstopped] at hrunning
    exact Bool.false_ne_true hrunning

/-- A signal to stop has been taken note of, from then on. -/
theorem stopped_run {as : List ProgramAction}
    (hstop : .stop ∈ trace (step w) events (init iplist resolver interval db) as) :
    (exec (step w) (init iplist resolver interval db) as).daemon.mIsRunning = false := by
  obtain ⟨before, after, htold⟩ := List.append_of_mem hstop
  obtain ⟨as₁, a, as₂, rfl, -, hevents, -⟩ := trace_split events_length htold
  have hmoves := moves_step w (exec (step w) (init iplist resolver interval db) as₁) a
  rw [hevents] at hmoves
  rw [exec_append, exec_cons]
  exact (always_of_inv (P := fun p => p.daemon.mIsRunning = false)
    (fun p a hp => ((moves_step w p a).stopped hp).1) (fun _ hp => hp) hmoves.of_stop).last

theorem left_run (as : List ProgramAction) (hstop : p.daemon.mIsRunning = false) :
    (trace (step w) mainSteps p as).length + left (exec (step w) p as).pc ≤ left p.pc := by
  have hrun := spent_exec (I := fun p => p.daemon.mIsRunning = false) (μ := fun p => left p.pc)
    (fun p a hp _ => ⟨((moves_step w p a).stopped hp).1, left_step hp a⟩) hstop
    (along_true (step w) p as)
  simp only [List.map_const', List.sum_replicate, smul_eq_mul, mul_one] at hrun
  omega

/--
**What becomes of the signals, in every run.**  A reload is for a SIGHUP of its own and no SIGHUP is
lost; after a SIGINT or a SIGTERM, `dispatch` is called once more at most and the loop ends within
six steps of its own, and it ends for no other reason.
-/
theorem signals_run (w : Writers) (iplist : IPList) (resolver : ProcessResolver) (interval : Int32)
    (db : Database) (as : List ProgramAction) :
    ObeysSignals (trace (step w) events (init iplist resolver interval db) as) ∧
      ∀ as₁ as₂, as = as₁ ++ as₂ →
        .stop ∈ trace (step w) events (init iplist resolver interval db) as₁ →
          (trace (step w) mainSteps (exec (step w) (init iplist resolver interval db) as₁) as₂).length +
            left (exec (step w) (init iplist resolver interval db) as).pc ≤ 6 := by
  refine ⟨obeysSignals as, ?_⟩
  intro as₁ as₂ has hstop
  have hleft := left_run (w := w) as₂ (stopped_run hstop)
  have hsix : ∀ pc, left pc ≤ 6 := by
    intro pc
    cases pc <;> decide
  rw [has, exec_append]
  exact le_trans hleft (hsix _)

end Program

end Ntmd
