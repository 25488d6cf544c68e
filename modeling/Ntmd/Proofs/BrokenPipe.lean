/-
Which sends of the API can end the daemon.

The daemon handles three signals, and `SIGPIPE` is none of them.  Every send of the
API asks not to be sent it, but for the error replies in JSON: those of the loop
itself, and the one that turns a second `live` client away.  `Flagged` is what says
so of a connection, by what it asked for.
-/
import Ntmd.Proofs.Connections

namespace Ntmd

open Bytes Run Server

/-- It may be answered with an error reply in JSON. -/
def Command.ErrorReply (command : Command) : Prop :=
  command = .live ∨ ∃ errmsg, command = .refused errmsg

/-- The command that starts a stream. -/
def StreamKind.command : StreamKind → Command
  | .live => .live
  | .liveText => .liveText

/-- Where a connection can be, by what it asked for. -/
def ApiConn.Flagged (c : ApiConn) : Prop :=
  match c.pc with
  | .reply _ noSignal => noSignal = false ↔ c.command.ErrorReply
  | .await kind => c.command = kind.command
  | .update kind _ => c.command = kind.command
  | .welcome => c.command = .liveText
  | _ => True

namespace ApiServer

variable {w : Writers} {s : ApiServer}

theorem brokenPipe_iff {c : ApiConn} :
    c.brokenPipe = true ↔ c.gone = true ∧ ∃ msg, c.pc = .reply msg false := by
  unfold ApiConn.brokenPipe
  cases hpc : c.pc with
  | reply msg noSignal => cases noSignal <;> simp [HandlerPc.call]
  | _ => simp [HandlerPc.call]

theorem flagged_handle {reads : Reads} {command : Command} {pc : HandlerPc}
    (h : handle w reads command = some pc) : ApiConn.Flagged { command := command, pc := pc } := by
  cases command with
  | liveText =>
      cases h
      exact rfl
  | live =>
      cases h
      exact rfl
  | refused errmsg =>
      obtain ⟨msg, -, rfl⟩ := Option.map_eq_some_iff.mp h
      exact iff_of_true rfl (Or.inr ⟨errmsg, rfl⟩)
  | snapshot | trafficDaily | trafficSince ts | trafficBetween start stop =>
      obtain ⟨msg, -, rfl⟩ := Option.map_eq_some_iff.mp h
      exact iff_of_false (by simp) (by rintro (hc | ⟨errmsg, hc⟩) <;> cases hc)

theorem flagged_next {c : ApiConn} (h : c.Flagged) {a : Answer} {pc : HandlerPc}
    (hnext : c.pc.next w a = some pc) {calls : List SocketCall} :
    ApiConn.Flagged { c with pc := pc, calls := calls } := by
  obtain ⟨command, current, gone, before⟩ := c
  cases current with
  | reply msg noSignal =>
      cases hnext
      exact trivial
  | welcome =>
      cases hnext
      cases a.sent with
      | true => exact h
      | false => exact trivial
  | await kind =>
      simp only [HandlerPc.next] at hnext
      split at hnext
      · cases kind with
        | live =>
            obtain ⟨msg, -, rfl⟩ := Option.map_eq_some_iff.mp hnext
            exact h
        | liveText =>
            cases hnext
            exact h
      · -- The rejection: in JSON and with no flags for `live`, in plain text for `live-text`.
        cases kind with
        | live =>
            obtain ⟨msg, -, rfl⟩ := Option.map_eq_some_iff.mp hnext
            exact iff_of_true rfl (Or.inl h)
        | liveText =>
            cases hnext
            refine iff_of_false (by simp) ?_
            rintro (hc | ⟨errmsg, hc⟩) <;> exact absurd (h.symm.trans hc) (by simp [StreamKind.command])
  | update kind msg =>
      cases hnext
      cases a.sent with
      | true => exact h
      | false => exact trivial
  | closing =>
      cases hnext
      exact trivial
  | returned =>
      cases hnext
      exact trivial

theorem flagged_step (h : ∀ c ∈ s.conns, c.Flagged) (action : ApiAction) :
    ∀ c ∈ (s.step w action).conns, c.Flagged :=
  forall_conns_step (fun _ _ _ hhandle => flagged_handle hhandle)
    (fun _ _ _ hc hnext => flagged_next hc hnext)
    (fun _ hc => hc) h action

/-- No `SIGPIPE` has ended the daemon. -/
def NoSigpipe (s : ApiServer) : Prop := s.down ≠ some (.signal .sigpipe)

/-- Whoever is sent an error reply in JSON is still there. -/
def RefusesThePresent (s : ApiServer) : ApiAction → Prop
  | .advance i _ => s.down = none → ∀ c, s.conns[i]? = some c → c.command.ErrorReply →
      (∃ msg noSignal, c.pc = .reply msg noSignal) → c.gone = false
  | _ => True

theorem noSigpipe_step_iff (hflagged : ∀ c ∈ s.conns, c.Flagged) (h : s.NoSigpipe)
    (action : ApiAction) : (s.step w action).NoSigpipe ↔ s.RefusesThePresent action := by
  by_cases hdown : s.down = none
  · simp only [step, hdown, Option.isSome_none, Bool.false_eq_true, if_false]
    cases action with
    | accept r reads =>
        refine iff_of_true ?_ trivial
        dsimp only
        split
        · rcases accept_cases w s r reads with ⟨-, d, hd, hne⟩ | ⟨_, _, -, -, hd⟩
          · exact fun hsignal => hne (Option.some.inj (hd.symm.trans hsignal))
          · exact fun hsignal => h (hd.symm.trans hsignal)
        · exact h
    | advance i a =>
        dsimp only
        split
        · rename_i hi
          exact iff_of_true h fun _ c hc => absurd (hi.symm.trans hc) (by simp)
        · rename_i c hi
          have hflag := hflagged c (List.mem_of_getElem? hi)
          -- The guard is about this connection alone.
          have hguard : s.RefusesThePresent (.advance i a) ↔ c.brokenPipe = false := by
            rw [← Bool.not_eq_true, brokenPipe_iff]
            constructor
            · rintro hpresent ⟨hgone, msg, hpc⟩
              have herror : c.command.ErrorReply := by
                rw [ApiConn.Flagged, hpc] at hflag
                exact hflag.mp rfl
              exact absurd ((hpresent hdown c hi herror ⟨msg, false, hpc⟩).symm.trans hgone) (by simp)
            · rintro hnot - c' hc' herror ⟨msg, noSignal, hpc⟩
              cases hi.symm.trans hc'
              rw [ApiConn.Flagged, hpc] at hflag
              rw [hflag.mpr herror] at hpc
              exact Bool.eq_false_iff.mpr fun hgone => hnot ⟨hgone, msg, hpc⟩
          rw [hguard]
          rcases advance_cases w s i c a with ⟨hbroken, hstep⟩ | ⟨hbroken, -, hstep⟩ |
            ⟨hbroken, _, -, hstep⟩
          · rw [hstep, hbroken]
            exact iff_of_false (fun hno => hno rfl) (by simp)
          · rw [hstep]
            exact iff_of_true (by simp [NoSigpipe]) hbroken
          · rw [hstep]
            exact iff_of_true h hbroken
    | disconnect i =>
        refine iff_of_true ?_ trivial
        dsimp only
        split
        · exact h
        · simp [NoSigpipe]
  · rw [step_of_down hdown]
    refine iff_of_true h ?_
    cases action with
    | advance i a => exact fun hnone => absurd hnone hdown
    | _ => exact trivial

/--
**No send of a run ends the daemon exactly if every error reply in JSON is sent to a client that is
still there.**
-/
theorem noSigpipe_run_iff (w : Writers) (as : List ApiAction) :
    Always (step w) NoSigpipe {} as ↔ Along (step w) RefusesThePresent {} as :=
  always_iff_along (fun _ a hflagged => flagged_step hflagged a)
    (fun _ a hflagged h => noSigpipe_step_iff hflagged h a)
    (fun _ hc => absurd hc List.not_mem_nil) (by simp [NoSigpipe])

/-- A client that asks for no command there is, and has gone before it is told so. -/
def goneBeforeReply : List ApiAction :=
  [.accept (.bytes (ascii "stats") (by decide)) nothingRead, .disconnect 0, .advance 0 {}]

theorem not_noSigpipe_goneBeforeReply :
    ¬ Always (step strictWriters) NoSigpipe {} goneBeforeReply := by
  intro h
  have hdown : (exec (step strictWriters) {} goneBeforeReply).down = some (.signal .sigpipe) := by
    decide +kernel
  exact h.last hdown

end ApiServer

end Ntmd
