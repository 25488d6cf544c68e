/-
What a step of the API does to its connections, and when each is closed once.

A step begins a connection, takes one of them from its call to where the outcome of
that call leads, or marks one whose client has gone.  `forall_conns_step` is the
rule that follows: what a connection begins with, and keeps through its calls, holds
of all of them in every run.

A handler closes its socket as its last call.  The one way out without it is a
welcome message of `live-text` that cannot be sent.
-/
import Ntmd.Proofs.ResponseText

namespace Ntmd

open Bytes Run Server

namespace ApiServer

variable {w : Writers} {s : ApiServer}

/-! ### Steps -/

/-- Every branch of a thread's step. -/
theorem advance_cases (w : Writers) (s : ApiServer) (i : Nat) (c : ApiConn) (a : Answer) :
    (c.brokenPipe = true ∧ s.advance w i c a = { s with down := some (.signal .sigpipe) }) ∨
    (c.brokenPipe = false ∧ c.pc.next w a = none ∧
      s.advance w i c a = { s with down := some .uncaught }) ∨
    (c.brokenPipe = false ∧ ∃ pc, c.pc.next w a = some pc ∧
      s.advance w i c a =
        { s with
          conns := s.conns.set i { c with pc := pc, calls := c.calls ++ c.pc.call.toList } }) := by
  have hunhandled : (!Daemon.handled.contains .sigpipe) = true := by decide
  cases hbroken : c.brokenPipe with
  | true =>
      refine Or.inl ⟨rfl, ?_⟩
      rw [advance, if_pos (by rw [hbroken, hunhandled]; rfl)]
  | false =>
      refine Or.inr ?_
      cases hnext : c.pc.next w a with
      | none => exact Or.inl ⟨rfl, rfl, by simp [advance, hbroken, hnext]⟩
      | some pc => exact Or.inr ⟨rfl, pc, rfl, by simp [advance, hbroken, hnext]⟩

/-- A connection that is accepted is the only new one, and one that cannot be served ends the
daemon. -/
theorem accept_cases (w : Writers) (s : ApiServer) (r : ReadResult) (reads : Reads) :
    ((s.accept w r reads).conns = s.conns ∧
      ∃ d, (s.accept w r reads).down = some d ∧ d ≠ .signal .sigpipe) ∨
    (∃ command pc, handle w reads command = some pc ∧
      (s.accept w r reads).conns = s.conns ++ [{ command := command, pc := pc }] ∧
      (s.accept w r reads).down = s.down) := by
  unfold accept
  split
  · exact Or.inl ⟨rfl, _, rfl, by simp⟩
  · rename_i buffer served hserve
    split
    · exact Or.inl ⟨rfl, _, rfl, by simp⟩
    · rename_i pc hhandle
      exact Or.inr ⟨served.command, pc, hhandle, rfl, rfl⟩

theorem step_of_down (h : s.down ≠ none) (a : ApiAction) : s.step w a = s := by
  unfold step
  rw [if_pos (Option.isSome_iff_ne_none.mpr h)]

/-- What a step keeps of all connections: a new one has it, so has one whose client goes, and what
is left to see to is the call of the one thread that moves. -/
theorem forall_conns_step_iff {Q : ApiConn → Prop}
    (hbegin : ∀ reads command pc, handle w reads command = some pc →
      Q { command := command, pc := pc })
    (hgone : ∀ c, Q c → Q { c with gone := true }) (h : ∀ c ∈ s.conns, Q c) (action : ApiAction) :
    (∀ c ∈ (s.step w action).conns, Q c) ↔
      ∀ i a c pc, action = .advance i a → s.down = none → s.conns[i]? = some c →
        c.brokenPipe = false → c.pc.next w a = some pc →
          Q { c with pc := pc, calls := c.calls ++ c.pc.call.toList } := by
  by_cases hdown : s.down = none
  · simp only [step, hdown, Option.isSome_none, Bool.false_eq_true, if_false]
    cases action with
    | accept r reads =>
        refine iff_of_true ?_ (by simp)
        dsimp only
        split
        · rcases accept_cases w s r reads with ⟨hconns, -⟩ | ⟨command, pc, hhandle, hconns, -⟩
          · rw [hconns]
            exact h
          · rw [hconns]
            intro c hc
            rcases List.mem_append.mp hc with hc | hc
            · exact h c hc
            · rw [List.mem_singleton.mp hc]
              exact hbegin reads command pc hhandle
        · exact h
    | advance i a =>
        dsimp only
        split
        · rename_i hi
          refine iff_of_true h fun i' a' c pc haction _ hc => ?_
          cases haction
          exact absurd (hi.symm.trans hc) (by simp)
        · rename_i c hi
          have hlt : i < s.conns.length := (List.getElem?_eq_some_iff.mp hi).1
          rcases advance_cases w s i c a with ⟨hbroken, hstep⟩ | ⟨-, hnext, hstep⟩ |
            ⟨hbroken, pc, hnext, hstep⟩
          · rw [hstep]
            refine iff_of_true h fun i' a' c' pc haction _ hc hnot => ?_
            cases haction
            cases hi.symm.trans hc
            exact absurd (hbroken.symm.trans hnot) (by simp)
          · rw [hstep]
            refine iff_of_true h fun i' a' c' pc haction _ hc _ hsome => ?_
            cases haction
            cases hi.symm.trans hc
            exact absurd (hnext.symm.trans hsome) (by simp)
          · rw [hstep]
            constructor
            · intro hall i' a' c' pc' haction _ hc _ hsome
              cases haction
              cases hi.symm.trans hc
              cases hnext.symm.trans hsome
              exact hall _ (List.mem_set hlt _)
            · intro hc c' hc'
              rcases List.mem_or_eq_of_mem_set hc' with hc' | rfl
              · exact h c' hc'
              · exact hc i a c pc rfl trivial hi hbroken hnext
    | disconnect i =>
        refine iff_of_true ?_ (by simp)
        dsimp only
        split
        · exact h
        · rename_i c hi
          intro c' hc'
          rcases List.mem_or_eq_of_mem_set hc' with hc' | rfl
          · exact h c' hc'
          · exact hgone c (h c (List.mem_of_getElem? hi))
  · rw [step_of_down hdown]
    exact iff_of_true h fun _ _ _ _ _ hnone => absurd hnone hdown

/-- What a connection begins with and keeps through its calls, all connections keep. -/
theorem forall_conns_step {Q : ApiConn → Prop}
    (hbegin : ∀ reads command pc, handle w reads command = some pc →
      Q { command := command, pc := pc })
    (hnext : ∀ (c : ApiConn) a pc, Q c → c.pc.next w a = some pc →
      Q { c with pc := pc, calls := c.calls ++ c.pc.call.toList })
    (hgone : ∀ c, Q c → Q { c with gone := true })
    (h : ∀ c ∈ s.conns, Q c) (action : ApiAction) : ∀ c ∈ (s.step w action).conns, Q c :=
  (forall_conns_step_iff hbegin hgone h action).mpr fun _ a c pc _ _ hi _ hpc =>
    hnext c a pc (h c (List.mem_of_getElem? hi)) hpc

end ApiServer

/-! ### Closing -/

/-- The ways to return. -/
theorem HandlerPc.next_returned {w : Writers} {pc : HandlerPc} {a : Answer}
    (h : pc.next w a = some .returned) :
    pc = .returned ∨ pc = .closing ∨ (pc = .welcome ∧ a.sent = false) := by
  cases pc with
  | reply msg noSignal => simp [next] at h
  | welcome =>
      cases hsent : a.sent with
      | true => simp [next, hsent] at h
      | false => exact Or.inr (Or.inr ⟨rfl, rfl⟩)
  | await kind =>
      simp only [next] at h
      split at h
      · cases kind <;> simp [serve] at h
      · cases kind <;> simp [reject] at h
  | update kind msg => cases hsent : a.sent <;> simp [next, hsent] at h
  | closing => exact Or.inr (Or.inl rfl)
  | returned => exact Or.inl rfl

/-- The socket is not closed before the handler returns. -/
def ApiConn.StillOpen (c : ApiConn) : Prop := c.pc ≠ .returned → SocketCall.close ∉ c.calls

/-- It is closed once when the handler has returned. -/
def ApiConn.ClosedOnce (c : ApiConn) : Prop := c.pc = .returned → c.calls.count .close = 1

theorem ApiConn.StillOpen.next {w : Writers} {c : ApiConn} (h : c.StillOpen) {a : Answer}
    {pc : HandlerPc} (hnext : c.pc.next w a = some pc) :
    ApiConn.StillOpen { c with pc := pc, calls := c.calls ++ c.pc.call.toList } := by
  intro hpc hclose
  have hreturned : c.pc ≠ .returned := by
    rintro hc
    rw [hc] at hnext
    exact hpc (Option.some.inj hnext).symm
  have hclosing : c.pc ≠ .closing := by
    rintro hc
    rw [hc] at hnext
    exact hpc (Option.some.inj hnext).symm
  rcases List.mem_append.mp hclose with hclose | hclose
  · exact h hreturned hclose
  · cases hc : c.pc <;> simp_all [HandlerPc.call]

/-- A call leaves it closed once, unless it is a welcome message that fails. -/
theorem ApiConn.closedOnce_next_iff {w : Writers} {c : ApiConn} (hopen : c.StillOpen)
    (h : c.ClosedOnce) {a : Answer} {pc : HandlerPc} (hnext : c.pc.next w a = some pc) :
    ApiConn.ClosedOnce { c with pc := pc, calls := c.calls ++ c.pc.call.toList } ↔
      (c.pc = .welcome → a.sent = true) := by
  constructor
  · intro hclosed hwelcome
    by_contra hsent
    have hpc : pc = .returned := by
      rw [hwelcome, HandlerPc.next, if_neg hsent] at hnext
      exact (Option.some.inj hnext).symm
    have hcount := hclosed hpc
    have hnone : c.calls.count .close = 0 := List.count_eq_zero.mpr (hopen (by simp [hwelcome]))
    simp [hwelcome, HandlerPc.call, List.count_append, hnone] at hcount
  · intro hwelcome hpc
    simp only at hpc
    rw [hpc] at hnext
    rcases HandlerPc.next_returned hnext with hc | hc | ⟨hc, hsent⟩
    · simp only [hc, HandlerPc.call, Option.toList_none, List.append_nil]
      exact h hc
    · have hnone : c.calls.count .close = 0 := List.count_eq_zero.mpr (hopen (by simp [hc]))
      simp [hc, HandlerPc.call, List.count_append, hnone]
    · exact absurd ((hwelcome hc).symm.trans hsent) (by simp)

namespace ApiServer

variable {w : Writers} {s : ApiServer}

def ClosesOnce (s : ApiServer) : Prop := ∀ c ∈ s.conns, c.ClosedOnce

/-- No welcome message of `live-text` fails. -/
def Welcomed (s : ApiServer) : ApiAction → Prop
  | .advance i a => s.down = none → ∀ c, s.conns[i]? = some c → c.pc = .welcome → a.sent = true
  | _ => True

theorem handle_ne_returned {reads : Reads} {command : Command} {pc : HandlerPc}
    (h : handle w reads command = some pc) : pc ≠ .returned := by
  rintro rfl
  cases command <;> simp [handle, snapshot, trafficDaily, trafficSince, trafficBetween] at h

theorem stillOpen_step (h : ∀ c ∈ s.conns, c.StillOpen) (a : ApiAction) :
    ∀ c ∈ (s.step w a).conns, c.StillOpen :=
  forall_conns_step (fun _ _ _ _ _ => List.not_mem_nil) (fun _ _ _ hc hnext => hc.next hnext)
    (fun _ hc => hc) h a

theorem closesOnce_step_iff (hopen : ∀ c ∈ s.conns, c.StillOpen) (h : s.ClosesOnce)
    (action : ApiAction) : (s.step w action).ClosesOnce ↔ s.Welcomed action := by
  have hbegin : ∀ reads command pc, handle w reads command = some pc →
      ApiConn.ClosedOnce { command := command, pc := pc } := fun _ _ _ hhandle hpc =>
    absurd hpc (handle_ne_returned hhandle)
  have hiff := @forall_conns_step_iff w s ApiConn.ClosedOnce hbegin (fun _ hc => hc) h action
  refine hiff.trans ?_
  cases action with
  | advance i a =>
      constructor
      · intro hall hdown c hi hwelcome
        have hmem := List.mem_of_getElem? hi
        have hbroken : c.brokenPipe = false := by simp [ApiConn.brokenPipe, hwelcome, HandlerPc.call]
        have hnext : c.pc.next w a = some (if a.sent then .await .liveText else .returned) := by
          rw [hwelcome, HandlerPc.next]
        exact (ApiConn.closedOnce_next_iff (hopen c hmem) (h c hmem) hnext).mp
          (hall i a c _ rfl hdown hi hbroken hnext) hwelcome
      · intro hwelcomed i' a' c pc haction hdown hi _ hnext
        cases haction
        have hmem := List.mem_of_getElem? hi
        exact (ApiConn.closedOnce_next_iff (hopen c hmem) (h c hmem) hnext).mpr
          (hwelcomed hdown c hi)
  | _ => exact iff_of_true (by simp) trivial

/--
**In a run every connection is closed once by the time its handler has returned exactly if no
welcome message of `live-text` fails.**
-/
theorem closesOnce_run_iff (w : Writers) (as : List ApiAction) :
    Always (step w) ClosesOnce {} as ↔ Along (step w) Welcomed {} as :=
  always_iff_along (fun _ a hopen => stillOpen_step hopen a)
    (fun _ a hopen h => closesOnce_step_iff hopen h a) (fun _ hc => absurd hc List.not_mem_nil)
    (fun _ hc => absurd hc List.not_mem_nil)

/-- What there is to read before anything has been captured. -/
def nothingRead : Reads where
  storage := { mInterval := 10 }
  db := Database.empty
  other _ := none
  startOfCurrentDay := 0

/-- A `live-text` client that is gone before its welcome. -/
def unwelcomed : List ApiAction :=
  [.accept (.bytes (ascii "live-text") (by decide)) nothingRead, .disconnect 0,
    .advance 0 { sent := false }]

/-- Its socket is never closed. -/
theorem not_closesOnce_unwelcomed : ¬ Always (step strictWriters) ClosesOnce {} unwelcomed := by
  intro h
  have hconns : (exec (step strictWriters) {} unwelcomed).conns.map (fun c => (c.pc, c.calls)) =
      [(.returned, [.send welcomeMsg true])] := by decide +kernel
  obtain ⟨c, hc, hcalls⟩ := List.map_eq_singleton_iff.mp hconns
  obtain ⟨hpc, hcalls⟩ := Prod.mk.inj hcalls
  have hcount := h.last c (hc ▸ List.mem_singleton.mpr rfl) hpc
  rw [hcalls] at hcount
  exact absurd hcount (by decide)

end ApiServer

end Ntmd
