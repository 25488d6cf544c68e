/-
What is said on a connection.

Connections are served by threads of their own, and their steps come in any order.  A
connection does not notice the others: what is called on its socket is the
conversation of its command, begun with what there was to read when it was accepted
and gone on with the snapshots its own thread was given.

`StreamAt` is that conversation for the two streams, up to where the handler is: a
welcome for `live-text`, a message for each snapshot, a rejection if there is one, and
the close.  Any other command has one message and the close (`RepliedWith`).  No snapshot
that its thread was given is left out: all of them have been sent but the one in hand
(`conversation_exec`).
-/
import Ntmd.Lib.Trace
import Ntmd.Proofs.Connections

namespace Ntmd

open Bytes Run Server

/-- What an iteration of a stream is given. -/
abbrev Update := TrafficMap × Int32

/-- The stream that a command starts. -/
def Command.stream : Command → Option StreamKind
  | .live => some .live
  | .liveText => some .liveText
  | _ => none

/-! ### The conversations -/

/-- The message of an update. -/
def SentAs (w : Writers) (kind : StreamKind) (m : Update) (call : SocketCall) : Prop :=
  ∃ msg, HandlerPc.serve w m.1 m.2 kind = some (.update kind msg) ∧ call = .send msg true

/-- What a stream says before its loop. -/
def opening : StreamKind → List SocketCall
  | .live => []
  | .liveText => [.send welcomeMsg true]

/-- What a stream says after its loop: a rejection, or nothing when its client has gone. -/
def Ending (w : Writers) (kind : StreamKind) (last : List SocketCall) : Prop :=
  last = [] ∨ ∃ msg noSignal, HandlerPc.reject w kind = some (.reply msg noSignal) ∧
    last = [.send msg noSignal]

/-- A stream that has sent these updates and has one in hand, or none: where its handler is, and
what it has called. -/
inductive StreamAt (w : Writers) (kind : StreamKind) (sent : List Update) :
    Option Update → HandlerPc → List SocketCall → Prop
  | welcome (hkind : kind = .liveText) (hsent : sent = []) : StreamAt w kind sent none .welcome []
  /-- The client is gone before its welcome; the socket stays open. -/
  | unwelcomed (hkind : kind = .liveText) (hsent : sent = []) :
      StreamAt w kind sent none .returned [.send welcomeMsg true]
  | await (said : List SocketCall) (hsaid : List.Forall₂ (SentAs w kind) sent said) :
      StreamAt w kind sent none (.await kind) (opening kind ++ said)
  | update (said : List SocketCall) (hsaid : List.Forall₂ (SentAs w kind) sent said)
      (m : Update) (msg : Bytes) (hserve : HandlerPc.serve w m.1 m.2 kind = some (.update kind msg)) :
      StreamAt w kind sent (some m) (.update kind msg) (opening kind ++ said)
  | rejecting (said : List SocketCall) (hsaid : List.Forall₂ (SentAs w kind) sent said)
      (msg : Bytes) (noSignal : Bool) (hreject : HandlerPc.reject w kind = some (.reply msg noSignal)) :
      StreamAt w kind sent none (.reply msg noSignal) (opening kind ++ said)
  | closing (said last : List SocketCall) (hsaid : List.Forall₂ (SentAs w kind) sent said)
      (hlast : Ending w kind last) :
      StreamAt w kind sent none .closing (opening kind ++ said ++ last)
  | returned (said last : List SocketCall) (hsaid : List.Forall₂ (SentAs w kind) sent said)
      (hlast : Ending w kind last) :
      StreamAt w kind sent none .returned (opening kind ++ said ++ last ++ [.close])

/-- One message and the close, up to where the handler is. -/
inductive RepliedWith (msg : Bytes) (noSignal : Bool) : HandlerPc → List SocketCall → Prop
  | reply : RepliedWith msg noSignal (.reply msg noSignal) []
  | closing : RepliedWith msg noSignal .closing [.send msg noSignal]
  | returned : RepliedWith msg noSignal .returned [.send msg noSignal, .close]

/-- The conversation of a connection's command. -/
def Conversation (w : Writers) (reads : Reads) (sent : List Update) (hand : Option Update)
    (c : ApiConn) : Prop :=
  match c.command.stream with
  | some kind => StreamAt w kind sent hand c.pc c.calls
  | none =>
      sent = [] ∧ hand = none ∧ ∃ msg noSignal,
        handle w reads c.command = some (.reply msg noSignal) ∧
          RepliedWith msg noSignal c.pc c.calls

/-- What the answer to a call gives the handler to send. -/
def HandlerPc.offered (pc : HandlerPc) (a : Answer) : Option Update :=
  match pc with
  | await _ => a.snapshot
  | _ => none

/-! ### One call -/

variable {w : Writers} {kind : StreamKind} {sent : List Update} {hand : Option Update}

/-- An iteration ends up at its message. -/
theorem HandlerPc.serve_eq {traffic : TrafficMap} {interval : Int32} {pc : HandlerPc}
    (h : serve w traffic interval kind = some pc) : ∃ msg, pc = .update kind msg := by
  cases kind with
  | live =>
      obtain ⟨msg, -, rfl⟩ := Option.map_eq_some_iff.mp h
      exact ⟨msg, rfl⟩
  | liveText => exact ⟨_, (Option.some.inj h).symm⟩

theorem HandlerPc.reject_eq {pc : HandlerPc} (h : reject w kind = some pc) :
    ∃ msg noSignal, pc = .reply msg noSignal := by
  cases kind with
  | live =>
      obtain ⟨msg, -, rfl⟩ := Option.map_eq_some_iff.mp h
      exact ⟨msg, false, rfl⟩
  | liveText => exact ⟨_, true, (Option.some.inj h).symm⟩

/-- A call carries a stream on. -/
theorem StreamAt.next {pc pc' : HandlerPc} {calls : List SocketCall}
    (h : StreamAt w kind sent hand pc calls) {a : Answer} (hnext : pc.next w a = some pc') :
    StreamAt w kind (sent ++ hand.toList) (pc.offered a) pc' (calls ++ pc.call.toList) := by
  cases h with
  | welcome hkind hsent =>
      subst hkind hsent
      obtain rfl := Option.some.inj hnext
      split
      · exact .await [] .nil
      · exact .unwelcomed rfl rfl
  | unwelcomed hkind hsent =>
      obtain rfl := Option.some.inj hnext
      subst hsent
      exact .unwelcomed hkind rfl
  | await said hsaid =>
      simp only [Option.toList_none, List.append_nil, HandlerPc.call]
      cases hsnapshot : a.snapshot with
      | none =>
          rw [HandlerPc.next, hsnapshot] at hnext
          obtain ⟨msg, noSignal, rfl⟩ := HandlerPc.reject_eq hnext
          rw [HandlerPc.offered, hsnapshot]
          exact .rejecting said hsaid msg noSignal hnext
      | some m =>
          rw [HandlerPc.next, hsnapshot] at hnext
          obtain ⟨msg, rfl⟩ := HandlerPc.serve_eq hnext
          rw [HandlerPc.offered, hsnapshot]
          exact .update said hsaid m msg hnext
  | update said hsaid m msg hserve =>
      obtain rfl := Option.some.inj hnext
      have hsaid' : List.Forall₂ (SentAs w kind) (sent ++ [m]) (said ++ [.send msg true]) :=
        List.rel_append hsaid (.cons ⟨msg, hserve, rfl⟩ .nil)
      simp only [HandlerPc.call, HandlerPc.offered, Option.toList_some, List.append_assoc]
      split
      · exact .await _ hsaid'
      · have hclosing : StreamAt w kind (sent ++ [m]) none .closing
            (opening kind ++ (said ++ [.send msg true]) ++ []) := .closing _ [] hsaid' (.inl rfl)
        rwa [List.append_nil] at hclosing
  | rejecting said hsaid msg noSignal hreject =>
      obtain rfl := Option.some.inj hnext
      simp only [HandlerPc.call, HandlerPc.offered, Option.toList_none, Option.toList_some,
        List.append_nil]
      exact .closing said _ hsaid (.inr ⟨msg, noSignal, hreject, rfl⟩)
  | closing said last hsaid hlast =>
      obtain rfl := Option.some.inj hnext
      simp only [HandlerPc.call, HandlerPc.offered, Option.toList_none, Option.toList_some,
        List.append_nil]
      exact .returned said last hsaid hlast
  | returned said last hsaid hlast =>
      obtain rfl := Option.some.inj hnext
      simp only [HandlerPc.call, HandlerPc.offered, Option.toList_none, List.append_nil]
      exact .returned said last hsaid hlast

theorem RepliedWith.next {msg : Bytes} {noSignal : Bool} {pc pc' : HandlerPc}
    {calls : List SocketCall} (h : RepliedWith msg noSignal pc calls) {a : Answer}
    (hnext : pc.next w a = some pc') : RepliedWith msg noSignal pc' (calls ++ pc.call.toList) := by
  cases h with
  | reply =>
      obtain rfl := Option.some.inj hnext
      exact .closing
  | closing =>
      obtain rfl := Option.some.inj hnext
      exact .returned
  | returned =>
      obtain rfl := Option.some.inj hnext
      exact .returned

theorem RepliedWith.offered {msg : Bytes} {noSignal : Bool} {pc : HandlerPc}
    {calls : List SocketCall} (h : RepliedWith msg noSignal pc calls) (a : Answer) :
    pc.offered a = none := by
  cases h <;> rfl

/-- The conversation of a command begins with its handler. -/
theorem conversation_handle {reads : Reads} {command : Command} {pc : HandlerPc}
    (h : handle w reads command = some pc) :
    Conversation w reads [] none { command := command, pc := pc } := by
  have hone : ∀ {text : Option Bytes} {noSignal : Bool},
      text.map (HandlerPc.reply · noSignal) = some pc → ∃ msg noSignal',
        text.map (HandlerPc.reply · noSignal) = some (.reply msg noSignal') ∧
          RepliedWith msg noSignal' pc [] := by
    intro text noSignal htext
    obtain ⟨msg, -, rfl⟩ := Option.map_eq_some_iff.mp htext
    exact ⟨msg, noSignal, htext, .reply⟩
  cases command with
  | liveText =>
      obtain rfl := Option.some.inj h
      exact .welcome rfl rfl
  | live =>
      obtain rfl := Option.some.inj h
      exact .await [] .nil
  | _ => exact ⟨rfl, rfl, hone h⟩

/-- **A call carries a conversation on**, whatever becomes of it. -/
theorem Conversation.next {reads : Reads} {c : ApiConn} (h : Conversation w reads sent hand c)
    {a : Answer} {pc : HandlerPc} (hnext : c.pc.next w a = some pc) :
    Conversation w reads (sent ++ hand.toList) (c.pc.offered a)
      { c with pc := pc, calls := c.calls ++ c.pc.call.toList } := by
  unfold Conversation at h ⊢
  cases hstream : c.command.stream with
  | some kind =>
      simp only [hstream] at h ⊢
      exact h.next hnext
  | none =>
      simp only [hstream] at h ⊢
      obtain ⟨rfl, rfl, msg, noSignal, hhandle, hreplied⟩ := h
      exact ⟨rfl, hreplied.offered a, msg, noSignal, hhandle, hreplied.next hnext⟩

theorem Conversation.congr {reads : Reads} {c c' : ApiConn} (h : Conversation w reads sent hand c)
    (hcommand : c'.command = c.command) (hpc : c'.pc = c.pc) (hcalls : c'.calls = c.calls) :
    Conversation w reads sent hand c' := by
  rw [Conversation, hcommand, hpc, hcalls]
  exact h

/-! ### Among the others -/

namespace ApiServer

variable {s : ApiServer} {i : Nat} {c : ApiConn}

/-- What a step hands to the thread of a connection: the snapshot that its `awaitSnapshot` ended
with, if a message can be made of it. -/
def handed (w : Writers) (i : Nat) (s : ApiServer) : ApiAction → List Update
  | .advance j a =>
      match s.conns[i]? with
      | some c =>
          if j = i ∧ s.down = none ∧ (c.pc.next w a).isSome then (c.pc.offered a).toList else []
      | none => []
  | _ => []

theorem handed_of_ne {j : Nat} (hji : j ≠ i) (a : Answer) : s.handed w i (.advance j a) = [] := by
  rw [handed]
  split
  · exact if_neg fun h => hji h.1
  · rfl

/-- Nothing is handed where the thread that moves cannot go on, or is offered nothing. -/
theorem handed_eq_nil {j : Nat} {a : Answer}
    (h : ∀ c pc, s.conns[j]? = some c → s.down = none → c.pc.next w a = some pc →
      c.pc.offered a = none) (i : Nat) : s.handed w i (.advance j a) = [] := by
  rw [handed]
  split
  · rename_i c hc
    split
    · rename_i hmoves
      obtain ⟨rfl, hdown, hsome⟩ := hmoves
      obtain ⟨pc, hnext⟩ := Option.isSome_iff_exists.mp hsome
      rw [h c pc hc hdown hnext, Option.toList_none]
    · rfl
  · rfl

/-- What the loop asks of a request that it accepts. -/
def Begins (w : Writers) (s : ApiServer) (r : ReadResult) (reads : Reads) (c : ApiConn) : Prop :=
  s.down = none ∧ s.free = true ∧ ∃ buffer served pc, serveOne s.buffer r = .ok (buffer, served) ∧
    handle w reads served.command = some pc ∧ c = { command := served.command, pc := pc }

/-- What a step can make of the connections. -/
inductive Changes (w : Writers) (s : ApiServer) : ApiAction → List ApiConn → Prop
  | nothing {action : ApiAction} (hhanded : ∀ i, s.handed w i action = []) :
      Changes w s action s.conns
  | accepted {r : ReadResult} {reads : Reads} {c : ApiConn} (hbegins : s.Begins w r reads c) :
      Changes w s (.accept r reads) (s.conns ++ [c])
  | called {j : Nat} {a : Answer} {c : ApiConn} {pc : HandlerPc} (hdown : s.down = none)
      (hc : s.conns[j]? = some c) (hnext : c.pc.next w a = some pc) :
      Changes w s (.advance j a)
        (s.conns.set j { c with pc := pc, calls := c.calls ++ c.pc.call.toList })
  | gone {j : Nat} {c : ApiConn} (hc : s.conns[j]? = some c) :
      Changes w s (.disconnect j) (s.conns.set j { c with gone := true })

theorem step_changes (w : Writers) (s : ApiServer) (action : ApiAction) :
    s.Changes w action (s.step w action).conns := by
  by_cases hdown : s.down = none
  · simp only [step, hdown, Option.isSome_none, Bool.false_eq_true, if_false]
    cases action with
    | accept r reads =>
        dsimp only
        split
        · rename_i hfree
          unfold accept
          split
          · exact .nothing fun _ => rfl
          · rename_i buffer served hserve
            split
            · exact .nothing fun _ => rfl
            · rename_i pc hhandle
              exact .accepted ⟨hdown, hfree, buffer, served, pc, hserve, hhandle, rfl⟩
        · exact .nothing fun _ => rfl
    | advance j a =>
        cases hc : s.conns[j]? with
        | none =>
            simp only [hc]
            exact .nothing (handed_eq_nil fun _ _ hc' => absurd (hc.symm.trans hc') (by simp))
        | some c =>
            simp only [hc]
            rcases advance_cases w s j c a with ⟨hbroken, hstep⟩ | ⟨-, hnext, hstep⟩ |
              ⟨-, pc, hnext, hstep⟩ <;> rw [hstep]
            · -- At the top of a loop there is no send that could raise the signal.
              refine .nothing (handed_eq_nil fun c' _ hc' _ _ => ?_)
              obtain rfl := Option.some.inj (hc'.symm.trans hc)
              cases hpc : c'.pc <;>
                simp [ApiConn.brokenPipe, HandlerPc.call, HandlerPc.offered, hpc] at hbroken ⊢
            · refine .nothing (handed_eq_nil fun c' pc hc' _ hnext' => ?_)
              obtain rfl := Option.some.inj (hc'.symm.trans hc)
              exact absurd (hnext.symm.trans hnext') (by simp)
            · exact .called hdown hc hnext
    | disconnect j =>
        cases hc : s.conns[j]? with
        | none =>
            simp only [hc]
            exact .nothing fun _ => rfl
        | some c =>
            simp only [hc]
            exact .gone hc
  · rw [step_of_down hdown]
    cases action with
    | advance j a => exact .nothing (handed_eq_nil fun _ _ _ h => absurd h hdown)
    | _ => exact .nothing fun _ => rfl

/-- Nothing happens to a connection, or its own thread makes its next call. -/
theorem conn_step (h : s.conns[i]? = some c) (action : ApiAction) :
    ∃ c', (s.step w action).conns[i]? = some c' ∧ c'.command = c.command ∧
      ((c'.pc = c.pc ∧ c'.calls = c.calls ∧ s.handed w i action = []) ∨
        ∃ a, action = .advance i a ∧ s.down = none ∧ c.pc.next w a = some c'.pc ∧
          c'.calls = c.calls ++ c.pc.call.toList ∧
          s.handed w i action = (c.pc.offered a).toList) := by
  have hlt : i < s.conns.length := (List.getElem?_eq_some_iff.mp h).1
  have hchanges := s.step_changes w action
  generalize (s.step w action).conns = conns at hchanges ⊢
  cases hchanges with
  | nothing hhanded => exact ⟨c, h, rfl, Or.inl ⟨rfl, rfl, hhanded i⟩⟩
  | accepted hbegins =>
      exact ⟨c, (List.getElem?_append_left hlt).trans h, rfl, Or.inl ⟨rfl, rfl, rfl⟩⟩
  | @called j a c' pc hdown hc hnext =>
      by_cases hji : j = i
      · subst hji
        obtain rfl := Option.some.inj (hc.symm.trans h)
        exact ⟨_, List.getElem?_set_self hlt, rfl,
          Or.inr ⟨a, rfl, hdown, hnext, rfl, by simp [handed, hc, hdown, hnext]⟩⟩
      · exact ⟨c, (List.getElem?_set_ne hji).trans h, rfl, Or.inl ⟨rfl, rfl, handed_of_ne hji a⟩⟩
  | @gone j c' hc =>
      by_cases hji : j = i
      · subst hji
        obtain rfl := Option.some.inj (hc.symm.trans h)
        exact ⟨_, List.getElem?_set_self hlt, rfl, Or.inl ⟨rfl, rfl, rfl⟩⟩
      · exact ⟨c, (List.getElem?_set_ne hji).trans h, rfl, Or.inl ⟨rfl, rfl, rfl⟩⟩

/-- A connection that was not there has just been accepted. -/
theorem fresh_step (h : s.conns[i]? = none) {action : ApiAction}
    (hc : (s.step w action).conns[i]? = some c) :
    i = s.conns.length ∧ ∃ r reads, action = .accept r reads ∧ s.Begins w r reads c := by
  have hlen : s.conns.length ≤ i := List.getElem?_eq_none_iff.mp h
  have hkept : ∀ conns : List ApiConn, conns.length = s.conns.length → conns[i]? ≠ some c := by
    intro conns hlength hsome
    have hlt := (List.getElem?_eq_some_iff.mp hsome).1
    omega
  have hchanges := s.step_changes w action
  generalize (s.step w action).conns = conns at hchanges hc
  cases hchanges with
  | nothing hhanded => exact absurd hc (hkept _ rfl)
  | @accepted r reads c' hbegins =>
      obtain rfl : i = s.conns.length := by
        have hlt := (List.getElem?_eq_some_iff.mp hc).1
        simp only [List.length_append, List.length_singleton] at hlt
        omega
      simp only [List.getElem?_concat_length, Option.some.injEq] at hc
      exact ⟨rfl, r, reads, rfl, hc ▸ hbegins⟩
  | called hdown hc' hnext => exact absurd hc (hkept _ (List.length_set ..))
  | gone hc' => exact absurd hc (hkept _ (List.length_set ..))

/-- From where a connection stands its conversation goes on, with all that its thread is handed. -/
theorem conversation_exec {reads : Reads} : ∀ (as : List ApiAction) {s : ApiServer} {c : ApiConn}
    {sent : List Update} {hand : Option Update}, s.conns[i]? = some c →
      Conversation w reads sent hand c →
        ∃ c' sent' hand', (exec (step w) s as).conns[i]? = some c' ∧ c'.command = c.command ∧
          Conversation w reads sent' hand' c' ∧
            sent' ++ hand'.toList = sent ++ hand.toList ++ trace (step w) (handed w i) s as := by
  intro as
  induction as with
  | nil =>
      intro s c sent hand hc h
      exact ⟨c, sent, hand, hc, rfl, h, by rw [trace_nil, List.append_nil]⟩
  | cons action as ih =>
      intro s c sent hand hc h
      obtain ⟨c₁, hc₁, hcommand, ⟨hpc, hcalls, hnone⟩ | ⟨a, rfl, -, hnext, hcalls, hhanded⟩⟩ :=
        conn_step (w := w) hc action
      · obtain ⟨c', sent', hand', hc', hcommand', h', hall⟩ := ih hc₁ (h.congr hcommand hpc hcalls)
        refine ⟨c', sent', hand', hc', hcommand'.trans hcommand, h', ?_⟩
        rw [hall, trace_cons, hnone, List.nil_append]
      · have hone : Conversation w reads (sent ++ hand.toList) (c.pc.offered a) c₁ :=
          (h.next hnext).congr hcommand rfl hcalls
        obtain ⟨c', sent', hand', hc', hcommand', h', hall⟩ := ih hc₁ hone
        refine ⟨c', sent', hand', hc', hcommand'.trans hcommand, h', ?_⟩
        rw [hall, trace_cons, hhanded, List.append_assoc (sent ++ hand.toList)]

/-- The step is the one that accepts connection `i`, as it then is. -/
def Accepts (w : Writers) (s : ApiServer) (r : ReadResult) (reads : Reads) (i : Nat) (c : ApiConn) :
    Prop :=
  s.Begins w r reads c ∧ s.conns.length = i ∧ (s.step w (.accept r reads)).conns[i]? = some c

/-- A connection that there is now was accepted at some point. -/
theorem exists_accept : ∀ (as : List ApiAction) {s : ApiServer}, s.conns[i]? = none →
    (exec (step w) s as).conns[i]? = some c →
      ∃ as₁ r reads as₂ c₀, as = as₁ ++ .accept r reads :: as₂ ∧
        (exec (step w) s as₁).Accepts w r reads i c₀ := by
  intro as
  induction as with
  | nil =>
      intro s hnone hc
      rw [exec_nil, hnone] at hc
      exact absurd hc (by simp)
  | cons action as ih =>
      intro s hnone hc
      cases hfirst : (s.step w action).conns[i]? with
      | none =>
          obtain ⟨as₁, r, reads, as₂, c₀, rfl, haccepts⟩ := ih hfirst hc
          exact ⟨action :: as₁, r, reads, as₂, c₀, rfl, haccepts⟩
      | some c₀ =>
          obtain ⟨hi, r, reads, rfl, hbegins⟩ := fresh_step hnone hfirst
          exact ⟨[], r, reads, as, c₀, rfl, hbegins, hi.symm, hfirst⟩

theorem exists_conversation {s : ApiServer} {as : List ApiAction} (hnone : s.conns[i]? = none)
    (hc : (exec (step w) s as).conns[i]? = some c) :
    ∃ as₁ r reads as₂ c₀, as = as₁ ++ .accept r reads :: as₂ ∧
      (exec (step w) s as₁).Accepts w r reads i c₀ ∧ c.command = c₀.command ∧
        ∃ sent hand, Conversation w reads sent hand c ∧
          sent ++ hand.toList = trace (step w) (handed w i)
            ((exec (step w) s as₁).step w (.accept r reads)) as₂ := by
  obtain ⟨as₁, r, reads, as₂, c₀, rfl, haccepts⟩ := exists_accept as hnone hc
  obtain ⟨⟨-, -, buffer, served, pc, -, hhandle, rfl⟩, -, hc₀⟩ := id haccepts
  obtain ⟨c', sent, hand, hc', hcommand, hconversation, hall⟩ :=
    conversation_exec as₂ hc₀ (conversation_handle hhandle)
  rw [exec_append, exec_cons, hc'] at hc
  obtain rfl := Option.some.inj hc
  exact ⟨as₁, r, reads, as₂, _, rfl, haccepts, hcommand, sent, hand, hconversation,
    by simpa using hall⟩

/--
**In every run, with the threads in any order, every connection has the conversation of its
command**: the step that accepted it had what there was to read then, and what has been called on its
socket since is one message and the close, or the messages of the snapshots that its own thread was
handed: all of them in their order, but the one that it has in hand.
-/
theorem conversations_run (w : Writers) (as : List ApiAction) (i : Nat) (c : ApiConn)
    (hc : (exec (step w) {} as).conns[i]? = some c) :
    ∃ as₁ r reads as₂ c₀, as = as₁ ++ .accept r reads :: as₂ ∧
      (exec (step w) {} as₁).Accepts w r reads i c₀ ∧ c.command = c₀.command ∧
        ∃ sent hand, Conversation w reads sent hand c ∧
          sent ++ hand.toList = trace (step w) (handed w i)
            ((exec (step w) {} as₁).step w (.accept r reads)) as₂ :=
  exists_conversation rfl hc

/-- What a client of `live` writes. -/
def liveRequest : ReadResult := .bytes (ascii "live") (by decide)

/-- A client that asks for a snapshot, and one of `live` in between. -/
def twoClients : List ApiAction :=
  [.accept liveRequest nothingRead,
    .accept (.bytes (ascii "snapshot") (by decide)) nothingRead,
    .advance 0 { snapshot := some (∅, 10) }, .advance 1 {}, .advance 0 {}, .advance 1 {}]

theorem conversations_run_twoClients :
    ∃ c, (exec (step strictWriters) {} twoClients).conns[0]? = some c ∧
      ∃ as₁ r reads as₂ c₀, twoClients = as₁ ++ .accept r reads :: as₂ ∧
        (exec (step strictWriters) {} as₁).Accepts strictWriters r reads 0 c₀ ∧
          c.command = c₀.command ∧
          ∃ sent hand, Conversation strictWriters reads sent hand c ∧
            sent ++ hand.toList = trace (step strictWriters) (handed strictWriters 0)
              ((exec (step strictWriters) {} as₁).step strictWriters (.accept r reads)) as₂ := by
  obtain ⟨c, hc⟩ := Option.isSome_iff_exists.mp
    (show ((exec (step strictWriters) {} twoClients).conns[0]?).isSome = true by decide +kernel)
  exact ⟨c, hc, conversations_run strictWriters twoClients 0 c hc⟩

end ApiServer

end Ntmd
