/-
What the streams of the running daemon say.

A `Service` has its streams in two places: what is on the socket is a connection of the
API, and what is lent to the storage is a frame.  `Mirrors` says that they are the
threads of a `LiveSystem`, one step of the daemon being a step there or none
(`liveActions`), so what is known of the hand-off is known of the daemon.

With the conversation of each connection (`Conversation`) this tells the messages of a
stream: they are about deposits, whose numbers go up along a connection and are on no
other (`streams_run`).
-/
import Ntmd.Proofs.Accounts
import Ntmd.Proofs.Conversations
import Ntmd.Proofs.Deliveries
import Ntmd.Proofs.Replies
import Ntmd.Service

namespace Ntmd

open Bytes Run

/-! ### What no step takes back -/

theorem TrafficStorage.mInterval_handOff (s : TrafficStorage) (frames : Nat → LiveFrame) :
    (s.handOff frames).1.mInterval = s.mInterval := by
  unfold handOff
  split
  · split <;> rfl
  · rfl

theorem System.kept_step (s : System) (a : Action) :
    (∀ (n : Nat) m, s.deposited[n]? = some m → (s.step a).deposited[n]? = some m) ∧
      (s.step a).storage.mInterval = s.storage.mInterval := by
  cases a with
  | lookup thread process pkt =>
      obtain ⟨m, hm⟩ := s.storage.lookupLine_fst process
      simp only [step]
      split
      · exact ⟨fun _ _ h => h, rfl⟩
      · exact ⟨fun _ _ h => h, by rw [hm]⟩
  | increment thread =>
      simp only [step]
      split
      · exact ⟨fun _ _ h => h, rfl⟩
      · rename_i p _
        obtain ⟨m, hm⟩ := s.storage.increment_eq p.line p.pkt
        exact ⟨fun _ _ h => h, by rw [hm]⟩
  | deposit now o =>
      refine ⟨fun n m h => ?_, s.storage.mInterval_handOff s.frames⟩
      exact (List.getElem?_append_left (List.getElem?_eq_some_iff.mp h).1).trans h
  | snapshot => exact ⟨fun _ _ h => h, rfl⟩
  | await frame =>
      refine ⟨fun _ _ h => h, ?_⟩
      simp only [step, TrafficStorage.awaitSnapshot]
      split <;> rfl

theorem System.kept_exec : ∀ (as : List Action) (s : System),
    (∀ (n : Nat) m, s.deposited[n]? = some m → (exec step s as).deposited[n]? = some m) ∧
      (exec step s as).storage.mInterval = s.storage.mInterval := by
  intro as
  induction as with
  | nil => intro s; exact ⟨fun _ _ h => h, rfl⟩
  | cons a as ih =>
      intro s
      obtain ⟨hdeposited, hinterval⟩ := s.kept_step a
      obtain ⟨hdeposited', hinterval'⟩ := ih (s.step a)
      exact ⟨fun n m h => hdeposited' n m (hdeposited n m h), hinterval'.trans hinterval⟩

/-! ### The streams of the daemon -/

namespace Service

/-- A step of the storage, as one of the system of streams. -/
def liveAction : Action → Option LiveAction
  | .lookup thread process pkt => some (.lookup thread process pkt)
  | .increment thread => some (.increment thread)
  | .deposit now o => some (.deposit now o)
  | .snapshot => some .snapshot
  | .await _ => none

/-- The steps of the system of streams that a step of the daemon makes. -/
def liveActions (w : Writers) (s : Service) (a : ServiceAction) : List LiveAction :=
  if s.dead then []
  else
    match a with
    | .monitor a => if a.own then (s.monitor.sysActions a).filterMap liveAction else []
    | .accept _ _ _ =>
        match (s.step w a).api.conns[s.api.conns.length]? with
        | none => []
        | some c => (c.command.stream.map (.connect s.api.conns.length)).toList
    | .advance conn ok =>
        match s.api.conns[conn]? with
        | none => []
        | some c =>
            match c.pc with
            | .welcome => [.greet conn ok]
            | .await _ =>
                match s.frame conn with
                | none => [.await conn]
                | some _ => [.lock conn]
            | .update _ _ => [.send conn ok]
            | _ => []
    | .disconnect conn => [.disconnect conn]

/-- Where the thread of a stream is, by its handler and its frame. -/
def threadPc (frame : Option Nat) : HandlerPc → StreamPc
  | .welcome => .greeting
  | .await _ =>
      match frame with
      | none => .ready
      | some f => .waiting f
  | .update _ _ =>
      match frame with
      | none => .ended
      | some f => .served f
  | _ => .ended

/-- Where a connection is as a stream. -/
def streamPc (frame : Option Nat) (command : Command) (pc : HandlerPc) : StreamPc :=
  match command.stream with
  | none => .unused
  | some _ => threadPc frame pc

theorem streamPc_of_none {command : Command} (h : command.stream = none) (frame : Option Nat)
    (pc : HandlerPc) : streamPc frame command pc = .unused := by
  rw [streamPc, h]

theorem streamPc_of_some {command : Command} {kind : StreamKind} (h : command.stream = some kind)
    (frame : Option Nat) (pc : HandlerPc) : streamPc frame command pc = threadPc frame pc := by
  rw [streamPc, h]

/-- What a connection has to do with its stream, and with its frame as long as the daemon is
alive. -/
structure ConnMirrors (w : Writers) (alive : Prop) (t : LiveSystem) (conn : Nat)
    (frame : Option Nat) (c : ApiConn) : Prop where
  framed : ∀ f, frame = some f → (∃ kind, c.pc = .await kind) ∨ ∃ kind msg, c.pc = .update kind msg
  stream : alive → t.streams conn = streamPc frame c.command c.pc
  said : ∃ reads sent hand, Conversation w reads sent hand c ∧ sent.map Prod.fst = t.sent conn ∧
    (∀ m ∈ sent, m.2 = t.sys.storage.mInterval) ∧
    (alive → ∀ m, hand = some m → ∃ f, frame = some f ∧ f < t.nextFrame ∧
      t.deposited[t.registeredAt f]? = some m.1 ∧ m.2 = t.sys.storage.mInterval)

/-- The streams of the daemon are those of the system of streams. -/
structure Mirrors (w : Writers) (s : Service) (t : LiveSystem) : Prop where
  sys : t.sys = s.monitor.sys
  nextFrame : t.nextFrame = s.nextFrame
  conns : ∀ conn c, s.api.conns[conn]? = some c →
    ConnMirrors w (s.api.down = none) t conn (s.frame conn) c
  fresh : ∀ conn, s.api.conns[conn]? = none →
    s.frame conn = none ∧ t.streams conn = .unused ∧ t.sent conn = []

variable {w : Writers} {s : Service} {t : LiveSystem}

/-! ### A connection that nothing happens to -/

theorem ConnMirrors.of_same {alive alive' : Prop} {t' : LiveSystem} {conn : Nat}
    {frame : Option Nat} {c : ApiConn} (h : ConnMirrors w alive t conn frame c)
    (halive : alive' → alive) (hstream : t'.streams conn = t.streams conn)
    (hsent : t'.sent conn = t.sent conn)
    (hdeposited : ∀ (n : Nat) m, t.deposited[n]? = some m → t'.deposited[n]? = some m)
    (hinterval : t'.sys.storage.mInterval = t.sys.storage.mInterval)
    (hat : ∀ f, f < t.nextFrame → t'.registeredAt f = t.registeredAt f)
    (hnext : t.nextFrame ≤ t'.nextFrame) : ConnMirrors w alive' t' conn frame c where
  framed := h.framed
  stream ha := hstream.trans (h.stream (halive ha))
  said := by
    obtain ⟨reads, sent, hand, hconversation, hmaps, hintervals, hhand⟩ := h.said
    refine ⟨reads, sent, hand, hconversation, hmaps.trans hsent.symm, fun m hm => ?_,
      fun ha m hm => ?_⟩
    · rw [hinterval]
      exact hintervals m hm
    · obtain ⟨f, hf, hlt, hmap, hint⟩ := hhand (halive ha) m hm
      exact ⟨f, hf, Nat.lt_of_lt_of_le hlt hnext, by rw [hat f hlt]; exact hdeposited _ _ hmap,
        hint.trans hinterval.symm⟩

/-- Something happens to one connection at most. -/
theorem Mirrors.of_conn (h : s.Mirrors w t) {s' : Service} {t' : LiveSystem} {conn : Nat}
    {c : ApiConn} (hsys : t'.sys = s'.monitor.sys) (hnext : t'.nextFrame = s'.nextFrame)
    (hself : s'.api.conns[conn]? = some c)
    (hconns : ∀ j, j ≠ conn → s'.api.conns[j]? = s.api.conns[j]?)
    (hframe : ∀ j, j ≠ conn → s'.frame j = s.frame j)
    (halive : s'.api.down = none → s.api.down = none)
    (hstreams : ∀ j, j ≠ conn → t'.streams j = t.streams j)
    (hsent : ∀ j, j ≠ conn → t'.sent j = t.sent j)
    (hdeposited : t'.deposited = t.deposited)
    (hinterval : t'.sys.storage.mInterval = t.sys.storage.mInterval)
    (hat : ∀ f, f < t.nextFrame → t'.registeredAt f = t.registeredAt f)
    (hle : t.nextFrame ≤ t'.nextFrame)
    (hc : ConnMirrors w (s'.api.down = none) t' conn (s'.frame conn) c) : s'.Mirrors w t' where
  sys := hsys
  nextFrame := hnext
  conns j c' hj := by
    by_cases hne : j = conn
    · subst hne
      obtain rfl := Option.some.inj (hself.symm.trans hj)
      exact hc
    · rw [hframe j hne]
      exact (h.conns j c' ((hconns j hne).symm.trans hj)).of_same halive (hstreams j hne)
        (hsent j hne) (fun n m hm => hdeposited ▸ hm) hinterval hat hle
  fresh j hj := by
    have hne : j ≠ conn := by
      rintro rfl
      exact absurd (hself.symm.trans hj) (by simp)
    rw [hframe j hne, hstreams j hne, hsent j hne]
    exact h.fresh j ((hconns j hne).symm.trans hj)

/-- Nothing happens to any connection; the daemon may go down. -/
theorem Mirrors.of_conns (h : s.Mirrors w t) {api : ApiServer} (hconns : api.conns = s.api.conns)
    (halive : api.down = none → s.api.down = none) : Mirrors w { s with api := api } t where
  sys := h.sys
  nextFrame := h.nextFrame
  conns conn c hc := (h.conns conn c (hconns ▸ hc)).of_same halive rfl rfl (fun _ _ hm => hm) rfl
    (fun _ _ => rfl) (Nat.le_refl _)
  fresh conn hc := h.fresh conn (hconns ▸ hc)

/-! ### The threads of the monitor -/

theorem exec_liveAction : ∀ {as : List Action}, (∀ a ∈ as, ∀ frame, a ≠ .await frame) →
    ∀ t : LiveSystem, exec LiveSystem.step t (as.filterMap liveAction) =
      { t with sys := exec System.step t.sys as } := by
  intro as
  induction as with
  | nil => intro _ t; rfl
  | cons a as ih =>
      intro h t
      have hrest := ih fun b hb => h b (List.mem_cons_of_mem _ hb)
      cases a with
      | await frame => exact absurd rfl (h _ List.mem_cons_self frame)
      | _ => exact hrest _

theorem sysActions_own {a : MonitorAction} (ha : a.own = true) (m : Monitor) :
    ∀ b ∈ m.sysActions a, ∀ frame, b ≠ .await frame := by
  intro b hb frame
  rintro rfl
  cases a with
  | frame f net proc =>
      rcases m.sysActions_frame f net proc with h | ⟨process, pkt, h⟩ <;> rw [h] at hb
      · exact absurd hb List.not_mem_nil
      · exact absurd (List.mem_singleton.mp hb) (by simp)
  | await => exact absurd ha (by simp [MonitorAction.own])
  | _ =>
      simp only [Monitor.sysActions] at hb
      split at hb <;> simp at hb

theorem Mirrors.monitor (h : s.Mirrors w t) {a : MonitorAction} (ha : a.own = true) :
    Mirrors w { s with monitor := s.monitor.step a }
      (exec LiveSystem.step t ((s.monitor.sysActions a).filterMap liveAction)) := by
  rw [exec_liveAction (sysActions_own ha s.monitor)]
  obtain ⟨hdeposited, hinterval⟩ := System.kept_exec (s.monitor.sysActions a) t.sys
  exact
    { sys := by rw [Monitor.step_sys, h.sys]
      nextFrame := h.nextFrame
      conns := fun conn c hc => (h.conns conn c hc).of_same id rfl rfl hdeposited hinterval
        (fun _ _ => rfl) (Nat.le_refl _)
      fresh := h.fresh }

/-! ### The loop of the API, and the clients -/

/-- What a connection is accepted for. -/
theorem streamPc_handle {reads : Reads} {command : Command} {pc : HandlerPc}
    (h : handle w reads command = some pc) : streamPc none command pc =
      match command.stream with
      | some .live => .ready
      | some .liveText => .greeting
      | none => .unused := by
  cases command with
  | live =>
      obtain rfl := Option.some.inj h
      rfl
  | liveText =>
      obtain rfl := Option.some.inj h
      rfl
  | _ => rfl

theorem accept_step (w : Writers) (api : ApiServer) (hdown : api.down = none) (r : ReadResult)
    (reads : Reads) :
    (api.step w (.accept r reads)).conns = api.conns ∨
      ∃ command pc, handle w reads command = some pc ∧
        (api.step w (.accept r reads)).conns = api.conns ++ [{ command := command, pc := pc }] ∧
        (api.step w (.accept r reads)).down = none := by
  simp only [ApiServer.step, hdown, Option.isSome_none, Bool.false_eq_true, if_false]
  split
  · rcases ApiServer.accept_cases w api r reads with ⟨hconns, -⟩ | ⟨command, pc, hhandle, hconns, hd⟩
    · exact Or.inl hconns
    · exact Or.inr ⟨command, pc, hhandle, hconns, hd.trans hdown⟩
  · exact Or.inl rfl

theorem Mirrors.accept (h : s.Mirrors w t) (hdead : s.dead = false) (r : ReadResult)
    (other : Bytes → Option DBController.Sums) (midnight : Int64) :
    (s.step w (.accept r other midnight)).Mirrors w
      (exec LiveSystem.step t (s.liveActions w (.accept r other midnight))) := by
  have hdown : s.api.down = none := by
    simpa [dead] using (Bool.or_eq_false_iff.mp hdead).2
  have hstep : s.step w (.accept r other midnight) =
      { s with api := s.api.step w (.accept r (s.reads other midnight)) } := by
    simp [step, hdead]
  have hactions : s.liveActions w (.accept r other midnight) =
      match (s.api.step w (.accept r (s.reads other midnight))).conns[s.api.conns.length]? with
      | none => []
      | some c => (c.command.stream.map (.connect s.api.conns.length)).toList := by
    rw [liveActions, hstep]
    simp [hdead]
  rw [hstep, hactions]
  rcases accept_step w s.api hdown r (s.reads other midnight) with
    hconns | ⟨command, pc, hhandle, hconns, halive⟩
  · rw [hconns, List.getElem?_eq_none (Nat.le_refl _), exec_nil]
    exact h.of_conns hconns fun _ => hdown
  · obtain ⟨hframe, hstream, hsent⟩ := h.fresh s.api.conns.length (List.getElem?_eq_none (Nat.le_refl _))
    have hsaid : ∀ t' : LiveSystem, t'.sent = t.sent →
        ∃ reads sent hand, Conversation w reads sent hand { command := command, pc := pc } ∧
          sent.map Prod.fst = t'.sent s.api.conns.length ∧
          (∀ m ∈ sent, m.2 = t'.sys.storage.mInterval) ∧
          ((s.api.step w (.accept r (s.reads other midnight))).down = none → ∀ m, hand = some m →
            ∃ f, s.frame s.api.conns.length = some f ∧ f < t'.nextFrame ∧
              t'.deposited[t'.registeredAt f]? = some m.1 ∧ m.2 = t'.sys.storage.mInterval) :=
      fun t' hsame => ⟨_, [], none, conversation_handle hhandle, (hsame ▸ hsent).symm,
        fun _ hm => absurd hm List.not_mem_nil, fun _ _ hm => absurd hm (by simp)⟩
    have hself : (s.api.step w (.accept r (s.reads other midnight))).conns[s.api.conns.length]? =
        some { command := command, pc := pc } := by
      rw [hconns, List.getElem?_concat_length]
    have hothers : ∀ j, j ≠ s.api.conns.length →
        (s.api.step w (.accept r (s.reads other midnight))).conns[j]? = s.api.conns[j]? := by
      intro j hj
      rw [hconns]
      rcases Nat.lt_or_ge j s.api.conns.length with hlt | hge
      · exact List.getElem?_append_left hlt
      · rw [List.getElem?_eq_none hge, List.getElem?_eq_none]
        rw [List.length_append, List.length_singleton]
        omega
    have hpc := streamPc_handle hhandle
    rw [hself]
    cases hcommand : command.stream with
    | none =>
        rw [hcommand] at hpc
        simp only [hcommand, Option.map_none, Option.toList_none, exec_nil]
        exact h.of_conn h.sys h.nextFrame hself hothers (fun _ _ => rfl) (fun _ => hdown)
          (fun _ _ => rfl) (fun _ _ => rfl) rfl rfl (fun _ _ => rfl) (Nat.le_refl _)
          ⟨fun f hf => absurd (hframe.symm.trans hf) (by simp),
            fun _ => by rw [hframe, hstream]; exact hpc.symm, hsaid t rfl⟩
    | some kind =>
        rw [hcommand] at hpc
        have hconnect : t.step (.connect s.api.conns.length kind) =
            t.setPc s.api.conns.length (streamPc none command pc) := by
          rw [hpc]
          cases kind <;> simp [LiveSystem.step, hstream]
        simp only [hcommand, Option.map_some, Option.toList_some, exec_cons, exec_nil, hconnect]
        exact h.of_conn h.sys h.nextFrame hself hothers (fun _ _ => rfl) (fun _ => hdown)
          (fun _ hj => LiveSystem.streams_setPc_of_ne hj) (fun _ _ => rfl) rfl rfl (fun _ _ => rfl)
          (Nat.le_refl _)
          ⟨fun f hf => absurd (hframe.symm.trans hf) (by simp),
            fun _ => by rw [hframe]; exact LiveSystem.streams_setPc, hsaid _ rfl⟩

theorem Mirrors.disconnect (h : s.Mirrors w t) (hdown : s.api.down = none) (conn : Nat) :
    Mirrors w { s with api := s.api.step w (.disconnect conn) } (t.step (.disconnect conn)) := by
  cases hc : s.api.conns[conn]? with
  | none =>
      have hstep : s.api.step w (.disconnect conn) = s.api := by
        unfold ApiServer.step
        simp [hdown, hc]
      rw [hstep]
      exact ⟨h.sys, h.nextFrame, fun j c hj => (h.conns j c hj).of_same id rfl rfl (fun _ _ hm => hm)
        rfl (fun _ _ => rfl) (Nat.le_refl _), h.fresh⟩
  | some c =>
      have hstep : s.api.step w (.disconnect conn) =
          { s.api with conns := s.api.conns.set conn { c with gone := true } } := by
        unfold ApiServer.step
        simp [hdown, hc]
      rw [hstep]
      have hlt : conn < s.api.conns.length := (List.getElem?_eq_some_iff.mp hc).1
      have hself : ConnMirrors w (s.api.down = none) (t.step (.disconnect conn)) conn
          (s.frame conn) c :=
        (h.conns conn c hc).of_same id rfl rfl (fun _ _ hm => hm) rfl (fun _ _ => rfl)
          (Nat.le_refl _)
      refine h.of_conn h.sys h.nextFrame (List.getElem?_set_self hlt)
        (fun j hj => List.getElem?_set_ne (Ne.symm hj)) (fun _ _ => rfl) id (fun _ _ => rfl)
        (fun _ _ => rfl) rfl rfl (fun _ _ => rfl) (Nat.le_refl _) ⟨hself.framed, hself.stream, ?_⟩
      obtain ⟨reads, sent, hand, hconversation, hrest⟩ := hself.said
      exact ⟨reads, sent, hand, hconversation.congr rfl rfl rfl, hrest⟩

/-! ### The thread of a connection -/

theorem call_cases {api : ApiServer} (hdown : api.down = none) {conn : Nat} {c : ApiConn}
    (hc : api.conns[conn]? = some c) (a : Answer) :
    (∃ d, api.step w (.advance conn a) = { api with down := some d } ∧
      (c.brokenPipe = true ∨ c.pc.next w a = none)) ∨
    ∃ pc, c.pc.next w a = some pc ∧ api.step w (.advance conn a) =
      { api with
        conns := api.conns.set conn { c with pc := pc, calls := c.calls ++ c.pc.call.toList } } := by
  have hstep : api.step w (.advance conn a) = api.advance w conn c a := by
    unfold ApiServer.step
    simp [hdown, hc]
  rw [hstep]
  rcases ApiServer.advance_cases w api conn c a with ⟨hbroken, h⟩ | ⟨-, hnext, h⟩ | ⟨-, pc, hnext, h⟩
  · exact Or.inl ⟨_, h, Or.inl hbroken⟩
  · exact Or.inl ⟨_, h, Or.inr hnext⟩
  · exact Or.inr ⟨pc, hnext, h⟩

/-- A thread makes a call, or the daemon goes down with it. -/
theorem Mirrors.call (h : s.Mirrors w t) (hdown : s.api.down = none) {conn : Nat} {c : ApiConn}
    (hc : s.api.conns[conn]? = some c) {a : Answer} {s' : Service} {t' : LiveSystem}
    (hapi : s'.api = s.api.step w (.advance conn a)) (hsys : t'.sys = s'.monitor.sys)
    (hnext : t'.nextFrame = s'.nextFrame) (hframe : ∀ j, j ≠ conn → s'.frame j = s.frame j)
    (hstreams : ∀ j, j ≠ conn → t'.streams j = t.streams j)
    (hsent : ∀ j, j ≠ conn → t'.sent j = t.sent j) (hdeposited : t'.deposited = t.deposited)
    (hinterval : t'.sys.storage.mInterval = t.sys.storage.mInterval)
    (hat : t'.registeredAt = t.registeredAt) (hle : t.nextFrame ≤ t'.nextFrame)
    (hdies : c.brokenPipe = true ∨ c.pc.next w a = none →
      ConnMirrors w False t' conn (s'.frame conn) c)
    (hlives : ∀ pc, c.pc.next w a = some pc → ConnMirrors w True t' conn (s'.frame conn)
      { c with pc := pc, calls := c.calls ++ c.pc.call.toList }) : s'.Mirrors w t' := by
  have hlt : conn < s.api.conns.length := (List.getElem?_eq_some_iff.mp hc).1
  rcases call_cases (w := w) hdown hc a with ⟨d, hstep, hend⟩ | ⟨pc, hpc, hstep⟩ <;> rw [hstep] at hapi
  · refine h.of_conn hsys hnext (by rw [hapi]; exact hc) (fun _ _ => by rw [hapi]) hframe
      (fun _ => hdown) hstreams hsent hdeposited hinterval (fun _ _ => by rw [hat]) hle ?_
    exact (hdies hend).of_same (fun hnone => absurd (hapi ▸ hnone) (by simp)) rfl rfl
      (fun _ _ hm => hm) rfl (fun _ _ => rfl) (Nat.le_refl _)
  · refine h.of_conn hsys hnext (by rw [hapi]; exact List.getElem?_set_self hlt)
      (fun j hj => by rw [hapi]; exact List.getElem?_set_ne (Ne.symm hj)) hframe
      (fun _ => hdown) hstreams hsent hdeposited hinterval (fun _ _ => by rw [hat]) hle ?_
    exact (hlives pc hpc).of_same (fun _ => trivial) rfl rfl (fun _ _ hm => hm) rfl
      (fun _ _ => rfl) (Nat.le_refl _)

theorem hand_eq_none {reads : Reads} {sent : List Update} {hand : Option Update} {c : ApiConn}
    (h : Conversation w reads sent hand c) (hpc : ∀ kind msg, c.pc ≠ .update kind msg) :
    hand = none := by
  unfold Conversation at h
  split at h
  · generalize c.pc = pc, c.calls = calls at h hpc
    cases h with
    | update => exact absurd rfl (hpc _ _)
    | _ => rfl
  · exact h.2.1

theorem exists_hand {reads : Reads} {sent : List Update} {hand : Option Update} {c : ApiConn}
    (h : Conversation w reads sent hand c) {kind : StreamKind} {msg : Bytes}
    (hpc : c.pc = .update kind msg) : ∃ m, hand = some m := by
  unfold Conversation at h
  rw [hpc] at h
  split at h
  · generalize c.calls = calls at h
    cases h with
    | update _ _ m => exact ⟨m, rfl⟩
  · obtain ⟨-, -, _, _, -, hreplied⟩ := h
    generalize c.calls = calls at hreplied
    cases hreplied

/-- Only the handlers of streams get to a frame or to a welcome. -/
theorem exists_stream {reads : Reads} {sent : List Update} {hand : Option Update} {c : ApiConn}
    (h : Conversation w reads sent hand c)
    (hpc : c.pc = .welcome ∨ (∃ kind, c.pc = .await kind) ∨ ∃ kind msg, c.pc = .update kind msg) :
    ∃ kind, c.command.stream = some kind := by
  unfold Conversation at h
  split at h
  · exact ⟨_, by assumption⟩
  · obtain ⟨-, -, _, _, -, hreplied⟩ := h
    generalize c.pc = pc, c.calls = calls at hreplied hpc
    cases hreplied <;> simp at hpc

/-- A call that is not of an update leaves what was sent. -/
theorem ConnMirrors.said_next {alive : Prop} {t' : LiveSystem} {conn : Nat} {frame : Option Nat}
    {c : ApiConn} (h : ConnMirrors w alive t conn frame c)
    (hpc : ∀ kind msg, c.pc ≠ .update kind msg) {a : Answer} {pc : HandlerPc}
    (hnext : c.pc.next w a = some pc) (hsent : t'.sent conn = t.sent conn)
    (hinterval : t'.sys.storage.mInterval = t.sys.storage.mInterval) {frame' : Option Nat}
    (hoffered : ∀ m, c.pc.offered a = some m → ∃ f, frame' = some f ∧ f < t'.nextFrame ∧
      t'.deposited[t'.registeredAt f]? = some m.1 ∧ m.2 = t'.sys.storage.mInterval) :
    ∃ reads sent hand, Conversation w reads sent hand
        { c with pc := pc, calls := c.calls ++ c.pc.call.toList } ∧
      sent.map Prod.fst = t'.sent conn ∧ (∀ m ∈ sent, m.2 = t'.sys.storage.mInterval) ∧
      (True → ∀ m, hand = some m → ∃ f, frame' = some f ∧ f < t'.nextFrame ∧
        t'.deposited[t'.registeredAt f]? = some m.1 ∧ m.2 = t'.sys.storage.mInterval) := by
  obtain ⟨reads, sent, hand, hconversation, hmaps, hintervals, -⟩ := h.said
  obtain rfl := hand_eq_none hconversation hpc
  have hconversation' := hconversation.next hnext
  rw [Option.toList_none, List.append_nil] at hconversation'
  exact ⟨reads, sent, _, hconversation', hmaps.trans hsent.symm,
    fun m hm => (hintervals m hm).trans hinterval.symm, fun _ => hoffered⟩

theorem Mirrors.welcome (h : s.Mirrors w t) (hdown : s.api.down = none) {conn : Nat} {c : ApiConn}
    (hc : s.api.conns[conn]? = some c) (hpc : c.pc = .welcome) (ok : Bool) :
    Mirrors w { s with api := s.api.step w (.advance conn { sent := ok }) }
      (t.step (.greet conn ok)) := by
  have hconn := h.conns conn c hc
  obtain ⟨reads, sent, hand, hconversation, -⟩ := id hconn.said
  obtain ⟨kind, hkind⟩ := exists_stream hconversation (Or.inl hpc)
  have hframe : s.frame conn = none := by
    refine Option.eq_none_iff_forall_ne_some.mpr fun f hf => ?_
    rcases hconn.framed f hf with ⟨_, h⟩ | ⟨_, _, h⟩ <;> exact absurd (hpc.symm.trans h) (by simp)
  have hstream : t.streams conn = .greeting := by
    rw [hconn.stream hdown, streamPc_of_some hkind, hpc, threadPc]
  have hgreet : t.step (.greet conn ok) = t.setPc conn (if ok then .ready else .ended) := by
    simp only [LiveSystem.step, hstream]
  rw [hgreet]
  refine h.call hdown hc rfl h.sys h.nextFrame (fun _ _ => rfl)
    (fun _ hj => LiveSystem.streams_setPc_of_ne hj) (fun _ _ => rfl) rfl rfl rfl (Nat.le_refl _)
    (fun hend => ?_) fun pc hnext => ⟨fun f hf => absurd (hframe.symm.trans hf) (by simp), fun _ => ?_,
      hconn.said_next (by simp [hpc]) hnext rfl rfl fun m hm => absurd hm (by simp [hpc, HandlerPc.offered])⟩
  · rcases hend with hend | hend <;> simp [ApiConn.brokenPipe, HandlerPc.call, HandlerPc.next, hpc] at hend
  · rw [hpc, HandlerPc.next, Option.some.injEq] at hnext
    rw [LiveSystem.streams_setPc, streamPc_of_some hkind, ← hnext, hframe]
    cases ok <;> rfl

theorem Mirrors.register (h : s.Mirrors w t) (hdead : s.dead = false) {conn : Nat} {c : ApiConn}
    (hc : s.api.conns[conn]? = some c) {kind : StreamKind} (hpc : c.pc = .await kind)
    (hframe : s.frame conn = none) : (s.register w conn).Mirrors w (t.step (.await conn)) := by
  obtain ⟨hfault, hdown⟩ := Bool.or_eq_false_iff.mp hdead
  rw [Option.isSome_eq_false_iff, Option.isNone_iff_eq_none] at hfault hdown
  have hconn := h.conns conn c hc
  obtain ⟨reads, sent, hand, hconversation, hmaps, hintervals, -⟩ := id hconn.said
  obtain ⟨kind', hkind⟩ := exists_stream hconversation (Or.inr (Or.inl ⟨kind, hpc⟩))
  have hhand := hand_eq_none hconversation (by simp [hpc])
  have hstream : t.streams conn = .ready := by
    rw [hconn.stream hdown, streamPc_of_some hkind, hpc, hframe, threadPc]
  have hawait : t.step (.await conn) = t.awaitStep conn := by
    simp only [LiveSystem.step, hstream]
  rw [hawait, Service.register, ← h.sys, ← h.nextFrame]
  cases hw : t.sys.storage.mAPIWaiting with
  | false =>
      obtain ⟨hdeposited, -, hsent⟩ := LiveSystem.record_awaitStep conn hw
      obtain ⟨-, -, hinterval⟩ := LiveSystem.storage_awaitStep conn hw
      have hsys : (t.awaitStep conn).sys = (s.monitor.step (.await t.nextFrame)).sys := by
        have hstep : s.monitor.step (.await t.nextFrame) =
            { s.monitor with sys := s.monitor.sys.step (.await t.nextFrame) } := by
          unfold Monitor.step
          simp [hfault]
        rw [hstep, LiveSystem.awaitStep, ← h.sys, System.step,
          TrafficStorage.awaitSnapshot_of_free hw]
      rw [TrafficStorage.awaitSnapshot_of_free hw, if_pos rfl]
      refine h.of_conn hsys (LiveSystem.nextFrame_awaitStep hw) hc (fun _ _ => rfl)
        (fun j hj => Function.update_of_ne hj _ _) id
        (fun j hj => LiveSystem.streams_awaitStep_of_ne hw hj) (fun j _ => congrFun hsent j)
        hdeposited hinterval
        (fun f hf => LiveSystem.registeredAt_awaitStep_of_ne hw (Nat.ne_of_lt hf))
        (by rw [LiveSystem.nextFrame_awaitStep hw]; exact Nat.le_succ _)
        ⟨fun _ _ => Or.inl ⟨kind, hpc⟩, fun _ => ?_, reads, sent, hand, hconversation,
          hmaps.trans (congrFun hsent conn).symm, fun m hm => (hintervals m hm).trans hinterval.symm,
          fun _ m hm => absurd (hhand.symm.trans hm) (by simp)⟩
      rw [LiveSystem.streams_awaitStep hw, streamPc_of_some hkind, hpc]
      dsimp only
      rw [Function.update_self, threadPc]
  | true =>
      have hended : t.awaitStep conn = t.setPc conn .ended := by
        rw [LiveSystem.awaitStep, TrafficStorage.awaitSnapshot_of_waiting hw]
        rfl
      rw [hended, TrafficStorage.awaitSnapshot_of_waiting hw, if_neg (by simp)]
      refine h.call hdown hc rfl h.sys rfl (fun _ _ => rfl)
        (fun _ hj => LiveSystem.streams_setPc_of_ne hj) (fun _ _ => rfl) rfl rfl rfl (Nat.le_refl _)
        (fun _ => ?_) fun pc hnext => ⟨fun f hf => absurd (hframe.symm.trans hf) (by simp),
          fun _ => ?_, hconn.said_next (by simp [hpc]) hnext rfl rfl
            fun m hm => absurd hm (by simp [hpc, HandlerPc.offered])⟩
      · exact ⟨hconn.framed, fun ha => ha.elim, reads, sent, hand, hconversation, hmaps, hintervals,
          fun ha => ha.elim⟩
      · rw [hpc, HandlerPc.next] at hnext
        obtain ⟨msg, noSignal, rfl⟩ := HandlerPc.reject_eq hnext
        rw [LiveSystem.streams_setPc, streamPc_of_some hkind]
        rfl

theorem Mirrors.collect (h : s.Mirrors w t) (hinv : t.HandOffInv) (hdown : s.api.down = none)
    {conn f : Nat} {c : ApiConn} (hc : s.api.conns[conn]? = some c) {kind : StreamKind}
    (hpc : c.pc = .await kind) (hframe : s.frame conn = some f)
    (hfree : (t.sys.frames f).locked = false) :
    (s.collect w conn f).Mirrors w (t.lockStep conn f) := by
  have hconn := h.conns conn c hc
  obtain ⟨reads, sent, hand, hconversation, hmaps, hintervals, -⟩ := id hconn.said
  obtain ⟨kind', hkind⟩ := exists_stream hconversation (Or.inr (Or.inl ⟨kind, hpc⟩))
  have hstream : t.streams conn = .waiting f := by
    rw [hconn.stream hdown, streamPc_of_some hkind, hpc, hframe, threadPc]
  obtain ⟨hmap, hinterval⟩ := hinv.handed conn f (Or.inl ⟨hstream, hfree⟩)
  have hlt : f < t.nextFrame := hinv.frame_lt conn f (Or.inl hstream)
  have hoffered : ∀ m, c.pc.offered
      ⟨true, some ((t.sys.frames f).trafficMap, (t.sys.frames f).interval)⟩ = some m →
        ∃ f', s.frame conn = some f' ∧ f' < t.nextFrame ∧
          t.deposited[t.registeredAt f']? = some m.1 ∧ m.2 = t.sys.storage.mInterval := by
    intro m hm
    rw [hpc, HandlerPc.offered, Option.some.injEq] at hm
    exact ⟨f, hframe, hlt, hm ▸ hmap, hm ▸ hinterval⟩
  rw [Service.collect, ← h.sys]
  refine h.call hdown hc rfl (by rw [LiveSystem.lockStep]) h.nextFrame (fun _ _ => rfl)
    (fun _ hj => LiveSystem.streams_lockStep_of_ne hj) (fun _ _ => rfl) rfl rfl rfl (Nat.le_refl _)
    (fun _ => ?_) fun pc hnext => ⟨fun f' _ => ?_, fun _ => ?_,
      hconn.said_next (by simp [hpc]) hnext rfl rfl hoffered⟩
  · exact ⟨hconn.framed, fun ha => ha.elim, reads, sent, hand, hconversation, hmaps, hintervals,
      fun ha => ha.elim⟩
  · rw [hpc, HandlerPc.next] at hnext
    obtain ⟨msg, rfl⟩ := HandlerPc.serve_eq hnext
    exact Or.inr ⟨kind, msg, rfl⟩
  · rw [hpc, HandlerPc.next] at hnext
    obtain ⟨msg, rfl⟩ := HandlerPc.serve_eq hnext
    rw [LiveSystem.streams_lockStep, streamPc_of_some hkind, hframe, threadPc]

/-- What is sent is the map of the deposit that the frame was bound for. -/
theorem Mirrors.send (h : s.Mirrors w t) (hinv : t.HandOffInv) (hdown : s.api.down = none)
    {conn : Nat} {c : ApiConn} (hc : s.api.conns[conn]? = some c) {kind : StreamKind} {msg : Bytes}
    (hpc : c.pc = .update kind msg) (ok : Bool) :
    Mirrors w
      { s with
        api := s.api.step w (.advance conn { sent := ok })
        frame := Function.update s.frame conn none }
      (t.step (.send conn ok)) := by
  have hconn := h.conns conn c hc
  obtain ⟨reads, sent, hand, hconversation, hmaps, hintervals, hhand⟩ := id hconn.said
  obtain ⟨kind', hkind⟩ := exists_stream hconversation (Or.inr (Or.inr ⟨kind, msg, hpc⟩))
  obtain ⟨m, rfl⟩ := exists_hand hconversation hpc
  obtain ⟨f, hframe, hlt, hmap, hinterval⟩ := hhand hdown m rfl
  have hstream : t.streams conn = .served f := by
    rw [hconn.stream hdown, streamPc_of_some hkind, hpc, hframe, threadPc]
  have hsend : t.step (.send conn ok) = t.sendStep conn f ok := by
    simp only [LiveSystem.step, hstream]
  have hserved : (t.sys.frames f).trafficMap = m.1 :=
    Option.some.inj ((hinv.handed conn f (Or.inr hstream)).1.symm.trans hmap)
  have hself : (t.sendStep conn f ok).sent conn = t.sent conn ++ [m.1] := by
    rw [← hserved]
    exact Function.update_self _ _ _
  rw [hsend]
  refine h.call hdown hc rfl h.sys h.nextFrame (fun j hj => Function.update_of_ne hj _ _)
    (fun _ hj => LiveSystem.streams_sendStep_of_ne hj) (fun _ hj => Function.update_of_ne hj _ _)
    rfl rfl rfl (Nat.le_refl _) (fun hend => ?_) fun pc hnext => ⟨fun f' hf' => ?_, fun _ => ?_,
      reads, sent ++ [m], none, ?_, ?_, fun m' hm' => ?_, fun _ _ hnone => absurd hnone (by simp)⟩
  · rcases hend with hend | hend <;>
      simp [ApiConn.brokenPipe, HandlerPc.call, HandlerPc.next, hpc] at hend
  · exact absurd ((Function.update_self _ _ _).symm.trans hf') (by simp)
  · rw [hpc, HandlerPc.next, Option.some.injEq] at hnext
    rw [LiveSystem.streams_sendStep, streamPc_of_some hkind, ← hnext]
    dsimp only
    rw [Function.update_self]
    cases ok <;> rfl
  · have hoffered : c.pc.offered { sent := ok } = none := by rw [hpc]; rfl
    exact hoffered ▸ hconversation.next hnext
  · rw [List.map_append, hmaps, hself]
    rfl
  · rcases List.mem_append.mp hm' with hm' | hm'
    · exact hintervals m' hm'
    · rw [List.mem_singleton.mp hm']
      exact hinterval

/-- Any other call is not one of a stream at its loop. -/
theorem Mirrors.other (h : s.Mirrors w t) (hdown : s.api.down = none) {conn : Nat} {c : ApiConn}
    (hc : s.api.conns[conn]? = some c)
    (hpc : (∃ msg noSignal, c.pc = .reply msg noSignal) ∨ c.pc = .closing ∨ c.pc = .returned)
    (ok : Bool) : Mirrors w { s with api := s.api.step w (.advance conn { sent := ok }) } t := by
  have hconn := h.conns conn c hc
  obtain ⟨reads, sent, hand, hconversation, hmaps, hintervals, -⟩ := id hconn.said
  have hframe : s.frame conn = none := by
    refine Option.eq_none_iff_forall_ne_some.mpr fun f hf => ?_
    rcases hconn.framed f hf with ⟨_, h⟩ | ⟨_, _, h⟩ <;> simp [h] at hpc
  have hnot : ∀ kind msg, c.pc ≠ .update kind msg := by
    intro kind msg h
    simp [h] at hpc
  have hoffered : c.pc.offered { sent := ok } = none := by
    rcases hpc with ⟨_, _, h⟩ | h | h <;> rw [h] <;> rfl
  refine h.call hdown hc rfl h.sys h.nextFrame (fun _ _ => rfl) (fun _ _ => rfl) (fun _ _ => rfl)
    rfl rfl rfl (Nat.le_refl _) (fun _ => ?_) fun pc hnext =>
      ⟨fun f hf => absurd (hframe.symm.trans hf) (by simp), fun _ => ?_,
        hconn.said_next hnot hnext rfl rfl fun m hm => absurd (hoffered.symm.trans hm) (by simp)⟩
  · exact ⟨hconn.framed, fun ha => ha.elim, reads, sent, hand, hconversation, hmaps, hintervals,
      fun ha => ha.elim⟩
  · have hbefore := hconn.stream hdown
    rw [hframe] at hbefore
    rw [hbefore, hframe]
    cases hkind : c.command.stream with
    | none => rw [streamPc_of_none hkind, streamPc_of_none hkind]
    | some kind =>
        rw [streamPc_of_some hkind, streamPc_of_some hkind]
        rcases hpc with ⟨_, _, h⟩ | h | h <;> rw [h, HandlerPc.next, Option.some.injEq] at hnext <;>
          rw [h, ← hnext] <;> rfl

theorem Mirrors.advance (h : s.Mirrors w t) (hinv : t.HandOffInv) (hdead : s.dead = false)
    (conn : Nat) (ok : Bool) : (s.step w (.advance conn ok)).Mirrors w
      (exec LiveSystem.step t (s.liveActions w (.advance conn ok))) := by
  have hdown : s.api.down = none := by
    simpa [dead] using (Bool.or_eq_false_iff.mp hdead).2
  have hstep : s.step w (.advance conn ok) = s.advance w conn ok := by
    simp [step, hdead]
  rw [hstep, Service.advance, liveActions, if_neg (by simp [hdead])]
  cases hc : s.api.conns[conn]? with
  | none => simpa [hc] using h
  | some c =>
      simp only
      cases hpc : c.pc with
      | welcome => exact h.welcome hdown hc hpc ok
      | await kind =>
          cases hframe : s.frame conn with
          | none =>
              simp only
              exact h.register hdead hc hpc hframe
          | some f =>
              obtain ⟨reads, sent, hand, hconversation, -⟩ := id (h.conns conn c hc).said
              obtain ⟨kind', hkind⟩ := exists_stream hconversation (Or.inr (Or.inl ⟨kind, hpc⟩))
              have hstream : t.streams conn = .waiting f := by
                rw [(h.conns conn c hc).stream hdown, streamPc_of_some hkind, hpc, hframe, threadPc]
              simp only [exec_cons, exec_nil, LiveSystem.step, hstream, ← h.sys]
              cases hlocked : (t.sys.frames f).locked with
              | true => exact h
              | false => exact h.collect hinv hdown hc hpc hframe hlocked
      | update kind msg => exact h.send hinv hdown hc hpc ok
      | reply msg noSignal => exact h.other hdown hc (Or.inl ⟨msg, noSignal, hpc⟩) ok
      | closing => exact h.other hdown hc (Or.inr (Or.inl hpc)) ok
      | returned => exact h.other hdown hc (Or.inr (Or.inr hpc)) ok

/-! ### Every run -/

theorem mirrors_step (h : s.Mirrors w t) (hinv : t.HandOffInv) (a : ServiceAction) :
    (s.step w a).Mirrors w (exec LiveSystem.step t (s.liveActions w a)) := by
  cases hdead : s.dead with
  | true =>
      have hstep : s.step w a = s := by
        unfold step
        exact if_pos hdead
      have hactions : s.liveActions w a = [] := by
        unfold liveActions
        exact if_pos hdead
      rw [hstep, hactions]
      exact h
  | false =>
      have hdown : s.api.down = none := by
        simpa [dead] using (Bool.or_eq_false_iff.mp hdead).2
      cases a with
      | monitor a =>
          cases hown : a.own with
          | true => simpa [step, liveActions, hdead, hown] using h.monitor hown
          | false => simpa [step, liveActions, hdead, hown] using h
      | accept r other midnight => exact h.accept hdead r other midnight
      | advance conn ok => exact h.advance hinv hdead conn ok
      | disconnect conn => simpa [step, liveActions, hdead] using h.disconnect hdown conn

theorem mInterval_step (t : LiveSystem) (a : LiveAction) :
    (t.step a).sys.storage.mInterval = t.sys.storage.mInterval := by
  have hmoves := t.moves_step a
  generalize t.step a = t' at hmoves
  cases hmoves with
  | accepted _ hfree => exact (LiveSystem.storage_awaitStep _ hfree).2.2
  | deposit => exact (t.sys.kept_step _).2
  | add _ _ _ hstorage =>
      obtain ⟨m, hm⟩ := hstorage
      simp only [hm]
  | _ => rfl

theorem handOffInv_exec (h : t.HandOffInv) {as : List LiveAction} :
    (exec LiveSystem.step t as).HandOffInv :=
  (always_of_inv (I := LiveSystem.HandOffInv) (fun _ a h => LiveSystem.handOffInv_step h a)
    (fun _ h => h) h).last

theorem mInterval_exec (interval : Int32) (db : Database) (as : List LiveAction) :
    (exec LiveSystem.step (LiveSystem.init interval db) as).sys.storage.mInterval = interval :=
  (always_of_inv (I := fun t : LiveSystem => t.sys.storage.mInterval = interval)
    (fun t a h => (mInterval_step t a).trans h) (fun _ h => h) rfl).last

theorem mirrors_init (iplist : IPList) (resolver : ProcessResolver) (interval : Int32)
    (db : Database) : (init iplist resolver interval db).Mirrors w (LiveSystem.init interval db) where
  sys := rfl
  nextFrame := rfl
  conns _ _ hc := absurd hc (by simp [init])
  fresh _ _ := ⟨rfl, rfl, rfl⟩

/-- **The daemon is a system of streams**, in every run. -/
theorem mirrors_run (w : Writers) (iplist : IPList) (resolver : ProcessResolver) (interval : Int32)
    (db : Database) (as : List ServiceAction) :
    ∃ bs, (exec (step w) (init iplist resolver interval db) as).Mirrors w
      (exec LiveSystem.step (LiveSystem.init interval db) bs) := by
  have hall : Along (step w) (fun _ _ => True) (init iplist resolver interval db) as :=
    along_of_inv (I := fun _ => True) (fun _ _ _ => trivial) (fun _ _ _ => trivial) trivial
  have hrun : (exec (step w) (init iplist resolver interval db) as).Mirrors w
      (exec LiveSystem.step (LiveSystem.init interval db)
        (trace (step w) (liveActions w) (init iplist resolver interval db) as)) ∧
      (exec LiveSystem.step (LiveSystem.init interval db)
        (trace (step w) (liveActions w) (init iplist resolver interval db) as)).HandOffInv :=
    follows (R := fun s t => s.Mirrors w t ∧ t.HandOffInv)
      (fun s t a h _ => ⟨mirrors_step h.1 h.2 a, handOffInv_exec h.2⟩)
      ⟨mirrors_init iplist resolver interval db, LiveSystem.handOffInv_init interval db⟩ hall
  exact ⟨_, hrun.1⟩

/-! ### The messages -/

/-- A message about a map, as the client of a stream understands it. -/
def TellsOf (w : Writers) (read : Bytes → Option Json) (traffic : TrafficMap) (interval : Int32) :
    StreamKind → SocketCall → Prop
  | .live, call => ∃ text, call = .send text true ∧
      Reply.ofText read text = some (Reply.ofTraffic traffic (some interval))
  | .liveText, call => call = .send (liveTextMsg w traffic interval) true

theorem tellsOf_of_sentAs {read : Bytes → Option Json} (hread : Json.Inverse read w.dump)
    {kind : StreamKind} {m : Update} {call : SocketCall} (h : SentAs w kind m call) :
    TellsOf w read m.1 m.2 kind call := by
  obtain ⟨msg, hserve, rfl⟩ := h
  cases kind with
  | live =>
      obtain ⟨text, htext, hpc⟩ := Option.map_eq_some_iff.mp hserve
      obtain ⟨-, rfl⟩ := HandlerPc.update.inj hpc
      exact ⟨text, rfl, Reply.ofText_livePayload hread htext⟩
  | liveText =>
      obtain ⟨-, rfl⟩ := HandlerPc.update.inj (Option.some.inj hserve)
      rfl

/-- The messages of a stream stand together on its socket. -/
theorem said_infix {kind : StreamKind} {sent : List Update} {hand : Option Update} {pc : HandlerPc}
    {calls : List SocketCall} (h : StreamAt w kind sent hand pc calls) :
    ∃ said, said <:+: calls ∧ List.Forall₂ (SentAs w kind) sent said := by
  cases h with
  | welcome _ hsent => exact ⟨[], List.nil_infix, hsent ▸ .nil⟩
  | unwelcomed _ hsent => exact ⟨[], List.nil_infix, hsent ▸ .nil⟩
  | await said hsaid => exact ⟨said, ⟨opening kind, [], by simp⟩, hsaid⟩
  | update said hsaid => exact ⟨said, ⟨opening kind, [], by simp⟩, hsaid⟩
  | rejecting said hsaid => exact ⟨said, ⟨opening kind, [], by simp⟩, hsaid⟩
  | closing said last hsaid => exact ⟨said, ⟨opening kind, last, rfl⟩, hsaid⟩
  | returned said last hsaid => exact ⟨said, ⟨opening kind, last ++ [.close], by simp⟩, hsaid⟩

/--
**What the streams of the daemon say, in every run.**  A stream has the conversation of its command;
each update that it has sent is the map of a deposit with the interval, and tells a client of it, and
the numbers of these deposits go up along the stream and are on no other.
-/
theorem streams_run (w : Writers) (read : Bytes → Option Json) (hread : Json.Inverse read w.dump)
    (iplist : IPList) (resolver : ProcessResolver) (interval : Int32) (db : Database)
    (as : List ServiceAction) :
    ∃ numbers : Nat → List Nat, (∀ conn, (numbers conn).Pairwise (· < ·)) ∧
      (∀ conn conn', conn ≠ conn' → ∀ n ∈ numbers conn, n ∉ numbers conn') ∧
      ∀ conn c kind, (exec (step w) (init iplist resolver interval db) as).api.conns[conn]? = some c →
        c.command.stream = some kind →
          ∃ sent hand said, StreamAt w kind sent hand c.pc c.calls ∧ said <:+: c.calls ∧
            List.Forall₂ (fun m n => m.2 = interval ∧
              (exec (step w) (init iplist resolver interval db) as).monitor.sys.deposited[n]? =
                some m.1) sent (numbers conn) ∧
            List.Forall₂ (fun m call => SentAs w kind m call ∧ TellsOf w read m.1 m.2 kind call)
              sent said := by
  obtain ⟨bs, h⟩ := mirrors_run w iplist resolver interval db as
  obtain ⟨numbers, hnumbers⟩ := LiveSystem.deliveries_exec interval db bs
  refine ⟨numbers, hnumbers.sorted, hnumbers.apart, fun conn c kind hc hkind => ?_⟩
  obtain ⟨reads, sent, hand, hconversation, hmaps, hintervals, -⟩ := (h.conns conn c hc).said
  rw [Conversation, hkind] at hconversation
  obtain ⟨said, hinfix, hsaid⟩ := said_infix hconversation
  refine ⟨sent, hand, said, hconversation, hinfix, ?_, ?_⟩
  · have hdeposits := hnumbers.maps conn
    rw [← hmaps, List.forall₂_map_right_iff] at hdeposits
    rw [mInterval_exec] at hintervals
    rw [← h.sys]
    exact (List.forall₂_and_left _ _).mpr ⟨hintervals, hdeposits.flip⟩
  · exact hsaid.imp fun _ _ hsentAs => ⟨hsentAs, tellsOf_of_sentAs hread hsentAs⟩

/-- A client of `live` over one interval. -/
def oneInterval : List ServiceAction :=
  [.accept ApiServer.liveRequest (fun _ => none) 0, .advance 0 true,
    .monitor (.deposit 1672549200 {}), .advance 0 true, .advance 0 true]

/-- A daemon of one address and no table. -/
def fresh : Service :=
  init oneAddress (Sniffer.sniffer oneAddress).mProcessResolver 10 Database.empty

theorem streams_run_oneInterval :
    ∃ numbers : Nat → List Nat, (∀ conn, (numbers conn).Pairwise (· < ·)) ∧
      (∀ conn conn', conn ≠ conn' → ∀ n ∈ numbers conn, n ∉ numbers conn') ∧
      ∀ conn c kind, (exec (step strictWriters) fresh oneInterval).api.conns[conn]? = some c →
        c.command.stream = some kind →
          ∃ sent hand said, StreamAt strictWriters kind sent hand c.pc c.calls ∧ said <:+: c.calls ∧
            List.Forall₂ (fun m n => m.2 = 10 ∧
              (exec (step strictWriters) fresh oneInterval).monitor.sys.deposited[n]? = some m.1)
              sent (numbers conn) ∧
            List.Forall₂ (fun m call => SentAs strictWriters kind m call ∧
              TellsOf strictWriters Json.read m.1 m.2 kind call) sent said :=
  streams_run strictWriters Json.read Json.inverse_dump oneAddress
    (Sniffer.sniffer oneAddress).mProcessResolver 10 Database.empty oneInterval

end Service

end Ntmd
