/-
When a fetch on the shared handle sees whole deposits only.

A fetch reads the tables one by one, so what it returns is what a query of one
database would have returned if that database did not change meanwhile, and it is
one that stood between two deposits if no deposit was half written when the fetch
began.  `Undivided` asks for the two of every step.  A `BEGIN` and a `COMMIT` change
nothing that the connection sees, and so they may fall into a fetch.
-/
import Ntmd.Proofs.Calls
import Ntmd.Traffic.SharedHandle

namespace Ntmd

open Bytes Sqlite DBController Run

namespace SharedHandle

variable {other : Database → Bytes → Option Sums} {s : SharedHandle}

/-- The open deposit has no `CREATE` or `INSERT` left to make, and its `COMMIT` goes through. -/
def Committing (s : SharedHandle) : Prop :=
  ∃ now o rest, s.deposit = .loop now o rest ∧ o.commit = .ok ∧
    ∀ e ∈ rest, containsSemicolon e.1 = true

/-- No deposit is half written: the open one has not begun to write, or is done with it. -/
def Whole (s : SharedHandle) : Prop := s.wrote = false ∨ s.Committing

/-- The next call of the deposit is a `CREATE` or an `INSERT`. -/
def Writes (s : SharedHandle) : Prop :=
  (∃ now o e rest, s.deposit = .loop now o (e :: rest) ∧ containsSemicolon e.1 = false) ∨
    ∃ now o name line rest, s.deposit = .insert now o name line rest

/-- No fetch begins while a deposit is half written, and no deposit writes during a fetch. -/
def Undivided (s : SharedHandle) : HandleAction → Prop
  | .names _ => s.Whole
  | .next => s.fetch = .idle ∨ ¬ s.Writes
  | _ => True

/-- Once no deposit is open, every fetch has returned what a query of the database between two
deposits returns. -/
def SeesWholeDeposits (other : Database → Bytes → Option Sums) (s : SharedHandle) : Prop :=
  s.deposit = .idle →
    ∀ r ∈ s.returned, ∃ db ∈ s.settled, r.2 = r.1.result db (other db)

/-! ### The fetch alone -/

/-- The loop over all tables, with nothing in between. -/
theorem result_eq (f : Fetch) (db : Database) :
    f.result db (other db) = db.tables.foldl (fetchTable other db f) ∅ := by
  cases f <;> rfl

section FetchLoop

variable (f : Fetch) (tables : List Bytes) (traffic : TrafficMap)

@[simp] theorem fetchLoop_conn : (s.fetchLoop f tables traffic).conn = s.conn := by
  cases tables <;> rfl

@[simp] theorem fetchLoop_deposit : (s.fetchLoop f tables traffic).deposit = s.deposit := by
  cases tables <;> rfl

@[simp] theorem fetchLoop_wrote : (s.fetchLoop f tables traffic).wrote = s.wrote := by
  cases tables <;> rfl

@[simp] theorem fetchLoop_settled : (s.fetchLoop f tables traffic).settled = s.settled := by
  cases tables <;> rfl

end FetchLoop

/-- With nothing in between, the steps of a fetch are the function of the database. -/
theorem exec_sums (f : Fetch) : ∀ (tables : List Bytes) (traffic : TrafficMap) (s : SharedHandle),
    exec (step other) (s.fetchLoop f tables traffic) (List.replicate tables.length .sums) =
      { s with
        fetch := .idle
        returned := s.returned ++
          [(f, tables.foldl (fetchTable other s.conn.current f) traffic)] } := by
  intro tables
  induction tables with
  | nil => intro traffic s; rfl
  | cons name tables ih =>
      intro traffic s
      have hstep : step other (s.fetchLoop f (name :: tables) traffic) .sums =
          ({ s with fetch := .loop f (name :: tables) traffic } : SharedHandle).fetchLoop f tables
            (fetchTable other s.conn.current f traffic name) := rfl
      rw [List.length_cons, List.replicate_succ, exec_cons, hstep, ih, List.foldl_cons]

theorem exec_fetch (f : Fetch) (s : SharedHandle) (h : s.fetch = .idle) :
    exec (step other) s (.names f :: List.replicate s.conn.current.tables.length .sums) =
      { s with
        returned := s.returned ++ [(f, f.result s.conn.current (other s.conn.current))] } := by
  have hstep : step other s (.names f) = s.fetchLoop f s.conn.current.tables ∅ := by
    simp only [step, h, fetchApplicationNames]
  rw [exec_cons, hstep, exec_sums, result_eq, ← h]

/-! ### The deposit alone -/

theorem exec_deposit_loop (now : Int64) (o : Outcomes) :
    ∀ (rest : List (Σ _ : Bytes, TrafficLine)) (s : SharedHandle), s.deposit = .loop now o rest →
      ∃ n, (exec (step other) s (List.replicate n .next)).deposit = .idle ∧
        (exec (step other) s (List.replicate n .next)).conn =
          ((depositApps now o s.conn rest).1.commit o.commit).1 := by
  intro rest
  induction rest with
  | nil =>
      intro s hpc
      refine ⟨1, ?_⟩
      simp only [List.replicate_one, exec_cons, exec_nil, step, depositStep, hpc]
      exact ⟨trivial, rfl⟩
  | cons e rest ih =>
      intro s hpc
      obtain ⟨name, line⟩ := e
      have happs : (depositApps now o s.conn (⟨name, line⟩ :: rest)).1 =
          (depositApps now o (depositApp now o s.conn name line).1 rest).1 := rfl
      cases hrefuse : containsSemicolon name with
      | true =>
          have hstep : step other s .next = { s with deposit := .loop now o rest } := by
            simp only [step, depositStep, hpc, hrefuse, if_true]
          obtain ⟨n, hn⟩ := ih { s with deposit := .loop now o rest } rfl
          refine ⟨n + 1, ?_⟩
          rw [List.replicate_succ, exec_cons, hstep, happs, depositApp_of_refuse hrefuse]
          exact hn
      | false =>
          have hsteps : step other (step other s .next) .next =
              { s with
                conn := (depositApp now o s.conn name line).1
                deposit := .loop now o rest
                wrote := true } := by
            rw [depositApp_of_accept hrefuse]
            simp only [step, depositStep, hpc, hrefuse, Bool.false_eq_true, if_false]
          obtain ⟨n, hn⟩ := ih { s with
            conn := (depositApp now o s.conn name line).1
            deposit := .loop now o rest
            wrote := true } rfl
          refine ⟨n + 2, ?_⟩
          rw [List.replicate_succ, List.replicate_succ, exec_cons, exec_cons, hsteps, happs]
          exact hn

/-- With nothing in between, the steps of a deposit are `insertApplicationTraffic`. -/
theorem exec_deposit (traffic : TrafficMap) (now : Int64) (o : Outcomes) (s : SharedHandle)
    (h : s.deposit = .idle) :
    ∃ n, (exec (step other) s (.deposit traffic now o :: List.replicate n .next)).deposit = .idle ∧
      (exec (step other) s (.deposit traffic now o :: List.replicate n .next)).conn =
        (insertApplicationTraffic s.conn traffic now o).1 := by
  rcases hbegin : s.conn.begin o.begin with ⟨conn, rc⟩
  cases rc with
  | ok =>
      have hstep : step other s (.deposit traffic now o) =
          { s with conn := conn, deposit := .loop now o traffic.entries } := by
        simp only [step, h, hbegin]
      obtain ⟨n, hidle, hconn⟩ := exec_deposit_loop now o traffic.entries
        { s with conn := conn, deposit := .loop now o traffic.entries } rfl
      refine ⟨n, ?_⟩
      rw [exec_cons, hstep]
      refine ⟨hidle, hconn.trans ?_⟩
      simp only [insertApplicationTraffic, hbegin]
  | _ =>
      have hstep : step other s (.deposit traffic now o) = { s with conn := conn } := by
        simp only [step, h, hbegin]
      refine ⟨0, ?_⟩
      rw [List.replicate_zero, exec_cons, exec_nil, hstep]
      refine ⟨h, ?_⟩
      simp only [insertApplicationTraffic, hbegin]

/-! ### What the connection sees -/

/-- What ties the connection to the deposits. -/
structure HandleInv (s : SharedHandle) : Prop where
  clean : s.wrote = false → s.conn.current ∈ s.settled
  begun : s.deposit ≠ .idle → s.wrote = false → s.conn.tx = some s.conn.committed
  idle : s.deposit = .idle → s.wrote = false
  inserting : ∀ now o name line rest, s.deposit = .insert now o name line rest → s.wrote = true

/-- The database stood between two deposits, or will when the open one has committed. -/
def Settles (s : SharedHandle) (db : Database) : Prop :=
  db ∈ s.settled ∨ s.conn.current = db ∧ s.Committing

/-- Outside a transaction, or in one that has written nothing, a `COMMIT` changes nothing that is
seen. -/
theorem current_commit_of_clean {conn : Conn Database} {o : Outcome}
    (h : conn.tx = some conn.committed) : (conn.commit o).1.current = conn.current := by
  have hcurrent : conn.current = conn.committed := Conn.current_of_some h
  unfold Conn.commit
  rw [h]
  match o with
  | .ok => exact hcurrent.symm
  | .fail .busy _ => rfl
  | .fail .error true | .fail .constraint true | .fail .misuse true | .fail (.other _) true =>
      exact hcurrent.symm
  | .fail .error false | .fail .constraint false | .fail .misuse false
  | .fail (.other _) false => rfl

theorem current_commit_ok (conn : Conn Database) : (conn.commit .ok).1.current = conn.current := by
  unfold Conn.commit
  cases h : conn.tx with
  | none => rfl
  | some d => exact (Conn.current_of_some h).symm

/-- Every branch of a deposit's `BEGIN`. -/
theorem step_deposit_cases (other : Database → Bytes → Option Sums) (s : SharedHandle)
    (traffic : TrafficMap) (now : Int64) (o : Outcomes) :
    step other s (.deposit traffic now o) = s ∨
    (s.deposit = .idle ∧ s.conn.tx = none ∧
      step other s (.deposit traffic now o) =
        { s with
          conn := { s.conn with tx := some s.conn.committed }
          deposit := .loop now o traffic.entries }) := by
  cases hpc : s.deposit with
  | idle =>
      by_cases h : (s.conn.begin o.begin).2 = .ok
      · refine Or.inr ⟨rfl, (Conn.begin_ok_iff.mp h).1, ?_⟩
        rw [← Conn.begin_of_ok h]
        rcases hbegin : s.conn.begin o.begin with ⟨conn, rc⟩
        rw [hbegin] at h
        subst h
        simp only [step, hpc, hbegin]
      · refine Or.inl ?_
        have hsame := Conn.begin_of_not_ok h
        rcases hbegin : s.conn.begin o.begin with ⟨conn, rc⟩
        rw [hbegin] at h hsame
        subst hsame
        cases rc with
        | ok => exact absurd rfl h
        | _ =>
            simp only [step, hpc, hbegin]
            rw [← hpc]
  | _ => exact Or.inl (by simp only [step, hpc])

/-- Every branch of a deposit's next call. -/
theorem depositStep_cases (s : SharedHandle) :
    (s.deposit = .idle ∧ s.depositStep = s) ∨
    (∃ now o, s.deposit = .loop now o [] ∧
      s.depositStep = { s with
        conn := (s.conn.commit o.commit).1, deposit := .idle, wrote := false
        settled := s.settled ++ [(s.conn.commit o.commit).1.current] }) ∨
    (∃ now o e rest, s.deposit = .loop now o (e :: rest) ∧ containsSemicolon e.1 = true ∧
      s.depositStep = { s with deposit := .loop now o rest }) ∨
    (∃ now o e rest conn, s.deposit = .loop now o (e :: rest) ∧ containsSemicolon e.1 = false ∧
      s.depositStep =
        { s with conn := conn, deposit := .insert now o e.1 e.2 rest, wrote := true }) ∨
    (∃ now o name line rest conn, s.deposit = .insert now o name line rest ∧
      s.depositStep = { s with conn := conn, deposit := .loop now o rest }) := by
  cases hpc : s.deposit with
  | idle => exact Or.inl ⟨rfl, by rw [depositStep, hpc]⟩
  | loop now o rest =>
      refine Or.inr ?_
      cases rest with
      | nil => exact Or.inl ⟨now, o, rfl, by rw [depositStep, hpc]⟩
      | cons e rest =>
          refine Or.inr ?_
          cases hrefuse : containsSemicolon e.1 with
          | true =>
              refine Or.inl ⟨now, o, e, rest, rfl, hrefuse, ?_⟩
              simp only [depositStep, hpc, hrefuse, if_true]
          | false =>
              refine Or.inr (Or.inl ⟨now, o, e, rest,
                (stepCreate s.conn (createText e.1) (o.app e.1)).1, rfl, hrefuse, ?_⟩)
              simp only [depositStep, hpc, hrefuse, Bool.false_eq_true, if_false]
  | insert now o name line rest =>
      refine Or.inr (Or.inr (Or.inr (Or.inr ⟨now, o, name, line, rest,
        (stepInsert s.conn (insertText name) (boundRow now line) (o.app name)).1, rfl, ?_⟩)))
      simp only [depositStep, hpc]

/-- A step of the deposit leaves the fetch and what it returned alone. -/
theorem depositStep_fetch (s : SharedHandle) :
    s.depositStep.fetch = s.fetch ∧ s.depositStep.returned = s.returned := by
  rcases s.depositStep_cases with ⟨-, hstep⟩ | ⟨_, _, -, hstep⟩ | ⟨_, _, _, _, -, -, hstep⟩ |
    ⟨_, _, _, _, _, -, -, hstep⟩ | ⟨_, _, _, _, _, _, -, hstep⟩ <;> simp [hstep]

theorem step_next_fetch : (step other s .next).fetch = s.fetch := s.depositStep_fetch.1

theorem step_deposit_fetch (traffic : TrafficMap) (now : Int64) (o : Outcomes) :
    (step other s (.deposit traffic now o)).fetch = s.fetch := by
  rcases step_deposit_cases other s traffic now o with hstep | ⟨-, -, hstep⟩ <;> rw [hstep]

/-- A step of the fetch leaves what the deposit works on alone. -/
theorem HandleInv.fetchLoop (h : s.HandleInv) (f : Fetch) (tables : List Bytes)
    (traffic : TrafficMap) : (s.fetchLoop f tables traffic).HandleInv := by
  obtain ⟨hclean, hbegun, hidle, hinserting⟩ := h
  constructor <;> simpa

theorem handleInv_step (h : s.HandleInv) (a : HandleAction) : (step other s a).HandleInv := by
  cases a with
  | deposit traffic now o =>
      rcases step_deposit_cases other s traffic now o with hsame | ⟨hpc, htx, hstep⟩
      · rw [hsame]
        exact h
      · rw [hstep]
        refine ⟨fun hw => ?_, fun _ _ => rfl, fun hidle => by simp at hidle,
          fun now o name line rest hpc => by simp at hpc⟩
        have hclean := h.clean hw
        rw [Conn.current_of_none htx] at hclean
        exact hclean
  | next =>
      rcases s.depositStep_cases with ⟨-, hstep⟩ | ⟨now, o, hpc, hstep⟩ |
        ⟨now, o, e, rest, hpc, -, hstep⟩ | ⟨now, o, e, rest, conn, hpc, -, hstep⟩ |
        ⟨now, o, name, line, rest, conn, hpc, hstep⟩
      · rw [step, hstep]
        exact h
      · rw [step, hstep]
        exact ⟨fun _ => List.mem_append_right _ (List.mem_singleton.mpr rfl),
          fun hidle => absurd rfl hidle, fun _ => rfl, fun now o name line rest hpc => by simp at hpc⟩
      · rw [step, hstep]
        exact ⟨h.clean, fun _ hw => h.begun (by simp [hpc]) hw, fun hidle => by simp at hidle,
          fun now o name line rest hpc => by simp at hpc⟩
      · rw [step, hstep]
        exact ⟨fun hw => by simp at hw, fun _ hw => by simp at hw, fun hidle => by simp at hidle,
          fun _ _ _ _ _ _ => rfl⟩
      · -- A `CREATE` came before, so the deposit has written.
        have hwrote := h.inserting now o name line rest hpc
        rw [step, hstep]
        exact ⟨fun hw => absurd (hwrote.symm.trans hw) (by simp),
          fun _ hw => absurd (hwrote.symm.trans hw) (by simp), fun hidle => by simp at hidle,
          fun now o name line rest hpc => by simp at hpc⟩
  | names f =>
      simp only [step]
      split
      · exact h.fetchLoop ..
      · exact h
  | sums =>
      simp only [step]
      split
      · exact h.fetchLoop ..
      · exact h

/-- A database that settles goes on doing so, whatever comes next. -/
theorem Settles.step {db : Database} (h : s.Settles db) (a : HandleAction) :
    (step other s a).Settles db := by
  cases a with
  | deposit traffic now o =>
      rcases step_deposit_cases other s traffic now o with hsame | ⟨hpc, -, hstep⟩
      · rw [hsame]
        exact h
      · rw [hstep]
        rcases h with h | ⟨-, now, o, rest, hloop, -⟩
        · exact Or.inl h
        · exact absurd (hpc.symm.trans hloop) (by simp)
  | next =>
      rcases h with h | ⟨hcurrent, now', o', rest', hloop, hok, hrefused⟩
      · refine Or.inl ?_
        rcases s.depositStep_cases with ⟨-, hstep⟩ | ⟨now, o, -, hstep⟩ |
          ⟨now, o, e, rest, -, -, hstep⟩ | ⟨now, o, e, rest, conn, -, -, hstep⟩ |
          ⟨now, o, name, line, rest, conn, -, hstep⟩
        · rw [SharedHandle.step, hstep]
          exact h
        · rw [SharedHandle.step, hstep]
          exact List.mem_append_left _ h
        · rw [SharedHandle.step, hstep]
          exact h
        · rw [SharedHandle.step, hstep]
          exact h
        · rw [SharedHandle.step, hstep]
          exact h
      · cases rest' with
        | nil =>
            -- The `COMMIT`, which goes through.
            refine Or.inl ?_
            simp only [SharedHandle.step, depositStep, hloop, hok, current_commit_ok, hcurrent]
            exact List.mem_append_right _ (List.mem_singleton.mpr rfl)
        | cons e rest =>
            have hrefuse := hrefused e (List.mem_cons_self ..)
            refine Or.inr ?_
            simp only [SharedHandle.step, depositStep, hloop, hrefuse, if_true]
            exact ⟨hcurrent, now', o', rest, rfl, hok,
              fun e' he' => hrefused e' (List.mem_cons_of_mem _ he')⟩
  | names f =>
      simp only [SharedHandle.step]
      split
      · rw [Settles, Committing, fetchLoop_conn, fetchLoop_deposit, fetchLoop_settled]
        exact h
      · exact h
  | sums =>
      simp only [SharedHandle.step]
      split
      · rw [Settles, Committing, fetchLoop_conn, fetchLoop_deposit, fetchLoop_settled]
        exact h
      · exact h

/-! ### A fetch among deposits -/

/-- The connection sees a database between two deposits. -/
theorem HandleInv.settles (h : s.HandleInv) (hwhole : s.Whole) : s.Settles s.conn.current := by
  rcases hwhole with hw | hcommitting
  · exact Or.inl (h.clean hw)
  · exact Or.inr ⟨rfl, hcommitting⟩

/-- A call of the deposit that writes nothing changes nothing that is seen. -/
theorem HandleInv.next_of_not_writes (h : s.HandleInv) (hwhole : s.Whole) (hnot : ¬ s.Writes) :
    s.depositStep.conn.current = s.conn.current ∧ s.depositStep.Whole := by
  rcases s.depositStep_cases with ⟨-, hstep⟩ | ⟨now, o, hpc, hstep⟩ |
    ⟨now, o, e, rest, hpc, -, hstep⟩ | ⟨now, o, e, rest, conn, hpc, haccept, -⟩ |
    ⟨now, o, name, line, rest, conn, hpc, -⟩
  · rw [hstep]
    exact ⟨rfl, hwhole⟩
  · rw [hstep]
    refine ⟨?_, Or.inl rfl⟩
    rcases hwhole with hw | ⟨now', o', rest', hloop, hok, -⟩
    · exact current_commit_of_clean (h.begun (by simp [hpc]) hw)
    · rw [hpc] at hloop
      obtain ⟨-, rfl, -⟩ := DepositPc.loop.inj hloop
      show (s.conn.commit o.commit).1.current = _
      rw [hok, current_commit_ok]
  · rw [hstep]
    refine ⟨rfl, hwhole.imp_right ?_⟩
    rintro ⟨now', o', rest', hloop, hok, hrefused⟩
    rw [hpc] at hloop
    obtain ⟨rfl, rfl, rfl⟩ := DepositPc.loop.inj hloop
    exact ⟨now, o, rest, rfl, hok, fun e' he' => hrefused e' (List.mem_cons_of_mem _ he')⟩
  · exact absurd (Or.inl ⟨now, o, e, rest, hpc, haccept⟩) hnot
  · exact absurd (Or.inr ⟨now, o, name, line, rest, hpc⟩) hnot

/-- Every fetch, whether it has returned or not, is one of a single database. -/
structure WholeInv (other : Database → Bytes → Option Sums) (s : SharedHandle) : Prop
    extends s.HandleInv where
  returned : ∀ r ∈ s.returned, ∃ db, s.Settles db ∧ r.2 = r.1.result db (other db)
  running : ∀ f tables traffic, s.fetch = .loop f tables traffic →
    s.Whole ∧ ∃ done, s.conn.current.tables = done ++ tables ∧
      traffic = done.foldl (fetchTable other s.conn.current f) ∅

/-- A fetch goes on where it saw one database so far. -/
theorem WholeInv.fetchLoop (h : s.WholeInv other) (hwhole : s.Whole) (f : Fetch)
    {done tables : List Bytes} (htables : s.conn.current.tables = done ++ tables) :
    (s.fetchLoop f tables (done.foldl (fetchTable other s.conn.current f) ∅)).WholeInv other := by
  have hinv := h.toHandleInv.fetchLoop f tables (done.foldl (fetchTable other s.conn.current f) ∅)
  cases tables with
  | nil =>
      refine ⟨hinv, fun r hr => ?_, fun f tables traffic hpc => by simp [SharedHandle.fetchLoop] at hpc⟩
      rcases List.mem_append.mp hr with hr | hr
      · exact h.returned r hr
      · refine ⟨s.conn.current, h.toHandleInv.settles hwhole, ?_⟩
        rw [List.mem_singleton.mp hr, result_eq, htables, List.append_nil]
  | cons name tables =>
      refine ⟨hinv, h.returned, fun f' tables' traffic' hpc => ⟨hwhole, done, ?_⟩⟩
      obtain ⟨rfl, rfl, rfl⟩ := FetchPc.loop.inj hpc
      exact ⟨htables, rfl⟩

theorem wholeInv_step (h : s.WholeInv other) (a : HandleAction) (ha : s.Undivided a) :
    (step other s a).WholeInv other := by
  have hinv := @handleInv_step other s h.toHandleInv a
  have hsettled : ∀ db, s.Settles db → (step other s a).Settles db := fun db hdb => hdb.step a
  cases a with
  | deposit traffic now o =>
      rcases step_deposit_cases other s traffic now o with hsame | ⟨hpc, htx, hstep⟩
      · rw [hsame]
        exact h
      · rw [hstep] at hinv hsettled ⊢
        refine ⟨hinv, fun r hr => ?_, fun f tables traffic hfetch => ?_⟩
        · obtain ⟨db, hdb, hr⟩ := h.returned r hr
          exact ⟨db, hsettled db hdb, hr⟩
        · obtain ⟨-, done, htables, hfold⟩ := h.running f tables traffic hfetch
          rw [Conn.current_of_none htx] at htables hfold
          exact ⟨Or.inl (h.idle hpc), done, htables, hfold⟩
  | next =>
      refine ⟨hinv, fun r hr => ?_, fun f tables traffic hfetch => ?_⟩
      · obtain ⟨db, hdb, hr⟩ := h.returned r (s.depositStep_fetch.2 ▸ hr)
        exact ⟨db, hsettled db hdb, hr⟩
      · have hfetch' : s.fetch = .loop f tables traffic := s.depositStep_fetch.1.symm.trans hfetch
        obtain ⟨hwhole, done, htables, hfold⟩ := h.running f tables traffic hfetch'
        have hnot : ¬ s.Writes := ha.resolve_left (by simp [hfetch'])
        obtain ⟨hcurrent, hwhole'⟩ := h.toHandleInv.next_of_not_writes hwhole hnot
        refine ⟨hwhole', done, ?_⟩
        show s.depositStep.conn.current.tables = _ ∧
          traffic = done.foldl (fetchTable other s.depositStep.conn.current f) ∅
        rw [hcurrent]
        exact ⟨htables, hfold⟩
  | names f =>
      simp only [step]
      split
      · exact h.fetchLoop ha f (List.nil_append _).symm
      · exact h
  | sums =>
      simp only [step]
      split
      · rename_i f name tables traffic hfetch
        obtain ⟨hwhole, done, htables, hfold⟩ := h.running f _ traffic hfetch
        have htables' : s.conn.current.tables = (done ++ [name]) ++ tables := by
          rw [htables, List.append_assoc, List.singleton_append]
        have hnext := h.fetchLoop hwhole f htables'
        rw [List.foldl_append, ← hfold, List.foldl_cons, List.foldl_nil] at hnext
        exact hnext
      · exact h

theorem wholeInv_init (db : Database) : (init db).WholeInv other where
  clean _ := List.mem_singleton.mpr rfl
  begun hopen := absurd rfl hopen
  idle _ := rfl
  inserting _ _ _ _ _ hpc := by simp [init] at hpc
  returned r hr := absurd hr List.not_mem_nil
  running _ _ _ hfetch := by simp [init] at hfetch

theorem WholeInv.seesWholeDeposits (h : s.WholeInv other) : SeesWholeDeposits other s := by
  intro hpc r hr
  obtain ⟨db, hdb | ⟨-, _, _, _, hloop, -⟩, hresult⟩ := h.returned r hr
  · exact ⟨db, hdb, hresult⟩
  · exact absurd (hpc.symm.trans hloop) (by simp)

/--
**Every fetch of a run sees whole deposits only, if every step of the run is undivided**: what it
returns is what the query returns of the database as it stood between two deposits.
-/
theorem seesWholeDeposits_run (other : Database → Bytes → Option Sums) (db : Database)
    (as : List HandleAction) (h : Along (step other) Undivided (init db) as) :
    Always (step other) (SeesWholeDeposits other) (init db) as :=
  always_of_guard (fun _ a hs ha => wholeInv_step hs a ha) (fun _ hs => hs.seesWholeDeposits)
    (wholeInv_init db) h

theorem seesWholeDeposits_after_deposit :
    Always (step fun _ _ => none) (SeesWholeDeposits fun _ _ => none) (init Database.empty)
      [.deposit (AList.singleton (ascii "ssh") { bytesRx := 5 }) 7 {}, .next, .next, .next,
        .names (.since 0), .sums] :=
  seesWholeDeposits_run _ _ _ (by
    simp only [along_cons, along_nil, Undivided, step_next_fetch, step_deposit_fetch, and_true,
      true_and]
    refine ⟨Or.inl rfl, Or.inl rfl, Or.inl rfl, Or.inl ?_⟩
    decide +kernel)

/-- The traffic of two applications. -/
def twoApps : TrafficMap :=
  (AList.singleton (ascii "ssh") { bytesRx := 5 }).insert (ascii "curl") { bytesRx := 7 }

/-- A fetch after the first of two applications has been written, and then the rest of the
deposit. -/
def dividedRun : List HandleAction :=
  [.deposit twoApps 7 {}, .next, .next, .names (.since 0), .sums, .next, .next, .next]

/-- It returns one application, where no deposit had been made before and two after. -/
theorem not_seesWholeDeposits_divided :
    ¬ Always (step fun _ _ => none) (SeesWholeDeposits fun _ _ => none) (init Database.empty)
      dividedRun := by
  intro h
  obtain ⟨hidle, hreturned, hsettled⟩ :
      (exec (step fun _ _ => none) (init Database.empty) dividedRun).deposit = .idle ∧
      (exec (step fun _ _ => none) (init Database.empty) dividedRun).returned.map
        (fun r => (r.1, r.2.keys)) = [(.since 0, [ascii "curl"])] ∧
      (exec (step fun _ _ => none) (init Database.empty) dividedRun).settled.map
        (fun db => ((Fetch.since 0).result db fun _ => none).keys) =
          [[], [ascii "ssh", ascii "curl"]] := by
    decide +kernel
  obtain ⟨r, hr, hrun⟩ := List.map_eq_singleton_iff.mp hreturned
  obtain ⟨hf, hkeys⟩ := Prod.mk.inj hrun
  obtain ⟨db, hdb, hresult⟩ := h.last hidle r (hr ▸ List.mem_singleton.mpr rfl)
  have hmem : r.2.keys ∈ [[], [ascii "ssh", ascii "curl"]] := by
    rw [← hsettled, hresult, hf]
    exact List.mem_map_of_mem hdb
  rw [hkeys] at hmem
  exact absurd hmem (by decide)

end SharedHandle

end Ntmd
