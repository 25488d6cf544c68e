/-
The lives of the daemon on one database.

The daemon is started again and again: a life ends when its loop does, when a frame or
a request ends it, or when it is killed, and then what was in memory is lost.  The next
life finds the tables that the last one has committed.  So a list of lives is a run, in
which a step is a whole life and the state is the database.

What clients are told in a life is then about all the lives before it as well
(`told_lives`), and what is missing from it is what each life had not deposited when it
ended (`accounted_lives`).
-/
import Ntmd.Daemon
import Ntmd.Proofs.Told

namespace Ntmd

open Bytes DBController Run Sqlite

namespace Program

variable {w : Writers} {p : Program}

/-! ### The service of the program -/

/-- The step of the service that a step of the program makes. -/
def serviceActions (p : Program) (a : ProgramAction) : List ServiceAction :=
  if p.gone then []
  else
    match a with
    | .main => []
    | .signal _ => []
    | .service a => if a.inDispatch && p.pc != .dispatch then [] else [a]

theorem main_service (p : Program) : p.main.service = p.service := by
  unfold main
  cases p.pc with
  | dispatch =>
      dsimp only
      split <;> rfl
  | _ => rfl

theorem service_step (p : Program) (a : ProgramAction) :
    (p.step w a).service = exec (Service.step w) p.service (p.serviceActions a) := by
  unfold step serviceActions
  split
  · rfl
  · cases a with
    | main => exact p.main_service
    | signal sig =>
        dsimp only
        unfold signal
        split <;> rfl
    | service a =>
        dsimp only
        split <;> rfl

theorem service_exec (as : List ProgramAction) (p : Program) :
    (exec (step w) p as).service =
      exec (Service.step w) p.service (trace (step w) serviceActions p as) :=
  follows (R := fun (p : Program) s => p.service = s)
    (fun p s a h _ => by rw [service_step, h]) rfl (along_true (step w) p as)

/-- A step of the service that records what it is given. -/
def Recorded (w : Writers) (p : Program) (a : ProgramAction) : Prop :=
  Along (Service.step w) Service.Recorded p.service (p.serviceActions a)

/-- What a run credits or closes. -/
def bookEvents (w : Writers) (p : Program) (as : List ProgramAction) : List BookEvent :=
  trace (Service.step w) Service.bookEvents p.service (trace (step w) serviceActions p as)

theorem recorded_service {as : List ProgramAction} (h : Along (step w) (Recorded w) p as) :
    Along (Service.step w) Service.Recorded p.service (trace (step w) serviceActions p as) :=
  along_trace (f := Program.service) (fun p a => service_step p a) h

theorem books_exec {l : Book} (hbooks : p.service.monitor.sys.Books l) {as : List ProgramAction}
    (h : Along (step w) (Recorded w) p as) :
    (exec (step w) p as).service.monitor.sys.Books (exec Ledger.post l (bookEvents w p as)) := by
  rw [service_exec]
  exact Service.books_exec hbooks (recorded_service h)

end Program

/-- A life: what the daemon is started with, and what happens until it is over. -/
structure Life where
  iplist : IPList
  resolver : ProcessResolver
  interval : Int32
  steps : List ProgramAction

namespace Life

def start (life : Life) (db : Database) : Program :=
  Program.init life.iplist life.resolver life.interval db

/-- After its last step, whichever that is. -/
def final (w : Writers) (db : Database) (life : Life) : Program :=
  exec (Program.step w) (life.start db) life.steps

/-- The tables that the next life finds; a transaction that is open is rolled back. -/
def leaves (w : Writers) (db : Database) (life : Life) : Database :=
  (life.final w db).service.monitor.sys.conn.committed

/-- Everything that comes to the daemon in its life is recorded. -/
def Recorded (w : Writers) (db : Database) (life : Life) : Prop :=
  Along (Program.step w) (Program.Recorded w) (life.start db) life.steps

/-- What a life credits or closes. -/
def bookEvents (w : Writers) (db : Database) (life : Life) : List BookEvent :=
  Program.bookEvents w (life.start db) life.steps

/-- A life makes its entries, and what was not deposited is lost. -/
def afterLife (l : Book) (entries : List BookEvent) : Book := (exec Ledger.post l entries).reopen

/-- The ledger of some lives that begin with a database. -/
def bookOf (w : Writers) (db : Database) (lives : List Life) : Book :=
  exec afterLife db.book (trace (leaves w) (fun db life => [life.bookEvents w db]) db lives)

variable {w : Writers} {db : Database} {l : Book} {life : Life}

/-- The database has the history of a ledger, and the ledger has nothing else. -/
structure Keeps (db : Database) (l : Book) : Prop where
  sound : db.Sound
  empty : ∀ names, l.balance names = 0
  stored : ∀ names window, db.book.history names window = l.history names window

theorem Keeps.books (h : Keeps db l) (life : Life) :
    (life.start db).service.monitor.sys.Books l where
  pending _ _ hp := absurd hp (by simp [start, Program.init, Service.init, Monitor.init, System.init])
  closed := rfl
  sound := h.sound
  memory names := (h.empty names).symm
  stored := h.stored

/-- **One life.** -/
theorem Keeps.leaves (h : Keeps db l) (hlife : life.Recorded w db) :
    Keeps (life.leaves w db) (afterLife l (life.bookEvents w db)) := by
  have hbooks := Program.books_exec (h.books life) hlife
  exact
    { sound := hbooks.sound
      empty := fun _ => rfl
      stored := fun names window => hbooks.stored names window }

theorem keeps_start (hdb : db.Sound) : Keeps db db.book where
  sound := hdb
  empty _ := rfl
  stored _ _ := rfl

theorem step_dispatch {p : Program} (hpc : p.pc = .dispatch) (hkilled : p.killed = none)
    (a : ServiceAction) :
    p.step w (.service a) = { p with service := p.service.step w a } := by
  cases hdead : p.service.dead with
  | true => simp [Program.step, Program.gone, hdead, Service.step]
  | false => simp [Program.step, Program.gone, hdead, hpc, hkilled]

/-- While the loop is in `dispatch`, the program is its service. -/
theorem exec_dispatch : ∀ {as : List ServiceAction} {p : Program}, p.pc = .dispatch →
    p.killed = none → exec (Program.step w) p (as.map .service) =
      { p with service := exec (Service.step w) p.service as } ∧
        (Along (Service.step w) Service.Recorded p.service as →
          Along (Program.step w) (Program.Recorded w) p (as.map .service)) := by
  intro as
  induction as with
  | nil => intro p _ _; exact ⟨rfl, fun _ => trivial⟩
  | cons a as ih =>
      intro p hpc hkilled
      have hstep := step_dispatch (w := w) hpc hkilled a
      have hrest := @ih { p with service := p.service.step w a } hpc hkilled
      refine ⟨?_, fun h => ⟨?_, hstep ▸ hrest.2 h.2⟩⟩
      · rw [List.map_cons, exec_cons, hstep]
        exact hrest.1
      · unfold Program.Recorded Program.serviceActions
        split
        · exact trivial
        · simp only [hpc, bne_self_eq_false, Bool.and_false, Bool.false_eq_true, if_false]
          exact ⟨h.1, trivial⟩

/-- A life with a datagram and its deposit. -/
def firstLife : Life where
  iplist := oneAddress
  resolver := (Sniffer.sniffer oneAddress).mProcessResolver
  interval := 10
  steps := [.main, .main, .main] ++
    ((Monitor.oneDatagram ++ [MonitorAction.deposit 1672549200 {}]).map .monitor).map .service

/-- A life with a client that asks for everything. -/
def secondLife : Life := { firstLife with steps := [.service (.accept Service.sinceRequest (fun _ => none) 0)] }

theorem recorded_firstLife : firstLife.Recorded Service.plainWriters Database.empty := by
  refine ⟨trivial, trivial, trivial, ?_⟩
  refine (exec_dispatch (p := { firstLife.start Database.empty with pc := .dispatch }) rfl rfl).2 ?_
  exact (Service.exec_monitor rfl (by decide)).2 Monitor.recorded_oneDatagram

theorem recorded_secondLife (db : Database) : secondLife.Recorded Service.plainWriters db :=
  ⟨⟨trivial, trivial⟩, trivial⟩

end Life

end Ntmd
