/-
A connection to a database, and what its calls can do to it.

`Conn` is the committed database and, while a transaction is open, the database as
that transaction sees it.  What a call returns is not the engine's to decide alone:
disks fill and other processes hold locks.  So each call takes an `Outcome` from the
environment, and any failure is possible at any call; what the engine guarantees is
only what the functions below say.  `BEGIN` inside a transaction is an error.
`COMMIT` closes the transaction when it succeeds and leaves it open when it reports
`SQLITE_BUSY`.  A statement that fails leaves the database alone, but an error may
also roll the whole transaction back, and what runs after that runs on its own.
-/
import Mathlib.Order.Basic

namespace Sqlite

/-- The result codes of failing calls. -/
inductive ErrorCode
  | error
  | busy
  | constraint
  | misuse
  | other (code : Nat)
  deriving DecidableEq, Repr

/-- What a call returns. -/
inductive ResultCode
  | ok
  | done
  | failed (e : ErrorCode)
  deriving DecidableEq, Repr

/-- What the environment makes of a call: it goes through, or it fails, possibly
rolling the open transaction back. -/
inductive Outcome
  | ok
  | fail (e : ErrorCode) (rollback : Bool)
  deriving DecidableEq, Repr

/-- A connection: what is committed, and the view of the open transaction if there is one. -/
structure Conn (D : Type) where
  committed : D
  tx : Option D

namespace Conn

variable {D : Type}

/-- The database as the next statement sees it. -/
def current (c : Conn D) : D := c.tx.getD c.committed

/-- Write the database a statement left behind: into the transaction, or at once. -/
def put (c : Conn D) (d : D) : Conn D :=
  match c.tx with
  | none => { committed := d, tx := none }
  | some _ => { c with tx := some d }

/-- Close the open transaction and forget its changes. -/
def rollback (c : Conn D) : Conn D := { c with tx := none }

/-- `BEGIN TRANSACTION`. -/
def begin (c : Conn D) (o : Outcome) : Conn D × ResultCode :=
  match c.tx with
  | some _ => (c, .failed .error)
  | none =>
      match o with
      | .ok => ({ c with tx := some c.committed }, .ok)
      | .fail e _ => (c, .failed e)

/-- `COMMIT TRANSACTION`. -/
def commit (c : Conn D) (o : Outcome) : Conn D × ResultCode :=
  match c.tx with
  | none => (c, .failed .error)
  | some d =>
      match o with
      | .ok => ({ committed := d, tx := none }, .ok)
      | .fail .busy _ => (c, .failed .busy)
      | .fail e true => (c.rollback, .failed e)
      | .fail e false => (c, .failed e)

/-- Step a statement that changes the database; `none` is a constraint it violates. -/
def exec (c : Conn D) (o : Outcome) (stmt : D → Option D) : Conn D × ResultCode :=
  match o with
  | .fail e true => (c.rollback, .failed e)
  | .fail e false => (c, .failed e)
  | .ok =>
      match stmt c.current with
      | none => (c, .failed .constraint)
      | some d => (c.put d, .done)

/-- A `COMMIT` with this outcome does not leave its transaction open. -/
def Releases : Outcome → Prop
  | .ok => True
  | .fail .busy _ => False
  | .fail _ rollback => rollback = true

instance : DecidablePred Releases := fun o =>
  match o with
  | .ok => isTrue trivial
  | .fail .busy _ => isFalse id
  | .fail .error r | .fail .constraint r | .fail .misuse r | .fail (.other _) r =>
      inferInstanceAs (Decidable (r = true))

/-! ### What each call does to the transaction -/

@[simp] theorem put_current (c : Conn D) (d : D) : (c.put d).current = d := by
  unfold put current
  cases c.tx <;> rfl

@[simp] theorem put_tx_eq_none {c : Conn D} {d : D} : (c.put d).tx = none ↔ c.tx = none := by
  unfold put
  cases h : c.tx <;> simp

theorem put_of_some {c : Conn D} {d d' : D} (h : c.tx = some d) : (c.put d').tx = some d' := by
  simp [put, h]

@[simp] theorem rollback_tx (c : Conn D) : c.rollback.tx = none := rfl

@[simp] theorem rollback_committed (c : Conn D) : c.rollback.committed = c.committed := rfl

/-- `BEGIN` succeeds exactly outside a transaction and with the environment's leave. -/
theorem begin_ok_iff {c : Conn D} {o : Outcome} :
    (c.begin o).2 = .ok ↔ c.tx = none ∧ o = .ok := by
  unfold begin
  cases c.tx <;> cases o <;> simp

theorem begin_of_ok {c : Conn D} {o : Outcome} (h : (c.begin o).2 = .ok) :
    (c.begin o).1 = { c with tx := some c.committed } := by
  obtain ⟨htx, rfl⟩ := begin_ok_iff.mp h
  simp [begin, htx]

/-- A `BEGIN` that fails changes nothing. -/
theorem begin_of_not_ok {c : Conn D} {o : Outcome} (h : (c.begin o).2 ≠ .ok) :
    (c.begin o).1 = c := by
  unfold begin at h ⊢
  cases htx : c.tx with
  | some d => simp
  | none =>
      cases o with
      | ok => simp [htx] at h
      | fail e r => simp

/-- A `COMMIT` leaves no transaction open exactly if there was none or it releases it. -/
theorem commit_tx_eq_none {c : Conn D} {o : Outcome} :
    (c.commit o).1.tx = none ↔ c.tx = none ∨ Releases o := by
  unfold commit
  cases htx : c.tx with
  | none => simp [htx]
  | some d =>
      match o with
      | .ok => simp [Releases]
      | .fail .busy r => simp [Releases, htx]
      | .fail .error true | .fail .constraint true | .fail .misuse true | .fail (.other _) true =>
          simp [Releases]
      | .fail .error false | .fail .constraint false | .fail .misuse false
      | .fail (.other _) false => simp [Releases, htx]

/-- A `COMMIT` that succeeds makes the transaction's view the committed database. -/
theorem commit_of_ok {c : Conn D} {o : Outcome} (h : (c.commit o).2 = .ok) :
    ∃ d, c.tx = some d ∧ (c.commit o).1 = { committed := d, tx := none } := by
  unfold commit at h ⊢
  cases htx : c.tx with
  | none => simp [htx] at h
  | some d =>
      match o, h with
      | .ok, _ => exact ⟨d, rfl, rfl⟩
      | .fail .busy r, h => simp [htx] at h
      | .fail .error true, h | .fail .constraint true, h | .fail .misuse true, h
      | .fail (.other _) true, h => simp [htx] at h
      | .fail .error false, h | .fail .constraint false, h | .fail .misuse false, h
      | .fail (.other _) false, h => simp [htx] at h

/-- A `COMMIT` outside a transaction changes nothing. -/
theorem commit_of_none {c : Conn D} {o : Outcome} (h : c.tx = none) : (c.commit o).1 = c := by
  simp [commit, h]

theorem current_of_none {c : Conn D} (h : c.tx = none) : c.current = c.committed := by
  simp [current, h]

theorem current_of_some {c : Conn D} {d : D} (h : c.tx = some d) : c.current = d := by
  simp [current, h]

/-- Everything that stepping a statement can do. -/
theorem exec_cases (c : Conn D) (o : Outcome) (stmt : D → Option D) :
    (∃ e, o = .fail e true ∧ c.exec o stmt = (c.rollback, .failed e)) ∨
    (∃ e, o = .fail e false ∧ c.exec o stmt = (c, .failed e)) ∨
    (o = .ok ∧ stmt c.current = none ∧ c.exec o stmt = (c, .failed .constraint)) ∨
    (∃ d, o = .ok ∧ stmt c.current = some d ∧ c.exec o stmt = (c.put d, .done)) := by
  unfold exec
  match o with
  | .fail e true => exact Or.inl ⟨e, rfl, rfl⟩
  | .fail e false => exact Or.inr (Or.inl ⟨e, rfl, rfl⟩)
  | .ok =>
      cases hd : stmt c.current with
      | none => exact Or.inr (Or.inr (Or.inl ⟨rfl, rfl, by simp⟩))
      | some d => exact Or.inr (Or.inr (Or.inr ⟨d, rfl, rfl, by simp⟩))

end Conn

end Sqlite
