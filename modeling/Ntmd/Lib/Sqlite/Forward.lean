/-
What a connection keeps whatever fails.

Let the statements that are run only ever take a database forward, in some order of
databases, and keep an invariant of it.  Then every call on a connection does so too:
`Advances` says that what is committed goes forward, and that the view of an open
transaction is ahead of it.  No failure can break this, since a failure leaves things
as they are or goes back to what is committed.
-/
import Ntmd.Lib.Sqlite.Conn

namespace Sqlite

namespace Conn

variable {D : Type} [Preorder D] {I : D → Prop}

/-- What is committed satisfies the invariant, and the view of a transaction does and is ahead. -/
structure Forward (I : D → Prop) (c : Conn D) : Prop where
  committed : I c.committed
  view : ∀ d, c.tx = some d → I d ∧ c.committed ≤ d

/-- A call took the connection from one state to another, and nothing back that was committed. -/
structure Advances (I : D → Prop) (c c' : Conn D) : Prop where
  forward : c'.Forward I
  le : c.committed ≤ c'.committed

variable {c c' c'' : Conn D}

theorem Forward.current (h : c.Forward I) : I c.current ∧ c.committed ≤ c.current := by
  cases htx : c.tx with
  | none =>
      rw [current_of_none htx]
      exact ⟨h.committed, le_refl _⟩
  | some d =>
      rw [current_of_some htx]
      exact h.view d htx

/-- An invariant that follows from another one. -/
theorem Forward.mono {J : D → Prop} (h : c.Forward I) (hIJ : ∀ d, I d → J d) : c.Forward J :=
  ⟨hIJ _ h.committed, fun d hd => ⟨hIJ d (h.view d hd).1, (h.view d hd).2⟩⟩

theorem Forward.refl (h : c.Forward I) : c.Advances I c := ⟨h, le_refl _⟩

theorem Advances.trans (h : c.Advances I c') (h' : c'.Advances I c'') : c.Advances I c'' :=
  ⟨h'.forward, le_trans h.le h'.le⟩

/-- Without a transaction and with what is committed kept. -/
theorem Forward.of_none (h : c.Forward I) : Advances I c { committed := c.committed, tx := none } :=
  ⟨⟨h.committed, fun _ hd => absurd hd (by simp)⟩, le_refl _⟩

theorem Forward.rollback (h : c.Forward I) : c.Advances I c.rollback := h.of_none

theorem Forward.put (h : c.Forward I) {d : D} (hI : I d) (hle : c.current ≤ d) :
    c.Advances I (c.put d) := by
  cases htx : c.tx with
  | none =>
      rw [current_of_none htx] at hle
      have hput : c.put d = { committed := d, tx := none } := by simp [Conn.put, htx]
      rw [hput]
      exact ⟨⟨hI, fun _ hd' => absurd hd' (by simp)⟩, hle⟩
  | some d' =>
      have hput : c.put d = { c with tx := some d } := by simp [Conn.put, htx]
      rw [hput]
      refine ⟨⟨h.committed, fun _ hd => ?_⟩, le_refl _⟩
      rw [← Option.some.inj hd]
      exact ⟨hI, le_trans h.current.2 hle⟩

theorem Forward.begin (h : c.Forward I) (o : Outcome) : c.Advances I (c.begin o).1 := by
  by_cases hok : (c.begin o).2 = .ok
  · rw [begin_of_ok hok]
    refine ⟨⟨h.committed, fun _ hd => ?_⟩, le_refl _⟩
    rw [← Option.some.inj hd]
    exact ⟨h.committed, le_refl _⟩
  · rw [begin_of_not_ok hok]
    exact h.refl

theorem Forward.commit (h : c.Forward I) (o : Outcome) : c.Advances I (c.commit o).1 := by
  cases htx : c.tx with
  | none =>
      rw [commit_of_none htx]
      exact h.refl
  | some d =>
      obtain ⟨hI, hle⟩ := h.view d htx
      unfold Conn.commit
      rw [htx]
      match o with
      | .ok => exact ⟨⟨hI, fun _ hd => absurd hd (by simp)⟩, hle⟩
      | .fail .busy _ => exact h.refl
      | .fail .error true | .fail .constraint true | .fail .misuse true | .fail (.other _) true =>
          exact h.rollback
      | .fail .error false | .fail .constraint false | .fail .misuse false
      | .fail (.other _) false => exact h.refl

/-- **A statement that keeps the invariant and goes forward, however it ends.** -/
theorem Forward.exec (h : c.Forward I) (o : Outcome) {stmt : D → Option D}
    (hstmt : ∀ d, I c.current → stmt c.current = some d → I d ∧ c.current ≤ d) :
    c.Advances I (c.exec o stmt).1 := by
  rcases c.exec_cases o stmt with ⟨e, -, hexec⟩ | ⟨e, -, hexec⟩ | ⟨-, -, hexec⟩ | ⟨d, -, hd, hexec⟩
  · rw [hexec]
    exact h.rollback
  · rw [hexec]
    exact h.refl
  · rw [hexec]
    exact h.refl
  · rw [hexec]
    obtain ⟨hI, hle⟩ := hstmt d h.current.1 hd
    exact h.put hI hle

end Conn

end Sqlite
