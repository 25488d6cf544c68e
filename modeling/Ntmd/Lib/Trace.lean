/-
Runs that tell of events, and a component that follows them.

A step of one component may tell of events, and another component steps on the
events alone.  `trace` is all that a run tells, in order.  When a relation between
the two states is kept by every step and the events it tells, it holds after every
run and its trace (`follows`): that is a simulation in which one step is matched by
as many as it has events, none included.

What a trace tells can be counted as well: a quantity of the state that every step
changes by what its events gain and lose has changed, after a run, by what the traces
come to (`balance_exec`), and where a step may also drop some of it, the run loses no
more than that (`bounded_exec`).
-/
import Mathlib.Algebra.BigOperators.Group.List.Basic
import Mathlib.Algebra.Order.Monoid.Defs
import Ntmd.Lib.Run

namespace Run

variable {σ α ε τ : Type} (step : σ → α → σ) (events : σ → α → List ε)

/-- The events of a run. -/
def trace : σ → List α → List ε
  | _, [] => []
  | s, a :: as => events s a ++ trace (step s a) as

@[simp] theorem trace_nil (s : σ) : trace step events s [] = [] := rfl

@[simp] theorem trace_cons (s : σ) (a : α) (as : List α) :
    trace step events s (a :: as) = events s a ++ trace step events (step s a) as := rfl

theorem trace_append : ∀ (as bs : List α) (s : σ),
    trace step events s (as ++ bs) =
      trace step events s as ++ trace step events (exec step s as) bs := by
  intro as
  induction as with
  | nil => intro bs s; rfl
  | cons a as ih =>
      intro bs s
      rw [List.cons_append, trace_cons, ih, trace_cons, exec_cons, List.append_assoc]

variable {step events}

theorem along_append {G : σ → α → Prop} : ∀ {as bs : List α} {s : σ},
    Along step G s (as ++ bs) ↔ Along step G s as ∧ Along step G (exec step s as) bs := by
  intro as
  induction as with
  | nil => intro bs s; exact (iff_of_eq (true_and _)).symm
  | cons a as ih =>
      intro bs s
      rw [List.cons_append, along_cons, along_cons, exec_cons, ih, and_assoc]

/-- Where an event of a run was told, when a step tells of one at most. -/
theorem trace_split (hone : ∀ s a, (events s a).length ≤ 1) {b : ε} {bs₂ : List ε} :
    ∀ {as : List α} {s : σ} {bs₁ : List ε}, trace step events s as = bs₁ ++ b :: bs₂ →
      ∃ as₁ a as₂, as = as₁ ++ a :: as₂ ∧ trace step events s as₁ = bs₁ ∧
        events (exec step s as₁) a = [b] ∧
          trace step events (step (exec step s as₁) a) as₂ = bs₂ := by
  intro as
  induction as with
  | nil => intro s bs₁ h; simp at h
  | cons a as ih =>
      intro s bs₁ h
      rw [trace_cons] at h
      match hevents : events s a with
      | [] =>
          rw [hevents, List.nil_append] at h
          obtain ⟨as₁, a', as₂, rfl, htrace, hb, hrest⟩ := ih h
          exact ⟨a :: as₁, a', as₂, rfl, by rw [trace_cons, hevents, htrace, List.nil_append], hb,
            hrest⟩
      | [e] =>
          rw [hevents, List.singleton_append] at h
          cases bs₁ with
          | nil =>
              obtain ⟨rfl, hrest⟩ := List.cons.inj h
              exact ⟨[], a, as, rfl, rfl, hevents, hrest⟩
          | cons e' bs₁ =>
              obtain ⟨rfl, hrest⟩ := List.cons.inj h
              obtain ⟨as₁, a', as₂, rfl, htrace, hb, hafter⟩ := ih hrest
              exact ⟨a :: as₁, a', as₂, rfl, by rw [trace_cons, hevents, htrace]; rfl, hb, hafter⟩
      | e :: e' :: es =>
          have hlength := hone s a
          rw [hevents] at hlength
          simp at hlength

/-- The steps of a component that follows the events meet a guard when those of each event do. -/
theorem along_trace {post : τ → ε → τ} {f : σ → τ} {G : τ → ε → Prop}
    (hstep : ∀ s a, f (step s a) = exec post (f s) (events s a)) :
    ∀ {as : List α} {s : σ}, Along step (fun s a => Along post G (f s) (events s a)) s as →
      Along post G (f s) (trace step events s as) := by
  intro as
  induction as with
  | nil => intro s _; exact trivial
  | cons a as ih =>
      intro s h
      rw [trace_cons, along_append, ← hstep]
      exact ⟨h.1, ih h.2⟩

theorem along_true (step : σ → α → σ) (s : σ) (as : List α) :
    Along step (fun _ _ => True) s as :=
  along_of_inv (I := fun _ => True) (fun _ _ _ => trivial) (fun _ _ _ => trivial) trivial

/-- A guard that gives another one at each step. -/
theorem Along.mp {G H : σ → α → Prop} : ∀ {as : List α} {s : σ},
    Along step (fun s a => G s a → H s a) s as → Along step G s as → Along step H s as := by
  intro as
  induction as with
  | nil => intro s _ _; exact trivial
  | cons a as ih => intro s hGH hG; exact ⟨hGH.1 hG.1, ih hGH.2 hG.2⟩

/-- **A relation that every step keeps together with its events holds after every run.** -/
theorem follows {post : τ → ε → τ} {R : σ → τ → Prop} {G : σ → α → Prop}
    (hstep : ∀ s t a, R s t → G s a → R (step s a) (exec post t (events s a))) :
    ∀ {as : List α} {s : σ} {t : τ}, R s t → Along step G s as →
      R (exec step s as) (exec post t (trace step events s as)) := by
  intro as
  induction as with
  | nil => intro s t h _; exact h
  | cons a as ih =>
      intro s t h hG
      rw [exec_cons, trace_cons, exec_append]
      exact ih (hstep s t a h hG.1) hG.2

theorem along_iff_forall_trace {P : ε → Prop} : ∀ {as : List α} {s : σ},
    Along step (fun s a => ∀ e ∈ events s a, P e) s as ↔ ∀ e ∈ trace step events s as, P e := by
  intro as
  induction as with
  | nil => intro s; simp
  | cons a as ih =>
      intro s
      rw [along_cons, trace_cons, ih, List.forall_mem_append]

/-- What every step says of its events holds of the whole trace. -/
theorem forall_trace {I : σ → Prop} {G : σ → α → Prop} {P : ε → Prop}
    (hstep : ∀ s a, I s → G s a → I (step s a) ∧ ∀ e ∈ events s a, P e) :
    ∀ {as : List α} {s : σ}, I s → Along step G s as → ∀ e ∈ trace step events s as, P e := by
  intro as
  induction as with
  | nil => intro s _ _ e he; exact absurd he List.not_mem_nil
  | cons a as ih =>
      intro s h hG e he
      obtain ⟨hI, hP⟩ := hstep s a h hG.1
      rcases List.mem_append.mp he with he | he
      · exact hP e he
      · exact ih hI hG.2 e he

/--
**What is gained and not lost again is there after every run**, when that is so over every step.
Gains and losses are told by events of their own.
-/
theorem balance_exec {ε' M : Type} [AddCommMonoid M] {losses : σ → α → List ε'} {μ : σ → M}
    {gain : ε → M} {loss : ε' → M} {I : σ → Prop} {G : σ → α → Prop}
    (hstep : ∀ s a, I s → G s a → I (step s a) ∧
      μ (step s a) + ((losses s a).map loss).sum = μ s + ((events s a).map gain).sum) :
    ∀ {as : List α} {s : σ}, I s → Along step G s as →
      I (exec step s as) ∧
        μ (exec step s as) + ((trace step losses s as).map loss).sum =
          μ s + ((trace step events s as).map gain).sum := by
  intro as
  induction as with
  | nil => intro s h _; exact ⟨h, rfl⟩
  | cons a as ih =>
      intro s h hG
      obtain ⟨hI, hμ⟩ := hstep s a h hG.1
      obtain ⟨hI', hμ'⟩ := ih hI hG.2
      refine ⟨hI', ?_⟩
      simp only [exec_cons, trace_cons, List.map_append, List.sum_append]
      calc μ (exec step (step s a) as) +
              (((losses s a).map loss).sum + ((trace step losses (step s a) as).map loss).sum)
          = μ (exec step (step s a) as) + ((trace step losses (step s a) as).map loss).sum +
              ((losses s a).map loss).sum := by ac_rfl
        _ = μ (step s a) + ((trace step events (step s a) as).map gain).sum +
              ((losses s a).map loss).sum := by rw [hμ']
        _ = μ (step s a) + ((losses s a).map loss).sum +
              ((trace step events (step s a) as).map gain).sum := by ac_rfl
        _ = _ := by rw [hμ, add_assoc]

/-- **What is lost is no more than what there was and what is gained**, in every run, when that is so
over every step. -/
theorem bounded_exec {ε' M : Type} [AddCommMonoid M] [PartialOrder M] [IsOrderedAddMonoid M]
    {losses : σ → α → List ε'} {μ : σ → M} {gain : ε → M} {loss : ε' → M} {I : σ → Prop}
    {G : σ → α → Prop}
    (hstep : ∀ s a, I s → G s a → I (step s a) ∧
      μ (step s a) + ((losses s a).map loss).sum ≤ μ s + ((events s a).map gain).sum) :
    ∀ {as : List α} {s : σ}, I s → Along step G s as →
      I (exec step s as) ∧
        μ (exec step s as) + ((trace step losses s as).map loss).sum ≤
          μ s + ((trace step events s as).map gain).sum := by
  intro as
  induction as with
  | nil => intro s h _; exact ⟨h, le_refl _⟩
  | cons a as ih =>
      intro s h hG
      obtain ⟨hI, hμ⟩ := hstep s a h hG.1
      obtain ⟨hI', hμ'⟩ := ih hI hG.2
      refine ⟨hI', ?_⟩
      simp only [exec_cons, trace_cons, List.map_append, List.sum_append]
      calc μ (exec step (step s a) as) +
              (((losses s a).map loss).sum + ((trace step losses (step s a) as).map loss).sum)
          = μ (exec step (step s a) as) + ((trace step losses (step s a) as).map loss).sum +
              ((losses s a).map loss).sum := by ac_rfl
        _ ≤ μ (step s a) + ((trace step events (step s a) as).map gain).sum +
              ((losses s a).map loss).sum := add_le_add hμ' (le_refl _)
        _ = μ (step s a) + ((losses s a).map loss).sum +
              ((trace step events (step s a) as).map gain).sum := by ac_rfl
        _ ≤ μ s + ((events s a).map gain).sum +
              ((trace step events (step s a) as).map gain).sum := add_le_add hμ (le_refl _)
        _ = _ := by rw [add_assoc]

/-- The same when nothing is gained: what there is at first is all that can be lost. -/
theorem spent_exec {ε' M : Type} [AddCommMonoid M] [PartialOrder M] [IsOrderedAddMonoid M]
    {losses : σ → α → List ε'} {μ : σ → M} {loss : ε' → M} {I : σ → Prop} {G : σ → α → Prop}
    (hstep : ∀ s a, I s → G s a →
      I (step s a) ∧ μ (step s a) + ((losses s a).map loss).sum ≤ μ s)
    {as : List α} {s : σ} (h : I s) (hG : Along step G s as) :
    μ (exec step s as) + ((trace step losses s as).map loss).sum ≤ μ s := by
  have hrun : I (exec step s as) ∧
      μ (exec step s as) + ((trace step losses s as).map loss).sum ≤
        μ s + ((trace step (fun _ _ => ([] : List Unit)) s as).map fun _ => 0).sum :=
    bounded_exec (fun s a hI ha => by simpa using hstep s a hI ha) h hG
  simpa using hrun.2

end Run
