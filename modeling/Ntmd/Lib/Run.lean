/-
Runs of a step function, and what holds along them.

A component is a state and a step on labels: a label carries everything the
environment chooses, so a run is a list of labels and nothing is left open.  Two
kinds of statement are wanted about a run.  `Always` is about the states it
passes through, first and last included; `Along` is about its steps, each seen
from the state it is taken in.

The rules below turn one fact about a single step into a fact about every run.
`always_iff_along` is the sharp one: when a step keeps a property exactly if a
guard holds of it, a run keeps the property throughout exactly if every step
meets the guard.  Each rule carries an invariant `I` beside the property, for
what the step needs to know about the state and never loses.
-/
import Mathlib.Data.List.Basic

namespace Run

variable {σ α : Type} (step : σ → α → σ)

/-- The state a run ends in. -/
def exec (s : σ) (as : List α) : σ := as.foldl step s

@[simp] theorem exec_nil (s : σ) : exec step s [] = s := rfl

@[simp] theorem exec_cons (s : σ) (a : α) (as : List α) :
    exec step s (a :: as) = exec step (step s a) as := rfl

theorem exec_append (s : σ) (as bs : List α) :
    exec step s (as ++ bs) = exec step (exec step s as) bs := List.foldl_append

/-- Every state the run passes through satisfies `P`. -/
def Always (P : σ → Prop) : σ → List α → Prop
  | s, [] => P s
  | s, a :: as => P s ∧ Always P (step s a) as

/-- Every step of the run satisfies `G` in the state it is taken in. -/
def Along (G : σ → α → Prop) : σ → List α → Prop
  | _, [] => True
  | s, a :: as => G s a ∧ Along G (step s a) as

variable {step}

@[simp] theorem always_nil {P : σ → Prop} {s : σ} : Always step P s [] ↔ P s := Iff.rfl

@[simp] theorem always_cons {P : σ → Prop} {s : σ} {a : α} {as : List α} :
    Always step P s (a :: as) ↔ P s ∧ Always step P (step s a) as := Iff.rfl

@[simp] theorem along_nil {G : σ → α → Prop} {s : σ} : Along step G s [] := trivial

@[simp] theorem along_cons {G : σ → α → Prop} {s : σ} {a : α} {as : List α} :
    Along step G s (a :: as) ↔ G s a ∧ Along step G (step s a) as := Iff.rfl

theorem Always.head {P : σ → Prop} {s : σ} {as : List α} (h : Always step P s as) : P s := by
  cases as with
  | nil => exact h
  | cons a as => exact h.1

theorem Always.last {P : σ → Prop} :
    ∀ {as : List α} {s : σ}, Always step P s as → P (exec step s as) := by
  intro as
  induction as with
  | nil => intro s h; exact h
  | cons a as ih => intro s h; exact ih h.2

/-! ### From one step to a run -/

/-- What follows from an invariant holds throughout a run. -/
theorem always_of_inv {I P : σ → Prop} (hstep : ∀ s a, I s → I (step s a))
    (hP : ∀ s, I s → P s) : ∀ {as : List α} {s : σ}, I s → Always step P s as := by
  intro as
  induction as with
  | nil => intro s hI; exact hP s hI
  | cons a as ih => intro s hI; exact ⟨hP s hI, ih (hstep s a hI)⟩

/-- What an invariant says of each step holds along a run. -/
theorem along_of_inv {I : σ → Prop} {Q : σ → α → Prop} (hstep : ∀ s a, I s → I (step s a))
    (hQ : ∀ s a, I s → Q s a) : ∀ {as : List α} {s : σ}, I s → Along step Q s as := by
  intro as
  induction as with
  | nil => intro s _; exact trivial
  | cons a as ih => intro s hI; exact ⟨hQ s a hI, ih (hstep s a hI)⟩

/-- A guard that keeps the invariant keeps what follows from it. -/
theorem always_of_guard {I P : σ → Prop} {G : σ → α → Prop}
    (hstep : ∀ s a, I s → G s a → I (step s a)) (hP : ∀ s, I s → P s) :
    ∀ {as : List α} {s : σ}, I s → Along step G s as → Always step P s as := by
  intro as
  induction as with
  | nil => intro s hI _; exact hP s hI
  | cons a as ih => intro s hI hG; exact ⟨hP s hI, ih (hstep s a hI hG.1) hG.2⟩

/-- A guard that keeps the invariant and gives `Q` at each step gives `Q` along the run. -/
theorem along_of_guard {I : σ → Prop} {G Q : σ → α → Prop}
    (hstep : ∀ s a, I s → G s a → I (step s a) ∧ Q s a) :
    ∀ {as : List α} {s : σ}, I s → Along step G s as → Along step Q s as := by
  intro as
  induction as with
  | nil => intro s _ _; exact trivial
  | cons a as ih =>
      intro s hI hG
      obtain ⟨hI', hQ⟩ := hstep s a hI hG.1
      exact ⟨hQ, ih hI' hG.2⟩

/--
**A run keeps a property throughout exactly if each of its steps meets the guard.**
The step fact is only asked where the property still holds, so the first step that
misses the guard is also the first that breaks the property.
-/
theorem always_iff_along {I P : σ → Prop} {G : σ → α → Prop}
    (hI : ∀ s a, I s → I (step s a))
    (hstep : ∀ s a, I s → P s → (P (step s a) ↔ G s a)) :
    ∀ {as : List α} {s : σ}, I s → P s → (Always step P s as ↔ Along step G s as) := by
  intro as
  induction as with
  | nil => intro s _ hP; exact ⟨fun _ => trivial, fun _ => hP⟩
  | cons a as ih =>
      intro s hs hP
      constructor
      · rintro ⟨-, hrest⟩
        have hP' : P (step s a) := hrest.head
        exact ⟨(hstep s a hs hP).mp hP', (ih (hI s a hs) hP').mp hrest⟩
      · rintro ⟨hG, hrest⟩
        have hP' : P (step s a) := (hstep s a hs hP).mpr hG
        exact ⟨hP, (ih (hI s a hs) hP').mpr hrest⟩

/-- The same for a property of the states together with one of the steps, where a stronger property
`P'` of the states is known to be kept. -/
theorem always_along_iff {I P P' : σ → Prop} {G Q : σ → α → Prop}
    (hI : ∀ s a, I s → I (step s a)) (hP : ∀ s, P' s → P s)
    (hstep : ∀ s a, I s → P' s → (P (step s a) ∧ Q s a ↔ G s a))
    (hkeep : ∀ s a, I s → P' s → G s a → P' (step s a)) :
    ∀ {as : List α} {s : σ}, I s → P' s →
      (Always step P s as ∧ Along step Q s as ↔ Along step G s as) := by
  intro as
  induction as with
  | nil => intro s _ hs; exact ⟨fun _ => trivial, fun _ => ⟨hP s hs, trivial⟩⟩
  | cons a as ih =>
      intro s hs hs'
      constructor
      · rintro ⟨⟨-, hrest⟩, hQ, hQs⟩
        have hG : G s a := (hstep s a hs hs').mp ⟨hrest.head, hQ⟩
        exact ⟨hG, (ih (hI s a hs) (hkeep s a hs hs' hG)).mp ⟨hrest, hQs⟩⟩
      · rintro ⟨hG, hGs⟩
        obtain ⟨hrest, hQs⟩ := (ih (hI s a hs) (hkeep s a hs hs' hG)).mpr hGs
        exact ⟨⟨hP s hs', hrest⟩, ((hstep s a hs hs').mpr hG).2, hQs⟩

end Run
