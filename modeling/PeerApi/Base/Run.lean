import Mathlib.Data.List.Basic

/-! Finite runs of a deterministic machine. A run is a list of actions folded
over a state; a guard holds along a run when every action is taken in a state
that admits it. The invariant rules turn what one step preserves into what a
whole run preserves, with or without a guard. -/

namespace PeerApi.Base

variable {σ α : Type*}

def run (step : σ → α → σ) (s : σ) (as : List α) : σ := as.foldl step s

@[simp] theorem run_nil (step : σ → α → σ) (s : σ) : run step s [] = s := rfl

@[simp] theorem run_cons (step : σ → α → σ) (s : σ) (a : α) (as : List α) :
    run step s (a :: as) = run step (step s a) as := rfl

theorem run_append (step : σ → α → σ) (s : σ) (as bs : List α) :
    run step s (as ++ bs) = run step (run step s as) bs := List.foldl_append

theorem run_invariant {step : σ → α → σ} {P : σ → Prop} (hstep : ∀ s a, P s → P (step s a))
    {s : σ} (h : P s) (as : List α) : P (run step s as) := by
  induction as generalizing s with
  | nil => exact h
  | cons a as ih => exact ih (hstep s a h)

/-- Every action of the run is taken in a state that admits it. -/
def Along (step : σ → α → σ) (ok : σ → α → Prop) : σ → List α → Prop
  | _, [] => True
  | s, a :: as => ok s a ∧ Along step ok (step s a) as

instance Along.decidable (step : σ → α → σ) (ok : σ → α → Prop) [∀ s a, Decidable (ok s a)] :
    (s : σ) → (as : List α) → Decidable (Along step ok s as)
  | _, [] => inferInstanceAs (Decidable True)
  | s, a :: as =>
    have := Along.decidable step ok (step s a) as
    inferInstanceAs (Decidable (ok s a ∧ Along step ok (step s a) as))

theorem along_append {step : σ → α → σ} {ok : σ → α → Prop} {s : σ} {as bs : List α} :
    Along step ok s (as ++ bs) ↔ Along step ok s as ∧ Along step ok (run step s as) bs := by
  induction as generalizing s with
  | nil => simp [Along]
  | cons a as ih => simp only [List.cons_append, Along, run_cons, ih, and_assoc]

theorem Along.mono {step : σ → α → σ} {ok ok' : σ → α → Prop} (h : ∀ s a, ok s a → ok' s a)
    {s : σ} {as : List α} (ha : Along step ok s as) : Along step ok' s as := by
  induction as generalizing s with
  | nil => trivial
  | cons a as ih => exact ⟨h s a ha.1, ih ha.2⟩

/-- One guard gives another in the states of an invariant that admitted steps keep. -/
theorem Along.mono_of_invariant {step : σ → α → σ} {ok ok' : σ → α → Prop} {P : σ → Prop}
    (h : ∀ s a, P s → ok s a → ok' s a ∧ P (step s a)) {s : σ} {as : List α} (hs : P s)
    (ha : Along step ok s as) : Along step ok' s as := by
  induction as generalizing s with
  | nil => trivial
  | cons a as ih =>
    obtain ⟨h1, h2⟩ := h s a hs ha.1
    exact ⟨h1, ih h2 ha.2⟩

/-- A predicate preserved by every admitted step holds at the end of every
admitted run. -/
theorem Along.invariant {step : σ → α → σ} {ok : σ → α → Prop} {P : σ → Prop}
    (hstep : ∀ s a, P s → ok s a → P (step s a)) {s : σ} {as : List α}
    (ha : Along step ok s as) (h : P s) : P (run step s as) := by
  induction as generalizing s with
  | nil => exact h
  | cons a as ih => exact ih ha.2 (hstep s a h ha.1)

end PeerApi.Base
