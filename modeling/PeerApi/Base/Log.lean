import Mathlib.Logic.Relation
import Mathlib.Data.List.Basic

/-! Logs of a machine. A log is a list in the state that steps only append to; what
is said of a stretch of the run is what holds of the items appended in it. -/

namespace PeerApi.Base

open Relation

variable {σ α : Type*} {log : σ → List α} {Q Q' : α → Prop} {s s' s'' : σ}

/-- The items that the log has gained from one state to the other satisfy `Q`. -/
def Appends (log : σ → List α) (Q : α → Prop) (s s' : σ) : Prop :=
  ∃ new, log s' = log s ++ new ∧ ∀ a ∈ new, Q a

theorem Appends.of_eq (h : log s' = log s) : Appends log Q s s' := ⟨[], by simp [h], by simp⟩

theorem Appends.mono (h : Appends log Q s s') (hQ : ∀ a, Q a → Q' a) : Appends log Q' s s' := by
  obtain ⟨new, hnew, ha⟩ := h
  exact ⟨new, hnew, fun a hmem => hQ a (ha a hmem)⟩

theorem Appends.trans (h : Appends log Q s s') (h' : Appends log Q s' s'') :
    Appends log Q s s'' := by
  obtain ⟨new, hnew, hQ⟩ := h
  obtain ⟨new', hnew', hQ'⟩ := h'
  refine ⟨new ++ new', by rw [hnew', hnew, List.append_assoc], fun a ha => ?_⟩
  rcases List.mem_append.mp ha with ha | ha
  · exact hQ a ha
  · exact hQ' a ha

/-- The steps of a run from a state may use an invariant of the run. -/
theorem Appends.of_steps_within {r : σ → σ → Prop} {I : σ → Prop}
    (hI : ∀ {s s'}, I s → r s s' → I s') (hr : ∀ {s s'}, I s → r s s' → Appends log Q s s')
    (h : ReflTransGen r s s') (hs : I s) : Appends log Q s s' := by
  have hall : I s' ∧ Appends log Q s s' := by
    induction h with
    | refl => exact ⟨hs, .of_eq rfl⟩
    | tail _ hm ih => exact ⟨hI ih.1 hm, ih.2.trans (hr ih.1 hm)⟩
  exact hall.2

theorem Appends.of_steps {r : σ → σ → Prop} (hr : ∀ {s s'}, r s s' → Appends log Q s s')
    (h : ReflTransGen r s s') : Appends log Q s s' :=
  .of_steps_within (I := fun _ => True) (fun _ _ => trivial) (fun _ => hr) h trivial

theorem Appends.mem (h : Appends log Q s s') {a : α} (ha : a ∈ log s) : a ∈ log s' := by
  obtain ⟨new, hnew, -⟩ := h
  rw [hnew]
  exact List.mem_append_left _ ha

/-- Whichever way the gain is split off, its items satisfy `Q`. -/
theorem Appends.all (h : Appends log Q s s') {new : List α} (hnew : log s' = log s ++ new) :
    ∀ a ∈ new, Q a := by
  obtain ⟨new', hnew', hQ⟩ := h
  rw [List.append_cancel_left (hnew.symm.trans hnew')]
  exact hQ

/-- Two stretches at the end of a log may be swapped for a reader who looks at items of at
most one of them. -/
theorem filter_append_comm {p : α → Bool} {xs ys : List α} (zs : List α)
    (h : (∀ a ∈ xs, p a = false) ∨ ∀ a ∈ ys, p a = false) :
    (zs ++ (xs ++ ys)).filter p = (zs ++ (ys ++ xs)).filter p := by
  have hnil : ∀ {us : List α}, (∀ a ∈ us, p a = false) → us.filter p = [] := by
    intro us hu
    exact List.filter_eq_nil_iff.mpr fun a ha => by simp [hu a ha]
  simp only [List.filter_append]
  rcases h with h | h
  · rw [hnil h, List.nil_append, List.append_nil]
  · rw [hnil h, List.nil_append, List.append_nil]

end PeerApi.Base
