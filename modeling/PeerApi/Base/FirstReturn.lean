import Mathlib.Computability.Language

/-! Automata that come back. The words that lead an automaton from a state back to it
are the sequences of its first returns: the language of an automaton whose only final
state is the initial one is a Kleene closure. -/

namespace PeerApi.Base

open scoped Computability

variable {σ α : Type*} (δ : σ → α → σ) (q : σ)

/-- The nonempty word leads from the state to `q`, which it reaches at its end only. -/
inductive FirstReturn : σ → List α → Prop where
  | last {s : σ} {a : α} (h : δ s a = q) : FirstReturn s [a]
  | step {s : σ} {a : α} {w : List α} (h : δ s a ≠ q) (rest : FirstReturn (δ s a) w) :
      FirstReturn s (a :: w)

/-- The words that lead from `q` back to `q`. -/
def firstReturns : Language α := {u | FirstReturn δ q q u}

variable {δ q}

theorem FirstReturn.foldl_eq {s : σ} {w : List α} (h : FirstReturn δ q s w) : w.foldl δ s = q := by
  induction h with
  | last h => exact h
  | step _ _ ih => exact ih

/-- A word that ends in `q` begins with a first return, unless it is empty. -/
theorem exists_firstReturn {s : σ} {a : α} {w : List α} (h : (a :: w).foldl δ s = q) :
    ∃ u v, a :: w = u ++ v ∧ FirstReturn δ q s u ∧ v.foldl δ q = q := by
  induction w generalizing s a with
  | nil => exact ⟨[a], [], rfl, .last h, rfl⟩
  | cons b w ih =>
    by_cases ha : δ s a = q
    · refine ⟨[a], b :: w, rfl, .last ha, ?_⟩
      rw [← ha]
      rw [List.foldl_cons, ha] at h
      rwa [ha]
    · obtain ⟨u, v, he, hu, hv⟩ := ih h
      exact ⟨a :: u, v, by rw [he, List.cons_append], .step ha hu, hv⟩

/-- The words that lead from `q` to itself are the sequences of first returns. -/
theorem foldl_eq_iff_mem_kstar (w : List α) :
    w.foldl δ q = q ↔ w ∈ (firstReturns δ q)∗ := by
  constructor
  · intro h
    induction hn : w.length using Nat.strong_induction_on generalizing w with
    | _ n ih =>
      cases w with
      | nil => exact Language.nil_mem_kstar _
      | cons a w =>
        obtain ⟨u, v, he, hu, hv⟩ := exists_firstReturn h
        have hlt : v.length < n := by
          have hlen := congrArg List.length he
          have hpos : 0 < u.length := by cases hu <;> simp
          rw [List.length_append] at hlen
          omega
        obtain ⟨ws, rfl, hws⟩ := Language.mem_kstar.mp (ih _ hlt v hv rfl)
        refine Language.mem_kstar.mpr ⟨u :: ws, by simpa using he, fun y hy => ?_⟩
        rcases List.mem_cons.mp hy with rfl | hy
        · exact hu
        · exact hws y hy
  · intro h
    obtain ⟨ws, rfl, hws⟩ := Language.mem_kstar.mp h
    clear h
    induction ws with
    | nil => rfl
    | cons u ws ih =>
      have hu : FirstReturn δ q q u := hws u List.mem_cons_self
      rw [List.flatten_cons, List.foldl_append, hu.foldl_eq]
      exact ih fun y hy => hws y (List.mem_cons_of_mem u hy)

end PeerApi.Base
