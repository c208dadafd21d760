import Mathlib.Data.List.Basic

/-! Machines that read one list and write another. Each item read changes the state
and adds to what is written. Reading a list in two parts is reading the parts one
after the other, so neither the state nor the output depends on how the input was
cut. -/

namespace PeerApi.Base

structure Transducer (σ α β : Type*) where
  step : σ → α → σ × List β

namespace Transducer

variable {σ α β : Type*} (T : Transducer σ α β)

def final (s : σ) (as : List α) : σ := as.foldl (fun s a => (T.step s a).1) s

def output : σ → List α → List β
  | _, [] => []
  | s, a :: as => (T.step s a).2 ++ output (T.step s a).1 as

theorem final_append (s : σ) (as bs : List α) :
    T.final s (as ++ bs) = T.final (T.final s as) bs := List.foldl_append

theorem output_append (s : σ) (as bs : List α) :
    T.output s (as ++ bs) = T.output s as ++ T.output (T.final s as) bs := by
  induction as generalizing s with
  | nil => rfl
  | cons a as ih =>
    rw [List.cons_append, output, output, ih, List.append_assoc]
    rfl

/-- From state `s₀` the machine has read and written the given lists and is now in
state `s`. -/
structure Tracks (s₀ s : σ) (read : List α) (written : List β) : Prop where
  state : s = T.final s₀ read
  written : written = T.output s₀ read

variable {T}

theorem Tracks.start (s₀ : σ) : T.Tracks s₀ s₀ [] [] := ⟨rfl, rfl⟩

theorem Tracks.next {s₀ s : σ} {read : List α} {written : List β} (h : T.Tracks s₀ s read written)
    (a : α) : T.Tracks s₀ (T.step s a).1 (read ++ [a]) (written ++ (T.step s a).2) := by
  obtain ⟨rfl, rfl⟩ := h
  refine ⟨(T.final_append s₀ read [a]).symm, ?_⟩
  rw [output_append]
  simp only [output, List.append_nil]

end Transducer

end PeerApi.Base
