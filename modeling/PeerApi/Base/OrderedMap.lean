import Mathlib.Order.Lattice
import Mathlib.Data.List.Basic
import Mathlib.Data.List.Pairwise

/-! An ordered map with the interface of an insertion-preserving search tree:
`insert` keeps an entry that is already there, `erase` removes one key, and the
entries are enumerated in key order. The order of the keys is a field of the
structure, so each key has at most one entry by construction. -/

namespace PeerApi.Base

structure OrderedMap (κ ν : Type*) [LinearOrder κ] where
  entries : List (κ × ν)
  sorted : (entries.map Prod.fst).Pairwise (· < ·)

namespace OrderedMap

variable {κ ν : Type*} [LinearOrder κ]

instance : EmptyCollection (OrderedMap κ ν) := ⟨⟨[], by simp⟩⟩

instance : Inhabited (OrderedMap κ ν) := ⟨∅⟩

def lookup (k : κ) : List (κ × ν) → Option ν
  | [] => none
  | e :: es => if k = e.1 then some e.2 else lookup k es

def find? (m : OrderedMap κ ν) (k : κ) : Option ν := lookup k m.entries

/-- Place a new key before the first larger one; an equal key is kept. -/
def insertEntry (k : κ) (v : ν) : List (κ × ν) → List (κ × ν)
  | [] => [(k, v)]
  | e :: es =>
    if k < e.1 then (k, v) :: e :: es
    else if k = e.1 then e :: es
    else e :: insertEntry k v es

theorem mem_keys_insertEntry (k : κ) (v : ν) (es : List (κ × ν)) (k' : κ) :
    k' ∈ (insertEntry k v es).map Prod.fst → k' = k ∨ k' ∈ es.map Prod.fst := by
  induction es with
  | nil => simp [insertEntry]
  | cons e es ih =>
    simp only [insertEntry]
    split_ifs with h1 h2
    · simp
    · exact Or.inr
    · simp only [List.map_cons, List.mem_cons]
      rintro (h | h)
      · exact Or.inr (Or.inl h)
      · exact (ih h).imp id Or.inr

theorem insertEntry_sorted (k : κ) (v : ν) (es : List (κ × ν))
    (h : (es.map Prod.fst).Pairwise (· < ·)) :
    ((insertEntry k v es).map Prod.fst).Pairwise (· < ·) := by
  induction es with
  | nil => simp [insertEntry]
  | cons e es ih =>
    simp only [List.map_cons, List.pairwise_cons] at h
    simp only [insertEntry]
    split_ifs with h1 h2
    · simp only [List.map_cons, List.pairwise_cons, List.mem_cons, forall_eq_or_imp]
      exact ⟨⟨h1, fun k' hk => lt_trans h1 (h.1 k' hk)⟩, h⟩
    · simpa using h
    · simp only [List.map_cons, List.pairwise_cons]
      refine ⟨fun k' hk => ?_, ih h.2⟩
      rcases mem_keys_insertEntry k v es k' hk with rfl | hk
      · exact lt_of_le_of_ne (not_lt.mp h1) (Ne.symm h2)
      · exact h.1 k' hk

def insert (m : OrderedMap κ ν) (k : κ) (v : ν) : OrderedMap κ ν :=
  ⟨insertEntry k v m.entries, insertEntry_sorted k v m.entries m.sorted⟩

def erase (m : OrderedMap κ ν) (k : κ) : OrderedMap κ ν :=
  ⟨m.entries.filter (fun e => e.1 ≠ k),
    m.sorted.sublist (List.filter_sublist.map Prod.fst)⟩

@[simp] theorem find?_empty (k : κ) : (∅ : OrderedMap κ ν).find? k = none := rfl

theorem mem_of_lookup {k : κ} {v : ν} {es : List (κ × ν)} (h : lookup k es = some v) :
    (k, v) ∈ es := by
  induction es with
  | nil => simp [lookup] at h
  | cons e es ih =>
    simp only [lookup] at h
    split_ifs at h with hk
    · cases h; subst hk; exact List.mem_cons_self
    · exact List.mem_cons_of_mem _ (ih h)

theorem lookup_of_mem {k : κ} {v : ν} {es : List (κ × ν)}
    (hs : (es.map Prod.fst).Pairwise (· < ·)) (h : (k, v) ∈ es) : lookup k es = some v := by
  induction es with
  | nil => simp at h
  | cons e es ih =>
    simp only [List.map_cons, List.pairwise_cons] at hs
    simp only [lookup]
    rcases List.mem_cons.mp h with rfl | h
    · simp
    · have hlt := hs.1 k (List.mem_map_of_mem (f := Prod.fst) h)
      rw [if_neg hlt.ne', ih hs.2 h]

theorem mem_entries {m : OrderedMap κ ν} {k : κ} {v : ν} :
    (k, v) ∈ m.entries ↔ m.find? k = some v :=
  ⟨lookup_of_mem m.sorted, mem_of_lookup⟩

theorem lookup_insertEntry (k : κ) (v : ν) (es : List (κ × ν))
    (h : (es.map Prod.fst).Pairwise (· < ·)) (k' : κ) :
    lookup k' (insertEntry k v es) =
      if k' = k then some ((lookup k es).getD v) else lookup k' es := by
  induction es with
  | nil => simp [insertEntry, lookup]
  | cons e es ih =>
    simp only [List.map_cons, List.pairwise_cons] at h
    simp only [insertEntry]
    by_cases hlt : k < e.1
    · -- `k` is smaller than every key, so it was absent
      have hnone : lookup k (e :: es) = none := by
        rw [Option.eq_none_iff_forall_ne_some]
        intro u hu
        rcases List.mem_cons.mp (mem_of_lookup hu) with he | he
        · rw [← he] at hlt; exact lt_irrefl _ hlt
        · exact lt_asymm hlt (h.1 k (List.mem_map_of_mem (f := Prod.fst) he))
      simp only [hlt, if_true, hnone, Option.getD_none]
      rfl
    · by_cases heq : k = e.1
      · subst heq
        by_cases hk : k' = e.1 <;> simp [lookup, hk]
      · simp only [hlt, heq, if_false, lookup, ih h.2]
        by_cases hk : k' = k
        · subst hk; simp [heq]
        · simp [hk]

theorem find?_insert (m : OrderedMap κ ν) (k : κ) (v : ν) (k' : κ) :
    (m.insert k v).find? k' = if k' = k then some ((m.find? k).getD v) else m.find? k' :=
  lookup_insertEntry k v m.entries m.sorted k'

theorem find?_erase (m : OrderedMap κ ν) (k k' : κ) :
    (m.erase k).find? k' = if k' = k then none else m.find? k' := by
  simp only [find?, erase]
  induction m.entries with
  | nil => simp [lookup]
  | cons e es ih =>
    by_cases he : e.1 = k
    · have hf : (e :: es).filter (fun e => e.1 ≠ k) = es.filter (fun e => e.1 ≠ k) := by simp [he]
      rw [hf, ih]
      by_cases hk : k' = k <;> simp [lookup, hk, he]
    · have hf : (e :: es).filter (fun e => e.1 ≠ k) = e :: es.filter (fun e => e.1 ≠ k) := by
        simp [he]
      rw [hf, lookup, ih, lookup]
      by_cases hk : k' = e.1
      · subst hk; simp [he]
      · simp [hk]

theorem eq_empty {m : OrderedMap κ ν} (h : ∀ k, m.find? k = none) : m = ∅ := by
  obtain ⟨es, hs⟩ := m
  cases es with
  | nil => rfl
  | cons e es => exact absurd (h e.1) (by simp [find?, lookup])

end OrderedMap

end PeerApi.Base
