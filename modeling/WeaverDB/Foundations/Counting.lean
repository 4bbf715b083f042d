import Mathlib.Data.Set.Card

/-! # Counters of a set

A program counts the threads that are in some place by a number that it raises when one comes and
lowers when one leaves. Such a number says whether there is one.
-/

namespace WeaverDB.Foundations
open Function

variable {n : Int} {T : Type} {S S' : Set T}

structure Counted {T : Type} (S : Set T) (n : Int) : Prop where
  finite : S.Finite
  card : (S.ncard : Int) = n

theorem Counted.pos_iff (h : Counted S n) : 0 < n ↔ ∃ t, t ∈ S := by
  rw [← h.card, Int.natCast_pos, Set.ncard_pos h.finite]
  exact Iff.rfl

theorem Counted.nonneg (h : Counted S n) : 0 ≤ n := by
  rw [← h.card]
  exact Int.natCast_nonneg _

theorem Counted.add (t : T) (h : Counted S n) (ht : t ∉ S) (hS : ∀ u, u ∈ S' ↔ u = t ∨ u ∈ S) : Counted S' (n+1) := by
  have hS' : S' = insert t S := Set.ext hS
  refine ⟨hS' ▸ h.finite.insert t, ?_⟩
  rw [hS', Set.ncard_insert_of_notMem ht h.finite, ← h.card]
  rfl

theorem Counted.remove (t : T) (h : Counted S n)
    (ht : t ∈ S) (hS : ∀ u, u ∈ S' ↔ u ∈ S ∧ u ≠ t) : Counted S' (n-1) := by
  have hS' : S' = S \ {t} := Set.ext hS
  refine ⟨hS' ▸ h.finite.sdiff, ?_⟩
  have hcard := Set.ncard_sdiff_singleton_add_one ht h.finite
  rw [hS', ← h.card]
  omega

theorem Counted.of_iff (h : Counted S n) (hS : ∀ u, u ∈ S' ↔ u ∈ S) : Counted S' n := by
  rw [Set.ext hS]
  exact h

theorem Counted.update {V : Type} [DecidableEq T] [DecidableEq V] {f : T → V} {v : V}
    (h : Counted {u | f u = v} n) (t : T) (w : V) : Counted {u | Function.update f t w u = v}
      (n + (if w = v then 1 else 0) - (if f t = v then 1 else 0)) := by
  by_cases hw : w = v <;> by_cases ht : f t = v
  · rw [if_pos hw, if_pos ht, Int.add_sub_cancel]
    refine h.of_iff fun u => ?_
    by_cases hu : u = t <;> simp [update_apply, hu, hw, ht]
  · rw [if_pos hw, if_neg ht, Int.sub_zero]
    refine h.add t ht fun u => ?_
    by_cases hu : u = t <;> simp [update_apply, hu, hw]
  · rw [if_neg hw, if_pos ht, Int.add_zero]
    refine h.remove t ht fun u => ?_
    by_cases hu : u = t <;> simp [update_apply, hu, hw]
  · rw [if_neg hw, if_neg ht, Int.add_zero, Int.sub_zero]
    refine h.of_iff fun u => ?_
    by_cases hu : u = t <;> simp [update_apply, hu, hw, ht]

end WeaverDB.Foundations
