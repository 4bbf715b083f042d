import Mathlib.Data.List.Basic
import Mathlib.Data.Int.ModEq
import Mathlib.Tactic.Ring

/-! # The window of a circular buffer

The entry with number `k` is in cell `k % n` (`Int.tmod`), and `window buf n lo hi` lists the entries
numbered `lo, …, hi - 1`. Writing entry `hi` appends to every window that ends at `hi` (`window_push`),
and lowering all counters by a multiple of `n` changes no window (`window_rebase`).
-/

namespace WeaverDB.Foundations
open List Function Int

variable {α : Type}

/-- The entries numbered `lo, …, hi - 1` of a circular buffer of `n` cells. -/
def window (buf : Int → α) (n lo hi : Int) : List α :=
  (List.range (hi-lo).toNat).map fun i : Nat => buf ((lo + (i : Int)).tmod n)

section

variable (buf : Int → α) (n lo hi : Int)

theorem window_empty (h : hi ≤ lo) : window buf n lo hi = [] := by
  have e : (hi-lo).toNat = 0 := by omega
  simp [window, e]

theorem window_cons (h : lo < hi) : window buf n lo hi = buf (lo.tmod n) :: window buf n (lo+1) hi := by
  have e : (hi-lo).toNat = (hi - (lo+1)).toNat + 1 := by omega
  unfold window
  rw [e, range_succ_eq_map, map_cons, map_map]
  congr 1
  · simp
  · apply map_congr_left
    intro i _
    simp only [comp_apply, Nat.cast_succ]
    congr 2
    omega

theorem window_snoc (h : lo ≤ hi) : window buf n lo (hi+1) = window buf n lo hi ++ [buf (hi.tmod n)] := by
  have e : (hi+1 - lo).toNat = (hi-lo).toNat + 1 := by omega
  have e' : lo + ((hi-lo).toNat : Int) = hi := by omega
  unfold window
  rw [e, range_succ, map_append, map_singleton, e']

theorem window_suffix {mid : Int} (h : lo ≤ mid) : window buf n mid hi <:+ window buf n lo hi := by
  obtain ⟨k, rfl⟩ := le.dest h
  induction k with
  | zero => simp
  | succ k ih =>
    rw [Nat.cast_succ, ← add_assoc]
    obtain hlt | hge := lt_or_ge (lo+k) hi
    · refine IsSuffix.trans ?_ (ih (by omega))
      rw [window_cons buf n (lo+k) hi hlt]
      exact suffix_cons ..
    · rw [window_empty _ _ _ _ (by omega)]
      exact nil_suffix

end

theorem tmod_ne_of_close {n a b : Int} (ha : 0 ≤ a) (hab : a < b) (hb : b < a+n) : a.tmod n ≠ b.tmod n := by
  rw [tmod_eq_emod_of_nonneg ha, tmod_eq_emod_of_nonneg (by omega)]
  intro h
  have hd : n ∣ b - a := Int.ModEq.dvd h
  have hle : n ≤ b-a := le_of_dvd (by omega) hd
  omega

theorem window_push (buf : Int → α) (n lo hi : Int) (x : α) (h0 : 0 ≤ lo) (h : lo ≤ hi) (hroom : hi < lo+n) :
    window (Function.update buf (hi.tmod n) x) n lo (hi+1) = window buf n lo hi ++ [x] := by
  rw [window_snoc _ _ _ _ h, update_self]
  congr 1
  apply map_congr_left
  intro i hi'
  have hlt : i < (hi-lo).toNat := mem_range.mp hi'
  -- the numbers below `hi` that are still live are in other cells
  exact update_of_ne (tmod_ne_of_close (by omega) (by omega) (by omega)) _ _

theorem window_rebase (buf : Int → α) (n k lo hi : Int) (hk : n ∣ k) (h0 : 0 ≤ k) (h : k ≤ lo) :
    window buf n (lo-k) (hi-k) = window buf n lo hi := by
  have e : (hi - k - (lo-k)).toNat = (hi-lo).toNat := by omega
  unfold window
  rw [e]
  apply map_congr_left
  intro i _
  rw [tmod_eq_emod_of_nonneg (by omega), tmod_eq_emod_of_nonneg (by omega)]
  obtain ⟨c, rfl⟩ := hk
  have e' : lo - n * c + (i : Int) = lo + i - n * c := by ring
  rw [e', sub_mul_emod_self_left]

end WeaverDB.Foundations
