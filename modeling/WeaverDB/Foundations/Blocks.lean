import Mathlib.Data.List.GetD
import Mathlib.Logic.Function.Basic

/-! # Blocks of memory

A block has a size and contents. `store` notes in `stray` if its cell is behind the end.
-/

namespace WeaverDB.Foundations
open List

structure Block (α : Type) where
  size : Nat
  data : Nat → α
  stray : Bool

namespace Block

variable {α : Type}

def store (b : Block α) (i : Nat) (x : α) : Block α :=
  { b with data := Function.update b.data i x, stray := b.stray || decide (b.size ≤ i) }

def copy (b : Block α) (i : Nat) (src : Nat → α) : Nat → Block α
  | 0 => b
  | len + 1 => (b.copy i src len).store (i+len) (src len)

def toList (b : Block α) : List α := (List.range b.size).map b.data

theorem store_stray {b : Block α} {i : Nat} {x : α} (h : i < b.size) : (b.store i x).stray = b.stray := by
  rw [store, decide_eq_false (Nat.not_le_of_lt h), Bool.or_false]

variable (b : Block α)

theorem store_data (i j : Nat) (x : α) :
    (b.store i x).data j = if j = i then x else b.data j := Function.update_apply ..

theorem copy_size (i : Nat) (src : Nat → α) (len : Nat) : (b.copy i src len).size = b.size := by
  induction len with
  | zero => rfl
  | succ len ih => rw [copy, store, ih]

theorem copy_data (i : Nat) (src : Nat → α) (len j : Nat) :
    (b.copy i src len).data j = if i ≤ j ∧ j < i + len then src (j-i) else b.data j := by
  induction len with
  | zero => rw [copy, if_neg (by omega)]
  | succ len ih =>
    rw [copy, store_data, ih]
    by_cases hj : j = i+len
    · have hlen : len = j-i := by omega
      rw [if_pos hj, if_pos (by omega), hlen]
    · rw [if_neg hj]
      by_cases hin : i ≤ j ∧ j < i+len
      · rw [if_pos hin, if_pos (by omega)]
      · rw [if_neg hin, if_neg (by omega)]

theorem copy_stray {b : Block α} {i len : Nat} (src : Nat → α) (h : i + len ≤ b.size) :
    (b.copy i src len).stray = b.stray := by
  induction len with
  | zero => rfl
  | succ len ih =>
    rw [copy, store_stray (by rw [copy_size]; omega)]
    exact ih (by omega)

theorem toList_length : b.toList.length = b.size := by
  rw [toList, length_map, length_range]

theorem toList_getD (i : Nat) (x : α) : b.toList.getD i x = if i < b.size then b.data i else x := by
  by_cases h : i < b.size
  · rw [if_pos h, toList, getD_eq_getElem _ _ (by simpa using h), getElem_map, getElem_range]
  · rw [if_neg h, getD_eq_default _ _ (by rw [toList_length]; exact Nat.not_lt.mp h)]

end Block
end WeaverDB.Foundations
