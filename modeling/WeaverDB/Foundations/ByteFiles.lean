import Mathlib.Algebra.Group.Nat.Defs

/-! # Numbers in bytes, and files of bytes

`leBytes k n` are the `k` lowest bytes of a number, lowest first. A file that was put together from
pieces is read piece by piece: `readAt_skip` passes over one, `readAt_here` returns the next.
-/

namespace WeaverDB.Foundations
open List

def leBytes : Nat → Nat → List UInt8
  | 0, _ => []
  | k + 1, n => UInt8.ofNat n :: leBytes k (n/256)

def leValue : List UInt8 → Nat
  | [] => 0
  | b :: bytes => b.toNat + 256 * leValue bytes

theorem length_leBytes (k n : Nat) : (leBytes k n).length = k := by
  induction k generalizing n with
  | zero => rfl
  | succ k ih => rw [leBytes, length_cons, ih]

theorem leValue_leBytes (k n : Nat) : leValue (leBytes k n) = n % 256^k := by
  induction k generalizing n with
  | zero => rw [leBytes, leValue, pow_zero, Nat.mod_one]
  | succ k ih =>
    rw [leBytes, leValue, ih, pow_succ', Nat.mod_mul]
    rfl

section

variable {α : Type} {pos : Nat}

def readAt (file : List α) (pos n : Nat) : List α := (file.drop pos).take n

def overwrite (file : List α) (pos : Nat) (bytes : List α) : List α :=
  file.take pos ++ bytes ++ file.drop (pos+bytes.length)

variable (a b : List α)

theorem readAt_skip {q : Nat} (n : Nat) (h : a.length + q = pos) : readAt (a ++ b) pos n = readAt b q n := by
  rw [readAt, ← h, drop_length_add_append, readAt]

theorem readAt_here {n : Nat} (h : a.length = n) : readAt (a ++ b) 0 n = a := by
  rw [readAt, drop_zero, ← h, take_left]

theorem readAt_left {n : Nat} (h : pos + n ≤ a.length) : readAt (a ++ b) pos n = readAt a pos n := by
  rw [readAt, drop_append_of_le_length (by omega), take_append_of_le_length (by rw [length_drop]; omega), readAt]

variable (file bytes : List α)

theorem overwrite_end : overwrite file file.length bytes = file ++ bytes := by
  rw [overwrite, take_length, drop_of_length_le (Nat.le_add_right _ _), append_nil]

theorem overwrite_piece (a old b : List α) {new : List α} (h : new.length = old.length) :
    overwrite (a ++ old ++ b) a.length new = a ++ new ++ b := by
  have hdrop : (a ++ old ++ b).drop (a.length+new.length) = b := by
    rw [h, ← length_append, drop_left]
  have htake : (a ++ old ++ b).take a.length = a := by
    rw [append_assoc, take_left]
  rw [overwrite, hdrop, htake]

theorem length_overwrite (h : pos + bytes.length ≤ file.length) : (overwrite file pos bytes).length = file.length := by
  rw [overwrite, length_append, length_append, length_take, length_drop]
  omega

theorem readAt_overwrite (h : pos ≤ file.length) : readAt (overwrite file pos bytes) pos bytes.length = bytes := by
  have htake : (file.take pos).length + 0 = pos := by
    rw [length_take]
    omega
  rw [overwrite, append_assoc, readAt_skip _ _ _ htake, readAt_here _ _ rfl]

theorem readAt_overwrite_before {start n : Nat} (h : start + n ≤ pos) (hpos : pos ≤ file.length) :
    readAt (overwrite file pos bytes) start n = readAt file start n := by
  have htake : start + n ≤ (file.take pos).length := by
    rw [length_take]
    omega
  rw [overwrite, append_assoc, readAt_left _ _ htake]
  have hsplit := readAt_left (file.take pos) (file.drop pos) htake
  rw [take_append_drop] at hsplit
  exact hsplit.symm

end

end WeaverDB.Foundations
