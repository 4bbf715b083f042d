import Mathlib.Data.List.Nodup
import Mathlib.Algebra.Order.BigOperators.Group.List
import Mathlib.Algebra.Order.Ring.Nat

/-! # Tables of keyed records

A list of records with different keys. `put` enters or replaces, `without` deletes; a total over the
records is that of one record and of the others.
-/

namespace WeaverDB.Foundations
open List

variable {K V : Type} [DecidableEq K] (key : V → K)

def without (k : K) (l : List V) : List V := l.filter fun v => decide (key v ≠ k)

def put (v : V) (l : List V) : List V := v :: without key (key v) l

def lookup (k : K) (l : List V) : Option V := l.find? fun v => decide (key v = k)

def total (f : V → Nat) (l : List V) : Nat := (l.map f).sum

def Keyed (l : List V) : Prop := (l.map key).Nodup

variable {key} {k : K} {v : V} {l : List V}

theorem mem_without : v ∈ without key k l ↔ v ∈ l ∧ key v ≠ k := by
  simp only [without, mem_filter, decide_eq_true_eq]

theorem mem_put {w : V} : w ∈ put key v l ↔ w = v ∨ (w ∈ l ∧ key w ≠ key v) := by
  rw [put, mem_cons, mem_without]

theorem lookup_mem (h : lookup key k l = some v) : v ∈ l := List.mem_of_find?_eq_some h

theorem lookup_key (h : lookup key k l = some v) : key v = k := by
  have hfound := List.find?_some h
  exact of_decide_eq_true hfound

theorem lookup_none (h : lookup key k l = none) {w : V} (hw : w ∈ l) : key w ≠ k :=
  fun heq => List.find?_eq_none.mp h w hw (decide_eq_true heq)

theorem without_eq_self (h : ∀ w ∈ l, key w ≠ k) : without key k l = l :=
  filter_eq_self.mpr fun w hw => decide_eq_true (h w hw)

theorem Keyed.without (h : Keyed key l) : Keyed key (without key k l) := h.sublist (filter_sublist.map key)

theorem Keyed.put (h : Keyed key l) : Keyed key (put key v l) := by
  refine nodup_cons.mpr ⟨fun hmem => ?_, h.without⟩
  obtain ⟨w, hw, heq⟩ := mem_map.mp hmem
  exact (mem_without.mp hw).2 heq

omit [DecidableEq K] in
theorem Keyed.eq_of_key (h : Keyed key l) {w : V} (hv : v ∈ l) (hw : w ∈ l) (hkey : key v = key w) : v = w :=
  inj_on_of_nodup_map h hv hw hkey

theorem Keyed.lookup_eq (h : Keyed key l) (hv : v ∈ l) : lookup key (key v) l = some v := by
  cases hw : lookup key (key v) l with
  | none => exact absurd rfl (lookup_none hw hv)
  | some w => rw [h.eq_of_key (lookup_mem hw) hv (lookup_key hw)]

variable (f : V → Nat)

theorem total_cons : total f (v :: l) = f v + total f l := sum_cons

theorem total_le {f g : V → Nat} (h : ∀ w ∈ l, f w ≤ g w) : total f l ≤ total g l := by
  induction l with
  | nil => exact le_rfl
  | cons w l ih =>
    exact add_le_add (h w (.head _)) (ih fun u hu => h u (.tail _ hu))

theorem le_total (hv : v ∈ l) : f v ≤ total f l := le_sum_of_mem (mem_map_of_mem hv)

theorem exists_of_total_ne_zero {f : V → Nat} (h : total f l ≠ 0) : ∃ v ∈ l, f v ≠ 0 := by
  induction l with
  | nil => exact absurd rfl h
  | cons w l ih =>
    obtain hzero | hne := Decidable.em (f w = 0)
    · rw [total_cons, hzero, zero_add] at h
      obtain ⟨v, hv, hf⟩ := ih h
      exact ⟨v, .tail _ hv, hf⟩
    · exact ⟨w, .head _, hne⟩

theorem total_filter_le (p : V → Bool) : total f (l.filter p) ≤ total f l := by
  induction l with
  | nil => exact le_rfl
  | cons w l ih =>
    rw [filter_cons]
    split
    · rw [total_cons, total_cons]
      omega
    · rw [total_cons]
      omega

theorem total_filter_lt {p : V → Bool} (hv : v ∈ l) (hp : p v = false)
    (hf : f v ≠ 0) : total f (l.filter p) < total f l := by
  induction l with
  | nil => exact absurd hv not_mem_nil
  | cons w l ih =>
    obtain rfl | hv := mem_cons.mp hv
    · rw [filter_cons, hp, total_cons]
      have hle := total_filter_le (l := l) f p
      simp only [Bool.false_eq_true, if_false]
      omega
    · have hlt := ih hv
      rw [filter_cons]
      split
      · rw [total_cons, total_cons]
        omega
      · rw [total_cons]
        omega

theorem exists_of_total_filter_lt {p : V → Bool}
    (h : total f (l.filter p) ≠ total f l) : ∃ v ∈ l, p v = false ∧ f v ≠ 0 := by
  induction l with
  | nil => exact absurd rfl h
  | cons w l ih =>
    rw [filter_cons] at h
    cases hp : p w with
    | false =>
      obtain hzero | hne := Decidable.em (f w = 0)
      · simp only [hp, Bool.false_eq_true, if_false, total_cons, hzero, zero_add] at h
        obtain ⟨v, hv, hvp⟩ := ih h
        exact ⟨v, .tail _ hv, hvp⟩
      · exact ⟨w, .head _, hp, hne⟩
    | true =>
      simp only [hp, if_true, total_cons, ne_eq, add_left_cancel_iff] at h
      obtain ⟨v, hv, hvp⟩ := ih h
      exact ⟨v, .tail _ hv, hvp⟩

theorem total_perm {l' : List V} (h : l.Perm l') : total f l = total f l' := (h.map f).sum_eq

theorem Keyed.perm (h : Keyed key l) (hv : v ∈ l) : l.Perm (v :: Foundations.without key (key v) l) := by
  induction l with
  | nil => exact absurd hv not_mem_nil
  | cons w l ih =>
    obtain ⟨hnot, htail⟩ := nodup_cons.mp h
    obtain rfl | hv := mem_cons.mp hv
    · have hself : Foundations.without key (key v) (v :: l) = l := by
        rw [Foundations.without, filter_cons, if_neg (by simp)]
        exact without_eq_self fun u hu heq => hnot (heq ▸ mem_map_of_mem hu)
      rw [hself]
    · have hne : key w ≠ key v := fun heq => hnot (heq ▸ mem_map_of_mem hv)
      have hself : Foundations.without key (key v) (w :: l) = w :: Foundations.without key (key v) l := by
        rw [Foundations.without, filter_cons, if_pos (decide_eq_true hne)]
        rfl
      rw [hself]
      exact ((ih htail hv).cons w).trans (.swap v w _)

theorem Keyed.total_eq (h : Keyed key l) (hv : v ∈ l) (f : V → Nat) :
    total f l = f v + total f (Foundations.without key (key v) l) :=
  (total_perm f (h.perm hv)).trans (total_cons f)

end WeaverDB.Foundations
