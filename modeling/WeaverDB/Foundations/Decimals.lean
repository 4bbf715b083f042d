import Mathlib.Algebra.Order.Field.Power
import Mathlib.Data.List.DropRight
import Mathlib.Data.List.GetD
import Mathlib.Data.Nat.Digits.Defs
import Mathlib.Tactic.FieldSimp
import Mathlib.Tactic.Positivity

/-! # Decimal numerals

A numeral is a list of digits, the most significant first, and the weight of the first one. `units l w
E` is the numeral in units of `10 ^ -E`, with what is smaller cut off, so that one step of `E` is one
digit (`units_succ`). `magnitude` is the number itself.
-/

namespace WeaverDB.Foundations
open List Nat Int

def IsDecimal (l : List ℕ) : Prop := ∀ d ∈ l, d < 10

/-- The first `n` digits as a number; a short string goes on with zeros. -/
def lead : List ℕ → ℕ → ℕ
  | _, 0 => 0
  | [], _+1 => 0
  | d :: l, n+1 => d*10^n + lead l n

variable {l : List ℕ} {n d : ℕ}

theorem IsDecimal.getD (h : IsDecimal l) (n : ℕ) : l.getD n 0 < 10 := by
  by_cases hn : n < l.length
  · rw [getD_eq_getElem l 0 hn]
    exact h _ (getElem_mem hn)
  · rw [getD_eq_default l 0 (Nat.le_of_not_lt hn)]
    decide

@[simp] theorem lead_nil (n : ℕ) : lead [] n = 0 := by cases n <;> rfl

@[simp] theorem lead_zero (l : List ℕ) : lead l 0 = 0 := by cases l <;> rfl

theorem lead_succ (l : List ℕ) (n : ℕ) : lead l (n+1) = 10 * lead l n + l.getD n 0 := by
  induction l generalizing n with
  | nil => simp
  | cons d l ih =>
    cases n with
    | zero => simp [lead]
    | succ n =>
      rw [lead, ih, lead, getD_cons_succ]
      ring

theorem lead_lt (h : IsDecimal l) (n : ℕ) : lead l n < 10^n := by
  induction n with
  | zero => simp
  | succ n ih =>
    have hd := h.getD n
    rw [lead_succ]
    omega

theorem lead_congr {m : List ℕ} (h : ∀ i, l.getD i 0 = m.getD i 0) (n : ℕ) : lead l n = lead m n := by
  induction n with
  | zero => simp
  | succ n ih => rw [lead_succ, lead_succ, ih, h]

theorem lead_append (l m : List ℕ) (n : ℕ) : lead (l ++ m) (l.length+n) = lead l l.length * 10^n + lead m n := by
  induction l with
  | nil => simp
  | cons d l ih =>
    rw [cons_append, length_cons, succ_add, lead, ih, lead]
    ring

theorem lead_take (l : List ℕ) (n : ℕ) : lead (l.take n) n = lead l n := by
  induction l generalizing n with
  | nil => simp
  | cons d l ih =>
    cases n with
    | zero => simp
    | succ n => rw [take_succ_cons, lead, lead, ih]

theorem lead_reverse (l : List ℕ) : lead l.reverse l.length = Nat.ofDigits 10 l := by
  induction l with
  | nil => rfl
  | cons d l ih =>
    have h := lead_append l.reverse [d] 1
    rw [length_reverse, ih] at h
    rw [reverse_cons, length_cons, h, ofDigits_cons]
    simp [lead]
    ring

theorem lead_eq_zero : lead l n = 0 ↔ ∀ i < n, l.getD i 0 = 0 := by
  induction n with
  | zero => simp
  | succ n ih =>
    rw [lead_succ, forall_lt_succ_right, ← ih]
    omega

def digitAt (l : List ℕ) (i : ℤ) : ℕ := if 0 ≤ i then l.getD i.toNat 0 else 0

def units (l : List ℕ) (w E : ℤ) : ℕ := lead l (E + w + 1).toNat

/-- No digit counts less than `10 ^ -E`. -/
def EndsAt (l : List ℕ) (w E : ℤ) : Prop := ∀ i, w+E < i → digitAt l i = 0

variable {l m : List ℕ} {w E : ℤ}

theorem IsDecimal.digitAt_lt (h : IsDecimal l) (i : ℤ) : digitAt l i < 10 := by
  unfold digitAt
  split
  · exact h.getD _
  · decide

theorem digitAt_of_length_le {i : ℤ} (h : l.length ≤ i) : digitAt l i = 0 := by
  unfold digitAt
  split
  · exact getD_eq_default _ _ (by omega)
  · rfl

theorem digitAt_of_neg {i : ℤ} (h : i < 0) : digitAt l i = 0 := if_neg (by omega)

@[simp] theorem units_nil (w E : ℤ) : units [] w E = 0 := lead_nil _

theorem units_of_neg (h : E + w + 1 ≤ 0) : units l w E = 0 := by
  rw [units, toNat_eq_zero.mpr h, lead_zero]

theorem units_succ (l : List ℕ) (w E : ℤ) : units l w (E+1) = 10 * units l w E + digitAt l (w + E + 1) := by
  by_cases h : 0 ≤ w + E + 1
  · have hn : (E + 1 + w + 1).toNat = (E + w + 1).toNat + 1 := by omega
    have hi : (w + E + 1).toNat = (E + w + 1).toNat := by omega
    rw [units, hn, lead_succ, digitAt, if_pos h, hi, units]
  · rw [units_of_neg (by omega), units_of_neg (by omega), digitAt_of_neg (by omega)]

theorem units_lt (h : IsDecimal l) (hn : E + w + 1 ≤ n) : units l w E < 10^n :=
  (lead_lt h _).trans_le (Nat.pow_le_pow_right (by decide) (by omega))

theorem units_congr (h : ∀ i, l.getD i 0 = m.getD i 0) : units l w E = units m w E := lead_congr h _

theorem units_zero_cons (l : List ℕ) (w E : ℤ) : units (0 :: l) w E = units l (w-1) E := by
  by_cases h : 0 < E + w + 1
  · have hn : (E + w + 1).toNat = (E + (w-1) + 1).toNat + 1 := by omega
    rw [units, hn, lead, Nat.zero_mul, zero_add, units]
  · rw [units_of_neg (by omega), units_of_neg (by omega)]

theorem units_sub (h : IsDecimal l) (w E : ℤ) (k : ℕ) : units l w (E-k) = units l w E / 10^k := by
  induction k with
  | zero => simp
  | succ k ih =>
    have hd := h.digitAt_lt (w + (E - (k+1 : ℕ)) + 1)
    have hs := units_succ l w (E - (k+1 : ℕ))
    rw [show E - (k+1 : ℕ) + 1 = E - k by omega] at hs
    rw [pow_succ, ← Nat.div_div_eq_div_mul]
    omega

theorem EndsAt.mono (h : EndsAt l w E) {F : ℤ} (hF : E ≤ F) : EndsAt l w F := fun i hi => h i (by omega)

theorem endsAt_of_length (h : l.length ≤ w + E + 1) : EndsAt l w E := fun _ hi => digitAt_of_length_le (by omega)

/-- Behind the last digit every step of the unit is a factor of ten. -/
theorem EndsAt.units_add (h : EndsAt l w E) (k : ℕ) : units l w (E+k) = units l w E * 10^k := by
  induction k with
  | zero => simp
  | succ k ih =>
    rw [show E + (k+1 : ℕ) = E + k + 1 by omega, units_succ, ih, h _ (by omega)]
    ring

theorem digitAt_eq_mod (h : IsDecimal l) (w E : ℤ) : digitAt l (w+E) = units l w E % 10 := by
  have hd := h.digitAt_lt (w+E)
  have hs := units_succ l w (E-1)
  rw [sub_add_cancel, show w + (E-1) + 1 = w + E by omega] at hs
  omega

theorem EndsAt.tail (h : EndsAt (d :: l) w E) : EndsAt l (w-1) E := by
  intro i hi
  by_cases hneg : i < 0
  · exact digitAt_of_neg hneg
  · have hz := h (i+1) (by omega)
    have hsucc : (i+1).toNat = i.toNat+1 := by omega
    rw [digitAt, if_pos (by omega), hsucc, getD_cons_succ] at hz
    rw [digitAt, if_pos (by omega), hz]

theorem isDecimal_reverse (h : IsDecimal l) : IsDecimal l.reverse := fun d hd => h d (mem_reverse.mp hd)

theorem IsDecimal.tail (h : IsDecimal (d :: l)) : IsDecimal l := fun e he => h e (mem_cons_of_mem d he)

theorem units_cons (hn : E + w = n) : units (d :: l) w E = d*10^n + units l (w-1) E := by
  rw [units, show (E + w + 1).toNat = n+1 by omega, lead, units,
    show (E + (w-1) + 1).toNat = n by omega]

theorem any_ne_zero_iff (h : EndsAt l w E) : l.any (· ≠ 0) ↔ 0 < units l w E := by
  rw [pos_iff_ne_zero, units, Ne, lead_eq_zero, any_eq_true]
  constructor
  · rintro ⟨d, hd, hne⟩ hall
    obtain ⟨i, hi, rfl⟩ := getElem_of_mem hd
    have hget : l.getD i 0 = l[i] := getD_eq_getElem l 0 hi
    have hin : i < (E + w + 1).toNat := by
      by_contra hout
      have hz := h i (by omega)
      rw [digitAt, if_pos (by omega), toNat_natCast, hget] at hz
      simp [hz] at hne
    have hz := hall i hin
    rw [hget] at hz
    simp [hz] at hne
  · intro hex
    by_contra hno
    refine hex fun i _ => ?_
    by_cases hi : i < l.length
    · rw [getD_eq_getElem l 0 hi]
      by_contra hne
      exact hno ⟨l[i], getElem_mem hi, by simpa using hne⟩
    · exact getD_eq_default _ _ (by omega)

def digitWindow (f : ℤ → ℕ) (i : ℤ) : ℕ → ℕ
  | 0 => 0
  | n + 1 => f (i-1) + 10 * digitWindow f (i-1) n

theorem digitWindow_digitAt (h : IsDecimal l) (w E : ℤ) (n : ℕ) :
    digitWindow (digitAt l) (E + w + 1) n = units l w E % 10^n := by
  induction n generalizing E with
  | zero => simp [digitWindow, mod_one]
  | succ n ih =>
    have hd := h.digitAt_lt (w+E)
    have hs := units_succ l w (E-1)
    rw [sub_add_cancel, show w + (E-1) + 1 = w + E by omega] at hs
    have hw := ih (E-1)
    rw [show E - 1 + w + 1 = E + w + 1 - 1 by omega] at hw
    have hmod : units l w E % 10 = digitAt l (w+E) := by omega
    have hdiv : units l w E / 10 = units l w (E-1) := by omega
    rw [digitWindow, hw, show E + w + 1 - 1 = w + E by omega, pow_succ, mul_comm (10^n) 10, mod_mul, hmod, hdiv]

theorem units_drop_zeros (l : List ℕ) (w E : ℤ) :
    units (l.dropWhile (· = 0)) (w - (l.takeWhile (· = 0)).length) E = units l w E := by
  induction l generalizing w with
  | nil => simp
  | cons d l ih =>
    by_cases hd : d = 0
    · subst hd
      have hw : w - ((l.takeWhile (· = 0)).length + 1 : ℕ) = w-1 - (l.takeWhile (· = 0)).length := by
        omega
      rw [dropWhile_cons_of_pos (by simp), takeWhile_cons_of_pos (by simp), length_cons, hw, ih, units_zero_cons]
    · rw [dropWhile_cons_of_neg (by simpa using hd), takeWhile_cons_of_neg (by simpa using hd)]
      simp

theorem getD_rdrop_zeros (l : List ℕ) (i : ℕ) : (l.rdropWhile (· = 0)).getD i 0 = l.getD i 0 := by
  induction l using List.reverseRecOn with
  | nil => rfl
  | append_singleton l d ih =>
    by_cases hd : d = 0
    · subst hd
      rw [rdropWhile_concat_pos _ _ _ (by simp), ih]
      by_cases hi : i < l.length
      · rw [getD_append _ _ _ _ hi]
      · rw [getD_append_right _ _ _ _ (by omega), getD_eq_default _ _ (by omega)]
        cases i - l.length <;> rfl
    · rw [rdropWhile_concat_neg _ _ _ (by simpa using hd)]

def magnitude (l : List ℕ) (w : ℤ) : ℚ := lead l l.length * 10^(w+1 - l.length)

theorem EndsAt.magnitude_eq (h : EndsAt l w E) : magnitude l w = units l w E / 10^E := by
  obtain ⟨F, hF, hE⟩ : ∃ F : ℤ, l.length ≤ F + w + 1 ∧ E ≤ F := ⟨max E (l.length - w - 1), by omega, by omega⟩
  obtain ⟨k, hk⟩ := eq_ofNat_of_zero_le (show 0 ≤ F - E by omega)
  obtain ⟨j, hj⟩ := eq_ofNat_of_zero_le (show 0 ≤ F + w + 1 - l.length by omega)
  have hlead : units l w F = lead l l.length * 10^j := by
    have ha := lead_append l [] j
    rw [append_nil, lead_nil, add_zero] at ha
    rw [units, show (F + w + 1).toNat = l.length + j by omega, ha]
  have hunits : units l w F = units l w E * 10^k := by
    rw [← h.units_add, show E + (k : ℤ) = F by omega]
  have hten : (10 : ℚ) ≠ 0 := by norm_num
  have hcast : (lead l l.length : ℚ) * 10^j = units l w E * 10^k := by
    exact_mod_cast hlead.symm.trans hunits
  have hw : w + 1 - (l.length : ℤ) = j - k - E := by omega
  have hcancel : (lead l l.length : ℚ) = units l w E * 10^(k : ℤ) / 10^(j : ℤ) := by
    rw [zpow_natCast, zpow_natCast, ← hcast]
    field_simp
  rw [magnitude, hw, hcancel, zpow_sub₀ hten, zpow_sub₀ hten]
  field_simp

theorem magnitude_weight (l : List ℕ) (w : ℤ) : magnitude l w = magnitude l 0 * 10^w := by
  rw [magnitude, magnitude, mul_assoc, ← zpow_add₀ (by norm_num)]
  congr 2
  omega

theorem magnitude_congr (h : ∀ i, l.getD i 0 = m.getD i 0) (w : ℤ) : magnitude l w = magnitude m w := by
  have hl : EndsAt l w (l.length + m.length - w) := endsAt_of_length (by omega)
  have hm : EndsAt m w (l.length + m.length - w) := endsAt_of_length (by omega)
  rw [hl.magnitude_eq, hm.magnitude_eq, units_congr h]

theorem magnitude_zero_cons (l : List ℕ) (w : ℤ) : magnitude (0 :: l) w = magnitude l (w-1) := by
  rw [magnitude, length_cons, lead, Nat.zero_mul, zero_add]
  congr 2
  omega

theorem magnitude_nonneg (l : List ℕ) (w : ℤ) : 0 ≤ magnitude l w := by
  unfold magnitude
  positivity

theorem magnitude_lt (h : IsDecimal l) (w : ℤ) : magnitude l w < 10^(w+1) := by
  have hlt : (lead l l.length : ℚ) < 10^l.length := by exact_mod_cast lead_lt h l.length
  calc magnitude l w < 10^l.length * 10^(w+1 - l.length) := by
        unfold magnitude
        gcongr
    _ = 10^(w+1) := by
        rw [← zpow_natCast, ← zpow_add₀ (by norm_num)]
        congr 1
        omega

theorem le_magnitude (h : l.getD 0 0 ≠ 0) (w : ℤ) : 10^w ≤ magnitude l w := by
  cases l with
  | nil => exact absurd rfl h
  | cons d l =>
    have hd : 1 ≤ d := pos_of_ne_zero h
    have hle : 10^l.length ≤ lead (d :: l) (d :: l).length := by
      exact (Nat.le_mul_of_pos_left _ hd).trans (le_add_right _ _)
    have hcast : (10 : ℚ)^l.length ≤ lead (d :: l) (d :: l).length := by exact_mod_cast hle
    calc (10 : ℚ)^w = 10^l.length * 10^(w+1 - (d :: l).length) := by
          rw [← zpow_natCast, ← zpow_add₀ (by norm_num), length_cons]
          congr 1
          omega
      _ ≤ magnitude (d :: l) w := by
          unfold magnitude
          gcongr

end WeaverDB.Foundations
