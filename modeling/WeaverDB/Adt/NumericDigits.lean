import WeaverDB.Adt.Numeric

/-! # What the digit loops compute

Each function on magnitudes is read in units of the last digit it computes: `cmp_abs` compares the
units and `sub_abs` subtracts them.
-/

namespace WeaverDB.Numeric
open Foundations List Int Nat

namespace NumericVar

def units (v : NumericVar) (E : ℤ) : ℕ := Foundations.units v.digits v.weight E

structure Exact (v : NumericVar) (E : ℤ) : Prop where
  decimal : IsDecimal v.digits
  ends : EndsAt v.digits v.weight E

theorem Exact.mono {v : NumericVar} {E F : ℤ} (h : v.Exact E) (hF : E ≤ F) : v.Exact F := ⟨h.decimal, h.ends.mono hF⟩

theorem Exact.units_add {v : NumericVar} {E : ℤ} (h : v.Exact E) (k : ℕ) :
    v.units (E+k) = v.units E * 10^k := h.ends.units_add k

end NumericVar

def order (a b : ℕ) : ℤ := if a < b then -1 else if b < a then 1 else 0

theorem order_mul {a b k : ℕ} (hk : 0 < k) : order (a*k) (b*k) = order a b := by
  simp only [order, Nat.mul_lt_mul_right hk]

theorem order_add (a b k : ℕ) : order (k+a) (k+b) = order a b := by
  simp only [order, add_lt_add_iff_left]

theorem order_of_lt {a b : ℕ} (h : a < b) : order a b = -1 := if_pos h

theorem order_of_gt {a b : ℕ} (h : b < a) : order a b = 1 := by
  rw [order, if_neg (by omega), if_pos h]

section
variable {l m : List ℕ} {w w' E : ℤ}

theorem cmpRests_nil_left (h : EndsAt m w E) : cmpRests [] m = order 0 (units m w E) := by
  have hm := any_ne_zero_iff h
  simp only [cmpRests, any_nil, Bool.false_eq_true, if_false, order, not_lt_zero, hm]

theorem cmpRests_nil_right (h : EndsAt l w E) : cmpRests l [] = order (units l w E) 0 := by
  have hl := any_ne_zero_iff h
  simp only [cmpRests, any_nil, Bool.false_eq_true, if_false, order, not_lt_zero, hl]

theorem cmpDigits_eq (hl : IsDecimal l) (hm : IsDecimal m) (hle : EndsAt l w E) (hme : EndsAt m w E) :
    cmpDigits l m = order (units l w E) (units m w E) := by
  induction l generalizing m w with
  | nil =>
    rw [cmpDigits.eq_def, units_nil]
    exact cmpRests_nil_left hme
  | cons d l ih =>
    cases m with
    | nil =>
      rw [cmpDigits.eq_def, units_nil]
      exact cmpRests_nil_right hle
    | cons e m =>
      have hrec := ih hl.tail hm.tail hle.tail hme.tail
      rw [cmpDigits]
      by_cases hn : 0 ≤ E+w
      · obtain ⟨n, hn⟩ := eq_ofNat_of_zero_le hn
        have hlt := units_lt hl.tail (show E + (w-1) + 1 ≤ n by omega)
        have hmt := units_lt hm.tail (show E + (w-1) + 1 ≤ n by omega)
        rw [units_cons hn, units_cons hn]
        obtain hde | rfl | hde := lt_trichotomy d e
        · have hmul := mul_le_mul_right (10^n) (show d + 1 ≤ e from hde)
          rw [succ_mul] at hmul
          rw [if_neg (by omega), if_neg (by omega), order_of_lt (by omega)]
        · rw [if_pos rfl, hrec, order_add]
        · have hmul := mul_le_mul_right (10^n) (show e + 1 ≤ d from hde)
          rw [succ_mul] at hmul
          rw [if_neg (by omega), if_pos hde, order_of_gt (by omega)]
      · -- no digit counts, so both first digits are zero
        have hd : d = 0 := by simpa [digitAt] using hle 0 (by omega)
        have he : e = 0 := by simpa [digitAt] using hme 0 (by omega)
        rw [hd, he, if_pos rfl, hrec, units_zero_cons, units_zero_cons]

theorem skipZeros_none (h : skipZeros l w w' = none) {n : ℕ} (hn : E + w' + 1 = n) : 10^n ≤ units l w E := by
  induction l generalizing w with
  | nil => cases h
  | cons d l ih =>
    rw [skipZeros] at h
    split at h
    · split at h
      · next hw hd =>
        obtain ⟨k, hk⟩ := eq_ofNat_of_zero_le (show 0 ≤ E + w by omega)
        rw [units_cons hk]
        calc 10^n ≤ 10^k := Nat.pow_le_pow_right (by decide) (by omega)
          _ ≤ d*10^k := Nat.le_mul_of_pos_left _ (pos_of_ne_zero hd)
          _ ≤ _ := le_add_right _ _
      · next hw hd =>
        rw [not_not.mp hd, units_zero_cons]
        exact ih h
    · cases h

theorem skipZeros_some {v : ℤ} (h : skipZeros l w w' = some (m, v)) (hl : IsDecimal l) (hle : EndsAt l w E) :
    units m v E = units l w E ∧ IsDecimal m ∧ EndsAt m v E ∧ (m = [] ∨ v ≤ w') ∧ min w w' ≤ v := by
  induction l generalizing w with
  | nil =>
    obtain ⟨rfl, rfl⟩ := by simpa [skipZeros] using h
    exact ⟨rfl, hl, hle, .inl rfl, by omega⟩
  | cons d l ih =>
    rw [skipZeros] at h
    split at h
    · split at h
      · cases h
      · next hw hd =>
        obtain ⟨hu, hm, hme, hv, hmin⟩ := ih h hl.tail hle.tail
        rw [not_not.mp hd, units_zero_cons]
        exact ⟨hu, hm, hme, hv, by omega⟩
    · next hw =>
      obtain ⟨rfl, rfl⟩ := by simpa using h
      exact ⟨rfl, hl, hle, .inr (by omega), by omega⟩

end

theorem cmpAbs_eq {var1 var2 : NumericVar} {E : ℤ} (h1 : var1.Exact E) (h2 : var2.Exact E) :
    cmpAbs var1 var2 = order (var1.units E) (var2.units E) := by
  -- in units so small that the weights do not matter
  obtain ⟨k, hw1, hw2⟩ : ∃ k : ℕ, 0 ≤ E + k + var1.weight + 1 ∧ 0 ≤ E + k + var2.weight + 1 :=
    ⟨E.natAbs + var1.weight.natAbs + var2.weight.natAbs, by omega, by omega⟩
  rw [← order_mul (pow_pos (n := k) (show 0 < 10 by decide)), ← h1.units_add, ← h2.units_add]
  have hF1 := h1.mono (show E ≤ E + k by omega)
  have hF2 := h2.mono (show E ≤ E + k by omega)
  generalize E + (k : ℤ) = F at *
  unfold cmpAbs
  split
  · next hskip =>
    obtain ⟨n, hn⟩ := eq_ofNat_of_zero_le hw2
    have hge := skipZeros_none hskip hn
    have hlt := units_lt hF2.decimal hn.le
    exact (order_of_gt (hlt.trans_le hge)).symm
  · next digits1 w1 hskip1 =>
    obtain ⟨hu1, hd1, he1, hv1, hmin1⟩ := skipZeros_some hskip1 hF1.decimal hF1.ends
    rw [NumericVar.units, ← hu1]
    split
    · next hskip2 =>
      obtain ⟨n, hn⟩ := eq_ofNat_of_zero_le (show 0 ≤ F + w1 + 1 by omega)
      have hge := skipZeros_none hskip2 hn
      have hlt := units_lt hd1 hn.le
      exact (order_of_lt (hlt.trans_le hge)).symm
    · next digits2 w2 hskip2 =>
      obtain ⟨hu2, hd2, he2, hv2, hmin2⟩ := skipZeros_some hskip2 hF2.decimal hF2.ends
      rw [NumericVar.units, ← hu2]
      by_cases hw : w1 = w2
      · subst hw
        rw [if_pos rfl, cmpDigits_eq hd1 hd2 he1 he2]
      · rw [if_neg hw]
        obtain hlt | hgt := Int.lt_or_lt_of_ne hw
        · have hnil : digits2 = [] := hv2.resolve_right (by omega)
          rw [hnil, units_nil, cmpRests_nil_right he1]
        · have hnil : digits1 = [] := hv1.resolve_right (by omega)
          rw [hnil, units_nil, cmpRests_nil_left he2]

section
variable {l m : List ℕ}

theorem subDigits_length (l m : List ℕ) (n : ℕ) (i1 i2 borrow : ℤ) : (subDigits l m n i1 i2 borrow).length = n := by
  induction n generalizing i1 i2 borrow with
  | zero => rfl
  | succ n ih =>
    rw [subDigits]
    split
    · rw [length_cons, ih]
    · rw [length_cons, ih]

theorem subDigits_decimal (hl : IsDecimal l) (hm : IsDecimal m) (n : ℕ) (i1 i2 borrow : ℤ)
    (hb : borrow = 0 ∨ borrow = -1) : IsDecimal (subDigits l m n i1 i2 borrow) := by
  induction n generalizing i1 i2 borrow with
  | zero => exact fun d hd => absurd hd not_mem_nil
  | succ n ih =>
    have h1 := hl.digitAt_lt (i1-1)
    have h2 := hm.digitAt_lt (i2-1)
    rw [subDigits]
    split
    · intro d hd
      obtain rfl | hd := mem_cons.mp hd
      · omega
      · exact ih _ _ _ (.inr rfl) d hd
    · intro d hd
      obtain rfl | hd := mem_cons.mp hd
      · omega
      · exact ih _ _ _ (.inl rfl) d hd

theorem subDigits_eq (hl : IsDecimal l) (hm : IsDecimal m) (n : ℕ) (i1 i2 borrow : ℤ) (hb : borrow = 0 ∨ borrow = -1)
    (hle : (digitWindow (digitAt m) i2 n : ℤ) ≤ digitWindow (digitAt l) i1 n + borrow) :
    ((Nat.ofDigits 10 (subDigits l m n i1 i2 borrow) : ℕ) : ℤ) =
      digitWindow (digitAt l) i1 n + borrow - digitWindow (digitAt m) i2 n := by
  induction n generalizing i1 i2 borrow with
  | zero =>
    simp only [digitWindow, Nat.cast_zero] at hle
    simp only [subDigits, digitWindow, Nat.ofDigits_nil, Nat.cast_zero]
    omega
  | succ n ih =>
    have h1 := hl.digitAt_lt (i1-1)
    have h2 := hm.digitAt_lt (i2-1)
    simp only [digitWindow, Nat.cast_add, Nat.cast_mul, Nat.cast_ofNat] at hle ⊢
    rw [subDigits]
    split
    · have hrec := ih (i1-1) (i2-1) (-1) (.inr rfl) (by omega)
      simp only [Nat.ofDigits_cons, Nat.cast_add, Nat.cast_mul, Nat.cast_ofNat]
      omega
    · have hrec := ih (i1-1) (i2-1) 0 (.inl rfl) (by omega)
      simp only [Nat.ofDigits_cons, Nat.cast_add, Nat.cast_mul, Nat.cast_ofNat]
      omega

end

section
variable {l : List ℕ} {w E : ℤ}

theorem stripZeros_units (l : List ℕ) (w E : ℤ) : units (stripZeros l w).1 (stripZeros l w).2 E = units l w E := by
  rw [stripZeros, units_congr (getD_rdrop_zeros _), units_drop_zeros]

theorem stripZeros_decimal (h : IsDecimal l) (w : ℤ) : IsDecimal (stripZeros l w).1 := fun d hd =>
  h d ((dropWhile_sublist _).mem (( rdropWhile_prefix _ _).sublist.mem hd))

theorem stripZeros_endsAt (h : EndsAt l w E) : EndsAt (stripZeros l w).1 (stripZeros l w).2 E := by
  intro i hi
  by_cases hneg : i < 0
  · exact digitAt_of_neg hneg
  · have hl := h (i + (l.takeWhile (· = 0)).length) (by simp only [stripZeros] at hi; omega)
    have hnat : (i + ((l.takeWhile (· = 0)).length : ℤ)).toNat = i.toNat + (l.takeWhile (· = 0)).length := by omega
    rw [digitAt, if_pos (by omega), hnat, ← takeWhile_append_dropWhile (p := (· = 0)) (l := l),
      getD_append_right _ _ _ _ (by simp)] at hl
    rw [digitAt, if_pos (by omega), stripZeros, getD_rdrop_zeros]
    simpa using hl

theorem stripZeros_head : ∀ d ∈ (stripZeros l w).1.head?, d ≠ 0 := by
  intro d hd
  have hpre : (stripZeros l w).1 <+: l.dropWhile (· = 0) := rdropWhile_prefix _ _
  have hmem : d ∈ (l.dropWhile (· = 0)).head? := by
    obtain ⟨t, ht⟩ := hpre
    rw [← ht]
    rw [Option.mem_def] at hd
    simp [hd]
  have hnot := List.head?_dropWhile_not (fun d : ℕ => decide (d = 0)) l
  rw [hmem] at hnot
  simpa using hnot

theorem stripZeros_first (hne : (stripZeros l w).1 ≠ []) : (stripZeros l w).1.getD 0 0 ≠ 0 := by
  obtain ⟨d, m, hm⟩ := exists_cons_of_ne_nil hne
  have hd := stripZeros_head (l := l) (w := w) d (hm ▸ rfl)
  rw [hm]
  exact hd

theorem stripZeros_last : ∀ d ∈ (stripZeros l w).1.getLast?, d ≠ 0 := by
  intro d hd
  obtain ⟨hne, rfl⟩ := List.mem_getLast?_eq_getLast hd
  have hlast := rdropWhile_last_not (fun d : ℕ => decide (d = 0)) _ hne
  rw [decide_eq_true_iff] at hlast
  exact hlast

theorem units_nil_weight (l : List ℕ) (w E : ℤ) : units l (if l = [] then 0 else w) E = units l w E := by
  split
  · next h => rw [h, units_nil, units_nil]
  · rfl

theorem endsAt_nil_weight (h : EndsAt l w E) : EndsAt l (if l = [] then 0 else w) E := by
  split
  · next hl =>
    subst hl
    exact fun i _ => by simp [digitAt]
  · exact h

end

section
variable {var1 var2 : NumericVar}

theorem atLeastOne_eq {n : ℤ} (h : 0 < n) : (atLeastOne n : ℤ) = n := by
  rw [atLeastOne, if_neg (by omega)]
  omega

theorem serial_result (var : NumericVar) {l : List ℕ} {w R : ℤ} (hdigits : var.digits = (stripZeros l.reverse w).1)
    (hweight : var.weight = if var.digits = [] then 0 else (stripZeros l.reverse w).2)
    (hl : IsDecimal l) (hlen : (l.length : ℤ) = R + w + 1) :
    var.units R = Nat.ofDigits 10 l ∧ var.Exact R := by
  have hends : EndsAt l.reverse w R := endsAt_of_length (by rw [length_reverse]; omega)
  refine ⟨?_, ?_, ?_⟩
  · rw [NumericVar.units, hweight, units_nil_weight, hdigits, stripZeros_units, units,
      show (R + w + 1).toNat = l.length by omega, lead_reverse]
  · rw [hdigits]
    exact stripZeros_decimal (isDecimal_reverse hl) _
  · rw [hweight]
    refine endsAt_nil_weight ?_
    rw [hdigits]
    exact stripZeros_endsAt hends

theorem subAbs_spec {R : ℤ} (hR : max var1.rscale var2.rscale = R) (h1 : IsDecimal var1.digits)
    (h2 : IsDecimal var2.digits) (hn : 0 < R + var1.weight + 1) (hle : var2.units R ≤ var1.units R) :
    (subAbs var1 var2).units R = var1.units R - var2.units R ∧ (subAbs var1 var2).Exact R := by
  subst hR
  set R := max var1.rscale var2.rscale
  set n := atLeastOne (R + var1.weight + 1) with hndef
  have hn : (n : ℤ) = R + var1.weight + 1 := atLeastOne_eq hn
  have hlt : var1.units R < 10^n := units_lt h1 hn.ge
  have hw1 : digitWindow (digitAt var1.digits) (R + var1.weight + 1) n = var1.units R := by
    rw [digitWindow_digitAt h1]
    exact mod_eq_of_lt hlt
  have hw2 : digitWindow (digitAt var2.digits) (R + var2.weight + 1) n = var2.units R := by
    rw [digitWindow_digitAt h2]
    exact mod_eq_of_lt (hle.trans_lt hlt)
  have hval := subDigits_eq h1 h2 n (R + var1.weight + 1) (R + var2.weight + 1) 0 (.inl rfl) (by omega)
  have hres := serial_result (subAbs var1 var2) rfl rfl
    (subDigits_decimal h1 h2 n (R + var1.weight + 1) (R + var2.weight + 1) 0 (.inl rfl))
    (by rw [subDigits_length, hn])
  have hunits : (subAbs var1 var2).units R = Nat.ofDigits 10 (subDigits var1.digits var2.digits n
      (R + var1.weight + 1) (R + var2.weight + 1) 0) := hres.1
  exact ⟨by omega, hres.2⟩

end

section
variable {l : List ℕ}

theorem carryUp_length (l : List ℕ) (carry : ℕ) : (carryUp l carry).length = l.length := by
  fun_induction carryUp l carry with
  | case1 => rfl
  | case2 => rfl
  | case3 d l carry ih => rw [length_cons, length_cons, ih]

theorem carryUp_decimal (h : IsDecimal l) (carry : ℕ) : IsDecimal (carryUp l carry) := by
  fun_induction carryUp l carry with
  | case1 => exact h
  | case2 => exact h
  | case3 d l carry ih =>
    intro e he
    obtain rfl | he := mem_cons.mp he
    · exact mod_lt _ (by decide)
    · exact ih h.tail e he

theorem carryUp_eq (h : IsDecimal l) (carry : ℕ) :
    Nat.ofDigits 10 (carryUp l carry) = (Nat.ofDigits 10 l + carry) % 10^l.length := by
  fun_induction carryUp l carry with
  | case1 => simp [mod_one]
  | case2 d l =>
    have hlt := ofDigits_lt_base_pow_length (by decide : 1 < 10) h
    rw [add_zero, mod_eq_of_lt hlt]
  | case3 d l carry ih =>
    have hsum : d + 10 * Nat.ofDigits 10 l + (carry+1) = carry + 1 + d + 10 * Nat.ofDigits 10 l := by
      omega
    rw [ofDigits_cons, ofDigits_cons, ih h.tail, length_cons, pow_succ, mul_comm (10^l.length) 10, hsum, mod_mul,
      add_mul_mod_self_left, add_mul_div_left _ _ (by decide),
      add_comm (Nat.ofDigits 10 l)]

theorem roundDigits_spec (h : IsDecimal l) (hzero : l.getD 0 0 = 0) {i : ℕ} (hi : i < l.length) :
    lead (roundDigits l i) i = (lead l (i+1) + 5) / 10 ∧ (roundDigits l i).length = i ∧
      IsDecimal (roundDigits l i) := by
  have htake : IsDecimal (l.take i) := fun d hd => h d (mem_of_mem_take hd)
  have hlen : (l.take i).length = i := length_take_of_le hi.le
  set carry := if l.getD i 0 > 4 then 1 else 0 with hcarry
  have hclen : (carryUp (l.take i).reverse carry).length = i := by
    rw [carryUp_length, length_reverse, hlen]
  have hone : carry ≤ 1 := by rw [hcarry]; split <;> omega
  have htop : lead l i + carry < 10^i ∨ i = 0 := by
    cases i with
    | zero => exact .inr rfl
    | succ j =>
      cases l with
      | nil => simp at hi
      | cons d m =>
        obtain rfl : d = 0 := hzero
        have hm := lead_lt h.tail j
        rw [lead]
        omega
  have hup : (lead l (i+1) + 5) / 10 = lead l i + carry := by
    have hd := h.getD i
    rw [lead_succ, hcarry]
    split <;> omega
  refine ⟨?_, ?_, ?_⟩
  · have hrev := lead_reverse (carryUp (l.take i).reverse carry)
    have hof := lead_reverse (l.take i).reverse
    rw [reverse_reverse, length_reverse, hlen, lead_take] at hof
    rw [hclen, carryUp_eq (isDecimal_reverse htake), ← hof, length_reverse, hlen] at hrev
    rw [hup]
    obtain htop | rfl := htop
    · exact hrev.trans (mod_eq_of_lt htop)
    · rw [hcarry, hzero]
      simp
  · rw [roundDigits, length_reverse, hclen]
  · exact isDecimal_reverse (carryUp_decimal (isDecimal_reverse htake) _)

end

end WeaverDB.Numeric
