import WeaverDB.Adt.NumericDigits

/-! # The division loop

A turn of the loop of `div_var` has a remainder and the shifted divisor. In units of `10 ^ -E`, with `E`
so large that no turn loses a digit, they are natural numbers (`Turn`). The first guess is not below the
true digit (`firstGuess_ge`), so counting down from it finds the digit.
-/

namespace WeaverDB.Numeric
open Foundations List Nat Int

/-! ## Multiples of the divisor -/

variable {guess : ℕ}

section
variable {l : List ℕ}

section

variable (guess : ℕ) (l : List ℕ) (sum : ℕ)

theorem timesDigit_length : (timesDigit guess l sum).length = l.length := by
  induction l generalizing sum with
  | nil => rfl
  | cons d l ih => rw [timesDigit, length_cons, length_cons, ih]

theorem timesDigit_decimal : IsDecimal (timesDigit guess l sum) := by
  induction l generalizing sum with
  | nil => exact fun d hd => absurd hd not_mem_nil
  | cons d l ih =>
    intro e he
    obtain rfl | he := mem_cons.mp he
    · exact mod_lt _ (by decide)
    · exact ih _ e he

theorem timesDigit_eq : Nat.ofDigits 10 (timesDigit guess l sum) = (Nat.ofDigits 10 l * guess + sum) % 10^l.length := by
  induction l generalizing sum with
  | nil => simp [timesDigit, mod_one]
  | cons d l ih =>
    have hsum : (d+10 * Nat.ofDigits 10 l) * guess + sum = sum + d * guess + 10 * (Nat.ofDigits 10 l * guess) := by ring
    rw [timesDigit, ofDigits_cons, ih, ofDigits_cons, length_cons, pow_succ, mul_comm (10^l.length) 10, hsum, mod_mul,
      add_mul_mod_self_left, add_mul_div_left _ _ (by decide),
      add_comm (Nat.ofDigits 10 l * guess)]

end

variable {b : List ℕ} {s : DivState}

theorem divisor_length (b : List ℕ) (guess : ℕ) (s : DivState) : (divisor b guess s).digits.length = b.length+1 := by
  unfold divisor
  split
  · rfl
  · rw [length_reverse, timesDigit_length, length_reverse, length_cons]

theorem divisor_decimal (hb : IsDecimal b) (guess : ℕ) (s : DivState) : IsDecimal (divisor b guess s).digits := by
  have hfirst : IsDecimal (0 :: b) := forall_mem_cons.mpr ⟨by decide, hb⟩
  unfold divisor
  split
  · exact hfirst
  · exact isDecimal_reverse (timesDigit_decimal _ _ _)

theorem divisor_lead (hb : IsDecimal b) (hg : guess ≤ 9) (s : DivState) :
    lead (divisor b guess s).digits (b.length+1) = guess * lead b b.length := by
  have hzero : lead (0 :: b) (b.length+1) = lead b b.length := by
    rw [lead, Nat.zero_mul, zero_add]
  unfold divisor
  dsimp only
  split
  · next h => rw [hzero, h, one_mul]
  · have hrev := lead_reverse (timesDigit guess (0 :: b).reverse 0)
    have hof := lead_reverse (0 :: b).reverse
    rw [reverse_reverse, length_reverse, length_cons, hzero] at hof
    rw [timesDigit_length, timesDigit_eq, ← hof, length_reverse, length_cons,
      add_zero (lead b b.length * guess)] at hrev
    have hlt := lead_lt hb b.length
    have hfits : lead b b.length * guess < 10^(b.length+1) := by
      rw [pow_succ]
      exact (mul_le_mul_left _ hg).trans_lt (by omega)
    rw [hrev, mod_eq_of_lt hfits, mul_comm]

end

structure IsDivisor (b : List ℕ) : Prop where
  decimal : IsDecimal b
  head : b.getD 0 0 ≠ 0

theorem IsDivisor.le_lead {b : List ℕ} (hb : IsDivisor b) : 0 < b.length ∧ 10^(b.length-1) ≤ lead b b.length := by
  cases b with
  | nil => exact absurd rfl hb.head
  | cons d b =>
    have hd : 1 ≤ d := Nat.pos_of_ne_zero hb.head
    refine ⟨succ_pos _, ?_⟩
    exact (Nat.le_mul_of_pos_left _ hd).trans (Nat.le_add_right _ _)

theorem IsDivisor.lead_pos {b : List ℕ} (hb : IsDivisor b) : 0 < lead b b.length :=
  (Nat.pow_pos (by decide)).trans_le hb.le_lead.2

/-! ## A turn -/

/-- The divisor in units of `10 ^ -E`, when the place for the carry has weight `w`. -/
def placed (b : List ℕ) (E w : ℤ) : ℕ := lead b b.length * 10^(E + w - b.length).toNat

theorem placed_pred {b : List ℕ} {E w : ℤ} (h : b.length < E+w) : placed b E w = 10 * placed b E (w-1) := by
  have hn : (E + w - b.length).toNat = (E + (w-1) - b.length).toNat + 1 := by omega
  rw [placed, placed, hn]
  ring

/-- What every turn finds. -/
structure Turn (b : List ℕ) (E : ℤ) (s : DivState) : Prop where
  exact : s.dividend.Exact s.dividend.rscale
  scale : s.dividend.rscale ≤ E
  scaleTmp : s.rscaleTmp = b.length + 1 - s.weightTmp
  small : s.dividend.units E < 10 * placed b E s.weightTmp
  first : s.firstHave = s.dividend.units (-s.weightTmp)
  next : s.firstNextdigit = s.dividend.weight + 1 - s.weightTmp

section
variable {b : List ℕ} {E : ℤ} {s : DivState}

theorem Turn.advance_first (h : Turn b E s) : s.advance.firstHave = s.dividend.units (1-s.weightTmp) := by
  have hsucc := units_succ s.dividend.digits s.dividend.weight (-s.weightTmp)
  rw [show -s.weightTmp + 1 = 1 - s.weightTmp by omega,
    show s.dividend.weight + -s.weightTmp + 1 = s.firstNextdigit by rw [h.next]; omega] at hsucc
  rw [DivState.advance, NumericVar.units, hsucc, h.first, NumericVar.units, mul_comm]

theorem divisor_units (hb : IsDecimal b) (hg : guess ≤ 9) (hroom : b.length ≤ E+s.weightTmp) :
    (divisor b guess s).units E = guess * placed b E s.weightTmp := by
  have hlen := divisor_length b guess s
  have happ := lead_append (divisor b guess s).digits [] (E + s.weightTmp - b.length).toNat
  rw [append_nil, lead_nil, add_zero, hlen, divisor_lead hb hg] at happ
  have hn : (E + s.weightTmp + 1).toNat = b.length + 1 + (E + s.weightTmp - b.length).toNat := by omega
  have hw : (divisor b guess s).weight = s.weightTmp := rfl
  rw [NumericVar.units, units, hw, hn, happ, placed, mul_assoc]

theorem divisor_exact (hb : IsDecimal b) (guess : ℕ) {F : ℤ} (hroom : b.length ≤ F+s.weightTmp) :
    (divisor b guess s).Exact F :=
  ⟨divisor_decimal hb guess s, endsAt_of_length (by
    rw [divisor_length]
    show ((b.length+1 : ℕ) : ℤ) ≤ s.weightTmp + F + 1
    omega)⟩

theorem cmpAbs_divisor (h : s.dividend.Exact E) (hb : IsDecimal b) (hroom : b.length ≤ E+s.weightTmp) (hg : guess ≤ 9) :
    cmpAbs s.dividend (divisor b guess s) = order (s.dividend.units E) (guess * placed b E s.weightTmp) := by
  rw [cmpAbs_eq h (divisor_exact hb guess hroom), divisor_units hb hg hroom]

def turnDigit (b : List ℕ) (E : ℤ) (s : DivState) : ℕ := s.dividend.units E / placed b E s.weightTmp

theorem placed_pos (hb : IsDivisor b) (E w : ℤ) : 0 < placed b E w := Nat.mul_pos hb.lead_pos (Nat.pow_pos (by decide))

theorem turnDigit_le (h : Turn b E s) (hb : IsDivisor b) : turnDigit b E s ≤ 9 := by
  have hlt := (div_lt_iff_lt_mul (placed_pos hb E s.weightTmp)).mpr h.small
  unfold turnDigit
  omega

theorem firstDiv_le {n : ℕ} (hn : b.length = n+1) : firstDiv b * 10^n ≤ 10 * lead b b.length := by
  cases b with
  | nil => cases hn
  | cons d b =>
    cases b with
    | nil =>
      obtain rfl : n = 0 := by simpa using hn.symm
      simp [firstDiv, lead]
      omega
    | cons e b =>
      obtain ⟨k, rfl⟩ : ∃ k, n = k+1 := ⟨b.length, by simpa using hn.symm⟩
      rw [hn, lead, lead, firstDiv, pow_succ]
      simp only [getD_cons_zero, getD_cons_succ]
      nlinarith [zero_le (lead b k)]

theorem ten_le_firstDiv (hhead : b.getD 0 0 ≠ 0) : 10 ≤ firstDiv b := by
  unfold firstDiv
  omega

theorem firstGuess_ge (h : Turn b E s) (hb : IsDivisor b) (hroom : b.length ≤ E+s.weightTmp) :
    turnDigit b E s ≤ firstGuess b s.advance := by
  set q := turnDigit b E s
  have hlen := hb.le_lead.1
  obtain ⟨n, hn⟩ : ∃ n, b.length = n+1 := ⟨b.length-1, by omega⟩
  obtain ⟨k, hk⟩ := eq_ofNat_of_zero_le (show 0 ≤ E + s.weightTmp - b.length by omega)
  -- `first_have` is the remainder without its last places
  have hhave : s.advance.firstHave = s.dividend.units E / 10^(n+k) := by
    rw [h.advance_first, NumericVar.units, NumericVar.units, ← units_sub h.exact.decimal,
      show 1 - s.weightTmp = E - ((n+k : ℕ) : ℤ) by omega]
  have hdiv : firstDiv b * 10^(n+k) ≤ 10 * placed b E s.weightTmp := by
    have hle := Nat.mul_le_mul_right (10^k) (firstDiv_le hn)
    rw [placed, hk, toNat_natCast, pow_add]
    linarith
  have hq : q * placed b E s.weightTmp ≤ s.dividend.units E := div_mul_le_self _ _
  have hlt : s.dividend.units E < (s.advance.firstHave+1) * 10^(n+k) := by
    rw [hhave]
    exact lt_mul_of_div_lt (lt_succ_self _) (Nat.pow_pos (by decide))
  have hprod : q * firstDiv b < 10 * (s.advance.firstHave+1) := by
    refine Nat.lt_of_mul_lt_mul_right (a := 10^(n+k)) ?_
    calc q * firstDiv b * 10^(n+k) = q * (firstDiv b * 10^(n+k)) := Nat.mul_assoc _ _ _
      _ ≤ q * (10 * placed b E s.weightTmp) := Nat.mul_le_mul_left q hdiv
      _ = 10 * (q * placed b E s.weightTmp) := by ring
      _ ≤ 10 * s.dividend.units E := Nat.mul_le_mul_left 10 hq
      _ < 10 * ((s.advance.firstHave+1) * 10^(n+k)) := by omega
      _ = 10 * (s.advance.firstHave+1) * 10^(n+k) := by ring
  have hten := ten_le_firstDiv hb.head
  have hnine : q ≤ 9 := turnDigit_le h hb
  have hguess : q ≤ s.advance.firstHave * 10 / firstDiv b + 1 := by
    have hmod := div_add_mod (s.advance.firstHave*10) (firstDiv b)
    have hr := mod_lt (s.advance.firstHave*10) (show 0 < firstDiv b by omega)
    nlinarith
  exact Nat.le_min.mpr ⟨hguess, hnine⟩

theorem tryGuess_eq (h : s.dividend.Exact E) (hb : IsDivisor b)
    (hroom : b.length ≤ E+s.weightTmp) (hq : turnDigit b E s ≤ guess) (hg : guess ≤ 9) :
    tryGuess b s guess = (turnDigit b E s, if turnDigit b E s = 0 then -1 else
      order (s.dividend.units E) (turnDigit b E s * placed b E s.weightTmp)) := by
  induction guess with
  | zero =>
    have hzero : turnDigit b E s = 0 := le_zero.mp hq
    rw [tryGuess, hzero, if_pos rfl]
  | succ guess ih =>
    have hcmp := cmpAbs_divisor h hb.decimal hroom hg
    have hfits : guess + 1 ≤ turnDigit b E s ↔ (guess+1) * placed b E s.weightTmp ≤ s.dividend.units E :=
      le_div_iff_mul_le (placed_pos hb E s.weightTmp)
    rw [tryGuess, hcmp]
    obtain hlt | heq := lt_or_eq_of_le hq
    · have hno : s.dividend.units E < (guess+1) * placed b E s.weightTmp := by
        omega
      rw [order_of_lt hno, if_neg (by decide), ih (by omega) (by omega)]
    · have hge : order (s.dividend.units E) ((guess+1) * placed b E s.weightTmp) ≥ 0 := by
        rw [order, if_neg (by omega)]
        split <;> decide
      rw [if_pos hge, heq, if_neg (Nat.succ_ne_zero guess)]

theorem subAbs_divisor (h : Turn b E s) (hb : IsDivisor b) (hroom : b.length < E+s.weightTmp)
    {q : ℕ} (hq : q ≤ 9) (hpos : 0 < s.dividend.units E)
    (hfits : q * placed b E s.weightTmp ≤ s.dividend.units E) :
    (subAbs s.dividend (divisor b q s)).Exact (max s.dividend.rscale s.rscaleTmp) ∧
    (subAbs s.dividend (divisor b q s)).units E + q * placed b E s.weightTmp = s.dividend.units E := by
  set R := max s.dividend.rscale s.rscaleTmp
  have hscaleTmp := h.scaleTmp
  have hscale := h.scale
  obtain ⟨k, hk⟩ := eq_ofNat_of_zero_le (show 0 ≤ E - R by omega)
  have hE : E = R+k := by omega
  have hdivd : s.dividend.Exact R := h.exact.mono (le_max_left _ _)
  have hdivs : (divisor b q s).Exact R := divisor_exact hb.decimal q (by omega)
  have hdu : s.dividend.units E = s.dividend.units R * 10^k := by rw [hE, hdivd.units_add]
  have hvu : q * placed b E s.weightTmp = (divisor b q s).units R * 10^k := by
    rw [← divisor_units hb.decimal hq (by omega), hE, hdivs.units_add]
  have hten : 0 < 10^k := Nat.pow_pos (by decide)
  have hweight : 0 < R + s.dividend.weight + 1 := by
    by_contra hneg
    have hz : s.dividend.units R = 0 := units_of_neg (by omega)
    rw [hdu, hz, Nat.zero_mul] at hpos
    exact Nat.lt_irrefl 0 hpos
  have hle : (divisor b q s).units R ≤ s.dividend.units R := by
    rw [hdu, hvu] at hfits
    exact Nat.le_of_mul_le_mul_right hfits hten
  obtain ⟨hsub, hex⟩ := subAbs_spec (R := R) rfl hdivd.decimal hdivs.decimal hweight hle
  refine ⟨hex, ?_⟩
  rw [hdu, hvu, hE, hex.units_add, hsub, ← Nat.add_mul, Nat.sub_add_cancel hle]

theorem digitAt_remainder {v : NumericVar} {F : ℤ} (hv : v.Exact F) (hb : IsDecimal b) {w : ℤ}
    (hroom : b.length < E+w) (hsmall : v.units E < placed b E w) :
    digitAt v.digits (v.weight - (w-1)) = v.units (-(w-1)) := by
  obtain ⟨k, hk⟩ := eq_ofNat_of_zero_le (show 0 ≤ E + w - b.length by omega)
  obtain ⟨j, hj⟩ := eq_ofNat_of_zero_le (show 0 ≤ E + w - 1 by omega)
  have hplaced : placed b E w < 10 * 10^j := by
    have hlt := lead_lt hb b.length
    have hpow : 10^b.length * 10^k = 10 * 10^j := by
      rw [← pow_add, ← pow_succ', show b.length + k = j+1 by omega]
    rw [placed, hk, toNat_natCast, ← hpow]
    exact Nat.mul_lt_mul_of_pos_right hlt (Nat.pow_pos (by decide))
  have hunits : v.units (-(w-1)) = v.units E / 10^j := by
    rw [NumericVar.units, NumericVar.units, ← units_sub hv.decimal,
      show -(w-1) = E - (j : ℤ) by omega]
  have hlt : v.units (-(w-1)) < 10 := by
    rw [hunits, Nat.div_lt_iff_lt_mul (Nat.pow_pos (by decide))]
    omega
  rw [show v.weight - (w-1) = v.weight + -(w-1) by omega, digitAt_eq_mod hv.decimal]
  exact mod_eq_of_lt hlt

theorem divStep_spec (h : Turn b E s) (hb : IsDivisor b) (hroom : b.length < E+s.weightTmp) :
    (divStep b s = (turnDigit b E s, none) ∧ s.dividend.units E = turnDigit b E s * placed b E s.weightTmp) ∨
    (∃ t, divStep b s = (turnDigit b E s, some t) ∧ Turn b E t ∧ t.weightTmp = s.weightTmp-1 ∧
      t.dividend.units E + turnDigit b E s * placed b E s.weightTmp = s.dividend.units E) := by
  set q := turnDigit b E s with hqdef
  have hq9 : q ≤ 9 := turnDigit_le h hb
  have hD := placed_pos hb E s.weightTmp
  have hpred := placed_pred hroom
  have hscaleTmp := h.scaleTmp
  have hqle : q * placed b E s.weightTmp ≤ s.dividend.units E := div_mul_le_self _ _
  have hqlt : s.dividend.units E < (q+1) * placed b E s.weightTmp := lt_mul_of_div_lt (lt_succ_self _) hD
  have htry : tryGuess b s.advance (firstGuess b s.advance) = (q, if q = 0 then -1 else
      order (s.dividend.units E) (q * placed b E s.weightTmp)) :=
    tryGuess_eq (s := s.advance) (h.exact.mono h.scale) hb hroom.le (firstGuess_ge h hb hroom.le) (min_le_right _ _)
  unfold divStep
  simp only [htry]
  by_cases hq0 : q = 0
  · -- the divisor does not fit: nothing is subtracted
    right
    rw [hq0, zero_add, one_mul] at hqlt
    simp only [hq0, if_true, show (-1 : ℤ) = 0 ↔ False by decide, if_false]
    refine ⟨_, rfl, ⟨h.exact, h.scale, ?_, ?_, ?_, ?_⟩, rfl, ?_⟩
    · show s.rscaleTmp + 1 = b.length + 1 - (s.weightTmp-1)
      omega
    · show s.dividend.units E < 10 * placed b E (s.weightTmp-1)
      omega
    · rw [h.advance_first]
      show s.dividend.units (1-s.weightTmp) = s.dividend.units (-(s.weightTmp-1))
      rw [neg_sub]
    · show s.firstNextdigit + 1 = s.dividend.weight + 1 - (s.weightTmp-1)
      rw [h.next]
      omega
    · rw [Nat.zero_mul]
      rfl
  · simp only [if_neg hq0]
    obtain hlt | heq := lt_or_eq_of_le hqle
    · -- a remainder is left
      right
      rw [order_of_gt hlt, if_neg (by decide)]
      obtain ⟨hex, hrem⟩ := subAbs_divisor h hb hroom hq9 (by omega) hqle
      have hsmall : (subAbs s.dividend (divisor b q s)).units E < placed b E s.weightTmp := by
        rw [succ_mul] at hqlt
        omega
      refine ⟨_, rfl, ⟨hex, ?_, ?_, ?_, ?_, ?_⟩, rfl, hrem⟩
      · show max s.dividend.rscale s.rscaleTmp ≤ E
        have := h.scale
        omega
      · show s.rscaleTmp + 1 = b.length + 1 - (s.weightTmp-1)
        omega
      · show (subAbs s.dividend (divisor b q s)).units E < 10 * placed b E (s.weightTmp-1)
        omega
      · exact digitAt_remainder hex hb.decimal hroom hsmall
      · exact sub_add_eq_add_sub _ _ _
    · left
      rw [← heq, order, if_neg (lt_irrefl _), if_neg (lt_irrefl _)]
      exact ⟨rfl, rfl⟩

end

/-! ## The loop -/

def divStates (digits2 : List ℕ) : ℕ → DivState → List DivState
  | 0, _ => []
  | n + 1, s =>
    match divStep digits2 s with
    | (_, none) => [s]
    | (_, some t) => s :: divStates digits2 n t

section
variable {b : List ℕ} {E : ℤ}

/-- `n` turns find `n` places of the quotient; the places after an early exit are zero. -/
theorem divLoop_eq (hb : IsDivisor b) {n : ℕ} {s : DivState} (h : Turn b E s) (hroom : n + b.length ≤ E+s.weightTmp) :
    ∃ rem < 10 * placed b E s.weightTmp, s.dividend.units E * 10^n =
      lead (divLoop b n s) n * (10 * placed b E s.weightTmp) + rem := by
  induction n generalizing s with
  | zero => exact ⟨s.dividend.units E, h.small, by simp⟩
  | succ n ih =>
    have hpred := placed_pred (b := b) (E := E) (w := s.weightTmp) (by omega)
    have hD := placed_pos hb E s.weightTmp
    rw [divLoop]
    obtain ⟨hstep, heq⟩ | ⟨t, hstep, ht, hw, hrem⟩ := divStep_spec h hb (by omega)
    · refine ⟨0, by omega, ?_⟩
      rw [hstep, heq]
      simp only [lead, lead_nil]
      ring
    · obtain ⟨rem, hlt, hrec⟩ := ih ht (by omega)
      rw [hw, ← hpred] at hlt hrec
      refine ⟨10*rem, by omega, ?_⟩
      rw [hstep, ← hrem]
      simp only [lead]
      rw [pow_succ, add_mul, show t.dividend.units E * (10^n * 10) = 10 * (t.dividend.units E * 10^n) by ring, hrec]
      ring

theorem divLoop_length (b : List ℕ) (n : ℕ) (s : DivState) : (divLoop b n s).length ≤ n := by
  induction n generalizing s with
  | zero => exact le_refl 0
  | succ n ih =>
    rw [divLoop]
    split
    · exact succ_le_succ (zero_le n)
    · exact succ_le_succ (ih _)

theorem divLoop_decimal (hb : IsDivisor b) {n : ℕ} {s : DivState} (h : Turn b E s)
    (hroom : n + b.length ≤ E+s.weightTmp) : IsDecimal (divLoop b n s) := by
  induction n generalizing s with
  | zero => exact fun d hd => absurd hd not_mem_nil
  | succ n ih =>
    have hdigit : turnDigit b E s < 10 := lt_succ_of_le (turnDigit_le h hb)
    rw [divLoop]
    obtain ⟨hstep, heq⟩ | ⟨t, hstep, ht, hw, hrem⟩ := divStep_spec h hb (by omega)
    · rw [hstep]
      exact forall_mem_cons.mpr ⟨hdigit, forall_mem_nil _⟩
    · rw [hstep]
      exact forall_mem_cons.mpr ⟨hdigit, ih ht (by omega)⟩

theorem divStates_turn (hb : IsDivisor b) {n : ℕ} {s : DivState} (h : Turn b E s)
    (hroom : n + b.length ≤ E+s.weightTmp) :
    ∀ t ∈ divStates b n s, Turn b E t ∧ b.length < E+t.weightTmp := by
  induction n generalizing s with
  | zero => exact fun t ht => absurd ht not_mem_nil
  | succ n ih =>
    rw [divStates]
    obtain ⟨hstep, heq⟩ | ⟨u, hstep, hu, hw, hrem⟩ := divStep_spec h hb (by omega)
    · rw [hstep]
      exact forall_mem_cons.mpr ⟨⟨h, by omega⟩, forall_mem_nil _⟩
    · rw [hstep]
      exact forall_mem_cons.mpr ⟨⟨h, by omega⟩, ih hu (by omega)⟩

end

end WeaverDB.Numeric
