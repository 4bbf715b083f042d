import WeaverDB.Adt.NumericDivision
import WeaverDB.Adt.NumericStored

/-! # Quotients

`div_var` computes as many places as `global_rscale` asks for, but at least one, and rounds;
`make_result` cuts the digits at the scale and stores the weight in 16 bits.
-/

namespace WeaverDB.Numeric
open Foundations Int Nat List Option

/-! ## The quotient that `div_var` computes -/

section
variable {var1 var2 : NumericVar}

def divPlaces (globalRscale : ℤ) (var1 var2 : NumericVar) : ℤ :=
  divTurns globalRscale var1 var2 - (var1.weight - var2.weight + 1)

theorem divStart_turn (h1 : IsDecimal var1.digits) (hb : IsDivisor var2.digits) {E : ℤ}
    (hE1 : var1.ndigits ≤ E) (hE2 : var2.ndigits ≤ E) :
    Turn var2.digits E (divStart var1 var2) where
  exact := ⟨h1, endsAt_of_length (by simp [divStart, NumericVar.ndigits])⟩
  scale := hE1
  scaleTmp := by simp [divStart, NumericVar.ndigits]
  small := by
    obtain ⟨hlen, hlead⟩ := hb.le_lead
    simp only [NumericVar.ndigits] at hE2
    obtain ⟨e, rfl⟩ := eq_ofNat_of_zero_le (show 0 ≤ E by omega)
    have hlt : (divStart var1 var2).dividend.units e < 10^(e+1) := units_lt h1 (by simp [divStart])
    have hpow : 10^(e+1) = 10 * (10^(var2.digits.length-1) * 10^((e : ℤ) + 1 - var2.digits.length).toNat) := by
      rw [← pow_add, ← pow_succ']
      congr 1
      omega
    refine hlt.trans_le ?_
    rw [hpow]
    exact mul_le_mul_left 10 (mul_le_mul_right _ hlead)
  first := (units_of_neg (by simp [divStart])).symm
  next := by simp [divStart]

theorem magnitude_eq_placed {b : List ℕ} {E w : ℤ} (h : b.length ≤ E+w) :
    magnitude (0 :: b) w = placed b E w / 10^E := by
  rw [magnitude_zero_cons]
  rw [magnitude, placed, Nat.cast_mul, Nat.cast_pow, mul_div_assoc]
  congr 1
  rw [eq_div_iff (by positivity), ← zpow_add₀ (by norm_num), ← zpow_natCast]
  congr 1
  omega

theorem divLoop_quotient (h1 : IsDecimal var1.digits) (hb : IsDivisor var2.digits) (n : ℕ) :
    (lead (divLoop var2.digits (n+1) (divStart var1 var2)) (n+1) : ℚ) ≤
        magnitude var1.digits 0 / magnitude var2.digits 0 * 10^n ∧
      magnitude var1.digits 0 / magnitude var2.digits 0 * 10^n <
        lead (divLoop var2.digits (n+1) (divStart var1 var2)) (n+1) + 1 := by
  set E : ℤ := var1.digits.length + var2.digits.length + n with hE
  have hturn := divStart_turn h1 hb (E := E) (by simp only [NumericVar.ndigits]; omega)
    (by simp only [NumericVar.ndigits]; omega)
  obtain ⟨rem, hlt, heq⟩ := divLoop_eq hb (n := n+1) hturn (by show ((n+1 : ℕ) : ℤ) + _ ≤ E + 1; omega)
  set X := lead (divLoop var2.digits (n+1) (divStart var1 var2)) (n+1)
  have hends : EndsAt var1.digits 0 E := endsAt_of_length (by omega)
  have hR : magnitude var1.digits 0 = units var1.digits 0 E / 10^E := hends.magnitude_eq
  have hD : magnitude var2.digits 0 = placed var2.digits E 1 / 10^E := by
    rw [← magnitude_eq_placed (by omega), magnitude_zero_cons, sub_self]
  have hpos : (0 : ℚ) < placed var2.digits E 1 := by exact_mod_cast placed_pos hb E 1
  have hquot : magnitude var1.digits 0 / magnitude var2.digits 0 = units var1.digits 0 E / placed var2.digits E 1 := by
    rw [hR, hD, div_div_div_cancel_right₀ (by positivity)]
  have hcast : (units var1.digits 0 E : ℚ) * 10^(n+1) = X * (10 * placed var2.digits E 1) + rem := by
    exact_mod_cast heq
  have hltq : (rem : ℚ) < 10 * placed var2.digits E 1 := by exact_mod_cast hlt
  rw [hquot, div_mul_eq_mul_div, le_div_iff₀ hpos, div_lt_iff₀ hpos]
  rw [pow_succ] at hcast
  constructor
  · linarith
  · linarith

theorem round_of_floor {X : ℕ} {z : ℚ} (hle : (X : ℚ) ≤ z*10) (hlt : z * 10 < X+1) :
    (((X+5) / 10 : ℕ) : ℤ) = round z := by
  set u := (X+5) / 10
  have hlo : 10 * u ≤ X+5 := Nat.mul_div_le _ _
  have hhi : X ≤ 10 * u + 4 := by omega
  have hlo' : (10*u : ℚ) ≤ X+5 := by exact_mod_cast hlo
  have hhi' : (X : ℚ) ≤ 10 * u + 4 := by exact_mod_cast hhi
  rw [round_eq, eq_comm, Int.floor_eq_iff, Int.cast_natCast]
  constructor <;> linarith

def roundedQuotient (globalRscale : ℤ) (var1 var2 : NumericVar) : List ℕ :=
  let resNdigits := divTurns globalRscale var1 var2
  let resDigits := 0 :: divLoop var2.digits (resNdigits+1) (divStart var1 var2)
  if resDigits.length = resNdigits + 2 then roundDigits resDigits (resNdigits+1) else resDigits

variable (g : ℤ)

theorem roundedQuotient_spec (h1 : IsDecimal var1.digits) (hb : IsDivisor var2.digits) :
    IsDecimal (roundedQuotient g var1 var2) ∧
      (roundedQuotient g var1 var2).length ≤ divTurns g var1 var2 + 1 ∧
      lead (roundedQuotient g var1 var2) (divTurns g var1 var2 + 1) =
        (lead (divLoop var2.digits (divTurns g var1 var2 + 1) (divStart var1 var2))
          (divTurns g var1 var2 + 1) + 5) / 10 := by
  set T := divTurns g var1 var2 with hT
  set E : ℤ := var1.digits.length + var2.digits.length + T
  have hturn := divStart_turn h1 hb (E := E) (by simp only [NumericVar.ndigits]; omega)
    (by simp only [NumericVar.ndigits]; omega)
  have hdec := divLoop_decimal hb (n := T+1) hturn (by show ((T+1 : ℕ) : ℤ) + _ ≤ E + 1; omega)
  have hlen := divLoop_length var2.digits (T+1) (divStart var1 var2)
  have hdef : roundedQuotient g var1 var2 =
      if (0 :: divLoop var2.digits (T+1) (divStart var1 var2)).length = T + 2 then
        roundDigits (0 :: divLoop var2.digits (T+1) (divStart var1 var2)) (T+1)
      else 0 :: divLoop var2.digits (T+1) (divStart var1 var2) := rfl
  generalize divLoop var2.digits (T+1) (divStart var1 var2) = quotient at *
  have hdec0 : IsDecimal (0 :: quotient) := forall_mem_cons.mpr ⟨by decide, hdec⟩
  rw [length_cons] at hdef
  rw [hdef]
  split
  · next hfull =>
    obtain ⟨hlead, hlen, hd⟩ := roundDigits_spec hdec0 rfl (i := T+1) (by rw [length_cons]; omega)
    refine ⟨hd, hlen.le, ?_⟩
    rw [hlead, lead, Nat.zero_mul, zero_add]
  · next hshort =>
    refine ⟨hdec0, by rw [length_cons]; omega, ?_⟩
    -- the last place is behind the early exit
    rw [lead, lead_succ, getD_eq_default _ _ (by omega)]
    omega

theorem divVar_eq (hne : var1.digits ≠ []) (hb : var2.digits ≠ []) : divVar g var1 var2 = .ok
      (let (digits, weight) := stripZeros (roundedQuotient g var1 var2) (var1.weight - var2.weight + 1)
       ⟨weight, g, 0, if digits = [] then .pos else if var1.sign = var2.sign then .pos else .neg, digits⟩) := by
  rw [divVar, if_neg hb]
  simp only [if_neg hne]
  rfl

theorem divVar_spec (h1 : IsDecimal var1.digits) (hne : var1.digits ≠ []) (hb : IsDivisor var2.digits) :
    ∃ r, divVar g var1 var2 = .ok r ∧ r.rscale = g ∧ r.Exact (divPlaces g var1 var2) ∧
      (r.units (divPlaces g var1 var2) : ℤ) = round (var1.abs / var2.abs * 10^divPlaces g var1 var2) ∧
      (r.sign = if r.digits = [] then .pos else if var1.sign = var2.sign then .pos else .neg) ∧
      ∀ d ∈ r.digits.head?, d ≠ 0 := by
  have hb0 : var2.digits ≠ [] := ne_nil_of_length_pos hb.le_lead.1
  obtain ⟨hdec, hlen, hlead⟩ := roundedQuotient_spec g h1 hb
  set W := var1.weight - var2.weight + 1 with hW
  set T := divTurns g var1 var2 with hT
  have hS : divPlaces g var1 var2 = T-W := rfl
  have hends : EndsAt (roundedQuotient g var1 var2) W (T-W) := endsAt_of_length (by omega)
  refine ⟨_, divVar_eq g hne hb0, rfl, ⟨stripZeros_decimal hdec W, stripZeros_endsAt hends⟩, ?_, rfl,
    stripZeros_head (w := W)⟩
  have hunits : units (roundedQuotient g var1 var2) W (T-W) = lead (roundedQuotient g var1 var2) (T+1) := by
    rw [units, show ((T : ℤ) - W + W + 1).toNat = T + 1 by omega]
  obtain ⟨hle, hlt⟩ := divLoop_quotient h1 hb T
  have hz : magnitude var1.digits 0 / magnitude var2.digits 0 * 10^T = var1.abs / var2.abs * 10^((T : ℤ) - W) * 10 := by
    have hten : (10 : ℚ) ≠ 0 := by norm_num
    rw [NumericVar.abs, NumericVar.abs, magnitude_weight _ var1.weight, magnitude_weight _ var2.weight,
      mul_div_mul_comm, ← zpow_sub₀ hten, mul_assoc, mul_assoc, ← zpow_add_one₀ hten,
      ← zpow_add₀ hten, ← zpow_natCast]
    congr 2
    omega
  rw [hz] at hle hlt
  rw [hS, NumericVar.units, stripZeros_units, hunits, hlead, round_of_floor hle hlt]

theorem divVar_zero (h1 : var1.digits = []) (hb : var2.digits ≠ []) :
    divVar g var1 var2 = .ok { zeroVar with rscale := g } := by
  rw [divVar, if_neg hb]
  simp only [if_pos h1]

theorem quotient_lt (h1 : IsDecimal var1.digits) (hb : IsDivisor var2.digits) :
    var1.abs / var2.abs < 10^(var1.weight - var2.weight + 1) := by
  have hlt : var1.abs < 10^(var1.weight+1) := magnitude_lt h1 _
  have hle : 10^var2.weight ≤ var2.abs := le_magnitude hb.head _
  have hpos : (0 : ℚ) < 10^var2.weight := by positivity
  rw [div_lt_iff₀ (hpos.trans_le hle)]
  calc var1.abs < 10^(var1.weight - var2.weight + 1) * 10^var2.weight := by
        rw [← zpow_add₀ (by norm_num)]
        rwa [show var1.weight - var2.weight + 1 + var2.weight = var1.weight + 1 by omega]
    _ ≤ _ := mul_le_mul_of_nonneg_left hle (by positivity)

theorem round_eq_iff {z : ℚ} {n : ℤ} : round z = n ↔ (n : ℚ) - 1 / 2 ≤ z ∧ z < n+1 / 2 := by
  rw [round_eq, Int.floor_eq_iff]
  constructor
  · rintro ⟨h1, h2⟩
    constructor <;> linarith
  · rintro ⟨h1, h2⟩
    constructor <;> linarith

/-- The loop goes beyond the scale, and the quotient is a half or more of the last place. -/
def RoundsTooLow (g : ℤ) (var1 var2 : NumericVar) : Prop :=
  var1.weight - var2.weight + 1 = -g ∧ 1 / 2 ≤ var1.abs / var2.abs * 10^g ∧ var1.abs / var2.abs * 10^g < 19 / 20

theorem divPlaces_cases (h1 : IsDecimal var1.digits) (hb : IsDivisor var2.digits) :
    (divPlaces g var1 var2 = g ∧ var1.weight - var2.weight + 1 ≠ -g) ∨
      ∃ j : ℕ, divPlaces g var1 var2 = g + (j+1 : ℕ) ∧ var1.weight - var2.weight + 1 = -g - j ∧
        var1.abs / var2.abs * 10^g * 10^j < 1 := by
  have hxlt := quotient_lt h1 hb
  set W := var1.weight - var2.weight + 1 with hW
  have hplaces : divPlaces g var1 var2 = atLeastOne (g+W) - W := rfl
  by_cases hfull : 0 < g+W
  · refine .inl ⟨?_, by omega⟩
    rw [hplaces, atLeastOne_eq hfull, add_sub_cancel_right]
  · obtain ⟨j, hj⟩ := eq_ofNat_of_zero_le (show 0 ≤ -(g+W) by omega)
    have hone : atLeastOne (g+W) = 1 := by rw [atLeastOne, if_pos (by omega)]
    refine .inr ⟨j, by omega, by omega, ?_⟩
    have hpow : (10 : ℚ)^W * 10^(g + (j : ℤ)) = 1 := by
      rw [← zpow_add₀ (by norm_num), show W + (g + (j : ℤ)) = 0 by omega, zpow_zero]
    calc var1.abs / var2.abs * 10^g * 10^j = var1.abs / var2.abs * 10^(g + (j : ℤ)) := by
          rw [zpow_add₀ (by norm_num), zpow_natCast, mul_assoc]
      _ < 10^W * 10^(g + (j : ℤ)) := mul_lt_mul_of_pos_right hxlt (by positivity)
      _ = 1 := hpow

/-- At the scale: rounded, except that a quotient in the last place may be lost. -/
theorem divVar_units (h1 : IsDecimal var1.digits) (hb : IsDivisor var2.digits)
    {r : NumericVar} (hex : r.Exact (divPlaces g var1 var2))
    (hround : (r.units (divPlaces g var1 var2) : ℤ) = round (var1.abs / var2.abs * 10^divPlaces g var1 var2)) :
    (¬ RoundsTooLow g var1 var2 → (r.units g : ℤ) = round (var1.abs / var2.abs * 10^g)) ∧
      (RoundsTooLow g var1 var2 → r.units g = 0 ∧ round (var1.abs / var2.abs * 10^g) = 1) := by
  have hx : 0 ≤ var1.abs / var2.abs := div_nonneg var1.abs_nonneg var2.abs_nonneg
  unfold RoundsTooLow
  obtain ⟨hS, hW⟩ | ⟨j, hS, hW, hten⟩ := divPlaces_cases g h1 hb
  · rw [hS] at hround
    exact ⟨fun _ => hround, fun h => absurd h.1 hW⟩
  · rw [hS] at hround hex
    set x := var1.abs / var2.abs
    have hy : 0 ≤ x*10^g := mul_nonneg hx (by positivity)
    have hsplit : x * 10^(g + (j+1 : ℕ)) = x*10^g * 10^(j+1) := by
      rw [zpow_add₀ (by norm_num), zpow_natCast, mul_assoc]
    have hcut : r.units g = r.units (g + (j+1 : ℕ)) / 10^(j+1) := by
      rw [NumericVar.units, NumericVar.units, ← units_sub hex.decimal, add_sub_cancel_right]
    rw [hsplit] at hround
    obtain ⟨hlo, hhi⟩ := round_eq_iff.mp hround.symm
    rw [cast_natCast] at hlo hhi
    generalize r.units (g + (j+1 : ℕ)) = u at *
    generalize x * 10^g = y at *
    cases j with
    | zero =>
      rw [pow_one] at hlo hhi hcut
      obtain hhalf | hhalf := lt_or_ge y (1/2)
      · have hu : u < 10 := by
          have : (u : ℚ) < 10 := by linarith
          exact_mod_cast this
        have hy0 : round y = 0 := round_eq_iff.mpr ⟨by linarith, by linarith⟩
        rw [hcut, div_eq_of_lt hu, hy0]
        exact ⟨fun _ => rfl, fun h => absurd h.2.1 (by linarith)⟩
      · have hy1 : round y = 1 := round_eq_iff.mpr ⟨by linarith, by linarith⟩
        obtain hlow | hlow := lt_or_ge y (19/20)
        · have hu : u < 10 := by
            have : (u : ℚ) < 10 := by linarith
            exact_mod_cast this
          rw [hcut, div_eq_of_lt hu]
          exact ⟨fun h => absurd ⟨by omega, hhalf, hlow⟩ h, fun _ => ⟨rfl, hy1⟩⟩
        · have hu : u = 10 := by
            have h9 : (9 : ℚ) < u := by linarith
            have h11 : (u : ℚ) < 11 := by linarith
            have h9' : 9 < u := by exact_mod_cast h9
            have h11' : u < 11 := by exact_mod_cast h11
            omega
          rw [hcut, hu, hy1]
          exact ⟨fun _ => rfl, fun h => absurd h.2.2 (by linarith)⟩
    | succ j =>
      have hpow : (1 : ℚ) ≤ 10^j := one_le_pow₀ (by norm_num)
      have hu : u < 10^(j+1 + 1) := by
        have : (u : ℚ) < 100 * 10^j := by
          rw [pow_succ, pow_succ] at hlo
          rw [pow_succ] at hten
          linarith
        rw [pow_succ, pow_succ, mul_assoc, mul_comm]
        exact_mod_cast this
      have hy10 : y < 1 / 10 := by
        rw [pow_succ] at hten
        nlinarith
      have hy0 : round y = 0 := round_eq_iff.mpr ⟨by linarith, by linarith⟩
      rw [hcut, div_eq_of_lt hu, hy0]
      exact ⟨fun _ => rfl, fun h => absurd h.1 (by omega)⟩

end

/-! ## The quotient that `numeric_div` stores -/

def roundAway (x : ℚ) (S : ℤ) : ℚ := (if x < 0 then -1 else 1) * (round (|x| * 10^S) / 10^S)

def divScale (a b : Stored) : ℤ := divRscale a.arg b.arg

def trueDigit (digits2 : List ℕ) (s : DivState) : ℤ := ⌊s.dividend.abs / magnitude (0 :: digits2) s.weightTmp⌋

/-- The result is the rounded quotient in canonical form, and no turn began with a guess below the
digit. -/
structure DivRight (a b : Stored) : Prop where
  quotient : ∃ r, numericDiv (some a.toNumericData) (some b.toNumericData) = .ok (some r) ∧
    r.nSign ≠ .nan ∧ r.value = roundAway (a.value/b.value) (divScale a b) ∧ r.Canonical
  guesses : ∀ s ∈ divStates b.arg.digits (divTurns (divScale a b) a.arg b.arg + 1)
    (divStart a.arg b.arg), trueDigit b.arg.digits s ≤ firstGuess b.arg.digits s.advance

section
variable {a b : Stored}

theorem isDivisor_arg (hb : b.value ≠ 0) : IsDivisor b.arg.digits :=
  ⟨b.arg_decimal, b.arg_head fun hnil => hb (b.arg_nil_iff.mp hnil)⟩

theorem guesses_right (a : Stored) (hb : b.value ≠ 0) (n : ℕ) :
    ∀ s ∈ divStates b.arg.digits (n+1) (divStart a.arg b.arg),
      trueDigit b.arg.digits s ≤ firstGuess b.arg.digits s.advance := by
  intro s hs
  have hdiv := isDivisor_arg hb
  set E : ℤ := a.arg.digits.length + b.arg.digits.length + n
  have hstart : Turn b.arg.digits E (divStart a.arg b.arg) := divStart_turn a.arg_decimal hdiv
    (by simp only [NumericVar.ndigits]; omega) (by simp only [NumericVar.ndigits]; omega)
  obtain ⟨hturn, hroom⟩ := divStates_turn hdiv hstart (by show ((n+1 : ℕ) : ℤ) + _ ≤ E + 1; omega) s hs
  have hguess := firstGuess_ge hturn hdiv hroom.le
  have hpos := placed_pos hdiv E s.weightTmp
  have hlt : s.dividend.units E < (firstGuess b.arg.digits s.advance + 1) * placed b.arg.digits E s.weightTmp :=
    lt_mul_of_div_lt (lt_succ_of_le hguess) hpos
  have hposq : (0 : ℚ) < placed b.arg.digits E s.weightTmp := by exact_mod_cast hpos
  rw [trueDigit, magnitude_eq_placed hroom.le, (hturn.exact.mono hturn.scale).abs_eq,
    div_div_div_cancel_right₀ (by positivity), floor_le_iff, div_lt_iff₀ hposq]
  exact_mod_cast hlt

theorem abs_quotient (a b : Stored) : |a.value / b.value| = a.arg.abs / b.arg.abs := by
  rw [abs_div, a.abs_value, b.abs_value]

theorem Sign.factor_quotient {s t : Sign} (hs : s ≠ .nan) (ht : t ≠ .nan) {x y : ℚ} (hx : 0 < x)
    (hy : 0 < y) : (if s = t then Sign.pos else Sign.neg).factor =
      if s.factor * x / (t.factor*y) < 0 then -1 else 1 := by
  have hpos : 0 < x / y := div_pos hx hy
  have hquot : s.factor * x / (t.factor*y) = s.factor / t.factor * (x/y) := mul_div_mul_comm _ _ _ _
  rw [hquot]
  generalize x / y = z at hpos
  have hz : ¬ z < 0 := not_lt.mpr hpos.le
  cases s <;> cases t <;> simp_all [Sign.factor]

theorem divVar_result (a : Stored) (hb : b.value ≠ 0) :
    ∃ r, divVar (divScale a b) a.arg b.arg = .ok r ∧ r.rscale = divScale a b ∧ r.sign ≠ .nan ∧
      IsDecimal r.digits ∧
      (¬ RoundsTooLow (divScale a b) a.arg b.arg →
        (r.units (divScale a b) : ℤ) = round (|a.value / b.value| * 10^divScale a b)) ∧
      (RoundsTooLow (divScale a b) a.arg b.arg → r.units (divScale a b) = 0 ∧
        round (|a.value / b.value| * 10^divScale a b) = 1) ∧
      (r.units (divScale a b) ≠ 0 → r.sign.factor = if a.value / b.value < 0 then -1 else 1) := by
  have hdiv := isDivisor_arg hb
  have hb0 : b.arg.digits ≠ [] := ne_nil_of_length_pos hdiv.le_lead.1
  rw [abs_quotient]
  by_cases ha : a.arg.digits = []
  · have hzero : a.arg.abs = 0 := by simp [NumericVar.abs, magnitude, ha]
    refine ⟨_, divVar_zero _ ha hb0, rfl, Sign.noConfusion, forall_mem_nil _, ?_, ?_, ?_⟩
    · simp [hzero, zeroVar, NumericVar.units]
    · rintro ⟨-, hhalf, -⟩
      rw [hzero] at hhalf
      norm_num at hhalf
    · simp [zeroVar, NumericVar.units]
  · obtain ⟨r, hr, hscale, hex, hround, hsign, -⟩ := divVar_spec (divScale a b) a.arg_decimal ha hdiv
    obtain ⟨hright, hlow⟩ := divVar_units _ a.arg_decimal hdiv hex hround
    refine ⟨r, hr, hscale, ?_, hex.decimal, hright, hlow, ?_⟩
    · rw [hsign]
      split
      · exact Sign.noConfusion
      · split <;> exact Sign.noConfusion
    · intro hne
      have hdigits : r.digits ≠ [] := fun hnil => hne (by simp [NumericVar.units, hnil])
      have hapos : 0 < a.arg.abs := lt_of_le_of_ne a.arg.abs_nonneg fun hz =>
        ha (a.arg_nil_iff.mpr (abs_eq_zero.mp (a.abs_value.trans hz.symm)))
      have hbpos : 0 < b.arg.abs := b.abs_value ▸ abs_pos.mpr hb
      rw [hsign, if_neg hdigits]
      exact Sign.factor_quotient a.notNan b.notNan hapos hbpos

theorem abs_roundAway (x : ℚ) (S : ℤ) : |roundAway x S| = round (|x| * 10^S) / 10^S := by
  have hround : (0 : ℤ) ≤ round (|x| * 10^S) := by
    rw [round_eq]
    exact floor_nonneg.mpr (by positivity)
  have hquot : (0 : ℚ) ≤ round (|x| * 10^S) / 10^S := div_nonneg (by exact_mod_cast hround) (by positivity)
  rw [roundAway, abs_mul, abs_of_nonneg hquot]
  split <;> norm_num

theorem numericDiv_eq (a : Stored) (hb : b.value ≠ 0) : ∃ v,
      numericDiv (some a.toNumericData) (some b.toNumericData) = .ok (some (makeResult v)) ∧
      v.sign ≠ .nan ∧ IsDecimal v.digits ∧
      (¬ RoundsTooLow (divScale a b) a.arg b.arg →
        v.units v.rscale / 10^v.rscale = |roundAway (a.value/b.value) (divScale a b)| ∧
        v.sign.factor * (v.units v.rscale / 10^v.rscale) = roundAway (a.value/b.value) (divScale a b)) ∧
      (RoundsTooLow (divScale a b) a.arg b.arg →
        v.units v.rscale = 0 ∧ roundAway (a.value/b.value) (divScale a b) ≠ 0) := by
  obtain ⟨r, hr, hscale, hsign, hdec, hright, hlow, hfactor⟩ := divVar_result a hb
  rw [← hscale] at hright hlow hfactor ⊢
  refine ⟨{ r with dscale := divDscale a.arg b.arg }, ?_, hsign, hdec, fun hnot => ?_, fun htoo => ?_⟩
  · rw [numericDiv, if_neg (not_or.mpr ⟨a.notNan, b.notNan⟩)]
    show (divVar (divScale a b) a.arg b.arg >>= _) = _
    rw [hr]
    rfl
  · have hunits : (r.units r.rscale : ℚ) = round (|a.value / b.value| * 10^r.rscale) := by
      exact_mod_cast congrArg (Int.cast (R := ℚ)) (hright hnot)
    refine ⟨by rw [abs_roundAway, ← hunits]; rfl, ?_⟩
    by_cases hzero : r.units r.rscale = 0
    · rw [roundAway, ← hunits]
      show r.sign.factor * ((r.units r.rscale : ℚ) / 10^r.rscale) = _
      rw [hzero]
      simp
    · rw [roundAway, ← hunits, ← hfactor hzero]
      rfl
  · obtain ⟨hunits, hone⟩ := hlow htoo
    refine ⟨hunits, fun hzero => ?_⟩
    have habs := abs_roundAway (a.value/b.value) r.rscale
    rw [hone, hzero] at habs
    exact ne_of_gt (by positivity : (0 : ℚ) < 1 / 10^r.rscale) habs.symm

/-- Division is right unless the quotient is lost, or is too large for its weight. -/
theorem numericDiv_right_iff (a b : Stored) (hb : b.value ≠ 0) :
    DivRight a b ↔ ¬ RoundsTooLow (divScale a b) a.arg b.arg ∧
      Fits |roundAway (a.value/b.value) (divScale a b)| := by
  obtain ⟨v, hres, hsign, hdec, hright, hlow⟩ := numericDiv_eq a hb
  constructor
  · rintro ⟨⟨r, hr, -, hvalue, -⟩, -⟩
    obtain rfl : makeResult v = r := by
      rw [hres] at hr
      exact some.inj (Except.ok.inj hr)
    have hnot : ¬ RoundsTooLow (divScale a b) a.arg b.arg := by
      intro htoo
      obtain ⟨hunits, hne⟩ := hlow htoo
      have hstored := makeResult_value_of_fits hsign hdec (.inl (by rw [hunits]; simp))
      rw [hunits] at hstored
      refine hne (hvalue.symm.trans (hstored.trans ?_))
      simp
    obtain ⟨habs, hsigned⟩ := hright hnot
    refine ⟨hnot, ?_⟩
    by_contra hfits
    rw [← habs] at hfits
    exact makeResult_value_of_not_fits hsign hdec hfits (hvalue.trans hsigned.symm)
  · rintro ⟨hnot, hfits⟩
    obtain ⟨habs, hsigned⟩ := hright hnot
    rw [← habs] at hfits
    refine ⟨⟨makeResult v, hres, makeResult_notNan hsign, ?_, makeResult_canonical hsign⟩, guesses_right a hb _⟩
    rw [makeResult_value_of_fits hsign hdec hfits, hsigned]

/-- `7 / 2` -/
theorem numericDiv_right_seven_two :
    DivRight (.oneDigit 7 0 (by decide) (by decide)) (.oneDigit 2 0 (by decide) (by decide)) := by
  have hscale : divScale (.oneDigit 7 0 (by decide) (by decide)) (.oneDigit 2 0 (by decide) (by decide)) =
      34 := by decide
  refine (numericDiv_right_iff _ _ ?_).mpr ⟨?_, ?_⟩
  · rw [Stored.oneDigit_value]
    norm_num
  · rintro ⟨hw, -⟩
    rw [hscale] at hw
    exact absurd hw (by decide)
  · rw [abs_roundAway, hscale, Stored.oneDigit_value, Stored.oneDigit_value]
    have hround : round (|((7 : ℕ) : ℚ) * 10^0 / ((2 : ℕ) * 10^0)| * 10^(34 : ℤ)) = 35 * 10^33 := by
      rw [round_eq_iff]
      norm_num
    rw [hround]
    refine .inr ⟨0, by norm_num, by norm_num, ?_, ?_⟩
    · norm_num
    · norm_num

/-- `7 / 10 ^ 35` is `0.7` in the last of the 34 places, and the result is zero. -/
theorem numericDiv_loses_last_place :
    ¬ DivRight (.oneDigit 7 0 (by decide) (by decide)) (.oneDigit 1 35 (by decide) (by decide)) := by
  rintro ⟨⟨r, hr, -, hvalue, -⟩, -⟩
  have hscale : divScale (.oneDigit 7 0 (by decide) (by decide)) (.oneDigit 1 35 (by decide) (by decide)) =
      34 := by decide
  have hrun : numericDiv (some (Stored.oneDigit 7 0 (by decide) (by decide)).toNumericData)
      (some (Stored.oneDigit 1 35 (by decide) (by decide)).toNumericData) =
        .ok (some ⟨0, 34, .pos, 10, []⟩) := by decide +kernel
  obtain rfl : (⟨0, 34, .pos, 10, []⟩ : NumericData) = r := by
    rw [hrun] at hr
    exact some.inj (Except.ok.inj hr)
  have hround : round (|((7 : ℕ) : ℚ) * 10^0 / ((1 : ℕ) * 10^35)| * 10^(34 : ℤ)) = 1 := by
    rw [round_eq_iff]
    norm_num
  have habs := congrArg (|·|) hvalue
  rw [abs_roundAway, hscale, Stored.oneDigit_value, Stored.oneDigit_value, hround] at habs
  norm_num [NumericData.value, setVarFromNum, NumericVar.value, unpack, magnitude] at habs

end

end WeaverDB.Numeric
