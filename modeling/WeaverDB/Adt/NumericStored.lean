import Mathlib.Algebra.Order.Archimedean.Basic
import WeaverDB.Adt.NumericDigits

/-! # Stored numbers

`make_result` cuts a variable at its scale, strips the zeros and packs two digits into a byte. The
result is the variable at its scale iff the weight fits into 16 bits (`makeResult_value`).
-/

namespace WeaverDB.Numeric
open Foundations List

variable {l : List ℕ}

/-! ## Packed digits -/

theorem unpack_pack_getD (l : List ℕ) (i : ℕ) : (unpack (pack l)).getD i 0 = l.getD i 0 := by
  fun_induction pack l generalizing i with
  | case1 => rfl
  | case2 d =>
    rcases i with _ | _ | i <;> rfl
  | case3 d e l ih =>
    obtain _ | _ | i := i
    · rfl
    · rfl
    · exact ih i

theorem pack_decimal (h : IsDecimal l) : ∀ digitpair ∈ pack l, digitpair.1 < 10 ∧ digitpair.2 < 10 := by
  fun_induction pack l with
  | case1 => exact forall_mem_nil _
  | case2 d =>
    exact forall_mem_cons.mpr ⟨⟨h d (.head _), Nat.zero_lt_succ 9⟩, forall_mem_nil _⟩
  | case3 d e l ih =>
    exact forall_mem_cons.mpr ⟨⟨h d (.head _), h.tail e (.head _)⟩, ih h.tail.tail⟩

theorem unpack_decimal {nData : List (ℕ × ℕ)}
    (h : ∀ digitpair ∈ nData, digitpair.1 < 10 ∧ digitpair.2 < 10) : IsDecimal (unpack nData) := by
  intro d hd
  obtain ⟨p, hp, hd⟩ := mem_flatMap.mp hd
  obtain ⟨h1, h2⟩ := h p hp
  obtain rfl | hd := mem_cons.mp hd
  · exact h1
  · rwa [mem_singleton.mp hd]

theorem pack_eq_nil : pack l = [] ↔ l = [] := by
  fun_cases pack l <;> simp

theorem pack_head (h : ∀ d ∈ l.head?, d ≠ 0) : ∀ digitpair ∈ (pack l).head?, digitpair.1 ≠ 0 := by
  fun_cases pack l with
  | case1 => exact fun _ hp => absurd hp (by simp)
  | case2 d => simpa using h
  | case3 d e l => simpa using h

theorem pack_last (h : ∀ d ∈ l.getLast?, d ≠ 0) : ∀ digitpair ∈ (pack l).getLast?, digitpair ≠ (0, 0) := by
  fun_induction pack l with
  | case1 => exact fun _ hp => absurd hp (by simp)
  | case2 d => simpa using h
  | case3 d e l ih =>
    cases l with
    | nil =>
      have he : e ≠ 0 := by simpa using h
      simp [pack, he]
    | cons c l =>
      have hne : pack (c :: l) ≠ [] := by simp [pack_eq_nil]
      rw [List.getLast?_cons_of_ne_nil hne]
      exact ih (by simpa using h)

/-! ## What `make_result` keeps -/

section
variable {v : NumericVar}

def cutDigits (v : NumericVar) : List ℕ := v.digits.take (max 0 (min v.ndigits (v.weight + v.rscale + 1))).toNat

theorem cutDigits_units (v : NumericVar) : units (cutDigits v) v.weight v.rscale = v.units v.rscale := by
  unfold cutDigits NumericVar.units units
  by_cases hlen : v.ndigits ≤ v.weight + v.rscale + 1
  · rw [take_of_length_le (by simp only [NumericVar.ndigits] at hlen ⊢; omega)]
  · have hn : (max 0 (min v.ndigits (v.weight + v.rscale + 1))).toNat = (v.rscale + v.weight + 1).toNat := by omega
    rw [hn, lead_take]

theorem cutDigits_endsAt (v : NumericVar) : EndsAt (cutDigits v) v.weight v.rscale := by
  by_cases hpos : 0 ≤ v.weight + v.rscale + 1
  · refine endsAt_of_length ?_
    rw [cutDigits, length_take]
    omega
  · have hnil : cutDigits v = [] := by
      rw [cutDigits, show (max 0 (min v.ndigits (v.weight + v.rscale + 1))).toNat = 0 by omega, take_zero]
    rw [hnil]
    exact fun i _ => by simp [digitAt]

theorem cutDigits_decimal (h : IsDecimal v.digits) : IsDecimal (cutDigits v) := fun d hd => h d (mem_of_mem_take hd)

def keptDigits (v : NumericVar) : List ℕ := (stripZeros (cutDigits v) v.weight).1

def keptWeight (v : NumericVar) : ℤ := if keptDigits v = [] then 0 else (stripZeros (cutDigits v) v.weight).2

theorem kept_magnitude (v : NumericVar) : magnitude (keptDigits v) (keptWeight v) = v.units v.rscale / 10^v.rscale := by
  have hends : EndsAt (keptDigits v) (keptWeight v) v.rscale :=
    endsAt_nil_weight (stripZeros_endsAt (cutDigits_endsAt v))
  rw [hends.magnitude_eq, keptWeight, units_nil_weight, keptDigits, stripZeros_units, cutDigits_units]

theorem makeResult_eq (hsign : v.sign ≠ .nan) : makeResult v = ⟨(keptWeight v).bmod (2^16), (v.rscale % 2^16).toNat,
      if keptDigits v = [] then .pos else v.sign, (v.dscale % 2^14).toNat, pack (keptDigits v)⟩ := by
  rw [makeResult, if_neg hsign]
  rfl

theorem makeResult_canonical (hsign : v.sign ≠ .nan) : (makeResult v).Canonical := by
  rw [makeResult_eq hsign]
  refine ⟨pack_head stripZeros_head, pack_last stripZeros_last, fun hnil => ?_⟩
  have hkept : keptDigits v = [] := pack_eq_nil.mp hnil
  exact ⟨by simp [keptWeight, hkept], by simp [hkept]⟩

theorem makeResult_notNan (hsign : v.sign ≠ .nan) : (makeResult v).nSign ≠ .nan := by
  rw [makeResult_eq hsign]
  split
  · nofun
  · exact hsign

def Fits (m : ℚ) : Prop := m = 0 ∨ ∃ w : ℤ, -2^15 ≤ w ∧ w < 2^15 ∧ 10^w ≤ m ∧ m < 10^(w+1)

theorem exponent_unique {m : ℚ} {w w' : ℤ} (hle : 10^w ≤ m) (hlt : m < 10^(w+1))
    (hle' : 10^w' ≤ m) (hlt' : m < 10^(w'+1)) : w = w' := by
  have h1 := (zpow_lt_zpow_iff_right₀ (by norm_num : (1 : ℚ) < 10)).mp (hle.trans_lt hlt')
  have h2 := (zpow_lt_zpow_iff_right₀ (by norm_num : (1 : ℚ) < 10)).mp (hle'.trans_lt hlt)
  omega

theorem bmod_eq_self_iff (w : ℤ) : w.bmod (2^16) = w ↔ -2^15 ≤ w ∧ w < 2^15 := by
  have hlo := Int.le_bmod (x := w) (m := 2^16) (by decide)
  have hhi := Int.bmod_lt (x := w) (m := 2^16) (by decide)
  constructor
  · omega
  · rintro ⟨h1, h2⟩
    exact Int.bmod_eq_of_le (by omega) (by omega)

theorem keptWeight_iff (h : IsDecimal v.digits) :
    (keptWeight v).bmod (2^16) = keptWeight v ↔ Fits (v.units v.rscale / 10^v.rscale) := by
  rw [← kept_magnitude, bmod_eq_self_iff]
  by_cases hnil : keptDigits v = []
  · simp [keptWeight, hnil, Fits, magnitude]
  · have hhead : (keptDigits v).getD 0 0 ≠ 0 := stripZeros_first hnil
    have hdec : IsDecimal (keptDigits v) := stripZeros_decimal (cutDigits_decimal h) _
    have hle := le_magnitude hhead (keptWeight v)
    have hlt := magnitude_lt hdec (keptWeight v)
    constructor
    · rintro ⟨h1, h2⟩
      exact .inr ⟨_, h1, h2, hle, hlt⟩
    · rintro (hzero | ⟨w, h1, h2, hle', hlt'⟩)
      · exact absurd hzero (ne_of_gt ((by positivity : (0 : ℚ) < 10^keptWeight v).trans_le hle))
      · rw [exponent_unique hle hlt hle' hlt']
        exact ⟨h1, h2⟩

theorem makeResult_value (hsign : v.sign ≠ .nan) :
    (makeResult v).value = v.sign.factor * (v.units v.rscale / 10^v.rscale) *
      10^((keptWeight v).bmod (2^16) - keptWeight v) := by
  have hmag : magnitude (unpack (pack (keptDigits v))) ((keptWeight v).bmod (2^16)) =
      magnitude (keptDigits v) (keptWeight v) * 10^((keptWeight v).bmod (2^16) - keptWeight v) := by
    rw [magnitude_congr (unpack_pack_getD _), magnitude_weight, magnitude_weight _ (keptWeight v),
      mul_assoc, ← zpow_add₀ (by norm_num)]
    congr 2
    omega
  rw [makeResult_eq hsign, NumericData.value, setVarFromNum, NumericVar.value]
  simp only
  rw [hmag, ← kept_magnitude, mul_assoc]
  split
  · next hnil => simp [hnil, magnitude]
  · rfl

theorem makeResult_value_of_fits (hsign : v.sign ≠ .nan) (h : IsDecimal v.digits)
    (hfits : Fits (v.units v.rscale / 10^v.rscale)) :
    (makeResult v).value = v.sign.factor * (v.units v.rscale / 10^v.rscale) := by
  rw [makeResult_value hsign, (keptWeight_iff h).mpr hfits, sub_self, zpow_zero, mul_one]

theorem Sign.factor_ne_zero (sign : Sign) : sign.factor ≠ 0 := by
  unfold Sign.factor
  split <;> norm_num

theorem makeResult_value_of_not_fits (hsign : v.sign ≠ .nan) (h : IsDecimal v.digits)
    (hfits : ¬ Fits (v.units v.rscale / 10^v.rscale)) :
    (makeResult v).value ≠ v.sign.factor * (v.units v.rscale / 10^v.rscale) := by
  have hweight : (keptWeight v).bmod (2^16) - keptWeight v ≠ 0 := by
    rw [sub_ne_zero, Ne, keptWeight_iff h]
    exact hfits
  have hm : (v.units v.rscale / 10^v.rscale : ℚ) ≠ 0 := fun hz => hfits (.inl hz)
  have hone : (10 : ℚ)^((keptWeight v).bmod (2^16) - keptWeight v) ≠ 1 := by
    rw [Ne, zpow_eq_one_iff_right₀ (by norm_num) (by norm_num)]
    exact hweight
  rw [makeResult_value hsign]
  intro heq
  exact hone (mul_left_cancel₀ (mul_ne_zero v.sign.factor_ne_zero hm) (heq.trans (mul_one _).symm))

/-- **Stored numbers.** What `make_result` stores is a well-formed number. -/
theorem makeResult_stored (hsign : v.sign ≠ .nan) (h : IsDecimal v.digits)
    (hscale : 0 ≤ v.rscale ∧ v.rscale < 2^16) (hfits : Fits (v.units v.rscale / 10^v.rscale)) :
    ∃ num : Stored, num.toNumericData = makeResult v := by
  have hcanonical := makeResult_canonical hsign
  have hnotNan := makeResult_notNan hsign
  have hweight := (keptWeight_iff h).mpr hfits
  have hdec : IsDecimal (keptDigits v) := stripZeros_decimal (cutDigits_decimal h) _
  have hends : EndsAt (keptDigits v) (keptWeight v) v.rscale :=
    endsAt_nil_weight (stripZeros_endsAt (cutDigits_endsAt v))
  rw [makeResult_eq hsign, hweight] at hcanonical hnotNan ⊢
  refine ⟨⟨_, pack_decimal hdec, hcanonical, hnotNan, (bmod_eq_self_iff _).mp hweight, ?_, ?_, ?_⟩, rfl⟩
  · show (v.rscale % 2^16).toNat < 2^16
    omega
  · show (v.dscale % 2^14).toNat < 2^14
    omega
  · intro i hi
    have hmod : ((v.rscale % 2^16).toNat : ℤ) = v.rscale := by omega
    have hz := hends i (by simpa only [hmod] using hi)
    unfold digitAt at hz ⊢
    rw [unpack_pack_getD]
    exact hz

/-- 07.25 with one place is stored as 7.2. -/
theorem makeResult_stored_seven : ∃ num : Stored, num.toNumericData = makeResult ⟨1, 1, 1, .pos, [0, 7, 2, 5]⟩ := by
  refine makeResult_stored Sign.noConfusion (by simp [IsDecimal]) (by decide)
    (.inr ⟨0, by decide, by decide, ?_⟩)
  have hunits : NumericVar.units ⟨1, 1, 1, .pos, [0, 7, 2, 5]⟩ 1 = 72 := by decide
  rw [hunits]
  norm_num

end

/-! ## Arguments -/

def NumericVar.abs (v : NumericVar) : ℚ := magnitude v.digits v.weight

theorem NumericVar.Exact.abs_eq {v : NumericVar} {E : ℤ} (h : v.Exact E) : v.abs = v.units E / 10^E :=
  h.ends.magnitude_eq

theorem NumericVar.abs_nonneg (v : NumericVar) : 0 ≤ v.abs := magnitude_nonneg _ _

theorem Sign.abs_factor (sign : Sign) : |sign.factor| = 1 := by
  unfold Sign.factor
  split <;> norm_num

namespace Stored

def arg (a : Stored) : NumericVar := setVarFromNum a.toNumericData

variable (a : Stored)

theorem arg_decimal : IsDecimal a.arg.digits := unpack_decimal a.digit

theorem value_eq : a.value = a.nSign.factor*a.arg.abs := rfl

theorem abs_value : |a.value| = a.arg.abs := by
  rw [value_eq, abs_mul, Sign.abs_factor, one_mul, abs_of_nonneg a.arg.abs_nonneg]

theorem arg_head (h : a.arg.digits ≠ []) : a.arg.digits.getD 0 0 ≠ 0 := by
  cases hd : a.nData with
  | nil => exact absurd (by simp [arg, setVarFromNum, unpack, hd]) h
  | cons p l =>
    have hdigits : a.arg.digits = p.1 :: p.2 :: unpack l := by
      simp [arg, setVarFromNum, unpack, hd]
    rw [hdigits]
    exact a.canonical.head p (hd ▸ rfl)

theorem arg_nil_iff : a.arg.digits = [] ↔ a.value = 0 := by
  rw [← abs_eq_zero, abs_value]
  constructor
  · intro hnil
    simp [NumericVar.abs, magnitude, hnil]
  · intro hzero
    by_contra hne
    have hpos : (0 : ℚ) < 10^a.arg.weight := by positivity
    exact ne_of_gt (hpos.trans_le (le_magnitude (a.arg_head hne) a.arg.weight)) hzero

def oneDigit (d w : ℕ) (hd : 0 < d ∧ d < 10) (hw : w < 2^15) : Stored where
  nWeight := w
  nRscale := 0
  nSign := .pos
  nDscale := 0
  nData := [(d, 0)]
  digit := forall_mem_cons.mpr ⟨⟨hd.2, Nat.zero_lt_succ 9⟩, forall_mem_nil _⟩
  canonical := ⟨by simp; omega, by simp; omega, nofun⟩
  notNan := nofun
  weight16 := by omega
  rscale16 := by decide
  dscale14 := by decide
  scaled := by
    intro i hi
    by_cases htwo : 2 ≤ i
    · exact digitAt_of_length_le (by simpa [unpack] using htwo)
    · obtain rfl : i = 1 := by omega
      rfl

theorem oneDigit_value (d w : ℕ) (hd : 0 < d ∧ d < 10) (hw : w < 2^15) : (oneDigit d w hd hw).value = d*10^w := by
  have hmag : (oneDigit d w hd hw).arg.abs = d*10 * 10^((w : ℤ) + 1 - 2) := by
    simp [NumericVar.abs, arg, setVarFromNum, oneDigit, unpack, magnitude, lead]
  rw [value_eq, hmag, mul_assoc, ← zpow_one_add₀ (by norm_num), show 1 + ((w : ℤ) + 1 - 2) = w by omega]
  simp [oneDigit, Sign.factor]

end Stored

end WeaverDB.Numeric
