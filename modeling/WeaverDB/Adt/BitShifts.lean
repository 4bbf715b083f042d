import WeaverDB.Adt.BitResults

/-! # Shifts and substrings of bit strings

`leftOk`, `rightOk` and `substrOk` are the arguments with which the shifts and `bitsubstr` are right;
`Operation.Sound` puts together what has been found about all operators.
-/

namespace WeaverDB.VarBits
open Foundations List Nat Option Int

/-! ## The conditions -/

def leftOk (a : BitString) (k : Nat) : Prop := k % 8 ≠ 0 ∨ k ≤ 8*a.bytes.length

def rightOk (a : BitString) (k : Nat) : Prop :=
  k ≤ 8*a.bytes.length ∧ ∀ i < a.bits.length, a.bits.length ≤ i+k → i + k < 8*a.bytes.length →
    a.bits.getD i false = false

def substrOk (n : Nat) (s l : Int) : Prop :=
  n = 0 ∨ n < s ∨
  -- no overflow: the length is not negative, or the slice ends before the first bit
  (n+1 < 2^31 ∧ -2^31 ≤ s+l ∧ s + l < 2^31 ∧ (s+l < 1 ∨ max s 1 ≤ s+l)) ∨
  -- the end of the string overflows, and the slice is empty
  (n+1 = 2^31 ∧ s + l ≤ max s 1) ∨
  -- the end of the slice overflows, but stands at the first bit
  (n+1 < 2^31 ∧ s + l + 2^32 ≤ 1)

def Operation.Sound : Operation → Prop
  | .cat arg1 arg2 => arg1.bitlen+arg2.bitlen < 2^31
  | .substr arg s l => substrOk arg.bits.length s.toInt l.toInt
  | .and _ _ => True
  | .or _ _ | .xor _ _ | .not _ => False
  | .shiftleft arg shft =>
    if 0 ≤ shft.toInt then leftOk arg shft.toInt.toNat
    else shft ≠ Int32.minValue ∧ rightOk arg (-shft.toInt).toNat
  | .shiftright arg shft =>
    if 0 ≤ shft.toInt then rightOk arg shft.toInt.toNat
    else shft ≠ Int32.minValue ∧ leftOk arg (-shft.toInt).toNat

/-! ## Shifts by a number that is not negative -/

section

variable (l : List Bool) (k i : Nat)

theorem shiftLeftBits_length : (shiftLeftBits l k).length = l.length := by
  rw [shiftLeftBits, length_append, length_drop, length_replicate]
  omega

theorem shiftRightBits_length : (shiftRightBits l k).length = l.length := by
  rw [shiftRightBits, length_append, length_take, length_replicate]
  omega

theorem getD_replicate_false (n : Nat) : (List.replicate n false).getD i false = false := by
  rw [getD_eq_getElem?_getD, List.getElem?_replicate]
  split <;> rfl

theorem shiftLeftBits_getD : (shiftLeftBits l k).getD i false = l.getD (i+k) false := by
  rw [shiftLeftBits]
  obtain h | h := Nat.lt_or_ge i (l.length-k)
  · rw [getD_append _ _ _ _ (by rw [length_drop]; exact h)]
    simp only [getD_eq_getElem?_getD, List.getElem?_drop, Nat.add_comm]
  · rw [getD_append_right _ _ _ _ (by rw [length_drop]; exact h), getD_replicate_false, getD_eq_default _ _ (by omega)]

theorem shiftRightBits_getD : (shiftRightBits l k).getD i false =
    (decide (k ≤ i ∧ i < l.length) && l.getD (i-k) false) := by
  rw [shiftRightBits]
  obtain h | h := Nat.lt_or_ge i (min k l.length)
  · rw [getD_append _ _ _ _ (by rw [length_replicate]; exact h), getD_replicate_false,
      decide_eq_false (by omega), Bool.false_and]
  · rw [getD_append_right _ _ _ _ (by rw [length_replicate]; exact h), length_replicate]
    by_cases hin : k ≤ i ∧ i < l.length
    · have hk : i - min k l.length = i-k := by omega
      rw [decide_eq_true hin, Bool.true_and, hk]
      simp only [getD_eq_getElem?_getD]
      rw [List.getElem?_take_of_lt (by omega)]
    · rw [decide_eq_false hin]
      refine getD_eq_default _ _ ?_
      rw [length_take]
      omega

end

section

variable (a : BitString) (garbage : Nat → Bits8) (k : Nat)

theorem copy_zeros (dst : Block Bits8) (f : Nat → Bits8) (len n : Nat) (h : len + n = dst.size) :
    ((dst.copy 0 f len).copy len (fun _ => 0) n).stray = dst.stray ∧
    ((dst.copy 0 f len).copy len (fun _ => 0) n).size = dst.size ∧
    ∀ i < 8*dst.size, blockBit ((dst.copy 0 f len).copy len (fun _ => 0) n) i =
      if i / 8 < len then (f (i/8)).getMsbD (i % 8) else false := by
  refine ⟨?_, ?_, fun i hi => ?_⟩
  · rw [Block.copy_stray _ (by rw [Block.copy_size]; omega), Block.copy_stray _ (by omega)]
  · rw [Block.copy_size, Block.copy_size]
  · rw [blockBit, Block.copy_data, Block.copy_data]
    by_cases hin : i / 8 < len
    · rw [if_neg (by omega), if_pos (by omega), if_pos hin, Nat.sub_zero]
    · rw [if_pos (by omega), if_neg hin]
      exact BitVec.getMsbD_zero

theorem shiftLeftBy_eq (h : leftOk a k) : ∃ made, shiftLeftBy garbage a.toVarBit k = some made ∧
    made.bitlen = a.bitlen ∧ made.block.stray = false ∧ made.block.size = a.bytes.length ∧
    ∀ i < 8*a.bytes.length, blockBit made.block i = a.bit (i+k) := by
  have hsize : (pallocLike garbage a.toVarBit).size = a.bytes.length := rfl
  have hzero (i : Nat) (hi : ¬ i / 8 < a.bytes.length - k / 8) : a.bit (i+k) = false := VarBit.bit_of_ge (by omega)
  unfold shiftLeftBy
  dsimp only
  split
  · next hshift =>
    have hle : ¬ a.bytes.length < k / 8 := by
      rcases h with h | h <;> omega
    obtain ⟨hstray, hmade, hbit⟩ := copy_zeros (pallocLike garbage a.toVarBit)
      (fun i => a.data (k / 8 + i)) (a.bytes.length - k / 8) (k/8) (by omega)
    rw [if_neg hle]
    refine ⟨_, rfl, rfl, hstray, hmade, fun i hi => ?_⟩
    rw [hbit i hi]
    split
    · have hdiv : k / 8 + i / 8 = (i+k) / 8 := by omega
      have hmod : i % 8 = (i+k) % 8 := by omega
      rw [hdiv, hmod, VarBit.bit]
    · next hin => rw [hzero i hin]
  · obtain ⟨hstray, hmade, hbit⟩ := copy_zeros (pallocLike garbage a.toVarBit)
      (shiftedByte a.toVarBit (k/8) (k % 8)) (a.bytes.length - k / 8)
      (a.bytes.length - (a.bytes.length - k / 8)) (by omega)
    refine ⟨_, rfl, rfl, hstray, hmade, fun i hi => ?_⟩
    rw [hbit i hi]
    split
    · have hindex : 8 * (k/8) + k % 8 + (8 * (i/8) + i % 8) = i+k := by omega
      rw [shiftedByte_bit _ _ (mod_lt _ (by decide)) (mod_lt _ (by decide)), hindex]
    · next hin => rw [hzero i hin]

theorem shiftLeftBy_none (h : ¬ leftOk a k) : shiftLeftBy garbage a.toVarBit k = none := by
  rw [leftOk, not_or, Decidable.not_not] at h
  unfold shiftLeftBy
  rw [if_pos h.1, if_pos (by omega)]

theorem bytesBit_take (v : VarBit) {len q : Nat} (h : q < 8*len) : bytesBit (v.bytes.take len) q = v.bit q := by
  rw [bytesBit, VarBit.bit, VarBit.data, getD_eq_getElem?_getD, getD_eq_getElem?_getD,
    List.getElem?_take_of_lt (by omega)]

theorem shiftRightBy_eq (h : k ≤ 8*a.bytes.length) : ∃ made, shiftRightBy garbage a.toVarBit k = some made ∧
      made.bitlen = a.bitlen ∧ made.block.stray = false ∧ made.block.size = a.bytes.length ∧
      ∀ i < 8*a.bytes.length, blockBit made.block i = (decide (k ≤ i) && a.bit (i-k)) := by
  have hsize : (pallocLike garbage a.toVarBit).size = a.bytes.length := rfl
  have hstray : ((pallocLike garbage a.toVarBit).copy 0 (fun _ => 0) (k/8)).stray = false :=
    Block.copy_stray _ (by omega)
  unfold shiftRightBy
  dsimp only
  split
  · rw [if_neg (by omega)]
    refine ⟨_, rfl, rfl, ?_, by rw [Block.copy_size, Block.copy_size, hsize], fun i hi => ?_⟩
    · rw [Block.copy_stray _ (by rw [Block.copy_size]; omega), hstray]
    · rw [blockBit, Block.copy_data, Block.copy_data]
      by_cases hin : k ≤ i
      · have hdiv : i / 8 - k / 8 = (i-k) / 8 := by omega
        have hmod : i % 8 = (i-k) % 8 := by omega
        rw [if_pos (by omega), decide_eq_true hin, Bool.true_and, hdiv, hmod, VarBit.bit]
      · rw [if_neg (by omega), if_pos (by omega), decide_eq_false hin]
        exact BitVec.getMsbD_zero
  · next hshift =>
    have htake : (a.bytes.take (a.bytes.length - k / 8)).length = a.bytes.length - k / 8 := by
      rw [length_take]
      omega
    have hsize₁ : (((pallocLike garbage a.toVarBit).copy 0 (fun _ => 0) (k/8)).store (k/8) 0).size =
        a.bytes.length := Block.copy_size ..
    refine ⟨_, rfl, rfl, ?_, by rw [spread_size, hsize₁], fun i hi => ?_⟩
    · rw [spread_stray (by omega), Block.store_stray (by rw [Block.copy_size]; omega), hstray]
    · by_cases hbefore : i < 8 * (k/8)
      · rw [blockBit, spread_before _ _ (by omega), Block.store_data, if_neg (by omega),
          Block.copy_data, if_pos (by omega), decide_eq_false (by omega)]
        exact BitVec.getMsbD_zero
      · obtain ⟨t, rfl⟩ : ∃ t, i = 8 * (k/8) + t := ⟨i-8 * (k/8), by omega⟩
        have hzero : (decide (t < 8) && blockBit
            (((pallocLike garbage a.toVarBit).copy 0 (fun _ => 0) (k/8)).store (k/8) 0) (8 * (k/8) + t)) = false := by
          by_cases h8 : t < 8
          · have hbyte : BitVec.getMsbD (0 : Bits8) t = false := BitVec.getMsbD_zero
            rw [blockBit_of_byte _ _ h8, Block.store_data, if_pos rfl, hbyte, Bool.and_false]
          · rw [decide_eq_false h8, Bool.false_and]
        rw [spread_bit (mod_lt _ (by decide)) _ _ _ _ (by omega) (by omega), hzero, Bool.false_or]
        by_cases hin : k % 8 ≤ t
        · have hindex : t - k % 8 = 8 * (k/8) + t - k := by omega
          rw [decide_eq_true hin, decide_eq_true (by omega), bytesBit_take _ (by omega), hindex]
        · rw [decide_eq_false hin, decide_eq_false (by omega), Bool.false_and, Bool.false_and]

theorem shiftRightBy_strays {made : Made} (h : 8 * a.bytes.length < k)
    (hmade : shiftRightBy garbage a.toVarBit k = some made) : made.block.stray := by
  unfold shiftRightBy at hmade
  dsimp only at hmade
  split at hmade
  · rw [if_pos (by omega)] at hmade
    cases hmade
  · have hnone : a.bytes.length - k / 8 = 0 := by omega
    rw [hnone, take_zero, spread] at hmade
    rw [← some.inj hmade]
    have hle : ((pallocLike garbage a.toVarBit).copy 0 (fun _ => 0) (k/8)).size ≤ k / 8 := by
      rw [Block.copy_size]
      change a.bytes.length ≤ k / 8
      omega
    rw [Block.store, decide_eq_true hle, Bool.or_true]

theorem left_yields_iff (op : Operation) (hspec : op.spec = shiftLeftBits a.bits k) :
    (∀ garbage, ∃ made, shiftLeftBy garbage a.toVarBit k = some made ∧ op.Yields made) ↔ leftOk a k := by
  have hlen : op.spec.length = a.bits.length := by rw [hspec, shiftLeftBits_length]
  have ha := a.bits_length
  have hfits := a.wellFormed.fits
  constructor
  · intro h
    by_contra hnot
    obtain ⟨made, hmade, -⟩ := h fun _ => 0
    rw [shiftLeftBy_none a _ k hnot] at hmade
    cases hmade
  · intro h garbage
    obtain ⟨made, hmade, hbitlen, hstray, hsize, hbit⟩ := shiftLeftBy_eq a garbage k h
    refine ⟨made, hmade, yields_of_bit hstray (by omega) (by omega) ?_ fun i hi => ?_⟩
    · rw [hsize, hlen, a.bytes_length]
    · rw [hbit i (by omega), hspec, shiftLeftBits_getD, a.bit_eq]

theorem right_yields_iff (op : Operation) (hspec : op.spec = shiftRightBits a.bits k) :
    (∀ garbage, ∃ made, shiftRightBy garbage a.toVarBit k = some made ∧ op.Yields made) ↔ rightOk a k := by
  have hlen : op.spec.length = a.bits.length := by rw [hspec, shiftRightBits_length]
  have ha := a.bits_length
  have hfits := a.wellFormed.fits
  have hbytes := a.bytes_length
  constructor
  · intro h
    obtain ⟨made, hmade, hyields⟩ := h fun _ => 0
    have hle : k ≤ 8*a.bytes.length := by
      by_contra hgt
      have hinside := hyields.inside
      rw [shiftRightBy_strays a _ k (Nat.not_le.mp hgt) hmade] at hinside
      cases hinside
    refine ⟨hle, fun i hi hpad hin => ?_⟩
    obtain ⟨made', hmade', hbitlen, -, hsize, hbit⟩ := shiftRightBy_eq a (fun _ => 0) k hle
    have heq : made' = made := some.inj (hmade'.symm.trans hmade)
    subst heq
    have hclean := hyields.wellFormed.padding (i+k) (by
      change made'.bitlen.toNat ≤ i+k
      omega)
    rw [value_bit, hbit _ hin, decide_eq_true (by omega), decide_eq_true (by omega), Nat.add_sub_cancel,
      a.bit_eq] at hclean
    exact hclean
  · intro h garbage
    obtain ⟨made, hmade, hbitlen, hstray, hsize, hbit⟩ := shiftRightBy_eq a garbage k h.1
    refine ⟨made, hmade, yields_of_bit hstray (by omega) (by omega) ?_ fun i hi => ?_⟩
    · rw [hsize, hlen, hbytes]
    · rw [hbit i (by omega), hspec, shiftRightBits_getD, a.bit_eq]
      by_cases hin : k ≤ i
      · by_cases hend : i < a.bits.length
        · rw [decide_eq_true hin, decide_eq_true ⟨hin, hend⟩]
        · -- here a bit of the operand has come into the padding
          rw [decide_eq_true hin, decide_eq_false fun hboth => hend hboth.2]
          obtain hlt | hge := Nat.lt_or_ge (i-k) a.bits.length
          · exact h.2 (i-k) hlt (by omega) (by omega)
          · exact getD_eq_default _ _ hge
      · rw [decide_eq_false hin, decide_eq_false fun hboth => hin hboth.1]

end

/-! ## Shifts by any number -/

theorem right_iff_of_run {op : Operation} {f : (Nat → Bits8) → Option Made} (n : Nat)
    (hfew : ∀ garbage fuel, fuel < n → op.run garbage fuel = none)
    (hrun : ∀ garbage fuel, op.run garbage (fuel+n) = f garbage) :
    op.Right ↔ ∀ garbage, ∃ made, f garbage = some made ∧ op.Yields made := by
  refine forall_congr' fun garbage => ⟨?_, ?_⟩
  · rintro ⟨fuel, made, hmade, hyields⟩
    obtain hlt | hge := Nat.lt_or_ge fuel n
    · rw [hfew garbage fuel hlt] at hmade
      cases hmade
    · obtain ⟨rest, rfl⟩ := Nat.exists_eq_add_of_le' hge
      exact ⟨made, (hrun garbage rest).symm.trans hmade, hyields⟩
  · rintro ⟨made, hmade, hyields⟩
    exact ⟨0+n, made, (hrun garbage 0).trans hmade, hyields⟩

/-- The least number is its own negative: the functions call each other for ever. -/
theorem bitshift_minValue (garbage : Nat → Bits8) (arg : VarBit) (fuel : Nat) :
    bitshiftleft garbage arg fuel Int32.minValue = none ∧ bitshiftright garbage arg fuel Int32.minValue = none := by
  induction fuel with
  | zero => exact ⟨rfl, rfl⟩
  | succ fuel ih =>
    constructor
    · exact ih.2
    · exact ih.1

theorem not_right_of_none {op : Operation} (h : ∀ garbage fuel, op.run garbage fuel = none) : ¬ op.Right := by
  intro hright
  obtain ⟨fuel, made, hmade, -⟩ := hright fun _ => 0
  rw [h] at hmade
  cases hmade

theorem neg_toInt {shft : Int32} (h : shft ≠ Int32.minValue) : (-shft).toInt = -shft.toInt := by
  have hne : shft.toInt ≠ -2^31 := fun heq => h (Int32.toInt_inj.mp heq)
  have hle := shft.le_toInt
  have hlt := shft.toInt_lt
  rw [Int32.toInt_neg, bmod_eq_of_le] <;> omega

theorem lt_zero_iff {shft : Int32} : shft < 0 ↔ shft.toInt < 0 := Int32.lt_iff_toInt_lt

section

variable (a : BitString) {shft : Int32}

theorem shiftleft_right_iff : (Operation.shiftleft a shft).Right ↔ (Operation.shiftleft a shft).Sound := by
  rw [Operation.Sound]
  split
  · next hpos =>
    rw [← left_yields_iff a _ (.shiftleft a shft) (by rw [Operation.spec, shiftBits, if_pos hpos])]
    refine right_iff_of_run 1 (fun garbage fuel hfuel => ?_) fun garbage fuel => ?_
    · rw [lt_one_iff.mp hfuel]
      rfl
    · rw [Operation.run, bitshiftleft, if_neg (by rw [lt_zero_iff]; omega)]
  · next hneg =>
    by_cases hmin : shft = Int32.minValue
    · subst hmin
      refine iff_of_false (not_right_of_none fun garbage fuel => ?_) fun h => h.1 rfl
      exact (bitshift_minValue garbage a.toVarBit fuel).1
    · have hflip := neg_toInt hmin
      rw [and_iff_right hmin, ← right_yields_iff a _ (.shiftleft a shft)
        (by rw [Operation.spec, shiftBits, if_neg hneg])]
      refine right_iff_of_run 2 (fun garbage fuel hfuel => ?_) fun garbage fuel => ?_
      · cases fuel with
        | zero => rfl
        | succ fuel =>
          have hzero : fuel = 0 := by omega
          rw [Operation.run, bitshiftleft, if_pos (by rw [lt_zero_iff]; omega), hzero, bitshiftright]
      · rw [Operation.run, bitshiftleft, if_pos (by rw [lt_zero_iff]; omega), bitshiftright,
          if_neg (by rw [lt_zero_iff]; omega), hflip]

theorem shiftright_right_iff : (Operation.shiftright a shft).Right ↔ (Operation.shiftright a shft).Sound := by
  rw [Operation.Sound]
  split
  · next hpos =>
    have hspec : (Operation.shiftright a shft).spec = shiftRightBits a.bits shft.toInt.toNat := by
      rw [Operation.spec, shiftBits]
      split
      · next hzero =>
        have h0 : shft.toInt = 0 := by omega
        rw [h0]
        simp [shiftLeftBits, shiftRightBits]
      · rw [neg_neg]
    rw [← right_yields_iff a _ (.shiftright a shft) hspec]
    refine right_iff_of_run 1 (fun garbage fuel hfuel => ?_) fun garbage fuel => ?_
    · rw [lt_one_iff.mp hfuel]
      rfl
    · rw [Operation.run, bitshiftright, if_neg (by rw [lt_zero_iff]; omega)]
  · next hneg =>
    by_cases hmin : shft = Int32.minValue
    · subst hmin
      refine iff_of_false (not_right_of_none fun garbage fuel => ?_) fun h => h.1 rfl
      exact (bitshift_minValue garbage a.toVarBit fuel).2
    · have hflip := neg_toInt hmin
      rw [and_iff_right hmin, ← left_yields_iff a _ (.shiftright a shft)
        (by rw [Operation.spec, shiftBits, if_pos (by omega)])]
      refine right_iff_of_run 2 (fun garbage fuel hfuel => ?_) fun garbage fuel => ?_
      · cases fuel with
        | zero => rfl
        | succ fuel =>
          have hzero : fuel = 0 := by omega
          rw [Operation.run, bitshiftright, if_pos (by rw [lt_zero_iff]; omega), hzero, bitshiftleft]
      · rw [Operation.run, bitshiftright, if_pos (by rw [lt_zero_iff]; omega), bitshiftleft,
          if_neg (by rw [lt_zero_iff]; omega), hflip]

end

/-! ## Substrings -/

theorem mask_bit (p j : Nat) : (0xFF#8 <<< p).getMsbD j = decide (j+p < 8) := by
  have hones : (0xFF#8).getMsbD (j+p) = decide (j+p < 8) := BitVec.getMsbD_allOnes (v := 8)
  rw [BitVec.getMsbD_shiftLeft, hones]

theorem maskLast_spec {b : Block Bits8} {r : Nat} (h : b.size = (r+7) / 8) :
    (maskLast r b).stray = b.stray ∧ (maskLast r b).size = b.size ∧
    ∀ i < 8*b.size, blockBit (maskLast r b) i = (decide (i < r) && blockBit b i) := by
  unfold maskLast
  dsimp only
  split
  · next hpad =>
    rw [if_pos (by omega)]
    refine ⟨Block.store_stray (by omega), rfl, fun i hi => ?_⟩
    rw [blockBit, Block.store_data]
    by_cases hlast : i / 8 = b.size-1
    · have hmask : decide (i % 8 + (b.size * 8 - r : Int).toNat < 8) = decide (i < r) := by
        rw [decide_eq_decide]
        omega
      rw [if_pos hlast, BitVec.getMsbD_and, mask_bit, hmask, blockBit, hlast, Bool.and_comm]
    · rw [if_neg hlast, decide_eq_true (by omega), Bool.true_and, blockBit]
  · refine ⟨rfl, rfl, fun i hi => ?_⟩
    rw [decide_eq_true (by omega), Bool.true_and]

theorem slice_length (l : List Bool) (s k : Int) :
    (slice l s k).length = min (s + k - 1).toNat l.length - (s-1).toNat := by
  rw [slice, length_drop, length_take]

theorem slice_getD (l : List Bool) (s k : Int) (i : Nat) : (slice l s k).getD i false =
    (decide (i < (slice l s k).length) && l.getD ((s-1).toNat + i) false) := by
  have hlen := slice_length l s k
  by_cases h : i < (slice l s k).length
  · rw [decide_eq_true h, Bool.true_and, slice]
    simp only [getD_eq_getElem?_getD, List.getElem?_drop]
    rw [List.getElem?_take_of_lt (by omega)]
  · rw [decide_eq_false h, Bool.false_and, getD_eq_default _ _ (Nat.not_lt.mp h)]

theorem copyWindow_spec (arg : VarBit) (start r : Nat) (dst : Block Bits8)
    (hdst : dst.size = (r+7) / 8) : ∃ block, copyWindow arg start r dst = some block ∧
      block.stray = dst.stray ∧ block.size = (r+7) / 8 ∧
      ∀ i < 8*block.size, blockBit block i = (decide (i < r) && arg.bit (start+i)) := by
  have hcopy (f : Nat → Bits8) (hf : ∀ i j, j < 8 → (f i).getMsbD j = arg.bit (start + (8 * i + j))) :
      (maskLast r (dst.copy 0 f dst.size)).stray = dst.stray ∧
      (maskLast r (dst.copy 0 f dst.size)).size = (r+7) / 8 ∧
      ∀ i, i < 8 * (maskLast r (dst.copy 0 f dst.size)).size →
        blockBit (maskLast r (dst.copy 0 f dst.size)) i = (decide (i < r) && arg.bit (start+i)) := by
    have hsize : (dst.copy 0 f dst.size).size = (r+7) / 8 := (Block.copy_size ..).trans hdst
    obtain ⟨hstray, hsame, hbit⟩ := maskLast_spec hsize
    refine ⟨hstray.trans (Block.copy_stray _ (by omega)), hsame.trans hsize, fun i hi => ?_⟩
    rw [hsame] at hi
    rw [hbit i hi, blockBit, Block.copy_data, if_pos (by omega), hf _ _ (mod_lt _ (by decide)),
      Nat.sub_zero, div_add_mod]
  have hdata : ¬ varBitDataLen r < 8 := by
    rw [varBitDataLen, tdiv_eq_ediv_of_nonneg (by omega)]
    split <;> omega
  unfold copyWindow
  dsimp only
  split
  · refine ⟨_, rfl, hcopy _ fun i j hj => ?_⟩
    have hindex : start + (8 * i + j) = 8 * (start / 8 + i) + j := by omega
    rw [hindex, VarBit.bit_of_byte _ _ hj]
  · refine ⟨_, rfl, hcopy _ fun i j hj => ?_⟩
    have hindex : start + (8 * i + j) = 8 * (start/8) + start % 8 + (8 * i + j) := by omega
    rw [hindex]
    exact shiftedByte_bit _ _ hj (mod_lt _ (by decide))

section

variable (a : BitString) (garbage : Nat → Bits8) (s l : Int32)

theorem bitsubstr_null (h : max s.toInt 1 > a.bitlen ∨ sliceEnd a.toVarBit s l < 1) :
    bitsubstr garbage a.toVarBit s l = some ⟨0, ⟨0, garbage, false⟩⟩ := by
  have hempty := palloc_eq garbage 0
  unfold bitsubstr
  rw [if_pos h]
  exact congrArg (Option.map (Made.mk 0)) hempty

section

variable (h : ¬ (max s.toInt 1 > a.bitlen ∨ sliceEnd a.toVarBit s l < 1))
include h

theorem bitsubstr_negative {made : Made} (hlt : sliceEnd a.toVarBit s l < max s.toInt 1)
    (hmade : bitsubstr garbage a.toVarBit s l = some made) : made.bitlen < 0 := by
  unfold bitsubstr at hmade
  rw [if_neg h] at hmade
  obtain ⟨block, -, hmade⟩ := bind_eq_some_iff.mp hmade
  obtain ⟨block', -, rfl⟩ := map_eq_some_iff.mp hmade
  change sliceEnd a.toVarBit s l - max s.toInt 1 < 0
  omega

theorem bitsubstr_window {r : Nat} (hr : sliceEnd a.toVarBit s l - max s.toInt 1 = r) :
    ∃ made, bitsubstr garbage a.toVarBit s l = some made ∧ made.bitlen = r ∧
      made.block.stray = false ∧ made.block.size = (r+7) / 8 ∧
      ∀ i, i < 8*made.block.size →
        blockBit made.block i = (decide (i < r) && a.bit ((max s.toInt 1 - 1).toNat + i)) := by
  obtain ⟨block, hblock, hrest⟩ := copyWindow_spec a.toVarBit (max s.toInt 1 - 1).toNat r
    ⟨(r+7) / 8, garbage, false⟩ rfl
  refine ⟨⟨r, block⟩, ?_, rfl, hrest⟩
  unfold bitsubstr
  dsimp only
  rw [if_neg h, hr, palloc_eq, bind_some, hblock, map_some]

end

theorem int32_cases {x : Int} (hle : -2^32 ≤ x) (hlt : x < 2^32) :
    (-2^31 ≤ x ∧ x < 2^31 ∧ int32 x = x) ∨ (2^31 ≤ x ∧ int32 x = x-2^32) ∨ (x < -2^31 ∧ int32 x = x+2^32) := by
  rw [int32, bmod_def]
  split <;> omega

theorem substr_yields_null : (Operation.substr a s l).Yields ⟨0, ⟨0, garbage, false⟩⟩ ↔
    (slice a.bits s.toInt l.toInt).length = 0 := by
  constructor
  · intro h
    have hbits := congrArg List.length h.bits
    exact hbits.symm
  · intro h
    have hlen : (Operation.substr a s l).spec.length = 0 := h
    exact yields_of_bit rfl (by rw [hlen]; rfl) (by omega) (by rw [hlen]) fun i hi => absurd hi (not_lt_zero i)

theorem substr_right_iff : (Operation.substr a s l).Right ↔ (Operation.substr a s l).Sound := by
  have hlen := a.bits_length
  have hfits := a.wellFormed.fits
  have hs₁ := s.le_toInt
  have hs₂ := s.toInt_lt
  have hl₁ := l.le_toInt
  have hl₂ := l.toInt_lt
  have hslice := slice_length a.bits s.toInt l.toInt
  have hend := int32_cases (x := s.toInt+l.toInt) (by omega) (by omega)
  have hnext := int32_cases (x := a.bitlen+1) (by omega) (by omega)
  have hmin : sliceEnd a.toVarBit s l = min (int32 (s.toInt+l.toInt)) (int32 (a.bitlen+1)) := rfl
  rw [Operation.Sound, substrOk]
  by_cases hnull : max s.toInt 1 > a.bitlen ∨ sliceEnd a.toVarBit s l < 1
  · have hright : (Operation.substr a s l).Right ↔ (slice a.bits s.toInt l.toInt).length = 0 := by
      constructor
      · intro h
        obtain ⟨fuel, made, hmade, hyields⟩ := h fun _ => 0
        rw [Operation.run, bitsubstr_null a _ s l hnull] at hmade
        rw [← some.inj hmade] at hyields
        exact (substr_yields_null a _ s l).mp hyields
      · intro h garbage
        exact ⟨0, _, bitsubstr_null a garbage s l hnull, (substr_yields_null a garbage s l).mpr h⟩
    rw [hright]
    clear hright
    rcases hend with hend | hend | hend <;> rcases hnext with hnext | hnext | hnext <;> omega
  · by_cases hneg : sliceEnd a.toVarBit s l < max s.toInt 1
    · refine iff_of_false (fun h => ?_) (by omega)
      obtain ⟨fuel, made, hmade, hyields⟩ := h fun _ => 0
      have hbad := bitsubstr_negative a _ s l hnull hneg hmade
      exact absurd hyields.wellFormed.nonneg (Int.not_le.mpr hbad)
    · obtain ⟨r, hr⟩ := eq_ofNat_of_zero_le (a := sliceEnd a.toVarBit s l - max s.toInt 1) (by omega)
      have hright : (Operation.substr a s l).Right ↔ (slice a.bits s.toInt l.toInt).length = r := by
        constructor
        · intro h
          obtain ⟨fuel, made, hmade, hyields⟩ := h fun _ => 0
          obtain ⟨made', hmade', hbitlen, -⟩ := bitsubstr_window a (fun _ => 0) s l hnull hr
          have heq : made' = made := some.inj (hmade'.symm.trans hmade)
          have hbits := congrArg List.length hyields.bits
          rw [VarBit.bits_length, ← heq] at hbits
          have hcount : made'.value.bitlen.toNat = r := by
            change made'.bitlen.toNat = r
            omega
          exact hbits.symm.trans hcount
        · intro h garbage
          obtain ⟨made, hmade, hbitlen, hstray, hsize, hbit⟩ := bitsubstr_window a garbage s l hnull hr
          have hspec : (Operation.substr a s l).spec.length = r := h
          refine ⟨0, made, hmade, yields_of_bit hstray (by omega) (by omega) (by omega) fun i hi => ?_⟩
          have hstart : (s.toInt-1).toNat = (max s.toInt 1 - 1).toNat := by omega
          rw [hbit i hi, Operation.spec, slice_getD, h, a.bit_eq, hstart]
      rw [hright]
      clear hright
      rcases hend with hend | hend | hend <;> rcases hnext with hnext | hnext | hnext <;> omega

end

/-! ## All operators -/

/-- **Bit operators.** An operator is right iff its arguments are sound; `biteq` compares results by their bits. -/
theorem operators_right_iff (op : Operation) :
    (op.Right ↔ op.Sound) ∧
    (∀ (other : Operation) (made₁ made₂ : Made), op.Yields made₁ → other.Yields made₂ →
      (biteq made₁.value made₂.value ↔ op.spec = other.spec)) := by
  refine ⟨?_, fun other made₁ made₂ h₁ h₂ => ?_⟩
  · cases op with
    | cat a b => exact cat_right_iff a b
    | substr a s l => exact substr_right_iff a s l
    | and a b => exact iff_of_true (and_right a b) trivial
    | or a b => exact iff_of_false (or_not_right a b) id
    | xor a b => exact iff_of_false (xor_not_right a b) id
    | not a => exact iff_of_false (not_not_right a) id
    | shiftleft a shft => exact shiftleft_right_iff a
    | shiftright a shft => exact shiftright_right_iff a
  · rw [biteq_iff h₁.wellFormed h₂.wellFormed, h₁.bits, h₂.bits]

/-! ## Sample values -/

def oneBit (bit : Bool) : BitString where
  bitlen := 1
  bytes := [if bit then 0x80 else 0]
  wellFormed := by
    refine ⟨Int.one_nonneg, show (1 : Int) < 2^31 by decide, by cases bit <;> decide, fun i hi => ?_⟩
    obtain hlt | hge := Nat.lt_or_ge i 8
    · have hpadding : ∀ bit : Bool, ∀ i < 8, 1 ≤ i →
          (⟨1, [if bit then 0x80 else 0]⟩ : VarBit).bit i = false := by decide
      exact hpadding bit i hlt hi
    · exact VarBit.bit_of_ge hge

theorem operators_right_iff_cat : (Operation.cat (oneBit true) (oneBit false)).Right :=
  (operators_right_iff _).1.mpr (by decide : (1 : Int) + 1 < 2^31)

/-- The complement of `1` has the bits of `0`, but it is not equal to `0`. -/
theorem bitnot_one_dirty :
    (bitnot (fun _ => 0) (oneBit true).toVarBit).value.bits = (oneBit false).bits ∧
    biteq (bitnot (fun _ => 0) (oneBit true).toVarBit).value (oneBit false).toVarBit = false ∧
    ¬ (Operation.not (oneBit true)).Right :=
  ⟨by decide, by decide, not_not_right _⟩

end WeaverDB.VarBits
