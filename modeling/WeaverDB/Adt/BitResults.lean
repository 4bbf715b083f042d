import WeaverDB.Adt.BitOperators

/-! # The results of the operators on bit strings

`bitshiftright` does not mask the bits that it moves into the padding, and writes outside when the shift
is larger than the block. `bitOr`, `bitxor` and `bitnot` mask the byte behind the last one, so they
always write outside, and leave the padding as it is.
-/

namespace WeaverDB.VarBits
open Foundations BitVec List

variable {i j r : Nat} {op : Operation} {result : Block Bits8}

def blockBit (b : Block Bits8) (i : Nat) : Bool := (b.data (i/8)).getMsbD (i % 8)

variable (made : Made)

theorem value_bit (i : Nat) : made.value.bit i = (decide (i < 8*made.block.size) && blockBit made.block i) := by
  rw [VarBit.bit, VarBit.data, Made.value, Block.toList_getD]
  by_cases h : i / 8 < made.block.size
  · rw [if_pos h, decide_eq_true (by omega), Bool.true_and, blockBit]
  · rw [if_neg h, decide_eq_false (by omega)]
    exact getMsbD_zero

theorem value_length : made.value.bytes.length = made.block.size := Block.toList_length _

theorem getMsbD_shift_left (x y : Bits8) {k : Nat} (hj : j < 8) (hk : k < 8) :
    (x <<< k ||| y >>> (8-k)).getMsbD j = if j + k < 8 then x.getMsbD (j+k) else y.getMsbD (j + k - 8) := by
  rw [getMsbD_or, getMsbD_shiftLeft, getMsbD_ushiftRight, decide_eq_true hj, Bool.true_and]
  by_cases h : j + k < 8
  · rw [if_pos h, decide_eq_true (by omega : j < 8-k), Bool.not_true, Bool.false_and, Bool.or_false]
  · have hindex : j + k - 8 = j - (8-k) := by omega
    rw [if_neg h, getMsbD_of_ge _ _ (by omega), decide_eq_false (by omega : ¬ j < 8-k),
      Bool.not_false, Bool.true_and, Bool.false_or, hindex]

theorem shiftedByte_bit (arg : VarBit) {byteShift ishift : Nat} (i : Nat) (hj : j < 8)
    (hk : ishift < 8) : (shiftedByte arg byteShift ishift i).getMsbD j =
      arg.bit (8 * byteShift + ishift + (8 * i + j)) := by
  have hnext : (if byteShift + i + 1 < arg.bytes.length then
      arg.data (byteShift + i + 1) >>> (8-ishift) else 0) =
      arg.data (byteShift + i + 1) >>> (8-ishift) := by
    split
    · rfl
    · have hzero : arg.data (byteShift + i + 1) = 0 := getD_eq_default _ _ (by omega)
      rw [hzero]
      exact (zero_ushiftRight).symm
  rw [shiftedByte, hnext, getMsbD_shift_left _ _ hj hk]
  by_cases h : j + ishift < 8
  · have hindex : 8 * byteShift + ishift + (8 * i + j) = 8 * (byteShift+i) + (j+ishift) := by omega
    rw [if_pos h, hindex, VarBit.bit_of_byte _ _ h]
  · have hindex : 8 * byteShift + ishift + (8 * i + j) = 8 * (byteShift + i + 1) + (j + ishift - 8) := by omega
    rw [if_neg h, hindex, VarBit.bit_of_byte _ _ (by omega)]

def bytesBit (bytes : List Bits8) (i : Nat) : Bool := (bytes.getD (i/8) 0).getMsbD (i % 8)

theorem bytesBit_cons (p : Bits8) (rest : List Bits8) (i : Nat) :
    bytesBit (p :: rest) i = if i < 8 then p.getMsbD i else bytesBit rest (i-8) := by
  by_cases h : i < 8
  · have hdiv : i / 8 = 0 := by omega
    have hmod : i % 8 = i := by omega
    rw [if_pos h, bytesBit, hdiv, hmod, getD_cons_zero]
  · have hdiv : i / 8 = (i-8) / 8 + 1 := by omega
    have hmod : i % 8 = (i-8) % 8 := by omega
    rw [if_neg h, bytesBit, hdiv, hmod, getD_cons_succ, bytesBit]

section

variable {ishift : Nat}

def spreadStep (ishift r : Nat) (p : Bits8) (result : Block Bits8) : Block Bits8 :=
  let result := result.store r (result.data r ||| p >>> ishift)
  if r + 1 < result.size then result.store (r+1) (p <<< (8-ishift)) else result

theorem spread_cons (r : Nat) (p : Bits8) (rest : List Bits8) (result : Block Bits8) :
    spread ishift r (p :: rest) result = spread ishift (r+1) rest (spreadStep ishift r p result) := rfl

theorem spreadStep_size (r : Nat) (p : Bits8) (result : Block Bits8) :
    (spreadStep ishift r p result).size = result.size := by
  unfold spreadStep
  dsimp only
  split <;> rfl

theorem spreadStep_stray (p : Bits8) (h : r < result.size) : (spreadStep ishift r p result).stray = result.stray := by
  unfold spreadStep
  dsimp only
  split
  · next hnext => rw [Block.store_stray hnext, Block.store_stray h]
  · rw [Block.store_stray h]

theorem spreadStep_data (r i : Nat) (p : Bits8) (result : Block Bits8) : (spreadStep ishift r p result).data i =
      if i = r+1 ∧ r + 1 < result.size then p <<< (8-ishift)
      else if i = r then result.data r ||| p >>> ishift else result.data i := by
  have hsize : (result.store r (result.data r ||| p >>> ishift)).size = result.size := rfl
  unfold spreadStep
  dsimp only
  rw [hsize]
  by_cases hnext : r + 1 < result.size
  · rw [if_pos hnext, Block.store_data, Block.store_data]
    by_cases hi : i = r+1
    · rw [if_pos hi, if_pos ⟨hi, hnext⟩]
    · rw [if_neg hi, if_neg fun h : i = r+1 ∧ _ => hi h.1]
  · rw [if_neg hnext, if_neg fun h : i = r+1 ∧ _ => hnext h.2, Block.store_data]

theorem spread_size (r : Nat) (src : List Bits8) (result : Block Bits8) :
    (spread ishift r src result).size = result.size := by
  induction src generalizing r result with
  | nil => rfl
  | cons p rest ih => rw [spread_cons, ih, spreadStep_size]

theorem spread_stray {src : List Bits8}
    (h : r + src.length ≤ result.size) : (spread ishift r src result).stray = result.stray := by
  induction src generalizing r result with
  | nil => rfl
  | cons p rest ih =>
    rw [length_cons] at h
    rw [spread_cons, ih (by rw [spreadStep_size]; omega), spreadStep_stray p (by omega)]

theorem spread_before (src : List Bits8) (result : Block Bits8) (h : i < r) :
    (spread ishift r src result).data i = result.data i := by
  induction src generalizing r result with
  | nil => rfl
  | cons p rest ih =>
    rw [spread_cons, ih _ (by omega), spreadStep_data, if_neg (by omega), if_neg (by omega)]

theorem blockBit_of_byte (b : Block Bits8) (i : Nat) (hj : j < 8) : blockBit b (8 * i + j) = (b.data i).getMsbD j := by
  have hdiv : (8 * i + j) / 8 = i := by omega
  have hmod : (8 * i + j) % 8 = j := by omega
  rw [blockBit, hdiv, hmod]

theorem spread_bit (hk : ishift < 8) (src : List Bits8) (r : Nat)
    (result : Block Bits8) (t : Nat) (ht : t / 8 ≤ src.length) (hin : r + t / 8 < result.size) :
    blockBit (spread ishift r src result) (8 * r + t) = ((decide (t < 8) && blockBit result (8 * r + t)) ||
        (decide (ishift ≤ t) && bytesBit src (t-ishift))) := by
  induction src generalizing r result t with
  | nil =>
    have h8 : t < 8 := by
      rw [length_nil] at ht
      omega
    have hnone : bytesBit [] (t-ishift) = false := getMsbD_zero
    rw [hnone, Bool.and_false, Bool.or_false, decide_eq_true h8, Bool.true_and, spread]
  | cons p rest ih =>
    rw [spread_cons, bytesBit_cons]
    by_cases h8 : t < 8
    · -- the byte at `r` is not written again
      rw [blockBit_of_byte _ _ h8, spread_before _ _ (Nat.lt_succ_self r), spreadStep_data,
        if_neg (by omega), if_pos rfl, getMsbD_or, getMsbD_ushiftRight,
        decide_eq_true h8, Bool.true_and, Bool.true_and, blockBit_of_byte _ _ h8,
        if_pos (by omega : t - ishift < 8)]
      by_cases hle : ishift ≤ t
      · rw [decide_eq_true hle, decide_eq_false (by omega : ¬ t < ishift), Bool.not_false]
      · rw [decide_eq_false hle, decide_eq_true (by omega : t < ishift), Bool.not_true]
    · rw [length_cons] at ht
      have hindex : 8 * r + t = 8 * (r+1) + (t-8) := by omega
      rw [hindex, ih (r+1) _ (t-8) (by omega) (by rw [spreadStep_size]; omega),
        decide_eq_false h8, Bool.false_and, Bool.false_or, decide_eq_true (by omega : ishift ≤ t),
        Bool.true_and]
      by_cases h16 : t - 8 < 8
      · rw [blockBit_of_byte _ _ h16, spreadStep_data, if_pos ⟨rfl, by omega⟩, decide_eq_true h16,
          Bool.true_and, getMsbD_shiftLeft]
        by_cases hlow : t - ishift < 8
        · have hpos : t - 8 + (8-ishift) = t-ishift := by omega
          rw [if_pos hlow, decide_eq_false (by omega : ¬ ishift ≤ t-8), Bool.false_and, Bool.or_false, hpos]
        · have hpos : t - 8 - ishift = t - ishift - 8 := by omega
          rw [if_neg hlow, getMsbD_of_ge _ _ (by omega), Bool.false_or,
            decide_eq_true (by omega : ishift ≤ t-8), Bool.true_and, hpos]
      · have hpos : t - 8 - ishift = t - ishift - 8 := by omega
        rw [decide_eq_false h16, Bool.false_and, Bool.false_or, decide_eq_true (by omega : ishift ≤ t-8), Bool.true_and,
          if_neg (by omega : ¬ t - ishift < 8), hpos]

end

theorem yields_of_bit {made : Made} (hinside : made.block.stray = false)
    (hlen : made.bitlen = op.spec.length) (hfits : op.spec.length < 2^31)
    (hsize : made.block.size = (op.spec.length+7) / 8)
    (hbit : ∀ i < 8*made.block.size, blockBit made.block i = op.spec.getD i false) :
    op.Yields made := by
  have hbits : ∀ i, made.value.bit i = op.spec.getD i false := by
    intro i
    rw [value_bit]
    by_cases hi : i < 8*made.block.size
    · rw [decide_eq_true hi, Bool.true_and, hbit i hi]
    · rw [decide_eq_false hi, Bool.false_and, getD_eq_default _ _ (by omega)]
  obtain ⟨hwell, hspec⟩ := VarBit.of_bit hlen hfits ((value_length made).trans hsize) hbits
  exact ⟨hinside, hwell, hspec⟩

theorem Operation.Right.fits (h : op.Right) : op.spec.length < 2^31 := by
  obtain ⟨fuel, made, -, hyields⟩ := h fun _ => 0
  have hlen : op.spec.length = made.value.bitlen.toNat := by rw [← hyields.bits, VarBit.bits_length]
  have hfits := hyields.wellFormed.fits
  omega

theorem BitString.bits_length (a : BitString) : (a.bits.length : Int) = a.bitlen := by
  have h := a.wellFormed.nonneg
  rw [VarBit.bits_length]
  omega

theorem BitString.bytes_length (a : BitString) : a.bytes.length = (a.bits.length+7) / 8 := by
  rw [a.wellFormed.bytes, VarBit.bits_length]

theorem BitString.bit_eq (a : BitString) (i : Nat) : a.bit i = a.bits.getD i false := (a.wellFormed.getD i).symm

theorem int32_eq {x : Int} (hle : -2^31 ≤ x) (hlt : x < 2^31) : int32 x = x := by
  rw [int32, Int.bmod_eq_of_le] <;> omega

theorem palloc_eq (garbage : Nat → Bits8) (n : Nat) : palloc garbage n = some ⟨(n+7) / 8, garbage, false⟩ := by
  have hlen : 8 ≤ varBitDataLen n := by
    rw [varBitDataLen, Int.tdiv_eq_ediv_of_nonneg (by omega)]
    split <;> omega
  rw [palloc, if_neg (by omega), varBitBytes_eq, decide_eq_false (by omega)]

theorem copy_bit (dst : Block Bits8) {v : VarBit} (h : i < 8*v.bytes.length) :
    blockBit (dst.copy 0 v.data v.bytes.length) i = v.bit i := by
  rw [blockBit, Block.copy_data, if_pos (by omega), Nat.sub_zero, VarBit.bit]

section

variable (a b : BitString) (dst : Block Bits8)

theorem pad_eq : a.pad = 8 * ((a.bits.length+7) / 8) - a.bits.length := by
  have hlen := a.bits_length
  rw [VarBit.pad, a.bytes_length]
  omega

theorem spread_cat_bit (hpad : a.pad ≠ 0) (hsize : dst.size = (a.bits.length + b.bits.length + 7) / 8)
    (hi : i < 8*dst.size) :
    blockBit (spread (8-a.pad.toNat) (a.bytes.length-1) b.bytes (dst.copy 0 a.data a.bytes.length)) i =
      if i < a.bits.length then a.bit i else b.bit (i-a.bits.length) := by
  have hp := pad_eq a
  have ha := a.bytes_length
  have hb := b.bytes_length
  by_cases hbefore : i < 8 * (a.bytes.length-1)
  · rw [blockBit, spread_before _ _ (by omega), if_pos (by omega)]
    exact copy_bit dst (by omega)
  · obtain ⟨t, rfl⟩ : ∃ t, i = 8 * (a.bytes.length-1) + t := ⟨i-8 * (a.bytes.length-1), by omega⟩
    have hshift : 8 - a.pad.toNat = a.bits.length - 8 * (a.bytes.length-1) := by omega
    rw [spread_bit (by omega) _ _ _ _ (by omega) (by rw [Block.copy_size]; omega), hshift]
    by_cases hin : 8 * (a.bytes.length-1) + t < a.bits.length
    · rw [if_pos hin, decide_eq_true (by omega : t < 8), Bool.true_and,
        decide_eq_false (by omega), Bool.false_and, Bool.or_false]
      exact copy_bit dst (by omega)
    · have hzero : (decide (t < 8) && blockBit (dst.copy 0 a.data a.bytes.length)
          (8 * (a.bytes.length-1) + t)) = false := by
        by_cases h8 : t < 8
        · rw [copy_bit dst (by omega), a.bit_eq, getD_eq_default _ _ (by omega), Bool.and_false]
        · rw [decide_eq_false h8, Bool.false_and]
      have hindex : 8 * (a.bytes.length-1) + t - a.bits.length =
        t - (a.bits.length - 8 * (a.bytes.length-1)) := by omega
      rw [if_neg hin, hzero, Bool.false_or, decide_eq_true (by omega), Bool.true_and, hindex]
      rfl

theorem catBits_bit (hsize : dst.size = (a.bits.length + b.bits.length + 7) / 8)
    (hi : i < 8*dst.size) : blockBit (catBits a.toVarBit b.toVarBit dst) i =
      if i < a.bits.length then a.bit i else b.bit (i-a.bits.length) := by
  have hp := pad_eq a
  have ha := a.bytes_length
  have hb := b.bytes_length
  have hblen := b.bits_length
  unfold catBits
  dsimp only
  split
  · next hpad =>
    rw [blockBit, Block.copy_data]
    by_cases hin : i < a.bits.length
    · rw [if_neg (by omega), if_pos hin]
      exact copy_bit dst (by omega)
    · have hdiv : i / 8 - a.bytes.length = (i-a.bits.length) / 8 := by omega
      have hmod : i % 8 = (i-a.bits.length) % 8 := by omega
      rw [if_pos (by omega), if_neg hin, hdiv, hmod, VarBit.bit]
  · next hpad =>
    split
    · exact spread_cat_bit a b dst hpad hsize hi
    · have hin : i / 8 < a.bytes.length := by omega
      rw [copy_bit dst (by omega)]
      split
      · rfl
      · rw [a.bit_eq, b.bit_eq, getD_eq_default _ _ (by omega), getD_eq_default _ _ (by omega)]

theorem catBits_size : (catBits a.toVarBit b.toVarBit dst).size = dst.size := by
  unfold catBits
  dsimp only
  split
  · rw [Block.copy_size, Block.copy_size]
  · split
    · rw [spread_size, Block.copy_size]
    · rw [Block.copy_size]

theorem catBits_stray (hsize : dst.size = (a.bits.length + b.bits.length + 7) / 8) :
    (catBits a.toVarBit b.toVarBit dst).stray = dst.stray := by
  have hp := pad_eq a
  have ha := a.bytes_length
  have hb := b.bytes_length
  have hfirst : (dst.copy 0 a.data a.bytes.length).stray = dst.stray := Block.copy_stray _ (by omega)
  unfold catBits
  dsimp only
  split
  · rw [Block.copy_stray _ (by rw [Block.copy_size]; omega), hfirst]
  · split
    · rw [spread_stray (by rw [Block.copy_size]; omega), hfirst]
    · exact hfirst

theorem cat_right_iff : (Operation.cat a b).Right ↔ a.bitlen + b.bitlen < 2^31 := by
  have ha := a.bits_length
  have hb := b.bits_length
  have hlen : (Operation.cat a b).spec.length = a.bits.length+b.bits.length := length_append
  constructor
  · intro h
    have hfits := h.fits
    omega
  · intro h garbage
    have hsum : int32 (a.bitlen+b.bitlen) = (a.bits.length+b.bits.length : Nat) := by
      rw [int32_eq (by omega) h]
      omega
    let dst : Block Bits8 := ⟨(a.bits.length + b.bits.length + 7) / 8, garbage, false⟩
    refine ⟨0, ⟨(a.bits.length+b.bits.length : Nat), catBits a.toVarBit b.toVarBit dst⟩, ?_, ?_⟩
    · rw [Operation.run, bitcat, hsum, palloc_eq]
      rfl
    · refine yields_of_bit (catBits_stray a b dst rfl) (by rw [hlen]) (by omega)
        (by rw [catBits_size, hlen]) fun i hi => ?_
      rw [catBits_size] at hi
      rw [catBits_bit a b dst rfl hi, Operation.spec]
      split
      · next hin => rw [getD_append _ _ _ _ hin, a.bit_eq]
      · next hin => rw [getD_append_right _ _ _ _ (by omega), b.bit_eq]

end

theorem zipWith_getD (f : Bool → Bool → Bool) (l₁ l₂ : List Bool) (i : Nat) : (List.zipWith f l₁ l₂).getD i false =
      (decide (i < l₁.length ∧ i < l₂.length) && f (l₁.getD i false) (l₂.getD i false)) := by
  by_cases h : i < l₁.length ∧ i < l₂.length
  · rw [getD_eq_getElem _ _ (by rw [length_zipWith]; omega), getElem_zipWith, decide_eq_true h,
      Bool.true_and, getD_eq_getElem _ _ h.1, getD_eq_getElem _ _ h.2]
  · rw [getD_eq_default _ _ (by rw [length_zipWith]; omega), decide_eq_false h, Bool.false_and]

theorem and_right (a b : BitString) : (Operation.and a b).Right := by
  intro garbage
  have ha := a.bits_length
  have hb := b.bits_length
  have habytes := a.bytes_length
  have hbbytes := b.bytes_length
  have hafits := a.wellFormed.fits
  have hlen : (Operation.and a b).spec.length = min a.bits.length b.bits.length := length_zipWith
  have hsize : (bitAnd garbage a.toVarBit b.toVarBit).block.size =
      min a.bytes.length b.bytes.length := Block.copy_size ..
  refine ⟨0, _, rfl, yields_of_bit ?_ ?_ (by omega) (by omega) fun i hi => ?_⟩
  · exact Block.copy_stray _ (Nat.le_of_eq (Nat.zero_add _))
  · change min a.bitlen b.bitlen = _
    omega
  · have hdata : blockBit (bitAnd garbage a.toVarBit b.toVarBit).block i = (a.bit i && b.bit i) := by
      rw [blockBit, bitAnd, bitwise, Block.copy_data, if_pos (by omega), getMsbD_and]
      rfl
    rw [hdata, Operation.spec, zipWith_getD, a.bit_eq, b.bit_eq]
    by_cases h : i < a.bits.length ∧ i < b.bits.length
    · rw [decide_eq_true h, Bool.true_and]
    · rw [decide_eq_false h, Bool.false_and]
      obtain hlt | hge := Nat.lt_or_ge i a.bits.length
      · rw [getD_eq_default b.bits _ (by omega), Bool.and_false]
      · rw [getD_eq_default a.bits _ hge, Bool.false_and]

theorem padResult_stray : (padResult made).block.stray := by
  rw [padResult, Block.store, decide_eq_true (Nat.le_refl _), Bool.or_true]

theorem not_right_of_padResult {made : (Nat → Bits8) → Made}
    (hrun : ∀ garbage fuel, op.run garbage fuel = some (padResult (made garbage))) :
    ¬ op.Right := by
  intro h
  obtain ⟨fuel, m, hm, hyields⟩ := h fun _ => 0
  rw [hrun] at hm
  have hinside := hyields.inside
  rw [← Option.some.inj hm, padResult_stray] at hinside
  cases hinside

theorem or_not_right (a b : BitString) : ¬ (Operation.or a b).Right := not_right_of_padResult fun _ _ => rfl

theorem xor_not_right (a b : BitString) : ¬ (Operation.xor a b).Right := not_right_of_padResult fun _ _ => rfl

theorem not_not_right (a : BitString) : ¬ (Operation.not a).Right := not_right_of_padResult fun _ _ => rfl

end WeaverDB.VarBits
