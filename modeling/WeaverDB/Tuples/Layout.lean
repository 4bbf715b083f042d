import Mathlib.Tactic.IntervalCases
import WeaverDB.Tuples.Codec

/-! # What a formed tuple holds

Every value lies at the place that the sizes of the values before it give (`attOffset`). `Formed` is
what reading relies on.
-/

namespace WeaverDB.Tuples
open Foundations Nat List Option

/-! ## Sizes -/

theorem le_typeAlign {alignval : Nat} (h : 0 < alignval) (len : Nat) : len ≤ typeAlign alignval len := by
  have hdiv := div_add_mod' (len + (alignval-1)) alignval
  have hmod := mod_lt (len + (alignval-1)) h
  unfold typeAlign
  omega

theorem Align.size_pos (a : Align) : 0 < a.size := by
  cases a <;> decide

theorem le_attAlign (off : Nat) (a : FormPgAttribute) : off ≤ attAlign off a := le_typeAlign a.attalign.size_pos off

theorem attAlign_zero (a : FormPgAttribute) : attAlign 0 a = 0 := by
  unfold attAlign
  cases a.attalign <;> rfl

theorem length_attBytes {a : FormPgAttribute} {d : Datum} (h : Fits a d) (off : Nat) :
    off + (attBytes a d).length = attAddlength off a d := by
  cases d with
  | word w =>
    have hword : a.inWord := h
    have hlen : a.attlen ≠ -1 := by
      simp only [FormPgAttribute.inWord, Bool.and_eq_true, decide_eq_true_eq] at hword
      exact hword.2
    simp only [attBytes, attAddlength, hword, if_true, hlen, ne_eq, not_false_eq_true, length_leBytes]
  | pointer mem =>
    obtain ⟨hword, hmem⟩ := h
    by_cases hlen : a.attlen = -1
    · rw [if_pos hlen] at hmem
      simp [attBytes, attAddlength, hword, hlen, hmem.2.1]
    · rw [if_neg hlen] at hmem
      simp [attBytes, attAddlength, hword, hlen, hmem]

section

variable {desc : TupleDesc} (row : Row desc)

def Row.attOffset (i : Nat) : Nat := attAlign (dataSize desc row.value row.nulls i) (desc.attrs i)

def Row.bytes (i : Nat) : List UInt8 := attBytes (desc.attrs i) (row.value i)

variable {row}

theorem dataSize_null {i : Nat} (h : row.nulls i) :
    dataSize desc row.value row.nulls (i+1) = dataSize desc row.value row.nulls i := by
  rw [dataSize, if_pos h]

theorem dataSize_value {i : Nat} (hi : i < desc.natts) (h : row.nulls i = false) :
    dataSize desc row.value row.nulls (i+1) = row.attOffset i + (row.bytes i).length := by
  rw [dataSize, if_neg (by simp [h])]
  exact (length_attBytes (row.fits i hi h) _).symm

theorem dataSize_mono {i j : Nat} (hij : i ≤ j) (hj : j ≤ desc.natts) :
    dataSize desc row.value row.nulls i ≤ dataSize desc row.value row.nulls j := by
  induction j with
  | zero =>
    rw [le_zero.mp hij]
  | succ j ih =>
    by_cases hlast : i = j+1
    · rw [hlast]
    · have hprev := ih (by omega) (by omega)
      by_cases hnull : row.nulls j
      · rw [dataSize_null hnull]
        exact hprev
      · rw [dataSize_value (by omega) (by simpa using hnull)]
        have halign := le_attAlign (dataSize desc row.value row.nulls j) (desc.attrs j)
        unfold Row.attOffset
        omega

end

/-! ## The data -/

structure Stored {desc : TupleDesc} (row : Row desc) (f : Fill) (i : Nat) : Prop where
  pos : f.pos = dataSize desc row.value row.nulls i
  length : f.data.length = computeDataSize desc row.value row.nulls
  varlena : f.hasVarlena ↔ ∃ k < i, row.nulls k = false ∧ (desc.attrs k).attlen = -1
  value : ∀ k < i, row.nulls k = false → readAt f.data (row.attOffset k) (row.bytes k).length = row.bytes k

section

variable {desc : TupleDesc} {row : Row desc} {f f' : Fill} {i : Nat}

theorem Stored.frame (h : Stored row f i) (hpos : f'.pos = f.pos) (hdata : f'.data = f.data)
    (hvarlena : f'.hasVarlena = f.hasVarlena) : Stored row f' i where
  pos := hpos.trans h.pos
  length := hdata ▸ h.length
  varlena := hvarlena ▸ h.varlena
  value := hdata ▸ h.value

theorem Stored.null (h : Stored row f i) (hnull : row.nulls i) : Stored row f (i+1) where
  pos := h.pos.trans (dataSize_null hnull).symm
  length := h.length
  varlena := by
    rw [h.varlena]
    constructor
    · rintro ⟨k, hk, hval⟩
      exact ⟨k, by omega, hval⟩
    · rintro ⟨k, hk, hval⟩
      have hne : k ≠ i := fun hki => by simp [hki, hnull] at hval
      exact ⟨k, by omega, hval⟩
  value k hk hval := by
    have hne : k ≠ i := fun hki => by simp [hki, hnull] at hval
    exact h.value k (by omega) hval

theorem Stored.put (h : Stored row f i) (hi : i < desc.natts) (hval : row.nulls i = false) :
    Stored row (f.putValue (desc.attrs i) (row.value i)) (i+1) := by
  have hoff : attAlign f.pos (desc.attrs i) = row.attOffset i := by rw [h.pos]; rfl
  have hend : row.attOffset i + (row.bytes i).length ≤ f.data.length := by
    rw [h.length, ← dataSize_value hi hval]
    exact dataSize_mono hi (le_rfl)
  constructor
  · change attAddlength (attAlign f.pos (desc.attrs i)) (desc.attrs i) (row.value i) = _
    rw [hoff, dataSize_value hi hval]
    exact (length_attBytes (row.fits i hi hval) _).symm
  · change (overwrite f.data (attAlign f.pos (desc.attrs i)) (row.bytes i)).length = _
    rw [hoff, length_overwrite _ _ hend, h.length]
  · change (f.hasVarlena || decide ((desc.attrs i).attlen = -1)) ↔ _
    rw [Bool.or_eq_true, h.varlena, decide_eq_true_eq]
    constructor
    · rintro (⟨k, hk, hold⟩ | hnew)
      · exact ⟨k, by omega, hold⟩
      · exact ⟨i, by omega, hval, hnew⟩
    · rintro ⟨k, hk, hk'⟩
      by_cases hki : k = i
      · exact .inr (hki ▸ hk'.2)
      · exact .inl ⟨k, by omega, hk'⟩
  · intro k hk hkval
    change readAt (overwrite f.data (attAlign f.pos (desc.attrs i)) (row.bytes i)) _ _ = _
    rw [hoff]
    by_cases hki : k = i
    · subst hki
      exact readAt_overwrite _ _ (by omega)
    · -- an earlier value ends before the place of this one
      have hbefore : row.attOffset k + (row.bytes k).length ≤ row.attOffset i := by
        rw [← dataSize_value (by omega) hkval]
        have hmono : dataSize desc row.value row.nulls (k+1) ≤ dataSize desc row.value row.nulls i :=
          dataSize_mono (by omega) (by omega)
        exact hmono.trans (le_attAlign _ _)
      rw [readAt_overwrite_before _ _ hbefore (by omega)]
      exact h.value k (by omega) hkval

end

/-! ## The bitmap -/

def bitAt (bits : List (BitVec 8)) (k : Nat) : Bool := (bits.getD (k/8) 0#8).getLsbD (k % 8)

theorem getLsbD_orShift (b : BitVec 8) {m j : Nat} (hj : j < 8) :
    (b ||| 1#8 <<< m).getLsbD j = (b.getLsbD j || decide (j = m)) := by
  by_cases hjm : j = m
  · simp [hjm, hjm ▸ hj]
  · by_cases hlt : j < m
    · simp [hlt, hjm]
    · have hsub : ¬ j - m = 0 := by omega
      simp [hjm, hsub]

theorem bitAt_modify (bits : List (BitVec 8)) (i k : Nat) (hi : i / 8 < bits.length) :
    bitAt (bits.modify (i/8) fun b => b ||| 1#8 <<< (i % 8)) k = (bitAt bits k || decide (k = i)) := by
  unfold bitAt
  rw [List.getD_eq_getElem?_getD, List.getElem?_modify]
  by_cases hbyte : i / 8 = k / 8
  · have hget : bits[k / 8]? = some (bits.getD (k/8) 0#8) := by
      rw [List.getD_eq_getElem?_getD, List.getElem?_eq_getElem (hbyte ▸ hi)]
      rfl
    have heq : decide (k % 8 = i % 8) = decide (k = i) := by
      rw [decide_eq_decide]
      omega
    simp only [hbyte, if_true, hget, Option.map_eq_map, Option.map_some, Option.getD_some]
    rw [getLsbD_orShift _ (Nat.mod_lt _ (by decide)), heq]
  · have hne : k ≠ i := fun hki => hbyte (by rw [hki])
    simp [hbyte, hne]

structure Marked {desc : TupleDesc} (row : Row desc) (f : Fill) (i : Nat) : Prop where
  bitP : f.bitP = (i+7) / 8
  bitmask : f.bitmask = if i % 8 = 0 then csignBit else 1#8 <<< (i % 8 - 1)
  length : f.bits.length = bitmapLen desc.natts
  null : f.hasNull ↔ ∃ k < i, row.nulls k
  bit : ∀ k, k / 8 < (i+7) / 8 → bitAt f.bits k = (decide (k < i) && !row.nulls k)

structure Ready {desc : TupleDesc} (row : Row desc) (f : Fill) (i : Nat) : Prop where
  bitP : f.bitP = i / 8 + 1
  bitmask : f.bitmask = 1#8 <<< (i % 8)
  length : f.bits.length = bitmapLen desc.natts
  null : f.hasNull ↔ ∃ k < i, row.nulls k
  bit : ∀ k, k / 8 < i / 8 + 1 → bitAt f.bits k = (decide (k < i) && !row.nulls k)

theorem lt_bitmapLen {i natts : Nat} (h : i < natts) : i / 8 < bitmapLen natts := by
  unfold bitmapLen
  omega

theorem mask_succ (i : Nat) : 1#8 <<< (i % 8) = if (i+1) % 8 = 0 then csignBit else 1#8 <<< ((i+1) % 8 - 1) := by
  split
  · next hlast =>
    have hseven : i % 8 = 7 := by omega
    rw [hseven]
    rfl
  · congr 1
    omega

theorem decide_lt_succ {k i : Nat} (h : k ≠ i) : decide (k < i) = decide (k < i+1) := by
  rw [decide_eq_decide]
  omega

theorem shift_ne_csignBit {m : Nat} (h : m < 7) : 1#8 <<< m ≠ csignBit := by
  interval_cases m <;> decide

section

variable {desc : TupleDesc} {row : Row desc} {f : Fill} {i : Nat}

theorem Marked.nextBit (h : Marked row f i) (hi : i < desc.natts) : Ready row f.nextBit i := by
  unfold Fill.nextBit
  by_cases hfirst : i % 8 = 0
  · -- a new byte
    have hmask : ¬ f.bitmask ≠ csignBit := by
      rw [h.bitmask, if_pos hfirst]
      exact fun hne => hne rfl
    have hbyte : f.bitP = i / 8 := by
      rw [h.bitP]
      omega
    rw [if_neg hmask]
    refine ⟨congrArg (· + 1) hbyte, by rw [hfirst]; rfl, by simp [h.length], h.null, fun k hk => ?_⟩
    rw [hbyte]
    by_cases hnew : k / 8 = i / 8
    · have hlt : ¬ k < i := by omega
      have hlen : i / 8 < f.bits.length := by
        rw [h.length]
        exact lt_bitmapLen hi
      simp [bitAt, hnew, hlt, hlen]
    · have hold := h.bit k (by omega)
      have hsame : bitAt (f.bits.set (i/8) 0#8) k = bitAt f.bits k := by
        simp [bitAt, getD_eq_getElem?_getD, List.getElem?_set_ne (Ne.symm hnew)]
      rw [hsame, hold]
  · have hmask : f.bitmask = 1#8 <<< (i % 8 - 1) := by rw [h.bitmask, if_neg hfirst]
    have hne : f.bitmask ≠ csignBit := by
      rw [hmask]
      exact shift_ne_csignBit (by omega)
    rw [if_pos hne]
    refine ⟨?_, ?_, h.length, h.null, fun k hk => h.bit k (by omega)⟩
    · rw [h.bitP]
      omega
    · change f.bitmask <<< 1 = _
      rw [hmask, ← BitVec.shiftLeft_add]
      congr 1
      omega

theorem Ready.marked_null (h : Ready row f i) (hnull : row.nulls i) : Marked row { f with hasNull := true } (i+1) where
  bitP := h.bitP.trans (by omega)
  bitmask := h.bitmask.trans (mask_succ i)
  length := h.length
  null := ⟨fun _ => ⟨i, by omega, hnull⟩, fun _ => rfl⟩
  bit k hk := by
    rw [show bitAt f.bits k = _ from h.bit k (by omega)]
    by_cases hki : k = i
    · simp [hki, hnull]
    · rw [decide_lt_succ hki]

theorem Ready.setBit (h : Ready row f i) (hi : i < desc.natts) (hval : row.nulls i = false) :
    Marked row f.setBit (i+1) where
  bitP := h.bitP.trans (by omega)
  bitmask := h.bitmask.trans (mask_succ i)
  length := by
    change (f.bits.modify _ _).length = _
    rw [length_modify, h.length]
  null := by
    change f.hasNull ↔ _
    rw [h.null]
    constructor
    · rintro ⟨k, hk, hnull⟩
      exact ⟨k, by omega, hnull⟩
    · rintro ⟨k, hk, hnull⟩
      have hne : k ≠ i := fun hki => by simp [hki, hval] at hnull
      exact ⟨k, by omega, hnull⟩
  bit k hk := by
    have hlen : i / 8 < f.bits.length := by
      rw [h.length]
      exact lt_bitmapLen hi
    have hbits : f.setBit.bits = f.bits.modify (i/8) fun b => b ||| 1#8 <<< (i % 8) := by
      change f.bits.modify (f.bitP-1) (fun b => b ||| f.bitmask) = _
      rw [h.bitP, h.bitmask, Nat.add_sub_cancel]
    rw [hbits, bitAt_modify _ _ _ hlen, h.bit k (by omega)]
    by_cases hki : k = i
    · simp [hki, hval]
    · rw [decide_lt_succ hki]
      simp [hki]

end

/-! ## The tuple -/

structure Formed {desc : TupleDesc} (row : Row desc) (t : HeapTuple) : Prop where
  natts : t.tNatts = desc.natts
  len : t.tLen = headerSize desc.natts (row.hasNull desc.natts) + computeDataSize desc row.value row.nulls
  null : t.hasNull ↔ ∃ k < desc.natts, row.nulls k
  bit : t.hasNull → ∀ k < desc.natts, attIsnull k t.bits = row.nulls k
  varlena : t.hasVarlena ↔ ∃ k < desc.natts, row.nulls k = false ∧ (desc.attrs k).attlen = -1
  value : ∀ k < desc.natts, row.nulls k = false →
    readAt t.data (row.attOffset k) (row.bytes k).length = row.bytes k

section

variable {desc : TupleDesc} (row : Row desc)

theorem stored_start : Stored row (Fill.start desc row.toValues) 0 where
  pos := rfl
  length := length_replicate
  varlena := ⟨nofun, fun ⟨_, hk, _⟩ => absurd hk (not_lt_zero _)⟩
  value k hk := absurd hk (not_lt_zero k)

theorem marked_start : Marked row (Fill.start desc row.toValues) 0 where
  bitP := rfl
  bitmask := rfl
  length := length_replicate
  null := ⟨nofun, fun ⟨_, hk, _⟩ => absurd hk (not_lt_zero _)⟩
  bit _ hk := absurd hk (not_lt_zero _)

variable {row}

theorem Fill.nextBit_data (f : Fill) :
    f.nextBit.pos = f.pos ∧ f.nextBit.data = f.data ∧ f.nextBit.hasVarlena = f.hasVarlena := by
  unfold Fill.nextBit
  split <;> exact ⟨rfl, rfl, rfl⟩

theorem fillAttribute_bitmap {f : Fill} {i : Nat} (hs : Stored row f i) (hm : Marked row f i) (hi : i < desc.natts) :
    Stored row (fillAttribute desc row.value row.nulls true f i) (i+1) ∧
      Marked row (fillAttribute desc row.value row.nulls true f i) (i+1) := by
  obtain ⟨hpos, hdata, hvarlena⟩ := f.nextBit_data
  have hready : Ready row f.nextBit i := hm.nextBit hi
  unfold fillAttribute
  rw [if_pos rfl]
  split
  · next hnull =>
    exact ⟨Stored.null (hs.frame hpos hdata hvarlena) hnull, hready.marked_null hnull⟩
  · next hval =>
    have hval : row.nulls i = false := by simpa using hval
    have hset : Stored row f.nextBit.setBit i := hs.frame hpos hdata hvarlena
    have hmarked := hready.setBit hi hval
    exact ⟨hset.put hi hval, hmarked.bitP, hmarked.bitmask, hmarked.length, hmarked.null, hmarked.bit⟩

theorem fill_bitmap {i : Nat} (hi : i ≤ desc.natts) :
    let f := (List.range i).foldl (fillAttribute desc row.value row.nulls true) (Fill.start desc row.toValues)
    Stored row f i ∧ Marked row f i := by
  induction i with
  | zero => exact ⟨stored_start row, marked_start row⟩
  | succ i ih =>
    obtain ⟨hs, hm⟩ := ih (by omega)
    rw [range_succ, foldl_append]
    exact fillAttribute_bitmap hs hm hi

theorem fill_plain (hnone : ∀ k < desc.natts, row.nulls k = false) (i : Nat) (hi : i ≤ desc.natts) :
    let f := (List.range i).foldl (fillAttribute desc row.value row.nulls false) (Fill.start desc row.toValues)
    Stored row f i ∧ f.hasNull = false := by
  induction i with
  | zero => exact ⟨stored_start row, rfl⟩
  | succ i ih =>
    obtain ⟨hs, hnull⟩ := ih (by omega)
    rw [range_succ, foldl_append]
    exact ⟨hs.put hi (hnone i hi), hnull⟩

theorem hasNull_iff : row.hasNull desc.natts ↔ ∃ k < desc.natts, row.nulls k := by
  simp [Values.hasNull]

theorem attIsnull_eq (k : Nat) (bits : List (BitVec 8)) : attIsnull k bits = !bitAt bits k := rfl

theorem formed_formTuple (row : Row desc) : Formed row (formTuple desc row.toValues) := by
  by_cases hany : row.hasNull desc.natts
  · obtain ⟨hs, hm⟩ : Stored row (dataFill desc row.value row.nulls true (Fill.start desc row.toValues)) desc.natts ∧
        Marked row (dataFill desc row.value row.nulls true (Fill.start desc row.toValues)) desc.natts :=
      fill_bitmap (le_rfl)
    unfold formTuple
    rw [hany]
    refine ⟨rfl, by rw [hany], hm.null, fun _ k hk => ?_, hs.varlena, hs.value⟩
    rw [attIsnull_eq, hm.bit k (by omega)]
    simp [hk]
  · have hfalse : row.hasNull desc.natts = false := by simpa using hany
    have hnone : ∀ k < desc.natts, row.nulls k = false := by
      intro k hk
      rw [hasNull_iff] at hany
      simpa using fun hnull => hany ⟨k, hk, hnull⟩
    obtain ⟨hs, hnull⟩ :
        Stored row (dataFill desc row.value row.nulls false (Fill.start desc row.toValues)) desc.natts ∧
        (dataFill desc row.value row.nulls false (Fill.start desc row.toValues)).hasNull = false :=
      fill_plain hnone desc.natts (le_rfl)
    unfold formTuple
    rw [hfalse]
    refine ⟨rfl, by rw [hfalse], ?_, ?_, hs.varlena, hs.value⟩
    · dsimp only
      rw [hnull, ← hasNull_iff, hfalse]
    · intro hnull'
      exact absurd (hnull.symm.trans hnull') nofun

end

end WeaverDB.Tuples
