import WeaverDB.Tuples.Layout

/-! # Offsets kept in the descriptor

`nocachegetattr` leaves an offset in the descriptor only for an attribute before which every attribute
has a fixed size (`fixedOffset`), and uses it only for a tuple without a null before it. So the offsets
are right for all tuples.
-/

namespace WeaverDB.Tuples
open Foundations List Nat Function

variable {off size n k m : Nat} {a : FormPgAttribute} {mem : List UInt8} {w : Walk} {d : Datum}
  {desc : TupleDesc}

/-! ## Fixed offsets -/

def fixedSize (a : FormPgAttribute) : Option Nat :=
  if varlenaFixedSize a then some a.atttypmod.toNat
  else if a.attlen = -1 then none
  else some a.attlen.toNat

def fixedEnd (desc : TupleDesc) : Nat → Option Nat
  | 0 => some 0
  | i + 1 =>
    match fixedEnd desc i, fixedSize (desc.attrs i) with
    | some off, some size => some (attAlign off (desc.attrs i) + size)
    | _, _ => none

def fixedOffset (desc : TupleDesc) (i : Nat) : Option Nat :=
  (fixedEnd desc i).map fun off => attAlign off (desc.attrs i)

def Sound (desc : TupleDesc) (cache : OffsetCache) : Prop :=
  ∀ i, cache i ≠ -1 → ∃ off : Nat, fixedOffset desc i = some off ∧ cache i = off

theorem sound_fresh (desc : TupleDesc) : Sound desc .fresh := fun _ h => absurd rfl h

section

variable {desc : TupleDesc} {cache : OffsetCache} {i : Nat} {row : Row desc} {t : HeapTuple}

theorem Sound.update (h : Sound desc cache) (hoff : fixedOffset desc i = some off) :
    Sound desc (update cache i off) := by
  intro k hk
  by_cases hki : k = i
  · rw [hki, update_self]
    exact ⟨off, hoff, rfl⟩
  · rw [update_of_ne hki] at hk ⊢
    exact h k hk

theorem fixedEnd_succ (hend : fixedEnd desc i = some off) (hsize : fixedSize (desc.attrs i) = some size) :
    fixedEnd desc (i+1) = some (attAlign off (desc.attrs i) + size) := by
  rw [fixedEnd, hend, hsize]

theorem fixedEnd_of_fixedOffset (h : fixedOffset desc i = some off) :
    ∃ start, fixedEnd desc i = some start ∧ off = attAlign start (desc.attrs i) := by
  obtain ⟨start, hstart, hoff⟩ := Option.map_eq_some_iff.mp h
  exact ⟨start, hstart, hoff.symm⟩

theorem fixedOffset_of_fixedEnd {start : Nat} (h : fixedEnd desc i = some start) :
    fixedOffset desc i = some (attAlign start (desc.attrs i)) := by
  rw [fixedOffset, h]
  rfl

theorem length_of_fixedSize (ha : a.Valid)
    (hd : Fits a d) (hsize : fixedSize a = some size) : (attBytes a d).length = size := by
  unfold fixedSize at hsize
  have hlength := length_attBytes hd 0
  rw [zero_add] at hlength
  rw [hlength]
  split at hsize
  · next hfixed =>
    have hbpchar : a.attlen = -1 := by
      simp only [varlenaFixedSize, Bool.and_eq_true, beq_iff_eq] at hfixed
      exact ha.bpchar hfixed.1
    cases d with
    | word w =>
      have hword : a.inWord := hd
      simp [FormPgAttribute.inWord, hbpchar] at hword
    | pointer mem =>
      have hmem := hd.2
      rw [if_pos hbpchar] at hmem
      have htypmod := hmem.2.2 hfixed
      have hsize' := Option.some.inj hsize
      simp only [attAddlength, hbpchar, ne_eq, not_true_eq_false, if_false]
      omega
  · split at hsize
    · cases hsize
    · next hlen =>
      have hsize' := Option.some.inj hsize
      simp only [attAddlength, ne_eq, hlen, not_false_eq_true, if_true]
      omega

theorem dataSize_fixed (hi : i ≤ desc.natts) (hnone : ∀ k < i, row.nulls k = false)
    (hend : fixedEnd desc i = some off) : dataSize desc row.value row.nulls i = off := by
  induction i generalizing off with
  | zero => exact Option.some.inj hend
  | succ i ih =>
    unfold fixedEnd at hend
    split at hend
    · next start size hstart hsize =>
      have hprev := ih (by omega) (fun k hk => hnone k (by omega)) hstart
      have hval : row.nulls i = false := hnone i (by omega)
      rw [dataSize_value (by omega) hval, Row.attOffset, hprev, ← Option.some.inj hend]
      congr 1
      exact length_of_fixedSize (desc.valid i (by omega)) (row.fits i (by omega) hval) hsize
    · exact absurd hend nofun

theorem attOffset_fixed (hi : i ≤ desc.natts) (hnone : ∀ k < i, row.nulls k = false)
    (hoff : fixedOffset desc i = some off) : row.attOffset i = off := by
  obtain ⟨start, hend, rfl⟩ := fixedEnd_of_fixedOffset hoff
  rw [Row.attOffset, dataSize_fixed hi hnone hend]

theorem Sound.attOffset (h : Sound desc cache) (hi : i ≤ desc.natts)
    (hnone : ∀ k < i, row.nulls k = false) (hcache : cache i ≠ -1) :
    (cache i).toNat = row.attOffset i := by
  obtain ⟨off, hoff, heq⟩ := h i hcache
  rw [heq, attOffset_fixed hi hnone hoff]
  rfl

end

/-! ## Reading a value in its place -/

/-- The datum that is read has the bytes of the one that was given, at the pointer or in the word. -/
def SameValue (a : FormPgAttribute) : Datum → Datum → Prop
  | .word w, .word w' => leBytes a.attlen.toNat w'.toNat = leBytes a.attlen.toNat w.toNat
  | .pointer mem, .pointer mem' => attBytes a (.pointer mem') = attBytes a (.pointer mem)
  | _, _ => False

theorem leBytes_mod (k n : Nat) : leBytes k (n % 256^k) = leBytes k n := by
  induction k generalizing n with
  | zero => rfl
  | succ k ih =>
    have hbyte : UInt8.ofNat (n % 256^(k+1)) = UInt8.ofNat n := by
      apply UInt8.toNat.inj
      rw [pow_succ']
      exact mod_mul_right_mod n 256 (256^k)
    have hrest : n % 256^(k+1) / 256 = n / 256 % 256^k := by
      rw [pow_succ', mod_mul_right_div_self]
    rw [leBytes, leBytes, hbyte, hrest, ih]

theorem signExtend_mod (hk : 8 * k ≤ 64) (x : BitVec (8*k)) : (x.signExtend 64).toNat % 256^k = x.toNat := by
  have hlow : (x.signExtend 64).setWidth (8*k) = x := by
    ext j hj
    simp only [BitVec.getElem_setWidth, BitVec.getLsbD_signExtend]
    have hj' : j < 64 := by omega
    simp [hj, hj']
  have hnat := congrArg BitVec.toNat hlow
  rw [BitVec.toNat_setWidth, pow_mul] at hnat
  exact hnat

theorem leBytes_signedAt (hk : 8 * k ≤ 64)
    (hmem : mem.take k = leBytes k n) : leBytes k (signedAt k mem).toNat = leBytes k n := by
  rw [← leBytes_mod, signedAt, signExtend_mod hk, hmem, leValue_leBytes, BitVec.toNat_ofNat]
  have hpow : 2^(8*k) = 256^k := pow_mul 2 8 k
  rw [hpow, mod_mod, leBytes_mod]

theorem heapFetchAtt_word (ha : a.Valid) (hword : a.inWord) (mem : List UInt8) :
    8 * a.attlen.toNat ≤ 64 ∧ heapFetchAtt a mem = .word (signedAt a.attlen.toNat mem) := by
  have hparts : a.attbyval ∧ a.attlen ≠ -1 := by
    simpa [FormPgAttribute.inWord] using hword
  unfold heapFetchAtt
  rw [if_pos hword]
  rcases (ha.byval hparts.1).resolve_left hparts.2 with h | h | h | h <;> simp [h]

theorem varsize_of_take {mem' : List UInt8} (hn : 4 ≤ n)
    (h : mem'.take n = mem.take n) : varsize mem' = varsize mem := by
  have hfour : mem'.take 4 = mem.take 4 := by
    have htake := congrArg (List.take 4) h
    rwa [take_take, take_take, min_eq_left hn] at htake
  rw [varsize, hfour, varsize]

theorem sameValue_fetch (ha : a.Valid) (hd : Fits a d) (hmem : mem.take (attBytes a d).length = attBytes a d) :
    SameValue a d (heapFetchAtt a mem) ∧ ∀ off, attAddlength off a (.pointer mem) = off + (attBytes a d).length := by
  cases d with
  | word w =>
    have hword : a.inWord := hd
    obtain ⟨hk, hfetch⟩ := heapFetchAtt_word ha hword mem
    have hlen : a.attlen ≠ -1 := by
      simp only [FormPgAttribute.inWord, Bool.and_eq_true, decide_eq_true_eq] at hword
      exact hword.2
    have hbytes : attBytes a (.word w) = leBytes a.attlen.toNat w.toNat := by
      simp only [attBytes, hword, if_true]
    rw [hbytes, length_leBytes] at hmem ⊢
    refine ⟨?_, fun off => by simp [attAddlength, hlen]⟩
    rw [hfetch]
    exact leBytes_signedAt hk hmem
  | pointer old =>
    obtain ⟨hword, hold⟩ := hd
    have hfetch : heapFetchAtt a mem = .pointer mem := by
      unfold heapFetchAtt
      rw [if_neg (by simp [hword])]
    rw [hfetch]
    by_cases hlen : a.attlen = -1
    · rw [if_pos hlen] at hold
      have hbytes : attBytes a (.pointer old) = old.take (varsize old) := by
        simp [attBytes, hword, hlen]
      have hlength : (old.take (varsize old)).length = varsize old := length_take_of_le hold.2.1
      rw [hbytes, hlength] at hmem ⊢
      have hsize : varsize mem = varsize old := varsize_of_take hold.1 hmem
      refine ⟨?_, fun off => by simp [attAddlength, hlen, hsize]⟩
      change attBytes a (.pointer mem) = attBytes a (.pointer old)
      rw [hbytes]
      simp only [attBytes, hword, hlen, if_true, hsize, hmem]
      rfl
    · rw [if_neg hlen] at hold
      have hbytes : ∀ m : List UInt8, attBytes a (.pointer m) = m.take a.attlen.toNat := by
        intro m
        simp [attBytes, hword, hlen]
      have hlength : (old.take a.attlen.toNat).length = a.attlen.toNat := length_take_of_le hold
      rw [hbytes, hlength] at hmem ⊢
      refine ⟨?_, fun off => by simp [attAddlength, hlen]⟩
      change attBytes a (.pointer mem) = attBytes a (.pointer old)
      rw [hbytes, hbytes, hmem]

section

variable {desc : TupleDesc} {row : Row desc} {t : HeapTuple}

theorem Formed.fetch (h : Formed row t) {i : Nat} (hi : i < desc.natts) (hval : row.nulls i = false) :
    SameValue (desc.attrs i) (row.value i) (heapFetchAtt (desc.attrs i) (t.data.drop (row.attOffset i))) :=
  (sameValue_fetch (desc.valid i hi) (row.fits i hi hval) (h.value i hi hval)).1

theorem Formed.addlength (h : Formed row t) {i : Nat} (hi : i < desc.natts) (hval : row.nulls i = false) :
    attAddlength (row.attOffset i) (desc.attrs i) (.pointer (t.data.drop (row.attOffset i))) =
      dataSize desc row.value row.nulls (i+1) := by
  rw [dataSize_value hi hval]
  exact (sameValue_fetch (desc.valid i hi) (row.fits i hi hval) (h.value i hi hval)).2 _

end

/-! ## Nulls before an attribute -/

theorem maskedNot_ne_zero (b : BitVec 8) (hm : m < 8) :
    ~~~b &&& BitVec.ofNat 8 (2^m - 1) ≠ 0#8 ↔ ∃ j < m, b.getLsbD j = false := by
  have hbit : ∀ j, (~~~b &&& BitVec.ofNat 8 (2^m - 1)).getLsbD j = (decide (j < m) && !b.getLsbD j) := by
    intro j
    rw [BitVec.getLsbD_and, BitVec.getLsbD_not, BitVec.getLsbD_ofNat, testBit_two_pow_sub_one]
    by_cases hj : j < m
    · have hj8 : j < 8 := by omega
      simp [hj, hj8]
    · simp [hj]
  constructor
  · intro hne
    by_contra hall
    refine hne (BitVec.eq_of_getLsbD_eq fun j _ => ?_)
    rw [hbit, BitVec.getLsbD_zero]
    by_cases hj : j < m
    · have hset : b.getLsbD j ≠ false := fun hfalse => hall ⟨j, hj, hfalse⟩
      simp [hset]
    · simp [hj]
  · rintro ⟨j, hj, hfalse⟩ hzero
    have hone := hbit j
    rw [hzero, BitVec.getLsbD_zero] at hone
    simp [hj, hfalse] at hone

theorem ne_allOnes (b : BitVec 8) : b ≠ 0xFF#8 ↔ ∃ j < 8, b.getLsbD j = false := by
  constructor
  · intro hne
    by_contra hall
    refine hne (BitVec.eq_of_getLsbD_eq fun j hj => ?_)
    have hset : b.getLsbD j ≠ false := fun hfalse => hall ⟨j, hj, hfalse⟩
    rw [show (0xFF#8) = BitVec.allOnes 8 from rfl, BitVec.getLsbD_allOnes]
    simp [hj, hset]
  · rintro ⟨j, hj, hfalse⟩ heq
    rw [heq, show (0xFF#8) = BitVec.allOnes 8 from rfl, BitVec.getLsbD_allOnes] at hfalse
    simp [hj] at hfalse

theorem nullBefore_iff (i : Nat) (bits : List (BitVec 8)) : nullBefore i bits ↔ ∃ k < i, attIsnull k bits := by
  have hbit : ∀ k, attIsnull k bits ↔ (bits.getD (k/8) 0#8).getLsbD (k % 8) = false := by
    intro k
    simp [attIsnull]
  unfold nullBefore
  rw [Bool.or_eq_true, decide_eq_true_eq, maskedNot_ne_zero _ (mod_lt _ (by decide)), any_eq_true]
  constructor
  · rintro (⟨j, hj, hfalse⟩ | ⟨byte, hbyte, hne⟩)
    · refine ⟨i / 8 * 8 + j, by omega, (hbit _).mpr ?_⟩
      rw [show (i / 8 * 8 + j) / 8 = i / 8 by omega, show (i / 8 * 8 + j) % 8 = j by omega]
      exact hfalse
    · obtain ⟨j, hj, hfalse⟩ := (ne_allOnes _).mp (of_decide_eq_true hne)
      have hlt := mem_range.mp hbyte
      refine ⟨byte * 8 + j, by omega, (hbit _).mpr ?_⟩
      rw [show (byte * 8 + j) / 8 = byte by omega, show (byte * 8 + j) % 8 = j by omega]
      exact hfalse
  · rintro ⟨k, hk, hnull⟩
    have hfalse := (hbit k).mp hnull
    by_cases hsame : k / 8 = i / 8
    · exact .inl ⟨k % 8, by omega, hsame ▸ hfalse⟩
    · refine .inr ⟨k / 8, mem_range.mpr (by omega), decide_eq_true ?_⟩
      exact (ne_allOnes _).mpr ⟨k % 8, by omega, hfalse⟩

section

variable {desc : TupleDesc} {row : Row desc} {t : HeapTuple} {i : Nat}

theorem Formed.slow_iff (h : Formed row t) (hi : i ≤ desc.natts) :
    (t.hasNull && nullBefore i t.bits) ↔ ∃ k < i, row.nulls k := by
  rw [Bool.and_eq_true, nullBefore_iff]
  constructor
  · rintro ⟨hnull, k, hk, hbit⟩
    exact ⟨k, hk, (h.bit hnull k (by omega)).symm.trans hbit⟩
  · rintro ⟨k, hk, hnull⟩
    have hany : t.hasNull := h.null.mpr ⟨k, by omega, hnull⟩
    exact ⟨hany, k, hk, (h.bit hany k (by omega)).trans hnull⟩

theorem Formed.null_iff (h : Formed row t) (hi : i < desc.natts) : (t.hasNull && attIsnull i t.bits) = row.nulls i := by
  by_cases hnull : t.hasNull
  · rw [hnull, Bool.true_and, h.bit hnull i hi]
  · have hfalse : row.nulls i ≠ true := fun hi' => hnull (h.null.mpr ⟨i, hi, hi'⟩)
    simp only [Bool.not_eq_true] at hnull hfalse
    rw [hnull, hfalse, Bool.false_and]

theorem Formed.fixed (h : Formed row t) (hi : i < desc.natts) (hnone : ∀ k ≤ i, row.nulls k = false)
    (htest : ¬ (t.hasVarlena && (List.range (i+1)).any fun j =>
      decide ((desc.attrs j).attlen < 1) && !varlenaFixedSize (desc.attrs j))) :
    ∀ k ≤ i, ∃ size, fixedSize (desc.attrs k) = some size := by
  intro k hk
  unfold fixedSize
  by_cases hfixed : varlenaFixedSize (desc.attrs k)
  · exact ⟨_, if_pos hfixed⟩
  · rw [if_neg hfixed]
    by_cases hlen : (desc.attrs k).attlen = -1
    · refine absurd ?_ htest
      have hvarlena : t.hasVarlena := h.varlena.mpr ⟨k, by omega, hnone k hk, hlen⟩
      rw [hvarlena, Bool.true_and, any_eq_true]
      exact ⟨k, mem_range.mpr (by omega), by simp [hlen, hfixed]⟩
    · exact ⟨_, if_neg hlen⟩

theorem fixedEnd_of_sizes (h : ∀ k < n, ∃ size, fixedSize (desc.attrs k) = some size) :
    ∃ off, fixedEnd desc n = some off := by
  induction n with
  | zero => exact ⟨0, rfl⟩
  | succ n ih =>
    obtain ⟨off, hoff⟩ := ih fun k hk => h k (by omega)
    obtain ⟨size, hsize⟩ := h n (by omega)
    exact ⟨_, fixedEnd_succ hoff hsize⟩

end

/-! ## The two loops -/

theorem skipCached_spec (cache : OffsetCache) (n j : Nat) : j ≤ skipCached cache j n ∧ skipCached cache j n ≤ j+n ∧
      ∀ m, j ≤ m → m < skipCached cache j n → 0 < cache m := by
  induction n generalizing j with
  | zero => exact ⟨le_rfl, le_rfl, fun m hm hm' => absurd hm' (not_lt.mpr hm)⟩
  | succ n ih =>
    rw [skipCached]
    split
    · next hpos =>
      obtain ⟨hlow, hhigh, hall⟩ := ih (j+1)
      refine ⟨by omega, by omega, fun m hm hm' => ?_⟩
      by_cases hmj : m = j
      · exact hmj ▸ hpos
      · exact hall m (by omega) hm'
    · exact ⟨le_rfl, by omega, fun m hm hm' => absurd hm' (not_lt.mpr hm)⟩

section

variable {desc : TupleDesc} {row : Row desc} {t : HeapTuple} {cache : OffsetCache} {i : Nat}

theorem cacheOffsets_before (n j off : Nat) (cache : OffsetCache) (hm : m < j) :
    cacheOffsets desc t n j off cache m = cache m := by
  induction n generalizing j off cache with
  | zero => rfl
  | succ n ih =>
    rw [cacheOffsets, ih _ _ _ (by omega), update_of_ne (by omega)]

theorem Formed.cacheOffsets (h : Formed row t) (n j off : Nat) (hs : Sound desc cache)
    (hn : j + n ≤ desc.natts) (hnone : ∀ k < j+n, row.nulls k = false)
    (hsizes : ∀ k < j+n, ∃ size, fixedSize (desc.attrs k) = some size)
    (hoff : fixedEnd desc j = some off) :
    Sound desc (cacheOffsets desc t n j off cache) ∧
      ∀ m, j ≤ m → m < j+n → cacheOffsets desc t n j off cache m ≠ -1 := by
  induction n generalizing j off cache with
  | zero => exact ⟨hs, fun m hm hm' => absurd hm' (not_lt.mpr hm)⟩
  | succ n ih =>
    have hat : attAlign off (desc.attrs j) = row.attOffset j := by
      rw [Row.attOffset, dataSize_fixed (by omega) (fun k hk => hnone k (by omega)) hoff]
    have hnext : attAddlength (attAlign off (desc.attrs j)) (desc.attrs j)
        (.pointer (t.data.drop (attAlign off (desc.attrs j)))) = dataSize desc row.value row.nulls (j+1) := by
      rw [hat]
      exact h.addlength (by omega) (hnone j (by omega))
    obtain ⟨off', hoff'⟩ := fixedEnd_of_sizes (n := j+1) (fun k hk => hsizes k (by omega))
    have hsize : dataSize desc row.value row.nulls (j+1) = off' :=
      dataSize_fixed (by omega) (fun k hk => hnone k (by omega)) hoff'
    have hset : Sound desc (update cache j (attAlign off (desc.attrs j))) := hs.update (fixedOffset_of_fixedEnd hoff)
    obtain ⟨hsound, hall⟩ := ih (j+1) off' hset (by omega) (fun k hk => hnone k (by omega))
      (fun k hk => hsizes k (by omega)) hoff'
    rw [Tuples.cacheOffsets, hnext, hsize]
    refine ⟨hsound, fun m hm hm' => ?_⟩
    by_cases hmj : m = j
    · rw [cacheOffsets_before _ _ _ _ (by omega), hmj, update_self]
      exact ne_of_gt (by omega)
    · exact hall m (by omega) (by omega)

structure Walked (row : Row desc) (w : Walk) (i : Nat) : Prop where
  off : w.off = dataSize desc row.value row.nulls i
  fixed : w.usecache → (∀ k < i, row.nulls k = false) ∧ ∃ off, fixedEnd desc i = some off
  sound : Sound desc w.cache

theorem Walked.null (h : Walked row w i) (hnull : row.nulls i) : Walked row { w with usecache := false } (i+1) where
  off := h.off.trans (dataSize_null hnull).symm
  fixed := nofun
  sound := h.sound

theorem Walked.fixedOffset (h : Walked row w i) (hi : i < desc.natts)
    (huse : w.usecache) : fixedOffset desc i = some (row.attOffset i) := by
  obtain ⟨hnone, off, hoff⟩ := h.fixed huse
  rw [fixedOffset_of_fixedEnd hoff, Row.attOffset, dataSize_fixed (by omega) hnone hoff]

theorem Walked.value (h : Walked row w i) (ht : Formed row t) (hi : i < desc.natts)
    (hval : row.nulls i = false) : Walked row (walkAttribute desc t w i) (i+1) := by
  have hskip : ¬ (t.hasNull && attIsnull i t.bits) := by
    rw [ht.null_iff hi, hval]
    exact nofun
  have hoff : (if (w.usecache && decide (w.cache i ≠ -1)) then (w.cache i).toNat
      else attAlign w.off (desc.attrs i)) = row.attOffset i := by
    split
    · next hknown =>
      simp only [Bool.and_eq_true, decide_eq_true_eq] at hknown
      exact h.sound.attOffset (by omega) (h.fixed hknown.1).1 hknown.2
    · rw [h.off, Row.attOffset]
  unfold walkAttribute
  rw [if_neg hskip]
  dsimp only
  rw [hoff]
  constructor
  · exact ht.addlength hi hval
  · intro huse
    simp only [Bool.and_eq_true, Bool.not_eq_true', Bool.and_eq_false_iff, decide_eq_false_iff_not,
      Bool.not_eq_false'] at huse
    obtain ⟨hnone, off, hend⟩ := h.fixed huse.1
    refine ⟨fun k hk => ?_, ?_⟩
    · by_cases hki : k = i
      · exact hki ▸ hval
      · exact hnone k (by omega)
    · have hsize : ∃ size, fixedSize (desc.attrs i) = some size := by
        unfold fixedSize
        by_cases hfixed : varlenaFixedSize (desc.attrs i)
        · exact ⟨_, if_pos hfixed⟩
        · rw [if_neg hfixed]
          exact ⟨_, if_neg (huse.2.resolve_right hfixed)⟩
      obtain ⟨size, hsize⟩ := hsize
      exact ⟨_, fixedEnd_succ hend hsize⟩
  · split
    · next hset =>
      simp only [Bool.and_eq_true] at hset
      exact h.sound.update (h.fixedOffset hi hset.1)
    · exact h.sound

theorem walked (ht : Formed row t) (hs : Sound desc cache) (i : Nat) (hi : i ≤ desc.natts) :
    Walked row ((List.range i).foldl (walkAttribute desc t) { usecache := true, off := 0, cache := cache }) i := by
  induction i with
  | zero => exact ⟨rfl, fun _ => ⟨fun k hk => absurd hk (not_lt_zero k), 0, rfl⟩, hs⟩
  | succ i ih =>
    rw [range_succ, foldl_append]
    have hprev := ih (by omega)
    by_cases hnull : row.nulls i
    · have hskip : (t.hasNull && attIsnull i t.bits) := (ht.null_iff hi).trans hnull
      have hstep := hprev.null hnull
      simp only [foldl_cons, foldl_nil, walkAttribute, hskip, if_true]
      exact hstep
    · exact hprev.value ht hi (by simpa using hnull)

end

/-! ## An attribute of a formed tuple -/

section

variable {desc : TupleDesc} {row : Row desc} {t : HeapTuple} {cache : OffsetCache} {i : Nat}

def ReadsAt (desc : TupleDesc) (row : Row desc) (t : HeapTuple) (i : Nat) (r : Datum × OffsetCache) : Prop :=
  r.1 = heapFetchAtt (desc.attrs i) (t.data.drop (row.attOffset i)) ∧ Sound desc r.2

theorem fixedEnd_next {j : Nat} (hoff : fixedOffset desc j = some off)
    (hsize : fixedSize (desc.attrs j) = some size) : fixedEnd desc (j+1) = some (off+size) := by
  obtain ⟨start, hstart, rfl⟩ := fixedEnd_of_fixedOffset hoff
  exact fixedEnd_succ hstart hsize

theorem lastEnd (ha : a.Valid) (hsize : fixedSize a = some size) :
    ((off : Int) + if varlenaFixedSize a then a.atttypmod else a.attlen).toNat = off+size := by
  unfold fixedSize at hsize
  split at hsize
  · next hfixed =>
    have hpos : 0 < a.atttypmod := by
      simp only [varlenaFixedSize, Bool.and_eq_true, decide_eq_true_eq] at hfixed
      exact hfixed.2
    have hsize' := Option.some.inj hsize
    rw [if_pos hfixed]
    omega
  · next hfixed =>
    split at hsize
    · exact absurd hsize nofun
    · next hlen =>
      have hpos := ha.len.resolve_left hlen
      have hsize' := Option.some.inj hsize
      rw [if_neg hfixed]
      omega

section

variable (h : Formed row t) (hs : Sound desc cache) (hi : i < desc.natts)
include h hs hi

theorem Formed.setOffsets (hzero : i ≠ 0) (hcache : cache i = -1) (hnone : ∀ k ≤ i, row.nulls k = false)
    (hsizes : ∀ k ≤ i, ∃ size, fixedSize (desc.attrs k) = some size) :
    let cache' := update cache 0 0
    let j := skipCached cache' 1 i
    let off := cache' (j-1) +
      if varlenaFixedSize (desc.attrs (j-1)) then (desc.attrs (j-1)).atttypmod
      else (desc.attrs (j-1)).attlen
    Sound desc (Tuples.cacheOffsets desc t (i+1 - j) j off.toNat cache') ∧
      Tuples.cacheOffsets desc t (i+1 - j) j off.toNat cache' i ≠ -1 := by
  intro cache' j off
  have hfirst : fixedOffset desc 0 = some 0 := by
    have hstart : fixedEnd desc 0 = some 0 := rfl
    rw [fixedOffset_of_fixedEnd hstart, attAlign_zero]
  have hs' : Sound desc cache' := hs.update hfirst
  obtain ⟨hlow, hhigh, hskipped⟩ := skipCached_spec cache' i 1
  have hlast : cache' i = -1 := (update_of_ne hzero ..).trans hcache
  -- the search stops at `i` at the latest
  have hj : j ≤ i := by
    by_contra hover
    have hpos := hskipped i (by omega) (by omega)
    omega
  have hknown : cache' (j-1) ≠ -1 := by
    by_cases hj1 : j - 1 = 0
    · rw [hj1]
      exact fun hneg => absurd ((update_self ..).symm.trans hneg) (by decide)
    · have hpos := hskipped (j-1) (by omega) (by omega)
      omega
  obtain ⟨start, hstart, heq⟩ := hs' (j-1) hknown
  obtain ⟨size, hsize⟩ := hsizes (j-1) (by omega)
  have hoff : off.toNat = start+size := by
    change (cache' (j-1) + _).toNat = _
    rw [heq]
    exact lastEnd (desc.valid _ (by omega)) hsize
  have hend : fixedEnd desc j = some off.toNat := by
    rw [hoff, ← fixedEnd_next hstart hsize, Nat.sub_add_cancel hlow]
  obtain ⟨hsound, hall⟩ := h.cacheOffsets (i+1 - j) j off.toNat hs' (by omega)
    (fun k hk => hnone k (by omega)) (fun k hk => hsizes k (by omega)) hend
  exact ⟨hsound, hall i hj (by omega)⟩

theorem Formed.nocachegetattr (hval : row.nulls i = false) : ReadsAt desc row t i (nocachegetattr desc t i cache) := by
  have hslow := h.slow_iff hi.le
  unfold Tuples.nocachegetattr
  dsimp only
  split
  · next hcached =>
    simp only [Bool.and_eq_true, Bool.not_eq_true', decide_eq_true_eq] at hcached
    have hnone : ∀ k < i, row.nulls k = false := by
      intro k hk
      by_contra hnull
      have hyes := hslow.mpr ⟨k, hk, by simpa using hnull⟩
      rw [hcached.1] at hyes
      exact absurd hyes nofun
    rw [hs.attOffset hi.le hnone hcached.2]
    exact ⟨rfl, hs⟩
  · next hcached =>
    split
    · next hfirst =>
      simp only [Bool.and_eq_true, decide_eq_true_eq] at hfirst
      have hplace : row.attOffset i = 0 := by
        rw [hfirst.2, Row.attOffset]
        exact attAlign_zero _
      refine ⟨?_, hs⟩
      rw [hplace, drop_zero]
    · next hfirst =>
      split
      · have hwalk := walked h hs i hi.le
        exact ⟨by rw [hwalk.off]; rfl, hwalk.sound⟩
      · next hquick =>
        simp only [Bool.or_eq_true, not_or] at hquick
        have hfast : (t.hasNull && nullBefore i t.bits) = false := by
          simpa only [Bool.not_eq_true] using hquick.1
        rw [hfast] at hcached hfirst
        have hcache : cache i = -1 := by simpa using hcached
        have hzero : i ≠ 0 := by simpa using hfirst
        have hnone : ∀ k ≤ i, row.nulls k = false := by
          intro k hk
          by_cases hki : k = i
          · exact hki ▸ hval
          · by_contra hnull
            exact hquick.1 (hslow.mpr ⟨k, by omega, by simpa using hnull⟩)
        have hsizes := h.fixed hi hnone hquick.2
        obtain ⟨hsound, hknown⟩ := h.setOffsets hs hi hzero hcache hnone hsizes
        have hplace : _ = row.attOffset i := hsound.attOffset hi.le (fun k hk => hnone k (by omega)) hknown
        exact ⟨by rw [hplace], hsound⟩

theorem Formed.heapGetAttr : Sound desc (heapGetAttr desc t (i+1) cache).2 ∧
      (row.nulls i → (heapGetAttr desc t (i+1) cache).1 = none) ∧
      (row.nulls i = false → (heapGetAttr desc t (i+1) cache).1 =
        some (heapFetchAtt (desc.attrs i) (t.data.drop (row.attOffset i)))) := by
  have hnull := h.null_iff hi
  have hrange : ¬ (i+1 = 0 ∨ t.tNatts < i+1) := by
    rw [h.natts]
    omega
  unfold Tuples.heapGetAttr
  rw [if_neg hrange, Nat.add_sub_cancel]
  cases hany : t.hasNull with
  | true =>
    rw [hany, Bool.true_and] at hnull
    rw [if_pos rfl]
    cases hbit : attIsnull i t.bits with
    | true => exact ⟨hs, fun _ => rfl, fun hval => absurd ((hnull.symm.trans hbit).symm.trans hval) nofun⟩
    | false =>
      have hval : row.nulls i = false := hnull.symm.trans hbit
      have hread := h.nocachegetattr hs hi hval
      exact ⟨hread.2, fun hi' => absurd (hval.symm.trans hi') nofun, fun _ => congrArg some hread.1⟩
  | false =>
    rw [hany, Bool.false_and] at hnull
    have hval : row.nulls i = false := hnull.symm
    have hnone : ∀ k < i, row.nulls k = false := by
      intro k hk
      by_contra hk'
      have hsome : t.hasNull := h.null.mpr ⟨k, by omega, by simpa using hk'⟩
      exact absurd (hany.symm.trans hsome) nofun
    rw [if_neg nofun]
    split
    · next hknown =>
      refine ⟨hs, fun hi' => absurd (hval.symm.trans hi') nofun, fun _ => ?_⟩
      have hplace : (if i + 1 ≠ 1 then (cache i).toNat else 0) = row.attOffset i := by
        split
        · next hlater =>
          exact hs.attOffset hi.le hnone (hknown.resolve_right hlater)
        · next hfirst =>
          have hzero : i = 0 := by omega
          rw [hzero, Row.attOffset]
          exact (attAlign_zero _).symm
      dsimp only
      rw [hplace]
    · have hread := h.nocachegetattr hs hi hval
      exact ⟨hread.2, fun hi' => absurd (hval.symm.trans hi') nofun, fun _ => congrArg some hread.1⟩

end

end

/-! ## The round trip -/

structure Call (desc : TupleDesc) where
  row : Row desc
  attnum : Nat

def cacheAfter (desc : TupleDesc) (cache : OffsetCache) (call : Call desc) : OffsetCache :=
  match heapFormtuple desc call.row.toValues with
  | .ok t => (heapGetAttr desc t call.attnum cache).2
  | .error _ => cache

theorem formed_of_formtuple {row : Row desc} {t : HeapTuple}
    (h : heapFormtuple desc row.toValues = .ok t) : Formed row t := by
  unfold heapFormtuple at h
  split at h
  · exact absurd h nofun
  · exact Except.ok.inj h ▸ formed_formTuple row

theorem natts_le_of_formtuple {v : Values} {t : HeapTuple}
    (h : heapFormtuple desc v = .ok t) : desc.natts ≤ maxHeapAttributeNumber := by
  unfold heapFormtuple at h
  split at h
  · exact absurd h nofun
  · next hnatts => exact not_lt.mp hnatts

theorem Sound.cacheAfter {cache : OffsetCache} (hs : Sound desc cache)
    (call : Call desc) : Sound desc (cacheAfter desc cache call) := by
  unfold Tuples.cacheAfter
  split
  · next t ht =>
    have hformed := formed_of_formtuple ht
    by_cases hrange : call.attnum = 0 ∨ t.tNatts < call.attnum
    · rw [heapGetAttr, if_pos hrange]
      exact hs
    · have hattnum : call.attnum = call.attnum - 1 + 1 := by omega
      rw [hattnum]
      rw [hformed.natts] at hrange
      exact (hformed.heapGetAttr hs (by omega)).1
  · exact hs

theorem sound_calls (calls : List (Call desc)) : Sound desc (calls.foldl (cacheAfter desc) OffsetCache.fresh) :=
  List.foldlRecOn calls (cacheAfter desc) (sound_fresh desc) (fun _ hs call _ => hs.cacheAfter call)

/-- **Round trip.** An attribute is read back as it was formed, whatever offsets earlier calls have left. -/
theorem heapGetAttr_heapFormtuple (desc : TupleDesc) (calls : List (Call desc)) (row : Row desc)
    (t : HeapTuple) (ht : heapFormtuple desc row.toValues = .ok t) (i : Nat) (hi : i < desc.natts) :
    let r := (heapGetAttr desc t (i+1) (calls.foldl (cacheAfter desc) OffsetCache.fresh)).1
    (row.nulls i → r = none) ∧
      (row.nulls i = false → ∃ d, r = some d ∧ SameValue (desc.attrs i) (row.value i) d) := by
  intro r
  have hformed := formed_of_formtuple ht
  obtain ⟨_, hnull, hval⟩ := hformed.heapGetAttr (sound_calls calls) hi
  exact ⟨hnull, fun h => ⟨_, hval h, hformed.fetch hi h⟩⟩

def sampleAttrs : Nat → FormPgAttribute
  | 0 => { atttypid := 23, attlen := 4, atttypmod := -1, attbyval := true, attalign := .int, attstorage := .plain }
  | 1 => { atttypid := 25, attlen := -1, atttypmod := -1, attbyval := false, attalign := .int, attstorage := .plain }
  | _ => { atttypid := 21, attlen := 2, atttypmod := -1, attbyval := true, attalign := .short, attstorage := .plain }

theorem sampleAttrs_valid (i : Nat) : (sampleAttrs i).Valid := by
  match i with
  | 0 => exact ⟨by decide, by decide, by decide⟩
  | 1 => exact ⟨by decide, by decide, by decide⟩
  | _ + 2 => exact ⟨by simp [sampleAttrs], by simp [sampleAttrs], by simp [sampleAttrs, bpcharOid]⟩

def sampleDesc : TupleDesc := ⟨3, sampleAttrs, fun i _ => sampleAttrs_valid i⟩

def sampleRow (null : Bool) (text : List UInt8) (htext : 4 ≤ varsize text ∧ varsize text ≤ text.length) :
    Row sampleDesc where
  value
    | 0 => .word 7
    | 1 => .pointer text
    | _ => .word 9
  nulls i := i = 0 && null
  fits i _ _ := by
    match i with
    | 0 => exact (rfl : (sampleAttrs 0).inWord)
    | 1 => exact ⟨rfl, htext.1, htext.2, nofun⟩
    | _ + 2 => exact (rfl : (sampleAttrs 2).inWord)

/-- Two other rows have been read before. -/
theorem heapGetAttr_heapFormtuple_text :
    ∃ d, (heapGetAttr sampleDesc (formTuple sampleDesc (sampleRow false [6, 0, 0, 0, 65, 66] (by decide)).toValues) 2
        ([⟨sampleRow true [5, 0, 0, 0, 67] (by decide), 3⟩,
          ⟨sampleRow false [4, 0, 0, 0] (by decide), 3⟩].foldl (cacheAfter sampleDesc)
            OffsetCache.fresh)).1 = some d ∧
      SameValue (sampleAttrs 1) (.pointer [6, 0, 0, 0, 65, 66]) d :=
  (heapGetAttr_heapFormtuple sampleDesc _ (sampleRow false [6, 0, 0, 0, 65, 66] (by decide)) _ rfl 1
    (by decide)).2 rfl

end WeaverDB.Tuples
