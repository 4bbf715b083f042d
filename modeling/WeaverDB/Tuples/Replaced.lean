import WeaverDB.Tuples.CachedOffsets

/-! # Replacing attributes, and the length of tuples

`heap_modifytuple` forms a tuple from another one and replacements. The length depends on the sizes of
the values only (`layoutSize`).
-/

namespace WeaverDB.Tuples
open Foundations Function

variable {cache : OffsetCache} {a : FormPgAttribute}

theorem SameValue.attBytes_eq {d d' : Datum} (h : SameValue a d d') : attBytes a d' = attBytes a d := by
  cases d with
  | word w =>
    cases d' with
    | word w' =>
      have hbytes : leBytes a.attlen.toNat w'.toNat = leBytes a.attlen.toNat w.toNat := h
      simp only [attBytes, hbytes]
    | pointer mem' => exact absurd h id
  | pointer mem =>
    cases d' with
    | word w' => exact absurd h id
    | pointer mem' => exact h

theorem fits_fetch {d : Datum} (ha : a.Valid) (hd : Fits a d) {mem : List UInt8}
    (hmem : mem.take (attBytes a d).length = attBytes a d) : Fits a (heapFetchAtt a mem) := by
  have hlength : (attBytes a d).length ≤ mem.length := by
    have hlen := congrArg List.length hmem
    rw [List.length_take] at hlen
    omega
  cases hword : a.inWord with
  | true =>
    rw [(heapFetchAtt_word ha hword mem).2]
    exact hword
  | false =>
    have hfetch : heapFetchAtt a mem = .pointer mem := by
      unfold heapFetchAtt
      rw [if_neg (by simp [hword])]
    rw [hfetch]
    cases d with
    | word w => exact absurd (hword.symm.trans hd) nofun
    | pointer old =>
      refine ⟨hword, ?_⟩
      have hold := hd.2
      by_cases hlen : a.attlen = -1
      · rw [if_pos hlen] at hold ⊢
        have hbytes : attBytes a (.pointer old) = old.take (varsize old) := by
          simp [attBytes, hword, hlen]
        have hold' : (old.take (varsize old)).length = varsize old := List.length_take_of_le hold.2.1
        rw [hbytes, hold'] at hmem hlength
        rw [varsize_of_take hold.1 hmem]
        exact ⟨hold.1, hlength, hold.2.2⟩
      · rw [if_neg hlen] at hold ⊢
        have hbytes : attBytes a (.pointer old) = old.take a.attlen.toNat := by
          simp [attBytes, hword, hlen]
        rw [hbytes, List.length_take_of_le hold] at hlength
        exact hlength

section

variable {desc : TupleDesc} {row : Row desc} {t : HeapTuple} {repl : Nat → Option Datum}

def replacedValue (row : Row desc) (t : HeapTuple) (repl : Nat → Option Datum) (i : Nat) : Datum :=
  (repl i).getD (heapFetchAtt (desc.attrs i) (t.data.drop (row.attOffset i)))

variable {n : Nat}

theorem modifiedValues_spec (ht : Formed row t)
    (hrepl : ∀ i < desc.natts, row.nulls i → repl i = none) (hs : Sound desc cache)
    (hn : n ≤ desc.natts) : Sound desc (modifiedValues desc t repl n cache).2 ∧
      (∀ i < n, (modifiedValues desc t repl n cache).1.nulls i = row.nulls i) ∧
      (∀ i, n ≤ i → (modifiedValues desc t repl n cache).1.nulls i) ∧
      ∀ i < n, row.nulls i = false → (modifiedValues desc t repl n cache).1.value i = replacedValue row t repl i := by
  induction n with
  | zero =>
    exact ⟨hs, fun i hi => absurd hi (Nat.not_lt_zero i), fun _ _ => rfl, fun i hi => absurd hi (Nat.not_lt_zero i)⟩
  | succ n ih =>
    obtain ⟨hsound, hnulls, hbeyond, hvalue⟩ := ih (by omega)
    rw [modifiedValues]
    obtain ⟨v, cache', hv⟩ : ∃ v cache', modifiedValues desc t repl n cache = (v, cache') := ⟨_, _, rfl⟩
    rw [hv] at hsound hnulls hbeyond hvalue ⊢
    dsimp only at hsound hnulls hbeyond hvalue ⊢
    -- setting attribute `n` to a value that is right
    have hset : ∀ (d : Datum) (cache'' : OffsetCache), Sound desc cache'' → row.nulls n = false →
        d = replacedValue row t repl n →
        Sound desc cache'' ∧ (∀ i < n+1, update v.nulls n false i = row.nulls i) ∧
          (∀ i, n+1 ≤ i → update v.nulls n false i) ∧
          ∀ i < n+1, row.nulls i = false → update v.value n d i = replacedValue row t repl i := by
      intro d cache'' hcache hval hd
      refine ⟨hcache, fun i hi => ?_, fun i hi => ?_, fun i hi hi' => ?_⟩
      · by_cases hin : i = n
        · rw [hin, update_self, hval]
        · rw [update_of_ne hin, hnulls i (by omega)]
      · rw [update_of_ne (by omega), hbeyond i (by omega)]
      · by_cases hin : i = n
        · rw [hin, update_self, hd]
        · rw [update_of_ne hin, hvalue i (by omega) hi']
    cases hr : repl n with
    | some d =>
      have hval : row.nulls n = false := by
        by_contra hnull
        have hnone := hrepl n (by omega) (by simpa using hnull)
        exact absurd (hr.symm.trans hnone) nofun
      exact hset d cache' hsound hval (by rw [replacedValue, hr]; rfl)
    | none =>
      obtain ⟨hsound', hnull, hval⟩ := ht.heapGetAttr hsound (show n < desc.natts by omega)
      obtain ⟨r, cache'', hget⟩ : ∃ r cache'', heapGetAttr desc t (n+1) cache' = (r, cache'') := ⟨_, _, rfl⟩
      rw [hget] at hsound' hnull hval
      dsimp only at hsound' hnull hval
      dsimp only
      rw [hget]
      cases hn' : row.nulls n with
      | true =>
        rw [hnull hn']
        refine ⟨hsound', fun i hi => ?_, fun i hi => hbeyond i (by omega), fun i hi hi' => ?_⟩
        · by_cases hin : i = n
          · rw [hin, hn']
            exact hbeyond n (Nat.le_refl n)
          · exact hnulls i (by omega)
        · have hin : i ≠ n := fun hin => by simp [hin, hn'] at hi'
          exact hvalue i (by omega) hi'
      | false =>
        rw [hval hn']
        exact hset _ cache'' hsound' hn' (by rw [replacedValue, hr]; rfl)

theorem heapModifytuple_spec (ht : Formed row t) (hnatts : desc.natts ≤ maxHeapAttributeNumber)
    (hrepl : ∀ i < desc.natts, row.nulls i → repl i = none)
    (hfits : ∀ i < desc.natts, ∀ d, repl i = some d → Fits (desc.attrs i) d)
    (hs : Sound desc cache) :
    ∃ (row' : Row desc) (cache' : OffsetCache),
      heapModifytuple desc t repl cache = (.ok (formTuple desc row'.toValues), cache') ∧
      Sound desc cache' ∧ (∀ i < desc.natts, row'.nulls i = row.nulls i) ∧
      ∀ i < desc.natts, row.nulls i = false → row'.value i = replacedValue row t repl i := by
  obtain ⟨hsound, hnulls, _, hvalue⟩ := modifiedValues_spec ht hrepl hs (le_rfl)
  let row' : Row desc :=
    { toValues := (modifiedValues desc t repl desc.natts cache).1
      fits := fun i hi hval => by
        have hval' : row.nulls i = false := (hnulls i hi).symm.trans hval
        rw [hvalue i hi hval', replacedValue]
        cases hr : repl i with
        | some d => exact hfits i hi d hr
        | none => exact fits_fetch (desc.valid i hi) (row.fits i hi hval') (ht.value i hi hval') }
  refine ⟨row', (modifiedValues desc t repl desc.natts cache).2, ?_, hsound, hnulls, hvalue⟩
  unfold heapModifytuple heapFormtuple
  dsimp only
  rw [if_neg (not_lt.mpr hnatts)]

end

theorem Formed.read {desc : TupleDesc} {row : Row desc} {t : HeapTuple}
    (h : Formed row t) (hs : Sound desc cache) {i : Nat} (hi : i < desc.natts) :
    (row.nulls i → (Tuples.heapGetAttr desc t (i+1) cache).1 = none) ∧
    (row.nulls i = false → ∃ d, (Tuples.heapGetAttr desc t (i+1) cache).1 = some d ∧
      attBytes (desc.attrs i) d = row.bytes i) := by
  obtain ⟨_, hnull, hval⟩ := h.heapGetAttr hs hi
  exact ⟨hnull, fun hv => ⟨_, hval hv, (h.fetch hi hv).attBytes_eq⟩⟩

def layoutSize (desc : TupleDesc) (nulls : Nat → Bool) (size : Nat → Nat) : Nat → Nat
  | 0 => 0
  | i + 1 =>
    if nulls i then layoutSize desc nulls size i
    else attAlign (layoutSize desc nulls size i) (desc.attrs i) + size i

section

variable {desc : TupleDesc} {nulls : Nat → Bool} {size size' : Nat → Nat}

theorem layoutSize_congr {n : Nat} {nulls' : Nat → Bool} (hnulls : ∀ i < n, nulls' i = nulls i)
    (h : ∀ i < n, nulls i = false → size' i = size i) :
    layoutSize desc nulls' size' n = layoutSize desc nulls size n := by
  induction n with
  | zero => rfl
  | succ n ih =>
    rw [layoutSize, layoutSize, hnulls n (by omega), ih (fun i hi => hnulls i (by omega)) fun i hi => h i (by omega)]
    split
    · rfl
    · next hval => rw [h n (by omega) (by simpa using hval)]

theorem dataSize_eq_layoutSize (row : Row desc) {n : Nat} (hn : n ≤ desc.natts) :
    dataSize desc row.value row.nulls n = layoutSize desc row.nulls (fun i => (row.bytes i).length) n := by
  induction n with
  | zero => rfl
  | succ n ih =>
    rw [layoutSize, ← ih (by omega)]
    by_cases hnull : row.nulls n
    · rw [if_pos hnull, dataSize_null hnull]
    · rw [if_neg hnull, dataSize_value (by omega) (by simpa using hnull)]
      rfl

end

end WeaverDB.Tuples
