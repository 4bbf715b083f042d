import WeaverDB.Locks.Manager

/-! # The counts of a lock

The counts of a lock and those of its holders agree in every step, so `LockResolveConflicts`, which only
looks at counts, finds out whether another thread holds a conflicting mode.
-/

namespace WeaverDB.Locks
open Foundations Function

variable {ctl : LockMethodCtl} {s : Lock} {t : ThreadId} {xid : TransactionId} {m : LockMode}
  {q : List LockMode} {h : Holder}

/-! ## Holders -/

theorem holder_tag (s : Lock) (t : ThreadId) (xid : TransactionId) : (s.holder t xid).tag = (t, xid) := by
  unfold Lock.holder
  cases h : lookup Holder.tag (t, xid) s.holderTable with
  | none => rfl
  | some holder => exact lookup_key h

theorem holder_thread (s : Lock) (t : ThreadId) (xid : TransactionId) : (s.holder t xid).thread = t :=
  congrArg Prod.fst (holder_tag s t xid)

theorem holder_eq (hfound : lookup Holder.tag (t, xid) s.holderTable = some h) : s.holder t xid = h := by
  unfold Lock.holder
  rw [hfound]
  rfl

theorem holder_mem (h : (s.holder t xid).nHolding ≠ 0) : s.holder t xid ∈ s.holderTable := by
  unfold Lock.holder at h ⊢
  cases hfound : lookup Holder.tag (t, xid) s.holderTable with
  | none => exact absurd rfl (hfound ▸ h)
  | some holder => exact lookup_mem hfound

theorem total_holder (hkeyed : Keyed Holder.tag s.holderTable) (t : ThreadId)
    (xid : TransactionId) (f : Holder → Nat) (hf : f ⟨t, xid, fun _ => 0, 0⟩ = 0) :
    total f s.holderTable = f (s.holder t xid) + total f (without Holder.tag (t, xid) s.holderTable) := by
  cases hfound : lookup Holder.tag (t, xid) s.holderTable with
  | none =>
    have hblank : s.holder t xid = ⟨t, xid, fun _ => 0, 0⟩ := by
      unfold Lock.holder
      rw [hfound]
      rfl
    rw [hblank, hf, zero_add, without_eq_self fun w hw => lookup_none hfound hw]
  | some holder =>
    rw [holder_eq hfound, hkeyed.total_eq (lookup_mem hfound) f, lookup_key hfound]

theorem total_put (htag : h.tag = (t, xid)) (f : Holder → Nat) : total f (put Holder.tag h s.holderTable) =
      f h + total f (without Holder.tag (t, xid) s.holderTable) := by
  rw [put, total_cons, htag]

theorem total_update_add (f : LockMode → Nat) (m : LockMode) :
    total (update f m (f m + 1)) lockModes = total f lockModes + 1 := by
  cases m <;> simp [total, lockModes, update] <;> omega

theorem total_update_sub {f : LockMode → Nat} (h : f m ≠ 0) :
    total (update f m (f m - 1)) lockModes = total f lockModes - 1 := by
  cases m <;> simp [total, lockModes, update] <;> omega

variable (f : LockMode → Int)

theorem update_add_one (m i : LockMode) : update f m (f m + 1) i = f i + ([m].count i : Nat) := by
  rcases eq_or_ne i m with rfl | hne <;> simp [*, Ne.symm]

theorem update_sub_one (m i : LockMode) : update f m (f m - 1) i = f i - ([m].count i : Nat) := by
  rcases eq_or_ne i m with rfl | hne <;> simp [*, Ne.symm]

theorem count_request (m i : LockMode) (q : List LockMode) : (m :: q).count i = [m].count i + q.count i :=
  @List.count_append _ _ i [m] q

/-! ## The invariant -/

structure Counts (s : Lock) (q : List LockMode) : Prop where
  keyed : Keyed Holder.tag s.holderTable
  sums : ∀ h ∈ s.holderTable, h.nHolding = total h.holders lockModes
  active : ∀ i, s.activeHolders i = total (fun h => h.holders i) s.holderTable
  nActive : s.nActive = total Holder.nHolding s.holderTable
  holders : ∀ i, s.holders i = s.activeHolders i + q.count i
  nHolding : s.nHolding = s.nActive+q.length
  mask : ∀ i, s.activeHolders i ≠ 0 → s.mask i = true

theorem Counts.perm {q' : List LockMode} (h : Counts s q) (hq : q.Perm q') : Counts s q' :=
  { h with
    holders := fun i => by rw [h.holders i, hq.count_eq]
    nHolding := by rw [h.nHolding, hq.length_eq] }

theorem Counts.holder_sums (h : Counts s q) (t : ThreadId) (xid : TransactionId) :
    (s.holder t xid).nHolding = total (s.holder t xid).holders lockModes := by
  unfold Lock.holder
  cases hfound : lookup Holder.tag (t, xid) s.holderTable with
  | none => rfl
  | some holder => exact h.sums holder (lookup_mem hfound)

theorem holders_eq_zero (hsum : h.nHolding = total h.holders lockModes) (hzero : h.nHolding = 0)
    (i : LockMode) : h.holders i = 0 :=
  Nat.eq_zero_of_le_zero (hzero ▸ hsum ▸ le_total h.holders (mem_lockModes i))

theorem Counts.active_split (h : Counts s q) (t : ThreadId) (xid : TransactionId) (i : LockMode) :
    s.activeHolders i = ((s.holder t xid).holders i +
      total (fun x => x.holders i) (without Holder.tag (t, xid) s.holderTable) : Nat) := by
  rw [h.active i, total_holder h.keyed t xid (fun x => x.holders i) rfl]

theorem Counts.nActive_split (h : Counts s q) (t : ThreadId) (xid : TransactionId) :
    s.nActive = ((s.holder t xid).nHolding +
      total Holder.nHolding (without Holder.tag (t, xid) s.holderTable) : Nat) := by
  rw [h.nActive, total_holder h.keyed t xid Holder.nHolding rfl]

theorem Counts.enterHolder (h : Counts s q) (t : ThreadId) (xid : TransactionId) :
    Counts (s.setHolder (s.holder t xid)) q := by
  have hput := @total_put s t xid _ (holder_tag s t xid)
  refine { h with keyed := h.keyed.put, sums := ?_, active := ?_, nActive := ?_ }
  · intro x hx
    obtain rfl | ⟨hx, _⟩ := mem_put.mp hx
    · exact h.holder_sums t xid
    · exact h.sums x hx
  · exact fun i => (h.active_split t xid i).trans (congrArg Nat.cast (hput fun x => x.holders i).symm)
  · exact (h.nActive_split t xid).trans (congrArg Nat.cast (hput _).symm)

theorem Counts.request (h : Counts s q) (m : LockMode) : Counts (s.request m) (m :: q) := by
  refine { h with holders := ?_, nHolding := ?_ }
  · intro i
    change update s.holders m (s.holders m + 1) i = s.activeHolders i + (m :: q).count i
    have hold := h.holders i
    rw [count_request, update_add_one]
    omega
  · have hold := h.nHolding
    change s.nHolding + 1 = s.nActive + (m :: q).length
    rw [List.length_cons]
    omega

theorem Counts.withdraw (h : Counts s (m :: q)) : Counts (s.withdraw m) q := by
  refine { h with holders := ?_, nHolding := ?_ }
  · intro i
    change update s.holders m (s.holders m - 1) i = s.activeHolders i + q.count i
    have hold := h.holders i
    rw [count_request] at hold
    rw [update_sub_one]
    omega
  · have hold := h.nHolding
    rw [List.length_cons] at hold
    change s.nHolding - 1 = s.nActive+q.length
    omega

theorem Counts.dropIdle (h : Counts s q) (hidle : (s.holder t xid).nHolding = 0) : Counts (s.dropHolder t xid) q := by
  have hzero := holders_eq_zero (h.holder_sums t xid) hidle
  refine { h with keyed := h.keyed.without, sums := ?_, active := ?_, nActive := ?_ }
  · exact fun x hx => h.sums x (mem_without.mp hx).1
  · intro i
    have hsplit := h.active_split t xid i
    rwa [hzero i, zero_add] at hsplit
  · have hsplit := h.nActive_split t xid
    rwa [hidle, zero_add] at hsplit

theorem Counts.grant (h : Counts s (m :: q)) (t : ThreadId) (xid : TransactionId) : Counts (grantLock t xid m s) q := by
  let holder := s.holder t xid
  let granted : Holder := { holder with
    holders := update holder.holders m (holder.holders m + 1)
    nHolding := holder.nHolding + 1 }
  have htag : granted.tag = (t, xid) := holder_tag s t xid
  refine ⟨h.keyed.put, ?_, ?_, ?_, ?_, ?_, ?_⟩
  · intro x hx
    obtain rfl | ⟨hx, _⟩ := mem_put.mp hx
    · rw [total_update_add, h.holder_sums t xid]
    · exact h.sums x hx
  · intro i
    change update s.activeHolders m (s.activeHolders m + 1) i =
      (total (fun x => x.holders i) (put Holder.tag granted s.holderTable) : Nat)
    have hold : s.activeHolders i = (holder.holders i + _ : Nat) := h.active_split t xid i
    rw [total_put htag]
    obtain rfl | hne := eq_or_ne i m
    · rw [update_self, show granted.holders i = holder.holders i + 1 from update_self ..]
      omega
    · rw [update_of_ne hne, show granted.holders i = holder.holders i from update_of_ne hne ..]
      exact hold
  · have hold := h.nActive_split t xid
    change s.nActive + 1 = (total Holder.nHolding (put Holder.tag granted s.holderTable) : Nat)
    rw [total_put htag, hold]
    change ((holder.nHolding + _ : Nat) : Int) + 1 = (holder.nHolding + 1 + _ : Nat)
    omega
  · intro i
    have hold := h.holders i
    rw [count_request] at hold
    change s.holders i = update s.activeHolders m (s.activeHolders m + 1) i + q.count i
    rw [update_add_one]
    omega
  · have hold := h.nHolding
    rw [List.length_cons] at hold
    change s.nHolding = s.nActive + 1 + q.length
    omega
  · intro i hi
    change update s.activeHolders m (s.activeHolders m + 1) i ≠ 0 at hi
    change update s.mask m true i
    rw [update_apply] at hi ⊢
    split
    · rfl
    · next hne => exact h.mask i (by rwa [if_neg hne] at hi)

theorem Counts.dropGrant (h : Counts s q) {holder : Holder}
    (hfound : lookup Holder.tag (t, xid) s.holderTable = some holder) (hm : holder.holders m ≠ 0) :
    Counts (dropGrant t xid m holder s) q := by
  let updated : Holder := { holder with
    holders := update holder.holders m (holder.holders m - 1)
    nHolding := holder.nHolding - 1 }
  let table := if updated.nHolding = 0 then without Holder.tag (t, xid) s.holderTable
    else put Holder.tag updated s.holderTable
  have htag : updated.tag = (t, xid) := (show updated.tag = holder.tag from rfl).trans (lookup_key hfound)
  have hsum := h.sums holder (lookup_mem hfound)
  have hupdated : updated.nHolding = total updated.holders lockModes := by
    change holder.nHolding - 1 = total (update _ m _) _
    rw [total_update_sub hm, hsum]
  have hheld : holder.holders m ≤ holder.nHolding := hsum ▸ le_total holder.holders (mem_lockModes m)
  -- an updated holder without grants may as well be gone
  have htotal (f : Holder → Nat) (hf : updated.nHolding = 0 → f updated = 0) :
      total f table = f updated + total f (without Holder.tag (t, xid) s.holderTable) := by
    change total f (if _ then _ else _) = _
    split
    · next hz => rw [hf hz, zero_add]
    · exact total_put htag f
  have hactive (i : LockMode) : update s.activeHolders m (s.activeHolders m - 1) i =
      total (fun x => x.holders i) table := by
    have hold := h.active_split t xid i
    rw [holder_eq hfound] at hold
    rw [htotal _ fun hz => holders_eq_zero hupdated hz i]
    change _ = ((update holder.holders m (holder.holders m - 1) i + _ : Nat) : Int)
    obtain rfl | hne := eq_or_ne i m
    · rw [update_self, update_self]
      omega
    · rw [update_of_ne hne, update_of_ne hne]
      exact hold
  refine ⟨?_, ?_, hactive, ?_, ?_, ?_, ?_⟩
  · change Keyed Holder.tag (if _ then _ else _)
    split
    · exact h.keyed.without
    · exact h.keyed.put
  · intro x hx
    have hcases : x = updated ∨ x ∈ s.holderTable := by
      change x ∈ (if _ then _ else _) at hx
      split at hx
      · exact .inr (mem_without.mp hx).1
      · exact (mem_put.mp hx).imp_right And.left
    obtain rfl | hx := hcases
    · exact hupdated
    · exact h.sums x hx
  · have hold := h.nActive_split t xid
    rw [holder_eq hfound] at hold
    change s.nActive - 1 = ((total Holder.nHolding table : Nat) : Int)
    rw [htotal _ id]
    change s.nActive - 1 = ((holder.nHolding - 1 + _ : Nat) : Int)
    omega
  · intro i
    have hold := h.holders i
    change update s.holders m (s.holders m - 1) i = update s.activeHolders m (s.activeHolders m - 1) i + q.count i
    rw [update_sub_one, update_sub_one]
    omega
  · have hold := h.nHolding
    change s.nHolding - 1 = s.nActive - 1 + q.length
    omega
  · intro i hi
    change update s.activeHolders m (s.activeHolders m - 1) i ≠ 0 at hi
    change (if s.activeHolders m - 1 = 0 then update s.mask m false else s.mask) i
    obtain rfl | hne := eq_or_ne i m
    · rw [update_self] at hi
      rw [if_neg hi]
      have hle := le_total (fun x : Holder => x.holders i) (lookup_mem hfound)
      have hold := h.active i
      exact h.mask i (by omega)
    · rw [update_of_ne hne] at hi
      split
      · rw [update_of_ne hne]
        exact h.mask i hi
      · exact h.mask i hi

theorem Counts.dropGrants (h : Counts s q) (t : ThreadId) (xid : TransactionId) : Counts (dropGrants t xid s) q := by
  let holder := s.holder t xid
  have hactive (i : LockMode) : s.activeHolders i - holder.holders i =
      total (fun x => x.holders i) (without Holder.tag (t, xid) s.holderTable) := by
    have hold : s.activeHolders i = (holder.holders i + _ : Nat) := h.active_split t xid i
    omega
  have hnActive : s.nActive - holder.nHolding = total Holder.nHolding (without Holder.tag (t, xid) s.holderTable) := by
    have hold : s.nActive = (holder.nHolding + _ : Nat) := h.nActive_split t xid
    omega
  have hsums (x : Holder) (hx : x ∈ without Holder.tag (t, xid) s.holderTable) :
      x.nHolding = total x.holders lockModes := h.sums x (mem_without.mp hx).1
  have hnHolding := h.nHolding
  change Counts (if s.nHolding ≠ holder.nHolding then _ else _) q
  split
  · refine ⟨h.keyed.without, hsums, hactive, hnActive, ?_, ?_, ?_⟩
    · intro i
      have hold := h.holders i
      change s.holders i - holder.holders i = s.activeHolders i - holder.holders i + q.count i
      omega
    · change s.nHolding - holder.nHolding = s.nActive - holder.nHolding + q.length
      omega
    · intro i hi
      change s.activeHolders i - holder.holders i ≠ 0 at hi
      change (if s.activeHolders i - holder.holders i = 0 then false else s.mask i)
      rw [if_neg hi]
      have hrest := hactive i
      exact h.mask i (by omega)
  · next hlast =>
    -- the lock has no other use: no other grant, and no request that waits
    have hlast : s.nHolding = holder.nHolding := Decidable.not_not.mp hlast
    have hrest : total Holder.nHolding (without Holder.tag (t, xid) s.holderTable) = 0 := by omega
    have hempty : q = [] := List.eq_nil_of_length_eq_zero (by omega)
    have hzero (i : LockMode) : total (fun x => x.holders i) (without Holder.tag (t, xid) s.holderTable) = 0 := by
      refine Nat.eq_zero_of_le_zero (le_trans ?_ hrest.le)
      exact total_le fun x hx => hsums x hx ▸ le_total x.holders (mem_lockModes i)
    subst hempty
    refine ⟨h.keyed.without, hsums, fun i => congrArg Nat.cast (hzero i).symm,
      congrArg Nat.cast hrest.symm, fun i => rfl, rfl, fun i hi => absurd rfl hi⟩

/-! ## Conflicts -/

def Compatible (ctl : LockMethodCtl) (t : ThreadId) (m : LockMode) (s : Lock) : Prop :=
  ∀ h ∈ s.holderTable, h.thread ≠ t → ∀ i, h.holders i ≠ 0 → ctl.conflictTab m i = false

theorem Counts.others_hold_iff (h : Counts s q) (t : ThreadId) (i : LockMode) :
    s.activeHolders i ≠ lockCountMyLocks t s i ↔ ∃ x ∈ s.holderTable, x.thread ≠ t ∧ x.holders i ≠ 0 := by
  rw [h.active i]
  unfold lockCountMyLocks
  constructor
  · intro hne
    obtain ⟨x, hx, hp, hi⟩ := exists_of_total_filter_lt (fun x : Holder => x.holders i)
      (p := fun x => decide (x.thread = t)) fun heq => hne (congrArg Nat.cast heq.symm)
    exact ⟨x, hx, of_decide_eq_false hp, hi⟩
  · rintro ⟨x, hx, ht, hi⟩ heq
    have hlt := total_filter_lt (fun x : Holder => x.holders i)
      (p := fun x => decide (x.thread = t)) hx (decide_eq_false ht) hi
    omega

theorem Counts.resolve_iff (h : Counts s q) : lockResolveConflicts ctl m t s ↔ Compatible ctl t m s := by
  unfold lockResolveConflicts
  rw [Bool.or_eq_true, Bool.not_eq_true', Bool.not_eq_true']
  constructor
  · rintro (hmask | hothers) x hx ht i hi
    · -- a mode that is held is in the mask
      refine eq_false_of_ne_true fun hconflict => ?_
      have hle := le_total (fun x : Holder => x.holders i) hx
      have hactive : s.activeHolders i ≠ 0 := by
        rw [h.active i]
        omega
      exact absurd ((meets_eq_false hmask hconflict).symm.trans (h.mask i hactive)) (by decide)
    · refine eq_false_of_ne_true fun hconflict => ?_
      have hnone := meets_eq_false hothers hconflict
      exact of_decide_eq_false hnone ((h.others_hold_iff t i).mpr ⟨x, hx, ht, hi⟩)
  · intro hcompatible
    refine .inr (eq_false_of_ne_true fun hmeets => ?_)
    obtain ⟨i, hconflict, hi⟩ := meets_iff.mp hmeets
    obtain ⟨x, hx, ht, hheld⟩ := (h.others_hold_iff t i).mp (of_decide_eq_true hi)
    exact absurd ((hcompatible x hx ht i hheld).symm.trans hconflict) (by decide)

def Exclusion (ctl : LockMethodCtl) (s : Lock) : Prop :=
  ∀ h ∈ s.holderTable, ∀ h' ∈ s.holderTable, h.thread ≠ h'.thread → ∀ i i', h.holders i ≠ 0 →
    h'.holders i' ≠ 0 → ctl.conflictTab i i' = false

theorem Exclusion.compatible (h : Exclusion ctl s) {x : Holder} (hx : x ∈ s.holderTable)
    (hm : x.holders m ≠ 0) : Compatible ctl x.thread m s :=
  fun y hy ht i hi => h x hx y hy (Ne.symm ht) m i hm hi

theorem Exclusion.mono {s' : Lock} (h : Exclusion ctl s) (hless : ∀ x ∈ s'.holderTable, ∀ i, x.holders i ≠ 0 →
      ∃ y ∈ s.holderTable, y.thread = x.thread ∧ y.holders i ≠ 0) : Exclusion ctl s' := by
  intro x hx x' hx' ht i i' hi hi'
  obtain ⟨y, hy, hyt, hyi⟩ := hless x hx i hi
  obtain ⟨y', hy', hyt', hyi'⟩ := hless x' hx' i' hi'
  exact h y hy y' hy' (by rwa [hyt, hyt']) i i' hyi hyi'

theorem Exclusion.grant (h : Exclusion ctl s) (hcompatible : Compatible ctl t m s) :
    Exclusion ctl (grantLock t xid m s) := by
  let holder := s.holder t xid
  have hthread : holder.thread = t := holder_thread s t xid
  -- each mode of the thread, the new one included, goes with those of the others
  have hown (i : LockMode) (hi : update holder.holders m (holder.holders m + 1) i ≠ 0) : Compatible ctl t i s := by
    obtain rfl | hne := eq_or_ne i m
    · exact hcompatible
    · rw [update_of_ne hne] at hi
      cases hfound : lookup Holder.tag (t, xid) s.holderTable with
      | none =>
        refine absurd ?_ hi
        change (s.holder t xid).holders i = 0
        unfold Lock.holder
        rw [hfound]
        rfl
      | some y =>
        have hy : holder = y := holder_eq hfound
        rw [hy] at hi
        exact hthread ▸ hy ▸ h.compatible (lookup_mem hfound) hi
  intro x hx x' hx' ht i i' hi hi'
  rcases mem_put.mp hx with rfl | ⟨hx, _⟩ <;> rcases mem_put.mp hx' with rfl | ⟨hx', _⟩
  · exact absurd rfl ht
  · exact hown i hi x' hx' (fun heq => ht (hthread.trans heq.symm)) i' hi'
  · rw [ctl.mutual_]
    exact hown i' hi' x hx (fun heq => ht (heq.trans hthread.symm)) i hi
  · exact h x hx x' hx' ht i i' hi hi'

end WeaverDB.Locks
