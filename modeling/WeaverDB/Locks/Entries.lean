import WeaverDB.Locks.Counts

/-! # The entries of the lock table

`refs` counts the calls of `LockAcquire` that no release has matched, `removing` the releases under way.
What holders, waiting threads and threads before the mutex need of `refs` is their demand; it is always
met, so an entry that goes has no holder left.
-/

namespace WeaverDB.Locks
open Foundations

/-! ## Demand -/

def Waiter.tag (w : Waiter) : ThreadId × TransactionId := (w.thread, w.xid)

def waits (queue : List Waiter) (k : ThreadId × TransactionId) : Nat := queue.countP fun w => decide (w.tag = k)

/-- A holder stands for its grants and its waiting request, or for one call. -/
def weight (queue : List Waiter) (h : Holder) : Nat := max 1 (h.nHolding + waits queue h.tag)

def demand (queue : List Waiter) (table : List Holder) : Nat := total (weight queue) table

variable {queue queue' : List Waiter} {table : List Holder} {h x : Holder} {c : Nat}
  {k : ThreadId × TransactionId}

theorem demand_le (hless : ∀ y ∈ table, waits queue' y.tag ≤ waits queue y.tag) :
    demand queue' table ≤ demand queue table := by
  refine total_le fun y hy => ?_
  have hle := hless y hy
  unfold weight
  omega

theorem demand_without (k : ThreadId × TransactionId) :
    demand queue (without Holder.tag k table) ≤ demand queue table :=
  total_filter_le _ _

theorem demand_put_of_mem (hkeyed : Keyed Holder.tag table) (hx : x ∈ table) (htag : h.tag = x.tag)
    (hothers : ∀ y ∈ table, y.tag ≠ x.tag → waits queue' y.tag ≤ waits queue y.tag)
    (hself : h.nHolding + waits queue' x.tag ≤ x.nHolding + waits queue x.tag + c) :
    demand queue' (put Holder.tag h table) ≤ demand queue table + c := by
  have hrest : demand queue' (without Holder.tag x.tag table) ≤ demand queue (without Holder.tag x.tag table) :=
    demand_le fun y hy => hothers y (mem_without.mp hy).1 (mem_without.mp hy).2
  have hsplit : demand queue table = weight queue x + demand queue (without Holder.tag x.tag table) :=
    hkeyed.total_eq hx _
  have hput : demand queue' (put Holder.tag h table) =
      weight queue' h + demand queue' (without Holder.tag x.tag table) := by
    unfold demand put
    rw [total_cons, htag]
  rw [hput, hsplit]
  unfold weight
  rw [htag]
  omega

theorem demand_put_new (hnone : lookup Holder.tag k table = none) (htag : h.tag = k)
    (hothers : ∀ y ∈ table, y.tag ≠ k → waits queue' y.tag ≤ waits queue y.tag)
    (hself : h.nHolding + waits queue' k ≤ 1) :
    demand queue' (put Holder.tag h table) ≤ demand queue table + 1 := by
  have hrest : demand queue' table ≤ demand queue table := demand_le fun y hy => hothers y hy (lookup_none hnone hy)
  have hput : demand queue' (put Holder.tag h table) = weight queue' h + demand queue' table := by
    unfold demand put
    rw [total_cons, htag, without_eq_self fun y hy => lookup_none hnone hy]
  rw [hput]
  unfold weight
  rw [htag]
  omega

theorem demand_release (hkeyed : Keyed Holder.tag table) (hx : x ∈ table) (htag : h.tag = x.tag)
    (hless : h.nHolding + 1 = x.nHolding) :
    demand queue (if h.nHolding = 0 then without Holder.tag x.tag table
      else put Holder.tag h table) + 1 ≤ demand queue table := by
  have hsplit : demand queue table = weight queue x + demand queue (without Holder.tag x.tag table) :=
    hkeyed.total_eq hx _
  rw [hsplit]
  split
  · unfold weight
    omega
  · have hput : demand queue (put Holder.tag h table) =
        weight queue h + demand queue (without Holder.tag x.tag table) := by
      unfold demand put
      rw [total_cons, htag]
    rw [hput]
    unfold weight
    rw [htag]
    omega

theorem demand_drop (hkeyed : Keyed Holder.tag table) (hx : x ∈ table) :
    demand queue (without Holder.tag x.tag table) + 1 ≤ demand queue table := by
  have hsplit : demand queue table = weight queue x + demand queue (without Holder.tag x.tag table) :=
    hkeyed.total_eq hx _
  rw [hsplit]
  unfold weight
  omega

theorem table_eq_nil (hdemand : demand queue table = 0) : table = [] := by
  cases table with
  | nil => rfl
  | cons y table =>
    unfold demand at hdemand
    rw [total_cons] at hdemand
    unfold weight at hdemand
    omega

/-! ## Calls -/

def Request.isAcquire : Request → Bool
  | .acquire _ _ _ _ => true
  | _ => false

/-- The calls of `LockAcquire` before the mutex, and the releases there. -/
def entering (s : Lock) : Nat := s.protection.countP Request.isAcquire

def leaving (s : Lock) : Nat := s.protection.countP fun r => !r.isAcquire

/-- Within a step there may be `spare` references and releases to be taken off `removing`. -/
structure Calls (s : Lock) (waiting : List Waiter) (spare : Int) (unfinished : Nat) : Prop where
  counts : Counts s (waiting.map Waiter.waitLockMode)
  entry : ∃ failed : Nat, s.removing = leaving s + unfinished + failed ∧
    (entering s : Int) + demand waiting s.holderTable + spare ≤ s.refs + failed + leaving s
  holder : ∀ w ∈ waiting, ∃ h ∈ s.holderTable, h.tag = w.tag

variable {s : Lock} {waiting waiting' : List Waiter} {spare : Int} {unfinished : Nat} {w : Waiter}
  {t : ThreadId} {xid : TransactionId} {m : LockMode}

theorem waits_perm (h : waiting.Perm waiting') (k : ThreadId × TransactionId) :
    waits waiting k = waits waiting' k := h.countP_eq _

theorem Calls.perm (h : Calls s waiting spare unfinished) (hperm : waiting.Perm waiting') :
    Calls s waiting' spare unfinished := by
  obtain ⟨failed, hremoving, hrefs⟩ := h.entry
  have hle : demand waiting' s.holderTable ≤ demand waiting s.holderTable :=
    demand_le fun y _ => le_of_eq (waits_perm hperm y.tag).symm
  exact ⟨h.counts.perm (hperm.map _), ⟨failed, hremoving, by omega⟩, fun w hw => h.holder w (hperm.mem_iff.mpr hw)⟩

theorem mem_put_tag (hx : ∃ y ∈ table, y.tag = k) : ∃ y ∈ put Holder.tag h table, y.tag = k := by
  obtain ⟨y, hy, hk⟩ := hx
  obtain heq | hne := eq_or_ne y.tag h.tag
  · exact ⟨h, mem_put.mpr (.inl rfl), heq.symm.trans hk⟩
  · exact ⟨y, mem_put.mpr (.inr ⟨hy, hne⟩), hk⟩

theorem waits_cons (w : Waiter) (waiting : List Waiter) (k : ThreadId × TransactionId) :
    waits (w :: waiting) k = waits waiting k + if w.tag = k then 1 else 0 := by
  unfold waits
  rw [List.countP_cons]
  simp only [decide_eq_true_eq]

theorem Calls.grant (h : Calls s (w :: waiting) spare unfinished) :
    Calls (grantLock w.thread w.xid w.waitLockMode s) waiting spare unfinished := by
  obtain ⟨failed, hremoving, hrefs⟩ := h.entry
  obtain ⟨x, hx, htag⟩ := h.holder w (.head _)
  have hfound : s.holder w.thread w.xid = x :=
    holder_eq ((congrArg (lookup Holder.tag · s.holderTable) htag.symm).trans (h.counts.keyed.lookup_eq hx))
  refine ⟨h.counts.grant w.thread w.xid, ⟨failed, hremoving, ?_⟩, ?_⟩
  · have hle : demand waiting (grantLock w.thread w.xid w.waitLockMode s).holderTable ≤
        demand (w :: waiting) s.holderTable + 0 := by
      refine demand_put_of_mem h.counts.keyed hx ((holder_tag s w.thread w.xid).trans htag.symm) ?_ ?_
      · intro y _ _
        rw [waits_cons]
        exact Nat.le_add_right _ _
      · rw [waits_cons, if_pos htag.symm]
        change (s.holder w.thread w.xid).nHolding + 1 + _ ≤ _
        rw [hfound]
        omega
    change (entering s : Int) + _ + spare ≤ s.refs + failed + leaving s
    omega
  · exact fun v hv => mem_put_tag (h.holder v (.tail _ hv))

theorem Calls.withdraw (h : Calls s (w :: waiting) spare unfinished) :
    Calls (s.withdraw w.waitLockMode) waiting spare unfinished := by
  obtain ⟨failed, hremoving, hrefs⟩ := h.entry
  have hle : demand waiting s.holderTable ≤ demand (w :: waiting) s.holderTable := by
    refine demand_le fun y _ => ?_
    rw [waits_cons]
    exact Nat.le_add_right _ _
  refine ⟨h.counts.withdraw, ⟨failed, hremoving, ?_⟩, fun v hv => h.holder v (.tail _ hv)⟩
  change (entering s : Int) + demand waiting s.holderTable + spare ≤ s.refs + failed + leaving s
  omega

theorem Calls.dropIdle (h : Calls s waiting spare unfinished)
    (hidle : (s.holder t xid).nHolding = 0) (hnot : ∀ v ∈ waiting, v.tag ≠ (t, xid)) :
    Calls (s.dropHolder t xid) waiting spare unfinished := by
  obtain ⟨failed, hremoving, hrefs⟩ := h.entry
  have hle : demand waiting (s.dropHolder t xid).holderTable ≤ demand waiting s.holderTable := demand_without _
  refine ⟨h.counts.dropIdle hidle, ⟨failed, hremoving, ?_⟩, fun v hv => ?_⟩
  · change (entering s : Int) + _ + spare ≤ s.refs + failed + leaving s
    omega
  · obtain ⟨y, hy, htag⟩ := h.holder v hv
    exact ⟨y, mem_without.mpr ⟨hy, htag ▸ hnot v hv⟩, htag⟩

theorem Calls.request (h : Calls s waiting (spare+1) unfinished) (hnot : ∀ v ∈ waiting, v.tag ≠ w.tag) :
    Calls ((s.setHolder (s.holder w.thread w.xid)).request w.waitLockMode) (w :: waiting) spare
      unfinished := by
  obtain ⟨failed, hremoving, hrefs⟩ := h.entry
  let holder := s.holder w.thread w.xid
  have htag : holder.tag = w.tag := holder_tag s w.thread w.xid
  have hnone : waits waiting w.tag = 0 := List.countP_eq_zero.mpr fun v hv hvt => hnot v hv (of_decide_eq_true hvt)
  have hothers (y : Holder) (hne : y.tag ≠ w.tag) : waits (w :: waiting) y.tag ≤ waits waiting y.tag := by
    rw [waits_cons, if_neg (Ne.symm hne)]
    exact le_rfl
  have hself : waits (w :: waiting) w.tag = 1 := by
    rw [waits_cons, if_pos rfl, hnone]
  have hle : demand (w :: waiting) (put Holder.tag holder s.holderTable) ≤ demand waiting s.holderTable + 1 := by
    cases hfound : lookup Holder.tag w.tag s.holderTable with
    | none =>
      refine demand_put_new hfound htag (fun y _ => hothers y) ?_
      have hblank : holder.nHolding = 0 := by
        change ((lookup Holder.tag w.tag s.holderTable).getD _).nHolding = 0
        rw [hfound]
        rfl
      rw [hblank, hself]
    | some x =>
      have hx : holder = x := holder_eq hfound
      have hxt : x.tag = w.tag := lookup_key hfound
      refine demand_put_of_mem h.counts.keyed (lookup_mem hfound) (htag.trans hxt.symm)
        (fun y _ hne => hothers y (hxt ▸ hne)) ?_
      rw [hxt, hself, hnone, hx]
  refine ⟨(h.counts.enterHolder w.thread w.xid).request w.waitLockMode, ⟨failed, hremoving, ?_⟩, ?_⟩
  · change (entering s : Int) + demand (w :: waiting) (put Holder.tag holder s.holderTable) + spare ≤
      s.refs + failed + leaving s
    omega
  · intro v hv
    obtain rfl | hv := List.mem_cons.mp hv
    · exact ⟨holder, mem_put.mpr (.inl rfl), htag⟩
    · exact mem_put_tag (h.holder v hv)

theorem Calls.dropGrant (h : Calls s waiting spare unfinished)
    (hfound : lookup Holder.tag (t, xid) s.holderTable = some x) (hm : x.holders m ≠ 0)
    (hnot : ∀ v ∈ waiting, v.tag ≠ (t, xid)) :
    Calls (dropGrant t xid m x s) waiting (spare+1) unfinished := by
  obtain ⟨failed, hremoving, hrefs⟩ := h.entry
  have hx := lookup_mem hfound
  have htag : x.tag = (t, xid) := lookup_key hfound
  have hheld : 0 < x.nHolding := by
    have hle := le_total x.holders (mem_lockModes m)
    have hsum := h.counts.sums x hx
    omega
  let updated : Holder := { x with
    holders := Function.update x.holders m (x.holders m - 1)
    nHolding := x.nHolding - 1 }
  have hle : demand waiting (Locks.dropGrant t xid m x s).holderTable + 1 ≤ demand waiting s.holderTable := by
    have hrelease : demand waiting (if updated.nHolding = 0 then
        without Holder.tag x.tag s.holderTable else put Holder.tag updated s.holderTable) + 1 ≤
          demand waiting s.holderTable :=
      demand_release h.counts.keyed hx rfl (Nat.sub_add_cancel hheld)
    rwa [htag] at hrelease
  refine ⟨h.counts.dropGrant hfound hm, ⟨failed, hremoving, ?_⟩, fun v hv => ?_⟩
  · change (entering s : Int) + _ + (spare+1) ≤ s.refs + failed + leaving s
    omega
  · obtain ⟨y, hy, hyt⟩ := h.holder v hv
    change ∃ z ∈ (if updated.nHolding = 0 then without Holder.tag (t, xid) s.holderTable
      else put Holder.tag updated s.holderTable), z.tag = v.tag
    split
    · exact ⟨y, mem_without.mpr ⟨hy, hyt ▸ hnot v hv⟩, hyt⟩
    · exact mem_put_tag ⟨y, hy, hyt⟩

theorem Calls.dropGrants (h : Calls s waiting spare unfinished)
    (hheld : ∃ y ∈ s.holderTable, y.tag = (t, xid)) (hnot : ∀ v ∈ waiting, v.tag ≠ (t, xid)) :
    Calls (dropGrants t xid s) waiting (spare+1) unfinished := by
  obtain ⟨failed, hremoving, hrefs⟩ := h.entry
  obtain ⟨y, hy, hyt⟩ := hheld
  have hle : demand waiting (without Holder.tag (t, xid) s.holderTable) + 1 ≤
      demand waiting s.holderTable := hyt ▸ demand_drop h.counts.keyed hy
  have hcounts := h.counts.dropGrants t xid
  have hstate : (Locks.dropGrants t xid s).holderTable = without Holder.tag (t, xid) s.holderTable ∧
      (Locks.dropGrants t xid s).removing = s.removing ∧ (Locks.dropGrants t xid s).refs = s.refs ∧
      (Locks.dropGrants t xid s).protection = s.protection := by
    unfold Locks.dropGrants
    dsimp only
    split <;> exact ⟨rfl, rfl, rfl, rfl⟩
  obtain ⟨htable, hremoving', hrefs', hprotection⟩ := hstate
  refine ⟨hcounts, ⟨failed, ?_, ?_⟩, fun v hv => ?_⟩
  · unfold leaving
    rw [hremoving', hprotection]
    exact hremoving
  · unfold entering leaving at *
    rw [hrefs', hprotection, htable]
    omega
  · obtain ⟨z, hz, hzt⟩ := h.holder v hv
    rw [htable]
    exact ⟨z, mem_without.mpr ⟨hz, hzt ▸ hnot v hv⟩, hzt⟩

end WeaverDB.Locks
