import WeaverDB.Vacuum.LazyVacuum
import WeaverDB.Visibility.DeadTuples

/-! # What can go stays what can go

A tuple that `HeapTupleSatisfiesVacuum` finds dead or stillborn is found so again later: transactions
that have ended do not change, and the hint bits set in between agree with the log.
-/

namespace WeaverDB.LazyVacuum
open TransLog Visibility Bool List Function

variable {s : HeapRelation} {x reapid : TransactionId} {v' v : View}

/-! ## Tuples -/

def Removable (v : View) (reapid : TransactionId) (t : HeapTupleHeader) : Prop :=
  tupgone (heapTupleSatisfiesVacuum v reapid t).1 = true

def Unborn (v : View) (t : HeapTupleHeader) : Prop :=
  t.has .xminCommitted = false ∧ (t.has .xminInvalid ∨ v.isVoid t.xmin)

structure Slain (v : View) (reapid : TransactionId) (t : HeapTupleHeader) : Prop where
  inserted : t.has .xminCommitted ∨ t.has .xminInvalid = false ∧ transactionIdDidCommit v.log t.xmin
  deleted : t.has .xmaxInvalid = false ∧ t.xmax ≠ 0
  committed : t.has .xmaxCommitted ∨ transactionIdDidCommit v.log t.xmax
  unmarked : t.infomask.markedForUpdate = false
  behind : t.xmax < reapid

section

variable {v : View} {reapid : TransactionId} {t : HeapTupleHeader}

theorem isVoid_not_commit (h : v.isVoid x) : transactionIdDidCommit v.log x = false := by
  rw [View.isVoid, and_eq_true, not_eq_true'] at h
  exact h.1

theorem inserter_void : (inserter v false t).1 = .void ↔ Unborn v t := by
  unfold Unborn
  cases hcom : t.has .xminCommitted with
  | true => simp [inserter_of_committed hcom]
  | false =>
    cases hinv : t.has .xminInvalid with
    | true => simp [inserter_of_invalid hcom hinv]
    | false =>
      rw [inserter_of_other hcom hinv (by simp)]
      rcases askLog_cases v t t.xmin .xminCommitted .xminInvalid with
        ⟨hc, -, e⟩ | ⟨hc, e⟩ | ⟨hvoid, e⟩ | ⟨-, hvoid, e⟩
      · simp [e, View.isVoid, hc]
      · simp [e, View.isVoid, hc]
      · simp [e, hvoid]
      · simp [e, hvoid]

theorem inserter_alive : (inserter v false t).1 = .committed ↔ t.has .xminCommitted ∨
    t.has .xminInvalid = false ∧ transactionIdDidCommit v.log t.xmin := by
  simp [inserter_committed_iff]

theorem deleter_alive : (deleter v false t).1 = .committed ↔ (t.has .xmaxInvalid = false ∧ t.xmax ≠ 0) ∧
      (t.has .xmaxCommitted ∨ transactionIdDidCommit v.log t.xmax) := by
  simp [deleter_committed_iff]

theorem removable_iff : Removable v reapid t ↔ Unborn v t ∨ Slain v reapid t := by
  have hslain : Slain v reapid t ↔ (inserter v false t).1 = .committed ∧
      (deleter v false t).1 = .committed ∧ t.infomask.markedForUpdate = false ∧ t.xmax < reapid := by
    rw [inserter_alive, deleter_alive]
    exact ⟨fun h => ⟨h.inserted, ⟨h.deleted, h.committed⟩, h.unmarked, h.behind⟩,
      fun h => ⟨h.1, h.2.1.1, h.2.1.2, h.2.2.1, h.2.2.2⟩⟩
  rw [← inserter_void, hslain, Removable, vacuum_answer]
  cases (inserter v false t).1 with
  | void | own | running => simp [tupgone]
  | committed =>
    cases (deleter v false t).1 with
    | void | own | running => simp [tupgone]
    | committed =>
      cases t.infomask.markedForUpdate with
      | true => simp [tupgone]
      | false =>
        by_cases hle : reapid ≤ t.xmax
        · simp [tupgone, hle, BitVec.not_lt.mpr hle]
        · simp [tupgone, hle, BitVec.not_le.mp hle]

end

structure Later (v v' : View) : Prop where
  commit : ∀ x, transactionIdDidCommit v.log x → transactionIdDidCommit v'.log x
  void : ∀ x, v.isVoid x → v'.isVoid x = true

theorem Removable.later {t : HeapTupleHeader} (h : Removable v reapid t) (hv : Later v v') : Removable v' reapid t := by
  rw [removable_iff] at h ⊢
  refine h.imp (fun hu => ⟨hu.1, hu.2.imp_right (hv.void _)⟩) fun hs => ?_
  exact ⟨hs.inserted.imp_right fun hi => ⟨hi.1, hv.commit _ hi.2⟩, hs.deleted,
    hs.committed.imp_right (hv.commit _), hs.unmarked, hs.behind⟩

theorem Removable.hints {t t' : HeapTupleHeader} (h : Removable v reapid t) (hh : Hints v t t') :
    Removable v reapid t' := by
  induction hh with
  | none => exact h
  | more b _ hb ih =>
    rw [removable_iff] at ih ⊢
    obtain hu | hs := ih
    · left
      cases b with
      | xminCommitted =>
        have hcommit := (didCommit_iff _ _).mpr
          ⟨((didHardCommit_iff _ _).mp hb.2).1, .inr ((didHardCommit_iff _ _).mp hb.2).2⟩
        obtain hinv | hvoid := hu.2
        · cases hb.1.symm.trans hinv
        · cases hcommit.symm.trans (isVoid_not_commit hvoid)
      | xminInvalid => exact ⟨hu.1, .inl rfl⟩
      | xmaxCommitted => exact hu
      | xmaxInvalid => exact hu
    · right
      cases b with
      | xminCommitted => exact ⟨.inl rfl, hs.deleted, hs.committed, hs.unmarked, hs.behind⟩
      | xminInvalid =>
        refine ⟨hs.inserted.imp_right fun hi => ?_, hs.deleted, hs.committed, hs.unmarked, hs.behind⟩
        cases hi.2.symm.trans (isVoid_not_commit hb.2)
      | xmaxCommitted => exact ⟨hs.inserted, hs.deleted, .inl rfl, hs.unmarked, hs.behind⟩
      | xmaxInvalid =>
        obtain h0 | ⟨hbit, hvoid⟩ := hb.2
        · exact absurd h0 hs.deleted.2
        · obtain hcom | hcom := hs.committed
          · cases hbit.symm.trans hcom
          · cases hcom.symm.trans (isVoid_not_commit hvoid)

/-! ## Transactions -/

def Coherent (s : HeapRelation) : Prop := ∀ x, s.running x → s.log x = .inprogress

theorem view_isVoid : s.view.isVoid x ↔
    x = 0 ∨ s.log x = .abort ∨ (x.toNat < s.nextXid ∧ s.log x = .inprogress ∧ s.running x = false) := by
  rw [View.isVoid, and_eq_true, or_eq_true, not_eq_true', ← not_eq_true, didCommit_iff, didAbort_iff]
  simp only [HeapRelation.view, and_eq_true, decide_eq_true_eq, beq_iff_eq, not_eq_true']
  by_cases h0 : x = 0
  · simp [h0]
  · cases s.log x <;> simp

theorem later_of_eq (h : v' = v) : Later v v' := h ▸ ⟨fun _ => id, fun _ => id⟩

theorem later_begin (hnext : s.nextXid < 2^64) : Later s.view { s with
      running := update s.running (.ofNat 64 s.nextXid) true
      nextXid := s.nextXid + 1 }.view := by
  refine ⟨fun _ => id, fun x hx => ?_⟩
  rw [view_isVoid] at hx ⊢
  refine hx.imp_right (.imp_right fun ⟨hlt, hlog, hrun⟩ => ⟨Nat.lt_succ_of_lt hlt, hlog, ?_⟩)
  have hne : x ≠ .ofNat 64 s.nextXid := by
    rintro rfl
    rw [BitVec.toNat_ofNat, Nat.mod_eq_of_lt hnext] at hlt
    exact lt_irrefl _ hlt
  exact (update_of_ne hne ..).trans hrun

theorem later_finish (h : Coherent s) {xstatus : XidStatus}
    (hrun : s.running x) : Later s.view { s with
      log := update s.log x xstatus, running := update s.running x false }.view := by
  have hopen := h x hrun
  refine ⟨fun y hy => ?_, fun y hy => ?_⟩
  · rw [didCommit_iff] at hy ⊢
    have hne : y ≠ x := by
      rintro rfl
      rcases hy.2 with e | e <;> cases hopen.symm.trans e
    refine ⟨hy.1, ?_⟩
    change update s.log x xstatus y = _ ∨ update s.log x xstatus y = _
    rw [update_of_ne hne]
    exact hy.2
  · rw [view_isVoid] at hy ⊢
    obtain h0 | hy := hy
    · exact .inl h0
    · have hne : y ≠ x := by
        rintro rfl
        obtain e | ⟨-, -, e⟩ := hy
        · cases hopen.symm.trans e
        · cases hrun.symm.trans e
      simp only [update_of_ne hne]
      exact .inr hy

theorem later_harden (hsoft : s.log x = .softCommit) : Later s.view { s with log := update s.log x .commit }.view := by
  refine ⟨fun y hy => ?_, fun y hy => ?_⟩
  · rw [didCommit_iff] at hy ⊢
    refine ⟨hy.1, ?_⟩
    change update s.log x .commit y = _ ∨ update s.log x .commit y = _
    rw [update_apply]
    split
    · exact .inr rfl
    · exact hy.2
  · rw [view_isVoid] at hy ⊢
    obtain h0 | hy := hy
    · exact .inl h0
    · have hne : y ≠ x := by
        rintro rfl
        rcases hy with e | ⟨-, e, -⟩ <;> cases hsoft.symm.trans e
      simp only [update_of_ne hne]
      exact .inr hy

/-! ## Pages -/

section

variable {page : Page} {j : Nat} {item : ItemId}

theorem pageAddItem_used (size : Nat) (tuple : HeapTupleHeader) (hj : page[j]? = some item)
    (hused : item.used) : (pageAddItem page size tuple).1[j]? = some item := by
  have hlt := (List.getElem?_eq_some_iff.mp hj).1
  unfold pageAddItem
  dsimp only
  split
  · next hi =>
    have hne : page.findIdx ItemId.recyclable ≠ j := by
      rintro rfl
      have hfree := findIdx_getElem (w := hi)
      rw [(List.getElem?_eq_some_iff.mp hj).2, ItemId.recyclable, hused] at hfree
      cases hfree
    rw [List.getElem?_set_ne hne]
    exact hj
  · rw [List.getElem?_append_left hlt]
    exact hj

theorem pageCompactPage_used (hj : page[j]? = some item) (hused : item.used) :
    (pageCompactPage page)[j]? = some item := by
  unfold pageCompactPage
  induction page using List.reverseRecOn with
  | nil => cases hj
  | append_singleton page last ih =>
    rw [rdropWhile_concat]
    split
    · next hfree =>
      refine ih ?_
      obtain hlt | hge := lt_or_ge j page.length
      · rwa [List.getElem?_append_left hlt] at hj
      · rw [List.getElem?_append_right hge, List.getElem?_singleton] at hj
        split at hj
        · cases hj
          rw [ItemId.recyclable, hused] at hfree
          cases hfree
        · cases hj
    · exact hj

theorem pageRepairFragmentation_used (hj : page[j]? = some item) (hused : item.used) :
    (pageRepairFragmentation page)[j]? = some item := by
  rw [pageRepairFragmentation, List.getElem?_map, hj, Option.map_some, if_pos hused]

theorem clearItem_other {offnum : Nat} (hne : offnum - 1 ≠ j) : (clearItem page offnum)[j]? = page[j]? := by
  simp only [clearItem, List.getElem?_modify, if_neg hne]
  cases page[j]? <;> rfl

theorem lazyVacuumPage_spec (blkno : Nat) (dead : List ItemPointerData) (page : Page) (tupindex : Nat) :
    (lazyVacuumPage blkno dead page tupindex).2 = tupindex + (dead.takeWhile fun t => t.ipBlkid = blkno).length ∧
      ∀ j, (∀ t ∈ dead.takeWhile fun t => t.ipBlkid = blkno, t.ipPosid-1 ≠ j) →
        (lazyVacuumPage blkno dead page tupindex).1[j]? = page[j]? := by
  induction dead generalizing page tupindex with
  | nil => exact ⟨rfl, fun _ _ => rfl⟩
  | cons t rest ih =>
    rw [lazyVacuumPage]
    split
    · next hblk =>
      obtain ⟨hindex, hkeep⟩ := ih (clearItem page t.ipPosid) (tupindex+1)
      have hhead : (t :: rest).takeWhile (fun t => t.ipBlkid = blkno) =
          t :: rest.takeWhile fun t => t.ipBlkid = blkno := by
        rw [takeWhile_cons, if_pos (decide_eq_true hblk)]
      rw [hhead]
      refine ⟨by rw [hindex, length_cons]; omega, fun j hj => ?_⟩
      rw [hkeep j fun u hu => hj u (.tail _ hu)]
      exact clearItem_other (hj t (.head _))
    · next hblk =>
      rw [takeWhile_cons, if_neg (by simpa using hblk)]
      exact ⟨rfl, fun _ _ => rfl⟩

variable {view : View} {reapid : TransactionId} {blkno : Nat}
  {record : List ItemPointerData → ItemPointerData → List ItemPointerData}

theorem scanItems_page (offnum : Nat) (dead : List ItemPointerData) (hj : page[j]? = some item)
    (hused : item.used) : (scanItems view record reapid blkno offnum page dead).1[j]? =
      some { item with tuple := (heapTupleSatisfiesVacuum view reapid item.tuple).2 } := by
  induction page generalizing j offnum dead with
  | nil => cases hj
  | cons first rest ih =>
    rw [scanItems]
    cases j with
    | zero =>
      cases hj
      rw [if_pos hused]
      rfl
    | succ j =>
      have hrest : rest[j]? = some item := hj
      split
      · exact ih _ _ hrest
      · exact ih _ _ hrest

theorem scanItems_dead (hrecord : ∀ dead t, record dead t = dead ∨ record dead t = dead ++ [t])
    (page : Page) (offnum : Nat) (dead : List ItemPointerData) :
    ∃ found, (scanItems view record reapid blkno offnum page dead).2.1 = dead ++ found ∧
      ∀ t ∈ found, t.ipBlkid = blkno ∧ ∃ j item, t.ipPosid = offnum+j ∧ page[j]? = some item ∧
        item.used ∧ Removable view reapid item.tuple := by
  induction page generalizing offnum dead with
  | nil => exact ⟨[], (append_nil _).symm, nofun⟩
  | cons first rest ih =>
    have hlift {found : List ItemPointerData} (h : ∀ t ∈ found, t.ipBlkid = blkno ∧ ∃ j item,
        t.ipPosid = offnum + 1 + j ∧ rest[j]? = some item ∧ item.used ∧
          Removable view reapid item.tuple) (t : ItemPointerData) (ht : t ∈ found) :
        t.ipBlkid = blkno ∧ ∃ j item, t.ipPosid = offnum+j ∧ (first :: rest)[j]? = some item ∧
          item.used ∧ Removable view reapid item.tuple := by
      obtain ⟨hblk, j, item, hpos, hitem⟩ := h t ht
      exact ⟨hblk, j+1, item, by omega, hitem⟩
    rw [scanItems]
    split
    · next hused =>
      dsimp only
      rcases Decidable.em (tupgone (heapTupleSatisfiesVacuum view reapid first.tuple).1) with
        hgone | hstay
      · rw [if_pos hgone]
        obtain ⟨found, heq, hfound⟩ := ih (offnum+1) (record dead ⟨blkno, offnum⟩)
        obtain hr | hr := hrecord dead ⟨blkno, offnum⟩
        · exact ⟨found, heq.trans (by rw [hr]), hlift hfound⟩
        · refine ⟨⟨blkno, offnum⟩ :: found, heq.trans (by rw [hr, append_assoc]; rfl), ?_⟩
          intro t ht
          obtain rfl | ht := mem_cons.mp ht
          · exact ⟨rfl, 0, first, rfl, rfl, hused, hgone⟩
          · exact hlift hfound t ht
      · rw [if_neg hstay]
        obtain ⟨found, heq, hfound⟩ := ih (offnum+1) dead
        exact ⟨found, heq, hlift hfound⟩
    · obtain ⟨found, heq, hfound⟩ := ih (offnum+1) dead
      exact ⟨found, heq, hlift hfound⟩

end

end WeaverDB.LazyVacuum
