import WeaverDB.Vacuum.Removable

/-! # The list of dead tuples

`lazy_vacuum_page` and `lazy_vacuum_index` rely on the list without looking at the tuples again. While a
vacuum has given the lock away, another one can remove tuples of the list and an insert can take their
line pointers. A run is `careful` if a vacuum frees no line pointer that the other one still has on its
list.
-/

namespace WeaverDB.LazyVacuum
open Foundations TransLog Visibility Bool List Nat Option Function

variable {s s' : HeapRelation} {t u : ItemPointerData} {c : Config}
  {rest dead : List ItemPointerData} {w : Vacuum} {x : TransactionId} {v : Bool} {blkno : Nat}

/-! ## The property and the condition -/

structure RemovesOnlyDead (v : Bool) (s s' : HeapRelation) : Prop where
  heap : ∀ t item, s.item t = some item → item.used →
    (∀ item', s'.item t = some item' → item'.used = false) →
    Removable s.view (s.vacuums v).reapid item.tuple
  index : ∀ i t item, (s'.index i).count t < (s.index i).count t → s.item t = some item →
    item.used → Removable s.view (s.vacuums v).reapid item.tuple

def OnlyDeadRemoved (c : Config) (s : HeapRelation) : Prop :=
  ∀ v s', next c s (.vacuum v) = some s' → RemovesOnlyDead v s s'

def Vacuum.pending (w : Vacuum) : List ItemPointerData :=
  match w.pc with
  | .scanRelock _ | .scanPage _ | .indexing _ _ => w.deadTuples
  | .heapRelock _ tupindex | .heapPage _ tupindex => w.deadTuples.drop tupindex
  | _ => []

def headPage (dead : List ItemPointerData) : List ItemPointerData :=
  match dead with
  | [] => []
  | t :: rest => (t :: rest).takeWhile fun u => u.ipBlkid = t.ipBlkid

def Vacuum.freeing (w : Vacuum) : List ItemPointerData :=
  match w.pc with
  | .heapPage _ tupindex => headPage (w.deadTuples.drop tupindex)
  | _ => []

def careful (s : HeapRelation) : Event → Bool
  | .vacuum v => (s.vacuums v).freeing.all fun t => decide (t ∉ (s.vacuums (!v)).pending)
  | _ => true

/-! ## The invariant -/

structure Listed (s : HeapRelation) (w : Vacuum) : Prop where
  condemned : ∀ t ∈ w.pending, ∃ item, s.item t = some item ∧ item.used ∧ Removable s.view w.reapid item.tuple
  ordered : w.deadTuples.Pairwise fun t u => t.ipBlkid ≤ u.ipBlkid
  scanned : ∀ blkno, w.pc = .scanRelock blkno ∨ w.pc = .scanPage blkno → ∀ t ∈ w.deadTuples, t.ipBlkid < blkno

structure Numbered (s : HeapRelation) : Prop where
  coherent : Coherent s
  issued : ∀ x, s.running x → x.toNat < s.nextXid
  fresh : ∀ x : TransactionId, s.nextXid ≤ x.toNat → s.log x = .inprogress

structure Invariant (s : HeapRelation) : Prop where
  numbered : Numbered s
  listed : ∀ v, Listed s (s.vacuums v)

structure Opened (s : HeapRelation) : Prop where
  numbered : Numbered s
  idle : ∀ v, (s.vacuums v).pc = .idle
  empty : ∀ v, (s.vacuums v).deadTuples = []

theorem Opened.invariant (h : Opened s) : Invariant s where
  numbered := h.numbered
  listed := fun v => by
    refine ⟨fun t ht => ?_, ?_, fun blkno hpc => ?_⟩
    · rw [Vacuum.pending, h.idle v] at ht
      cases ht
    · rw [h.empty v]
      exact .nil
    · rw [h.idle v] at hpc
      rcases hpc with hpc | hpc <;> cases hpc

def Carried (s s' : HeapRelation) (t : ItemPointerData) : Prop :=
  ∀ item, s.item t = some item → item.used →
    ∃ item', s'.item t = some item' ∧ item'.used ∧ Hints s.view item.tuple item'.tuple

theorem Listed.frame (h : Listed s w) (hv : Later s.view s'.view)
    (hc : ∀ t ∈ w.pending, Carried s s' t) : Listed s' w where
  condemned := fun t ht => by
    obtain ⟨item, hitem, hused, hgone⟩ := h.condemned t ht
    obtain ⟨item', hitem', hused', hhints⟩ := hc t ht item hitem hused
    exact ⟨item', hitem', hused', (hgone.hints hhints).later hv⟩
  ordered := h.ordered
  scanned := h.scanned

/-! ## Items -/

section

variable {s : HeapRelation} {blkno : Nat} {page : Page}

theorem carried_of_heap (h : s'.heap = s.heap) (t : ItemPointerData) : Carried s s' t := by
  intro item hitem hused
  refine ⟨item, ?_, hused, .none _⟩
  rw [HeapRelation.item, h]
  exact hitem

theorem item_eq {item : ItemId} (h : s.item t = some item) :
    t.ipPosid ≠ 0 ∧ (s.heap t.ipBlkid)[t.ipPosid-1]? = some item := by
  unfold HeapRelation.item at h
  split at h
  · cases h
  · next h0 => exact ⟨h0, h⟩

theorem carried_setPage (h : s'.heap = update s.heap blkno page)
    (hpage : t.ipBlkid = blkno → ∀ item, (s.heap blkno)[t.ipPosid-1]? = some item → item.used →
      ∃ item', page[t.ipPosid-1]? = some item' ∧ item'.used ∧
        Hints s.view item.tuple item'.tuple) : Carried s s' t := by
  intro item hitem hused
  obtain ⟨h0, hget⟩ := item_eq hitem
  obtain hblk | hne := eq_or_ne t.ipBlkid blkno
  · rw [hblk] at hget
    obtain ⟨item', hitem', hused', hhints⟩ := hpage hblk item hget hused
    refine ⟨item', ?_, hused', hhints⟩
    rw [HeapRelation.item, if_neg h0, h, hblk, update_self]
    exact hitem'
  · refine ⟨item, ?_, hused, .none _⟩
    rw [HeapRelation.item, if_neg h0, h, update_of_ne hne]
    exact hget

end

/-! ## What the steps of a vacuum touch -/

structure Touches (v : Bool) (s s' : HeapRelation) : Prop where
  heap : s'.heap = s.heap
  view : s'.view = s.view
  xids : (s'.nextXid, s'.running) = (s.nextXid, s.running)
  other : s'.vacuums (!v) = s.vacuums (!v)

theorem Touches.trans {s'' : HeapRelation} (h : Touches v s s') (h' : Touches v s' s'') : Touches v s s'' :=
  ⟨h'.heap.trans h.heap, h'.view.trans h.view, h'.xids.trans h.xids, h'.other.trans h.other⟩

section

variable (v : Bool) (s : HeapRelation)

theorem setVacuum_self (w : Vacuum) : (s.setVacuum v w).vacuums v = w := update_self ..

theorem setVacuum_touches (w : Vacuum) : Touches v s (s.setVacuum v w) :=
  ⟨rfl, rfl, rfl, update_of_ne (not_ne_self v) ..⟩

theorem unlockRelation_touches : Touches v s (unlockRelation v s) := by
  unfold unlockRelation
  split <;> exact ⟨rfl, rfl, rfl, rfl⟩

theorem noWaitLockRelation_touches (h : noWaitLockRelation v s = some s') :
    Touches v s s' ∧ s'.vacuums v = s.vacuums v := by
  unfold noWaitLockRelation at h
  split at h
  · cases h
    exact ⟨⟨rfl, rfl, rfl, rfl⟩, rfl⟩
  · cases h

theorem unlock_setVacuum_touches (w : Vacuum) : Touches v s ((unlockRelation v s).setVacuum v w) :=
  (unlockRelation_touches v s).trans (setVacuum_touches v _ w)

theorem scanTop_spec (blkno : Nat) : Touches v s (scanTop v blkno s) ∧
    ∃ pc, (scanTop v blkno s).vacuums v = { s.vacuums v with pc := pc } ∧
      (pc = .scanRelock blkno ∨ pc = .scanPage blkno ∨ pc = .indexing none 0 ∨ pc = .closing) := by
  unfold scanTop endScan
  dsimp only
  split
  · split
    · exact ⟨unlock_setVacuum_touches v s _, _, setVacuum_self .., .inl rfl⟩
    · exact ⟨setVacuum_touches v s _, _, setVacuum_self .., .inr (.inl rfl)⟩
  · refine ⟨setVacuum_touches v s _, _, setVacuum_self .., .inr (.inr ?_)⟩
    split
    · exact .inr rfl
    · exact .inl rfl

theorem heapDone_spec (next : Option Nat) : Touches v s (heapDone v next s) ∧
    ∃ pc, (heapDone v next s).vacuums v = { s.vacuums v with pc := pc, deadTuples := [] } :=
  ⟨setVacuum_touches v s _, _, setVacuum_self ..⟩

theorem heapTop_spec (next : Option Nat) (tupindex : Nat) : Touches v s (heapTop v next tupindex s) ∧
    ∃ pc, ((heapTop v next tupindex s).vacuums v = { s.vacuums v with pc := pc } ∧
        (pc = .heapRelock next tupindex ∨ pc = .heapPage next tupindex)) ∨
      (heapTop v next tupindex s).vacuums v = { s.vacuums v with pc := pc, deadTuples := [] } := by
  unfold heapTop
  dsimp only
  split
  · split
    · exact ⟨setVacuum_touches v s _, _, .inl ⟨setVacuum_self .., .inr rfl⟩⟩
    · exact ⟨unlock_setVacuum_touches v s _, _, .inl ⟨setVacuum_self .., .inl rfl⟩⟩
  · obtain ⟨htouch, pc, hpc⟩ := heapDone_spec v s next
    exact ⟨htouch, pc, .inr hpc⟩

end

/-! ## One step of a vacuum -/

theorem headPage_subset (h : t ∈ headPage dead) : t ∈ dead := by
  unfold headPage at h
  split at h
  · cases h
  · exact (takeWhile_sublist _).subset h

theorem Vacuum.freeing_pending (h : t ∈ w.freeing) : t ∈ w.pending := by
  unfold Vacuum.freeing at h
  split at h
  · next hpc =>
    rw [Vacuum.pending, hpc]
    exact headPage_subset h
  · cases h

structure VacuumStep (v : Bool) (s s' : HeapRelation) : Prop where
  view : s'.view = s.view
  xids : (s'.nextXid, s'.running) = (s.nextXid, s.running)
  other : s'.vacuums (!v) = s.vacuums (!v)
  carried : ∀ t, t ∉ (s.vacuums v).freeing → Carried s s' t
  listed : Listed s' (s'.vacuums v)

theorem VacuumStep.of_touches (h : Listed s (s.vacuums v)) (ht : Touches v s s')
    (hw : s'.vacuums v = w) (hreapid : w.reapid = (s.vacuums v).reapid)
    (hpending : ∀ t ∈ w.pending, t ∈ (s.vacuums v).pending)
    (hdead : w.deadTuples = (s.vacuums v).deadTuples ∨ w.deadTuples = [])
    (hscanned : ∀ blkno, w.pc = .scanRelock blkno ∨ w.pc = .scanPage blkno →
      ∀ t ∈ w.deadTuples, t.ipBlkid < blkno) : VacuumStep v s s' where
  view := ht.view
  xids := ht.xids
  other := ht.other
  carried := fun t _ => carried_of_heap ht.heap t
  listed := by
    rw [hw]
    refine Listed.frame (s := s) ⟨fun t hpend => ?_, ?_, hscanned⟩ (later_of_eq ht.view)
      fun t _ => carried_of_heap ht.heap t
    · rw [hreapid]
      exact h.condemned t (hpending t hpend)
    · obtain hdead | hdead := hdead
      · rw [hdead]
        exact h.ordered
      · rw [hdead]
        exact .nil

section

variable {v : Bool} (h : Listed s (s.vacuums v))
include h

theorem endScan_step (hpc : (s.vacuums v).pc = .scanRelock blkno) : VacuumStep v s (endScan v s) := by
  unfold endScan
  dsimp only
  split
  · exact .of_touches h (setVacuum_touches v s _) (setVacuum_self ..) rfl (fun _ => nofun) (.inl rfl)
      fun b hb => by rcases hb with hb | hb <;> cases hb
  · refine .of_touches h (setVacuum_touches v s _) (setVacuum_self ..) rfl ?_ (.inl rfl)
      fun b hb => by rcases hb with hb | hb <;> cases hb
    rw [Vacuum.pending, Vacuum.pending, hpc]
    exact fun t ht => ht

theorem scanRelock_step (hpc : (s.vacuums v).pc = .scanRelock blkno) : VacuumStep v s (scanRelock v blkno s) := by
  unfold scanRelock
  split
  · next s₁ hlock =>
    obtain ⟨htouch, hsame⟩ := noWaitLockRelation_touches v s hlock
    refine .of_touches h (htouch.trans (setVacuum_touches v s₁ _))
      (w := { s.vacuums v with pc := .scanPage blkno }) (by rw [setVacuum_self, hsame]) rfl ?_ (.inl rfl) ?_
    · rw [Vacuum.pending, Vacuum.pending, hpc]
      exact fun t ht => ht
    · rintro b (hb | hb)
      · cases hb
      · cases hb
        exact h.scanned blkno (.inl hpc)
  · exact endScan_step h hpc

theorem lockRelation_step (hstep : lockRelation v s = some s') : VacuumStep v s s' := by
  unfold lockRelation at hstep
  split at hstep
  · let w : Vacuum := { s.vacuums v with nblocks := s.nblocks, deadTuples := [] }
    let s₁ : HeapRelation := { s with lock := some v }.setVacuum v w
    have htouch : Touches v s s₁ := ⟨rfl, rfl, rfl, update_of_ne (not_ne_self v) ..⟩
    have hself : s₁.vacuums v = w := setVacuum_self ..
    obtain ⟨htop, pc, hw, hpcs⟩ := scanTop_spec v s₁ 0
    rw [hself] at hw
    rw [← some.inj hstep]
    refine .of_touches h (htouch.trans htop) hw rfl ?_ (.inr rfl) fun _ _ => nofun
    rcases hpcs with rfl | rfl | rfl | rfl <;> exact nofun
  · cases hstep

end

theorem recordOf_appends (c : Config) (scanonly : Bool) (dead : List ItemPointerData) (t : ItemPointerData) :
    let record := if scanonly then fun dead _ => dead else lazyRecordDeadTuple c.maxDeadTuples
    record dead t = dead ∨ record dead t = dead ++ [t] := by
  cases scanonly with
  | true => exact .inl rfl
  | false =>
    change lazyRecordDeadTuple c.maxDeadTuples dead t = dead ∨ lazyRecordDeadTuple c.maxDeadTuples dead t = dead ++ [t]
    unfold lazyRecordDeadTuple
    split
    · exact .inr rfl
    · exact .inl rfl

theorem lazyScanHeapPage_spec (c : Config) (view : View) (w : Vacuum) (blkno : Nat) (page : Page) :
    (∀ (j : Nat) (item : ItemId), page[j]? = some item → item.used →
      ∃ item', (lazyScanHeapPage c view w blkno page).1[j]? = some item' ∧ item'.used ∧
        Hints view item.tuple item'.tuple) ∧
    ∃ found, (lazyScanHeapPage c view w blkno page).2 = w.deadTuples ++ found ∧
      ∀ t ∈ found, t.ipBlkid = blkno ∧ ∃ j item, t.ipPosid = 1+j ∧ page[j]? = some item ∧
        item.used ∧ Removable view w.reapid item.tuple := by
  refine ⟨fun j item hj hused => ?_, scanItems_dead (recordOf_appends c w.scanonly) page 1 w.deadTuples⟩
  let record := if w.scanonly then fun dead _ => dead else lazyRecordDeadTuple c.maxDeadTuples
  have hscan : (scanItems view record w.reapid blkno 1 page w.deadTuples).1[j]? =
      some { item with tuple := (heapTupleSatisfiesVacuum view w.reapid item.tuple).2 } :=
    scanItems_page 1 w.deadTuples hj hused
  refine ⟨{ item with tuple := (heapTupleSatisfiesVacuum view w.reapid item.tuple).2 }, ?_, hused,
    exec_hints view item.tuple (.vacuum w.reapid)⟩
  change (if (scanItems view record w.reapid blkno 1 page w.deadTuples).2.2 then _ else _)[j]? = _
  split
  · exact hscan
  · exact pageRepairFragmentation_used (pageCompactPage_used hscan hused) hused

theorem scanPage_step (c : Config) (h : Listed s (s.vacuums v))
    (hpc : (s.vacuums v).pc = .scanPage blkno) : VacuumStep v s (scanPage c v blkno s) := by
  unfold scanPage
  dsimp only
  split
  · refine .of_touches h (setVacuum_touches v s _) (setVacuum_self ..) rfl ?_ (.inl rfl) ?_
    · rw [Vacuum.pending, Vacuum.pending, hpc]
      exact fun t ht => ht
    · rintro b (hb | hb) <;> cases hb
  · obtain ⟨hpage, found, hdead, hfound⟩ := lazyScanHeapPage_spec c s.view (s.vacuums v) blkno (s.heap blkno)
    let page := (lazyScanHeapPage c s.view (s.vacuums v) blkno (s.heap blkno)).1
    let w : Vacuum := { s.vacuums v with
      deadTuples := (lazyScanHeapPage c s.view (s.vacuums v) blkno (s.heap blkno)).2 }
    let s₁ : HeapRelation := (s.setPage blkno page).setVacuum v w
    have hself : s₁.vacuums v = w := setVacuum_self ..
    obtain ⟨htop, pc, hw, hpcs⟩ := scanTop_spec v s₁ (blkno+1)
    rw [hself] at hw
    have hcarried (t : ItemPointerData) : Carried s (scanTop v (blkno+1) s₁) t :=
      carried_setPage htop.heap fun _ item => hpage _ item
    have hold (t : ItemPointerData) (ht : t ∈ (s.vacuums v).deadTuples) : ∃ item, s.item t = some item ∧
        item.used ∧ Removable s.view (s.vacuums v).reapid item.tuple := by
      refine h.condemned t ?_
      rw [Vacuum.pending, hpc]
      exact ht
    have hnew (t : ItemPointerData) (ht : t ∈ found) : ∃ item, s.item t = some item ∧
        item.used ∧ Removable s.view (s.vacuums v).reapid item.tuple := by
      obtain ⟨hblk, j, item, hpos, hitem, hgone⟩ := hfound t ht
      refine ⟨item, ?_, hgone⟩
      rw [HeapRelation.item, if_neg (by omega), hblk, show t.ipPosid - 1 = j by omega]
      exact hitem
    have hlist : w.deadTuples = (s.vacuums v).deadTuples ++ found := hdead
    have hblocks (t : ItemPointerData) (ht : t ∈ w.deadTuples) : t.ipBlkid < blkno+1 := by
      rw [hlist] at ht
      obtain ht | ht := mem_append.mp ht
      · exact lt_succ_of_lt (h.scanned blkno (.inr hpc) t ht)
      · exact lt_succ_of_le (le_of_eq (hfound t ht).1)
    refine ⟨htop.view, htop.xids, ?_, fun t _ => hcarried t, ?_⟩
    · exact htop.other.trans (update_of_ne (not_ne_self v) ..)
    · change Listed _ ((scanTop v (blkno+1) s₁).vacuums v)
      rw [hw]
      refine Listed.frame (s := s) ⟨fun t ht => ?_, ?_, ?_⟩ (later_of_eq htop.view) fun t _ => hcarried t
      · have ht : t ∈ w.deadTuples := by
          obtain rfl | rfl | rfl | rfl := hpcs
          · exact ht
          · exact ht
          · exact ht
          · cases ht
        rw [hlist] at ht
        exact (mem_append.mp ht).elim (hold t) (hnew t)
      · change w.deadTuples.Pairwise _
        rw [hlist, pairwise_append]
        refine ⟨h.ordered, pairwise_of_forall_mem_list ?_, fun t ht u hu => ?_⟩
        · exact fun t ht u hu => le_of_eq ((hfound t ht).1.trans (hfound u hu).1.symm)
        · rw [(hfound u hu).1]
          exact le_of_lt (h.scanned blkno (.inr hpc) t ht)
      · intro b hb
        rcases hpcs with rfl | rfl | rfl | rfl <;> rcases hb with hb | hb <;> cases hb
        · exact hblocks
        · exact hblocks

section

variable {v : Bool} {s : HeapRelation} (h : Listed s (s.vacuums v)) {next : Option Nat} {tupindex : Nat}
include h

theorem heapDone_step : VacuumStep v s (heapDone v next s) := by
  obtain ⟨htouch, pc, hw⟩ := heapDone_spec v s next
  refine .of_touches h htouch hw rfl ?_ (.inr rfl) fun _ _ => nofun
  rw [Vacuum.pending]
  cases pc <;> simp

theorem heapRelock_step (hpc : (s.vacuums v).pc = .heapRelock next tupindex) :
    VacuumStep v s (heapRelock v next tupindex s) := by
  unfold heapRelock
  split
  · next s₁ hlock =>
    obtain ⟨htouch, hsame⟩ := noWaitLockRelation_touches v s hlock
    refine .of_touches h (htouch.trans (setVacuum_touches v s₁ _))
      (w := { s.vacuums v with pc := .heapPage next tupindex }) (by rw [setVacuum_self, hsame]) rfl ?_
      (.inl rfl) fun b hb => by rcases hb with hb | hb <;> cases hb
    rw [Vacuum.pending, Vacuum.pending, hpc]
    exact fun t ht => ht
  · exact heapDone_step h

theorem indexing_step (c : Config) {i : Nat} (hpc : (s.vacuums v).pc = .indexing next i) :
    VacuumStep v s (indexing c v next i s) := by
  unfold indexing
  dsimp only
  split
  · refine .of_touches h ⟨rfl, rfl, rfl, update_of_ne (not_ne_self v) ..⟩
      (setVacuum_self ..) rfl ?_ (.inl rfl) fun b hb => by rcases hb with hb | hb <;> cases hb
    rw [Vacuum.pending, Vacuum.pending, hpc]
    exact fun t ht => ht
  · obtain ⟨htouch, pc, ⟨hw, hpcs⟩ | hw⟩ := heapTop_spec v s next 0
    · refine .of_touches h htouch hw rfl ?_ (.inl rfl) ?_
      · rw [Vacuum.pending, Vacuum.pending, hpc]
        rcases hpcs with rfl | rfl <;> exact fun t ht => ht
      · rcases hpcs with rfl | rfl <;> (rintro b (hb | hb) <;> cases hb)
    · refine .of_touches h htouch hw rfl ?_ (.inr rfl) fun _ _ => nofun
      rw [Vacuum.pending]
      cases pc <;> simp

omit h in
theorem not_headPage_of_dropWhile (blkno : Nat) (dead : List ItemPointerData)
    (hordered : dead.Pairwise fun t u => t.ipBlkid ≤ u.ipBlkid) (hle : ∀ t ∈ dead, blkno ≤ t.ipBlkid)
    (u : ItemPointerData) (hu : u ∈ dead.dropWhile fun t => t.ipBlkid = blkno) : u.ipBlkid ≠ blkno := by
  induction dead with
  | nil => cases hu
  | cons t rest ih =>
    obtain ⟨hhead, hrest⟩ := pairwise_cons.mp hordered
    rw [dropWhile_cons] at hu
    split at hu
    · exact ih hrest (fun x hx => hle x (.tail _ hx)) hu
    · next hne =>
      have hne : t.ipBlkid ≠ blkno := by simpa using hne
      have hlt := lt_of_le_of_ne (hle t (.head _)) (Ne.symm hne)
      obtain rfl | hu := mem_cons.mp hu
      · exact hne
      · exact (hlt.trans_le (hhead u hu)).ne'

omit h in
theorem headPage_block (hu : u ∈ headPage (t :: rest)) : u.ipBlkid = t.ipBlkid := by
  simpa using mem_takeWhile_imp hu

theorem pending_after_headPage (hdrop : (s.vacuums v).deadTuples.drop tupindex = t :: rest)
    (hu : u ∈ (s.vacuums v).deadTuples.drop (tupindex + (headPage (t :: rest)).length)) :
    u ∈ t :: rest ∧ u ∉ headPage (t :: rest) := by
  have hsplit : (t :: rest).drop (headPage (t :: rest)).length =
      (t :: rest).dropWhile fun u => u.ipBlkid = t.ipBlkid := by
    have happend : headPage (t :: rest) ++ (t :: rest).dropWhile (fun u => u.ipBlkid = t.ipBlkid) =
      t :: rest := takeWhile_append_dropWhile
    calc (t :: rest).drop (headPage (t :: rest)).length
      _ = (headPage (t :: rest) ++ (t :: rest).dropWhile fun u => u.ipBlkid = t.ipBlkid).drop
            (headPage (t :: rest)).length := by rw [happend]
      _ = _ := drop_left
  rw [← drop_drop, hdrop, hsplit] at hu
  have hordered : (t :: rest).Pairwise fun t u => t.ipBlkid ≤ u.ipBlkid := hdrop ▸ h.ordered.sublist (drop_sublist _ _)
  have hle (x : ItemPointerData) (hx : x ∈ t :: rest) : t.ipBlkid ≤ x.ipBlkid := by
    obtain rfl | hx := mem_cons.mp hx
    · exact le_rfl
    · exact (pairwise_cons.mp hordered).1 x hx
  have hne := not_headPage_of_dropWhile t.ipBlkid (t :: rest) hordered hle u hu
  exact ⟨(dropWhile_sublist _).subset hu, fun hhead => hne (headPage_block hhead)⟩

theorem carried_past_headPage (hpending : (s.vacuums v).pending = t :: rest)
    (hheap : s'.heap = update s.heap t.ipBlkid (pageRepairFragmentation (pageCompactPage
      (lazyVacuumPage t.ipBlkid (t :: rest) (s.heap t.ipBlkid) tupindex).1)))
    (hu : u ∉ headPage (t :: rest)) : Carried s s' u := by
  intro item hitem hused
  refine carried_setPage hheap (fun hblk item hget hused => ?_) item hitem hused
  have hother : ∀ x ∈ headPage (t :: rest), x.ipPosid-1 ≠ u.ipPosid-1 := by
    -- line pointers with the same place on the page are the same
    intro x hx hpos
    obtain ⟨_, hxitem, -⟩ := h.condemned x (hpending ▸ headPage_subset hx)
    have hxpos := (item_eq hxitem).1
    have hupos := (item_eq hitem).1
    have hxblk := headPage_block hx
    have heq : x = u := by
      cases x
      cases u
      simp only [SharedInval.ItemPointerData.mk.injEq] at *
      omega
    exact hu (heq ▸ hx)
  have hkeep := (lazyVacuumPage_spec t.ipBlkid (t :: rest) (s.heap t.ipBlkid) tupindex).2 _ hother
  have hget := hkeep.trans hget
  exact ⟨item, pageRepairFragmentation_used (pageCompactPage_used hget hused) hused, hused, .none _⟩

theorem heapPage_step (hpc : (s.vacuums v).pc = .heapPage next tupindex) :
    VacuumStep v s (heapPage v next tupindex s) := by
  have hfreeing : (s.vacuums v).freeing = headPage ((s.vacuums v).deadTuples.drop tupindex) := by
    rw [Vacuum.freeing, hpc]
  have hpending : (s.vacuums v).pending = (s.vacuums v).deadTuples.drop tupindex := by
    rw [Vacuum.pending, hpc]
  unfold heapPage
  split
  · exact heapDone_step h
  · next t rest hdrop =>
    rw [hdrop] at hfreeing hpending
    have hindex := (lazyVacuumPage_spec t.ipBlkid (t :: rest) (s.heap t.ipBlkid) tupindex).1
    rcases hfreed : lazyVacuumPage t.ipBlkid (t :: rest) (s.heap t.ipBlkid) tupindex with ⟨freed, k⟩
    rw [hfreed] at hindex
    dsimp only at hindex ⊢
    have hk : k = tupindex + (headPage (t :: rest)).length := hindex
    let s₁ := s.setPage t.ipBlkid (pageRepairFragmentation (pageCompactPage freed))
    obtain ⟨htop, pc, hw⟩ := heapTop_spec v s₁ next k
    have hcarried (u : ItemPointerData) (hu : u ∉ headPage (t :: rest)) : Carried s (heapTop v next k s₁) u :=
      carried_past_headPage h hpending (htop.heap.trans (by rw [hfreed]; rfl)) hu
    refine ⟨htop.view, htop.xids, htop.other, fun u hu => hcarried u (hfreeing ▸ hu), ?_⟩
    obtain ⟨hw, hpcs⟩ | hw := hw
    · rw [hw]
      have hpend (u : ItemPointerData) (hu : u ∈ ({ s.vacuums v with pc := pc } : Vacuum).pending) :
          u ∈ t :: rest ∧ u ∉ headPage (t :: rest) := by
        refine pending_after_headPage h hdrop ?_
        rw [← hk]
        rcases hpcs with rfl | rfl <;> exact hu
      refine Listed.frame (s := s) ⟨fun u hu => ?_, h.ordered, ?_⟩ (later_of_eq htop.view)
        fun u hu => hcarried u (hpend u hu).2
      · exact h.condemned u (hpending ▸ (hpend u hu).1)
      · rcases hpcs with rfl | rfl <;> (rintro b (hb | hb) <;> cases hb)
    · rw [hw]
      refine ⟨fun u hu => ?_, .nil, fun _ _ => nofun⟩
      rw [Vacuum.pending] at hu
      cases pc <;> simp at hu

end

theorem vacuum_step (h : Listed s (s.vacuums v)) (hstep : next c s (.vacuum v) = some s') : VacuumStep v s s' := by
  change lazyVacuumRel c v s = some s' at hstep
  unfold lazyVacuumRel at hstep
  cases hpc : (s.vacuums v).pc with rw [hpc] at hstep
  | idle => cases hstep
  | waiting => exact lockRelation_step h hstep
  | scanRelock blkno => exact some.inj hstep ▸ scanRelock_step h hpc
  | scanPage blkno => exact some.inj hstep ▸ scanPage_step c h hpc
  | indexing next i => exact some.inj hstep ▸ indexing_step h c hpc
  | heapRelock next tupindex => exact some.inj hstep ▸ heapRelock_step h hpc
  | heapPage next tupindex => exact some.inj hstep ▸ heapPage_step h hpc
  | closing =>
    refine some.inj hstep ▸ .of_touches h (unlock_setVacuum_touches v s _) (setVacuum_self ..)
      rfl (fun _ => nofun) (.inl rfl) fun b hb => ?_
    rcases hb with hb | hb <;> cases hb

/-! ## Indexes -/

theorem btbulkdelete_count (ht : t ∉ dead) (removed : Nat) (entries : List ItemPointerData) :
    (btbulkdelete dead removed entries).count t = entries.count t := by
  induction entries generalizing removed with
  | nil => rfl
  | cons u rest ih =>
    rw [btbulkdelete]
    split
    · next hu =>
      have hne : u ≠ t := fun heq => ht (heq ▸ hu)
      rw [count_cons_of_ne hne]
      split
      · rfl
      · exact ih _
    · rw [count_cons, count_cons, ih]

theorem vacuum_index (hstep : next c s (.vacuum v) = some s') : s'.index = s.index ∨
      (∃ next i, (s.vacuums v).pc = .indexing next i ∧ s'.index = update s.index i
        (btbulkdelete (s.vacuums v).deadTuples 0 (s.index i))) := by
  have hunlock (s : HeapRelation) : (unlockRelation v s).index = s.index := by
    unfold unlockRelation
    split <;> rfl
  have hscan (blkno : Nat) (s : HeapRelation) : (scanTop v blkno s).index = s.index := by
    unfold scanTop
    dsimp only
    split
    · split
      · exact hunlock s
      · rfl
    · rfl
  have htop (next : Option Nat) (tupindex : Nat) (s : HeapRelation) : (heapTop v next tupindex s).index = s.index := by
    unfold heapTop
    dsimp only
    split
    · split
      · rfl
      · exact hunlock s
    · rfl
  have hlock (s s' : HeapRelation) (h : noWaitLockRelation v s = some s') : s'.index = s.index := by
    unfold noWaitLockRelation at h
    split at h <;> cases h
    rfl
  change lazyVacuumRel c v s = some s' at hstep
  unfold lazyVacuumRel at hstep
  cases hpc : (s.vacuums v).pc with rw [hpc] at hstep
  | idle => cases hstep
  | waiting =>
    left
    change lockRelation v s = some s' at hstep
    unfold lockRelation at hstep
    split at hstep
    · exact some.inj hstep ▸ hscan 0 _
    · cases hstep
  | scanRelock blkno =>
    left
    rw [← some.inj hstep]
    unfold scanRelock
    split
    · next s₁ h => exact hlock s s₁ h
    · rfl
  | scanPage blkno =>
    left
    rw [← some.inj hstep]
    unfold scanPage
    dsimp only
    split
    · rfl
    · exact hscan _ _
  | indexing next i =>
    rw [← some.inj hstep]
    unfold indexing
    dsimp only
    split
    · exact .inr ⟨next, i, rfl, rfl⟩
    · exact .inl (htop next 0 s)
  | heapRelock next tupindex =>
    left
    rw [← some.inj hstep]
    unfold heapRelock
    split
    · next s₁ h => exact hlock s s₁ h
    · rfl
  | heapPage next tupindex =>
    left
    rw [← some.inj hstep]
    unfold heapPage
    split
    · rfl
    · exact htop _ _ _
  | closing =>
    left
    exact some.inj hstep ▸ hunlock s

/-! ## Runs -/

theorem Invariant.removes (h : Invariant s) : OnlyDeadRemoved c s := by
  intro v s' hstep
  have hlisted := h.listed v
  have hgone {t : ItemPointerData} {item : ItemId} (ht : t ∈ (s.vacuums v).pending)
      (hitem : s.item t = some item) : Removable s.view (s.vacuums v).reapid item.tuple := by
    obtain ⟨item', hitem', -, hgone⟩ := hlisted.condemned t ht
    rw [hitem] at hitem'
    exact some.inj hitem' ▸ hgone
  refine ⟨fun t item hitem hused hfreed => ?_, fun i t item hcount hitem _ => ?_⟩
  · refine hgone (Decidable.byContradiction fun ht => ?_) hitem
    obtain ⟨item', hitem', hused', -⟩ :=
      (vacuum_step hlisted hstep).carried t (fun hf => ht (Vacuum.freeing_pending hf)) item hitem hused
    exact absurd (hfreed item' hitem') (by rw [hused']; decide)
  · obtain heq | ⟨next, j, hpc, heq⟩ := vacuum_index hstep
    · rw [heq] at hcount
      exact absurd hcount (lt_irrefl _)
    · refine hgone (Decidable.byContradiction fun ht => ?_) hitem
      rw [Vacuum.pending, hpc] at ht
      rw [heq, update_apply] at hcount
      split at hcount
      · next hij =>
        rw [btbulkdelete_count ht, hij] at hcount
        exact lt_irrefl _ hcount
      · exact lt_irrefl _ hcount

theorem Numbered.begin (h : Numbered s) (hnext : s.nextXid < 2^64) : Numbered { s with
      running := update s.running (.ofNat 64 s.nextXid) true
      nextXid := s.nextXid + 1 } := by
  have hnat : (BitVec.ofNat 64 s.nextXid).toNat = s.nextXid := by
    rw [BitVec.toNat_ofNat, mod_eq_of_lt hnext]
  have hrun (x : TransactionId) (hx : update s.running (.ofNat 64 s.nextXid) true x) :
      x = .ofNat 64 s.nextXid ∨ s.running x := by
    rw [update_apply] at hx
    split at hx
    · next heq => exact .inl heq
    · exact .inr hx
  refine ⟨fun x hx => ?_, fun x hx => ?_, fun x hx => h.fresh x (le_of_succ_le hx)⟩
  · obtain rfl | hx := hrun x hx
    · exact h.fresh _ hnat.symm.le
    · exact h.coherent x hx
  · obtain rfl | hx := hrun x hx
    · change (BitVec.ofNat 64 s.nextXid).toNat < s.nextXid+1
      rw [hnat]
      exact lt_succ_self _
    · exact lt_succ_of_lt (h.issued x hx)

theorem Numbered.finish (h : Numbered s) (xstatus : XidStatus) (hx : s.running x) :
    Numbered { s with
      log := update s.log x xstatus, running := update s.running x false } := by
  have hrun (y : TransactionId) (hy : update s.running x false y) : y ≠ x ∧ s.running y := by
    rw [update_apply] at hy
    split at hy
    · cases hy
    · next hne => exact ⟨hne, hy⟩
  refine ⟨fun y hy => ?_, fun y hy => h.issued y (hrun y hy).2, fun y hy => ?_⟩
  · exact (update_of_ne (hrun y hy).1 ..).trans (h.coherent y (hrun y hy).2)
  · have hne : y ≠ x := by
      rintro rfl
      exact Nat.not_le_of_lt (h.issued y hx) hy
    exact (update_of_ne hne ..).trans (h.fresh y hy)

theorem Numbered.harden (h : Numbered s) (hsoft : s.log x = .softCommit) :
    Numbered { s with log := update s.log x .commit } := by
  have hlog (y : TransactionId) (hy : s.log y = .inprogress) : update s.log x .commit y = .inprogress := by
    have hne : y ≠ x := by
      rintro rfl
      cases hsoft.symm.trans hy
    exact (update_of_ne hne ..).trans hy
  exact ⟨fun y hy => hlog y (h.coherent y hy), h.issued, fun y hy => hlog y (h.fresh y hy)⟩

theorem Numbered.frame (h : Numbered s) (hview : s'.view = s.view)
    (hxids : (s'.nextXid, s'.running) = (s.nextXid, s.running)) : Numbered s' := by
  have hlog : s'.log = s.log := congrArg View.log hview
  obtain ⟨hnext, hrunning⟩ := Prod.mk.inj hxids
  refine ⟨fun x hx => ?_, fun x hx => ?_, fun x hx => ?_⟩
  · rw [hlog]
    exact h.coherent x (hrunning ▸ hx)
  · rw [hnext]
    exact h.issued x (hrunning ▸ hx)
  · rw [hlog]
    exact h.fresh x (hnext ▸ hx)

theorem Invariant.frame (h : Invariant s) (hnumbered : Numbered s')
    (hvacuums : s'.vacuums = s.vacuums) (hview : Later s.view s'.view)
    (hcarried : ∀ t, Carried s s' t) : Invariant s' where
  numbered := hnumbered
  listed := fun v => by
    rw [hvacuums]
    exact (h.listed v).frame hview fun t _ => hcarried t

theorem Invariant.step {e : Event} (h : Invariant s)
    (hok : careful s e) (hstep : next c s e = some s') : Invariant s' := by
  cases e with
  | start v reapid scanonly forceTrim =>
    simp only [next] at hstep
    split at hstep <;> cases hstep
    refine ⟨h.numbered.frame rfl rfl, fun u => ?_⟩
    obtain rfl | hne := eq_or_ne u v
    · rw [setVacuum_self]
      exact ⟨fun _ => nofun, .nil, fun _ _ => nofun⟩
    · have hsame : (s.setVacuum v ⟨.waiting, reapid, scanonly, forceTrim, 0, []⟩).vacuums u =
          s.vacuums u := update_of_ne hne ..
      rw [hsame]
      exact (h.listed u).frame (later_of_eq rfl) fun t _ => carried_of_heap rfl t
  | vacuum v =>
    have hvac := vacuum_step (h.listed v) hstep
    refine ⟨h.numbered.frame hvac.view hvac.xids, fun u => ?_⟩
    obtain rfl | hne := eq_or_ne u v
    · exact hvac.listed
    · have hu : u = !v := eq_not_of_ne hne
      rw [hu, hvac.other]
      refine (h.listed (!v)).frame (later_of_eq hvac.view) fun t ht => hvac.carried t fun hf => ?_
      exact of_decide_eq_true (all_eq_true.mp hok t hf) ht
  | begin =>
    simp only [next] at hstep
    split at hstep
    · next hnext =>
      cases hstep
      exact h.frame (h.numbered.begin hnext) rfl (later_begin hnext) fun t => carried_of_heap rfl t
    · cases hstep
  | insert x blkno tup cid size =>
    change insertTuple x blkno tup cid size s = some s' at hstep
    unfold insertTuple at hstep
    split at hstep <;> cases hstep
    refine h.frame (h.numbered.frame rfl rfl) rfl (later_of_eq rfl) fun t => ?_
    refine carried_setPage rfl fun _ item hget hused => ⟨item, ?_, hused, .none _⟩
    exact pageAddItem_used size _ hget hused
  | indexInsert i p t =>
    cases hstep
    exact h.frame (h.numbered.frame rfl rfl) rfl (later_of_eq rfl) fun t => carried_of_heap rfl t
  | finish x xstatus =>
    simp only [next] at hstep
    split at hstep
    · next hrun =>
      cases hstep
      exact h.frame (h.numbered.finish xstatus hrun.1) rfl (later_finish h.numbered.coherent hrun.1)
        fun t => carried_of_heap rfl t
    · cases hstep
  | harden x =>
    simp only [next] at hstep
    split at hstep
    · next hsoft =>
      cases hstep
      exact h.frame (h.numbered.harden hsoft) rfl (later_harden hsoft) fun t => carried_of_heap rfl t
    · cases hstep

def sampleConfig : Config := ⟨10, 4, 1⟩

def freshTuple : HeapTupleHeader := ⟨0, 0, 0, ⟨0, 1⟩, ⟨false, false, false, true, false, false, false⟩⟩

def idleVacuum : Vacuum := ⟨.idle, 0, false, false, 0, []⟩

/-- One page with one tuple, whose inserter has crashed, and its entry in the index. -/
def onePage : HeapRelation where
  heap := fun blkno => if blkno = 0 then [⟨true, 40, heapInsert freshTuple 5 0⟩] else []
  nblocks := 1
  index := fun i => if i = 0 then [⟨0, 1⟩] else []
  lock := none
  vacuums := fun _ => idleVacuum
  log := fun _ => .inprogress
  nextXid := 6
  running := fun _ => false

theorem onePage_opened : Opened onePage :=
  ⟨⟨fun _ _ => rfl, fun _ h => absurd h nofun, fun _ _ => rfl⟩, fun _ => rfl, fun _ => rfl⟩

def collect (v : Bool) : List Event :=
  [.start v 6 false false, .vacuum v, .vacuum v, .vacuum v, .vacuum v, .vacuum v]

/-- One vacuum has freed the tuple, and an insert takes its place and aborts while another one starts. -/
def reused : List Event :=
  collect false ++ [.vacuum false, .vacuum false, .begin, .insert 6 0 freshTuple 0 40, .start true 7 false false,
    .vacuum false, .indexInsert 0 0 ⟨0, 1⟩, .finish 6 .abort] ++ List.replicate 6 (.vacuum true)

/-- The tuple that one vacuum has listed is removed by another one, and its place is taken. -/
def overlap : List Event :=
  collect false ++ collect true ++ [.vacuum true, .vacuum true, .vacuum true,
    .begin, .insert 6 0 freshTuple 0 40, .indexInsert 0 0 ⟨0, 1⟩, .finish 6 .commit, .vacuum false]

/-- The next step of the vacuum `v` frees a tuple that cannot go. -/
def freesLive (c : Config) (v : Bool) (t : ItemPointerData) (s : HeapRelation) : Bool :=
  match s.item t, next c s (.vacuum v) with
  | some item, some s' => item.used && (s'.item t).all (fun item => !item.used) &&
      !tupgone (heapTupleSatisfiesVacuum s.view (s.vacuums v).reapid item.tuple).1
  | _, _ => false

end WeaverDB.LazyVacuum
