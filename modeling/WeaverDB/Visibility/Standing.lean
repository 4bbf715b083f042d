import WeaverDB.Visibility.History
import WeaverDB.Visibility.Routines

/-! # What the routines make of a header

`Hints v t t'`: `t'` is `t` with hint bits that a call has set for a reason (`Justified`). Every call
leaves such a header, and its result depends on where the inserter and the deleter stand and on the
fields that calls do not change.
-/

namespace WeaverDB.Visibility
open TransLog Snapshot

variable {t t' t'' : HeapTupleHeader} {x : TransactionId}

/-! ## Headers that differ in hint bits -/

structure SameTuple (t t' : HeapTupleHeader) : Prop where
  progress : t'.progress = t.progress
  xmin : t'.xmin = t.xmin
  xmax : t'.xmax = t.xmax
  ctid : t'.ctid = t.ctid
  markedForUpdate : t'.infomask.markedForUpdate = t.infomask.markedForUpdate
  movedIn : t'.infomask.movedIn = t.infomask.movedIn
  movedOut : t'.infomask.movedOut = t.infomask.movedOut

theorem SameTuple.refl (t : HeapTupleHeader) : SameTuple t t := ⟨rfl, rfl, rfl, rfl, rfl, rfl, rfl⟩

theorem SameTuple.trans (h : SameTuple t t') (h' : SameTuple t' t'') : SameTuple t t'' :=
  ⟨h'.progress.trans h.progress, h'.xmin.trans h.xmin, h'.xmax.trans h.xmax, h'.ctid.trans h.ctid,
    h'.markedForUpdate.trans h.markedForUpdate, h'.movedIn.trans h.movedIn,
    h'.movedOut.trans h.movedOut⟩

theorem sameTuple_hint (t : HeapTupleHeader) (b : HintBit) : SameTuple t (t.hint b) := by
  cases b <;> exact ⟨rfl, rfl, rfl, rfl, rfl, rfl, rfl⟩

theorem sameTuple_clear (t : HeapTupleHeader) (b : HintBit) : SameTuple t (t.clear b) := by
  cases b <;> exact ⟨rfl, rfl, rfl, rfl, rfl, rfl, rfl⟩

theorem has_hint (t : HeapTupleHeader) (b c : HintBit) : (t.hint b).has c = (decide (c = b) || t.has c) := by
  cases b <;> cases c <;> rfl

section

variable (h : SameTuple t t')
include h

theorem SameTuple.cmin : t'.cmin = t.cmin := by
  rw [HeapTupleHeader.cmin, h.progress, HeapTupleHeader.cmin]

theorem SameTuple.cmax : t'.cmax = t.cmax := by
  rw [HeapTupleHeader.cmax, h.progress, HeapTupleHeader.cmax]

theorem SameTuple.vtran : t'.vtran = t.vtran := h.progress

end

/-! ## Justified hints -/

def View.isVoid (v : View) (xid : TransactionId) : Bool :=
  !transactionIdDidCommit v.log xid && (transactionIdDidAbort v.log xid || v.didCrash xid)

def Justified (v : View) (t : HeapTupleHeader) : HintBit → Prop
  | .xminCommitted => t.has .xminInvalid = false ∧ transactionIdDidHardCommit v.log t.xmin
  | .xminInvalid => t.has .xminCommitted = false ∧ v.isVoid t.xmin
  | .xmaxCommitted => t.has .xmaxInvalid = false ∧ transactionIdDidHardCommit v.log t.xmax
  | .xmaxInvalid =>
    (t.has .xminCommitted ∨ transactionIdDidCommit v.log t.xmin) ∧
      (t.xmax = 0 ∨ t.has .xmaxCommitted = false ∧ v.isVoid t.xmax)

inductive Hints (v : View) : HeapTupleHeader → HeapTupleHeader → Prop where
  | none (t : HeapTupleHeader) : Hints v t t
  | more {t t' : HeapTupleHeader} (b : HintBit) (h : Hints v t t') (hb : Justified v t' b) :
      Hints v t (t'.hint b)

theorem Hints.trans {v : View} (h : Hints v t t') (h' : Hints v t' t'') : Hints v t t'' := by
  induction h' with
  | none => exact h
  | more b _ hb ih => exact .more b ih hb

theorem Hints.sameTuple {v : View} (h : Hints v t t') : SameTuple t t' := by
  induction h with
  | none => exact SameTuple.refl _
  | more b _ _ ih => exact ih.trans (sameTuple_hint _ b)

/-! ## The shared tests -/

theorem askLog_cases (v : View) (t : HeapTupleHeader) (xid : TransactionId) (committed invalid : HintBit) :
    (transactionIdDidCommit v.log xid ∧ transactionIdDidHardCommit v.log xid ∧
        askLog v t xid committed invalid = (.committed, t.hint committed)) ∨
      (transactionIdDidCommit v.log xid ∧ askLog v t xid committed invalid = (.committed, t)) ∨
      (v.isVoid xid ∧ askLog v t xid committed invalid = (.void, t.hint invalid)) ∨
      (transactionIdDidCommit v.log xid = false ∧ v.isVoid xid = false ∧
        askLog v t xid committed invalid = (.running, t)) := by
  unfold askLog View.isVoid
  cases transactionIdDidCommit v.log xid <;> cases transactionIdDidAbort v.log xid <;>
    cases v.didCrash xid <;> cases transactionIdDidHardCommit v.log xid <;> simp

theorem askLog_standing (v : View) (t : HeapTupleHeader) (x : TransactionId) (c i : HintBit) :
    (transactionIdDidCommit v.log x ∧ (askLog v t x c i).1 = .committed) ∨ (transactionIdDidCommit v.log x = false ∧
        ((askLog v t x c i).1 = .void ∨ (askLog v t x c i).1 = .running)) := by
  obtain ⟨hc, -, e⟩ | ⟨hc, e⟩ | ⟨hvoid, e⟩ | ⟨hc, -, e⟩ := askLog_cases v t x c i
  · rw [e]
    exact .inl ⟨hc, rfl⟩
  · rw [e]
    exact .inl ⟨hc, rfl⟩
  · rw [View.isVoid, Bool.and_eq_true, Bool.not_eq_true'] at hvoid
    rw [e]
    exact .inr ⟨hvoid.1, .inl rfl⟩
  · rw [e]
    exact .inr ⟨hc, .inr rfl⟩

variable {v : View}

theorem askLog_hints {c i : HintBit} (hc : transactionIdDidHardCommit v.log x → Justified v t c)
    (hi : v.isVoid x → Justified v t i) : Hints v t (askLog v t x c i).2 := by
  obtain ⟨-, hhard, e⟩ | ⟨-, e⟩ | ⟨hvoid, e⟩ | ⟨-, -, e⟩ := askLog_cases v t x c i
  · rw [e]
    exact .more c (.none t) (hc hhard)
  · rw [e]
    exact .none t
  · rw [e]
    exact .more i (.none t) (hi hvoid)
  · rw [e]
    exact .none t

section

variable {v : View} {asksOwn : Bool} {t : HeapTupleHeader}

theorem inserter_of_committed (h : t.has .xminCommitted) : inserter v asksOwn t = (.committed, t) := if_pos h

section

variable (hcom : t.has .xminCommitted = false)
include hcom

theorem inserter_of_invalid (h : t.has .xminInvalid) : inserter v asksOwn t = (.void, t) :=
  (if_neg (Bool.eq_false_iff.mp hcom)).trans (if_pos h)

theorem inserter_of_current (hinv : t.has .xminInvalid = false)
    (h : (asksOwn && v.isCurrent t.xmin)) : inserter v asksOwn t = (.own, t) :=
  (if_neg (Bool.eq_false_iff.mp hcom)).trans ((if_neg (Bool.eq_false_iff.mp hinv)).trans (if_pos h))

theorem inserter_of_other (hinv : t.has .xminInvalid = false) (h : ¬ (asksOwn && v.isCurrent t.xmin)) :
    inserter v asksOwn t = askLog v t t.xmin .xminCommitted .xminInvalid :=
  (if_neg (Bool.eq_false_iff.mp hcom)).trans ((if_neg (Bool.eq_false_iff.mp hinv)).trans (if_neg h))

end

theorem deleter_of_invalid (h : t.has .xmaxInvalid) : deleter v asksOwn t = (.void, t) := if_pos h

theorem deleter_of_zero (hinv : t.has .xmaxInvalid = false) (h : t.xmax = 0) :
    deleter v asksOwn t = (.void, t.hint .xmaxInvalid) :=
  (if_neg (Bool.eq_false_iff.mp hinv)).trans (if_pos h)

section

variable (hinv : t.has .xmaxInvalid = false) (h0 : t.xmax ≠ 0)
include hinv h0

theorem deleter_of_committed (h : t.has .xmaxCommitted) : deleter v asksOwn t = (.committed, t) :=
  (if_neg (Bool.eq_false_iff.mp hinv)).trans ((if_neg h0).trans (if_pos h))

theorem deleter_of_current (hcom : t.has .xmaxCommitted = false)
    (h : (asksOwn && v.isCurrent t.xmax)) : deleter v asksOwn t = (.own, t) :=
  (if_neg (Bool.eq_false_iff.mp hinv)).trans ((if_neg h0).trans ((if_neg (Bool.eq_false_iff.mp hcom)).trans (if_pos h)))

theorem deleter_of_other (hcom : t.has .xmaxCommitted = false) (h : ¬ (asksOwn && v.isCurrent t.xmax)) :
    deleter v asksOwn t = askLog v t t.xmax .xmaxCommitted .xmaxInvalid :=
  (if_neg (Bool.eq_false_iff.mp hinv)).trans ((if_neg h0).trans ((if_neg (Bool.eq_false_iff.mp hcom)).trans (if_neg h)))

end

theorem askLog_committed_iff {c i : HintBit} : (askLog v t x c i).1 = .committed ↔ transactionIdDidCommit v.log x := by
  rcases askLog_standing v t x c i with ⟨hc, e⟩ | ⟨hc, e | e⟩ <;> simp [hc, e]

theorem inserter_committed_iff : (inserter v asksOwn t).1 = .committed ↔
    t.has .xminCommitted ∨ t.has .xminInvalid = false ∧
      ¬ (asksOwn && v.isCurrent t.xmin) ∧ transactionIdDidCommit v.log t.xmin := by
  cases hcom : t.has .xminCommitted with
  | true => simp [inserter_of_committed hcom]
  | false =>
    cases hinv : t.has .xminInvalid with
    | true => simp [inserter_of_invalid hcom hinv]
    | false =>
      by_cases hown : (asksOwn && v.isCurrent t.xmin)
      · simp [inserter_of_current hcom hinv hown, hown]
      · simp [inserter_of_other hcom hinv hown, hown, askLog_committed_iff]

theorem deleter_committed_iff : (deleter v asksOwn t).1 = .committed ↔
    (t.has .xmaxInvalid = false ∧ t.xmax ≠ 0) ∧ (t.has .xmaxCommitted ∨
      ¬ (asksOwn && v.isCurrent t.xmax) ∧ transactionIdDidCommit v.log t.xmax) := by
  cases hinv : t.has .xmaxInvalid with
  | true => simp [deleter_of_invalid hinv]
  | false =>
    by_cases h0 : t.xmax = 0
    · simp [deleter_of_zero hinv h0, h0]
    cases hcom : t.has .xmaxCommitted with
    | true =>
      rw [deleter_of_committed hinv h0 hcom]
      exact iff_of_true rfl ⟨⟨rfl, h0⟩, .inl rfl⟩
    | false =>
      by_cases hown : (asksOwn && v.isCurrent t.xmax)
      · simp [deleter_of_current hinv h0 hcom hown, hown]
      · rw [deleter_of_other hinv h0 hcom hown, askLog_committed_iff]
        exact ⟨fun hlog => ⟨⟨rfl, h0⟩, .inr ⟨hown, hlog⟩⟩, fun h => (h.2.resolve_left Bool.false_ne_true).2⟩

end

theorem inserter_hints (v : View) (asksOwn : Bool) (t : HeapTupleHeader) : Hints v t (inserter v asksOwn t).2 := by
  unfold inserter
  split_ifs with hcom hinv hown
  · exact .none t
  · exact .none t
  · exact .none t
  · exact askLog_hints (fun hhard => ⟨Bool.eq_false_iff.mpr hinv, hhard⟩)
      (fun hvoid => ⟨Bool.eq_false_iff.mpr hcom, hvoid⟩)

theorem inserter_committed {asksOwn : Bool} (h : (inserter v asksOwn t).1 = .committed) :
    t.has .xminCommitted ∨ transactionIdDidCommit v.log t.xmin :=
  (inserter_committed_iff.mp h).imp_right fun hlog => hlog.2.2

theorem Hints.has (h : Hints v t t') (b : HintBit) (hb : t.has b) : t'.has b := by
  induction h with
  | none => exact hb
  | more c _ _ ih => rw [has_hint, ih, Bool.or_true]

theorem deleter_hints (asksOwn : Bool) (h : t.has .xminCommitted ∨ transactionIdDidCommit v.log t.xmin) :
    Hints v t (deleter v asksOwn t).2 := by
  unfold deleter
  split_ifs with hinv h0 hcom hown
  · exact .none t
  · exact .more .xmaxInvalid (.none t) ⟨h, .inl h0⟩
  · exact .none t
  · exact .none t
  · exact askLog_hints (fun hhard => ⟨Bool.eq_false_iff.mpr hinv, hhard⟩)
      (fun hvoid => ⟨h, .inr ⟨Bool.eq_false_iff.mpr hcom, hvoid⟩⟩)

/-! ## Headers after a call -/

/-- A call stops after the tests of the inserter, or goes on to those of the deleter. -/
def Leaves (v : View) (asksOwn : Bool) (t t' : HeapTupleHeader) : Prop :=
  t' = (inserter v asksOwn t).2 ∨
    (inserter v asksOwn t).1 = .committed ∧ t' = (deleter v asksOwn (inserter v asksOwn t).2).2

theorem Leaves.hints {asksOwn : Bool} (h : Leaves v asksOwn t t') : Hints v t t' := by
  obtain rfl | ⟨hc, rfl⟩ := h
  · exact inserter_hints v asksOwn t
  · have hfirst := inserter_hints v asksOwn t
    refine hfirst.trans (deleter_hints asksOwn ?_)
    rw [hfirst.sameTuple.xmin]
    exact (inserter_committed hc).imp_left (hfirst.has .xminCommitted)

section

variable (v : View) (t : HeapTupleHeader)

theorem itself_leaves : Leaves v true t (heapTupleSatisfiesItself v t).2 := by
  unfold Leaves heapTupleSatisfiesItself
  obtain ⟨_ | _ | _ | _, t'⟩ := inserter v true t
  case committed =>
    dsimp only
    rcases deleter v true t' with ⟨_ | _ | _ | _, _⟩ <;> exact .inr ⟨rfl, rfl⟩
  all_goals exact .inl rfl

theorem now_leaves : Leaves v true t (heapTupleSatisfiesNow v t).2 := by
  unfold Leaves heapTupleSatisfiesNow
  obtain ⟨_ | _ | _ | _, t'⟩ := inserter v true t
  case committed =>
    dsimp only
    rcases deleter v true t' with ⟨_ | _ | _ | _, _⟩ <;> exact .inr ⟨rfl, rfl⟩
  case own => exact .inl (by dsimp only; split_ifs <;> rfl)
  all_goals exact .inl rfl

theorem update_leaves : Leaves v true t (heapTupleSatisfiesUpdate v t).2 := by
  unfold Leaves heapTupleSatisfiesUpdate
  obtain ⟨_ | _ | _ | _, t'⟩ := inserter v true t
  case committed =>
    dsimp only
    obtain ⟨_ | _ | _ | _, _⟩ := deleter v true t'
    all_goals exact .inr ⟨rfl, by dsimp only; try split_ifs <;> rfl⟩
  case own => exact .inl (by dsimp only; split_ifs <;> rfl)
  all_goals exact .inl rfl

theorem dirty_leaves : Leaves v true t (heapTupleSatisfiesDirty v t).2 := by
  unfold Leaves heapTupleSatisfiesDirty
  obtain ⟨_ | _ | _ | _, t'⟩ := inserter v true t
  case committed =>
    dsimp only
    obtain ⟨_ | _ | _ | _, _⟩ := deleter v true t'
    all_goals exact .inr ⟨rfl, by dsimp only; try split_ifs <;> rfl⟩
  all_goals exact .inl rfl

end

theorem snapshotDeleter_leaves (v : View) (snapshot : SnapshotData) (t : HeapTupleHeader) :
    (snapshotDeleter v snapshot t).2 = t ∨ (snapshotDeleter v snapshot t).2 = (deleter v true t).2 := by
  unfold snapshotDeleter
  split_ifs
  · exact .inl rfl
  · rcases deleter v true t with ⟨_ | _ | _ | _, _⟩ <;> exact .inr rfl

theorem snapshot_leaves (v : View) (override : Bool) (snapshot : SnapshotData) (t : HeapTupleHeader) :
    Leaves v true t (heapTupleSatisfiesSnapshot v override snapshot t).2 := by
  unfold heapTupleSatisfiesSnapshot
  split_ifs
  · exact now_leaves v t
  unfold Leaves
  obtain ⟨_ | _ | _ | _, t'⟩ := inserter v true t
  case committed =>
    dsimp only
    split_ifs
    all_goals first
      | exact .inl rfl
      | exact (snapshotDeleter_leaves v snapshot t').imp_right fun e => ⟨rfl, e⟩
  case own => exact .inl (by dsimp only; split_ifs <;> rfl)
  all_goals exact .inl rfl

theorem vacuum_leaves (v : View) (oldestXmin : TransactionId) (t : HeapTupleHeader) :
    Leaves v false t (heapTupleSatisfiesVacuum v oldestXmin t).2 := by
  unfold Leaves heapTupleSatisfiesVacuum
  obtain ⟨_ | _ | _ | _, t'⟩ := inserter v false t
  case committed =>
    dsimp only
    obtain ⟨_ | _ | _ | _, _⟩ := deleter v false t'
    all_goals exact .inr ⟨rfl, by dsimp only; try split_ifs <;> rfl⟩
  all_goals exact .inl rfl

theorem exec_hints (v : View) (t : HeapTupleHeader) (c : Call) : Hints v t (c.exec v t).2 := by
  cases c with
  | itself => exact (itself_leaves v t).hints
  | now => exact (now_leaves v t).hints
  | update => exact (update_leaves v t).hints
  | dirty => exact (dirty_leaves v t).hints
  | snapshot override taken => exact (snapshot_leaves v override taken t).hints
  | vacuum oldestXmin => exact (vacuum_leaves v oldestXmin t).hints

/-! ## What the tests keep -/

section

variable (v : View) (asksOwn : Bool)

theorem deleter_congr (hxmax : t'.xmax = t.xmax) (hinv : t'.has .xmaxInvalid = t.has .xmaxInvalid)
    (hcom : t'.has .xmaxCommitted = t.has .xmaxCommitted) :
    (deleter v asksOwn t').1 = (deleter v asksOwn t).1 := by
  have hlog : (askLog v t' t.xmax .xmaxCommitted .xmaxInvalid).1 =
      (askLog v t t.xmax .xmaxCommitted .xmaxInvalid).1 := by
    unfold askLog
    split_ifs <;> rfl
  change t'.infomask.xmaxInvalid = t.infomask.xmaxInvalid at hinv
  change t'.infomask.xmaxCommitted = t.infomask.xmaxCommitted at hcom
  unfold deleter
  rw [hxmax, hinv, hcom]
  split_ifs
  all_goals first | rfl | exact hlog

theorem inserter_congr (hxmin : t'.xmin = t.xmin) (hcom : t'.has .xminCommitted = t.has .xminCommitted)
    (hinv : t'.has .xminInvalid = t.has .xminInvalid) :
    (inserter v asksOwn t').1 = (inserter v asksOwn t).1 := by
  have hlog : (askLog v t' t.xmin .xminCommitted .xminInvalid).1 =
      (askLog v t t.xmin .xminCommitted .xminInvalid).1 := by
    unfold askLog
    split_ifs <;> rfl
  change t'.infomask.xminCommitted = t.infomask.xminCommitted at hcom
  change t'.infomask.xminInvalid = t.infomask.xminInvalid at hinv
  unfold inserter
  rw [hxmin, hcom, hinv]
  split_ifs
  all_goals first | rfl | exact hlog

theorem inserter_keeps (t : HeapTupleHeader) : (inserter v asksOwn t).2.has .xmaxInvalid = t.has .xmaxInvalid ∧
      (inserter v asksOwn t).2.has .xmaxCommitted = t.has .xmaxCommitted := by
  unfold inserter askLog
  split_ifs <;> exact ⟨rfl, rfl⟩

theorem deleter_keeps (t : HeapTupleHeader) : (deleter v asksOwn t).2.has .xminCommitted = t.has .xminCommitted ∧
      (deleter v asksOwn t).2.has .xminInvalid = t.has .xminInvalid := by
  unfold deleter askLog
  split_ifs <;> exact ⟨rfl, rfl⟩

theorem inserter_own (t : HeapTupleHeader) (h : (inserter v asksOwn t).1 = .own) :
    asksOwn ∧ v.isCurrent t.xmin ∧ (inserter v asksOwn t).2 = t ∧
      t.has .xminCommitted = false ∧ t.has .xminInvalid = false := by
  unfold inserter askLog at h ⊢
  split_ifs at h ⊢ with hcom hinv hown
  rw [Bool.and_eq_true] at hown
  exact ⟨hown.1, hown.2, rfl, Bool.eq_false_iff.mpr hcom, Bool.eq_false_iff.mpr hinv⟩

end

structure Alike (v : View) (g g' : HeapTupleHeader) : Prop where
  same : SameTuple g g'
  ins : ∀ asksOwn, (inserter v asksOwn g').1 = (inserter v asksOwn g).1
  del : ∀ asksOwn, (deleter v asksOwn g').1 = (deleter v asksOwn g).1
  own : (inserter v true g).1 = .own → g'.has .xmaxInvalid = g.has .xmaxInvalid

theorem deleter_sameTuple (v : View) (asksOwn : Bool) (t : HeapTupleHeader) : SameTuple t (deleter v asksOwn t).2 := by
  unfold deleter askLog
  split_ifs
  all_goals first | exact SameTuple.refl t | exact sameTuple_hint t _

theorem deleter_inserter (v : View) (asksOwn : Bool) (t : HeapTupleHeader) :
    (deleter v asksOwn (inserter v asksOwn t).2).1 = (deleter v asksOwn t).1 :=
  deleter_congr v asksOwn (inserter_hints v asksOwn t).sameTuple.xmax (inserter_keeps v asksOwn t).1
    (inserter_keeps v asksOwn t).2

theorem snapshotDeleter_marked (v : View) (snapshot : SnapshotData)
    (h : t.infomask.markedForUpdate) : (snapshotDeleter v snapshot t).1 := by
  unfold snapshotDeleter
  split_ifs with hpast
  · rfl
  · have hvoid : (deleter v true t).1 = .void := by
      simp only [h, Bool.and_true, Bool.and_eq_true, Bool.not_eq_true', bne_iff_ne, not_and, not_not] at hpast
      unfold deleter
      by_cases hinv : t.infomask.xmaxInvalid
      · rw [if_pos hinv]
      · rw [if_neg hinv, if_pos (hpast (Bool.eq_false_iff.mpr hinv))]
    rcases hd : deleter v true t with ⟨del, t'⟩
    rw [hd] at hvoid
    cases hvoid
    rfl

theorem snapshotDeleter_unmarked (v : View) (snapshot : SnapshotData)
    (h : t.infomask.markedForUpdate = false) : (snapshotDeleter v snapshot t).1 =
      match (deleter v true t).1 with
      | .void | .running => true
      | .own => v.commandIdGEScanCommandId t.cmax
      | .committed => !t.infomask.movedOut && transactionIdActiveDuringSnapshot snapshot t.xmax := by
  unfold snapshotDeleter
  rw [h, Bool.and_false, if_neg Bool.false_ne_true]
  rcases hd : deleter v true t with ⟨del, t'⟩
  have hsame : SameTuple t t' := by
    have hleft := deleter_sameTuple v true t
    rw [hd] at hleft
    exact hleft
  cases del with
  | void => rfl
  | running => rfl
  | own => simp only [hsame.cmax]
  | committed => simp only [hsame.movedOut, hsame.xmax]

theorem SameTuple.snapshotDeleter {g g' : HeapTupleHeader} (snapshot : SnapshotData)
    (h : SameTuple g g') (hdel : (deleter v true g').1 = (deleter v true g).1) :
    (snapshotDeleter v snapshot g').1 = (snapshotDeleter v snapshot g).1 := by
  cases hm : g.infomask.markedForUpdate with
  | false =>
    have hm' := h.markedForUpdate.trans hm
    rw [snapshotDeleter_unmarked v snapshot hm, snapshotDeleter_unmarked v snapshot hm', hdel,
      h.cmax, h.movedOut, h.xmax]
  | true =>
    have hm' := h.markedForUpdate.trans hm
    rw [snapshotDeleter_marked v snapshot hm, snapshotDeleter_marked v snapshot hm']

/-! ## Results

What a routine answers depends on where the two transactions stand in the view, and on the header as
it was before the call. -/

section

variable (v : View) (t : HeapTupleHeader)

structure Tests (asksOwn : Bool) (ins del : Standing) (t₁ t₂ : HeapTupleHeader) : Prop where
  inserted : inserter v asksOwn t = (ins, t₁)
  deleted : deleter v asksOwn t₁ = (del, t₂)
  standing : (deleter v asksOwn t).1 = del
  same₁ : SameTuple t t₁
  same₂ : SameTuple t t₂
  invalid : t₁.infomask.xmaxInvalid = t.infomask.xmaxInvalid

theorem tests (asksOwn : Bool) : ∃ ins del t₁ t₂, Tests v t asksOwn ins del t₁ t₂ := by
  have hsame := (inserter_hints v asksOwn t).sameTuple
  exact ⟨_, _, _, _, rfl, rfl, (deleter_inserter v asksOwn t).symm, hsame,
    hsame.trans (deleter_sameTuple v asksOwn _), (inserter_keeps v asksOwn t).1⟩

theorem itself_answer : (heapTupleSatisfiesItself v t).1 =
    match (inserter v true t).1 with
    | .void | .running => false
    | .own => t.infomask.xmaxInvalid || t.infomask.markedForUpdate
    | .committed =>
      match (deleter v true t).1 with
      | .void | .running => true
      | .own | .committed => t.infomask.markedForUpdate := by
  obtain ⟨ins, del, t₁, t₂, h⟩ := tests v t true
  rw [heapTupleSatisfiesItself, h.standing, h.inserted]
  cases ins with
  | void | running => rfl
  | own => simp only [h.invalid, h.same₁.markedForUpdate]
  | committed =>
    simp only [h.deleted]
    cases del <;> simp only [h.same₂.markedForUpdate]

theorem now_answer : (heapTupleSatisfiesNow v t).1 =
    match (inserter v true t).1 with
    | .void | .running => false
    | .own => !v.commandIdGEScanCommandId t.cmin && (t.infomask.xmaxInvalid ||
        t.infomask.markedForUpdate || v.commandIdGEScanCommandId t.cmax)
    | .committed =>
      match (deleter v true t).1 with
      | .void | .running => true
      | .own => t.infomask.markedForUpdate || v.commandIdGEScanCommandId t.cmax
      | .committed => t.infomask.markedForUpdate := by
  obtain ⟨ins, del, t₁, t₂, h⟩ := tests v t true
  rw [heapTupleSatisfiesNow, h.standing, h.inserted]
  cases ins with
  | void | running => rfl
  | own =>
    simp only [h.invalid, h.same₁.markedForUpdate, h.same₁.cmin, h.same₁.cmax]
    split_ifs <;> simp_all
  | committed =>
    simp only [h.deleted]
    cases del <;> simp only [h.same₂.markedForUpdate, h.same₂.cmax]

theorem update_answer : (heapTupleSatisfiesUpdate v t).1 =
    match (inserter v true t).1 with
    | .void | .running => .invisible
    | .own =>
      if v.commandIdGEScanCommandId t.cmin then .invisible
      else if t.infomask.xmaxInvalid || t.infomask.markedForUpdate then .mayBeUpdated
      else if v.commandIdGEScanCommandId t.cmax then .selfUpdated
      else .invisible
    | .committed =>
      match (deleter v true t).1 with
      | .void => .mayBeUpdated
      | .running => .beingUpdated
      | .own =>
        if t.infomask.markedForUpdate then .mayBeUpdated
        else if v.commandIdGEScanCommandId t.cmax then .selfUpdated
        else .invisible
      | .committed => if t.infomask.markedForUpdate then .mayBeUpdated else .updated := by
  obtain ⟨ins, del, t₁, t₂, h⟩ := tests v t true
  rw [heapTupleSatisfiesUpdate, h.standing, h.inserted]
  cases ins with
  | void | running => rfl
  | own =>
    simp only [h.invalid, h.same₁.markedForUpdate, h.same₁.cmin, h.same₁.cmax]
    split_ifs <;> rfl
  | committed =>
    simp only [h.deleted]
    cases del <;> simp only [h.same₂.markedForUpdate, h.same₂.cmax] <;> split_ifs <;> rfl

/-- A tuple is to be updated, at once or later, exactly if `HeapTupleSatisfiesNow` accepts it. -/
theorem now_iff_updatable : (heapTupleSatisfiesNow v t).1 ↔
    (heapTupleSatisfiesUpdate v t).1 ≠ .invisible ∧ (heapTupleSatisfiesUpdate v t).1 ≠ .updated := by
  rw [now_answer, update_answer]
  cases (inserter v true t).1 with
  | void | running => simp
  | own =>
    dsimp only
    split_ifs <;> simp_all
  | committed =>
    cases (deleter v true t).1 with
    | void | running => simp
    | own | committed =>
      dsimp only
      split_ifs <;> simp_all

theorem dirty_answer : (heapTupleSatisfiesDirty v t).1 =
    match (inserter v true t).1 with
    | .void => .plain false
    | .running => { DirtyResult.plain true with xmin := t.xmin }
    | .own => .plain (t.infomask.xmaxInvalid || t.infomask.markedForUpdate)
    | .committed =>
      match (deleter v true t).1 with
      | .void => .plain true
      | .running => { DirtyResult.plain true with xmax := t.xmax }
      | .own => .plain false
      | .committed =>
        if t.infomask.markedForUpdate then .plain true
        else { DirtyResult.plain false with tid := some t.ctid } := by
  obtain ⟨ins, del, t₁, t₂, h⟩ := tests v t true
  rw [heapTupleSatisfiesDirty, h.standing, h.inserted]
  cases ins with
  | void => rfl
  | running => simp only [h.same₁.xmin]
  | own => simp only [h.invalid, h.same₁.markedForUpdate]
  | committed =>
    simp only [h.deleted]
    cases del <;> simp only [h.same₂.markedForUpdate, h.same₂.xmax, h.same₂.ctid]
    split_ifs <;> rfl

theorem vacuum_answer (reapid : TransactionId) : (heapTupleSatisfiesVacuum v reapid t).1 =
    match (inserter v false t).1 with
    | .void => .stillborn
    | .running | .own => .insertInProgress
    | .committed =>
      match (deleter v false t).1 with
      | .void => .live
      | .running | .own => .deleteInProgress
      | .committed =>
        if t.infomask.markedForUpdate then .live else if reapid ≤ t.xmax then .recentlyDead
        else .dead := by
  obtain ⟨ins, del, t₁, t₂, h⟩ := tests v t false
  rw [heapTupleSatisfiesVacuum, h.standing, h.inserted]
  cases ins with
  | void | running | own => rfl
  | committed =>
    simp only [h.deleted]
    cases del <;> simp only [h.same₂.markedForUpdate, h.same₂.xmax]
    split_ifs <;> rfl

theorem snapshot_answer (snapshot : SnapshotData) : (heapTupleSatisfiesSnapshot v false snapshot t).1 =
      match (inserter v true t).1 with
      | .void | .running => false
      | .own => !v.commandIdGEScanCommandId t.cmin && (t.infomask.xmaxInvalid ||
          t.infomask.markedForUpdate || v.commandIdGEScanCommandId t.cmax)
      | .committed => !transactionIdActiveDuringSnapshot snapshot
          (if t.infomask.movedIn then t.vtran else t.xmin) && (snapshotDeleter v snapshot t).1 := by
  obtain ⟨ins, del, t₁, t₂, h⟩ := tests v t true
  rw [heapTupleSatisfiesSnapshot, if_neg Bool.false_ne_true, h.inserted]
  cases ins with
  | void | running => rfl
  | own =>
    simp only [h.invalid, h.same₁.markedForUpdate, h.same₁.cmin, h.same₁.cmax]
    split_ifs <;> simp_all
  | committed =>
    have hdel := h.same₁.snapshotDeleter snapshot ((congrArg Prod.fst h.deleted).trans h.standing.symm)
    simp only [h.same₁.movedIn, h.same₁.vtran, h.same₁.xmin, ← hdel]
    cases transactionIdActiveDuringSnapshot snapshot (if t.infomask.movedIn then t.vtran else t.xmin) <;>
      simp

end

section

variable {v : View} {g g' : HeapTupleHeader}

section

variable (h : Alike v g g')
include h

theorem Alike.invalid (hi : (inserter v true g).1 = .own) : g'.infomask.xmaxInvalid = g.infomask.xmaxInvalid := h.own hi

theorem Alike.itself : (heapTupleSatisfiesItself v g').1 = (heapTupleSatisfiesItself v g).1 := by
  rw [itself_answer, itself_answer, h.ins, h.del, h.same.markedForUpdate]
  cases hi : (inserter v true g).1 with
  | own => rw [h.invalid hi]
  | _ => rfl

theorem Alike.now : (heapTupleSatisfiesNow v g').1 = (heapTupleSatisfiesNow v g).1 := by
  rw [now_answer, now_answer, h.ins, h.del, h.same.markedForUpdate, h.same.cmin, h.same.cmax]
  cases hi : (inserter v true g).1 with
  | own => rw [h.invalid hi]
  | _ => rfl

theorem Alike.update : (heapTupleSatisfiesUpdate v g').1 = (heapTupleSatisfiesUpdate v g).1 := by
  rw [update_answer, update_answer, h.ins, h.del, h.same.markedForUpdate, h.same.cmin, h.same.cmax]
  cases hi : (inserter v true g).1 with
  | own => rw [h.invalid hi]
  | _ => rfl

theorem Alike.dirty : (heapTupleSatisfiesDirty v g').1 = (heapTupleSatisfiesDirty v g).1 := by
  rw [dirty_answer, dirty_answer, h.ins, h.del, h.same.markedForUpdate, h.same.xmin, h.same.xmax, h.same.ctid]
  cases hi : (inserter v true g).1 with
  | own => rw [h.invalid hi]
  | _ => rfl

theorem Alike.vacuum (oldestXmin : TransactionId) :
    (heapTupleSatisfiesVacuum v oldestXmin g').1 = (heapTupleSatisfiesVacuum v oldestXmin g).1 := by
  rw [vacuum_answer, vacuum_answer, h.ins, h.del, h.same.markedForUpdate, h.same.xmax]

theorem Alike.snapshot (override : Bool) (snapshot : SnapshotData) :
    (heapTupleSatisfiesSnapshot v override snapshot g').1 = (heapTupleSatisfiesSnapshot v override snapshot g).1 := by
  cases override with
  | true => exact h.now
  | false =>
    rw [snapshot_answer, snapshot_answer, h.ins, h.same.markedForUpdate, h.same.cmin, h.same.cmax,
      h.same.movedIn, h.same.vtran, h.same.xmin, h.same.snapshotDeleter snapshot (h.del true)]
    cases hi : (inserter v true g).1 with
    | own => rw [h.invalid hi]
    | _ => rfl

theorem Alike.exec (c : Call) : (c.exec v g').1 = (c.exec v g).1 := by
  cases c with
  | itself => exact congrArg Result.satisfied h.itself
  | now => exact congrArg Result.satisfied h.now
  | update => exact congrArg Result.update h.update
  | dirty => exact congrArg Result.dirty h.dirty
  | snapshot override taken => exact congrArg Result.satisfied (h.snapshot override taken)
  | vacuum oldestXmin => exact congrArg Result.vacuum (h.vacuum oldestXmin)

end

end

/-! ## Calls at a moment -/

def Moment.view (m : Moment) (current : TransactionId) (scanCommandId : CommandId) : View where
  log := m.log
  didCrash := m.didCrash
  current := current
  scanCommandId := scanCommandId

theorem Moment.not_running_of_didCommit (m : Moment) (x : TransactionId)
    (h : transactionIdDidCommit m.log x) : ¬ m.running x := by
  intro hr
  have hlog := (m.open_of_running x hr).2.2
  rcases ((didCommit_iff m.log x).mp h).2 with e | e <;> (rw [hlog] at e; cases e)

theorem Moment.not_running_of_commit (m : Moment) (x : TransactionId) (h : m.log x = .commit) : ¬ m.running x := by
  intro hr
  rw [(m.open_of_running x hr).2.2] at h
  cases h

end WeaverDB.Visibility
