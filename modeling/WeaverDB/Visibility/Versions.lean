import WeaverDB.Blob.Storage
import WeaverDB.Visibility.RowCopies

/-! # Versions of a row

`HeapTupleSatisfiesDirty` takes the mark of the current transaction for a deletion. `heap_insert` and
`heap_update` leave `HEAP_MOVED_IN` in the header that the caller gives. `heap_get_latest_tid` returns
the link of the version that it finds, and follows a pointer that `HeapTupleSatisfies` has cleared if
the first version is not shown.
-/

namespace WeaverDB.Visibility
open TransLog Snapshot
open Blob (itemPointerIsValid itemPointerInvalid)

section

variable (v : View) (t : HeapTupleHeader)

def InserterCommitted : Prop :=
  t.has .xminCommitted ∨
    t.has .xminInvalid = false ∧ t.xmin ≠ v.current ∧ transactionIdDidCommit v.log t.xmin = true

structure TreatedLive : Prop where
  itself : (heapTupleSatisfiesItself v t).1
  now : (heapTupleSatisfiesNow v t).1
  dirty : (heapTupleSatisfiesDirty v t).1.satisfied
  snapshot (override : Bool) (snapshot : SnapshotData) :
    transactionIdActiveDuringSnapshot snapshot t.snapshotXmin = false →
      (heapTupleSatisfiesSnapshot v override snapshot t).1
  update : (heapTupleSatisfiesUpdate v t).1 = .mayBeUpdated ∨ (heapTupleSatisfiesUpdate v t).1 = .beingUpdated
  vacuum (oldestXmin : TransactionId) : (heapTupleSatisfiesVacuum v oldestXmin t).1 ≠ .dead ∧
    (heapTupleSatisfiesVacuum v oldestXmin t).1 ≠ .recentlyDead

/-- The current transaction is the one in `t_xmax`, and no hint bit has settled that field. -/
structure OwnMark : Prop where
  invalid : t.has .xmaxInvalid = false
  valid : t.xmax ≠ 0
  committed : t.has .xmaxCommitted = false
  own : t.xmax = v.current

variable {v t}

theorem InserterCommitted.inserter (h : InserterCommitted v t) (asksOwn : Bool) :
    (inserter v asksOwn t).1 = .committed := by
  refine inserter_committed_iff.mpr (h.imp_right fun hlog => ⟨hlog.1, fun hown => ?_, hlog.2.2⟩)
  exact hlog.2.1 (isCurrent_iff.mp (Bool.and_eq_true_iff.mp hown).2)

theorem deleter_own_iff : (deleter v true t).1 = .own ↔ OwnMark v t := by
  constructor
  · intro h
    cases hinv : t.has .xmaxInvalid with
    | true => rw [deleter_of_invalid hinv] at h; cases h
    | false =>
      by_cases h0 : t.xmax = 0
      · rw [deleter_of_zero hinv h0] at h; cases h
      cases hcom : t.has .xmaxCommitted with
      | true => rw [deleter_of_committed hinv h0 hcom] at h; cases h
      | false =>
        by_cases hown : (true && v.isCurrent t.xmax)
        · exact ⟨hinv, h0, hcom, isCurrent_iff.mp hown⟩
        · rw [deleter_of_other hinv h0 hcom hown] at h
          rcases askLog_standing v t t.xmax .xmaxCommitted .xmaxInvalid with ⟨-, e⟩ | ⟨-, e | e⟩ <;>
            cases e.symm.trans h
  · intro h
    rw [deleter_of_current h.invalid h.valid h.committed (isCurrent_iff.mpr h.own)]

/-- **Marked versions.** Live for every routine, unless the mark is the current transaction's own. -/
theorem marked_live_iff (v : View) (t : HeapTupleHeader) (hmark : t.infomask.markedForUpdate)
    (hins : InserterCommitted v t) : TreatedLive v t ↔ ¬ OwnMark v t := by
  constructor
  · intro h hown
    have hdirty := h.dirty
    rw [dirty_answer, hins.inserter, deleter_own_iff.mpr hown] at hdirty
    cases hdirty
  · intro hother
    have hundeleted : Undeleted t := .inr hmark
    refine ⟨?_, hundeleted.now (hins.inserter true), ?_, fun override snapshot hseen => ?_, ?_,
      fun oldestXmin => ?_⟩
    · rw [itself_answer, hins.inserter]
      cases (deleter v true t).1 <;> simp [hmark]
    · rw [dirty_answer, hins.inserter]
      cases hdel : (deleter v true t).1 with
      | own => exact absurd (deleter_own_iff.mp hdel) hother
      | _ => simp [hmark, DirtyResult.plain]
    · rw [hundeleted.snapshot (hins.inserter true), hseen, Bool.not_false, Bool.or_true]
    · rw [update_answer, hins.inserter]
      cases (deleter v true t).1 <;> simp [hmark]
    · rw [vacuum_answer, hins.inserter]
      cases (deleter v false t).1 <;> simp [hmark]

def lockedRow : HeapTupleHeader := heapMark4Update (heapInsert freshTuple 600 1) 700 1

theorem marked_live_iff_other : TreatedLive (afterCommit.view 701 2) lockedRow := by
  refine (marked_live_iff _ _ rfl (.inr ⟨rfl, by decide, by decide⟩)).mpr fun h => ?_
  exact absurd h.own (by decide)

/-- The transaction that has locked the row does not find it when it looks for duplicates of a key. -/
theorem own_lock_not_found : (heapTupleSatisfiesItself (afterCommit.view 700 2) lockedRow).1 ∧
    (heapTupleSatisfiesDirty (afterCommit.view 700 2) lockedRow).1.satisfied = false := by
  decide

end

/-- **New versions.** Shown once the inserter has committed, to snapshots in which it is not active. -/
theorem inserted_shown_iff (t : HeapTupleHeader) (x : TransactionId) (cid : CommandId) (h0 : x ≠ 0) :
    (∀ v snapshot t', v.current ≠ x → transactionIdDidCommit v.log x →
      Hints v (heapInsert t x cid) t' → ((heapTupleSatisfiesSnapshot v false snapshot t').1 ↔
        transactionIdActiveDuringSnapshot snapshot x = false)) ↔
      (t.infomask.movedIn → firstCommandId ++ cid = x) := by
  have hshown (v : View) (snapshot : SnapshotData) (t' : HeapTupleHeader) (hcur : v.current ≠ x)
      (hcommit : transactionIdDidCommit v.log x) (hh : Hints v (heapInsert t x cid) t') :
      (heapTupleSatisfiesSnapshot v false snapshot t').1 =
        !transactionIdActiveDuringSnapshot snapshot (heapInsert t x cid).snapshotXmin := by
    have hlive : Plays v.log [x] _ (.live _) (heapInsert t x cid) :=
      (arriving_heapInsert t x cid).settle hcommit (List.mem_singleton_self x)
    exact live_shown (hlive.hints nofun hh) (fun h => hcur (List.mem_singleton.mp h)) snapshot
  have horigin : (heapInsert t x cid).snapshotXmin =
      if t.infomask.movedIn then firstCommandId ++ cid else x := rfl
  constructor
  · intro hlaw hmoved
    by_contra hne
    obtain ⟨snapshot, hdiffer⟩ := exists_snapshot_of_ne hne
    -- a transaction that sees every other one as committed
    let v : View := { log := fun _ => .commit, didCrash := fun _ => false, current := 0, scanCommandId := 0 }
    have hcommit : transactionIdDidCommit v.log x := (didCommit_iff ..).mpr ⟨h0, .inr rfl⟩
    have hiff := hlaw v snapshot _ h0.symm hcommit (.none _)
    rw [hshown v snapshot _ h0.symm hcommit (.none _), horigin, if_pos hmoved] at hiff
    exact hdiffer (Bool.eq_iff_iff.mpr (by simpa using hiff))
  · intro hsame v snapshot t' hcur hcommit hh
    have hx : (heapInsert t x cid).snapshotXmin = x := by
      rw [horigin]
      split
      · next hmoved => exact hsame hmoved
      · rfl
    rw [hshown v snapshot t' hcur hcommit hh, hx, Bool.not_eq_true']

theorem inserted_shown_iff_unmoved : (heapTupleSatisfiesSnapshot (afterCommit.view 700 2) false
    (activeFrom 700) (heapInsert freshTuple 600 1)).1 :=
  ((inserted_shown_iff freshTuple 600 1 (by decide)).mpr nofun _ _ _ (by decide) (by decide)
    (.none _)).mpr (by decide)

/-- A moved copy is shown to a snapshot during which its inserter is active. -/
theorem reinserted_shown_early : (heapTupleSatisfiesSnapshot (afterMove.view 700 2) false
      (activeFrom 600) (heapInsert movedRow 600 1)).1 ∧
    transactionIdActiveDuringSnapshot (activeFrom 600) 600 := by
  decide

inductive SnapshotArg where
  | any
  | self
  | dirty
  | now
  | taken (referentialIntegritySnapshotOverride : Bool) (snapshot : SnapshotData)

def heapTupleSatisfiesVisibility (v : View) (tuple : HeapTupleHeader) :
    SnapshotArg → Bool × HeapTupleHeader := fun snapshot =>
  if tuple.xmax = amiTransactionId then (false, tuple)
  else
    match snapshot with
    | .any => (true, tuple)
    | .self => heapTupleSatisfiesItself v tuple
    | .dirty => (heapTupleSatisfiesDirty v tuple).map DirtyResult.satisfied id
    | .now => heapTupleSatisfiesNow v tuple
    | .taken override taken => heapTupleSatisfiesSnapshot v override taken tuple

section

variable (v : View) (cataloged : Bool) (snapshot : SnapshotArg)

/-- `HeapTupleSatisfies` without keys, with the pointer `t_data` after the call. -/
def heapTupleSatisfies (tuple : HeapTupleHeader) : Bool × Option HeapTupleHeader :=
  if cataloged then
    let res := heapTupleSatisfiesVisibility v tuple snapshot
    (res.1, if res.1 then some res.2 else none)
  else (true, some tuple)

inductive Latest where
  | nullPointer
  | tid (checkid : ItemPointerData)
  deriving DecidableEq

variable (heap : ItemPointerData → Option HeapTupleHeader)

def heapGetLatestTid : Nat → ItemPointerData → Option Latest
  | 0, _ => none
  | fuel + 1, tid =>
    match heap tid with
    | none => some (.tid itemPointerInvalid)
    | some tuple =>
      let checkid := tuple.ctid
      match heapTupleSatisfies v cataloged snapshot tuple with
      | (_, none) => some .nullPointer
      | (valid, some tuple) =>
        let linkend := !(tuple.infomask.xmaxCommitted && tid != checkid)
        if !valid then
          if linkend then some (.tid itemPointerInvalid) else heapGetLatestTid fuel checkid
        else some (.tid checkid)

def Shown (p : ItemPointerData) : Prop :=
  ∃ t, heap p = some t ∧ (heapTupleSatisfies v cataloged snapshot t).1 = true

def InChain : ItemPointerData → ItemPointerData → Prop :=
  Relation.ReflTransGen fun p q => ∃ t, heap p = some t ∧ t.ctid = q

def LatestRight (tid : ItemPointerData) : Prop :=
  ∃ fuel p, heapGetLatestTid v cataloged snapshot heap fuel tid = some (.tid p) ∧
    (itemPointerIsValid p = false ∨ InChain heap tid p ∧ Shown v cataloged snapshot heap p)

theorem heapTupleSatisfies_data (t : HeapTupleHeader) : ((heapTupleSatisfies v cataloged snapshot t).1 = false ∧
      heapTupleSatisfies v cataloged snapshot t = (false, none)) ∨
    ((heapTupleSatisfies v cataloged snapshot t).1 ∧
      ∃ t', heapTupleSatisfies v cataloged snapshot t = (true, some t')) := by
  unfold heapTupleSatisfies
  cases cataloged with
  | false => exact .inr ⟨rfl, t, rfl⟩
  | true =>
    dsimp only
    cases (heapTupleSatisfiesVisibility v t snapshot).1 with
    | false => exact .inl ⟨rfl, rfl⟩
    | true => exact .inr ⟨rfl, _, rfl⟩

/-- The first call decides: no version comes after one that is not shown. -/
theorem latestTid_right_iff (tid : ItemPointerData) : LatestRight v cataloged snapshot heap tid ↔
    ∀ t, heap tid = some t → (heapTupleSatisfies v cataloged snapshot t).1 ∧
      (itemPointerIsValid t.ctid = false ∨ Shown v cataloged snapshot heap t.ctid) := by
  constructor
  · rintro ⟨fuel, p, hcall, hright⟩ t ht
    cases fuel with
    | zero => cases hcall
    | succ fuel =>
    rw [heapGetLatestTid, ht] at hcall
    dsimp only at hcall
    obtain ⟨-, e⟩ | ⟨hshown, t', e⟩ := heapTupleSatisfies_data v cataloged snapshot t
    · rw [e] at hcall
      cases hcall
    · rw [e] at hcall
      cases hcall
      exact ⟨hshown, hright.imp_right And.right⟩
  · intro h
    cases ht : heap tid with
    | none => exact ⟨1, itemPointerInvalid, by rw [heapGetLatestTid, ht], .inl rfl⟩
    | some t =>
      obtain ⟨hshown, hlink⟩ := h t ht
      refine ⟨1, t.ctid, ?_, hlink.imp_right fun hnext => ⟨.single ⟨t, ht, rfl⟩, hnext⟩⟩
      obtain ⟨hno, -⟩ | ⟨-, t', e⟩ := heapTupleSatisfies_data v cataloged snapshot t
      · cases hno.symm.trans hshown
      · rw [heapGetLatestTid, ht]
        dsimp only
        rw [e]
        rfl

end

def updatedRow (p : ItemPointerData) : Option HeapTupleHeader :=
  if p = ⟨0, 1⟩ then some (heapDelete (heapInsert freshTuple 600 1) 700 1 ⟨0, 2⟩)
  else if p = ⟨0, 2⟩ then some { heapInsert freshTuple 700 1 with ctid := ⟨0, 2⟩ }
  else none

/-- A transaction that sees the old version gets the new one. -/
theorem unfinished_update_returned :
    heapGetLatestTid (afterCommit.view 701 2) true (.taken false (activeFrom 700)) updatedRow 1 ⟨0, 1⟩ =
        some (.tid ⟨0, 2⟩) ∧
      (heapTupleSatisfies (afterCommit.view 701 2) true (.taken false (activeFrom 700))
        { heapInsert freshTuple 700 1 with ctid := ⟨0, 2⟩ }).1 = false := by
  decide

end WeaverDB.Visibility
