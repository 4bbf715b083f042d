import WeaverDB.Visibility.RowLock

/-! # What a copy of a row can be

Vacuum leaves several copies of one row behind. Each has a `Role`: it is dead for every snapshot, it is
the row, an open transaction has put it there or has marked it, or a transaction has deleted it. The
calls keep the role, and the outcome of the open transaction decides what it becomes (`Plays.settle`).
-/

namespace WeaverDB.Visibility
open TransLog Snapshot

/-! ## Roles -/

inductive Role where
  | dead
  | live (out : Bool)
  /-- A copy of an open transaction. -/
  | arriving (xid : TransactionId) (out : Bool)
  /-- A copy that an open transaction has marked as its deleter. -/
  | departing (xid : TransactionId) (out : Bool)
  /-- The copy that a transaction has deleted, without a bit of a move. -/
  | gone (xid : TransactionId)

section

variable (log : StatusLog) (ended : List TransactionId) (origin : TransactionId)

/-- The copy counts, and the snapshot test asks for `origin`. -/
structure Counts (t : HeapTupleHeader) : Prop where
  committed : t.has .xminCommitted ∨ t.has .xminInvalid = false ∧ transactionIdDidCommit log t.xmin
  inserterEnded : t.xmin ∈ ended
  origin : t.snapshotXmin = origin

structure Unborn (t : HeapTupleHeader) : Prop where
  bit : t.has .xminCommitted = false
  lost : transactionIdDidCommit log t.xmin = false
  inserterEnded : t.xmin ∈ ended

structure Live (out : Bool) (t : HeapTupleHeader) : Prop extends Counts log ended origin t where
  movedOut : t.infomask.movedOut = out
  free : t.has .xmaxInvalid ∨ t.xmax = 0 ∨
    t.has .xmaxCommitted = false ∧ transactionIdDidCommit log t.xmax = false ∧ t.xmax ∈ ended

structure Arriving (x : TransactionId) (out : Bool) (t : HeapTupleHeader) : Prop where
  xmin : t.xmin = x
  bits : t.has .xminCommitted = false ∧ t.has .xminInvalid = false
  origin : t.snapshotXmin = origin
  movedOut : t.infomask.movedOut = out
  free : t.has .xmaxInvalid = true

structure Departing (x : TransactionId) (out : Bool) (t : HeapTupleHeader) : Prop
    extends Counts log ended origin t where
  xmax : t.xmax = x
  bits : t.has .xmaxCommitted = false ∧ t.has .xmaxInvalid = false
  unmarked : t.infomask.markedForUpdate = false
  movedOut : t.infomask.movedOut = out

structure Gone (x : TransactionId) (out : Bool) (t : HeapTupleHeader) : Prop
    extends Counts log ended origin t where
  xmax : t.xmax = x
  deleted : transactionIdDidCommit log x
  deleterEnded : x ∈ ended
  valid : t.has .xmaxInvalid = false
  unmarked : t.infomask.markedForUpdate = false
  movedOut : t.infomask.movedOut = out

def Plays : Role → HeapTupleHeader → Prop
  | .dead, t => Unborn log ended t ∨ ∃ x, Gone log ended origin x true t
  | .live out, t => Live log ended origin out t
  | .arriving x out, t => Arriving origin x out t
  | .departing x out, t => Departing log ended origin x out t
  | .gone x, t => Gone log ended origin x false t

end

/-! ## Calls -/

section

variable {v : View} {ended : List TransactionId} {origin x : TransactionId} {out : Bool}
  {t : HeapTupleHeader} {b : HintBit}

theorem hint_unset {c : HintBit} (h : t.has c = false) (hne : c ≠ b) : (t.hint b).has c = false := by
  rw [has_hint, h, decide_eq_false hne, Bool.or_false]

theorem hint_set {c : HintBit} (h : t.has c) : (t.hint b).has c := by
  rw [has_hint, h, Bool.or_true]

theorem snapshotXmin_hint : (t.hint b).snapshotXmin = t.snapshotXmin := by
  cases b <;> rfl

theorem View.not_isVoid (h : transactionIdDidCommit v.log x) : v.isVoid x = false := by
  rw [View.isVoid, h, Bool.not_true, Bool.false_and]

theorem not_hardCommit (h : transactionIdDidCommit v.log x = false) : transactionIdDidHardCommit v.log x = false := by
  rw [Bool.eq_false_iff, Ne, didHardCommit_iff]
  rintro ⟨h0, hlog⟩
  rw [(didCommit_iff v.log x).mpr ⟨h0, .inr hlog⟩] at h
  cases h

structure View.SeesOpen (v : View) (x : TransactionId) : Prop where
  valid : x ≠ 0
  running : v.log x = .inprogress
  alive : v.didCrash x = false

theorem View.SeesOpen.not_committed (h : v.SeesOpen x) : transactionIdDidCommit v.log x = false := by
  rw [Bool.eq_false_iff, Ne, didCommit_iff]
  rintro ⟨-, e | e⟩ <;> cases e.symm.trans h.running

theorem View.SeesOpen.not_isVoid (h : v.SeesOpen x) : v.isVoid x = false := by
  have habort : transactionIdDidAbort v.log x = false := by
    rw [Bool.eq_false_iff, Ne, didAbort_iff]
    rintro (e | e)
    · exact h.valid e
    · cases e.symm.trans h.running
  rw [View.isVoid, habort, h.alive, Bool.or_false, Bool.and_false]

theorem Counts.hint (h : Counts v.log ended origin t) (hb : Justified v t b) :
    Counts v.log ended origin (t.hint b) where
  committed := by
    refine h.committed.imp hint_set fun hc => ⟨hint_unset hc.1 ?_, hc.2⟩
    rintro rfl
    cases (View.not_isVoid hc.2).symm.trans hb.2
  inserterEnded := (sameTuple_hint t b).xmin.symm ▸ h.inserterEnded
  origin := snapshotXmin_hint.trans h.origin

theorem Unborn.hint (h : Unborn v.log ended t) (hb : Justified v t b) : Unborn v.log ended (t.hint b) where
  bit := by
    refine hint_unset h.bit ?_
    rintro rfl
    cases (not_hardCommit h.lost).symm.trans hb.2
  lost := (sameTuple_hint t b).xmin.symm ▸ h.lost
  inserterEnded := (sameTuple_hint t b).xmin.symm ▸ h.inserterEnded

theorem Live.hint (h : Live v.log ended origin out t) (hb : Justified v t b) :
    Live v.log ended origin out (t.hint b) where
  toCounts := h.toCounts.hint hb
  movedOut := (sameTuple_hint t b).movedOut.trans h.movedOut
  free := by
    refine h.free.imp hint_set (Or.imp_right fun hc => ⟨hint_unset hc.1 ?_, hc.2⟩)
    rintro rfl
    cases (not_hardCommit hc.2.1).symm.trans hb.2

theorem Arriving.hint (h : Arriving origin x out t) (hx : v.SeesOpen x) (hb : Justified v t b) :
    Arriving origin x out (t.hint b) where
  xmin := (sameTuple_hint t b).xmin.trans h.xmin
  bits := by
    refine ⟨hint_unset h.bits.1 ?_, hint_unset h.bits.2 ?_⟩
    · rintro rfl
      have hhard := hb.2
      rw [h.xmin, not_hardCommit hx.not_committed] at hhard
      cases hhard
    · rintro rfl
      have hvoid := hb.2
      rw [h.xmin, hx.not_isVoid] at hvoid
      cases hvoid
  origin := snapshotXmin_hint.trans h.origin
  movedOut := (sameTuple_hint t b).movedOut.trans h.movedOut
  free := hint_set h.free

theorem Departing.hint (h : Departing v.log ended origin x out t) (hx : v.SeesOpen x)
    (hb : Justified v t b) : Departing v.log ended origin x out (t.hint b) where
  toCounts := h.toCounts.hint hb
  xmax := (sameTuple_hint t b).xmax.trans h.xmax
  bits := by
    refine ⟨hint_unset h.bits.1 ?_, hint_unset h.bits.2 ?_⟩
    · rintro rfl
      have hhard := hb.2
      rw [h.xmax, not_hardCommit hx.not_committed] at hhard
      cases hhard
    · rintro rfl
      obtain h0 | ⟨-, hvoid⟩ := hb.2
      · exact hx.valid (h.xmax.symm.trans h0)
      · rw [h.xmax, hx.not_isVoid] at hvoid
        cases hvoid
  unmarked := (sameTuple_hint t b).markedForUpdate.trans h.unmarked
  movedOut := (sameTuple_hint t b).movedOut.trans h.movedOut

theorem Gone.hint (h : Gone v.log ended origin x out t) (hb : Justified v t b) :
    Gone v.log ended origin x out (t.hint b) where
  toCounts := h.toCounts.hint hb
  xmax := (sameTuple_hint t b).xmax.trans h.xmax
  deleted := h.deleted
  deleterEnded := h.deleterEnded
  valid := by
    refine hint_unset h.valid ?_
    rintro rfl
    obtain h0 | ⟨-, hvoid⟩ := hb.2
    · exact ((didCommit_iff _ _).mp h.deleted).1 (h.xmax.symm.trans h0)
    · rw [h.xmax, View.not_isVoid h.deleted] at hvoid
      cases hvoid
  unmarked := (sameTuple_hint t b).markedForUpdate.trans h.unmarked
  movedOut := (sameTuple_hint t b).movedOut.trans h.movedOut

def Role.awaits : Role → Option TransactionId
  | .arriving x _ | .departing x _ => some x
  | _ => none

theorem Plays.hints {role : Role} {t' : HeapTupleHeader} (h : Plays v.log ended origin role t)
    (hopen : ∀ y, role.awaits = some y → v.SeesOpen y) (hh : Hints v t t') :
    Plays v.log ended origin role t' := by
  induction hh with
  | none => exact h
  | more b _ hb ih =>
    cases role with
    | dead => exact ih.imp (fun hu => hu.hint hb) fun ⟨y, hg⟩ => ⟨y, hg.hint hb⟩
    | live out => exact Live.hint ih hb
    | arriving y out => exact Arriving.hint ih (hopen y rfl) hb
    | departing y out => exact Departing.hint ih (hopen y rfl) hb
    | gone y => exact Gone.hint ih hb

end

/-! ## Outcomes -/

section

variable {log log' : StatusLog} {ended ended' : List TransactionId} {origin x : TransactionId}
  {out : Bool} {t : HeapTupleHeader} {role : Role} {committed : Bool}

structure Extends (log log' : StatusLog) (ended ended' : List TransactionId) : Prop where
  same : ∀ y ∈ ended, transactionIdDidCommit log' y = transactionIdDidCommit log y
  more : ended ⊆ ended'

theorem Counts.mono (h : Counts log ended origin t) (he : Extends log log' ended ended') :
    Counts log' ended' origin t where
  committed := h.committed.imp_right fun hc => ⟨hc.1, (he.same _ h.inserterEnded).trans hc.2⟩
  inserterEnded := he.more h.inserterEnded
  origin := h.origin

theorem Unborn.mono (h : Unborn log ended t) (he : Extends log log' ended ended') : Unborn log' ended' t where
  bit := h.bit
  lost := (he.same _ h.inserterEnded).trans h.lost
  inserterEnded := he.more h.inserterEnded

theorem Live.mono (h : Live log ended origin out t) (he : Extends log log' ended ended') :
    Live log' ended' origin out t where
  toCounts := h.toCounts.mono he
  movedOut := h.movedOut
  free := h.free.imp_right (Or.imp_right fun hc =>
    ⟨hc.1, (he.same _ hc.2.2).trans hc.2.1, he.more hc.2.2⟩)

theorem Gone.mono (h : Gone log ended origin x out t) (he : Extends log log' ended ended') :
    Gone log' ended' origin x out t where
  toCounts := h.toCounts.mono he
  xmax := h.xmax
  deleted := (he.same _ h.deleterEnded).trans h.deleted
  deleterEnded := he.more h.deleterEnded
  valid := h.valid
  unmarked := h.unmarked
  movedOut := h.movedOut

theorem Plays.mono (h : Plays log ended origin role t) (he : Extends log log' ended ended') :
    Plays log' ended' origin role t := by
  cases role with
  | dead => exact h.imp (fun hu => hu.mono he) fun ⟨y, hg⟩ => ⟨y, hg.mono he⟩
  | live out => exact Live.mono h he
  | arriving y out => exact h
  | departing y out => exact { h with toCounts := h.toCounts.mono he }
  | gone y => exact Gone.mono h he

def Role.settle (committed : Bool) : Role → Role
  | .arriving _ out => if committed then .live out else .dead
  | .departing x out => if committed then if out then .dead else .gone x else .live out
  | role => role

theorem Arriving.settle (h : Arriving origin x out t)
    (hx : transactionIdDidCommit log x = committed) (hmem : x ∈ ended) :
    Plays log ended origin (Role.settle committed (.arriving x out)) t := by
  cases committed with
  | true =>
    exact { committed := .inr ⟨h.bits.2, h.xmin ▸ hx⟩, inserterEnded := h.xmin ▸ hmem,
            origin := h.origin, movedOut := h.movedOut, free := .inl h.free }
  | false =>
    exact .inl { bit := h.bits.1, lost := h.xmin ▸ hx, inserterEnded := h.xmin ▸ hmem }

theorem Departing.settle (h : Departing log ended origin x out t)
    (hx : transactionIdDidCommit log x = committed) (hmem : x ∈ ended) :
    Plays log ended origin (Role.settle committed (.departing x out)) t := by
  cases committed with
  | true =>
    have hgone : Gone log ended origin x out t :=
      { toCounts := h.toCounts, xmax := h.xmax, deleted := hx, deleterEnded := hmem,
        valid := h.bits.2, unmarked := h.unmarked, movedOut := h.movedOut }
    cases out with
    | true => exact .inr ⟨x, hgone⟩
    | false => exact hgone
  | false =>
    exact { toCounts := h.toCounts, movedOut := h.movedOut,
            free := .inr (.inr ⟨h.bits.1, h.xmax ▸ hx, h.xmax ▸ hmem⟩) }

theorem Plays.settle (h : Plays log ended origin role t)
    (hwait : ∀ y, role.awaits = some y → y = x) (he : Extends log log' ended ended')
    (hx : transactionIdDidCommit log' x = committed) (hmem : x ∈ ended') :
    Plays log' ended' origin (role.settle committed) t := by
  have h' := h.mono he
  cases role with
  | arriving y out =>
    obtain rfl := hwait y rfl
    exact Arriving.settle h' hx hmem
  | departing y out =>
    obtain rfl := hwait y rfl
    exact Departing.settle h' hx hmem
  | dead => exact h'
  | live out => exact h'
  | gone y => exact h'

end

/-! ## Writes -/

section

variable {log : StatusLog} {ended : List TransactionId} {origin x : TransactionId} {out : Bool}
  {t : HeapTupleHeader}

theorem Live.movedOff (h : Live log ended origin out t) : Departing log ended origin x true (movedOff t x) where
  committed := h.committed
  inserterEnded := h.inserterEnded
  origin := h.origin
  xmax := rfl
  bits := ⟨rfl, rfl⟩
  unmarked := rfl
  movedOut := rfl

theorem Departing.movedBack (h : Departing log ended origin x out t) : Live log ended origin false (movedBack t) where
  committed := h.committed
  inserterEnded := h.inserterEnded
  origin := h.origin
  movedOut := rfl
  free := .inl rfl

section

variable (t : HeapTupleHeader) (x : TransactionId)

theorem arriving_movedCopy (self : ItemPointerData) :
    Arriving t.snapshotXmin x t.infomask.movedOut (movedCopy t x self) where
  xmin := rfl
  bits := ⟨rfl, rfl⟩
  origin := by
    unfold HeapTupleHeader.snapshotXmin HeapTupleHeader.vtran movedCopy
    rw [if_pos rfl]
  movedOut := rfl
  free := rfl

theorem arriving_heapInsert (cid : CommandId) :
    Arriving (heapInsert t x cid).snapshotXmin x t.infomask.movedOut (heapInsert t x cid) where
  xmin := rfl
  bits := ⟨rfl, rfl⟩
  origin := rfl
  movedOut := rfl
  free := rfl

theorem heapDelete_xmin (cid : CommandId) (ctid : ItemPointerData) : (heapDelete t x cid ctid).xmin = t.snapshotXmin ∧
      (heapDelete t x cid ctid).snapshotXmin = t.snapshotXmin := by
  unfold heapDelete HeapTupleHeader.snapshotXmin
  cases t.infomask.movedIn <;> exact ⟨rfl, rfl⟩

end

theorem Live.heapDelete (h : Live log ended origin out t)
    (ho : transactionIdDidCommit log origin) (hmem : origin ∈ ended) (cid : CommandId)
    (ctid : ItemPointerData) : Departing log ended origin x out (heapDelete t x cid ctid) where
  committed := by
    rw [(heapDelete_xmin t x cid ctid).1, h.origin]
    exact h.committed.imp id fun hc => ⟨hc.1, ho⟩
  inserterEnded := by
    rw [(heapDelete_xmin t x cid ctid).1, h.origin]
    exact hmem
  origin := (heapDelete_xmin t x cid ctid).2.trans h.origin
  xmax := rfl
  bits := ⟨rfl, rfl⟩
  unmarked := rfl
  movedOut := h.movedOut

end

/-! ## Tests -/

section

variable {v : View} {ended : List TransactionId} {origin x c : TransactionId} {out : Bool} {t : HeapTupleHeader}

theorem not_own {asksOwn : Bool} (hcur : v.current ∉ ended) (h : x ∈ ended) : ¬ (asksOwn && v.isCurrent x) := by
  rw [Bool.and_eq_true, View.isCurrent, beq_iff_eq]
  rintro ⟨-, rfl⟩
  exact hcur h

theorem Counts.inserter (h : Counts v.log ended origin t) (asksOwn : Bool)
    (hown : ¬ (asksOwn && v.isCurrent t.xmin)) : (inserter v asksOwn t).1 = .committed :=
  inserter_committed_iff.mpr (h.committed.imp_right fun hlog => ⟨hlog.1, hown, hlog.2⟩)

theorem Unborn.inserter (h : Unborn v.log ended t) (asksOwn : Bool) (hown : ¬ (asksOwn && v.isCurrent t.xmin)) :
    (inserter v asksOwn t).1 = .void ∨ (inserter v asksOwn t).1 = .running := by
  cases hinv : t.has .xminInvalid with
  | true =>
    rw [inserter_of_invalid h.bit hinv]
    exact .inl rfl
  | false =>
    rw [inserter_of_other h.bit hinv hown]
    obtain ⟨hyes, -⟩ | ⟨-, e⟩ := askLog_standing v t t.xmin .xminCommitted .xminInvalid
    · cases hyes.symm.trans h.lost
    · exact e

theorem Gone.deleter (h : Gone v.log ended origin x out t) (asksOwn : Bool)
    (hown : ¬ (asksOwn && v.isCurrent t.xmax)) : (deleter v asksOwn t).1 = .committed := by
  have h0 : t.xmax ≠ 0 := h.xmax ▸ ((didCommit_iff _ _).mp h.deleted).1
  exact deleter_committed_iff.mpr ⟨⟨h.valid, h0⟩, .inr ⟨hown, h.xmax ▸ h.deleted⟩⟩

theorem Live.deleter (h : Live v.log ended origin out t) (asksOwn : Bool) (hcur : v.current ∉ ended) :
    (deleter v asksOwn t).1 = .void ∨ (deleter v asksOwn t).1 = .running := by
  unfold Visibility.deleter
  split_ifs with hinv h0 hcom hown
  · exact .inl rfl
  · exact .inl rfl
  all_goals obtain ⟨hcom', hlost, hmem⟩ := (h.free.resolve_left hinv).resolve_left h0
  · cases hcom'.symm.trans hcom
  · exact absurd hown (not_own hcur hmem)
  · obtain ⟨hyes, -⟩ | ⟨-, e⟩ := askLog_standing v t t.xmax .xmaxCommitted .xmaxInvalid
    · cases hyes.symm.trans hlost
    · exact e

theorem vacuum_live (h : (heapTupleSatisfiesVacuum v c t).1 = .live) : (inserter v false t).1 = .committed ∧
      ((deleter v false t).1 = .committed → t.infomask.markedForUpdate) := by
  rw [vacuum_answer] at h
  cases hi : (inserter v false t).1 with rw [hi] at h
  | void | own | running => cases h
  | committed =>
    refine ⟨rfl, fun hd => ?_⟩
    simp only [hd] at h
    split_ifs at h with hm
    exact hm

theorem update_free (h : (heapTupleSatisfiesUpdate v t).1 = .mayBeUpdated)
    (hi : (inserter v true t).1 = .committed) (hd : (deleter v true t).1 = .committed) :
    t.infomask.markedForUpdate := by
  simp only [update_answer, hi, hd] at h
  split_ifs at h with hm
  exact hm

theorem not_own_false : ¬ (false && v.isCurrent x) := by
  exact nofun

theorem dead_not_live (h : Plays v.log ended origin .dead t) : (heapTupleSatisfiesVacuum v c t).1 ≠ .live := by
  intro hlive
  obtain ⟨hi, hd⟩ := vacuum_live hlive
  obtain hu | ⟨y, hg⟩ := h
  · rcases hu.inserter false not_own_false with e | e <;> cases e.symm.trans hi
  · cases hg.unmarked.symm.trans (hd (hg.deleter false not_own_false))

theorem dead_not_free (h : Plays v.log ended origin .dead t) (hcur : v.current ∉ ended) :
    (heapTupleSatisfiesUpdate v t).1 ≠ .mayBeUpdated := by
  intro hfree
  obtain hu | ⟨y, hg⟩ := h
  · rw [update_invisible _ _ (hu.inserter true (not_own hcur hu.inserterEnded))] at hfree
    cases hfree
  · have hi := hg.toCounts.inserter true (not_own hcur hg.inserterEnded)
    have hd := hg.deleter true (not_own hcur (hg.xmax ▸ hg.deleterEnded))
    cases hg.unmarked.symm.trans (update_free hfree hi hd)

theorem gone_shown (h : Gone v.log ended origin x out t) (hcur : v.current ∉ ended) (snapshot : SnapshotData) :
    (heapTupleSatisfiesSnapshot v false snapshot t).1 = (!transactionIdActiveDuringSnapshot snapshot origin &&
        (!out && transactionIdActiveDuringSnapshot snapshot x)) := by
  rw [snapshot_committed (h.toCounts.inserter true (not_own hcur h.inserterEnded)),
    snapshotDeleter_unmarked v snapshot h.unmarked,
    h.deleter true (not_own hcur (h.xmax ▸ h.deleterEnded)), h.origin, h.xmax, h.movedOut]

theorem dead_unshown (h : Plays v.log ended origin .dead t) (hcur : v.current ∉ ended)
    (snapshot : SnapshotData) : (heapTupleSatisfiesSnapshot v false snapshot t).1 = false := by
  obtain hu | ⟨y, hg⟩ := h
  · exact not_committed_unseen (hu.inserter true (not_own hcur hu.inserterEnded)) false snapshot
  · rw [gone_shown hg hcur, Bool.not_true, Bool.false_and, Bool.and_false]

theorem live_shown (h : Live v.log ended origin out t) (hcur : v.current ∉ ended) (snapshot : SnapshotData) :
    (heapTupleSatisfiesSnapshot v false snapshot t).1 = !transactionIdActiveDuringSnapshot snapshot origin := by
  have hdel : (snapshotDeleter v snapshot t).1 := by
    cases hm : t.infomask.markedForUpdate with
    | true => exact snapshotDeleter_marked v snapshot hm
    | false =>
      rw [snapshotDeleter_unmarked v snapshot hm]
      rcases h.deleter true hcur with e | e <;> rw [e]
  rw [snapshot_committed (h.toCounts.inserter true (not_own hcur h.inserterEnded)), hdel, h.origin, Bool.and_true]

end

end WeaverDB.Visibility
