import WeaverDB.Visibility.Standing

/-! # What a snapshot shows

`Arises m t`: the header `t` can be found in the heap at the moment `m`. Of such headers
`heapTupleSatisfiesSnapshot` accepts those whose inserter is in the snapshot and whose deleter is not.
-/

namespace WeaverDB.Visibility
open Foundations TransLog Snapshot SharedInval

variable {m : Moment} {t : HeapTupleHeader}

/-! ## Headers in the heap -/

/-- The calls write over a header that is free to update. -/
inductive Arises : Moment → HeapTupleHeader → Prop where
  | insert (m : Moment) (tup : HeapTupleHeader) (xid : TransactionId) (cid : CommandId)
      (hrun : m.running xid) (hin : tup.infomask.movedIn = false)
      (hout : tup.infomask.movedOut = false) : Arises m (heapInsert tup xid cid)
  | delete {m : Moment} {t : HeapTupleHeader} (h : Arises m t) (xid : TransactionId)
      (scan cid : CommandId) (ctid : ItemPointerData) (hrun : m.running xid)
      (hfree : (heapTupleSatisfiesUpdate (m.view xid scan) t).1 = .mayBeUpdated) :
      Arises m (heapDelete (heapTupleSatisfiesUpdate (m.view xid scan) t).2 xid cid ctid)
  | mark4Update {m : Moment} {t : HeapTupleHeader} (h : Arises m t) (xid : TransactionId)
      (scan cid : CommandId) (hrun : m.running xid)
      (hfree : (heapTupleSatisfiesUpdate (m.view xid scan) t).1 = .mayBeUpdated) :
      Arises m (heapMark4Update (heapTupleSatisfiesUpdate (m.view xid scan) t).2 xid cid)
  | call {m : Moment} {t : HeapTupleHeader} (h : Arises m t) (xid : TransactionId)
      (scan : CommandId) (hrun : m.running xid) (c : Call) :
      Arises m (c.exec (m.view xid scan) t).2
  | later {m m' : Moment} {t : HeapTupleHeader} (h : Arises m t) (hm : Moves m m') : Arises m' t

structure Written (m : Moment) (t : HeapTupleHeader) : Prop where
  known : t.xmin < m.next
  committed : t.has .xminCommitted → m.log t.xmin = .commit
  deleted : t.has .xmaxInvalid = false → t.xmax ≠ t.xmin → ¬ m.running t.xmin
  movedIn : t.infomask.movedIn = false
  movedOut : t.infomask.movedOut = false

theorem Written.hint (h : Written m t) (xid : TransactionId) (scan : CommandId) (b : HintBit)
    (hb : Justified (m.view xid scan) t b) : Written m (t.hint b) := by
  cases b with
  | xminCommitted => exact ⟨h.known, fun _ => ((didHardCommit_iff _ _).mp hb.2).2, h.deleted, h.movedIn, h.movedOut⟩
  | xminInvalid => exact ⟨h.known, h.committed, h.deleted, h.movedIn, h.movedOut⟩
  | xmaxCommitted => exact ⟨h.known, h.committed, h.deleted, h.movedIn, h.movedOut⟩
  | xmaxInvalid =>
    exact ⟨h.known, h.committed, fun hclear => Bool.noConfusion hclear, h.movedIn, h.movedOut⟩

theorem Written.hints {t' : HeapTupleHeader} (h : Written m t) {xid : TransactionId}
    {scan : CommandId} (hh : Hints (m.view xid scan) t t') : Written m t' := by
  induction hh with
  | none => exact h
  | more b _ hb ih => exact ih.hint xid scan b hb

theorem Written.later {m' : Moment} (h : Written m t) (hm : Moves m m') : Written m' t where
  known := Nat.lt_of_lt_of_le h.known hm.next
  committed := fun hb => hm.commit _ (h.committed hb)
  deleted := fun hb hne hr => h.deleted hb hne (hm.ended _ h.known hr)
  movedIn := h.movedIn
  movedOut := h.movedOut

theorem update_invisible (v : View) (t : HeapTupleHeader)
    (h : (inserter v true t).1 = .void ∨ (inserter v true t).1 = .running) :
    (heapTupleSatisfiesUpdate v t).1 = .invisible := by
  rw [update_answer]
  rcases h with e | e <;> rw [e]

theorem Written.of_mayBeUpdated (h : Written m t) {xid : TransactionId} {scan : CommandId}
    (hfree : (heapTupleSatisfiesUpdate (m.view xid scan) t).1 = .mayBeUpdated) :
    t.xmin = xid ∨ ¬ m.running t.xmin := by
  cases hi : (inserter (m.view xid scan) true t).1 with
  | own =>
    obtain ⟨-, hcur, -⟩ := inserter_own _ _ _ hi
    exact .inl (eq_of_beq hcur).symm
  | committed =>
    refine .inr ?_
    obtain hb | hlog := inserter_committed hi
    · exact m.not_running_of_commit _ (h.committed hb)
    · exact m.not_running_of_didCommit _ hlog
  | void =>
    rw [update_invisible _ _ (.inl hi)] at hfree
    cases hfree
  | running =>
    rw [update_invisible _ _ (.inr hi)] at hfree
    cases hfree

theorem Written.overwrite {t' : HeapTupleHeader} (h : Written m t) (xid : TransactionId)
    (scan : CommandId) (hfree : (heapTupleSatisfiesUpdate (m.view xid scan) t).1 = .mayBeUpdated)
    (hxmin : t'.xmin = (heapTupleSatisfiesUpdate (m.view xid scan) t).2.xmin)
    (hxmax : t'.xmax = xid) (hcom : t'.has .xminCommitted =
      (heapTupleSatisfiesUpdate (m.view xid scan) t).2.has .xminCommitted)
    (hin : t'.infomask.movedIn = false) (hout : t'.infomask.movedOut = false) : Written m t' := by
  have hh := (update_leaves (m.view xid scan) t).hints
  have hw := h.hints hh
  refine ⟨?_, ?_, ?_, hin, hout⟩
  · rw [hxmin]
    exact hw.known
  · rw [hxmin, hcom]
    exact hw.committed
  · intro _ hne
    rw [hxmax, hxmin, hh.sameTuple.xmin] at hne
    rw [hxmin, hh.sameTuple.xmin]
    exact (h.of_mayBeUpdated hfree).resolve_left (Ne.symm hne)

theorem Arises.written (h : Arises m t) : Written m t := by
  induction h with
  | insert m tup xid cid hrun hin hout =>
    exact ⟨(m.open_of_running xid hrun).2.1, fun hb => Bool.noConfusion hb, fun hb => Bool.noConfusion hb, hin, hout⟩
  | @delete m t _ xid scan cid ctid _ hfree ih =>
    have hw := ih.hints (update_leaves (m.view xid scan) t).hints
    refine ih.overwrite xid scan hfree ?_ rfl rfl rfl hw.movedOut
    simp only [heapDelete, hw.movedIn, Bool.false_eq_true, if_false]
    rfl
  | @mark4Update m t _ xid scan cid _ hfree ih =>
    have hw := ih.hints (update_leaves (m.view xid scan) t).hints
    exact ih.overwrite xid scan hfree rfl rfl rfl hw.movedIn hw.movedOut
  | call _ xid scan _ c ih => exact ih.hints (exec_hints _ _ c)
  | later _ hm ih => exact ih.later hm

/-! ## The rule -/

/-- A committed bit stands for a commit, an invalid bit for an id that is neither committed nor the
current one. -/
structure Agrees (v : View) (t : HeapTupleHeader) : Prop where
  xminCommitted : t.has .xminCommitted → transactionIdDidCommit v.log t.xmin
  xminInvalid : t.has .xminInvalid → transactionIdDidCommit v.log t.xmin = false ∧ t.xmin ≠ v.current
  xmaxCommitted : t.has .xmaxCommitted → transactionIdDidCommit v.log t.xmax
  xmaxInvalid : t.has .xmaxInvalid →
    t.xmax = 0 ∨ transactionIdDidCommit v.log t.xmax = false ∧ t.xmax ≠ v.current

def InserterShown (v : View) (snapshot : SnapshotData) (t : HeapTupleHeader) : Prop :=
  t.xmin = v.current ∧ t.cmin < v.scanCommandId ∨ transactionIdDidCommit v.log t.xmin ∧
      transactionIdActiveDuringSnapshot snapshot t.xmin = false

/-- No deleter, only a mark, not committed, a later command of its own, or active. -/
def DeleterHidden (v : View) (snapshot : SnapshotData) (t : HeapTupleHeader) : Prop :=
  t.xmax = 0 ∨ t.infomask.markedForUpdate ∨
    t.xmax ≠ v.current ∧ transactionIdDidCommit v.log t.xmax = false ∨
    t.xmax = v.current ∧ v.scanCommandId ≤ t.cmax ∨
    transactionIdDidCommit v.log t.xmax ∧ transactionIdActiveDuringSnapshot snapshot t.xmax = true

theorem isCurrent_iff {v : View} {x : TransactionId} : (true && v.isCurrent x) ↔ x = v.current := by
  rw [Bool.true_and, View.isCurrent, beq_iff_eq, eq_comm]

section

variable {v : View} {t : HeapTupleHeader} (hagree : Agrees v t)
  (hopen : transactionIdDidCommit v.log v.current = false)
include hagree hopen

theorem inserter_own_of_current (h : t.xmin = v.current) : inserter v true t = (.own, t) := by
  have hcom : t.has .xminCommitted = false := by
    rw [← Bool.not_eq_true]
    intro hb
    have hc := hagree.xminCommitted hb
    rw [h, hopen] at hc
    cases hc
  have hinv : t.has .xminInvalid = false := by
    rw [← Bool.not_eq_true]
    exact fun hb => (hagree.xminInvalid hb).2 h
  exact inserter_of_current hcom hinv (isCurrent_iff.mpr h)

omit hopen in
theorem inserter_standing (h : t.xmin ≠ v.current) :
    (transactionIdDidCommit v.log t.xmin ∧ (inserter v true t).1 = .committed) ∨
      (transactionIdDidCommit v.log t.xmin = false ∧
        ((inserter v true t).1 = .void ∨ (inserter v true t).1 = .running)) := by
  unfold inserter
  split_ifs with hcom hinv hown
  · exact .inl ⟨hagree.xminCommitted hcom, rfl⟩
  · exact .inr ⟨(hagree.xminInvalid hinv).1, .inl rfl⟩
  · exact absurd (isCurrent_iff.mp hown) h
  · exact askLog_standing v t t.xmin .xminCommitted .xminInvalid

theorem deleter_standing : ((t.xmax = 0 ∨ t.xmax ≠ v.current ∧ transactionIdDidCommit v.log t.xmax = false) ∧
        ((deleter v true t).1 = .void ∨ (deleter v true t).1 = .running)) ∨
      (t.xmax ≠ 0 ∧ t.xmax = v.current ∧ (deleter v true t).1 = .own) ∨
      (t.xmax ≠ 0 ∧ t.xmax ≠ v.current ∧ transactionIdDidCommit v.log t.xmax ∧ (deleter v true t).1 = .committed) := by
  unfold deleter
  split_ifs with hinv h0 hcom hown
  · exact .inl ⟨(hagree.xmaxInvalid hinv).imp_right And.symm, .inl rfl⟩
  · exact .inl ⟨.inl h0, .inl rfl⟩
  · have hc := hagree.xmaxCommitted hcom
    refine .inr (.inr ⟨h0, fun e => ?_, hc, rfl⟩)
    rw [e, hopen] at hc
    cases hc
  · exact .inr (.inl ⟨h0, isCurrent_iff.mp hown, rfl⟩)
  · have hcur := isCurrent_iff.not.mp hown
    obtain ⟨hc, hs⟩ | ⟨hc, hs⟩ := askLog_standing v t t.xmax .xmaxCommitted .xmaxInvalid
    · exact .inr (.inr ⟨h0, hcur, hc, hs⟩)
    · exact .inl ⟨.inr ⟨hcur, hc⟩, hs⟩

variable (snapshot : SnapshotData)

theorem snapshotDeleter_iff (hout : t.infomask.movedOut = false) :
    (snapshotDeleter v snapshot t).1 ↔ DeleterHidden v snapshot t := by
  cases hm : t.infomask.markedForUpdate with
  | true =>
    rw [snapshotDeleter_marked v snapshot hm]
    exact iff_of_true rfl (.inr (.inl hm))
  | false =>
    rw [snapshotDeleter_unmarked v snapshot hm]
    obtain ⟨hno, hd⟩ | ⟨h0, hcur, hd⟩ | ⟨h0, hcur, hc, hd⟩ := deleter_standing hagree hopen
    · have hhidden : DeleterHidden v snapshot t := by
        obtain h0 | hno := hno
        · exact .inl h0
        · exact .inr (.inr (.inl hno))
      obtain hd | hd := hd
      all_goals
        rw [hd]
        exact iff_of_true rfl hhidden
    · have hcur0 : v.current ≠ 0 := hcur ▸ h0
      rw [hd]
      simp only [DeleterHidden, View.commandIdGEScanCommandId, decide_eq_true_eq, hm, hcur, hopen,
        hcur0, ne_eq, not_true_eq_false, Bool.false_eq_true, false_and, true_and, false_or, or_false]
    · rw [hd]
      simp only [DeleterHidden, h0, hm, hcur, hc, hout, ne_eq, Bool.not_false, Bool.true_and,
        Bool.true_eq_false, Bool.false_eq_true, and_false, false_and, true_and, false_or]

/-- The current transaction sees what it inserted and has not deleted before the scan. -/
theorem snapshot_of_own (h : t.xmin = v.current)
    (hself : t.has .xmaxInvalid = false → t.xmax = v.current) (h0 : v.current ≠ 0) :
    (heapTupleSatisfiesSnapshot v false snapshot t).1 ↔ t.cmin < v.scanCommandId ∧ DeleterHidden v snapshot t := by
  have hresult : (heapTupleSatisfiesSnapshot v false snapshot t).1 = (!v.commandIdGEScanCommandId t.cmin &&
        (t.infomask.xmaxInvalid || t.infomask.markedForUpdate || v.commandIdGEScanCommandId t.cmax)) := by
    rw [snapshot_answer, inserter_own_of_current hagree hopen h]
  have hbefore : v.commandIdGEScanCommandId t.cmin = false ↔ t.cmin < v.scanCommandId := by
    rw [View.commandIdGEScanCommandId, decide_eq_false_iff_not, BitVec.not_le]
  have hhidden : (t.infomask.xmaxInvalid || t.infomask.markedForUpdate ||
      v.commandIdGEScanCommandId t.cmax) ↔ DeleterHidden v snapshot t := by
    by_cases hinv : t.infomask.xmaxInvalid
    · rw [hinv, Bool.true_or, Bool.true_or]
      refine iff_of_true rfl ?_
      obtain hx | ⟨hc, hne⟩ := hagree.xmaxInvalid hinv
      · exact .inl hx
      · exact .inr (.inr (.inl ⟨hne, hc⟩))
    · have hclear := Bool.eq_false_iff.mpr hinv
      have hx := hself hclear
      simp only [DeleterHidden, hclear, hx, h0, hopen, View.commandIdGEScanCommandId,
        Bool.or_eq_true, decide_eq_true_eq, Bool.false_eq_true, ne_eq, not_true_eq_false, false_and,
        true_and, false_or, or_false]
  rw [hresult, Bool.and_eq_true, Bool.not_eq_true', hbefore, hhidden]

/-- Of other transactions it sees what had committed by the time of the snapshot. -/
theorem snapshot_of_committed (hi : (inserter v true t).1 = .committed)
    (hin : t.infomask.movedIn = false) (hout : t.infomask.movedOut = false) :
    (heapTupleSatisfiesSnapshot v false snapshot t).1 ↔
      transactionIdActiveDuringSnapshot snapshot t.xmin = false ∧ DeleterHidden v snapshot t := by
  simp only [snapshot_answer, hi, hin, Bool.false_eq_true, if_false, Bool.and_eq_true,
    Bool.not_eq_true', snapshotDeleter_iff hagree hopen snapshot hout]

end

/-- **The rule.** A header is shown exactly when its inserter is in the snapshot and its deleter is
not. -/
theorem snapshot_shows_iff (m : Moment) (t : HeapTupleHeader) (h : Arises m t) (v : View)
    (snapshot : SnapshotData) (hrun : m.running v.current)
    (hopen : transactionIdDidCommit v.log v.current = false) (hagree : Agrees v t) :
    (heapTupleSatisfiesSnapshot v false snapshot t).1 ↔
      InserterShown v snapshot t ∧ DeleterHidden v snapshot t := by
  have hw := h.written
  by_cases hcur : t.xmin = v.current
  · have hself : t.has .xmaxInvalid = false → t.xmax = v.current := by
      intro hclear
      by_contra hne
      exact hw.deleted hclear (fun e => hne (e.trans hcur)) (hcur ▸ hrun)
    have hshown : InserterShown v snapshot t ↔ t.cmin < v.scanCommandId := by
      simp [InserterShown, hcur, hopen]
    rw [hshown]
    exact snapshot_of_own hagree hopen snapshot hcur hself (m.open_of_running _ hrun).1
  · have hshown : InserterShown v snapshot t ↔ transactionIdDidCommit v.log t.xmin ∧
        transactionIdActiveDuringSnapshot snapshot t.xmin = false := by
      simp [InserterShown, hcur]
    rw [hshown]
    obtain ⟨hc, hi⟩ | ⟨hc, hi⟩ := inserter_standing hagree hcur
    · rw [snapshot_of_committed hagree hopen snapshot hi hw.movedIn hw.movedOut, hc]
      simp
    · have hfalse : (heapTupleSatisfiesSnapshot v false snapshot t).1 = false := by
        rw [heapTupleSatisfiesSnapshot, if_neg Bool.false_ne_true]
        rcases hp : inserter v true t with ⟨ins, t'⟩
        rw [hp] at hi
        obtain e | e := hi
        all_goals
          cases e
          rfl
      rw [hfalse, hc]
      simp

/-! ## A tuple inserted by a committed transaction -/

def whileInserting : Moment where
  log := fun _ => .inprogress
  running := fun x => x = 600
  shown := fun x => x == 600
  checkpoint := 600
  next := 601
  open_of_running := by
    rintro x rfl
    exact ⟨by decide, by decide, rfl⟩
  running_of_shown := fun x _ hs _ => eq_of_beq hs
  known_of_final := fun x h => absurd rfl h

def afterCommit : Moment where
  log := fun x => if x = 600 then .commit else .inprogress
  running := fun x => x = 700
  shown := fun x => x == 700
  checkpoint := 600
  next := 701
  open_of_running := by
    rintro x rfl
    exact ⟨by decide, by decide, rfl⟩
  running_of_shown := fun x _ hs _ => eq_of_beq hs
  known_of_final := by
    intro x h
    by_cases hx : x = 600
    · rw [hx]
      decide
    · rw [if_neg hx] at h
      exact absurd rfl h

theorem commit_moves : Moves whileInserting afterCommit where
  next := by decide
  ended := by
    rintro x hlt rfl
    exact absurd hlt (by decide)
  status := by
    intro x
    show StatusMove (x = 600) .inprogress (if x = 600 then .commit else .inprogress)
    split_ifs with hx
    · exact .commitCareful hx
    · exact .stay _

def freshTuple : HeapTupleHeader where
  progress := 0
  xmin := 0
  xmax := 0
  ctid := ⟨0, 1⟩
  infomask := ⟨false, false, false, false, false, false, false⟩

theorem snapshot_shows_iff_inserted : (heapTupleSatisfiesSnapshot (afterCommit.view 700 2) false ⟨700, 700, []⟩
      (heapInsert freshTuple 600 1)).1 := by
  have harises : Arises afterCommit (heapInsert freshTuple 600 1) :=
    (Arises.insert whileInserting freshTuple 600 1 rfl rfl rfl).later commit_moves
  refine (snapshot_shows_iff afterCommit _ harises (afterCommit.view 700 2) ⟨700, 700, []⟩ rfl
    (by decide) ⟨?_, ?_, ?_, ?_⟩).mpr ⟨.inr ⟨by decide, by decide⟩, .inl rfl⟩
  · intro hb
    cases hb
  · intro hb
    cases hb
  · intro hb
    cases hb
  · intro _
    exact .inl rfl

end WeaverDB.Visibility
