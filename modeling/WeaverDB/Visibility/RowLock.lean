import WeaverDB.Visibility.SnapshotRule

/-! # Locking a row for update

`heap_mark4update` stamps a command id into `t_cmax`, the upper half of `t_vtran`, which the snapshot
test of a tuple that vacuum has moved in reads as the id of the original inserter. `heap_delete` and
`heap_update` put that id back into `t_xmin` before they stamp; the mark does not.
-/

namespace WeaverDB.Visibility
open TransLog Snapshot Bool BitVec Function

variable {t : HeapTupleHeader} {v : View} {asksOwn : Bool} {x : TransactionId}

/-! ## Tuples that are free to update -/

/-- The id whose presence in the snapshot decides whether the insertion is seen. -/
def HeapTupleHeader.snapshotXmin (t : HeapTupleHeader) : TransactionId :=
  if t.infomask.movedIn then t.vtran else t.xmin

def Undeleted (t : HeapTupleHeader) : Prop := t.has .xmaxInvalid ∨ t.infomask.markedForUpdate = true

theorem deleter_void (h : (deleter v asksOwn t).1 = .void) : (deleter v asksOwn t).2.has .xmaxInvalid := by
  unfold deleter askLog at h ⊢
  split_ifs at h ⊢ with hinv
  all_goals first | exact hinv | rfl

theorem update_undeleted (h : (heapTupleSatisfiesUpdate v t).1 = .mayBeUpdated) :
    Undeleted (heapTupleSatisfiesUpdate v t).2 := by
  revert h
  unfold heapTupleSatisfiesUpdate
  obtain ⟨_ | _ | _ | _, t₁⟩ := inserter v true t
  case void => exact fun h => UpdateResult.noConfusion h
  case running => exact fun h => UpdateResult.noConfusion h
  case own =>
    dsimp only
    by_cases hcmin : v.commandIdGEScanCommandId t₁.cmin
    · rw [if_pos hcmin]
      exact fun h => UpdateResult.noConfusion h
    rw [if_neg hcmin]
    by_cases hfree : (t₁.infomask.xmaxInvalid || t₁.infomask.markedForUpdate)
    · rw [if_pos hfree]
      exact fun _ => (or_eq_true _ _).mp hfree
    · rw [if_neg hfree]
      intro h
      split at h <;> cases h
  case committed =>
    dsimp only
    have hvoid : (deleter v true t₁).1 = .void → _ := deleter_void
    revert hvoid
    obtain ⟨_ | _ | _ | _, t₂⟩ := deleter v true t₁
    case void => exact fun hvoid _ => .inl (hvoid rfl)
    case running => exact fun _ h => UpdateResult.noConfusion h
    all_goals
      dsimp only
      intro _ h
      by_cases hmark : t₂.infomask.markedForUpdate
      · rw [if_pos hmark]
        exact .inr hmark
      · rw [if_neg hmark] at h
        first | cases h | (split at h <;> cases h)

theorem Undeleted.snapshotDeleter (h : Undeleted t) (snapshot : SnapshotData) : (snapshotDeleter v snapshot t).1 := by
  obtain hinv | hmark := h
  · cases hm : t.infomask.markedForUpdate with
    | true => exact snapshotDeleter_marked v snapshot hm
    | false => rw [snapshotDeleter_unmarked v snapshot hm, deleter_of_invalid hinv]
  · exact snapshotDeleter_marked v snapshot hmark

theorem Undeleted.now (h : Undeleted t) (hi : (inserter v true t).1 = .committed) : (heapTupleSatisfiesNow v t).1 := by
  rw [now_answer, hi]
  obtain hinv | hmark := h
  · rw [deleter_of_invalid hinv]
  · cases (deleter v true t).1 <;> simp [hmark]

theorem snapshot_committed (hi : (inserter v true t).1 = .committed) (snapshot : SnapshotData) :
    (heapTupleSatisfiesSnapshot v false snapshot t).1 =
      (!transactionIdActiveDuringSnapshot snapshot t.snapshotXmin && (snapshotDeleter v snapshot t).1) := by
  rw [snapshot_answer, hi]
  rfl

theorem Undeleted.snapshot (h : Undeleted t)
    (hi : (inserter v true t).1 = .committed) (override : Bool) (snapshot : SnapshotData) :
    (heapTupleSatisfiesSnapshot v override snapshot t).1 =
      (override || !transactionIdActiveDuringSnapshot snapshot t.snapshotXmin) := by
  cases override with
  | true =>
    rw [heapTupleSatisfiesSnapshot, if_pos rfl, h.now hi, Bool.true_or]
  | false =>
    rw [snapshot_committed hi, h.snapshotDeleter, Bool.and_true, Bool.false_or]

/-! ## Who looks at the row -/

abbrev Later (m m' : Moment) : Prop := Relation.ReflTransGen Moves m m'

theorem Later.next {m m' : Moment} (h : Later m m') : m.next ≤ m'.next := by
  induction h with
  | refl => exact BitVec.le_refl _
  | tail _ hm ih => exact BitVec.le_trans ih hm.next

theorem Later.gone {m m' : Moment} (h : Later m m') (hx : x < m.next) (hgone : ¬ m.running x) : ¬ m'.running x := by
  induction h with
  | refl => exact hgone
  | tail hl hm ih =>
    intro hr
    exact ih (hm.ended x (Nat.lt_of_lt_of_le hx (Later.next hl)) hr)

theorem mark_inserter (v : View) (asksOwn : Bool) (g : HeapTupleHeader) (xid : TransactionId)
    (cid : CommandId) : (inserter v asksOwn (heapMark4Update g xid cid)).1 = (inserter v asksOwn g).1 :=
  inserter_congr v asksOwn rfl rfl rfl

section

variable {m m' : Moment} {xid current : TransactionId} {scan : CommandId}

theorem viewer_not_inserter (hfree : (heapTupleSatisfiesUpdate (m.view xid scan) t).1 = .mayBeUpdated) (hl : Later m m')
    (hrun : m'.running current) (hother : current ≠ xid) (scan' : CommandId) :
    (inserter (m'.view current scan') true (heapTupleSatisfiesUpdate (m.view xid scan) t).2).1 ≠
      .own := by
  have hh := (update_leaves (m.view xid scan) t).hints
  intro hown
  obtain ⟨-, hcur, -, hcom, -⟩ := inserter_own _ _ _ hown
  have hxmin : current = t.xmin := (eq_of_beq hcur).trans hh.sameTuple.xmin
  cases hi : (inserter (m.view xid scan) true t).1 with
  | own =>
    obtain ⟨-, hme, -⟩ := inserter_own _ _ _ hi
    exact hother (hxmin.trans (eq_of_beq hme).symm)
  | committed =>
    obtain hbit | hlog := inserter_committed hi
    · rw [hh.has _ hbit] at hcom
      cases hcom
    · have hknown : t.xmin < m.next := by
        refine m.known_of_final _ fun hopen => ?_
        rcases ((didCommit_iff _ _).mp hlog).2 with e | e <;> cases e.symm.trans hopen
      exact hl.gone hknown (m.not_running_of_didCommit _ hlog) (hxmin ▸ hrun)
  | void =>
    rw [update_invisible _ _ (.inl hi)] at hfree
    cases hfree
  | running =>
    rw [update_invisible _ _ (.inr hi)] at hfree
    cases hfree

theorem not_committed_unseen {g : HeapTupleHeader}
    (h : (inserter v true g).1 = .void ∨ (inserter v true g).1 = .running) (override : Bool)
    (snapshot : SnapshotData) : (heapTupleSatisfiesSnapshot v override snapshot g).1 = false := by
  unfold heapTupleSatisfiesSnapshot heapTupleSatisfiesNow
  rcases hp : inserter v true g with ⟨ins, g₁⟩
  rw [hp] at h
  obtain e | e := h
  all_goals
    cases e
    cases override <;> rfl

theorem mark_unseen_or_same (hfree : (heapTupleSatisfiesUpdate (m.view xid scan) t).1 = .mayBeUpdated) (hl : Later m m')
    (hrun : m'.running current) (hother : current ≠ xid) (scan' cid : CommandId) (override : Bool)
    (snapshot : SnapshotData) (g : HeapTupleHeader)
    (hg : (heapTupleSatisfiesUpdate (m.view xid scan) t).2 = g)
    (hsame : (heapMark4Update g xid cid).snapshotXmin = g.snapshotXmin) :
    (heapTupleSatisfiesSnapshot (m'.view current scan') override snapshot (heapMark4Update g xid cid)).1 =
      (heapTupleSatisfiesSnapshot (m'.view current scan') override snapshot g).1 := by
  have hins := mark_inserter (m'.view current scan') true g xid cid
  have hnot := viewer_not_inserter hfree hl hrun hother scan'
  have hundel := update_undeleted hfree
  rw [hg] at hnot hundel
  cases hi : (inserter (m'.view current scan') true g).1 with
  | own => exact absurd hi hnot
  | void =>
    rw [not_committed_unseen (.inl hi), not_committed_unseen (.inl (hins.trans hi))]
  | running =>
    rw [not_committed_unseen (.inr hi), not_committed_unseen (.inr (hins.trans hi))]
  | committed =>
    rw [hundel.snapshot hi, Undeleted.snapshot (.inr rfl) (hins.trans hi), hsame]

end

variable (g : HeapTupleHeader)

theorem snapshotXmin_mark (xid : TransactionId) (cid : CommandId) :
    (heapMark4Update g xid cid).snapshotXmin = if g.infomask.movedIn then cid ++ g.cmin else g.xmin :=
  rfl

theorem vtran_eq : g.vtran = g.cmax ++ g.cmin := by
  apply eq_of_getLsbD_eq
  simp only [HeapTupleHeader.vtran, HeapTupleHeader.cmax, HeapTupleHeader.cmin, getLsbD_append, getLsbD_extractLsb']
  grind

theorem snapshotXmin_mark_iff (xid : TransactionId) (cid : CommandId) :
    (heapMark4Update g xid cid).snapshotXmin = g.snapshotXmin ↔ g.infomask.movedIn = false ∨ cid = g.cmax := by
  rw [snapshotXmin_mark, HeapTupleHeader.snapshotXmin]
  cases g.infomask.movedIn with
  | false => simp
  | true =>
    rw [if_pos rfl, if_pos rfl, vtran_eq]
    constructor
    · intro h
      have hupper := congrArg (fun p : BitVec 64 => p.extractLsb' 32 32) h
      rw [BitVec.extractLsb'_append_eq_left, BitVec.extractLsb'_append_eq_left] at hupper
      exact .inr hupper
    · rintro (h | h)
      · cases h
      · rw [h]

/-! ## Marks that hide a row -/

def activeFrom (x : TransactionId) : SnapshotData := { xmin := x, xmax := x, xip := [] }

theorem active_activeFrom (x y : TransactionId) :
    transactionIdActiveDuringSnapshot (activeFrom x) y = decide (x ≤ y) := by
  unfold transactionIdActiveDuringSnapshot activeFrom
  by_cases h : x ≤ y <;> simp [h]

theorem exists_snapshot_of_ne {y : TransactionId} (h : x ≠ y) :
    ∃ snapshot, transactionIdActiveDuringSnapshot snapshot x ≠ transactionIdActiveDuringSnapshot snapshot y := by
  obtain hlt | hlt := Nat.lt_or_gt_of_ne (toNat_ne.mp h)
  · refine ⟨activeFrom y, ?_⟩
    rw [active_activeFrom, active_activeFrom, decide_eq_false (BitVec.not_le.mpr hlt),
      decide_eq_true (BitVec.le_refl y)]
    decide
  · refine ⟨activeFrom x, ?_⟩
    rw [active_activeFrom, active_activeFrom, decide_eq_false (BitVec.not_le.mpr hlt),
      decide_eq_true (BitVec.le_refl x)]
    decide

section

variable (m : Moment) (xid : TransactionId) (hrun : m.running xid) (hroom : m.next.toNat + 1 < 2^64)

theorem Moment.log_next (m : Moment) : m.log m.next = .inprogress := by
  by_contra h
  exact Nat.lt_irrefl _ (m.known_of_final _ h)

def Moment.afterMark : Moment where
  log := update m.log xid .commit
  running := fun x => m.running x ∧ x ≠ xid ∨ x = m.next
  shown := fun x => m.shown x && x != xid || x == m.next
  checkpoint := m.checkpoint
  next := m.next+1
  open_of_running := by
    have hlt := (m.open_of_running xid hrun).2.1
    have hsucc := toNat_succ m.next hroom
    rintro x (⟨hx, hne⟩ | rfl)
    · obtain ⟨h0, hxlt, hlog⟩ := m.open_of_running x hx
      refine ⟨h0, ?_, by rw [update_of_ne hne]; exact hlog⟩
      rw [lt_def] at hxlt ⊢
      omega
    · have hne : m.next ≠ xid := fun e => Nat.lt_irrefl _ (e ▸ hlt)
      refine ⟨fun e => ?_, ?_, by rw [update_of_ne hne]; exact m.log_next⟩
      · rw [e] at hlt
        exact Nat.not_lt_zero _ hlt
      · rw [lt_def]
        omega
  running_of_shown := by
    intro x h0 hs hlog
    rw [or_eq_true, and_eq_true, bne_iff_ne, beq_iff_eq] at hs
    obtain ⟨hs, hne⟩ | e := hs
    · rw [update_of_ne hne] at hlog
      exact .inl ⟨m.running_of_shown x h0 hs hlog, hne⟩
    · exact .inr e
  known_of_final := by
    intro x hlog
    have hsucc := toNat_succ m.next hroom
    have hlt : x < m.next := by
      by_cases hx : x = xid
      · rw [hx]
        exact (m.open_of_running xid hrun).2.1
      · rw [update_of_ne hx] at hlog
        exact m.known_of_final x hlog
    rw [lt_def] at hlt ⊢
    omega

theorem afterMark_moves : Moves m (m.afterMark xid hrun hroom) where
  next := by
    have hsucc := toNat_succ m.next hroom
    show m.next ≤ m.next+1
    rw [le_def]
    omega
  ended := by
    rintro x hlt (⟨hx, -⟩ | rfl)
    · exact hx
    · exact absurd hlt (Nat.lt_irrefl _)
  status := by
    intro x
    show StatusMove _ (m.log x) (update m.log xid .commit x)
    by_cases hx : x = xid
    · rw [hx, update_self, (m.open_of_running xid hrun).2.2]
      exact .commitCareful hrun
    · rw [update_of_ne hx]
      exact .stay _

theorem inserter_committed_left (h : (inserter v asksOwn t).1 = .committed) :
    (inserter v asksOwn t).2.has .xminCommitted ∨ (inserter v asksOwn t).2.has .xminInvalid = false := by
  unfold inserter askLog at h ⊢
  split_ifs at h ⊢ with hcom hinv
  all_goals first | exact .inl hcom | exact .inl rfl | exact .inr (eq_false_iff.mpr hinv)

theorem afterMark_inserter {scan : CommandId}
    (hfree : (heapTupleSatisfiesUpdate (m.view xid scan) t).1 = .mayBeUpdated) :
    (inserter ((m.afterMark xid hrun hroom).view m.next 0) true
      (heapTupleSatisfiesUpdate (m.view xid scan) t).2).1 = .committed := by
  have hleaves := update_leaves (m.view xid scan) t
  have hinvisible := update_invisible (m.view xid scan) t
  generalize heapTupleSatisfiesUpdate (m.view xid scan) t = result at hleaves hfree hinvisible ⊢
  obtain ⟨answer, g⟩ := result
  dsimp only at hleaves hfree hinvisible ⊢
  have hsame := hleaves.hints.sameTuple
  have hold := hleaves.hints.has .xminCommitted
  cases hcom : g.has .xminCommitted with
  | true => rw [inserter_of_committed hcom]
  | false =>
    -- The row shows no abort, and its inserter committed, at the latest together with the marker.
    have hshown : g.has .xminInvalid = false ∧ t.xmin < m.next ∧
        transactionIdDidCommit (m.afterMark xid hrun hroom).log t.xmin := by
      cases hi : (inserter (m.view xid scan) true t).1 with
      | void => cases (hinvisible (.inl hi)).symm.trans hfree
      | running => cases (hinvisible (.inr hi)).symm.trans hfree
      | own =>
        obtain ⟨-, hme, hleft, -, hinv⟩ := inserter_own _ _ _ hi
        have hxmin : xid = t.xmin := eq_of_beq hme
        obtain ⟨h0, hlt, -⟩ := m.open_of_running xid hrun
        have hg : g = t := by
          obtain e | ⟨hc, -⟩ := hleaves
          · exact e.trans hleft
          · cases hi.symm.trans hc
        rw [hg, ← hxmin]
        refine ⟨hinv, hlt, (didCommit_iff _ _).mpr ⟨h0, .inr ?_⟩⟩
        exact update_self ..
      | committed =>
        have hlog : transactionIdDidCommit m.log t.xmin := by
          refine (inserter_committed hi).resolve_left fun hbit => ?_
          rw [hold hbit] at hcom
          cases hcom
        have hne : t.xmin ≠ xid := fun e => m.not_running_of_didCommit _ hlog (e ▸ hrun)
        refine ⟨?_, ?_, ?_⟩
        · have hleft := inserter_committed_left hi
          obtain e | ⟨-, e⟩ := hleaves
          · rw [← e] at hleft
            exact hleft.resolve_left (by rw [hcom]; exact Bool.false_ne_true)
          · have hkeep := deleter_keeps (m.view xid scan) true (inserter (m.view xid scan) true t).2
            rw [← e] at hkeep
            rw [← hkeep.1, ← hkeep.2] at hleft
            exact hleft.resolve_left (by rw [hcom]; exact Bool.false_ne_true)
        · refine m.known_of_final _ fun hopen => ?_
          rcases ((didCommit_iff _ _).mp hlog).2 with e | e <;> cases e.symm.trans hopen
        · rw [didCommit_iff] at hlog ⊢
          refine ⟨hlog.1, ?_⟩
          show update m.log xid .commit t.xmin = _ ∨ update m.log xid .commit t.xmin = _
          rw [update_of_ne hne]
          exact hlog.2
    obtain ⟨hinv, hlt, hlog⟩ := hshown
    have hother : ¬ (true && ((m.afterMark xid hrun hroom).view m.next 0).isCurrent g.xmin) := by
      rw [isCurrent_iff, hsame.xmin]
      exact fun e => Nat.lt_irrefl _ (e ▸ hlt)
    exact inserter_committed_iff.mpr (.inr ⟨hinv, hother, hsame.xmin ▸ hlog⟩)

end

/-- **Locking a row.** The mark changes nothing for others exactly if the row was not moved in or
the command id fits. -/
theorem mark4update_frame_iff (m : Moment) (t : HeapTupleHeader) (xid : TransactionId)
    (scan cid : CommandId) (hrun : m.running xid) (hroom : m.next.toNat + 1 < 2^64)
    (hfree : (heapTupleSatisfiesUpdate (m.view xid scan) t).1 = .mayBeUpdated) :
    (∀ m' current scan' override snapshot, Later m m' → m'.running current → current ≠ xid →
      (heapTupleSatisfiesSnapshot (m'.view current scan') override snapshot
          (heapMark4Update (heapTupleSatisfiesUpdate (m.view xid scan) t).2 xid cid)).1 =
        (heapTupleSatisfiesSnapshot (m'.view current scan') override snapshot
          (heapTupleSatisfiesUpdate (m.view xid scan) t).2).1) ↔
      t.infomask.movedIn = false ∨ cid = t.cmax := by
  have hsame := (update_leaves (m.view xid scan) t).hints.sameTuple
  have hiff := snapshotXmin_mark_iff (heapTupleSatisfiesUpdate (m.view xid scan) t).2 xid cid
  rw [hsame.movedIn, hsame.cmax] at hiff
  rw [← hiff]
  constructor
  · intro h
    by_contra hne
    obtain ⟨snapshot, hdiffer⟩ := exists_snapshot_of_ne hne
    have hnext : m.next ≠ xid := by
      intro e
      exact Nat.lt_irrefl _ (e ▸ (m.open_of_running xid hrun).2.1)
    have hins := afterMark_inserter m xid hrun hroom hfree
    have hins' := (mark_inserter _ true _ xid cid).trans hins
    have hequal := h (m.afterMark xid hrun hroom) m.next 0 false snapshot
      (.single (afterMark_moves m xid hrun hroom)) (.inr rfl) hnext
    rw [(update_undeleted hfree).snapshot hins, Undeleted.snapshot (.inr rfl) hins'] at hequal
    exact hdiffer (not_inj hequal)
  · intro hxmin m' current scan' override snapshot hl hrun' hother
    exact mark_unseen_or_same hfree hl hrun' hother scan' cid override snapshot _ rfl hxmin

theorem mark4update_frame_iff_unmoved :
    (heapTupleSatisfiesSnapshot ((afterCommit.afterMark 700 rfl (by decide)).view 701 0) false ⟨701, 702, []⟩
        (heapMark4Update (heapTupleSatisfiesUpdate (afterCommit.view 700 2)
          (heapInsert freshTuple 600 1)).2 700 1)).1 =
      (heapTupleSatisfiesSnapshot ((afterCommit.afterMark 700 rfl (by decide)).view 701 0) false ⟨701, 702, []⟩
        (heapTupleSatisfiesUpdate (afterCommit.view 700 2) (heapInsert freshTuple 600 1)).2).1 :=
  (mark4update_frame_iff afterCommit (heapInsert freshTuple 600 1) 700 2 1 rfl (by decide)
    (by decide)).mpr (.inl rfl) _ 701 0 false _
    (.single (afterMark_moves afterCommit 700 rfl (by decide))) (.inr rfl) (by decide)

/-! ## A row that vacuum has moved -/

def afterMove : Moment where
  log := fun x => if x = 600 ∨ x = 650 then .commit else .inprogress
  running := fun x => x = 700 ∨ x = 701
  shown := fun x => x == 700 || x == 701
  checkpoint := 700
  next := 702
  open_of_running := by
    rintro x (rfl | rfl) <;> exact ⟨by decide, by decide, rfl⟩
  running_of_shown := by
    intro x _ hs _
    rw [or_eq_true, beq_iff_eq, beq_iff_eq] at hs
    exact hs
  known_of_final := by
    intro x h
    by_cases hx : x = 600 ∨ x = 650
    · rcases hx with rfl | rfl <;> decide
    · rw [if_neg hx] at h
      exact absurd rfl h

def movedRow : HeapTupleHeader := movedCopy (heapInsert freshTuple 600 1) 650 ⟨0, 2⟩

/-- The second command of 700 locks the row. Its `t_vtran` becomes 2 ^ 32 + 600, and the row is gone
for 701. -/
theorem not_all_marks_frame : ¬ ∀ m t xid scan cid m' current scan' snapshot, m.running xid →
      (heapTupleSatisfiesUpdate (m.view xid scan) t).1 = .mayBeUpdated → Later m m' →
      m'.running current → current ≠ xid →
      (heapTupleSatisfiesSnapshot (m'.view current scan') false snapshot
          (heapMark4Update (heapTupleSatisfiesUpdate (m.view xid scan) t).2 xid cid)).1 =
        (heapTupleSatisfiesSnapshot (m'.view current scan') false snapshot t).1 := by
  intro h
  have hequal := h afterMove movedRow 700 1 1 afterMove 701 1 ⟨700, 702, [700]⟩ (.inl rfl) (by decide)
    .refl (.inr rfl) (by decide)
  exact absurd hequal (by decide)

end WeaverDB.Visibility
