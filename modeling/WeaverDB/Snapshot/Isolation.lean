import WeaverDB.Snapshot.Threads

/-! # What a snapshot says about the transactions that run

`Invariant` ties the phases of the threads to what they show, over all interleavings.
`snapshot_active_iff` says which of the running transactions a snapshot counts as active.
-/

namespace WeaverDB.Snapshot
open Foundations TransLog BitVec List Bool Function Option

variable {s : Server} {x : TransactionId} {i : Nat} {v' v : Variables}

/-! ## The id counter -/

structure Consistent (v : Variables) : Prop where
  taken : v.shmem.nextXid.toNat + v.shmem.xidCount ≤ v.var.nextXidData.toNat+1
  started : v.shmem.xidCount ≠ 0 → v.shmem.nextXid ≠ 0
  prefetch : 0 < v.xidPrefetch
  room : v.var.nextXidData.toNat + 1 < 2^64

def RoomLeft (v : Variables) : Prop := v.var.nextXidData.toNat + v.xidPrefetch + 1 < 2^64

structure NewId (v : Variables) (x : TransactionId) (v' : Variables) : Prop where
  valid : x ≠ 0
  above : v.shmem.nextXid ≤ x
  next : v'.shmem.nextXid.toNat = x.toNat+1
  checkpoint : v'.shmem.xidCheckpoint = v.shmem.xidCheckpoint
  consistent : Consistent v'

theorem NewId.lt_next (h : NewId v x v') : x < v'.shmem.nextXid := by
  have hnext := h.next
  rw [lt_def]
  omega

theorem NewId.next_le (h : NewId v x v') : v.shmem.nextXid ≤ v'.shmem.nextXid :=
  Nat.le_of_lt (Nat.lt_of_le_of_lt h.above h.lt_next)

theorem nextXid_le_new (h : Consistent v) : v.shmem.nextXid ≤ (getNewTransactionId v).1 := by
  have htaken := h.taken
  have hsucc := toNat_succ v.var.nextXidData h.room
  by_cases hc : v.shmem.xidCount = 0
  · have e : (getNewTransactionId v).1 = v.var.nextXidData+1 := by simp [getNewTransactionId, hc]
    rw [e, le_def]
    omega
  · have e : (getNewTransactionId v).1 = v.shmem.nextXid := by simp [getNewTransactionId, hc]
    rw [e]
    exact BitVec.le_refl _

theorem succ_ne_zero (x : TransactionId) (h : x.toNat + 1 < 2^64) : x + 1 ≠ 0 := by
  intro h0
  have hsucc := toNat_succ x h
  rw [h0] at hsucc
  exact absurd hsucc (by simp)

theorem getNewTransactionId_new (h : Consistent v) (hroom : RoomLeft v) :
    NewId v (getNewTransactionId v).1 (getNewTransactionId v).2 := by
  have htaken := h.taken
  have hbound := h.room
  have hpre := h.prefetch
  unfold RoomLeft at hroom
  have hsucc := toNat_succ v.var.nextXidData hbound
  by_cases hc : v.shmem.xidCount = 0
  · have e : getNewTransactionId v = (v.var.nextXidData+1,
          { var := { v.var with
              nextXidData := v.var.nextXidData + .ofNat 64 v.xidPrefetch }
            shmem := { v.shmem with
              nextXid := v.var.nextXidData + 1 + 1, xidCount := v.xidPrefetch - 1 }
            xidPrefetch := v.xidPrefetch }) := by
      simp [getNewTransactionId, hc]
    have hsucc' := toNat_succ (v.var.nextXidData+1) (by omega)
    have hdata : (v.var.nextXidData + .ofNat 64 v.xidPrefetch).toNat = v.var.nextXidData.toNat + v.xidPrefetch := by
      rw [toNat_add, toNat_ofNat]
      omega
    rw [e]
    refine ⟨?_, ?_, hsucc', rfl, ⟨?_, ?_, hpre, ?_⟩⟩
    · exact succ_ne_zero v.var.nextXidData hbound
    · exact e ▸ nextXid_le_new h
    · show (v.var.nextXidData + 1 + 1).toNat + (v.xidPrefetch-1) ≤ _
      rw [hsucc', hdata]
      omega
    · exact fun _ => succ_ne_zero (v.var.nextXidData+1) (by omega)
    · show (v.var.nextXidData + .ofNat 64 v.xidPrefetch).toNat + 1 < _
      omega
  · have e : getNewTransactionId v = (v.shmem.nextXid,
          { v with
            shmem := { v.shmem with
              nextXid := v.shmem.nextXid+1, xidCount := v.shmem.xidCount - 1 } }) := by
      simp [getNewTransactionId, hc]
    have hsucc' := toNat_succ v.shmem.nextXid (by omega)
    rw [e]
    refine ⟨h.started hc, BitVec.le_refl _, hsucc', rfl, ⟨?_, ?_, hpre, hbound⟩⟩
    · show (v.shmem.nextXid+1).toNat + (v.shmem.xidCount-1) ≤ _
      rw [hsucc']
      exact Nat.le_trans (by omega) htaken
    · exact fun _ => succ_ne_zero v.shmem.nextXid (by omega)

/-! ## The survey of the threads -/

section
variable (thread : Nat → Thread) (me : Nat) (current : TransactionId)

variable (n : Nat)

theorem survey_succ : surveyThreads thread me current (n+1) =
      (surveyThreads thread me current n).visit thread me n := by
  rw [surveyThreads, range_succ, foldl_append]
  rfl

def Listed (i : Nat) : Prop := (thread i).passedOver = false ∧ i ≠ me

variable (sv : Survey)

theorem visit_listed (i : Nat) (h : Listed thread me i) : (sv.visit thread me i).xip = sv.xip ++ [(thread i).xid] ∧
      (sv.visit thread me i).xmin = if (thread i).xid < sv.xmin then (thread i).xid else sv.xmin := by
  have hno : ((thread i).passedOver || i == me) = false := by
    rw [h.1, Bool.false_or]
    exact beq_eq_false_iff_ne.mpr h.2
  simp [Survey.visit, hno]

theorem visit_not_listed (i : Nat) (h : ¬ Listed thread me i) :
    (sv.visit thread me i).xip = sv.xip ∧ (sv.visit thread me i).xmin = sv.xmin := by
  have hyes : ((thread i).passedOver || i == me) := by
    by_contra hno
    rw [not_eq_true, or_eq_false_iff, beq_eq_false_iff_ne] at hno
    exact h hno
  simp [Survey.visit, hyes]

theorem visit_checkpoint (i : Nat) : (sv.visit thread me i).checkpoint =
      if (thread i).xmin ≠ 0 ∧ (thread i).xmin < sv.checkpoint then (thread i).xmin
      else sv.checkpoint := by
  unfold Survey.visit
  by_cases h : ((thread i).passedOver || i == me)
  · rw [if_pos h]
  · rw [if_neg h]

theorem running_min {l f : Nat → TransactionId} {P : Nat → Prop} (hdown : ∀ n, l (n+1) ≤ l n)
    (hmeets : ∀ n, P n → l (n+1) ≤ f n) (n : Nat) : l n ≤ l 0 ∧ ∀ i < n, P i → l n ≤ f i := by
  induction n with
  | zero => exact ⟨BitVec.le_refl _, fun i hi => absurd hi (Nat.not_lt_zero i)⟩
  | succ n ih =>
    refine ⟨BitVec.le_trans (hdown n) ih.1, fun i hi hP => ?_⟩
    obtain hlt | rfl := Nat.lt_succ_iff_lt_or_eq.mp hi
    · exact BitVec.le_trans (hdown n) (ih.2 i hlt hP)
    · exact hmeets i hP

theorem survey_checkpoint_le : (surveyThreads thread me current n).checkpoint ≤ current ∧
      ∀ i < n, (thread i).xmin ≠ 0 → (surveyThreads thread me current n).checkpoint ≤ (thread i).xmin := by
  refine running_min (l := fun n => (surveyThreads thread me current n).checkpoint) (fun n => ?_) (fun n h0 => ?_) n
  all_goals
    rw [survey_succ, visit_checkpoint]
    split
  · next h => exact BitVec.le_of_lt h.2
  · exact BitVec.le_refl _
  · exact BitVec.le_refl _
  · next h => exact BitVec.not_lt.mp fun hlt => h ⟨h0, hlt⟩

theorem survey_xmin_le : (surveyThreads thread me current n).xmin ≤ current ∧
      ∀ i < n, Listed thread me i → (surveyThreads thread me current n).xmin ≤ (thread i).xid := by
  refine running_min (l := fun n => (surveyThreads thread me current n).xmin) (fun n => ?_) (fun n hn => ?_) n
  · rw [survey_succ]
    by_cases hn : Listed thread me n
    · rw [(visit_listed thread me _ n hn).2]
      split
      · next h => exact BitVec.le_of_lt h
      · exact BitVec.le_refl _
    · rw [(visit_not_listed thread me _ n hn).2]
      exact BitVec.le_refl _
  · rw [survey_succ, (visit_listed thread me _ n hn).2]
    split
    · exact BitVec.le_refl _
    · next h => exact BitVec.not_lt.mp h

theorem mem_survey_xip (y : TransactionId) : y ∈ (surveyThreads thread me current n).xip ↔
      ∃ i < n, Listed thread me i ∧ (thread i).xid = y := by
  induction n with
  | zero =>
    constructor
    · intro h
      cases h
    · rintro ⟨i, hi, -⟩
      exact absurd hi (Nat.not_lt_zero i)
  | succ n ih =>
    rw [survey_succ]
    by_cases hn : Listed thread me n
    · rw [(visit_listed thread me _ n hn).1, mem_append, ih, mem_singleton]
      constructor
      · rintro (⟨i, hi, hl, e⟩ | e)
        · exact ⟨i, by omega, hl, e⟩
        · exact ⟨n, by omega, hn, e.symm⟩
      · rintro ⟨i, hi, hl, e⟩
        by_cases hin : i = n
        · subst hin
          exact .inr e.symm
        · exact .inl ⟨i, by omega, hl, e⟩
    · rw [(visit_not_listed thread me _ n hn).1, ih]
      constructor
      · rintro ⟨i, hi, hl, e⟩
        exact ⟨i, by omega, hl, e⟩
      · rintro ⟨i, hi, hl, e⟩
        have hin : i ≠ n := fun h => hn (h ▸ hl)
        exact ⟨i, by omega, hl, e⟩

theorem survey_xmin_mem : (surveyThreads thread me current n).xmin = current ∨
      ∃ i < n, Listed thread me i ∧ (surveyThreads thread me current n).xmin = (thread i).xid := by
  induction n with
  | zero => exact .inl rfl
  | succ n ih =>
    have hold : (surveyThreads thread me current n).xmin = current ∨ ∃ i < n+1, Listed thread me i ∧
          (surveyThreads thread me current n).xmin = (thread i).xid := by
      obtain e | ⟨i, hi, hl, e⟩ := ih
      · exact .inl e
      · exact .inr ⟨i, by omega, hl, e⟩
    rw [survey_succ]
    by_cases hn : Listed thread me n
    · rw [(visit_listed thread me _ n hn).2]
      split
      · exact .inr ⟨n, by omega, hn, rfl⟩
      · exact hold
    · rw [(visit_not_listed thread me _ n hn).2]
      exact hold

end

/-! ## The invariant -/

def Holds (s : Server) (i : Nat) (x : TransactionId) : Prop := (s.phase i).xid = some x

theorem holds_of_phase {p : Phase} (h : s.phase i = p) (hx : p.xid = some x) : Holds s i x := by
  rw [Holds, h]
  exact hx

structure Shows (th : Thread) (x : TransactionId) : Prop where
  xid : th.xid = x
  xmin : th.xmin ≠ 0 ∧ th.xmin ≤ x
  listed : th.passedOver = false

structure Invariant (s : Server) : Prop where
  counter : Consistent s.ids
  held : ∀ i x, Holds s i x → x ≠ 0 ∧ x < s.ids.shmem.nextXid ∧ i < s.maxBackends
  unique : ∀ i j x, Holds s i x → Holds s j x → i = j
  starter : ∀ i x, Holds s i x → (s.thread i).ttype = .normal ∨ (s.thread i).ttype = .poolsweep
  hidden : ∀ i, (s.phase i).published = false → (s.thread i).xid = 0 ∧ (s.thread i).state = .default
  shown : ∀ i x, Holds s i x → (s.phase i).published → Shows (s.thread i) x

structure Started (s : Server) : Prop where
  counter : Consistent s.ids
  idle : ∀ i, s.phase i = .idle
  cleared : ∀ i, (s.thread i).xid = 0 ∧ (s.thread i).state = .default

theorem Started.invariant (h : Started s) : Invariant s := by
  have hnone : ∀ i x, ¬ Holds s i x := by
    intro i x hx
    rw [Holds, h.idle i] at hx
    cases hx
  exact
    { counter := h.counter
      held := fun i x hx => absurd hx (hnone i x)
      unique := fun i j x hx => absurd hx (hnone i x)
      starter := fun i x hx => absurd hx (hnone i x)
      hidden := fun i _ => h.cleared i
      shown := fun i x hx => absurd hx (hnone i x) }

section

variable (s : Server) (i : Nat) (th : Thread) (p : Phase) (j : Nat)

theorem setThread_phase : (s.setThread i th p).phase j = if j = i then p else s.phase j := update_apply ..

theorem setThread_thread : (s.setThread i th p).thread j = if j = i then th else s.thread j := update_apply ..

theorem holds_setThread (x : TransactionId) :
    Holds (s.setThread i th p) j x ↔ if j = i then p.xid = some x else Holds s j x := by
  unfold Holds
  rw [setThread_phase]
  split <;> rfl

end

theorem assign_phase (s : Server) (i j : Nat) :
    (s.assign i).phase j = if j = i then .assigned (getNewTransactionId s.ids).1 else s.phase j :=
  update_apply ..

theorem holds_assign {j : Nat} (h : Holds (s.assign i) j x) :
    (j = i ∧ x = (getNewTransactionId s.ids).1) ∨ (j ≠ i ∧ Holds s j x) := by
  rw [Holds, assign_phase] at h
  split_ifs at h with hj
  · exact .inl ⟨hj, (some.inj h).symm⟩
  · exact .inr ⟨hj, h⟩

theorem Invariant.setThread (h : Invariant s) (i : Nat) (th : Thread) (p : Phase)
    (htype : th.ttype = (s.thread i).ttype) (hold : ∀ x, p.xid = some x → Holds s i x)
    (hhidden : p.published = false → th.xid = 0 ∧ th.state = .default)
    (hshown : ∀ x, p.xid = some x → p.published → Shows th x) : Invariant (s.setThread i th p) := by
  have hback : ∀ j x, Holds (s.setThread i th p) j x → Holds s j x := by
    intro j x hx
    rw [holds_setThread] at hx
    split_ifs at hx with hj
    · rw [hj]
      exact hold x hx
    · exact hx
  refine
    { counter := h.counter
      held := fun j x hx => h.held j x (hback j x hx)
      unique := fun j k x hj hk => h.unique j k x (hback j x hj) (hback k x hk)
      starter := ?_
      hidden := ?_
      shown := ?_ }
  · intro j x hx
    have hs := h.starter j x (hback j x hx)
    rw [setThread_thread]
    split_ifs with hj
    · rw [htype, ← hj]
      exact hs
    · exact hs
  · intro j hj
    rw [setThread_phase] at hj
    rw [setThread_thread]
    split_ifs at hj with hji
    · rw [if_pos hji]
      exact hhidden hj
    · rw [if_neg hji]
      exact h.hidden j hj
  · intro j x hx hj
    rw [holds_setThread] at hx
    rw [setThread_phase] at hj
    rw [setThread_thread]
    by_cases hji : j = i
    · rw [if_pos hji] at hx hj ⊢
      exact hshown x hx hj
    · rw [if_neg hji] at hx hj ⊢
      exact h.shown j x hx hj

theorem Invariant.record (h : Invariant s) (x : TransactionId) (xstatus : XidStatus) : Invariant (s.record x xstatus) :=
  { counter := h.counter, held := h.held, unique := h.unique, starter := h.starter
    hidden := h.hidden, shown := h.shown }

theorem assign_invariant (h : Invariant s) (hroom : RoomLeft s.ids) (hi : i < s.maxBackends) (hidle : s.phase i = .idle)
    (htype : (s.thread i).ttype = .normal ∨ (s.thread i).ttype = .poolsweep) :
    Invariant (s.assign i) := by
  have hnew := getNewTransactionId_new h.counter hroom
  -- A new id is at least the counter, and every id held is below it.
  have hfresh : ∀ j, ¬ Holds s j (getNewTransactionId s.ids).1 := by
    intro j hj
    have hlt := (h.held j _ hj).2.1
    exact absurd hnew.above (BitVec.not_le.mpr hlt)
  refine
    { counter := hnew.consistent
      held := ?_
      unique := ?_
      starter := ?_
      hidden := ?_
      shown := ?_ }
  · intro j x hx
    show x ≠ 0 ∧ x < (getNewTransactionId s.ids).2.shmem.nextXid ∧ j < s.maxBackends
    obtain ⟨rfl, rfl⟩ | ⟨-, hold⟩ := holds_assign hx
    · exact ⟨hnew.valid, hnew.lt_next, hi⟩
    · obtain ⟨h0, hlt, hj⟩ := h.held j x hold
      exact ⟨h0, Nat.lt_of_lt_of_le hlt hnew.next_le, hj⟩
  · intro j k x hj hk
    obtain ⟨rfl, rfl⟩ | ⟨-, hold⟩ := holds_assign hj
    · obtain ⟨rfl, -⟩ | ⟨-, hold'⟩ := holds_assign hk
      · rfl
      · exact absurd hold' (hfresh k)
    · obtain ⟨-, rfl⟩ | ⟨-, hold'⟩ := holds_assign hk
      · exact absurd hold (hfresh j)
      · exact h.unique j k x hold hold'
  · intro j x hx
    obtain ⟨rfl, -⟩ | ⟨-, hold⟩ := holds_assign hx
    · exact htype
    · exact h.starter j x hold
  · intro j hj
    show (s.thread j).xid = 0 ∧ (s.thread j).state = .default
    rw [assign_phase] at hj
    split_ifs at hj with hji
    · rw [hji]
      exact h.hidden i (hidle ▸ rfl)
    · exact h.hidden j hj
  · intro j x hx hj
    rw [assign_phase] at hj
    obtain ⟨rfl, -⟩ | ⟨hji, hold⟩ := holds_assign hx
    · rw [if_pos rfl] at hj
      cases hj
    · rw [if_neg hji] at hj
      exact h.shown j x hold hj

structure Surveyed (s : Server) (me : Nat) (current : TransactionId) (serializable : Bool)
    (taken : SnapshotData) (s' : Server) : Prop where
  started : s.ids.shmem.nextXid ≠ 0
  taken : taken =
    { xmin := (surveyThreads s.thread me current s.maxBackends).xmin
      xmax := s.ids.shmem.nextXid
      xip := (surveyThreads s.thread me current s.maxBackends).xip }
  phase : s'.phase = s.phase
  log : s'.log = s.log
  maxBackends : s'.maxBackends = s.maxBackends
  thread : ∀ j, s'.thread j = s.thread j ∨ j = me ∧ s'.thread j =
    { s.thread j with xmin := (surveyThreads s.thread me current s.maxBackends).xmin }
  ids : ∃ checkpoint, s'.ids = setCheckpointId s.ids checkpoint ∧
    checkpoint ≤ (surveyThreads s.thread me current s.maxBackends).checkpoint

variable {me j : Nat} {th : Thread} {s' : Server} {current : TransactionId} {serializable : Bool}
  {taken : SnapshotData}

theorem getSnapshotData_surveyed (hok : getSnapshotData s me current serializable = .ok (taken, s')) :
    Surveyed s me current serializable taken s' := by
  unfold getSnapshotData readNewTransactionId at hok
  by_cases h0 : s.ids.shmem.nextXid = 0
  · rw [if_pos h0] at hok
    cases hok
  · rw [if_neg h0] at hok
    cases hok
    refine ⟨h0, rfl, rfl, rfl, rfl, ?_, _, rfl, ?_⟩
    · intro j
      cases serializable with
      | false => exact .inl rfl
      | true =>
        by_cases hj : j = me
        · subst hj
          refine .inr ⟨rfl, ?_⟩
          show Function.update s.thread j _ j = _
          rw [update_self]
        · refine .inl ?_
          show Function.update s.thread me _ j = _
          rw [update_of_ne hj]
    · split_ifs with h
      · exact BitVec.le_of_lt h.2
      · exact BitVec.le_refl _

section

variable (h : Invariant s)
include h

theorem Invariant.of_published (hpub : (s.phase j).published) : Holds s j (s.thread j).xid := by
  obtain ⟨x, hx⟩ : ∃ x, Holds s j x := by
    unfold Holds
    revert hpub
    cases s.phase j <;> simp [Phase.published, Phase.xid]
  rw [(h.shown j x hx hpub).xid]
  exact hx

theorem Invariant.of_listed (hl : Listed s.thread me j) : Holds s j (s.thread j).xid ∧ (s.phase j).published := by
  have hpub : (s.phase j).published := by
    by_contra hno
    rw [not_eq_true] at hno
    have hpass := hl.1
    rw [Thread.passedOver, (h.hidden j hno).2] at hpass
    cases hpass
  exact ⟨h.of_published hpub, hpub⟩

theorem Invariant.of_xid (h0 : (s.thread j).xid ≠ 0) : Holds s j (s.thread j).xid ∧ (s.phase j).published := by
  have hpub : (s.phase j).published := by
    by_contra hno
    rw [not_eq_true] at hno
    exact h0 (h.hidden j hno).1
  exact ⟨h.of_published hpub, hpub⟩

theorem Invariant.survey_xmin (me : Nat) {owner : Nat}
    (hcur : Holds s owner current) : (surveyThreads s.thread me current s.maxBackends).xmin ≠ 0 ∧
      (surveyThreads s.thread me current s.maxBackends).xmin ≤ current := by
  refine ⟨?_, (survey_xmin_le s.thread me current s.maxBackends).1⟩
  obtain e | ⟨j, -, hl, e⟩ := survey_xmin_mem s.thread me current s.maxBackends
  · rw [e]
    exact (h.held owner current hcur).1
  · rw [e]
    exact (h.held j _ (h.of_listed hl).1).1

theorem snapshot_invariant {owner : Nat} (howner : Holds s owner x) (hme : me = owner ∨ s.phase me = .idle)
    (hsv : Surveyed s me x serializable taken s') : Invariant s' := by
  obtain ⟨checkpoint, hids, -⟩ := hsv.ids
  have hxmin := h.survey_xmin me howner
  have hholds : ∀ j y, Holds s' j y ↔ Holds s j y := by
    intro j y
    unfold Holds
    rw [hsv.phase]
  have hnext : s'.ids.shmem.nextXid = s.ids.shmem.nextXid := hids ▸ rfl
  refine
    { counter := ?_
      held := ?_
      unique := fun j k y hj hk => h.unique j k y ((hholds j y).mp hj) ((hholds k y).mp hk)
      starter := ?_
      hidden := ?_
      shown := ?_ }
  · rw [hids]
    exact ⟨h.counter.taken, h.counter.started, h.counter.prefetch, h.counter.room⟩
  · intro j y hy
    rw [hnext, hsv.maxBackends]
    exact h.held j y ((hholds j y).mp hy)
  · intro j y hy
    have hs := h.starter j y ((hholds j y).mp hy)
    obtain e | ⟨-, e⟩ := hsv.thread j
    · rw [e]
      exact hs
    · rw [e]
      exact hs
  · intro j hj
    rw [hsv.phase] at hj
    obtain e | ⟨-, e⟩ := hsv.thread j
    · rw [e]
      exact h.hidden j hj
    · rw [e]
      exact h.hidden j hj
  · intro j y hy hj
    rw [hholds] at hy
    rw [hsv.phase] at hj
    have hold := h.shown j y hy hj
    obtain e | ⟨rfl, e⟩ := hsv.thread j
    · rw [e]
      exact hold
    · -- Only the asking thread's `xmin` moves, and that thread is the owner, since it is not idle.
      have hjo : j = owner := by
        obtain e' | hidle := hme
        · exact e'
        · rw [Holds, hidle] at hy
          cases hy
      have hyx : y = x := by
        rw [hjo, Holds, howner] at hy
        exact (some.inj hy).symm
      rw [e]
      refine ⟨hold.xid, ⟨hxmin.1, ?_⟩, hold.listed⟩
      rw [hyx]
      exact hxmin.2

end

/-! ## Runs -/

def Roomy (s : Server) : Event → Prop
  | .assign _ => RoomLeft s.ids
  | _ => True

theorem shows_start (h0 : x ≠ 0) (htype : th.ttype = .normal ∨ th.ttype = .poolsweep) :
    Shows (threadTransactionStart th x) x where
  xid := rfl
  xmin := ⟨h0, BitVec.le_refl x⟩
  listed := by
    rcases htype with e | e <;> simp [threadTransactionStart, Thread.passedOver, e]

theorem shows_end (h : Shows th x) (htype : th.ttype = .normal ∨ th.ttype = .poolsweep) :
    Shows (threadTransactionEnd th) x where
  xid := h.xid
  xmin := h.xmin
  listed := by
    rcases htype with e | e <;> simp [threadTransactionEnd, Thread.passedOver, e]

theorem recorded_invariant (xstatus : XidStatus) (h : Invariant s) (hx : Holds s i x) (hp : (s.phase i).published) :
    Invariant ((s.record x xstatus).setThread i (s.thread i) (.recorded x)) := by
  refine (h.record x xstatus).setThread i (s.thread i) (.recorded x) rfl ?_ ?_ ?_
  · intro y hy
    rw [← some.inj hy]
    exact hx
  · intro hno
    cases hno
  · intro y hy _
    rw [← some.inj hy]
    exact h.shown i x hx hp

theorem step_invariant (s : Server) (e : Event) (s' : Server) (h : Invariant s)
    (hs : Guarded Step Roomy s e s') : Invariant s' := by
  obtain ⟨hroom, hs⟩ := hs
  cases hs with
  | assign i hi hidle htype => exact assign_invariant h hroom hi hidle htype
  | publish i x hp =>
    have hx : Holds s i x := holds_of_phase hp rfl
    refine h.setThread i _ (.running x) rfl ?_ ?_ ?_
    · exact fun y hy => holds_of_phase hp hy
    · intro hno
      cases hno
    · intro y hy _
      rw [← some.inj hy]
      exact shows_start (h.held i x hx).1 (h.starter i x hx)
  | snapshot _ me owner x serializable taken howner hme hok =>
    exact snapshot_invariant h (holds_of_phase howner rfl) hme (getSnapshotData_surveyed hok)
  | finish i x hp =>
    have hx : Holds s i x := holds_of_phase hp rfl
    refine h.setThread i _ (.committing x) rfl ?_ ?_ ?_
    · exact fun y hy => holds_of_phase hp hy
    · intro hno
      cases hno
    · intro y hy _
      rw [← some.inj hy]
      exact shows_end (h.shown i x hx (hp ▸ rfl)) (h.starter i x hx)
  | softCommit i x hp =>
    exact recorded_invariant .softCommit h (holds_of_phase hp rfl) (hp ▸ rfl)
  | hardCommit x _ => exact h.record x .commit
  | abort i x hp =>
    exact recorded_invariant .abort h (holds_of_phase hp rfl) (hp ▸ rfl)
  | reset i hp =>
    refine h.setThread i _ .idle rfl ?_ ?_ ?_
    · intro y hy
      cases hy
    · intro _
      exact ⟨rfl, rfl⟩
    · intro y hy
      cases hy

theorem run_invariant {s₀ : Server} {events : List Event} (h₀ : Started s₀)
    (r : Run (Guarded Step Roomy) s₀ events s) : Invariant s :=
  r.preserves Invariant step_invariant h₀.invariant

/-! ## Active transactions -/

theorem active_iff_published (h : Invariant s) (hsv : Surveyed s me current serializable taken s') (hx : Holds s i x)
    (hi : i ≠ me) : transactionIdActiveDuringSnapshot taken x ↔ (s.phase i).published := by
  obtain ⟨-, hlt, hmax⟩ := h.held i x hx
  have hactive : transactionIdActiveDuringSnapshot taken x ↔
      (surveyThreads s.thread me current s.maxBackends).xmin ≤ x ∧
        x ∈ (surveyThreads s.thread me current s.maxBackends).xip := by
    rw [hsv.taken, transactionIdActiveDuringSnapshot, if_neg (BitVec.not_le.mpr hlt)]
    split_ifs with hle
    · simp [hle]
    · simp [hle]
  rw [hactive]
  constructor
  · rintro ⟨-, hmem⟩
    obtain ⟨j, -, hl, hxid⟩ := (mem_survey_xip s.thread me current s.maxBackends x).mp hmem
    obtain ⟨hj, hpub⟩ := h.of_listed hl
    rw [hxid] at hj
    rw [h.unique i j x hx hj]
    exact hpub
  · intro hpub
    have hshown := h.shown i x hx hpub
    have hl : Listed s.thread me i := ⟨hshown.listed, hi⟩
    refine ⟨?_, (mem_survey_xip s.thread me current s.maxBackends x).mpr ⟨i, hmax, hl, hshown.xid⟩⟩
    rw [← hshown.xid]
    exact (survey_xmin_le s.thread me current s.maxBackends).2 i hmax hl

/-- **Snapshots.** A snapshot counts an open transaction of another thread as active exactly if that
thread has shown the id. -/
theorem snapshot_active_iff (s₀ s s' : Server) (events : List Event) (h₀ : Started s₀)
    (r : Run (Guarded Step Roomy) s₀ events s) (me owner : Nat) (serializable : Bool)
    (taken : SnapshotData) (hs : Step s (.snapshot me owner serializable taken) s') (i : Nat)
    (x : TransactionId) (hx : Holds s i x) (hi : i ≠ owner) :
    transactionIdActiveDuringSnapshot taken x ↔ (s.phase i).published := by
  have h := run_invariant h₀ r
  cases hs with
  | snapshot _ _ _ current _ _ howner hme hok =>
    have him : i ≠ me := by
      obtain e | hidle := hme
      · rw [e]
        exact hi
      · intro e
        rw [e, Holds, hidle] at hx
        cases hx
    exact active_iff_published h (getSnapshotData_surveyed hok) hx him

def twoThreads : Server where
  ids :=
    { var :=
        { nextXidData := 608
          baseline := 514
          checkpoint := 601
          databases := [{ init := true, database := 1, lowwater := 514 }] }
      shmem := { xidLowWaterMark := 514, xidCheckpoint := 608, nextXid := 602, xidCount := 7 }
      xidPrefetch := 8192 }
  log := fun _ => .inprogress
  maxBackends := 2
  thread := fun _ => { ttype := .normal, state := .default, xid := 0, xmin := 0 }
  phase := fun _ => .idle

theorem twoThreads_started : Started twoThreads where
  counter := ⟨by decide, by decide, by decide, by decide⟩
  idle := fun _ => rfl
  cleared := fun _ => ⟨rfl, rfl⟩

def firstRunning : Server :=
  (twoThreads.assign 0).setThread 0 (threadTransactionStart (twoThreads.thread 0) 602) (.running 602)

def bothRunning : Server :=
  (firstRunning.assign 1).setThread 1 (threadTransactionStart (twoThreads.thread 1) 603) (.running 603)

theorem bothRunning_run : Run (Guarded Step Roomy) twoThreads [.assign 0, .publish 0, .assign 1, .publish 1]
      bothRunning := by
  refine .guarded_cons (.assign _ 0 (by decide) rfl (.inl rfl)) (by unfold Roomy RoomLeft; decide) ?_
  refine .guarded_cons (.publish _ 0 602 rfl) trivial ?_
  refine .guarded_cons (.assign _ 1 (by decide) rfl (.inl rfl)) (by unfold Roomy RoomLeft; decide) ?_
  exact .guarded_cons (.publish _ 1 603 rfl) trivial (.nil _)

theorem snapshot_active_iff_both_running :
    transactionIdActiveDuringSnapshot { xmin := 602, xmax := 604, xip := [602] } 602 :=
  (snapshot_active_iff twoThreads bothRunning _ _ twoThreads_started bothRunning_run 1 1 false _
    (.snapshot _ _ 1 1 603 false _ rfl (.inl rfl) rfl) 0 602 rfl (by decide)).mpr rfl

/-- The second thread takes a snapshot while the first has its id, but does not show it. -/
def firstUnseen : Server :=
  ((twoThreads.assign 0).assign 1).setThread 1 (threadTransactionStart (twoThreads.thread 1) 603) (.running 603)

/-- The snapshot has limit 604 and an empty list, so 602 counts as ended. -/
theorem not_all_snapshots_cover :
    ¬ ∀ s₀ s s' events me owner serializable taken i x, Started s₀ → Run Step s₀ events s →
      Step s (.snapshot me owner serializable taken) s' → Holds s i x → i ≠ owner →
        transactionIdActiveDuringSnapshot taken x := by
  intro h
  have r : Run Step twoThreads [.assign 0, .assign 1, .publish 1] firstUnseen :=
    .cons (.assign _ 0 (by decide) rfl (.inl rfl))
      (.cons (.assign _ 1 (by decide) rfl (.inl rfl)) (.cons (.publish _ 1 603 rfl) (.nil _)))
  have hactive := h twoThreads firstUnseen _ _ 1 1 false { xmin := 603, xmax := 604, xip := [] } 0 602
    twoThreads_started r (.snapshot _ _ 1 1 603 false _ rfl (.inl rfl) rfl) rfl (by decide)
  exact absurd hactive (by decide)

end WeaverDB.Snapshot
