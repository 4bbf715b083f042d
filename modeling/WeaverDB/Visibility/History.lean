import WeaverDB.Snapshot.Crash

/-! # Histories of the statuses of transactions

What time qualification depends on: the status of each id, which ids are running, which ones some thread
shows, the checkpoint and the next id. `Moves` says how one moment follows another, and each step of the
server is such a move.
-/

namespace WeaverDB.Visibility
open Foundations TransLog Snapshot

/-! ## Moments -/

/-- A running transaction has its id and no status, and only ids handed out get one. -/
structure Moment where
  log : StatusLog
  running : TransactionId → Prop
  shown : TransactionId → Bool
  checkpoint : TransactionId
  next : TransactionId
  open_of_running : ∀ x, running x → x ≠ 0 ∧ x < next ∧ log x = .inprogress
  running_of_shown : ∀ x ≠ 0, shown x → log x = .inprogress → running x
  known_of_final : ∀ x, log x ≠ .inprogress → x < next

def Moment.didCrash (m : Moment) (x : TransactionId) : Bool :=
  statusTest m.log .inprogress x && (decide (x < m.checkpoint) || !m.shown x) && statusTest m.log .inprogress x

theorem Moment.didCrash_of_gone (m : Moment) (x : TransactionId) (h0 : x ≠ 0)
    (hlog : m.log x = .inprogress) (hgone : ¬ m.running x) : m.didCrash x := by
  have htest : statusTest m.log .inprogress x := by
    rw [statusTest, if_neg h0, hlog]
    rfl
  have hshown : m.shown x = false := by
    by_contra hs
    rw [Bool.not_eq_false] at hs
    exact hgone (m.running_of_shown x h0 hs hlog)
  simp [Moment.didCrash, htest, hshown]

theorem Moment.open_of_didCrash (m : Moment) (x : TransactionId) (h : m.didCrash x) :
    x ≠ 0 ∧ m.log x = .inprogress := by
  have htest : statusTest m.log .inprogress x := by
    unfold Moment.didCrash at h
    rw [Bool.and_eq_true] at h
    exact h.2
  unfold statusTest at htest
  split_ifs at htest with h0
  · cases htest
  · refine ⟨h0, ?_⟩
    revert htest
    cases m.log x <;> decide

/-- Only a running transaction commits; a crash aborts or loses what has not for good. -/
inductive StatusMove (running : Prop) : XidStatus → XidStatus → Prop where
  | stay (s : XidStatus) : StatusMove running s s
  | commit (h : running) : StatusMove running .inprogress .softCommit
  | commitCareful (h : running) : StatusMove running .inprogress .commit
  | abort : StatusMove running .inprogress .abort
  | harden : StatusMove running .softCommit .commit
  | crash : StatusMove running .softCommit .abort
  | forget (s : XidStatus) (h : s ≠ .commit) : StatusMove running s .inprogress

structure Moves (m m' : Moment) : Prop where
  next : m.next ≤ m'.next
  ended : ∀ x < m.next, m'.running x → m.running x
  status : ∀ x, StatusMove (m.running x) (m.log x) (m'.log x)

/-! ## Final statuses -/

theorem Moves.commit {m m' : Moment} (h : Moves m m') (x : TransactionId)
    (hc : m.log x = .commit) : m'.log x = .commit := by
  have hmove := h.status x
  rw [hc] at hmove
  generalize m'.log x = s at hmove
  cases hmove with
  | stay => rfl
  | forget _ hne => exact absurd rfl hne

structure Moment.Gone (m : Moment) (x : TransactionId) : Prop where
  known : x < m.next
  ended : ¬ m.running x
  lost : m.log x = .abort ∨ m.log x = .inprogress

theorem Moves.gone {m m' : Moment} (h : Moves m m') {x : TransactionId} (hx : m.Gone x) : m'.Gone x := by
  have hmove := h.status x
  refine ⟨Nat.lt_of_lt_of_le hx.known h.next, fun hr => hx.ended (h.ended x hx.known hr), ?_⟩
  obtain hl | hl := hx.lost
  · rw [hl] at hmove
    generalize m'.log x = s at hmove
    cases hmove with
    | stay => exact .inl rfl
    | forget => exact .inr rfl
  · rw [hl] at hmove
    generalize m'.log x = s at hmove
    cases hmove with
    | stay => exact .inr rfl
    | commit hr => exact absurd hr hx.ended
    | commitCareful hr => exact absurd hr hx.ended
    | abort => exact .inl rfl
    | forget => exact .inr rfl

/-! ## The server's moments -/

structure Logged (s : Server) : Prop where
  fresh : ∀ x, s.ids.shmem.nextXid ≤ x → s.log x = .inprogress
  unrecorded : ∀ i x, s.phase i = .assigned x ∨ s.phase i = .running x → s.log x = .inprogress
  committing : ∀ i x, s.phase i = .committing x → s.log x = .inprogress ∨ s.log x = .commit

structure Lawful (s : Server) : Prop where
  invariant : Invariant s
  logged : Logged s

def Unsettled (s : Server) (x : TransactionId) : Prop := (∃ i, Holds s i x) ∧ s.log x = .inprogress

def momentOf (s : Server) (h : Lawful s) : Moment where
  log := s.log
  running := Unsettled s
  shown := transactionIdIsInProgress s
  checkpoint := s.ids.shmem.xidCheckpoint
  next := s.ids.shmem.nextXid
  open_of_running := by
    rintro x ⟨⟨i, hi⟩, hlog⟩
    exact ⟨(h.invariant.held i x hi).1, (h.invariant.held i x hi).2.1, hlog⟩
  running_of_shown := by
    intro x h0 hs hlog
    rw [transactionIdIsInProgress, List.any_eq_true] at hs
    obtain ⟨j, -, hj⟩ := hs
    have hxid : (s.thread j).xid = x := eq_of_beq hj
    have hholds := (h.invariant.of_xid (by rw [hxid]; exact h0)).1
    rw [hxid] at hholds
    exact ⟨⟨j, hholds⟩, hlog⟩
  known_of_final := by
    intro x hlog
    by_contra hx
    exact hlog (h.logged.fresh x (BitVec.not_lt.mp hx))

theorem record_log (s : Server) (x : TransactionId) (xstatus : XidStatus) (y : TransactionId) :
    (s.record x xstatus).log y = if y = x then (s.log x).stamp xstatus else s.log y :=
  Function.update_apply ..

theorem Logged.setThread {s : Server} (h : Logged s) (i : Nat) (th : Thread) (p : Phase)
    (hunrec : ∀ x, p = .assigned x ∨ p = .running x → s.log x = .inprogress)
    (hcomm : ∀ x, p = .committing x → s.log x = .inprogress ∨ s.log x = .commit) :
    Logged (s.setThread i th p) where
  fresh := h.fresh
  unrecorded := by
    intro j x hj
    rw [setThread_phase] at hj
    split at hj
    · exact hunrec x hj
    · exact h.unrecorded j x hj
  committing := by
    intro j x hj
    rw [setThread_phase] at hj
    split at hj
    · exact hcomm x hj
    · exact h.committing j x hj

variable {s s' : Server} {i : Nat} {x : TransactionId} {xstatus : XidStatus} {e : Event} (h : Lawful s)

theorem setThread_moves {th : Thread} {p : Phase} (h' : Lawful (s.setThread i th p))
    (hold : ∀ x, p.xid = some x → Holds s i x) :
    Moves (momentOf s h) (momentOf (s.setThread i th p) h') where
  next := BitVec.le_refl _
  ended := by
    rintro x - ⟨⟨j, hj⟩, hlog⟩
    rw [holds_setThread] at hj
    split at hj
    · exact ⟨⟨i, hold x hj⟩, hlog⟩
    · exact ⟨⟨j, hj⟩, hlog⟩
  status := fun x => .stay _

theorem recorded_holds (s : Server) (i : Nat) (x : TransactionId) (xstatus : XidStatus)
    (hx : Holds s i x) (j : Nat) (y : TransactionId)
    (hj : Holds ((s.record x xstatus).setThread i (s.thread i) (.recorded x)) j y) : Holds s j y := by
  rw [holds_setThread] at hj
  split_ifs at hj with hji
  · rw [hji, ← Option.some.inj hj]
    exact hx
  · exact hj

theorem record_moves (h' : Lawful s') (hids : s'.ids = s.ids)
    (hlog : s'.log = (s.record x xstatus).log) (hholds : ∀ j y, Holds s' j y → Holds s j y)
    (hfinal : (s.log x).stamp xstatus ≠ .inprogress)
    (hmove : StatusMove (Unsettled s x) (s.log x) ((s.log x).stamp xstatus)) :
    Moves (momentOf s h) (momentOf s' h') where
  next := by
    show s.ids.shmem.nextXid ≤ s'.ids.shmem.nextXid
    rw [hids]
    exact BitVec.le_refl _
  ended := by
    rintro y - ⟨⟨j, hj⟩, hopen⟩
    rw [hlog, record_log] at hopen
    split at hopen
    · exact absurd hopen hfinal
    · exact ⟨⟨j, hholds j y hj⟩, hopen⟩
  status := by
    intro y
    show StatusMove (Unsettled s y) (s.log y) (s'.log y)
    rw [hlog, record_log]
    split_ifs with hyx
    · rw [hyx]
      exact hmove
    · exact .stay _

theorem recorded_logged (xstatus : XidStatus) (hinv : Invariant s) (h : Logged s) (hx : Holds s i x) :
    Logged ((s.record x xstatus).setThread i (s.thread i) (.recorded x)) := by
  have hother : ∀ j p, j ≠ i → s.phase j = p → p.xid ≠ some x := by
    intro j p hj hp hxid
    exact hj (hinv.unique j i x (holds_of_phase hp hxid) hx)
  have hkeep : ∀ y, y ≠ x → ((s.record x xstatus).setThread i (s.thread i) (.recorded x)).log y = s.log y := by
    intro y hy
    show (s.record x xstatus).log y = s.log y
    rw [record_log, if_neg hy]
  refine ⟨?_, ?_, ?_⟩
  · intro y hy
    have hlt := (hinv.held i x hx).2.1
    rw [hkeep y fun e => BitVec.not_lt.mpr hy (e ▸ hlt)]
    exact h.fresh y hy
  · intro j y hj
    rw [setThread_phase] at hj
    split_ifs at hj with hji
    · rcases hj with e | e <;> cases e
    · rw [hkeep y ?_]
      · exact h.unrecorded j y hj
      · rintro rfl
        rcases hj with e | e <;> exact hother j _ hji e rfl
  · intro j y hj
    rw [setThread_phase] at hj
    split at hj
    · cases hj
    · rename_i hji
      rw [hkeep y ?_]
      · exact h.committing j y hj
      · rintro rfl
        exact hother j _ hji hj rfl

theorem assign_logged (i : Nat) (hinv : Invariant s) (hroom : RoomLeft s.ids) (h : Logged s) : Logged (s.assign i) := by
  have hnew := getNewTransactionId_new hinv.counter hroom
  refine ⟨?_, ?_, ?_⟩
  · exact fun y hy => h.fresh y (BitVec.le_trans hnew.next_le hy)
  · intro j y hj
    rw [assign_phase] at hj
    split at hj
    · obtain e | e := hj
      · rw [← Phase.assigned.inj e]
        exact h.fresh _ hnew.above
      · cases e
    · exact h.unrecorded j y hj
  · intro j y hj
    rw [assign_phase] at hj
    split at hj
    · cases hj
    · exact h.committing j y hj

theorem hardCommit_logged (hinv : Invariant s) (h : Logged s)
    (hx : (∃ i, s.phase i = .committing x) ∨ s.log x = .softCommit) :
    Logged (s.record x .commit) := by
  have hlog : ∀ y, (s.record x .commit).log y = if y = x then .commit else s.log y := by
    intro y
    rw [record_log]
    cases s.log x <;> rfl
  refine ⟨?_, ?_, ?_⟩
  · intro y hy
    have hyx : y ≠ x := by
      rintro rfl
      obtain ⟨i, hi⟩ | hsoft := hx
      · have hlt := (hinv.held i y (holds_of_phase hi rfl)).2.1
        exact absurd hy (BitVec.not_le.mpr hlt)
      · rw [h.fresh y hy] at hsoft
        cases hsoft
    rw [hlog, if_neg hyx]
    exact h.fresh y hy
  · intro j y hj
    change s.phase j = .assigned y ∨ s.phase j = .running y at hj
    have hopen := h.unrecorded j y hj
    have hyx : y ≠ x := by
      rintro rfl
      obtain ⟨i, hi⟩ | hsoft := hx
      · have hji : j = i := by
          refine hinv.unique j i y ?_ (holds_of_phase hi rfl)
          rcases hj with e | e <;> exact holds_of_phase e rfl
        rw [hji, hi] at hj
        rcases hj with e | e <;> cases e
      · rw [hopen] at hsoft
        cases hsoft
    rw [hlog, if_neg hyx]
    exact hopen
  · intro j y hj
    rw [hlog]
    split
    · exact .inr rfl
    · exact h.committing j y hj

theorem snapshot_logged {me : Nat} {serializable : Bool} {taken : SnapshotData} (h : Logged s)
    (hsv : Surveyed s me x serializable taken s') : Logged s' := by
  obtain ⟨checkpoint, hids, -⟩ := hsv.ids
  refine ⟨?_, ?_, ?_⟩
  · intro y hy
    rw [hids] at hy
    rw [hsv.log]
    exact h.fresh y hy
  · intro j y hj
    rw [hsv.phase] at hj
    rw [hsv.log]
    exact h.unrecorded j y hj
  · intro j y hj
    rw [hsv.phase] at hj
    rw [hsv.log]
    exact h.committing j y hj

theorem step_logged (hinv : Invariant s) (h : Logged s) (hs : Guarded Step Roomy s e s') : Logged s' := by
  obtain ⟨hroom, hs⟩ := hs
  cases hs with
  | assign i hi hidle htype => exact assign_logged i hinv hroom h
  | publish i x hp =>
    refine h.setThread i _ (.running x) ?_ ?_
    · intro y hy
      obtain e | e := hy
      · cases e
      · rw [← Phase.running.inj e]
        exact h.unrecorded i x (.inl hp)
    · intro y hy
      cases hy
  | snapshot _ me owner x serializable taken howner hme hok =>
    exact snapshot_logged h (getSnapshotData_surveyed hok)
  | finish i x hp =>
    refine h.setThread i _ (.committing x) ?_ ?_
    · intro y hy
      rcases hy with e | e <;> cases e
    · intro y hy
      rw [← Phase.committing.inj hy]
      exact .inl (h.unrecorded i x (.inr hp))
  | softCommit i x hp => exact recorded_logged .softCommit hinv h (holds_of_phase hp rfl)
  | hardCommit x hx => exact hardCommit_logged hinv h hx
  | abort i x hp => exact recorded_logged .abort hinv h (holds_of_phase hp rfl)
  | reset i hp =>
    refine h.setThread i _ .idle ?_ ?_
    · intro y hy
      rcases hy with e | e <;> cases e
    · intro y hy
      cases hy

theorem assign_moves (hroom : RoomLeft s.ids) (h' : Lawful (s.assign i)) :
    Moves (momentOf s h) (momentOf (s.assign i) h') := by
  have hnew := getNewTransactionId_new h.invariant.counter hroom
  refine ⟨hnew.next_le, ?_, fun x => .stay _⟩
  rintro x hlt ⟨⟨j, hj⟩, hopen⟩
  obtain ⟨-, rfl⟩ | ⟨-, hold⟩ := holds_assign hj
  · exact absurd hnew.above (BitVec.not_le.mpr hlt)
  · exact ⟨⟨j, hold⟩, hopen⟩

theorem snapshot_moves {me : Nat} {serializable : Bool} {taken : SnapshotData}
    (h' : Lawful s') (hsv : Surveyed s me x serializable taken s') :
    Moves (momentOf s h) (momentOf s' h') := by
  obtain ⟨checkpoint, hids, -⟩ := hsv.ids
  refine ⟨?_, ?_, ?_⟩
  · show s.ids.shmem.nextXid ≤ s'.ids.shmem.nextXid
    rw [hids]
    exact BitVec.le_refl _
  · rintro y - ⟨⟨j, hj⟩, hopen⟩
    rw [Holds, hsv.phase] at hj
    rw [hsv.log] at hopen
    exact ⟨⟨j, hj⟩, hopen⟩
  · intro y
    show StatusMove _ (s.log y) (s'.log y)
    rw [hsv.log]
    exact .stay _

theorem softCommit_moves (hp : s.phase i = .committing x) (h : Lawful s)
    (h' : Lawful ((s.record x .softCommit).setThread i (s.thread i) (.recorded x))) :
    Moves (momentOf s h) (momentOf _ h') := by
  have hx : Holds s i x := holds_of_phase hp rfl
  refine record_moves h h' rfl rfl (recorded_holds s i x .softCommit hx) ?_ ?_
  · rcases h.logged.committing i x hp with e | e <;> (rw [e]; decide)
  · obtain e | e := h.logged.committing i x hp
    · have hopen : Unsettled s x := ⟨⟨i, hx⟩, e⟩
      rw [e]
      exact .commit hopen
    · rw [e]
      exact .stay _

theorem hardCommit_moves (hx : (∃ i, s.phase i = .committing x) ∨ s.log x = .softCommit)
    (h : Lawful s) (h' : Lawful (s.record x .commit)) : Moves (momentOf s h) (momentOf _ h') := by
  refine record_moves h h' rfl rfl (fun _ _ hj => hj) ?_ ?_
  · cases s.log x <;> decide
  · obtain ⟨i, hi⟩ | e := hx
    · obtain e | e := h.logged.committing i x hi
      · have hopen : Unsettled s x := ⟨⟨i, holds_of_phase hi rfl⟩, e⟩
        rw [e]
        exact .commitCareful hopen
      · rw [e]
        exact .stay _
    · rw [e]
      exact .harden

theorem step_lawful (h : Lawful s) (hs : Guarded Step Roomy s e s') : Lawful s' :=
  ⟨step_invariant s e s' h.invariant hs, step_logged h.invariant h.logged hs⟩

theorem step_moves (hs : Guarded Step Roomy s e s') : Moves (momentOf s h) (momentOf s' (step_lawful h hs)) := by
  have h' := step_lawful h hs
  obtain ⟨hroom, hs⟩ := hs
  cases hs with
  | assign i hi hidle htype => exact assign_moves h hroom h'
  | publish i x hp =>
    exact setThread_moves h h' fun y hy => holds_of_phase hp hy
  | snapshot _ me owner x serializable taken howner hme hok =>
    exact snapshot_moves h h' (getSnapshotData_surveyed hok)
  | finish i x hp =>
    exact setThread_moves h h' fun y hy => holds_of_phase hp hy
  | softCommit i x hp => exact softCommit_moves hp h h'
  | hardCommit x hx => exact hardCommit_moves hx h h'
  | abort i x hp =>
    have hx : Holds s i x := holds_of_phase hp rfl
    have e := h.logged.unrecorded i x (.inr hp)
    refine record_moves h h' rfl rfl (recorded_holds s i x .abort hx) ?_ ?_
    · rw [e]
      decide
    · rw [e]
      exact .abort
  | reset i hp =>
    refine setThread_moves h h' ?_
    intro y hy
    cases hy

theorem Started.lawful (h : Started s) (hfresh : ∀ x, s.ids.shmem.nextXid ≤ x → s.log x = .inprogress) : Lawful s where
  invariant := h.invariant
  logged := by
    refine ⟨hfresh, ?_, ?_⟩
    · intro i x hi
      rw [h.idle i] at hi
      rcases hi with e | e <;> cases e
    · intro i x hi
      rw [h.idle i] at hi
      cases hi

end WeaverDB.Visibility
