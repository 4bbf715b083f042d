import WeaverDB.Snapshot.Isolation
import WeaverDB.TransLog.Startup

/-! # Which transactions count as crashed

`TransactionIdDidCrash` takes an id without a final status for crashed when it lies below the checkpoint
id or no thread shows it. Start-up sets the checkpoint to the id up to which the variable relation has
been taken, and each snapshot moves it to the oldest id the threads show.
-/

namespace WeaverDB.Snapshot
open Foundations TransLog

def Event.isSnapshot : Event → Bool
  | .snapshot .. => true
  | _ => false

/-- No snapshot is computed between a `GetNewTransactionId` and its `ThreadTransactionStart`, and ids
are not exhausted. -/
def Orderly (s : Server) : Event → Prop
  | .assign _ => RoomLeft s.ids
  | .snapshot .. => ∀ i x, s.phase i ≠ .assigned x
  | _ => True

variable {s s' : Server} {x : TransactionId} {events : List Event}

theorem roomy_of_orderly {e : Event} (h : Orderly s e) : Roomy s e := by
  cases e with
  | assign i => exact h
  | _ => trivial

structure Covered (s : Server) : Prop where
  held : ∀ i x, Holds s i x → s.ids.shmem.xidCheckpoint ≤ x
  next : s.ids.shmem.xidCheckpoint ≤ s.ids.shmem.nextXid

theorem Covered.setThread (h : Covered s) (i : Nat) (th : Thread) (p : Phase)
    (hold : ∀ x, p.xid = some x → Holds s i x) : Covered (s.setThread i th p) where
  held := by
    intro j x hx
    rw [holds_setThread] at hx
    split at hx
    · exact h.held i x (hold x hx)
    · exact h.held j x hx
  next := h.next

theorem assign_covered (i : Nat) (hinv : Invariant s) (hroom : RoomLeft s.ids) (h : Covered s) :
    Covered (s.assign i) := by
  have hnew := getNewTransactionId_new hinv.counter hroom
  refine ⟨?_, ?_⟩
  · intro j x hx
    show (getNewTransactionId s.ids).2.shmem.xidCheckpoint ≤ x
    rw [hnew.checkpoint]
    obtain ⟨-, rfl⟩ | ⟨-, hold⟩ := holds_assign hx
    · exact BitVec.le_trans h.next hnew.above
    · exact h.held j x hold
  · show (getNewTransactionId s.ids).2.shmem.xidCheckpoint ≤ _
    rw [hnew.checkpoint]
    exact BitVec.le_trans h.next hnew.next_le

theorem snapshot_covered {me owner : Nat} {serializable : Bool} {taken : SnapshotData}
    (h : Invariant s) (horderly : ∀ i y, s.phase i ≠ .assigned y) (howner : Holds s owner x)
    (hsv : Surveyed s me x serializable taken s') : Covered s' := by
  obtain ⟨checkpoint, hids, hle⟩ := hsv.ids
  have hcp : s'.ids.shmem.xidCheckpoint = checkpoint := hids ▸ rfl
  have hbelow := survey_checkpoint_le s.thread me x s.maxBackends
  refine ⟨?_, ?_⟩
  · intro j y hy
    rw [Holds, hsv.phase] at hy
    have hpub : (s.phase j).published := by
      cases hp : s.phase j with
      | idle => rw [hp] at hy; cases hy
      | assigned z => exact absurd hp (horderly j z)
      | running z => rfl
      | committing z => rfl
      | recorded z => rfl
    have hshown := h.shown j y hy hpub
    rw [hcp]
    exact BitVec.le_trans hle (BitVec.le_trans (hbelow.2 j (h.held j y hy).2.2 hshown.xmin.1) hshown.xmin.2)
  · have hnext : s'.ids.shmem.nextXid = s.ids.shmem.nextXid := hids ▸ rfl
    rw [hcp, hnext]
    exact BitVec.le_trans hle (BitVec.le_trans hbelow.1 (BitVec.le_of_lt (h.held owner x howner).2.1))

section

variable (s : Server) (e : Event) (s' : Server)

theorem step_covered (hinv : Invariant s)
    (hs : Guarded Step Orderly s e s') (h : Covered s ∨ e.isSnapshot) : Covered s' := by
  obtain ⟨horderly, hs⟩ := hs
  cases hs with
  | snapshot _ me owner x serializable taken howner hme hok =>
    exact snapshot_covered hinv horderly (holds_of_phase howner rfl) (getSnapshotData_surveyed hok)
  | assign i hi hidle htype => exact assign_covered i hinv horderly (h.resolve_right nofun)
  | publish i x hp =>
    refine (h.resolve_right nofun).setThread i _ (.running x) ?_
    intro y hy
    exact holds_of_phase hp hy
  | finish i x hp =>
    refine (h.resolve_right nofun).setThread i _ (.committing x) ?_
    intro y hy
    exact holds_of_phase hp hy
  | softCommit i x hp =>
    have hc := h.resolve_right nofun
    refine Covered.setThread (s := s.record x .softCommit) ⟨hc.held, hc.next⟩ i _ (.recorded x) ?_
    intro y hy
    show (s.phase i).xid = some y
    rw [← Option.some.inj hy, hp]
    rfl
  | hardCommit x _ =>
    have hc := h.resolve_right nofun
    exact ⟨hc.held, hc.next⟩
  | abort i x hp =>
    have hc := h.resolve_right nofun
    refine Covered.setThread (s := s.record x .abort) ⟨hc.held, hc.next⟩ i _ (.recorded x) ?_
    intro y hy
    show (s.phase i).xid = some y
    rw [← Option.some.inj hy, hp]
    rfl
  | reset i _ =>
    refine (h.resolve_right nofun).setThread i _ .idle ?_
    intro y hy
    cases hy

theorem step_checkpoint (hinv : Invariant s) (hs : Guarded Step Orderly s e s')
    (h : e.isSnapshot = false) : s'.ids.shmem.xidCheckpoint = s.ids.shmem.xidCheckpoint := by
  obtain ⟨horderly, hs⟩ := hs
  cases hs with
  | snapshot _ me owner x serializable taken howner hme hok => cases h
  | assign i hi hidle htype => exact (getNewTransactionId_new hinv.counter horderly).checkpoint
  | publish i x hp => rfl
  | finish i x hp => rfl
  | softCommit i x hp => rfl
  | hardCommit x _ => rfl
  | abort i x hp => rfl
  | reset i _ => rfl

theorem orderly_step_invariant (h : Invariant s) (hs : Guarded Step Orderly s e s') : Invariant s' :=
  step_invariant s e s' h ⟨roomy_of_orderly hs.1, hs.2⟩

end

theorem run_covered (r : Run (Guarded Step Orderly) s events s') (hinv : Invariant s)
    (h : Covered s ∨ events.any Event.isSnapshot) : Covered s' := by
  induction r with
  | nil => exact h.resolve_right (by decide)
  | @cons s u _ e events hs _ ih =>
    have hinv' := orderly_step_invariant s e u hinv hs
    rw [List.any_cons, Bool.or_eq_true, ← or_assoc] at h
    obtain hnow | hlater := h
    · exact ih hinv' (.inl (step_covered s e u hinv hs hnow))
    · exact ih hinv' (.inr hlater)

theorem run_checkpoint (r : Run (Guarded Step Orderly) s events s') (hinv : Invariant s)
    (h : events.any Event.isSnapshot = false) :
    s'.ids.shmem.xidCheckpoint = s.ids.shmem.xidCheckpoint := by
  induction r with
  | nil => rfl
  | @cons s u _ e events hs _ ih =>
    rw [List.any_cons, Bool.or_eq_false_iff] at h
    rw [ih (orderly_step_invariant s e u hinv hs) h.2]
    exact step_checkpoint s e u hinv hs h.1

theorem inProgress_iff_published (h : Invariant s) {i : Nat} (hx : Holds s i x) :
    transactionIdIsInProgress s x ↔ (s.phase i).published := by
  obtain ⟨h0, -, hmax⟩ := h.held i x hx
  rw [transactionIdIsInProgress, List.any_eq_true]
  constructor
  · rintro ⟨j, -, hj⟩
    have hxid : (s.thread j).xid = x := eq_of_beq hj
    obtain ⟨hholds, hpub⟩ := h.of_xid (by rw [hxid]; exact h0)
    rw [hxid] at hholds
    rw [h.unique i j x hx hholds]
    exact hpub
  · intro hpub
    refine ⟨i, List.mem_range.mpr hmax, ?_⟩
    rw [(h.shown i x hx hpub).xid]
    exact beq_self_eq_true x

theorem didCrash_eq_false_iff (h : Invariant s) {i : Nat} (hx : Holds s i x)
    (hopen : s.log x = .inprogress) : transactionIdDidCrash s x = false ↔
      (s.phase i).published ∧ s.ids.shmem.xidCheckpoint ≤ x := by
  have htest : statusTest s.log .inprogress x := by
    rw [statusTest, if_neg (h.held i x hx).1, hopen]
    rfl
  rw [← inProgress_iff_published h hx, transactionIdDidCrash, htest, transactionIdBeforeCheckpoint, ← BitVec.not_lt]
  by_cases hlt : x < s.ids.shmem.xidCheckpoint <;> simp [hlt]

/-- **Crashed transactions.** An open transaction is not taken for crashed exactly if its thread
shows the id, and a snapshot was computed or the id is not below the checkpoint. -/
theorem running_not_crashed_iff (s₀ s : Server) (events : List Event) (h₀ : Started s₀)
    (r : Run (Guarded Step Orderly) s₀ events s) (i : Nat) (x : TransactionId) (hx : Holds s i x)
    (hopen : s.log x = .inprogress) :
    transactionIdDidCrash s x = false ↔ (s.phase i).published ∧
        (events.any Event.isSnapshot ∨ s₀.ids.shmem.xidCheckpoint ≤ x) := by
  have hinv : Invariant s := r.preserves Invariant orderly_step_invariant h₀.invariant
  rw [didCrash_eq_false_iff hinv hx hopen]
  cases hsnap : events.any Event.isSnapshot with
  | true =>
    have hcov := (run_covered r h₀.invariant (.inr hsnap)).held i x hx
    simp [hcov]
  | false =>
    rw [run_checkpoint r h₀.invariant hsnap]
    simp

def surveyedThenBoth : Server :=
  (({ firstRunning with ids := setCheckpointId firstRunning.ids 602 } : Server).assign 1).setThread 1
    (threadTransactionStart (twoThreads.thread 1) 603) (.running 603)

theorem running_not_crashed_iff_surveyed : transactionIdDidCrash surveyedThenBoth 602 = false := by
  have hroom : ∀ s : Server, s.ids.var.nextXidData = 608 → s.ids.xidPrefetch = 8192 → RoomLeft s.ids := by
    intro s hd hp
    rw [RoomLeft, hd, hp]
    decide
  have hall : ∀ i x, firstRunning.phase i ≠ .assigned x := by
    intro i x
    by_cases hi : i = 0
    · subst hi
      exact fun h => Phase.noConfusion h
    · have hidle : firstRunning.phase i = .idle := by
        simp [firstRunning, Server.setThread, Server.assign, twoThreads, hi]
      rw [hidle]
      exact fun h => Phase.noConfusion h
  have r : Run (Guarded Step Orderly) twoThreads
      [.assign 0, .publish 0, .snapshot 0 0 false { xmin := 602, xmax := 603, xip := [] },
        .assign 1, .publish 1] surveyedThenBoth :=
    .guarded_cons (.assign _ 0 (by decide) rfl (.inl rfl)) (hroom _ rfl rfl)
      (.guarded_cons (.publish _ 0 602 rfl) trivial
        (.guarded_cons (.snapshot _ _ 0 0 602 false _ rfl (.inl rfl) rfl) hall
          (.guarded_cons (.assign _ 1 (by decide) rfl (.inl rfl)) (hroom _ rfl rfl)
            (.guarded_cons (.publish _ 1 603 rfl) trivial (.nil _)))))
  exact (running_not_crashed_iff twoThreads surveyedThenBoth _ twoThreads_started r 0 602 rfl
    rfl).mpr ⟨rfl, .inl rfl⟩

structure AfterStartup (s : Server) : Prop where
  started : Started s
  startup : ∃ cfg dids, ∃ d : Disk,
    (initializeTransactionLog cfg dids d.boot .fresh).map Transam.toVariables = .ok s.ids

def quietDisk : Disk where
  var :=
    { nextXidData := 600
      baseline := 514
      checkpoint := 600
      databases := [{ init := true, database := 1, lowwater := 514 }] }
  file := [transBlockSetXidStatus Page.blank amiTransactionId .commit]
  newPage := Page.blank
  nonempty := by decide
  numbered := by decide
  initialised := fun _ => by decide

theorem twoThreads_afterStartup : AfterStartup twoThreads where
  started := twoThreads_started
  startup := ⟨{ isMultiuser := true, databaseId := 1, transactionPrefetch := none }, [1], quietDisk, by decide +kernel⟩

/-- The first transaction after start-up has an id below the checkpoint 608. -/
theorem not_all_running_uncrashed : ¬ ∀ s₀ s events i x, AfterStartup s₀ → Run Step s₀ events s → Holds s i x →
      s.log x = .inprogress → transactionIdDidCrash s x = false := by
  intro h
  have r : Run Step twoThreads [.assign 0, .publish 0] firstRunning :=
    .cons (.assign _ 0 (by decide) rfl (.inl rfl)) (.cons (.publish _ 0 602 rfl) (.nil _))
  have hfalse := h twoThreads firstRunning _ 0 602 twoThreads_afterStartup r rfl rfl
  exact absurd hfalse (by decide)

end WeaverDB.Snapshot
