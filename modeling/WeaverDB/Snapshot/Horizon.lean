import WeaverDB.Snapshot.Holders

/-! # The checkpoint as a horizon of the snapshots

What was deleted below the checkpoint id shall be invisible to everybody. A serializable snapshot lowers
the `xmin` of its `THREAD`, and every survey puts the checkpoint below all of these (`Floor`). The
`xmin` of a running transaction guards all its snapshots (`Kept`), as long as the serializable one is
computed first (`Careful`).
-/

namespace WeaverDB.Snapshot
open Foundations TransLog List Function

variable {b b' : Sessions} {me owner j o i k : Nat} {x current y : TransactionId}
  {taken : SnapshotData} {s' s : Server} {serializable : Bool} {env : Env} {e : Event}
  {l : SessionEvent}

/-! ## Bounds of a snapshot -/

def Below (c : TransactionId) (taken : SnapshotData) : Prop :=
  ∀ z, transactionIdActiveDuringSnapshot taken z → c ≤ z

theorem Below.mono {c c' : TransactionId} (h : Below c taken) (hle : c' ≤ c) : Below c' taken :=
  fun z hz => BitVec.le_trans hle (h z hz)

theorem active_cases (hinv : Invariant s) (hsv : Surveyed s me current serializable taken s')
    (z : TransactionId) (hz : transactionIdActiveDuringSnapshot taken z) :
    s.ids.shmem.nextXid ≤ z ∨ (taken.xmin ≤ z ∧ ∃ i, Holds s i z) := by
  rw [hsv.taken, transactionIdActiveDuringSnapshot] at hz
  split at hz
  · rename_i hle
    exact .inl hle
  split at hz
  · rename_i hle
    rw [any_eq_true] at hz
    obtain ⟨y, hmem, hy⟩ := hz
    obtain ⟨i, -, hl, hxid⟩ := (mem_survey_xip s.thread me current s.maxBackends y).mp hmem
    rw [eq_of_beq hy]
    refine .inr ⟨?_, i, ?_⟩
    · rw [hsv.taken, ← eq_of_beq hy]
      exact hle
    · rw [← hxid]
      exact (hinv.of_listed hl).1
  · cases hz

theorem below_of_held (hinv : Invariant s) (hsv : Surveyed s me current serializable taken s')
    (c : TransactionId) (hheld : ∀ i z, Holds s i z → c ≤ z) (hnext : c ≤ s.ids.shmem.nextXid) :
    Below c taken := by
  intro z hz
  obtain hle | ⟨-, i, hi⟩ := active_cases hinv hsv z hz
  · exact BitVec.le_trans hnext hle
  · exact hheld i z hi

theorem getSnapshotData_plain_thread (hok : getSnapshotData s me current false = .ok (taken, s')) :
    s'.thread = s.thread := by
  unfold getSnapshotData at hok
  split at hok
  · cases hok
  · obtain ⟨-, rfl⟩ := Prod.mk.inj (Except.ok.inj hok)
    rfl

theorem getSnapshotData_serializable_thread (hok : getSnapshotData s me current true = .ok (taken, s')) :
    s'.thread = Function.update s.thread me { s.thread me with xmin := taken.xmin } := by
  unfold getSnapshotData at hok
  split at hok
  · cases hok
  · cases hok
    rfl

theorem xmin_le_held (hinv : Invariant s) (hsv : Surveyed s me current serializable taken s')
    (horderly : ∀ i y, s.phase i ≠ .assigned y) (howner : s.phase owner = .running current)
    (hme : me = owner ∨ s.phase me = .idle) (i : Nat) (z : TransactionId) (hz : Holds s i z) :
    taken.xmin ≤ z := by
  have hle := survey_xmin_le s.thread me current s.maxBackends
  rw [hsv.taken]
  by_cases hi : i = me
  · have hio : i = owner := by
      obtain e | hidle := hme
      · exact hi.trans e
      · rw [hi, Holds, hidle] at hz
        cases hz
    have hzc : z = current := by
      rw [hio, Holds, howner] at hz
      exact (Option.some.inj hz).symm
    rw [hzc]
    exact hle.1
  · have hpub : (s.phase i).published := by
      cases hp : s.phase i with
      | idle => rw [Holds, hp] at hz; cases hz
      | assigned y => exact absurd hp (horderly i y)
      | running y => rfl
      | committing y => rfl
      | recorded y => rfl
    have hshown := hinv.shown i z hz hpub
    rw [← hshown.xid]
    exact hle.2 i (hinv.held i z hz).2.2 ⟨hshown.listed, hi⟩

/-! ## The floor under the published `xmin` -/

structure Floor (s : Server) : Prop where
  covered : Covered s
  xmin : ∀ k < s.maxBackends, (s.thread k).xmin ≠ 0 → s.ids.shmem.xidCheckpoint ≤ (s.thread k).xmin

theorem Floor.setThread (h : Floor s) (i : Nat) (th : Thread) (p : Phase) (hcov : Covered (s.setThread i th p))
    (hth : th.xmin ≠ 0 → th.xmin = (s.thread i).xmin ∨ Holds s i th.xmin) (hi : i < s.maxBackends) :
    Floor (s.setThread i th p) where
  covered := hcov
  xmin := by
    intro k hk h0
    rw [setThread_thread] at h0 ⊢
    split_ifs at h0 with hki
    · rw [if_pos hki]
      obtain e | hold := hth h0
      · rw [e] at h0 ⊢
        exact h.xmin i hi h0
      · exact h.covered.held i _ hold
    · rw [if_neg hki]
      exact h.xmin k hk h0

theorem snapshot_floor (hinv : Invariant s) (howner : Holds s owner x) (hcov : Covered s')
    (hsv : Surveyed s me x serializable taken s') : Floor s' where
  covered := hcov
  xmin := by
    obtain ⟨checkpoint, hids, hle⟩ := hsv.ids
    have hcp : s'.ids.shmem.xidCheckpoint = checkpoint := hids ▸ rfl
    intro k hk h0
    rw [hsv.maxBackends] at hk
    obtain e | ⟨-, e⟩ := hsv.thread k
    · rw [e] at h0 ⊢
      rw [hcp]
      exact BitVec.le_trans hle ((survey_checkpoint_le s.thread me x s.maxBackends).2 k hk h0)
    · -- The new `xmin` is the id of some running transaction.
      rw [e]
      have hheld : ∀ j y, Holds s j y → s'.ids.shmem.xidCheckpoint ≤ y := by
        intro j y hy
        refine hcov.held j y ?_
        rw [Holds, hsv.phase]
        exact hy
      obtain e' | ⟨j, -, hl, e'⟩ := survey_xmin_mem s.thread me x s.maxBackends
      · show _ ≤ (surveyThreads s.thread me x s.maxBackends).xmin
        rw [e']
        exact hheld owner x howner
      · show _ ≤ (surveyThreads s.thread me x s.maxBackends).xmin
        rw [e']
        exact hheld j _ (hinv.of_listed hl).1

theorem step_floor (hinv : Invariant s) (hs : Guarded Step Orderly s e s') (h : Floor s ∨ e.isSnapshot) : Floor s' := by
  have hcov := step_covered s e s' hinv hs (h.imp_left Floor.covered)
  obtain ⟨horderly, hs⟩ := hs
  have hslot : ∀ i p x, s.phase i = p → p.xid = some x → i < s.maxBackends :=
    fun i p x hp hx => (hinv.held i x (holds_of_phase hp hx)).2.2
  cases hs with
  | snapshot _ me owner x serializable taken howner hme hok =>
    exact snapshot_floor hinv (holds_of_phase howner rfl) hcov (getSnapshotData_surveyed hok)
  | assign i hi hidle htype =>
    have hfloor := h.resolve_right nofun
    refine ⟨hcov, ?_⟩
    intro k hk h0
    show (getNewTransactionId s.ids).2.shmem.xidCheckpoint ≤ _
    rw [(getNewTransactionId_new hinv.counter horderly).checkpoint]
    exact hfloor.xmin k hk h0
  | publish i x hp =>
    exact (h.resolve_right nofun).setThread i _ _ hcov (fun _ => .inr (holds_of_phase hp rfl)) (hslot i _ x hp rfl)
  | finish i x hp =>
    exact (h.resolve_right nofun).setThread i _ _ hcov (fun _ => .inl rfl) (hslot i _ x hp rfl)
  | softCommit i x hp =>
    have hfloor := h.resolve_right nofun
    exact Floor.setThread (s := s.record x .softCommit) ⟨⟨hfloor.covered.held, hfloor.covered.next⟩,
      hfloor.xmin⟩ i _ _ hcov (fun _ => .inl rfl) (hslot i _ x hp rfl)
  | hardCommit x _ => exact ⟨hcov, (h.resolve_right nofun).xmin⟩
  | abort i x hp =>
    have hfloor := h.resolve_right nofun
    exact Floor.setThread (s := s.record x .abort) ⟨⟨hfloor.covered.held, hfloor.covered.next⟩,
      hfloor.xmin⟩ i _ _ hcov (fun _ => .inl rfl) (hslot i _ x hp rfl)
  | reset i hp =>
    refine (h.resolve_right nofun).setThread i _ _ hcov (fun h0 => absurd rfl h0) ?_
    exact (hinv.held i _ (hinv.of_published hp)).2.2

theorem run_floor {events : List Event} (r : Run (Guarded Step Orderly) s events s') (hinv : Invariant s)
    (h : Floor s ∨ events.any Event.isSnapshot) : Floor s' := by
  induction r with
  | nil => exact h.resolve_right (by decide)
  | @cons s u _ e events hs _ ih =>
    have hinv' := orderly_step_invariant s e u hinv hs
    rw [any_cons, Bool.or_eq_true, ← or_assoc] at h
    obtain hnow | hlater := h
    · exact ih hinv' (.inl (step_floor hinv hs hnow))
    · exact ih hinv' (.inr hlater)

/-! ## Guarded snapshots -/

structure Guards (s : Server) (k : Nat) (taken : SnapshotData) : Prop where
  valid : (s.thread k).xmin ≠ 0
  slot : k < s.maxBackends
  below : Below (s.thread k).xmin taken

structure Anchored (s : Server) (k : Nat) : Prop where
  valid : (s.thread k).xmin ≠ 0
  slot : k < s.maxBackends
  held : ∀ i z, Holds s i z → (s.thread k).xmin ≤ z
  next : (s.thread k).xmin ≤ s.ids.shmem.nextXid

structure Lowered (s s' : Server) (k : Nat) : Prop where
  xmin : (s'.thread k).xmin ≠ 0 ∧ (s'.thread k).xmin ≤ (s.thread k).xmin
  maxBackends : s'.maxBackends = s.maxBackends

structure Onward (s s' : Server) : Prop where
  held : ∀ i z, Holds s' i z → Holds s i z ∨ s.ids.shmem.nextXid ≤ z
  next : s.ids.shmem.nextXid ≤ s'.ids.shmem.nextXid

theorem Onward.assign (hinv : Invariant s) (hroom : RoomLeft s.ids) (i : Nat) : Onward s (s.assign i) := by
  have hnew := getNewTransactionId_new hinv.counter hroom
  refine ⟨fun j z hz => ?_, hnew.next_le⟩
  obtain ⟨-, rfl⟩ | ⟨-, hold⟩ := holds_assign hz
  · exact .inr hnew.above
  · exact .inl hold

theorem Onward.publish (hp : s.phase i = .assigned x) (th : Thread) : Onward s (s.setThread i th (.running x)) := by
  refine ⟨fun j z hz => .inl ?_, BitVec.le_refl _⟩
  rw [holds_setThread] at hz
  split_ifs at hz with hj
  · rw [hj, ← Option.some.inj hz]
    exact holds_of_phase hp rfl
  · exact hz

theorem Surveyed.nextXid (hsv : Surveyed s me current serializable taken s') :
    s'.ids.shmem.nextXid = s.ids.shmem.nextXid := by
  obtain ⟨checkpoint, hids, -⟩ := hsv.ids
  rw [hids]
  rfl

theorem Surveyed.onward (hsv : Surveyed s me current serializable taken s') : Onward s s' where
  held := by
    intro i z hz
    rw [Holds, hsv.phase] at hz
    exact .inl hz
  next := BitVec.le_of_eq hsv.nextXid.symm

theorem Lowered.of_eq (h0 : (s.thread k).xmin ≠ 0)
    (e : s'.thread k = s.thread k) (hmax : s'.maxBackends = s.maxBackends) : Lowered s s' k := by
  refine ⟨?_, hmax⟩
  rw [e]
  exact ⟨h0, BitVec.le_refl _⟩

theorem Guards.lowered (h : Guards s k taken) (hl : Lowered s s' k) : Guards s' k taken :=
  ⟨hl.xmin.1, hl.maxBackends ▸ h.slot, h.below.mono hl.xmin.2⟩

theorem Anchored.lowered (h : Anchored s k) (hl : Lowered s s' k) (hon : Onward s s') : Anchored s' k where
  valid := hl.xmin.1
  slot := hl.maxBackends ▸ h.slot
  held := by
    intro i z hz
    obtain hold | hle := hon.held i z hz
    · exact BitVec.le_trans hl.xmin.2 (h.held i z hold)
    · exact BitVec.le_trans (BitVec.le_trans hl.xmin.2 h.next) hle
  next := BitVec.le_trans (BitVec.le_trans hl.xmin.2 h.next) hon.next

theorem Anchored.guards (h : Anchored s k) (hinv : Invariant s)
    (hsv : Surveyed s me current serializable taken s') : Guards s k taken :=
  ⟨h.valid, h.slot, below_of_held hinv hsv _ h.held h.next⟩

/-- The snapshots of `j`, which works for the transaction of `o`, are guarded by one of the two. -/
structure Sheltered (s : Server) (env : Env) (j o : Nat) : Prop where
  before : env.holder.serializableSnapshot = none → ∀ taken ∈ env.snapshots, Guards s o taken
  after : env.holder.serializableSnapshot ≠ none → (∃ k, (k = j ∨ k = o) ∧ Anchored s k) ∧
      ∀ taken ∈ env.snapshots, ∃ k, (k = j ∨ k = o) ∧ Guards s k taken

theorem Sheltered.guarded (h : Sheltered s env j o) (ht : taken ∈ env.snapshots) :
    ∃ k, (k = j ∨ k = o) ∧ Guards s k taken := by
  by_cases hser : env.holder.serializableSnapshot = none
  · exact ⟨o, .inr rfl, h.before hser taken ht⟩
  · exact (h.after hser).2 taken ht

theorem Sheltered.of_subset {env' : Env} (h : Sheltered s env j o)
    (hser : env'.holder.serializableSnapshot = env.holder.serializableSnapshot)
    (hsub : env'.snapshots ⊆ env.snapshots) : Sheltered s env' j o where
  before := fun hno taken ht => h.before (hser.symm.trans hno) taken (hsub ht)
  after := by
    intro hno
    obtain ⟨hanchor, hall⟩ := h.after fun e => hno (hser.trans e)
    exact ⟨hanchor, fun taken ht => hall taken (hsub ht)⟩

theorem Sheltered.moves (h : Sheltered s env j o)
    (hlow : ∀ k, k = j ∨ k = o → (s.thread k).xmin ≠ 0 → Lowered s s' k) (hon : Onward s s') :
    Sheltered s' env j o where
  before := fun hno taken ht =>
    (h.before hno taken ht).lowered (hlow o (.inr rfl) (h.before hno taken ht).valid)
  after := by
    intro hno
    obtain ⟨⟨k, hk, hanchor⟩, hall⟩ := h.after hno
    refine ⟨⟨k, hk, hanchor.lowered (hlow k hk hanchor.valid) hon⟩, ?_⟩
    intro taken ht
    obtain ⟨k, hk, hguard⟩ := hall taken ht
    exact ⟨k, hk, hguard.lowered (hlow k hk hguard.valid)⟩

structure Kept (b : Sessions) : Prop where
  /-- Between `GetNewTransactionId` and `ThreadTransactionStart` nothing is held. -/
  fresh : ∀ i x, b.server.phase i = .assigned x →
    (b.env i).transaction = none ∧ (b.env i).holder.serializableSnapshot = none ∧ (b.env i).snapshots = []
  dated : ∀ j o x, (b.env j).transaction = some (o, x) →
    x < b.server.ids.shmem.nextXid ∧ b.server.phase o ≠ .assigned x
  child : ∀ j o x, (b.env j).transaction = some (o, x) → j = o ∨ b.server.phase j = .idle
  unset : ∀ o x, WorksFor b o o x → (b.env o).holder.serializableSnapshot = none → (b.server.thread o).xmin = x
  sheltered : ∀ j o x, WorksFor b j o x → Sheltered b.server (b.env j) j o

theorem setEnv_env (b : Sessions) (me : Nat) (env : Env) (j : Nat) :
    (b.setEnv me env).env j = if j = me then env else b.env j :=
  update_apply ..

theorem Kept.setEnv (h : Kept b) (me : Nat) (env : Env) (htrans : env.transaction = (b.env me).transaction)
    (hser : env.holder.serializableSnapshot = (b.env me).holder.serializableSnapshot)
    (hsub : env.snapshots ⊆ (b.env me).snapshots) : Kept (b.setEnv me env) := by
  have hsame : ∀ j, ((b.setEnv me env).env j).transaction = (b.env j).transaction ∧
      ((b.setEnv me env).env j).holder.serializableSnapshot = (b.env j).holder.serializableSnapshot ∧
      ((b.setEnv me env).env j).snapshots ⊆ (b.env j).snapshots := by
    intro j
    rw [setEnv_env]
    split_ifs with hj
    · rw [hj]
      exact ⟨htrans, hser, hsub⟩
    · exact ⟨rfl, rfl, fun _ ht => ht⟩
  have hworks : ∀ j o x, WorksFor (b.setEnv me env) j o x → WorksFor b j o x :=
    fun j o x hw => ⟨(hsame j).1.symm.trans hw.transaction, hw.running, hw.slot, hw.own⟩
  refine
    { fresh := ?_
      dated := fun j o x hx => h.dated j o x ((hsame j).1.symm.trans hx)
      child := fun j o x hx => h.child j o x ((hsame j).1.symm.trans hx)
      unset := fun o x hw hno => h.unset o x (hworks o o x hw) ((hsame o).2.1.symm.trans hno)
      sheltered := fun j o x hw =>
        (h.sheltered j o x (hworks j o x hw)).of_subset (hsame j).2.1 (hsame j).2.2 }
  intro i x hp
  obtain ⟨hnone, hno, hempty⟩ := h.fresh i x hp
  refine ⟨(hsame i).1.trans hnone, (hsame i).2.1.trans hno, subset_nil.mp ?_⟩
  rw [← hempty]
  exact (hsame i).2.2

/-! ## Steps -/

/-- The serializable snapshot comes first, or the transaction is the oldest that runs. -/
def SerializableFirst (b : Sessions) : SessionEvent → Prop
  | .request .user me owner _ =>
    (b.env me).holder.serializableSnapshot ≠ none ∨ ∀ i z, Holds b.server i z → (b.server.thread owner).xmin ≤ z
  | _ => True

def OrderlySession (b : Sessions) (l : SessionEvent) : Prop := ∀ e ∈ l.onServer, Orderly b.server e

structure Careful (b : Sessions) (l : SessionEvent) : Prop where
  orderly : OrderlySession b l
  first : SerializableFirst b l

theorem start_transaction (h : ((b.start i).env j).transaction = some (o, x)) :
    j ≠ i ∧ (b.env j).transaction = some (o, x) := by
  rw [Sessions.start, setEnv_env] at h
  split at h
  · cases h
  · rename_i hj
    exact ⟨hj, h⟩

theorem start_worksFor (h : Kept b) (hw : WorksFor (b.start i) j o x) : j ≠ i ∧ WorksFor b j o x := by
  obtain ⟨hj, htr⟩ := start_transaction hw.transaction
  refine ⟨hj, htr, ?_, hw.slot, h.child j o x htr⟩
  have hrun : (b.server.assign i).phase o = .running x := hw.running
  rw [assign_phase] at hrun
  split at hrun
  · cases hrun
  · exact hrun

theorem start_kept (i : Nat) (h : Kept b) (hinv : Invariant b.server)
    (hroom : RoomLeft b.server.ids) : Kept (b.start i) := by
  have hnew := getNewTransactionId_new hinv.counter hroom
  refine ⟨?_, ?_, ?_, ?_, ?_⟩
  · intro j x hp
    change (b.server.assign i).phase j = _ at hp
    rw [assign_phase] at hp
    rw [Sessions.start, setEnv_env]
    split_ifs with hj
    · exact ⟨rfl, rfl, rfl⟩
    · rw [if_neg hj] at hp
      exact h.fresh j x hp
  · intro j o x hx
    obtain ⟨hj, htr⟩ := start_transaction hx
    obtain ⟨hlt, hnot⟩ := h.dated j o x htr
    refine ⟨Nat.lt_of_lt_of_le hlt hnew.next_le, ?_⟩
    show (b.server.assign i).phase o ≠ _
    rw [assign_phase]
    split
    · intro e
      rw [← Phase.assigned.inj e] at hlt
      exact absurd hnew.above (BitVec.not_le.mpr hlt)
    · exact hnot
  · intro j o x hx
    obtain ⟨hj, htr⟩ := start_transaction hx
    refine (h.child j o x htr).imp_right fun hidle => ?_
    show (b.server.assign i).phase j = _
    rw [assign_phase, if_neg hj]
    exact hidle
  · intro o x hw hno
    obtain ⟨ho, hw⟩ := start_worksFor h hw
    rw [Sessions.start, setEnv_env, if_neg ho] at hno
    exact h.unset o x hw hno
  · intro j o x hw
    obtain ⟨hj, hw⟩ := start_worksFor h hw
    rw [Sessions.start, setEnv_env, if_neg hj]
    exact (h.sheltered j o x hw).moves (fun k _ h0 => .of_eq h0 rfl rfl) (.assign hinv hroom i)

theorem publish_transaction (h : ((b.publish i x).env j).transaction = some (o, y)) :
    (j = i ∧ o = i ∧ y = x) ∨ (j ≠ i ∧ (b.env j).transaction = some (o, y)) := by
  rw [Sessions.publish, setEnv_env] at h
  split_ifs at h with hj
  · cases h
    exact .inl ⟨hj, rfl, rfl⟩
  · exact .inr ⟨hj, h⟩

/-- No connection works for the new transaction yet, since its id is new. -/
theorem publish_worksFor (h : Kept b) (hp : b.server.phase i = .assigned x) (hw : WorksFor (b.publish i x) j o y) :
    (j = i ∧ o = i ∧ y = x) ∨ (j ≠ i ∧ o ≠ i ∧ WorksFor b j o y) := by
  refine (publish_transaction hw.transaction).imp_right ?_
  rintro ⟨hj, htr⟩
  have hrun := hw.running
  change (b.server.setThread i _ _).phase o = _ at hrun
  rw [setThread_phase] at hrun
  split_ifs at hrun with ho
  · rw [ho, ← Phase.running.inj hrun] at htr
    exact absurd hp (h.dated j i x htr).2
  · exact ⟨hj, ho, htr, hrun, hw.slot, h.child j o y htr⟩

theorem publish_kept (h : Kept b) (hp : b.server.phase i = .assigned x) (hinv : Invariant b.server) :
    Kept (b.publish i x) := by
  obtain ⟨-, hser, hempty⟩ := h.fresh i x hp
  have hx := hinv.held i x (holds_of_phase hp rfl)
  refine ⟨?_, ?_, ?_, ?_, ?_⟩
  · intro j y hj
    change (b.server.setThread i _ _).phase j = _ at hj
    rw [setThread_phase] at hj
    rw [Sessions.publish, setEnv_env]
    split at hj
    · cases hj
    · rename_i hji
      rw [if_neg hji]
      exact h.fresh j y hj
  · intro j o y hy
    show y < b.server.ids.shmem.nextXid ∧ (b.server.setThread i _ _).phase o ≠ _
    rw [setThread_phase]
    obtain ⟨-, rfl, rfl⟩ | ⟨-, htr⟩ := publish_transaction hy
    · rw [if_pos rfl]
      exact ⟨hx.2.1, Phase.noConfusion⟩
    · obtain ⟨hlt, hnot⟩ := h.dated j o y htr
      refine ⟨hlt, ?_⟩
      split
      · exact Phase.noConfusion
      · exact hnot
  · intro j o y hy
    show j = o ∨ (b.server.setThread i _ _).phase j = _
    rw [setThread_phase]
    obtain ⟨rfl, rfl, -⟩ | ⟨hj, htr⟩ := publish_transaction hy
    · exact .inl rfl
    · rw [if_neg hj]
      exact h.child j o y htr
  · intro o y hw hno
    show ((b.server.setThread i _ _).thread o).xmin = y
    rw [setThread_thread]
    rw [Sessions.publish, setEnv_env] at hno
    obtain ⟨rfl, -, rfl⟩ | ⟨ho, -, hw⟩ := publish_worksFor h hp hw
    · rw [if_pos rfl]
      rfl
    · rw [if_neg ho] at hno ⊢
      exact h.unset o y hw hno
  · intro j o y hw
    rw [Sessions.publish, setEnv_env]
    obtain ⟨rfl, -, -⟩ | ⟨hj, ho, hw⟩ := publish_worksFor h hp hw
    · rw [if_pos rfl]
      refine ⟨?_, fun hno => absurd hser hno⟩
      intro _ taken ht
      change taken ∈ (b.env j).snapshots at ht
      rw [hempty] at ht
      cases ht
    · rw [if_neg hj]
      refine (h.sheltered j o y hw).moves (fun k hk h0 => ?_) (.publish hp _)
      refine .of_eq h0 ?_ rfl
      show (b.server.setThread i _ _).thread k = _
      rw [setThread_thread, if_neg]
      obtain rfl | rfl := hk
      · exact hj
      · exact ho

structure Wanes (s s' : Server) : Prop where
  ids : s'.ids = s.ids
  maxBackends : s'.maxBackends = s.maxBackends
  assigned : ∀ i x, s'.phase i = .assigned x ↔ s.phase i = .assigned x
  running : ∀ i x, s'.phase i = .running x → s.phase i = .running x ∧ s'.thread i = s.thread i
  idle : ∀ i, s.phase i = .idle → s'.phase i = .idle ∧ s'.thread i = s.thread i
  held : ∀ i z, Holds s' i z → Holds s i z

theorem wanes_setThread (s : Server) (i : Nat) (th : Thread) (p : Phase)
    (hpub : (s.phase i).published) (hp : ∀ x, p ≠ .assigned x ∧ p ≠ .running x)
    (hold : ∀ x, p.xid = some x → Holds s i x) : Wanes s (s.setThread i th p) where
  ids := rfl
  maxBackends := rfl
  assigned := by
    intro j x
    rw [setThread_phase]
    split_ifs with hj
    · rw [hj]
      refine ⟨fun e => absurd e (hp x).1, fun e => ?_⟩
      rw [e] at hpub
      cases hpub
    · rfl
  running := by
    intro j x hj
    rw [setThread_phase] at hj
    rw [setThread_thread]
    split_ifs at hj with hji
    · exact absurd hj (hp x).2
    · rw [if_neg hji]
      exact ⟨hj, rfl⟩
  idle := by
    intro j hj
    have hji : j ≠ i := by
      rintro rfl
      rw [hj] at hpub
      cases hpub
    rw [setThread_phase, setThread_thread, if_neg hji, if_neg hji]
    exact ⟨hj, rfl⟩
  held := by
    intro j z hz
    rw [holds_setThread] at hz
    split_ifs at hz with hj
    · rw [hj]
      exact hold z hz
    · exact hz

theorem ending_wanes (he : e.isEnding) (hs : Step s e s') : Wanes s s' := by
  cases hs with
  | assign i hi hidle htype => cases he
  | publish i x hp => cases he
  | snapshot _ me owner x serializable taken howner hme hok => cases he
  | finish i x hp =>
    refine wanes_setThread s i _ _ (hp ▸ rfl) (fun y => ⟨Phase.noConfusion, Phase.noConfusion⟩)
      (fun y hy => holds_of_phase hp hy)
  | softCommit i x hp =>
    have hw := wanes_setThread (s.record x .softCommit) i (s.thread i) (.recorded x)
      (by show (s.phase i).published; rw [hp]; rfl)
      (fun y => ⟨Phase.noConfusion, Phase.noConfusion⟩)
      (fun y hy => holds_of_phase (s := s.record x .softCommit) hp hy)
    exact ⟨hw.ids, hw.maxBackends, hw.assigned, hw.running, hw.idle, hw.held⟩
  | hardCommit x _ =>
    exact ⟨rfl, rfl, fun _ _ => .rfl, fun _ _ h => ⟨h, rfl⟩, fun _ h => ⟨h, rfl⟩, fun _ _ h => h⟩
  | abort i x hp =>
    have hw := wanes_setThread (s.record x .abort) i (s.thread i) (.recorded x)
      (by show (s.phase i).published; rw [hp]; rfl)
      (fun y => ⟨Phase.noConfusion, Phase.noConfusion⟩)
      (fun y hy => holds_of_phase (s := s.record x .abort) hp hy)
    exact ⟨hw.ids, hw.maxBackends, hw.assigned, hw.running, hw.idle, hw.held⟩
  | reset i hp =>
    refine wanes_setThread s i _ _ hp (fun y => ⟨Phase.noConfusion, Phase.noConfusion⟩) ?_
    intro y hy
    cases hy

theorem Wanes.onward (hw : Wanes s s') : Onward s s' :=
  ⟨fun i z hz => .inl (hw.held i z hz), BitVec.le_of_eq (by rw [hw.ids])⟩

theorem Wanes.worksFor (hw : Wanes b.server s') (h : Kept b)
    (hj : WorksFor { b with server := s' } j o x) : WorksFor b j o x :=
  ⟨hj.transaction, (hw.running o x hj.running).1, hw.maxBackends ▸ hj.slot, h.child j o x hj.transaction⟩

theorem goesOn_kept (h : Kept b) (hw : Wanes b.server s') : Kept { b with server := s' } := by
  refine
    { fresh := fun i x hp => h.fresh i x ((hw.assigned i x).mp hp)
      dated := ?_
      child := fun j o x hx => (h.child j o x hx).imp_right fun hidle => (hw.idle j hidle).1
      unset := ?_
      sheltered := ?_ }
  · intro j o x hx
    obtain ⟨hlt, hnot⟩ := h.dated j o x hx
    refine ⟨?_, fun e => hnot ((hw.assigned o x).mp e)⟩
    show x < s'.ids.shmem.nextXid
    rw [hw.ids]
    exact hlt
  · intro o x ho hno
    show (s'.thread o).xmin = x
    rw [(hw.running o x ho.running).2]
    exact h.unset o x (hw.worksFor h ho) hno
  · intro j o x hj
    refine (h.sheltered j o x (hw.worksFor h hj)).moves (fun k hk h0 => ?_) hw.onward
    refine .of_eq h0 ?_ hw.maxBackends
    have hko : s'.thread o = b.server.thread o := (hw.running o x hj.running).2
    obtain rfl | rfl := hk
    · obtain rfl | hidle := h.child k o x hj.transaction
      · exact hko
      · exact (hw.idle k hidle).2
    · exact hko

theorem computed_kept (h : Kept b) (hme : WorksFor b me owner x) (hsv : Surveyed b.server me x serializable taken s')
    (htrans : env.transaction = (b.env me).transaction) (hlow : me = owner → Lowered b.server s' me)
    (hunset : me = owner → env.holder.serializableSnapshot = none → (s'.thread me).xmin = x)
    (hmine : Sheltered s' env me owner) : Kept (.setEnv { b with server := s' } me env) := by
  have hthread : ∀ j ≠ me, s'.thread j = b.server.thread j := fun j hj => (hsv.thread j).resolve_right fun e => hj e.1
  have htr : ∀ j, (Function.update b.env me env j).transaction = (b.env j).transaction := by
    intro j
    rw [update_apply]
    split_ifs with hj
    · rw [htrans, hj]
    · rfl
  have hworks : ∀ j o y, WorksFor (.setEnv { b with server := s' } me env) j o y → WorksFor b j o y := by
    intro j o y hw
    refine ⟨(htr j).symm.trans hw.transaction, hsv.phase ▸ hw.running, hsv.maxBackends ▸ hw.slot, ?_⟩
    exact h.child j o y ((htr j).symm.trans hw.transaction)
  refine ⟨?_, ?_, ?_, ?_, ?_⟩
  · intro i y hp
    change s'.phase i = _ at hp
    rw [hsv.phase] at hp
    obtain ⟨hnone, hrest⟩ := h.fresh i y hp
    have hi : i ≠ me := by
      rintro rfl
      rw [hme.transaction] at hnone
      cases hnone
    rw [setEnv_env, if_neg hi]
    exact ⟨hnone, hrest⟩
  · intro j o y hy
    show y < s'.ids.shmem.nextXid ∧ s'.phase o ≠ _
    rw [hsv.nextXid, hsv.phase]
    exact h.dated j o y ((htr j).symm.trans hy)
  · intro j o y hy
    show j = o ∨ s'.phase j = _
    rw [hsv.phase]
    exact h.child j o y ((htr j).symm.trans hy)
  · intro o y hw hno
    show (s'.thread o).xmin = y
    have hold := hworks o o y hw
    by_cases ho : o = me
    · subst ho
      rw [setEnv_env, if_pos rfl] at hno
      obtain ⟨rfl, rfl⟩ := Prod.mk.inj (Option.some.inj (hme.transaction.symm.trans hold.transaction))
      exact hunset rfl hno
    · rw [setEnv_env, if_neg ho] at hno
      rw [hthread o ho]
      exact h.unset o y hold hno
  · intro j o y hw
    have hold := hworks j o y hw
    by_cases hj : j = me
    · subst hj
      obtain ⟨rfl, rfl⟩ := Prod.mk.inj (Option.some.inj (hme.transaction.symm.trans hold.transaction))
      rw [setEnv_env, if_pos rfl]
      exact hmine
    · rw [setEnv_env, if_neg hj]
      refine (h.sheltered j o y hold).moves (fun k hk h0 => ?_) hsv.onward
      by_cases hkm : k = me
      · subst hkm
        have hko : k = o := hk.resolve_left (Ne.symm hj)
        refine hlow (hme.own.resolve_right fun hidle => ?_)
        rw [hko, hold.running] at hidle
        cases hidle
      · exact .of_eq h0 (hthread k hkm) hsv.maxBackends

section

variable (h : Kept b) (hinv : Invariant b.server) (hme : WorksFor b me owner x)
  (horderly : ∀ i y, b.server.phase i ≠ .assigned y)
include h hinv hme horderly

theorem first_kept (holder : SnapshotHolder) (hnone : (b.env me).holder.serializableSnapshot = none)
    (hser : holder.serializableSnapshot ≠ none)
    (hsub : ({ b.env me with holder := holder } : Env).snapshots ⊆ taken :: (b.env me).snapshots)
    (hok : getSnapshotData b.server me x true = .ok (taken, s')) :
    Kept (.setEnv { b with server := s' } me { b.env me with holder := holder }) := by
  have hsv := getSnapshotData_surveyed hok
  have hxmin : taken.xmin ≠ 0 ∧ taken.xmin ≤ x := by
    rw [hsv.taken]
    exact hinv.survey_xmin me (holds_of_phase hme.running rfl)
  have hthread : (s'.thread me).xmin = taken.xmin := by
    rw [getSnapshotData_serializable_thread hok, update_self]
  have hlow : me = owner → Lowered b.server s' me := by
    rintro rfl
    refine ⟨?_, hsv.maxBackends⟩
    rw [hthread, h.unset me x hme hnone]
    exact hxmin
  have hnext : x < b.server.ids.shmem.nextXid := (hinv.held owner x (holds_of_phase hme.running rfl)).2.1
  have hxle := xmin_le_held hinv hsv horderly hme.running hme.own
  have hanchor : Anchored s' me := by
    refine ⟨?_, ?_, ?_, ?_⟩
    · rw [hthread]
      exact hxmin.1
    · rw [hsv.maxBackends]
      exact hme.slot
    · intro i z hz
      rw [Holds, hsv.phase] at hz
      rw [hthread]
      exact hxle i z hz
    · rw [hthread, hsv.nextXid]
      exact BitVec.le_of_lt (Nat.lt_of_le_of_lt hxmin.2 hnext)
  refine computed_kept h hme hsv rfl hlow
    (fun _ hno => absurd hno hser) ⟨fun hno => absurd hno hser, fun _ => ⟨⟨me, .inl rfl, hanchor⟩, ?_⟩⟩
  intro other ho
  obtain rfl | hold := mem_cons.mp (hsub ho)
  · refine ⟨me, .inl rfl, hanchor.valid, hanchor.slot, ?_⟩
    rw [hthread]
    exact below_of_held hinv hsv _ hxle (BitVec.le_of_lt (Nat.lt_of_le_of_lt hxmin.2 hnext))
  · have hguard := (h.sheltered me owner x hme).before hnone other hold
    refine ⟨owner, .inr rfl, hguard.lowered ?_⟩
    by_cases ho : owner = me
    · rw [ho]
      exact hlow ho.symm
    · exact .of_eq hguard.valid ((hsv.thread owner).resolve_right fun e => ho e.1) hsv.maxBackends

omit horderly in
theorem further_kept (holder : SnapshotHolder) (hfirst : (b.env me).holder.serializableSnapshot ≠ none ∨
      ∀ i z, Holds b.server i z → (b.server.thread owner).xmin ≤ z)
    (hser : holder.serializableSnapshot = (b.env me).holder.serializableSnapshot)
    (hsub : ({ b.env me with holder := holder } : Env).snapshots ⊆ taken :: (b.env me).snapshots)
    (hok : getSnapshotData b.server me x false = .ok (taken, s')) :
    Kept (.setEnv { b with server := s' } me { b.env me with holder := holder }) := by
  have hsv := getSnapshotData_surveyed hok
  have hthread := getSnapshotData_plain_thread hok
  have hholds : Holds b.server owner x := holds_of_phase hme.running rfl
  have hshows := hinv.shown owner x hholds (by rw [hme.running]; rfl)
  have hkeep : ∀ k, (b.server.thread k).xmin ≠ 0 → Lowered b.server s' k :=
    fun k h0 => .of_eq h0 (by rw [hthread]) hsv.maxBackends
  have hmine := h.sheltered me owner x hme
  have hguards : ∀ k other, Guards b.server k other → Guards s' k other :=
    fun k other hg => hg.lowered (hkeep k hg.valid)
  refine computed_kept h hme hsv rfl ?_ ?_ ⟨?_, ?_⟩
  · rintro rfl
    exact hkeep me hshows.xmin.1
  · rintro rfl hno
    rw [hthread]
    exact h.unset me x hme (hser.symm.trans hno)
  · intro hno other ho
    have hno' : (b.env me).holder.serializableSnapshot = none := hser.symm.trans hno
    refine hguards owner other ?_
    obtain rfl | hold := mem_cons.mp (hsub ho)
    · refine ⟨hshows.xmin.1, (hinv.held owner x hholds).2.2, ?_⟩
      exact below_of_held hinv hsv _ (hfirst.resolve_left fun hne => hne hno')
        (BitVec.le_of_lt (Nat.lt_of_le_of_lt hshows.xmin.2 (hinv.held owner x hholds).2.1))
    · exact hmine.before hno' other hold
  · intro hne
    obtain ⟨⟨k, hk, hanchor⟩, hall⟩ := hmine.after fun e => hne (hser.trans e)
    refine ⟨⟨k, hk, hanchor.lowered (hkeep k hanchor.valid) hsv.onward⟩, fun other ho => ?_⟩
    obtain rfl | hold := mem_cons.mp (hsub ho)
    · exact ⟨k, hk, hguards k _ (hanchor.guards hinv hsv)⟩
    · obtain ⟨k', hk', hg⟩ := hall other hold
      exact ⟨k', hk', hguards k' other hg⟩

end

theorem clone_transaction (hparent : WorksFor b owner owner x)
    (h : ((b.setEnv me (cloneParentTransaction (b.env owner) (b.env me))).env j).transaction = some (o, y)) :
    (j = me ∧ o = owner ∧ y = x) ∨ (j ≠ me ∧ (b.env j).transaction = some (o, y)) := by
  rw [setEnv_env] at h
  split_ifs at h with hj
  · change (b.env owner).transaction = some (o, y) at h
    rw [hparent.transaction] at h
    cases h
    exact .inl ⟨hj, rfl, rfl⟩
  · exact .inr ⟨hj, h⟩

theorem clone_kept (h : Kept b) (hidle : b.server.phase me = .idle) (hparent : WorksFor b owner owner x) :
    Kept (b.setEnv me (cloneParentTransaction (b.env owner) (b.env me))) := by
  have hne : me ≠ owner := by
    rintro rfl
    rw [hparent.running] at hidle
    cases hidle
  refine ⟨?_, ?_, ?_, ?_, ?_⟩
  · intro i y hp
    have hi : i ≠ me := by
      rintro rfl
      rw [show b.server.phase i = _ from hp] at hidle
      cases hidle
    rw [setEnv_env, if_neg hi]
    exact h.fresh i y hp
  · intro j o y hy
    obtain ⟨-, rfl, rfl⟩ | ⟨-, hy⟩ := clone_transaction hparent hy
    · exact h.dated o o y hparent.transaction
    · exact h.dated j o y hy
  · intro j o y hy
    obtain ⟨rfl, -, -⟩ | ⟨-, hy⟩ := clone_transaction hparent hy
    · exact .inr hidle
    · exact h.child j o y hy
  · intro o y hw hno
    obtain ⟨ho, ho', -⟩ | ⟨ho, hy⟩ := clone_transaction hparent hw.transaction
    · exact absurd (ho.symm.trans ho') hne
    · rw [setEnv_env, if_neg ho] at hno
      exact h.unset o y ⟨hy, hw.running, hw.slot, hw.own⟩ hno
  · intro j o y hw
    obtain ⟨rfl, rfl, rfl⟩ | ⟨hj, hy⟩ := clone_transaction hparent hw.transaction
    · -- The parent's snapshots are guarded by the parent's own thread.
      rw [setEnv_env, if_pos rfl]
      have hmine := h.sheltered o o y hparent
      have hsub := clone_snapshots (b.env o) (b.env j)
      refine ⟨fun hno taken ht => hmine.before hno taken (hsub ht), fun hno => ?_⟩
      obtain ⟨⟨k, hk, hanchor⟩, hall⟩ := hmine.after hno
      refine ⟨⟨k, .inr (or_self_iff.mp hk), hanchor⟩, fun taken ht => ?_⟩
      obtain ⟨k', hk', hg⟩ := hall taken (hsub ht)
      exact ⟨k', .inr (or_self_iff.mp hk'), hg⟩
    · rw [setEnv_env, if_neg hj]
      exact h.sheltered j o y ⟨hy, hw.running, hw.slot, hw.own⟩

theorem step_kept (b : Sessions) (l : SessionEvent) (b' : Sessions) (hinv : Invariant b.server)
    (h : Kept b) (hs : Guarded SessionStep Careful b l b') : Kept b' := by
  obtain ⟨hcare, hs⟩ := hs
  cases hs with
  | start i hs => exact start_kept i h hinv (hcare.orderly (.assign i) (mem_singleton_self _))
  | publish i x hp => exact publish_kept h hp hinv
  | goesOn e s' he hs => exact goesOn_kept h (ending_wanes he hs)
  | request r me owner x holder s' computed hme hok =>
    cases exec_answered _ _ _ _ _ r hok with
    | chosen _ hser hsub => exact h.setEnv me _ rfl hser hsub
    | first _ taken _ hr hnone hser hsub hget =>
      have horderly := hcare.orderly (.snapshot me owner true taken) (mem_singleton_self _)
      exact first_kept h hinv hme horderly holder hnone (by rw [hser]; exact Option.some_ne_none _) hsub hget
    | further _ taken _ hr hser hsub hget =>
      refine further_kept h hinv hme holder ?_ hser hsub hget
      cases r with
      | query => exact .inl (hr rfl)
      | user => exact hcare.first
  | dropUserSnapshot me => exact h.setEnv me _ rfl rfl (dropUserSnapshot_snapshots _)
  | setIsoLevel me level => exact h.setEnv me _ rfl rfl fun _ ht => ht
  | executorStart me => exact h.setEnv me _ rfl rfl (executorStart_snapshots _)
  | executorEnd me left hleft => exact h.setEnv me _ rfl rfl (executorEnd_snapshots hleft)
  | clone me owner x hidle hparent => exact clone_kept h hidle hparent

/-! ## What is behind the checkpoint -/

/-- Every id from `c` on may still be or have been running for someone; those before are gone. -/
structure Above (c : TransactionId) (b : Sessions) : Prop where
  held : ∀ i z, Holds b.server i z → c ≤ z
  next : c ≤ b.server.ids.shmem.nextXid
  below : ∀ j o x taken, WorksFor b j o x → taken ∈ (b.env j).snapshots → Below c taken

section

variable (h : Kept b)
include h

theorem above_checkpoint (hfloor : Floor b.server) : Above b.server.ids.shmem.xidCheckpoint b where
  held := hfloor.covered.held
  next := hfloor.covered.next
  below := by
    intro j o x taken hw ht
    obtain ⟨k, -, hguard⟩ := (h.sheltered j o x hw).guarded ht
    exact hguard.below.mono (hfloor.xmin k hguard.slot hguard.valid)

theorem setEnv_held (s' : Server) (hw : WorksFor (.setEnv { b with server := s' } me env) j o x)
    (ht : taken ∈ ((Sessions.setEnv { b with server := s' } me env).env j).snapshots)
    (htrans : env.transaction = (b.env me).transaction) (hphase : s'.phase = b.server.phase)
    (hmax : s'.maxBackends = b.server.maxBackends) :
    WorksFor b j o x ∧ (taken ∈ (b.env j).snapshots ∨ j = me ∧ taken ∈ env.snapshots) := by
  have htr : (b.env j).transaction = some (o, x) := by
    have hx := hw.transaction
    rw [setEnv_env] at hx
    split_ifs at hx with hj
    · rw [hj, ← htrans]
      exact hx
    · exact hx
  refine ⟨⟨htr, hphase ▸ hw.running, hmax ▸ hw.slot, h.child j o x htr⟩, ?_⟩
  rw [setEnv_env] at ht
  split_ifs at ht with hj
  · exact .inr ⟨hj, ht⟩
  · exact .inl ht

theorem setEnv_subset_held (hw : WorksFor (b.setEnv me env) j o x) (ht : taken ∈ ((b.setEnv me env).env j).snapshots)
    (htrans : env.transaction = (b.env me).transaction)
    (hsub : env.snapshots ⊆ (b.env me).snapshots) :
    ∃ j', WorksFor b j' o x ∧ taken ∈ (b.env j').snapshots := by
  obtain ⟨hold, hin | ⟨rfl, hin⟩⟩ := setEnv_held h b.server hw ht htrans rfl rfl
  · exact ⟨j, hold, hin⟩
  · exact ⟨j, hold, hsub hin⟩

theorem setEnv_computed_held {holder : SnapshotHolder} {new : SnapshotData}
    (hw : WorksFor (Sessions.setEnv { b with server := s' } me { b.env me with holder := holder }) j o x)
    (ht : taken ∈ ((Sessions.setEnv { b with server := s' } me { b.env me with holder := holder }).env j).snapshots)
    (hsub : ({ b.env me with holder := holder } : Env).snapshots ⊆ new :: (b.env me).snapshots)
    (hok : getSnapshotData b.server me current serializable = .ok (new, s')) :
    (∃ j', WorksFor b j' o x ∧ taken ∈ (b.env j').snapshots) ∨
      ∃ me current serializable s', Surveyed b.server me current serializable taken s' := by
  have hsv := getSnapshotData_surveyed hok
  obtain ⟨hold, hin | ⟨rfl, hin⟩⟩ := setEnv_held h s' hw ht rfl hsv.phase hsv.maxBackends
  · exact .inl ⟨j, hold, hin⟩
  · obtain rfl | hin := mem_cons.mp (hsub hin)
    · exact .inr ⟨j, current, serializable, s', hsv⟩
    · exact .inl ⟨j, hold, hin⟩

end

theorem held_before (h : Kept b) (hs : SessionStep b l b') (hw : WorksFor b' j o x)
    (ht : taken ∈ (b'.env j).snapshots) : (∃ j', WorksFor b j' o x ∧ taken ∈ (b.env j').snapshots) ∨
      ∃ me current serializable s', Surveyed b.server me current serializable taken s' := by
  cases hs with
  | start i hs =>
    obtain ⟨hj, hold⟩ := start_worksFor h hw
    rw [Sessions.start, setEnv_env, if_neg hj] at ht
    exact .inl ⟨j, hold, ht⟩
  | publish i y hp =>
    rw [Sessions.publish, setEnv_env] at ht
    obtain ⟨rfl, -, -⟩ | ⟨hj, -, hold⟩ := publish_worksFor h hp hw
    · rw [if_pos rfl] at ht
      change taken ∈ (b.env j).snapshots at ht
      rw [(h.fresh j y hp).2.2] at ht
      cases ht
    · rw [if_neg hj] at ht
      exact .inl ⟨j, hold, ht⟩
  | goesOn e s' he hs => exact .inl ⟨j, (ending_wanes he hs).worksFor h hw, ht⟩
  | request r me owner y holder s' computed hme hok =>
    cases exec_answered _ _ _ _ _ r hok with
    | chosen _ hser hsub => exact .inl (setEnv_subset_held h hw ht rfl hsub)
    | first _ new _ hr hnone hser hsub hget => exact setEnv_computed_held h hw ht hsub hget
    | further _ new _ hr hser hsub hget => exact setEnv_computed_held h hw ht hsub hget
  | dropUserSnapshot me =>
    exact .inl (setEnv_subset_held h hw ht rfl (dropUserSnapshot_snapshots _))
  | setIsoLevel me level => exact .inl (setEnv_subset_held h hw ht rfl fun _ hin => hin)
  | executorStart me => exact .inl (setEnv_subset_held h hw ht rfl (executorStart_snapshots _))
  | executorEnd me left hleft =>
    exact .inl (setEnv_subset_held h hw ht rfl (executorEnd_snapshots hleft))
  | clone me owner y hidle hparent =>
    obtain ⟨rfl, rfl, rfl⟩ | ⟨hj, htr⟩ := clone_transaction hparent hw.transaction
    · rw [setEnv_env, if_pos rfl] at ht
      exact .inl ⟨o, hparent, clone_snapshots _ _ ht⟩
    · rw [setEnv_env, if_neg hj] at ht
      exact .inl ⟨j, ⟨htr, hw.running, hw.slot, hw.own⟩, ht⟩

theorem step_onward (hinv : Invariant s) (hs : Guarded Step Orderly s e s') : Onward s s' := by
  by_cases he : e.isEnding
  · exact (ending_wanes he hs.2).onward
  obtain ⟨horderly, hs⟩ := hs
  cases hs with
  | assign i hi hidle htype => exact .assign hinv horderly i
  | publish i x hp => exact .publish hp _
  | snapshot _ me owner x serializable taken howner hme hok =>
    exact (getSnapshotData_surveyed hok).onward
  | finish i x hp => exact absurd rfl he
  | softCommit i x hp => exact absurd rfl he
  | hardCommit x _ => exact absurd rfl he
  | abort i x hp => exact absurd rfl he
  | reset i hp => exact absurd rfl he

theorem step_above {c : TransactionId} (hinv : Invariant b.server) (h : Kept b) (ha : Above c b)
    (hs : Guarded SessionStep Careful b l b') : Above c b' := by
  have hon : Onward b.server b'.server := by
    obtain ⟨-, hsame⟩ | ⟨e, hone, hstep⟩ := onServer_step hs.2
    · rw [hsame]
      exact ⟨fun _ _ hz => .inl hz, BitVec.le_refl _⟩
    · exact step_onward hinv ⟨hs.1.orderly e (by rw [hone]; exact mem_singleton_self e), hstep⟩
  refine ⟨?_, BitVec.le_trans ha.next hon.next, ?_⟩
  · intro i z hz
    obtain hold | hle := hon.held i z hz
    · exact ha.held i z hold
    · exact BitVec.le_trans ha.next hle
  · intro j o x taken hw ht
    obtain ⟨j', hw', ht'⟩ | ⟨me, current, serializable, s', hsv⟩ := held_before h hs.2 hw ht
    · exact ha.below j' o x taken hw' ht'
    · exact below_of_held hinv hsv c ha.held ha.next

end WeaverDB.Snapshot
