import WeaverDB.WriteGroups.Faults
import WeaverDB.WriteGroups.Syncing

/-! # Images before commits, in whole runs

Every step of an orderly run keeps the invariant, so every commit that reaches the disk finds the
images of its group there. Two runs that are not orderly end with a commit whose change is lost.
-/

namespace WeaverDB.WriteGroups
open Foundations Bool Nat Option Function

variable {t : Server} {c : Config} {s : Server}

/-! ## Closing and finishing a group -/

def turned (s : Server) : Server :=
  let advanced := s.setCart (!s.cart)
    { s.carts (!s.cart) with currstate := .notReady, generation := s.group.generation + 1 }
  { advanced.setCart s.cart { s.group with currstate := .running } with
    logGroup := !s.cart
    primed := s.group.currstate = .primed
    writer := .closed }

theorem turned_group : (turned s).group = { s.group with currstate := .running } := update_self ..

theorem turned_current : (turned s).current =
    { s.carts (!s.cart) with currstate := .notReady, generation := s.group.generation + 1 } :=
  (update_of_ne (not_ne_self _) ..).trans (update_self ..)

theorem turned_group_generation : (turned s).group.generation = s.group.generation := by
  rw [turned_group]

theorem turned_current_generation : (turned s).current.generation = s.group.generation+1 := by
  rw [turned_current]

theorem turned_registered (h : Ring s) (hpc : s.writer = .checking) {gen : Nat}
    (hgen : gen ≤ s.current.generation) : gen < (turned s).current.generation ∧
      (gen = (turned s).group.generation → gen = s.current.generation) := by
  rw [turned_current_generation, turned_group_generation, current_eq_group h hpc] at *
  exact ⟨lt_succ_of_le hgen, id⟩

theorem Ring.turn (h : Ring s) : Ring (turned s) := by
  refine ⟨?_, rfl, nofun, fun _ => ⟨rfl, ?_⟩, h.syncGeneration, h.busy, nofun⟩
  · exact setCart_all (·.currstate ≠ .flushing) nofun (setCart_all (·.currstate ≠ .flushing) nofun h.calm)
  · exact turned_current_generation.trans (congrArg (· + 1) turned_group_generation.symm)

theorem Shadows.turn (h : Shadows s) (hpc : s.writer = .checking) : Shadows (turned s) := by
  have hbound : generationBound s = generationBound (turned s) := by
    unfold generationBound
    rw [turned_group_generation, hpc]
    rfl
  exact { h with
    bound := h.bound.trans hbound.le
    buffers := fun b => (h.buffers b).trans hbound.le
    pass := nofun }

theorem Enrolled.turn (h : Enrolled s) (hring : Ring s) (hpc : s.writer = .checking) : Enrolled (turned s) := by
  have hold (r : Registration) (hr : r ∈ s.registered) := turned_registered hring hpc (h.generation r hr)
  refine ⟨nofun, h.version, fun r hr => Nat.le_of_lt (hold r hr).1,
    fun r hr hg => absurd hg (Nat.ne_of_lt (hold r hr).1), fun _ r hr hg => ?_⟩
  rw [turned_group, ← current_eq_group hring hpc]
  exact h.queued r hr ((hold r hr).2 hg)

theorem Invariant.advanceWriteGroupQueue (h : Invariant c s) (hpc : s.writer = .checking) : Invariant c (turned s) := by
  have hempty (b : Nat) : (turned s).current.buffers b = false := by
    rw [turned_current]
    exact h.lists.idle hpc b
  have hold (r : Registration) (hr : r ∈ s.registered) := turned_registered h.ring hpc (h.lists.generation r hr)
  refine ⟨h.ring.turn, ?_, ?_, ?_, ?_⟩
  · exact { h.pool.shadows.turn hpc, h.pool with
      batch := fun b k hk => absurd ((h.pool.batch_none (hpc ▸ rfl) b).symm.trans hk) nofun }
  · exact { h.lists.enrolled.turn h.ring hpc with
      group := by rw [turned_group]; exact h.lists.group
      sync := h.lists.sync
      current := fun b hb => absurd ((hempty b).symm.trans hb) (by decide)
      imaging := nofun
      first := by rw [turned_group]; exact fun _ => h.lists.first (hpc ▸ rfl) }
  · obtain ⟨-, hcurrent, -, howed⟩ := h.kept.at hpc
    refine ⟨?_, ?_, ?_, fun _ _ hto => (nomatch hto), howed⟩
    · exact fun r hr ho hlt =>
        h.kept.earlier r hr ho (Nat.lt_of_lt_of_eq hlt turned_group_generation)
    · exact fun _ r hr ho hg => (hcurrent r hr ho ((hold r hr).2 hg)).imp_right fun hkept =>
        hkept.elim id False.elim
    · exact fun r hr _ hg => absurd hg (Nat.ne_of_lt (hold r hr).1)
  · intro xid g hcommit
    have hold := h.commits xid g hcommit
    rw [hpc] at hold
    exact ⟨Nat.le_trans hold.1 (Nat.le_of_eq turned_group_generation.symm),
      fun heq => absurd (hold.2 (heq.trans turned_group_generation)) (by decide)⟩

section

section

variable (h : Ring s) (hpc : s.writer ≠ .checking)
include h hpc

theorem finished_group : (finishWriteGroup c s).group = s.current :=
  (update_of_ne (not_ne_self _) ..).trans (congrArg s.carts (h.closed_ hpc).1.symm)

theorem finished_current : (finishWriteGroup c s).current = s.current := update_of_ne (cart_ne_logGroup h hpc).symm ..

theorem finished_group_generation : (finishWriteGroup c s).group.generation = s.group.generation+1 := by
  rw [finished_group h hpc, (h.closed_ hpc).2]

end

theorem finished_idle (b : Nat) : ((finishWriteGroup c s).carts (!(finishWriteGroup c s).cart)).buffers b = false := by
  change (update s.carts s.cart _ (!(!s.cart))).buffers b = false
  rw [Bool.not_not, update_self]
  rfl

theorem Ring.finish (h : Ring s) (hpc : s.writer ≠ .checking) : Ring (finishWriteGroup c s) := by
  refine ⟨?_, rfl, fun _ => (h.closed_ hpc).1, fun hp => absurd rfl hp, h.syncGeneration, h.busy,
    nofun⟩
  exact setCart_all (·.currstate ≠ .flushing) nofun h.calm

theorem Shadows.finish (h : Shadows s) (hring : Ring s) (hlate : s.writer.early = false)
    (hpc : s.writer ≠ .checking) : Shadows (finishWriteGroup c s) := by
  have hbound : generationBound s = generationBound (finishWriteGroup c s) := by
    change _ = (finishWriteGroup c s).group.generation - 1
    rw [generationBound_late hlate, finished_group_generation hring hpc, Nat.add_sub_cancel]
  exact { h with
    bound := h.bound.trans hbound.le
    buffers := fun b => (h.buffers b).trans hbound.le
    pass := nofun }

theorem Enrolled.finish (h : Enrolled s) (hring : Ring s) (hpc : s.writer ≠ .checking) :
    Enrolled (finishWriteGroup c s) := by
  have hcurrent := finished_current (c := c) hring hpc
  refine ⟨fun _ => finished_idle, h.version, ?_, ?_, ?_⟩
  · rw [hcurrent]
    exact h.generation
  · rw [hcurrent]
    exact h.queued
  · rw [finished_group hring hpc]
    exact fun _ => h.queued

end

section

variable (h : Invariant c s)
include h

theorem Invariant.finishWriteGroup (hpc : s.writer = .finishing) : Invariant c (finishWriteGroup c s) := by
  have hchecking : s.writer ≠ .checking := hpc ▸ nofun
  have hcurrent := finished_current (c := c) h.ring hchecking
  have hgroupGen := finished_group_generation (c := c) h.ring hchecking
  refine ⟨h.ring.finish hchecking, ?_, ?_, ?_, ?_⟩
  · exact { h.pool.shadows.finish h.ring (hpc ▸ rfl) hchecking, h.pool with
      batch := fun b k hk => absurd ((h.pool.batch_none (hpc ▸ rfl) b).symm.trans hk) nofun }
  · exact { h.lists.enrolled.finish h.ring hchecking with
      group := by rw [finished_group h.ring hchecking]; exact h.lists.current
      sync := h.lists.sync
      current := by rw [hcurrent]; exact h.lists.current
      imaging := nofun
      first := fun _ hzero => absurd (hgroupGen.symm.trans hzero) (Nat.succ_ne_zero _) }
  · obtain ⟨hclosed, hlast, -, howed⟩ := h.kept.at hpc
    refine ⟨?_, fun hp => absurd rfl hp, ?_, fun _ _ hto => (nomatch hto), howed⟩
    · intro r hr ho hlt
      obtain hlt | heq := lt_or_eq_of_le (le_of_lt_succ (lt_of_lt_of_eq hlt hgroupGen))
      · exact h.kept.earlier r hr ho hlt
      · exact hclosed nofun r hr ho heq
    · exact fun r hr ho hg => hlast r hr ho (hg.trans (congrArg WriteGroup.generation hcurrent))
  · intro xid g hcommit
    have hle := (h.commits xid g hcommit).1
    rw [hgroupGen]
    exact ⟨le_succ_of_le hle, fun heq => absurd heq ((lt_succ_of_le hle).ne)⟩

/-! ## `SyncWriter` -/

theorem Invariant.syncWriterBegin (hlogs : s.writer.logs = false) (hwaiting : s.syncGroup.currstate = .waiting) :
    Invariant c { s with
      syncGroup := { s.syncGroup with currstate := .flushing }
      bufferGeneration := s.syncGroup.generation
      syncWriter := .syncing 0 } := by
  have hsyncs : s.writer.syncs = false := eq_false_of_ne_true fun hp => (h.ring.syncs hp).2 hwaiting
  have hset : Invariant c { s with bufferGeneration := s.syncGroup.generation } :=
    h.setGeneration hlogs hsyncs (h.ring.syncGeneration ▸ zero_le _)
  exact hset.setSync (fun _ => .inl rfl) fun hp => absurd (hsyncs.symm.trans hp) (by decide)

theorem Invariant.syncWriterStep {cached : Bool} (hstart : s.syncWriter = .idle → s.writer.logs = false)
    (hstep : syncWriterStep c cached s = some t) : Invariant c t := by
  unfold WriteGroups.syncWriterStep at hstep
  cases hpc : s.syncWriter with
  | idle =>
    simp only [hpc, ite_none_right_eq_some] at hstep
    exact some.inj hstep.2 ▸ h.syncWriterBegin (hstart hpc) hstep.1
  | syncing i =>
    obtain ⟨hbusy, hsyncs⟩ := h.ring.sync_working (hpc ▸ nofun)
    have hdone : Invariant c (syncWriterDone s) := h.setSync (fun hp => absurd rfl hp) hsyncs.elim
    have hon : Invariant c { s with syncWriter := .syncing (i+1) } := h.setSync (fun _ => hbusy) hsyncs.elim
    simp only [hpc] at hstep
    split at hstep
    · split at hstep
      · exact some.inj hstep ▸ hon
      · split at hstep
        · exact some.inj hstep ▸ hdone
        · split at hstep
          · exact some.inj hstep ▸ hon
          · have hset : Invariant c (s.setBuffer i { s.buffer i with logged := false }) :=
              h.setBuffer ((Grown.refl h.pool.shadows i).flags _ false) id
            exact some.inj hstep ▸ hset.setSync (fun _ => hbusy) hsyncs.elim
    · exact some.inj hstep ▸ hdone
  | writing i =>
    obtain ⟨hbusy, hsyncs⟩ := h.ring.sync_working (hpc ▸ nofun)
    simp only [hpc] at hstep
    let d := (s.buffer i).shadowIfNeeded s.bufferGeneration true
    have hwritten := h.writeShadow (i := i) true false
    have hlog : s.disk.log i ≤ update s.disk.written i d.shadow i := by
      rw [update_self]
      exact (h.pool.log i).trans (grown_shadow h.pool.shadows i true).shadow
    exact some.inj hstep ▸ (hwritten.dropSync hlog).setSync (fun _ => hbusy) hsyncs.elim

/-! ## Runs -/

theorem Invariant.checkWriteGroupState (hstep : checkWriteGroupState c s = some t) : Invariant c t := by
  unfold WriteGroups.checkWriteGroupState at hstep
  split at hstep
  · exact some.inj hstep ▸ h.setCart rfl rfl nofun
  · exact some.inj hstep ▸ h.setCart rfl rfl nofun
  · exact some.inj hstep ▸ h.setCart rfl rfl nofun
  · next hflushing => exact absurd hflushing (h.ring.calm s.cart)
  · nomatch hstep

theorem Invariant.logBuffer {i : Nat} (hpc : s.writer = .logging false i) : Invariant c (logBuffer c false i s) := by
  unfold WriteGroups.logBuffer
  split
  · split
    · next htake => exact h.logTake hpc htake.1
    · next hskip => exact h.logSkip hpc hskip
  · next hend => exact h.logCommit hpc (Nat.le_of_not_lt hend)

theorem Invariant.dbWriter (hlogging : c.logging)
    (hmarked : s.writer = .closed → ∀ p ∈ s.unmarked, p.2 ≠ s.group.generation)
    (hstep : dbWriter c s = some t) : Invariant c t := by
  have hflush := h.ring.unflushed
  unfold WriteGroups.dbWriter at hstep
  cases hpc : s.writer <;> rw [hpc] at hstep hflush
  case checking => exact h.checkWriteGroupState hstep
  all_goals obtain rfl := some.inj hstep
  case closed =>
    unfold WriteGroups.beginLog
    rw [if_pos hlogging]
    exact h.beginLog hpc (hmarked hpc)
  case logging f i =>
    obtain rfl : f = false := hflush
    exact h.logBuffer hpc
  case imaging f i =>
    obtain rfl : f = false := hflush
    exact h.logImage hpc
  case transactions => exact h.logTransactions hpc
  case loggedGroup => exact h.settleGroup hpc
  case flushMerging => nomatch hflush
  case syncing f i =>
    obtain rfl : f = false := hflush
    exact h.syncBuffer hpc
  case writing f i =>
    obtain rfl : f = false := hflush
    exact h.writeBuffer hpc
  case packaging f =>
    obtain rfl : f = false := hflush
    exact h.commitPackage hpc
  case clearing f =>
    obtain rfl : f = false := hflush
    exact h.clearLogs hlogging hpc
  case lateTransactions => exact h.lateTransactions hpc
  case finishing => exact h.finishWriteGroup hpc

end

theorem signal_ne_flushing {state : WriterState} (h : state ≠ .flushing) : state.signal ≠ .flushing := by
  cases state <;> first | exact h | nofun

theorem Invariant.step (h : Invariant c s) (hlogging : c.logging) {e : Event}
    (hok : orderly s e) (hstep : next c s e = some t) : Invariant c t := by
  cases e with
  | access b =>
    exact some.inj hstep ▸ h.setBuffer (grown_shadow h.pool.shadows b false)
      fun hdirty => (shadowIfNeeded_dirty ..).trans hdirty
  | change b => exact some.inj hstep ▸ h.setBuffer (grown_change h.pool.shadows b) id
  | register b =>
    obtain ⟨hopen, rfl⟩ := of_guard hstep
    obtain ⟨hfirst, hlate⟩ := and_eq_true_iff.mp hok
    exact h.register hopen.1 (bne_iff_ne.mp hfirst) (not_eq_true' _ ▸ hlate)
  | markDirty b generation =>
    obtain ⟨_, rfl⟩ := of_guard hstep
    have hset : Invariant c (s.setBuffer b { s.buffer b with dirty := true }) :=
      h.setBuffer ((Grown.refl h.pool.shadows b).flags true _) fun _ => rfl
    have hdirty : ((s.setBuffer b { s.buffer b with dirty := true }).buffer b).dirty :=
      (congrArg BufferDesc.dirty (update_self ..)).trans rfl
    exact hset.unmark hdirty
  | setCommitInfo b =>
    exact some.inj hstep ▸ h.setBuffer ((Grown.refl h.pool.shadows b).flags true _) fun _ => rfl
  | commit xid loggable =>
    obtain ⟨_, rfl⟩ := of_guard hstep
    exact h.setCart rfl rfl (signal_ne_flushing (h.ring.calm s.logGroup))
  | requestSnapshot =>
    obtain ⟨_, rfl⟩ := of_guard hstep
    exact h.setCart rfl rfl (signal_ne_flushing (h.ring.calm s.logGroup))
  | flushAllDirtyBuffers => nomatch hok
  | timeout primed =>
    obtain ⟨_, rfl⟩ := of_guard hstep
    refine h.setCart rfl rfl ?_
    cases primed <;> nofun
  | close =>
    obtain ⟨hready, rfl⟩ := of_guard hstep
    exact h.advanceWriteGroupQueue hready.1
  | writer =>
    refine h.dbWriter hlogging (fun hpc p hp => ?_) hstep
    have hall := ((or_eq_true ..).mp hok).resolve_left fun hne => (bne_iff_ne.mp hne) hpc
    exact bne_iff_ne.mp (List.all_eq_true.mp hall p hp)
  | syncWriter cached =>
    refine h.syncWriterStep (fun hidle => ?_) hstep
    have hquiet := ((or_eq_true ..).mp hok).resolve_left fun hne => (bne_iff_ne.mp hne) hidle
    exact not_eq_true' _ ▸ hquiet

/-- **Write ahead.** A durable commit finds the images of its group, or the blocks, on disk. -/
theorem commits_after_images (c : Config) (hlogging : c.logging) {events : List MachineEvent} {m : Machine}
    (r : Run (Machine.Step c orderly) (.init c) events m) : WriteAhead c m.server :=
  (calm_run (fun _ _ _ h hok hnext => h.step hlogging hok hnext) (invariant_init c) r).writeAhead

/-! ## Sample runs -/

def sampleConfig (logging : Bool) : Config := ⟨1, 4, 10, logging, fun _ => false⟩

def steps (events : List Event) : List MachineEvent := events.map .step

def emptyGroup : List Event := [.requestSnapshot, .close, .writer, .writer, .writer, .writer, .writer, .writer]

def oneCommit : List MachineEvent :=
  steps (emptyGroup ++ [.change 0, .register 0, .markDirty 0 1, .commit 7 true, .close,
    .writer, .writer, .writer, .writer, .writer])

theorem commits_after_images_one :
    ∃ m, perform (fun m e => if Machine.allows m orderly e then m.next (sampleConfig true) e else none)
        (.init (sampleConfig true)) oneCommit = some m ∧
      m.server.hardCommits = [(7, 1)] ∧ m.server.registered = [⟨0, 1, 1⟩] ∧
        WriteAhead (sampleConfig true) m.server := by
  refine exists_of_map (fun m => (m.server.hardCommits, m.server.registered)) ([(7, 1)], [⟨0, 1, 1⟩])
    (by decide) fun m hm heq => ?_
  obtain ⟨hcommits, hregistered⟩ := Prod.mk.inj heq
  exact ⟨hcommits, hregistered, commits_after_images (sampleConfig true) rfl (.of_perform hm)⟩

def unloggedCommit : List MachineEvent :=
  steps [.change 0, .register 0, .markDirty 0 0, .commit 7 true, .close, .writer, .writer]

/-- The change for the next group comes after the shadow, and `LogBuffers` takes off its mark. -/
def hotBlock : List MachineEvent :=
  steps (emptyGroup ++ [.change 0, .register 0, .markDirty 0 1, .commit 7 true, .close, .writer,
    .access 0, .change 0, .register 0, .markDirty 0 2, .commit 8 true,
    .writer, .writer, .writer, .writer, .writer, .writer, .writer, .close,
    .writer, .writer]) ++ [.look] ++ steps [.writer, .writer]

/-- The mark of the second change comes between the two looks of `LogBuffers`. -/
def lateMark : List MachineEvent :=
  steps (emptyGroup ++ [.change 0, .register 0, .markDirty 0 1, .commit 7 true, .close] ++
    List.replicate 8 .writer ++ [.change 0, .register 0, .commit 8 false, .close, .writer, .writer,
      .markDirty 0 2]) ++ [.look, .look] ++ steps (List.replicate 7 .writer)

def lostCommit (xid : TransactionId) (g : Nat) (r : Registration) (m : Machine) : Bool :=
  decide ((xid, g) ∈ m.server.hardCommits ∧ r ∈ m.server.registered ∧ r.generation ≤ g ∧
    m.server.disk.log r.buf < r.version ∧ m.server.disk.synced r.buf < r.version)

theorem not_writeAhead_of_lostCommit {m : Machine} {xid : TransactionId} {g : Nat} {r : Registration}
    (hr : c.special r.buf = false) (h : lostCommit xid g r m) : ¬ WriteAhead c m.server := by
  obtain ⟨hcommit, hreg, hle, hlog, hsynced⟩ := of_decide_eq_true h
  intro hahead
  exact (hahead xid g hcommit r hreg hr hle).elim (Nat.not_le_of_lt hlog) (Nat.not_le_of_lt hsynced)

theorem commits_before_images :
    (∃ m, perform (Machine.next (sampleConfig false)) (.init (sampleConfig false)) unloggedCommit = some m ∧
      ¬ WriteAhead (sampleConfig false) m.server) ∧
    ∀ events ∈ [hotBlock, lateMark],
      ∃ m, perform (Machine.next (sampleConfig true)) (.init (sampleConfig true)) events = some m ∧
        ¬ WriteAhead (sampleConfig true) m.server := by
  refine ⟨?_, List.forall_mem_cons.mpr ⟨?_, List.forall_mem_singleton.mpr ?_⟩⟩
  · exact exists_of_map (lostCommit 7 0 ⟨0, 1, 0⟩) true (by decide) fun _ _ => not_writeAhead_of_lostCommit rfl
  · exact exists_of_map (lostCommit 8 2 ⟨0, 2, 2⟩) true (by decide) fun _ _ => not_writeAhead_of_lostCommit rfl
  · exact exists_of_map (lostCommit 8 2 ⟨0, 2, 2⟩) true (by decide) fun _ _ => not_writeAhead_of_lostCommit rfl

end WeaverDB.WriteGroups
