import WeaverDB.WriteGroups.WriteAhead

/-! # When the log is expired

A buffer whose image is logged stays in a list until it is written, from a shadow no older than the
image, and the blocks are synced before `ClearLogs` drops the images. But a buffer must not be marked as
failed, and `DBWriter` must not flush while it logs the transactions.
-/

namespace WeaverDB.WriteGroups
open Foundations Function Option

variable {c : Config} {s s' : Server} {b i : Nat} {pc : WriterPc} {flush : Bool}

/-- The image of the block in the log has been written, or its buffer is in a list that will be. -/
def Pending (c : Config) (s : Server) (b : Nat) : WriterPc → Prop
  | .logging _ _ | .transactions _ | .loggedGroup | .flushMerging =>
    s.disk.log b ≤ s.disk.written b ∨ s.syncGroup.buffers b ∨ s.group.buffers b
  | .imaging _ i =>
    (s.disk.log b ≤ s.disk.written b ∨ s.syncGroup.buffers b ∨ s.group.buffers b) ∧
      (i = b → b < c.maxBuffers ∧ s.group.buffers b)
  | .syncing flush i | .writing flush i =>
    s.disk.log b ≤ s.disk.written b ∨ (i ≤ b ∧ s.syncList flush b)
  | .packaging _ => s.disk.log b ≤ s.disk.written b
  | .clearing _ => s.disk.log b ≤ s.disk.written b ∧ s.disk.log b ≤ s.disk.synced b
  | _ => s.disk.log b ≤ s.disk.written b ∨ s.syncGroup.buffers b

structure Secured (c : Config) (s : Server) (b : Nat) : Prop where
  held : (s.buffer b).shadow ≤ (s.buffer b).data
  log : s.disk.log b ≤ (s.buffer b).shadow
  bound : s.disk.log b = 0 ∨ b < c.maxBuffers
  quiet : s.writer.logs = false → s.disk.batch b = none
  batch : ∀ k, s.disk.batch b = some k →
    s.disk.log b ≤ k ∧ k ≤ (s.buffer b).shadow ∧ b < c.maxBuffers ∧ s.group.buffers b
  pending : Pending c s b s.writer

theorem Pending.mono (hlog : s'.disk.log b = s.disk.log b) (hsynced : s'.disk.synced b = s.disk.synced b)
    (hgroup : s.group.buffers b → s'.group.buffers b)
    (hsync : (s'.disk.written b = s.disk.written b ∧
      (s.syncGroup.buffers b → s'.syncGroup.buffers b)) ∨ s.disk.log b ≤ s'.disk.written b)
    (h : Pending c s b pc) : Pending c s' b pc := by
  cases pc <;> simp only [Pending, Server.syncList, hlog, hsynced] at h ⊢ <;> grind

section

variable (h : Secured c s b)
include h

/-! ## Steps on buffers and groups -/

theorem Secured.setBuffer {d : BufferDesc}
    (hd : i = b → (s.buffer b).shadow ≤ d.shadow ∧ d.shadow ≤ d.data) : Secured c (s.setBuffer i d) b := by
  have hgrown : (s.buffer b).shadow ≤ (update s.buffer i d b).shadow ∧
      (update s.buffer i d b).shadow ≤ (update s.buffer i d b).data := by
    obtain rfl | hne := eq_or_ne b i
    · rw [update_self]
      exact hd rfl
    · rw [update_of_ne hne]
      exact ⟨le_rfl, h.held⟩
  exact { h with
    held := hgrown.2
    log := h.log.trans hgrown.1
    batch := fun k hk => (h.batch k hk).imp_right (.imp_left (·.trans hgrown.1)) }

theorem Secured.setFlags (i : Nat) (dirty logged : Bool) :
    Secured c (s.setBuffer i { s.buffer i with dirty := dirty, logged := logged }) b := by
  refine h.setBuffer ?_
  rintro rfl
  exact ⟨le_rfl, h.held⟩

theorem Secured.shadow (i gen : Nat) (forflush logged : Bool) :
    Secured c (s.setBuffer i { (s.buffer i).shadowIfNeeded gen forflush with logged := logged }) b := by
  refine h.setBuffer ?_
  rintro rfl
  unfold BufferDesc.shadowIfNeeded
  split
  · exact ⟨h.held, le_rfl⟩
  · exact ⟨le_rfl, h.held⟩

theorem Secured.log_le_shadow (gen : Nat) (forflush : Bool) :
    s.disk.log b ≤ ((s.buffer b).shadowIfNeeded gen forflush).shadow := by
  have hlog := (h.shadow b gen forflush true).log
  change s.disk.log b ≤ (update s.buffer b _ b).shadow at hlog
  rwa [update_self] at hlog

theorem Secured.setCart {k : Bool} {g : WriteGroup} (hkept : (s.carts k).buffers b → g.buffers b) :
    Secured c (s.setCart k g) b := by
  have hgroup (hg : s.group.buffers b) : (update s.carts k g s.cart).buffers b := by
    obtain rfl | hne := eq_or_ne k s.cart
    · rw [update_self]
      exact hkept hg
    · rwa [update_of_ne hne.symm]
  exact { h with
    batch := fun n hn => (h.batch n hn).imp_right (.imp_right (.imp_right hgroup))
    pending := h.pending.mono (s := s) rfl rfl hgroup (.inl ⟨rfl, id⟩) }

theorem Secured.proceed (hpc : s.writer = pc) (hlogs : pc.logs = false)
    (hbuffer : s'.buffer = s.buffer) (hlog : s'.disk.log b ≤ s.disk.log b)
    (hbatch : s.disk.batch b = none → s'.disk.batch b = none)
    (hpending : Pending c s b pc → Pending c s' b s'.writer) : Secured c s' b := by
  have hnone := hbatch (h.quiet (hpc ▸ hlogs))
  have hbound := h.bound
  exact
    { held := hbuffer ▸ h.held
      log := hbuffer ▸ hlog.trans h.log
      bound := by omega
      quiet := fun _ => hnone
      batch := fun k hk => nomatch hnone.symm.trans hk
      pending := hpending (hpc ▸ h.pending) }

/-! ## `DBWriter` -/

theorem Secured.checkWriteGroupState (hpc : s.writer = .checking)
    (hstep : checkWriteGroupState c s = some s') : Secured c s' b := by
  unfold WriteGroups.checkWriteGroupState at hstep
  split at hstep
  · exact some.inj hstep ▸ h.setCart id
  · exact some.inj hstep ▸ h.setCart id
  · exact some.inj hstep ▸ h.setCart id
  · split at hstep
    · exact some.inj hstep ▸ h.proceed hpc rfl rfl le_rfl (fun _ => rfl) (.imp_right .inl)
    · exact some.inj hstep ▸ h.proceed hpc rfl rfl le_rfl id (.imp_right .inl)
  · nomatch hstep

theorem Secured.logBuffer (hpc : s.writer = .logging flush i) : Secured c (logBuffer c flush i s) b := by
  have hpending : Pending c s b (.logging flush i) := hpc ▸ h.pending
  unfold WriteGroups.logBuffer
  split
  · next hi =>
    split
    · next hturn =>
      refine { h.setFlags i false _ with quiet := nofun, pending := ⟨hpending, ?_⟩ }
      rintro rfl
      exact ⟨hi, hturn.1⟩
    · exact { h with quiet := nofun, pending := hpending }
  · -- the batch is committed: its images are those of buffers in the group
    have hcommitted : (s.disk.batch b).getD (s.disk.log b) ≤ (s.buffer b).shadow ∧
        ((s.disk.batch b).getD (s.disk.log b) = 0 ∨ b < c.maxBuffers) ∧
        ((s.disk.batch b).getD (s.disk.log b) ≤ s.disk.written b ∨ s.syncGroup.buffers b ∨ s.group.buffers b) := by
      cases hk : s.disk.batch b with
      | none => exact ⟨h.log, h.bound, hpending⟩
      | some k =>
        obtain ⟨_, hle, hb, hgroup⟩ := h.batch k hk
        exact ⟨hle, .inr hb, .inr (.inr hgroup)⟩
    refine { h with
      log := hcommitted.1, bound := hcommitted.2.1, quiet := fun _ => rfl, batch := nofun, pending := ?_ }
    cases flush <;> exact hcommitted.2.2

theorem Secured.logImage (hpc : s.writer = .imaging flush i) : Secured c (logImage flush i s) b := by
  have hpending : Pending c s b (.imaging flush i) := hpc ▸ h.pending
  have hset := h.shadow i s.bufferGeneration false true
  refine { hset with quiet := nofun, batch := fun k hk => ?_, pending := hpending.1 }
  change update s.disk.batch i _ b = some k at hk
  change _ ∧ k ≤ (update s.buffer i _ b).shadow ∧ _
  obtain rfl | hne := eq_or_ne b i
  · rw [update_self] at hk ⊢
    obtain rfl := some.inj hk
    exact ⟨h.log_le_shadow .., le_rfl, hpending.2 rfl⟩
  · rw [update_of_ne hne] at hk
    exact hset.batch k hk

theorem Secured.settleGroup (hpc : s.writer = .loggedGroup) : Secured c (settleGroup c s) b := by
  unfold WriteGroups.settleGroup
  split
  · exact { h with }
  · split
    · exact h.proceed hpc rfl rfl le_rfl id (.imp_right Bool.or_eq_true_iff.mpr)
    · refine h.proceed hpc rfl rfl le_rfl id (.imp_right fun hl => ⟨Nat.zero_le b, ?_⟩)
      change (update s.carts s.cart _ s.cart).buffers b
      rw [update_self]
      exact Bool.or_eq_true_iff.mpr hl.symm

theorem Secured.flushMerge (hpc : s.writer = .flushMerging) : Secured c (flushMerge c s) b := by
  unfold WriteGroups.flushMerge
  split
  · exact { h with }
  · exact h.proceed hpc rfl rfl le_rfl id (.imp_right fun hl => ⟨Nat.zero_le b, Bool.or_eq_true_iff.mpr hl⟩)

theorem Secured.syncBuffer (hpc : s.writer = .syncing flush i) : Secured c (syncBuffer c flush i s) b := by
  unfold WriteGroups.syncBuffer
  split
  · split
    · exact (h.setFlags i _ false).proceed hpc rfl rfl le_rfl id id
    · next hout =>
      refine h.proceed hpc rfl rfl le_rfl id (.imp_right fun ⟨hle, hb⟩ => ⟨?_, hb⟩)
      exact Nat.lt_of_le_of_ne hle fun heq => hout (heq ▸ hb)
  · -- the list has been gone through
    have hdone (hp : Pending c s b (.syncing flush i)) : s.disk.log b ≤ s.disk.written b := by
      have hbound := h.bound
      obtain hp | ⟨hle, _⟩ := hp <;> omega
    split
    · dsimp only
      split
      · exact h.proceed hpc rfl rfl le_rfl id hdone
      · exact h.proceed hpc rfl rfl le_rfl id fun hp => .inl (hdone hp)
    · exact h.proceed hpc rfl rfl le_rfl id hdone

theorem Secured.writeBuffer (hpc : s.writer = .writing flush i) : Secured c (writeBuffer c flush i s) b := by
  have hset := h.shadow i s.bufferGeneration (!c.special i)
    ((s.buffer i).shadowIfNeeded s.bufferGeneration (!c.special i)).logged
  refine hset.proceed hpc rfl (by cases flush <;> rfl) le_rfl id fun hp => ?_
  change _ ≤ update s.disk.written i _ b ∨ _
  obtain rfl | hne := eq_or_ne b i
  · rw [update_self]
    exact .inl (h.log_le_shadow ..)
  · rw [update_of_ne hne]
    refine hp.imp_right fun ⟨hle, hb⟩ => ⟨Nat.lt_of_le_of_ne hle hne.symm, ?_⟩
    cases flush with
    | true => exact (update_of_ne hne ..).trans hb
    | false =>
      change (update s.carts s.cart _ s.cart).buffers b
      rw [update_self]
      exact (update_of_ne hne ..).trans hb

theorem Secured.clearLogs (hpc : s.writer = .clearing flush) : Secured c (clearLogs c flush s) b := by
  unfold WriteGroups.clearLogs
  cases c.logging with
  | false => cases flush <;> exact h.proceed hpc rfl rfl le_rfl id fun hp => .inl hp.1
  | true =>
    cases flush <;> exact h.proceed hpc rfl rfl (Nat.zero_le _) id fun _ => .inl (Nat.zero_le _)

theorem Secured.dbWriter (hstep : dbWriter c s = some s') : Secured c s' b := by
  unfold WriteGroups.dbWriter at hstep
  cases hpc : s.writer <;> rw [hpc] at hstep
  case checking => exact h.checkWriteGroupState hpc hstep
  all_goals obtain rfl := some.inj hstep
  case closed =>
    unfold beginLog
    split
    · exact h.proceed hpc rfl rfl le_rfl (fun _ => rfl) (.imp_right .inl)
    · exact h.proceed hpc rfl rfl le_rfl id (.imp_right .inl)
  case logging => exact h.logBuffer hpc
  case imaging => exact h.logImage hpc
  case transactions =>
    unfold logTransactions
    split
    · exact h.proceed hpc rfl rfl le_rfl id id
    · refine h.proceed hpc rfl rfl le_rfl id (.imp_right (.imp_right fun hb => ?_))
      change (update s.carts s.cart _ s.cart).buffers b
      rwa [update_self]
  case loggedGroup => exact h.settleGroup hpc
  case flushMerging => exact h.flushMerge hpc
  case syncing => exact h.syncBuffer hpc
  case writing => exact h.writeBuffer hpc
  case packaging => exact h.proceed hpc rfl rfl le_rfl id fun hp => ⟨hp, hp⟩
  case clearing => exact h.clearLogs hpc
  case lateTransactions =>
    unfold lateTransactions
    split <;> exact h.proceed hpc rfl rfl le_rfl id id
  case finishing => exact h.proceed hpc rfl rfl le_rfl id id

/-! ## Whole runs -/

theorem Secured.syncWriterStep {cached : Bool} (hstep : syncWriterStep c cached s = some s') : Secured c s' b := by
  unfold WriteGroups.syncWriterStep at hstep
  split at hstep
  · obtain ⟨_, rfl⟩ := of_guard hstep
    exact { h with }
  · next i _ =>
    split_ifs at hstep <;> obtain rfl := some.inj hstep <;>
      first | exact { h with } | exact { h.setFlags i _ false with }
  · next i _ =>
    obtain rfl := some.inj hstep
    have hset := h.shadow i s.bufferGeneration true ((s.buffer i).shadowIfNeeded s.bufferGeneration true).logged
    refine { hset with pending := h.pending.mono (s := s) rfl rfl id ?_ }
    obtain rfl | hne := eq_or_ne b i
    · right
      change _ ≤ update s.disk.written b _ b
      rw [update_self]
      exact h.log_le_shadow ..
    · exact .inl ⟨update_of_ne hne .., fun hb => (update_of_ne hne ..).trans hb⟩

theorem Secured.step {e : Event} (hstep : next c s e = some s') : Secured c s' b := by
  cases e with
  | access x => exact some.inj hstep ▸ h.shadow x s.bufferGeneration false _
  | change x =>
    refine some.inj hstep ▸ h.setBuffer ?_
    rintro rfl
    exact ⟨le_rfl, Nat.le_succ_of_le h.held⟩
  | register x =>
    obtain ⟨_, rfl⟩ := of_guard hstep
    refine { h.setCart (k := s.logGroup) fun hb => ?_ with }
    obtain rfl | hne := eq_or_ne b x
    · exact update_self ..
    · exact (update_of_ne hne ..).trans hb
  | markDirty x generation =>
    obtain ⟨_, rfl⟩ := of_guard hstep
    exact { h.setFlags x true _ with }
  | setCommitInfo x => exact some.inj hstep ▸ h.setFlags x true _
  | commit | requestSnapshot | flushAllDirtyBuffers | timeout =>
    obtain ⟨_, rfl⟩ := of_guard hstep
    exact h.setCart id
  | close =>
    obtain ⟨⟨hpc, _⟩, rfl⟩ := of_guard hstep
    exact h.proceed hpc rfl rfl le_rfl id id
  | writer => exact h.dbWriter hstep
  | syncWriter cached => exact h.syncWriterStep hstep

end

def ExpiresSynced (s : Server) : Prop :=
  (∀ b k, s.disk.batch b = some k → s.disk.log b ≤ k) ∧
    ∀ flush, s.writer = .clearing flush → ∀ b, s.disk.log b ≤ s.disk.synced b

/-- Whenever `ClearLogs` is due, the disk has of every block its last image in the log, which is the
newest. -/
theorem cleared_images_synced (c : Config) {events : List MachineEvent} {m : Machine}
    (r : Run (Machine.Step c fun _ _ => true) (.init c) events m) : ExpiresSynced m.server := by
  have h (b : Nat) : Secured c m.server b := calm_run (P := (Secured c · b)) (fun _ _ _ h _ => h.step)
    ⟨le_rfl, le_rfl, .inl rfl, fun _ => rfl, nofun, .inl le_rfl⟩ r
  refine ⟨fun b k hk => ((h b).batch k hk).1, fun flush hpc b => ?_⟩
  have hpending : Pending c m.server b (.clearing flush) := hpc ▸ (h b).pending
  exact hpending.2

theorem cleared_images_synced_one :
    ∃ m, perform (fun m e => if Machine.allows m (fun _ _ => true) e then m.next (sampleConfig true) e
        else none) (.init (sampleConfig true)) (steps (emptyGroup ++
          [.change 0, .register 0, .markDirty 0 1, .commit 7 false, .close] ++
            List.replicate 11 .writer)) = some m ∧
      m.server.disk.log 0 = 1 ∧ m.server.disk.log 0 ≤ m.server.disk.synced 0 := by
  refine exists_of_map (fun m => (m.server.writer, m.server.disk.log 0)) (.clearing false, 1) (by decide)
    fun m hm heq => ?_
  obtain ⟨hpc, hlog⟩ := Prod.mk.inj heq
  exact ⟨hlog, (cleared_images_synced _ (.of_perform hm)).2 false hpc 0⟩

/-- Two buffers, of which `FlushWriteGroup` leaves none in the log. -/
def smallConfig : Config := ⟨2, 4, 0, true, fun _ => false⟩

/-- `LogTransactions` of a group finds no free buffer, and `DBWriter` flushes the group after it. -/
def flushedInside : List MachineEvent :=
  steps ([.requestSnapshot, .close] ++ List.replicate 13 .writer ++
    [.change 0, .register 0, .markDirty 0 1, .commit 7 true, .close, .change 1, .register 1,
      .markDirty 1 2] ++ List.replicate 5 .writer) ++ [.selfFlush] ++ steps (List.replicate 10 .writer)

def expiresUnsynced (m : Machine) : Bool :=
  decide (m.server.writer = .clearing true ∨ m.server.writer = .clearing false) &&
    decide (m.server.disk.synced 0 < m.server.disk.log 0)

theorem not_expiresSynced {m : Machine} (h : expiresUnsynced m) : ¬ ExpiresSynced m.server := by
  obtain ⟨hpc, hlt⟩ := Bool.and_eq_true_iff.mp h
  intro hexpires
  refine Nat.not_le_of_lt (of_decide_eq_true hlt) ?_
  exact (of_decide_eq_true hpc).elim (fun hpc => hexpires.2 true hpc 0) fun hpc => hexpires.2 false hpc 0

theorem log_expires_unsynced :
    (∃ m, perform (Machine.next (sampleConfig true)) (.init (sampleConfig true)) lateMark = some m ∧
      ¬ ExpiresSynced m.server) ∧
    ∃ m, perform (Machine.next smallConfig) (.init smallConfig) flushedInside = some m ∧
      ¬ ExpiresSynced m.server := by
  constructor
  · exact exists_of_map expiresUnsynced true (by decide) fun _ _ => not_expiresSynced
  · exact exists_of_map expiresUnsynced true (by decide) fun _ _ => not_expiresSynced

end WeaverDB.WriteGroups
