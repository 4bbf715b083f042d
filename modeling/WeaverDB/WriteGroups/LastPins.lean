import WeaverDB.WriteGroups.PinSteps

/-! # The last pin goes after the write, in whole runs

Every steady step keeps the invariant, so the block of a buffer that no group holds has all that was
registered of it.
-/

namespace WeaverDB.WriteGroups
open Foundations Option Bool Function

variable {t s : Server} {c : Config} {r : Registration}

theorem turned_lists (k : Bool) : ((turned s).carts k).buffers = (s.carts k).buffers ∧
    ((turned s).carts k).loggable = (s.carts k).loggable := by
  let lists (g : WriteGroup) := (g.buffers, g.loggable)
  have hadvanced := setCart_eq (s := s) (k := !s.cart) lists (g := { s.carts (!s.cart) with
    currstate := .notReady, generation := s.group.generation + 1 }) rfl
  have hrunning := setCart_eq lists (g := { s.group with currstate := .running }) (hadvanced s.cart).symm
  exact Prod.mk.inj ((hrunning k).trans (hadvanced k))

theorem Covered.advanceWriteGroupQueue (h : Covered c s) (hpc : s.writer = .checking) : Covered c (turned s) := by
  have hold (r : Registration) (hr : r ∈ s.registered) := turned_registered h.ring hpc (h.rolls.generation r hr)
  have hpinned (b : Nat) : (turned s).pinned b = s.pinned b := by
    unfold Server.pinned
    rw [(turned_lists false).1, (turned_lists true).1]
    rfl
  refine ⟨h.ring.turn, h.shadows.turn hpc,
    { h.rolls.enrolled.turn h.ring hpc, h.rolls with
      carts := fun k => ?_, done := nofun, loggable := fun k => ?_ }, ⟨h.found.snap, ?_, ?_, ?_, nofun, ?_⟩⟩
  · rw [(turned_lists k).1]
    exact h.rolls.carts k
  · rw [(turned_lists k).2]
    exact h.rolls.loggable k
  · exact fun r hr ho hlt => h.found.earlier r hr ho (lt_of_lt_of_eq hlt turned_group_generation)
  · intro _ r hr ho hg
    have hok := h.found.current r hr ho ((hold r hr).2 hg)
    rw [hpc] at hok
    exact hok.imp_right fun hkept => hkept.resolve_right id
  · exact fun r hr _ hg => absurd hg (ne_of_lt (hold r hr).1)
  · exact fun r hr hpin => h.found.written r hr ((hpinned r.buf).symm.trans hpin)

theorem Covered.finishWriteGroup (h : Covered c s) (hpc : s.writer = .finishing) :
    Covered c (finishWriteGroup c s) := by
  have hchecking : s.writer ≠ .checking := hpc ▸ nofun
  have hcurrent := finished_current (c := c) h.ring hchecking
  have hgroupGen := finished_group_generation (c := c) h.ring hchecking
  have hempty (b : Nat) : s.group.buffers b = false := h.rolls.done b (hpc ▸ rfl)
  refine ⟨h.ring.finish hchecking, h.shadows.finish h.ring (hpc ▸ rfl) hchecking,
    { h.rolls.enrolled.finish h.ring hchecking, h.rolls with
      carts := ?_, done := nofun, loggable := ?_ }, ⟨h.found.snap, ?_, fun hp => absurd rfl hp, ?_, nofun, ?_⟩⟩
  · exact setCart_all (fun g => ∀ b, g.buffers b → b < c.maxBuffers) nofun h.rolls.carts
  · exact setCart_all (·.loggable → c.logging) id h.rolls.loggable
  · intro r hr ho hlt
    obtain hlt | heq := lt_or_eq_of_le (Nat.le_of_lt_succ (lt_of_lt_of_eq hlt hgroupGen))
    · exact h.found.earlier r hr ho hlt
    · have hok := h.found.closed hchecking r hr ho heq
      rw [hpc] at hok
      exact hok.resolve_right id
  · intro r hr ho hg
    have hok := h.found.current r hr ho (hg.trans (congrArg WriteGroup.generation hcurrent))
    rw [hpc] at hok
    exact hok
  · intro r hr hpin
    obtain ⟨hlists, hsync⟩ := pinned_eq_false.mp hpin
    refine h.written_of_lists hchecking hr ?_ (hempty r.buf) hsync
    rw [← hcurrent]
    exact hlists s.logGroup

theorem Due.group {pc : WriterPc} (hpast : pc.past) (h : Due c s r pc) : s.group.buffers r.buf := by
  cases pc with
  | checking | closed | logging | imaging => nomatch hpast
  | transactions | loggedGroup | syncing | writing => exact h.2
  | flushMerging | packaging | clearing | lateTransactions | finishing => exact h.elim

section

variable (h : Covered c s)
include h

theorem Covered.shadowed_of_unlisted (hr : r ∈ s.registered) (ho : c.special r.buf = false)
    (hcarts : ∀ k, (s.carts k).buffers r.buf = false) : Shadowed s r := by
  have hgroup : ¬ s.group.buffers r.buf := ne_true_of_eq_false (hcarts s.cart)
  have hcurrent : ¬ s.current.buffers r.buf := ne_true_of_eq_false (hcarts s.logGroup)
  have hlt : r.generation < s.current.generation :=
    lt_of_le_of_ne (h.rolls.generation r hr) fun heq => hcurrent (h.rolls.queued r hr heq)
  obtain hpc | hpc := eq_or_ne s.writer .checking
  · exact h.found.earlier r hr ho (current_eq_group h.ring hpc ▸ hlt)
  · rw [(h.ring.closed_ hpc).2] at hlt
    obtain hlt | heq := lt_or_eq_of_le (Nat.le_of_lt_succ hlt)
    · exact h.found.earlier r hr ho hlt
    · refine (h.found.closed hpc r hr ho heq).resolve_right fun hdue => ?_
      cases hpast : s.writer.past with
      | false => exact hgroup (h.rolls.closed hpast r hr heq)
      | true => exact hgroup (hdue.group hpast)

theorem Covered.written_by_sync {i : Nat} (hr : r ∈ s.registered) (hi : r.buf = i)
    (ho : c.special i = false) (hcarts : ∀ k, (s.carts k).buffers i = false) :
    r.version ≤ ((s.buffer i).shadowIfNeeded s.bufferGeneration true).shadow := by
  have hversion : r.version ≤ (s.buffer i).data := hi ▸ h.rolls.version r hr
  subst hi
  have hshadowed := h.shadowed_of_unlisted hr ho hcarts
  unfold BufferDesc.shadowIfNeeded
  split
  · exact hversion
  · next hold =>
    refine hshadowed.resolve_right fun hzero => hold ?_
    rw [hzero]
    exact (Nat.eq_zero_or_pos s.bufferGeneration).symm.imp_right fun h0 => ⟨rfl, h0.symm⟩

theorem Covered.syncWrite {i : Nat} (hpc : s.syncWriter = .writing i) :
    let d := (s.buffer i).shadowIfNeeded s.bufferGeneration true
    Covered c { (s.setBuffer i d).dropFromList true i with
      disk := { s.disk with written := update s.disk.written i d.shadow }
      syncWriter := .syncing (i+1) } := by
  intro d
  have hp : s.syncWriter ≠ .idle := by rw [hpc]; exact SyncPc.noConfusion
  have hwritten {r : Registration} (hr : r ∈ s.registered) (hcarts : ∀ k, (s.carts k).buffers r.buf = false)
      (hother : r.buf ≠ i → s.syncGroup.buffers r.buf = false) :
      r.version ≤ update s.disk.written i d.shadow r.buf := by
    obtain hi | hne := eq_or_ne r.buf i
    · rw [hi, update_self]
      exact h.written_by_sync hr hi (h.rolls.ordinary i hpc) (hi ▸ hcarts)
    · rw [update_of_ne hne]
      exact h.found.written r hr (pinned_eq_false.mpr ⟨hcarts, hother hne⟩)
  have hset : Covered c (s.setBuffer i d) := h.setBuffer (renewed_shadow h.shadows i true)
    fun hdirty => (shadowIfNeeded_dirty ..).trans hdirty
  have hdisk : Covered c { s.setBuffer i d with
      disk := { s.disk with written := update s.disk.written i d.shadow } } := by
    refine hset.others fun r hr hpin => ?_
    obtain ⟨hcarts, hsync⟩ := pinned_eq_false.mp hpin
    exact hwritten hr hcarts fun _ => hsync
  refine hdisk.setSync h.ring.syncGeneration (fun _ => of_decide_eq_true (h.ring.busy hp))
    (fun hw => absurd (h.ring.syncs hw).1 hp) ?_ (fun _ hw => SyncPc.noConfusion hw) ?_
  · intro b hb
    change update s.syncGroup.buffers i false b at hb
    rw [update_apply] at hb
    split at hb
    · cases hb
    · exact hb
  · intro r hr hcarts hsync
    refine hwritten hr hcarts fun hne => ?_
    change update s.syncGroup.buffers i false r.buf = false at hsync
    rwa [update_of_ne hne] at hsync

theorem Covered.syncWriterBegin (hlogs : s.writer.logs = false) (hwaiting : s.syncGroup.currstate = .waiting) :
    Covered c { s with
      syncGroup := { s.syncGroup with currstate := .flushing }
      bufferGeneration := s.syncGroup.generation
      syncWriter := .syncing 0 } := by
  have hnot : ¬ s.writer.logs := ne_true_of_eq_false hlogs
  have hsyncs : s.writer.syncs = false := eq_false_of_ne_true fun hp => (h.ring.syncs hp).2 hwaiting
  have hset : Covered c { s with bufferGeneration := s.syncGroup.generation } := by
    refine ⟨{ h.ring with }, ?_, { h.rolls with }, { h.found with closed := ?_, current := ?_, image := ?_ }⟩
    · exact h.shadows.setGeneration hlogs hsyncs (h.ring.syncGeneration ▸ Nat.zero_le _)
    · refine fun hpc r hr ho hg => (h.found.closed hpc r hr ho hg).imp_right fun hdue => ?_
      change Due c _ r s.writer
      cases hw : s.writer with
      | imaging => rw [hw] at hnot; exact absurd rfl hnot
      | _ => rw [hw] at hdue; exact hdue
    · refine fun r hr ho hg => (h.found.current r hr ho hg).imp_right (.imp_right fun htaken => ?_)
      change Taken _ r s.writer
      cases hw : s.writer with
      | imaging => rw [hw] at hnot; exact absurd rfl hnot
      | _ => rw [hw] at htaken; exact htaken
    · exact fun r _ _ hto => absurd (stillToLog_logs hto) hnot
  exact hset.setSyncState (fun _ => .inl rfl) (fun hp => absurd (hsyncs.symm.trans hp) (by decide))
    nofun

theorem Covered.syncWriterStep {cached : Bool} (hstart : s.syncWriter = .idle → s.writer.logs = false)
    (hstep : syncWriterStep c cached s = some t) : Covered c t := by
  unfold WriteGroups.syncWriterStep at hstep
  cases hpc : s.syncWriter with
  | idle =>
    simp only [hpc, ite_none_right_eq_some] at hstep
    exact some.inj hstep.2 ▸ h.syncWriterBegin (hstart hpc) hstep.1
  | syncing i =>
    obtain ⟨hbusy, hsyncs⟩ := h.ring.sync_working (hpc ▸ nofun)
    have hdone : Covered c (syncWriterDone s) := h.setSyncState (fun hp => absurd rfl hp) hsyncs.elim nofun
    have hon : Covered c { s with syncWriter := .syncing (i+1) } := h.setSyncState (fun _ => hbusy) hsyncs.elim nofun
    simp only [hpc] at hstep
    split at hstep
    · split at hstep
      · exact some.inj hstep ▸ hon
      · split at hstep
        · exact some.inj hstep ▸ hdone
        · split at hstep
          · exact some.inj hstep ▸ hon
          · next hcached =>
            have hset : Covered c (s.setBuffer i { s.buffer i with logged := false }) :=
              h.setBuffer ((Renewed.refl h.shadows i).flags _ false) id
            have hordinary : c.special i = false := eq_false_of_ne_true fun hs => hcached (.inl hs)
            refine some.inj hstep ▸ hset.setSyncState (fun _ => hbusy) hsyncs.elim ?_
            rintro j heq
            injection heq with heq
            exact heq ▸ hordinary
    · exact some.inj hstep ▸ hdone
  | writing i =>
    simp only [hpc] at hstep
    exact some.inj hstep ▸ h.syncWrite hpc

theorem Covered.checkWriteGroupState (hstep : checkWriteGroupState c s = some t) : Covered c t := by
  unfold WriteGroups.checkWriteGroupState at hstep
  split at hstep
  · exact some.inj hstep ▸ h.setCart rfl rfl nofun id
  · exact some.inj hstep ▸ h.setCart rfl rfl nofun id
  · exact some.inj hstep ▸ h.setCart rfl rfl nofun id
  · next hflushing => exact absurd hflushing (h.ring.calm s.cart)
  · nomatch hstep

theorem Covered.dbWriter (hover : passesOver c s s.writer = false) (hstep : dbWriter c s = some t) : Covered c t := by
  have hflush := h.ring.unflushed
  unfold WriteGroups.dbWriter at hstep
  cases hpc : s.writer <;> rw [hpc] at hstep hflush
  case checking => exact h.checkWriteGroupState hstep
  all_goals obtain rfl := some.inj hstep
  case closed => exact h.beginLog hpc
  case logging f i =>
    obtain rfl : f = false := hflush
    exact h.logBuffer hpc hover
  case imaging f i =>
    obtain rfl : f = false := hflush
    exact h.logImage hpc
  case transactions => exact h.logTransactions hpc
  case loggedGroup => exact h.settleGroup hpc
  case flushMerging => nomatch hflush
  case syncing f i =>
    obtain rfl : f = false := hflush
    exact h.syncBuffer hpc
  case writing f i =>
    obtain rfl : f = false := hflush
    exact h.writeBuffer hpc
  case packaging f =>
    obtain rfl : f = false := hflush
    exact h.commitPackage hpc
  case clearing f =>
    obtain rfl : f = false := hflush
    exact h.clearLogs hpc
  case lateTransactions => exact h.lateTransactions hpc
  case finishing => exact h.finishWriteGroup hpc

theorem Covered.step {e : Event} (hok : steady c s e) (hstep : next c s e = some t) : Covered c t := by
  cases e with
  | access b =>
    exact some.inj hstep ▸ h.setBuffer (renewed_shadow h.shadows b false)
      fun hdirty => (shadowIfNeeded_dirty ..).trans hdirty
  | change b =>
    exact some.inj hstep ▸ h.setBuffer ⟨grown_change h.shadows b, .inl rfl⟩ id
  | register b =>
    obtain ⟨hopen, rfl⟩ := of_guard hstep
    refine h.enlist hopen.1 (fun hs => ?_) fun hs => ?_
    · simp only [steady, hs, if_true, bne_iff_ne] at hok
      exact hok
    · simp only [steady, hs, false_eq_true, if_false, not_eq_true'] at hok
      exact hok
  | markDirty b generation =>
    obtain ⟨_, rfl⟩ := of_guard hstep
    have hset : Covered c (s.setBuffer b { s.buffer b with dirty := true }) :=
      h.setBuffer ((Renewed.refl h.shadows b).flags true _) fun _ => rfl
    have hdirty : ((s.setBuffer b { s.buffer b with dirty := true }).buffer b).dirty :=
      (congrArg BufferDesc.dirty (update_self ..)).trans rfl
    exact hset.unmark hdirty
  | setCommitInfo b =>
    exact some.inj hstep ▸ h.setBuffer ((Renewed.refl h.shadows b).flags true _) fun _ => rfl
  | commit xid loggable =>
    obtain ⟨_, rfl⟩ := of_guard hstep
    exact h.setCart rfl rfl (signal_ne_flushing (h.ring.calm s.logGroup)) fun hl => (and_eq_true_iff.mp hl).1
  | requestSnapshot =>
    obtain ⟨_, rfl⟩ := of_guard hstep
    exact h.setCart rfl rfl (signal_ne_flushing (h.ring.calm s.logGroup)) id
  | flushAllDirtyBuffers => nomatch hok
  | timeout primed =>
    obtain ⟨_, rfl⟩ := of_guard hstep
    refine h.setCart rfl rfl ?_ id
    cases primed <;> nofun
  | close =>
    obtain ⟨hready, rfl⟩ := of_guard hstep
    exact h.advanceWriteGroupQueue hready.1
  | writer => exact h.dbWriter (not_eq_true' _ ▸ hok) hstep
  | syncWriter cached =>
    refine h.syncWriterStep (fun hidle => ?_) hstep
    have hquiet := ((or_eq_true ..).mp hok).resolve_left fun hne => (bne_iff_ne.mp hne) hidle
    exact not_eq_true' _ ▸ hquiet

end

/-- **Last pins.** The block of a buffer that no group holds has all that was registered of it. -/
theorem unpinned_blocks_written (c : Config) {events : List MachineEvent} {m : Machine}
    (r : Run (Machine.Step c (steady c)) (.init c) events m) : UnpinnedWritten m.server :=
  (calm_run (fun _ _ _ h hok hnext => h.step hok hnext) (covered_init c) r).found.written

def oneCommitSynced : List MachineEvent :=
  oneCommit ++ steps [.writer, .writer, .syncWriter true, .syncWriter true, .syncWriter true]

theorem unpinned_blocks_written_one :
    ∃ m, perform (fun m e => if Machine.allows m (steady (sampleConfig true)) e then
        m.next (sampleConfig true) e else none) (.init (sampleConfig true)) oneCommitSynced = some m ∧
      m.server.registered = [⟨0, 1, 1⟩] ∧ m.server.pinned 0 = false ∧ UnpinnedWritten m.server := by
  refine exists_of_map (fun m => (m.server.registered, m.server.pinned 0)) ([⟨0, 1, 1⟩], false) (by decide)
    fun m hm hview => ?_
  obtain ⟨hregistered, hpinned⟩ := Prod.mk.inj hview
  exact ⟨hregistered, hpinned, unpinned_blocks_written (sampleConfig true) (.of_perform hm)⟩

/-- The flush takes the shadow, the block is changed again, and `SyncWriter` drops the pin. -/
def flushedGroup : List MachineEvent :=
  steps (emptyGroup ++ [.change 0, .register 0, .markDirty 0 1, .flushAllDirtyBuffers,
    .writer, .writer, .writer, .writer, .writer, .writer, .writer, .writer,
    .change 0, .register 0, .markDirty 0 1, .commit 7 true, .close,
    .writer, .writer, .writer, .writer, .writer, .writer, .writer,
    .syncWriter true, .syncWriter true, .syncWriter true])

def lostUpdate (r : Registration) (m : Machine) : Bool :=
  decide (r ∈ m.server.registered ∧ m.server.pinned r.buf = false ∧ m.server.disk.written r.buf < r.version)

theorem not_unpinnedWritten_of_lostUpdate {m : Machine} (h : lostUpdate r m) : ¬ UnpinnedWritten m.server := by
  obtain ⟨hr, hpinned, hlt⟩ := of_decide_eq_true h
  exact fun hwritten => Nat.not_le_of_lt hlt (hwritten _ hr hpinned)

theorem unpinned_block_stale :
    (∃ m, perform (Machine.next (sampleConfig true)) (.init (sampleConfig true)) flushedGroup = some m ∧
      ¬ UnpinnedWritten m.server) ∧
    ∃ m, perform (Machine.next (sampleConfig true)) (.init (sampleConfig true)) lateMark = some m ∧
      ¬ UnpinnedWritten m.server := by
  constructor
  · exact exists_of_map (lostUpdate ⟨0, 2, 1⟩) true (by decide) fun _ _ => not_unpinnedWritten_of_lostUpdate
  · exact exists_of_map (lostUpdate ⟨0, 2, 2⟩) true (by decide) fun _ _ => not_unpinnedWritten_of_lostUpdate

end WeaverDB.WriteGroups
