import WeaverDB.WriteGroups.Steps

/-! # Writing and syncing the blocks

After `LogBuffers` the changes of the group are safe. A logged image must not be forgotten before its
block is synced, and a change registered while its buffer is written must still reach a list.
-/

namespace WeaverDB.WriteGroups
open Function Bool

variable {pc : WriterPc} {i gen j : Nat} {p : SyncPc} {sync g : WriteGroup} {c : Config} {s : Server}

theorem WriterPc.not_early_of_past (h : pc.past) : pc.early = false := by
  cases pc <;> first | rfl | nomatch h

theorem WriterPc.not_logs_of_past (h : pc.past) : pc.logs = false := by
  cases pc <;> first | rfl | nomatch h

theorem WriterPc.not_early_of_logs (h : pc.logs) : pc.early = false := by
  cases pc <;> first | rfl | nomatch h

theorem WriterPc.ne_checking_of_past (h : pc.past) : pc ≠ .checking := by
  rintro rfl
  nomatch h

theorem stillToLog_logs {b : Nat} (h : stillToLog s b pc) : pc.logs := by
  cases pc <;> first | rfl | nomatch h

theorem Pool.batch_none (h : Pool s) (hlogs : s.writer.logs = false) (b : Nat) : s.disk.batch b = none := by
  cases hk : s.disk.batch b with
  | none => rfl
  | some k => exact absurd (hlogs.symm.trans (h.batch b k hk).2.2.1) (by decide)

/-! ## Small steps -/

theorem Invariant.advance (h : Invariant c s) {old : WriterPc} (hold : s.writer = old)
    (hpast : old.past) (hpast' : pc.past) (hflush : pc.flushes = false)
    (hsyncs : pc.syncs → s.syncWriter = .idle ∧ s.syncGroup.currstate ≠ .waiting)
    (hpass : pc.syncs → s.bufferGeneration = s.group.generation)
    (hflying : ∀ r ∈ s.registered, c.special r.buf = false → Flying s r old → Safe s r ∨ Flying s r pc)
    (howed : ∀ b, Owed s b old → Owed s b pc) : Invariant c { s with writer := pc } := by
  subst hold
  have hlogs := WriterPc.not_logs_of_past hpast
  have hlogs' := WriterPc.not_logs_of_past hpast'
  have hchecking := WriterPc.ne_checking_of_past hpast
  refine ⟨h.ring.move _ hchecking (WriterPc.ne_checking_of_past hpast') hflush hsyncs,
    h.pool.move _ (WriterPc.not_early_of_past hpast) (WriterPc.not_early_of_past hpast') ?_ ?_,
    h.lists.move _ (WriterPc.not_early_of_past hpast') ?_ ?_, ?_, h.commits_move fun _ => hpast'⟩
  · exact fun hp => hpass (hp.resolve_left (ne_true_of_eq_false hlogs'))
  · exact fun hp => absurd (hlogs.symm.trans hp) (by decide)
  · rintro f i rfl
    nomatch hlogs'
  · exact fun hp => absurd (hpast'.symm.trans hp) (by decide)
  refine ⟨h.kept.earlier, ?_, ?_, ?_, fun b => howed b (h.kept.owed b)⟩
  · intro _ r hr ho hg
    have hsafe := (h.kept.closed hchecking r hr ho hg).safe hpast
    change ClosedOk s r pc
    cases pc <;> first | exact hsafe | nomatch hpast'
  · intro r hr ho hg
    exact (h.kept.current r hr ho hg).imp_right fun hkept =>
      hkept.elim .inl (hflying r hr ho)
  · exact fun r _ hto => absurd (hlogs'.symm.trans (stillToLog_logs hto)) (by decide)

theorem Ring.setSync (h : Ring s) (hgeneration : sync.generation = 0)
    (hbusy : p ≠ .idle → sync.currstate = .flushing ∨ sync.currstate = .completed)
    (hsyncs : s.writer.syncs → p = .idle ∧ sync.currstate ≠ .waiting) :
    Ring { s with syncGroup := sync, syncWriter := p } :=
  { h with
    syncGeneration := hgeneration
    busy := fun hp => decide_eq_true (hbusy hp)
    syncs := hsyncs }

theorem Enrolled.regroup (h : Enrolled s) (hring : Ring s) (hpast : s.writer.past) {n : Nat} :
    Enrolled { s.setCart s.cart g with syncGroup := sync, syncBuffers := n } := by
  have hchecking := WriterPc.ne_checking_of_past hpast
  have hcurrent : (s.setCart s.cart g).current = s.current := update_of_ne (cart_ne_logGroup hring hchecking).symm ..
  refine ⟨fun hpc => absurd hpc hchecking, h.version, ?_, ?_, fun hp => absurd (hpast.symm.trans hp) (by decide)⟩
  · change ∀ r ∈ s.registered, r.generation ≤ (s.setCart s.cart g).current.generation
    rw [hcurrent]
    exact h.generation
  · change ∀ r ∈ s.registered, r.generation = (s.setCart s.cart g).current.generation →
      (s.setCart s.cart g).current.buffers _
    rw [hcurrent]
    exact h.queued

theorem Invariant.regroup (h : Invariant c s) (hpast : s.writer.past) {n : Nat}
    (hgeneration : g.generation = s.group.generation) (hcalm : g.currstate ≠ .flushing)
    (hsyncGen : sync.generation = 0)
    (hbusy : s.syncWriter ≠ .idle → sync.currstate = .flushing ∨ sync.currstate = .completed)
    (hsyncs : s.writer.syncs → sync.currstate ≠ .waiting)
    (hgroup : ∀ b, g.buffers b → b < c.maxBuffers)
    (hsync : ∀ b, sync.buffers b → b < c.maxBuffers) (howed : ∀ b, Owed s b s.writer →
      Owed { s.setCart s.cart g with syncGroup := sync, syncBuffers := n } b s.writer) :
    Invariant c { s.setCart s.cart g with syncGroup := sync, syncBuffers := n } := by
  let s' : Server := { s.setCart s.cart g with syncGroup := sync, syncBuffers := n }
  have hchecking := WriterPc.ne_checking_of_past hpast
  have hlate := WriterPc.not_early_of_past hpast
  have hlogs := WriterPc.not_logs_of_past hpast
  have hg' : s'.group = g := update_self ..
  have hgen : s'.group.generation = s.group.generation := by rw [hg', hgeneration]
  have hcurrent : s'.current = s.current := update_of_ne (cart_ne_logGroup h.ring hchecking).symm ..
  refine ⟨?_, ?_, ?_, ?_, ?_⟩
  · exact { (h.ring.setCart hgeneration hcalm).setSync hsyncGen hbusy fun hp => ⟨(h.ring.syncs hp).1, hsyncs hp⟩ with }
  · exact { h.pool.shadows.setCart hgeneration, h.pool with
      batch := fun b k hk => absurd ((h.pool.batch_none hlogs b).symm.trans hk) nofun }
  · refine { h.lists.enrolled.regroup h.ring hpast with
      group := ?_, sync := hsync, current := ?_, imaging := ?_, first := ?_ }
    · intro b hb
      change s'.group.buffers b at hb
      exact hgroup b (by rwa [hg'] at hb)
    · change ∀ b, s'.current.buffers b → _
      rw [hcurrent]
      exact h.lists.current
    · intro f i hpc
      change s.writer = _ at hpc
      rw [hpc] at hlogs
      nomatch hlogs
    · exact fun hearly => absurd (hlate.symm.trans hearly) (by decide)
  · refine ⟨?_, ?_, ?_, ?_, fun b => howed b (h.kept.owed b)⟩
    · intro r hr ho hlt
      exact h.kept.earlier r hr ho (lt_of_lt_of_eq hlt hgen)
    · intro hpc r hr ho heq
      exact (h.kept.closed hpc r hr ho (heq.trans hgen)).mono s s' id (fun _ => le_rfl) id id id
    · intro r hr ho heq
      exact h.kept.current r hr ho (heq.trans (congrArg WriteGroup.generation hcurrent))
    · exact fun r _ hto => absurd (hlogs.symm.trans (stillToLog_logs hto)) (by decide)
  · intro xid g' hcommit
    change g' ≤ s'.group.generation ∧ (g' = s'.group.generation → _)
    rw [hgen]
    exact h.commits xid g' hcommit

theorem Shadows.setGeneration (h : Shadows s) (hlogs : s.writer.logs = false)
    (hsyncs : s.writer.syncs = false) (hgen : gen ≤ generationBound s) :
    Shadows { s with bufferGeneration := gen } :=
  { h with
    bound := hgen
    pass := fun hp => absurd hp (not_or.mpr ⟨ne_true_of_eq_false hlogs, ne_true_of_eq_false hsyncs⟩) }

section

variable (h : Invariant c s)
include h

theorem Invariant.setGeneration (hlogs : s.writer.logs = false) (hsyncs : s.writer.syncs = false)
    (hgen : gen ≤ generationBound s) : Invariant c { s with bufferGeneration := gen } := by
  have hnot : ¬ s.writer.logs := ne_true_of_eq_false hlogs
  refine ⟨{ h.ring with }, { h.pool.shadows.setGeneration hlogs hsyncs hgen, h.pool with },
    { h.lists with }, ?_, h.commits⟩
  refine ⟨h.kept.earlier, ?_, ?_, fun r _ hto => absurd (stillToLog_logs hto) hnot, h.kept.owed⟩
  · exact fun hpc r hr ho hg => (h.kept.closed hpc r hr ho hg).mono s
      { s with bufferGeneration := gen } id (fun hl => absurd hl hnot) id id id
  · exact fun r hr ho hg => (h.kept.current r hr ho hg).imp_right (.imp_right (Flying.mono s
      { s with bufferGeneration := gen } id (fun hl => absurd hl hnot) (le_rfl)))

theorem Invariant.write {written synced : Nat → Nat}
    (hwritten : ∀ b, s.disk.written b ≤ written b) (hshadow : ∀ b, written b ≤ (s.buffer b).shadow)
    (hsynced : ∀ b, s.disk.synced b ≤ synced b) (hle : ∀ b, synced b ≤ written b) :
    Invariant c { s with disk := { s.disk with written := written, synced := synced } } := by
  let s' : Server := { s with disk := { s.disk with written := written, synced := synced } }
  have hsafe (r : Registration) : Safe s r → Safe s' r := .imp_right fun hr => hr.trans (hsynced r.buf)
  refine ⟨{ h.ring with }, { h.pool with written := hshadow, synced := hle }, { h.lists with }, ?_, h.commits⟩
  refine ⟨fun r hr ho hg => hsafe r (h.kept.earlier r hr ho hg), ?_, ?_, h.kept.image, ?_⟩
  · exact fun hpc r hr ho hg => (h.kept.closed hpc r hr ho hg).mono s s' id (fun _ => le_rfl) id id (hsafe r)
  · exact fun r hr ho hg => (h.kept.current r hr ho hg).imp_right (.imp (hsafe r)
      (Flying.mono s s' id (fun _ => le_rfl) (hwritten r.buf)))
  · exact fun b => (h.kept.owed b).mono s s' rfl (hsynced b) (hwritten b) id .inl

theorem Invariant.setSync {state : WriterState} (hbusy : p ≠ .idle → state = .flushing ∨ state = .completed)
    (hsyncs : s.writer.syncs → p = .idle ∧ state ≠ .waiting) :
    Invariant c { s with syncGroup := { s.syncGroup with currstate := state }, syncWriter := p } :=
  { ring := h.ring.setSync h.ring.syncGeneration hbusy hsyncs
    pool := { h.pool with }
    lists := { h.lists with }
    kept := { h.kept with
      owed := fun b => (h.kept.owed b).mono s _ rfl (le_rfl) (le_rfl) id .inl }
    commits := h.commits }

theorem Invariant.dropSync (hwritten : s.disk.log i ≤ s.disk.written i) :
    Invariant c { s with syncGroup := { s.syncGroup with buffers := update s.syncGroup.buffers i false } } := by
  refine ⟨{ h.ring with }, { h.pool with }, { h.lists with sync := ?_ }, { h.kept with owed := ?_ }, h.commits⟩
  · intro b hb
    change update s.syncGroup.buffers i false b at hb
    rw [update_apply] at hb
    split at hb
    · cases hb
    · exact h.lists.sync b hb
  · refine fun b => (h.kept.owed b).mono s _ rfl (le_rfl) (le_rfl) id fun hb => ?_
    change update s.syncGroup.buffers i false b ∨ _
    obtain rfl | hne := eq_or_ne b i
    · exact .inr hwritten
    · rw [update_of_ne hne]
      exact .inl hb

theorem Invariant.logTransaction (hpast : s.writer.past)
    (xid : TransactionId) : Invariant c (logTransaction xid s) := by
  refine ⟨{ h.ring with }, { h.pool with }, { h.lists with }, { h.kept with }, ?_⟩
  intro y g hcommit
  obtain heq | hcommit := List.mem_cons.mp hcommit
  · cases heq
    exact ⟨le_rfl, fun _ => hpast⟩
  · exact h.commits y g hcommit

/-! ## `DBWriter` after `LogBuffers` -/

theorem Invariant.logTransactions (hpc : s.writer = .transactions j) : Invariant c (logTransactions j s) := by
  unfold WriteGroups.logTransactions
  split
  · next xid _ =>
    exact (h.logTransaction (hpc ▸ rfl) xid).advance hpc rfl rfl rfl nofun nofun (fun _ _ _ => .inr) fun _ => id
  · exact (h.setCart (k := s.cart) (g := { s.group with currstate := .logged, dotransaction := false })
      rfl rfl nofun).advance hpc rfl rfl rfl nofun nofun (fun _ _ _ => .inr) (fun _ => id)

theorem Invariant.lateTransactions (hpc : s.writer = .lateTransactions j) : Invariant c (lateTransactions j s) := by
  unfold WriteGroups.lateTransactions
  split
  · next xid _ =>
    exact (h.logTransaction (hpc ▸ rfl) xid).advance hpc rfl rfl rfl nofun nofun (fun _ _ _ => .inr) fun _ => id
  · exact (h.setCart (k := s.cart) (g := { s.group with currstate := .synced })
      rfl rfl nofun).advance hpc rfl rfl rfl nofun nofun (fun _ _ _ => .inr) (fun _ => id)

end

theorem Ring.sync_working (h : Ring s) (hp : s.syncWriter ≠ .idle) :
    (s.syncGroup.currstate = .flushing ∨ s.syncGroup.currstate = .completed) ∧ ¬ s.writer.syncs :=
  ⟨of_decide_eq_true (h.busy hp), fun hw => hp (h.syncs hw).1⟩

theorem Ring.idle_of_not_busy (h : Ring s) (hbusy : s.syncBusy = false) : s.syncWriter = .idle :=
  Decidable.byContradiction fun hp => absurd (hbusy.symm.trans (h.busy hp)) (by decide)

section

variable (h : Invariant c s) (hpc : s.writer = .loggedGroup)
include h hpc

theorem Invariant.leaveToSync (hbusy : s.syncBusy = false) (n : Nat) :
    Invariant c { s.setCart s.cart s.group.emptied with
      syncGroup := { s.syncGroup.merge s.group with currstate := .waiting }
      syncBuffers := n
      writer := .finishing } := by
  have hidle := h.ring.idle_of_not_busy hbusy
  have hmoved : Invariant c { s.setCart s.cart s.group.emptied with
      syncGroup := { s.syncGroup.merge s.group with currstate := .waiting }
      syncBuffers := n } := by
    refine h.regroup (hpc ▸ rfl) rfl (h.ring.calm s.cart) h.ring.syncGeneration
      (fun hp => absurd hidle hp) (hpc ▸ nofun) nofun ?_ ?_
    · intro b hb
      exact ((or_eq_true ..).mp hb).elim (h.lists.sync b) (h.lists.group b)
    · rw [hpc]
      rintro b (hwritten | hsync | hgroup)
      · exact .inl hwritten
      · exact .inr (.inl ((or_eq_true ..).mpr (.inl hsync)))
      · exact .inr (.inl ((or_eq_true ..).mpr (.inr hgroup)))
  refine hmoved.advance hpc rfl rfl rfl nofun nofun (fun _ _ _ => .inr) ?_
  rintro b (hwritten | hsync | hgroup)
  · exact .inl hwritten
  · exact .inr hsync
  · change (update s.carts s.cart s.group.emptied s.cart).buffers b at hgroup
    rw [update_self] at hgroup
    nomatch hgroup

theorem Invariant.takeFromSync (hbusy : s.syncBusy = false) :
    Invariant c { s.setCart s.cart (s.group.merge s.syncGroup) with
      syncGroup := { s.syncGroup.reset c with currstate := .notReady }
      syncBuffers := 0
      bufferGeneration := s.group.generation
      writer := .syncing false 0 } := by
  have hidle := h.ring.idle_of_not_busy hbusy
  let s' : Server := { s.setCart s.cart (s.group.merge s.syncGroup) with
    syncGroup := { s.syncGroup.reset c with currstate := .notReady }
    syncBuffers := 0 }
  have hgroup : s'.group = s.group.merge s.syncGroup := update_self ..
  have hmoved : Invariant c s' := by
    refine h.regroup (hpc ▸ rfl) rfl (h.ring.calm s.cart) h.ring.syncGeneration
      (fun hp => absurd hidle hp) (fun _ => nofun) ?_ nofun ?_
    · intro b hb
      exact ((or_eq_true ..).mp hb).elim (h.lists.group b) (h.lists.sync b)
    · rw [hpc]
      change ∀ b, _ → _ ∨ _ ∨ s'.group.buffers b
      rw [hgroup]
      rintro b (hwritten | hsync | hgroup)
      · exact .inl hwritten
      · exact .inr (.inr ((or_eq_true ..).mpr (.inr hsync)))
      · exact .inr (.inr ((or_eq_true ..).mpr (.inl hgroup)))
  have hgen : s'.group.generation = s.group.generation := hgroup ▸ rfl
  have hlate : s.writer.early = false := hpc ▸ rfl
  have hlogs : s.writer.logs = false := hpc ▸ rfl
  have hsyncs : s.writer.syncs = false := hpc ▸ rfl
  have hset : Invariant c { s' with bufferGeneration := s.group.generation } :=
    hmoved.setGeneration hlogs hsyncs (Nat.le_of_eq (hgen.symm.trans (generationBound_late (s := s') hlate).symm))
  refine hset.advance hpc rfl rfl rfl (fun _ => ⟨hidle, nofun⟩) (fun _ => hgen.symm) (fun _ _ _ => False.elim) ?_
  rintro b (hwritten | hsync | hgroup)
  · exact .inl hwritten
  · nomatch hsync
  · exact .inr ⟨Nat.zero_le _, hgroup⟩

theorem Invariant.settleGroup : Invariant c (settleGroup c s) := by
  unfold WriteGroups.settleGroup
  split
  · refine h.setSync (p := s.syncWriter) (fun _ => .inr rfl) fun hp => ?_
    rw [hpc] at hp
    nomatch hp
  · next hbusy =>
    have hbusy := eq_false_of_ne_true hbusy
    split
    · exact h.leaveToSync hpc hbusy _
    · exact h.takeFromSync hpc hbusy

end

theorem Invariant.syncTake (h : Invariant c s) (hpc : s.writer = .syncing false i) :
    Invariant c { s.setBuffer i { s.buffer i with dirty := false, logged := false } with
      writer := .writing false i } := by
  let s' : Server := { s.setBuffer i { s.buffer i with dirty := false, logged := false } with
    writer := .writing false i }
  have hchecking : s.writer ≠ .checking := hpc ▸ nofun
  have hlate : s.writer.early = false := hpc ▸ rfl
  have hlogs : s.writer.logs = false := hpc ▸ rfl
  have hsyncs : s.writer.syncs := hpc ▸ rfl
  have hgrown : Grown s i { s.buffer i with dirty := false, logged := false } :=
    (Grown.refl h.pool.shadows i).flags false false
  refine ⟨{ h.ring.move (.writing false i) hchecking nofun rfl (fun _ => h.ring.syncs hsyncs) with },
    (h.pool.setBuffer hgrown).move _ hlate rfl (fun _ => h.pool.pass (.inr hsyncs))
      (fun hp => absurd (hlogs.symm.trans hp) (by decide)),
    (h.lists.setBuffer h.pool hgrown).move _ rfl nofun nofun, ?_, h.commits_move fun _ => rfl⟩
  obtain ⟨hclosed, hcurrent, -, howed⟩ := h.kept.at hpc
  refine ⟨h.kept.earlier, fun _ => hclosed nofun, ?_, fun _ _ hto => (nomatch hto), howed⟩
  intro r hr ho hg
  obtain (hunmarked | hdirty) | hsafe | hwritten := hcurrent r hr ho hg
  · exact .inl (.inl hunmarked)
  · obtain hi | hne := eq_or_ne r.buf i
    · exact .inr (.inr (.inr hi))
    · refine .inl (.inr ?_)
      change (update s.buffer i _ r.buf).dirty
      rwa [update_of_ne hne]
  · exact .inr (.inl hsafe)
  · exact .inr (.inr (.inl hwritten))

theorem Invariant.syncBuffer (h : Invariant c s) (hpc : s.writer = .syncing false i) :
    Invariant c (syncBuffer c false i s) := by
  have hsyncs : s.writer.syncs := hpc ▸ rfl
  unfold WriteGroups.syncBuffer
  split
  · split
    · exact h.syncTake hpc
    · next hlist =>
      refine h.advance hpc rfl rfl rfl (fun _ => h.ring.syncs hsyncs)
        (fun _ => h.pool.pass (.inr hsyncs)) (fun _ _ _ => .inr) ?_
      rintro b (hwritten | ⟨hle, hgroup⟩)
      · exact .inl hwritten
      · have hne : i ≠ b := fun heq => hlist (heq ▸ hgroup)
        exact .inr ⟨lt_of_le_of_ne hle hne, hgroup⟩
  · next hend =>
    refine h.advance hpc rfl rfl rfl nofun nofun (fun _ _ _ => .inr) ?_
    rintro b (hwritten | ⟨hle, hgroup⟩)
    · exact hwritten
    · exact absurd (hle.trans_lt (h.lists.group b hgroup)) hend

theorem shadowIfNeeded_forflush {d : BufferDesc} (h : d.generation ≤ gen) :
    (d.shadowIfNeeded gen true).shadow = (d.shadowIfNeeded gen true).data := by
  unfold BufferDesc.shadowIfNeeded
  rw [if_pos ((lt_or_eq_of_le h).imp_right fun heq => ⟨rfl, heq⟩)]

section

variable (h : Invariant c s)
include h

theorem Invariant.writeShadow (forflush flushed : Bool) :
    let d := (s.buffer i).shadowIfNeeded s.bufferGeneration forflush
    Invariant c { s.setBuffer i d with
      disk := { s.disk with
        written := update s.disk.written i d.shadow
        synced := if flushed then update s.disk.synced i d.shadow else s.disk.synced } } := by
  intro d
  have hgrown : Grown s i d := grown_shadow h.pool.shadows i forflush
  have hset : Invariant c (s.setBuffer i d) := h.setBuffer hgrown fun hdirty => (shadowIfNeeded_dirty ..).trans hdirty
  have hshadow : ((s.setBuffer i d).buffer i).shadow = d.shadow := congrArg BufferDesc.shadow (update_self ..)
  have hwritten : s.disk.written i ≤ d.shadow := hshadow ▸ hset.pool.written i
  have hsynced : s.disk.synced i ≤ d.shadow := (h.pool.synced i).trans hwritten
  have hgrow {f : Nat → Nat} (hf : f i ≤ d.shadow) (b : Nat) : f b ≤ update f i d.shadow b := by
    rw [update_apply]
    split
    · next heq => exact heq ▸ hf
    · exact le_rfl
  refine hset.write (hgrow hwritten) ?_ ?_ ?_
  · intro b
    rw [update_apply]
    split
    · next heq => rw [heq, hshadow]
    · exact hset.pool.written b
  · intro b
    split
    · exact hgrow hsynced b
    · exact le_rfl
  · intro b
    split
    · simp only [update_apply]
      split
      · exact le_rfl
      · exact h.pool.synced b
    · exact (h.pool.synced b).trans (hgrow hwritten b)

theorem Invariant.writeBuffer (hpc : s.writer = .writing false i) : Invariant c (writeBuffer c false i s) := by
  let d := (s.buffer i).shadowIfNeeded s.bufferGeneration (!c.special i)
  let disk : Disk := { s.disk with
    written := update s.disk.written i d.shadow
    synced := if c.special i then update s.disk.synced i d.shadow else s.disk.synced }
  let s₁ : Server := { s.setBuffer i d with disk := disk }
  have hsyncs : s.writer.syncs := hpc ▸ rfl
  have hlate : s.writer.early = false := hpc ▸ rfl
  have h₁ : Invariant c s₁ := h.writeShadow (!c.special i) (c.special i)
  have hbuffer : s₁.buffer i = d := update_self ..
  have hwritten : s₁.disk.written i = d.shadow := update_self ..
  have hlog : s₁.disk.log i ≤ s₁.disk.written i := by
    rw [hwritten, ← hbuffer]
    exact h₁.pool.log i
  let g : WriteGroup := { s.group with buffers := update s.group.buffers i false }
  let s₂ : Server := { s₁.setCart s.cart g with syncGroup := s.syncGroup, syncBuffers := s.syncBuffers }
  have hlist {b : Nat} (hne : b ≠ i) : g.buffers b = s.group.buffers b := update_of_ne hne ..
  have hgroup : s₂.group = g := update_self ..
  have h₂ : Invariant c s₂ := by
    refine h₁.regroup (by change s.writer.past; rw [hpc]; rfl) rfl (h.ring.calm s.cart)
      h.ring.syncGeneration (fun hp => absurd (h.ring.syncs hsyncs).1 hp)
      (fun _ => (h.ring.syncs hsyncs).2) ?_ h.lists.sync ?_
    · intro b hb
      obtain rfl | hne := eq_or_ne b i
      · exact absurd ((update_self ..).symm.trans hb) (by decide)
      · exact h.lists.group b ((hlist hne).symm.trans hb)
    · change ∀ b, Owed s₁ b s.writer → Owed s₂ b s.writer
      rw [hpc]
      rintro b (hdone | ⟨hle, hb⟩)
      · exact .inl hdone
      · obtain rfl | hne := eq_or_ne b i
        · exact .inl hlog
        · refine .inr ⟨hle, ?_⟩
          rw [hgroup, hlist hne]
          exact hb
  refine h₂.advance hpc rfl rfl rfl (fun _ => h.ring.syncs hsyncs) ?_ ?_ ?_
  · intro _
    rw [hgroup]
    exact h.pool.pass (.inr hsyncs)
  · rintro r hr ho (hdone | hi)
    · exact .inr hdone
    · -- an ordinary block is written as it is now
      have hordinary : c.special i = false := hi ▸ ho
      have hgen : (s.buffer i).generation ≤ s.bufferGeneration := by
        rw [h.pool.pass (.inr hsyncs), ← generationBound_late hlate]
        exact h.pool.buffers i
      have hdata : d.shadow = d.data := by
        change ((s.buffer i).shadowIfNeeded _ (!c.special i)).shadow =
          ((s.buffer i).shadowIfNeeded _ (!c.special i)).data
        rw [hordinary]
        exact shadowIfNeeded_forflush hgen
      have hversion : r.version ≤ (s₁.buffer r.buf).data := h₁.lists.version r hr
      refine .inr ?_
      change r.version ≤ s₁.disk.written r.buf
      rw [hi] at hversion ⊢
      rwa [hwritten, hdata, ← hbuffer]
  · rintro b (hdone | ⟨hle, hb⟩)
    · exact .inl hdone
    · obtain hlt | rfl := lt_or_eq_of_le hle
      · exact .inr ⟨hlt, hb⟩
      · exact .inl hlog

theorem Invariant.commitPackage (hpc : s.writer = .packaging false) : Invariant c (commitPackage false s) := by
  have hsynced : Invariant c { s with disk := { s.disk with synced := s.disk.written } } :=
    h.write (fun _ => le_rfl) h.pool.written h.pool.synced (fun _ => le_rfl)
  exact hsynced.advance hpc rfl rfl rfl nofun nofun (fun _ _ _ hr => .inl (.inr hr)) (fun _ => id)

/-- Every image of the log is in a block that was synced, so the log may go. -/
theorem Invariant.clearLog (hpc : s.writer = .clearing false) :
    Invariant c { s with disk := { s.disk with log := fun _ => 0 } } := by
  let s' : Server := { s with disk := { s.disk with log := fun _ => 0 } }
  have hsafe (r : Registration) (hr : Safe s r) : Safe s' r := by
    have howed := h.kept.owed r.buf
    rw [hpc] at howed
    exact .inr (hr.elim (fun hlog => hlog.trans howed) id)
  have hlogs : s.writer.logs = false := hpc ▸ rfl
  refine ⟨{ h.ring with }, { h.pool with log := fun _ => Nat.zero_le _, batch := ?_ }, { h.lists with }, ?_, h.commits⟩
  · exact fun b k hk => absurd ((h.pool.batch_none hlogs b).symm.trans hk) nofun
  refine ⟨fun r hr ho hg => hsafe r (h.kept.earlier r hr ho hg), ?_, ?_, h.kept.image, ?_⟩
  · exact fun hne r hr ho hg => (h.kept.closed hne r hr ho hg).mono s s' id (fun _ => le_rfl) id id (hsafe r)
  · exact fun r hr ho hg => (h.kept.current r hr ho hg).imp_right (.imp_left (hsafe r))
  · intro b
    change Owed s' b s.writer
    rw [hpc]
    exact Nat.zero_le _

theorem Invariant.clearLogs (hlogging : c.logging)
    (hpc : s.writer = .clearing false) : Invariant c (clearLogs c false s) := by
  unfold WriteGroups.clearLogs
  rw [if_pos hlogging]
  refine (h.clearLog hpc).advance hpc rfl rfl rfl nofun nofun (fun _ _ _ => .inr) ?_
  exact fun b hb => .inl (hb.trans (h.pool.synced b))

end

end WeaverDB.WriteGroups
