import WeaverDB.WriteGroups.Ordering

/-! # The steps of the writers

Where the dirty mark of a buffer is taken off, `logBuffer` relies on the image that is logged next, and
`syncBuffer` on the block that is written next.
-/

namespace WeaverDB.WriteGroups
open Function

variable {c : Config} {s : Server}

/-! ## Moving on within a group -/

section

theorem Ring.move (h : Ring s) (pc : WriterPc) (hpc : s.writer ≠ .checking)
    (hpc' : pc ≠ .checking) (hflush : pc.flushes = false)
    (hsyncs : pc.syncs → s.syncWriter = .idle ∧ s.syncGroup.currstate ≠ .waiting) :
    Ring { s with writer := pc } :=
  { h with
    unflushed := hflush
    open_ := fun heq => absurd heq hpc'
    closed_ := fun _ => h.closed_ hpc
    syncs := hsyncs }

theorem generationBound_late (hlate : s.writer.early = false) : generationBound s = s.group.generation :=
  if_neg (ne_true_of_eq_false hlate)

theorem Shadows.generation_le (h : Shadows s) (b : Nat) : (s.buffer b).generation ≤ s.group.generation := by
  have hle := h.buffers b
  unfold generationBound at hle
  split at hle
  · exact hle.trans (Nat.sub_le _ _)
  · exact hle

theorem Shadows.move (h : Shadows s) (pc : WriterPc) (hlate : s.writer.early = false) (hlate' : pc.early = false)
    (hpass : pc.logs ∨ pc.syncs → s.bufferGeneration = s.group.generation) :
    Shadows { s with writer := pc } := by
  have hbound : generationBound { s with writer := pc } = generationBound s :=
    (generationBound_late hlate').trans (generationBound_late hlate).symm
  exact { h with
    bound := h.bound.trans hbound.symm.le
    buffers := fun b => (h.buffers b).trans hbound.symm.le
    pass := hpass }

theorem Pool.move (h : Pool s) (pc : WriterPc) (hlate : s.writer.early = false)
    (hlate' : pc.early = false) (hpass : pc.logs ∨ pc.syncs → s.bufferGeneration = s.group.generation)
    (hbatch : s.writer.logs → pc.logs) : Pool { s with writer := pc } :=
  { h.shadows.move pc hlate hlate' hpass, h with
    batch := fun b k hk =>
      have hb := h.batch b k hk
      ⟨hb.1, hb.2.1, hbatch hb.2.2.1, hb.2.2.2⟩ }

theorem Lists.move (h : Lists c s) (pc : WriterPc) (hlate' : pc.early = false)
    (himaging : ∀ f i, pc = .imaging f i → s.group.buffers i)
    (hpast : pc.past = false → s.writer.past = false) : Lists c { s with writer := pc } :=
  { h with
    idle := fun heq => absurd (hlate'.symm.trans (congrArg WriterPc.early heq)) (by decide)
    imaging := himaging
    first := fun hearly => absurd (hlate'.symm.trans hearly) (by decide)
    closed := fun hp => h.closed (hpast hp) }

theorem Invariant.commits_move (h : Invariant c s) {pc : WriterPc} (hpast : s.writer.past → pc.past)
    (xid : TransactionId) (g : Nat) (hcommit : (xid, g) ∈ s.hardCommits) :
    g ≤ s.group.generation ∧ (g = s.group.generation → pc.past) :=
  (h.commits xid g hcommit).imp_right fun hg heq => hpast (hg heq)

end

theorem stillToLog_logging {f : Bool} {b i : Nat} : stillToLog s b (.logging f i) ↔ i ≤ b ∧ s.group.buffers b := by
  simp only [stillToLog, Bool.and_eq_true, decide_eq_true_eq]

theorem stillToLog_imaging {f : Bool} {b i : Nat} : stillToLog s b (.imaging f i) ↔ i < b ∧ s.group.buffers b := by
  simp only [stillToLog, Bool.and_eq_true, decide_eq_true_eq]

/-! ## `LogBuffers` -/

theorem image_eq_data {b generation : Nat} {disk : Disk} {pc : WriterPc} (h : (s.buffer b).generation < generation) :
    image { s with bufferGeneration := generation, disk := disk, writer := pc } b = (s.buffer b).data := by
  unfold image BufferDesc.shadowIfNeeded
  rw [if_pos (.inl h)]

theorem Shadows.beginLog (h : Shadows s) (disk : Disk) :
    Shadows { s with
      writer := .logging false 0, bufferGeneration := s.group.generation, disk := disk } where
  bound := le_rfl
  buffers := h.generation_le
  pass := fun _ => rfl
  shadow := h.shadow

theorem Shadows.generation_lt (h : Shadows s) (hearly : s.writer.early)
    (hgeneration : s.group.generation ≠ 0) (b : Nat) :
    (s.buffer b).generation < s.group.generation := by
  have hbound : generationBound s = s.group.generation-1 := if_pos hearly
  have hle := h.buffers b
  omega

section

variable (h : Invariant c s)
include h

theorem Invariant.beginLog (hpc : s.writer = .closed) (hmarked : ∀ p ∈ s.unmarked, p.2 ≠ s.group.generation) :
    Invariant c { s with
      writer := .logging false 0
      bufferGeneration := s.group.generation
      disk := { s.disk with batch := fun _ => none } } := by
  have hchecking : s.writer ≠ .checking := hpc ▸ nofun
  have hearly : s.writer.early := hpc ▸ rfl
  refine ⟨?_, ?_, ?_, ?_, ?_⟩
  · exact { h.ring.move (.logging false 0) hchecking nofun rfl nofun with }
  · exact { h.pool.shadows.beginLog _, h.pool with batch := nofun }
  · exact { h.lists.move (.logging false 0) rfl nofun (fun _ => hpc ▸ rfl) with }
  · obtain ⟨hclosed, hcurrent, -, howed⟩ := h.kept.at hpc
    refine ⟨h.kept.earlier, ?_, ?_, ?_, fun b => (howed b).imp_right .inl⟩
    · intro _ r hr ho hg
      refine ⟨fun hlt => absurd hlt (Nat.not_lt_zero _), fun _ => ?_⟩
      obtain (hunmarked | hdirty) | hsafe := hclosed nofun r hr ho hg
      · exact absurd hg (hmarked _ hunmarked)
      · exact .inl hdirty
      · exact .inr hsafe
    · exact fun r hr ho hg => (hcurrent r hr ho hg).imp id (.imp_right False.elim)
    · -- every buffer of the group has an older shadow, which the pass replaces
      intro r hr hto
      have hqueued : s.group.buffers r.buf := (stillToLog_logging.mp hto).2
      have hgeneration : s.group.generation ≠ 0 := fun hzero =>
        Bool.false_ne_true ((h.lists.first hearly hzero r.buf).symm.trans hqueued)
      have hlt := h.pool.shadows.generation_lt hearly hgeneration r.buf
      exact Nat.le_trans (h.lists.version r hr) (Nat.le_of_eq (image_eq_data hlt).symm)
  · intro xid g hcommit
    have hold := h.commits xid g hcommit
    rw [hpc] at hold
    exact ⟨hold.1, fun heq => absurd (hold.2 heq) (by decide)⟩

theorem Invariant.logSkip {i : Nat} (hpc : s.writer = .logging false i)
    (hskip : ¬ (s.group.buffers i ∧ c.special i = false ∧ (s.buffer i).dirty)) :
    Invariant c { s with writer := .logging false (i+1) } := by
  have hchecking : s.writer ≠ .checking := hpc ▸ nofun
  have hlogs : s.writer.logs := hpc ▸ rfl
  have hpast : s.writer.past = false := hpc ▸ rfl
  refine ⟨h.ring.move _ hchecking nofun rfl nofun,
    h.pool.move _ (hpc ▸ rfl) rfl (fun _ => h.pool.pass (.inl hlogs)) fun _ => rfl,
    h.lists.move _ rfl nofun fun _ => hpast, ?_,
    h.commits_move fun hp => absurd (hpast.symm.trans hp) (by decide)⟩
  obtain ⟨hclosed, hcurrent, himage, howed⟩ := h.kept.at hpc
  refine ⟨h.kept.earlier, ?_, hcurrent, ?_, howed⟩
  · intro _ r hr ho hg
    have hok := hclosed nofun r hr ho hg
    refine ⟨fun hlt => ?_, fun hle => hok.2 (Nat.le_of_succ_le hle)⟩
    obtain hlt | rfl := lt_or_eq_of_le (Nat.le_of_lt_succ hlt)
    · exact hok.1 hlt
    · have hqueued := h.lists.closed hpast r hr hg
      exact .inr ((hok.2 (le_rfl)).resolve_left fun hdirty =>
        hskip ⟨hqueued, ho, hdirty⟩)
  · intro r hr hto
    obtain ⟨hle, hqueued⟩ := stillToLog_logging.mp hto
    exact himage r hr (stillToLog_logging.mpr ⟨Nat.le_of_succ_le hle, hqueued⟩)

/-- `LogBufferIO` takes the dirty mark off. The image that follows holds what was registered. -/
theorem Invariant.logTake {i : Nat} (hpc : s.writer = .logging false i) (hqueued : s.group.buffers i) :
    Invariant c { s.setBuffer i { s.buffer i with dirty := false } with
      writer := .imaging false i } := by
  let s' : Server := { s.setBuffer i { s.buffer i with dirty := false } with
    writer := .imaging false i }
  have hchecking : s.writer ≠ .checking := hpc ▸ nofun
  have hlogs : s.writer.logs := hpc ▸ rfl
  have hpast : s.writer.past = false := hpc ▸ rfl
  have hlate : s.writer.early = false := hpc ▸ rfl
  have hgrown : Grown s i { s.buffer i with dirty := false } := (Grown.refl h.pool.shadows i).flags false _
  have himage (b : Nat) : image s b ≤ image s' b := (hgrown.update h.pool.shadows b).image
  have hother {b : Nat} (hne : b ≠ i) (hdirty : (s.buffer b).dirty) : (s'.buffer b).dirty := by
    change (update s.buffer i _ b).dirty
    rwa [update_of_ne hne]
  obtain ⟨hclosed, hcurrent, htaken, howed⟩ := h.kept.at hpc
  have hshadow (r : Registration) (hr : r ∈ s.registered) (hi : r.buf = i) : r.version ≤ image s' r.buf :=
    le_trans (htaken r hr (stillToLog_logging.mpr ⟨hi.symm.le, hi ▸ hqueued⟩)) (himage _)
  refine ⟨{ h.ring.move (.imaging false i) hchecking nofun rfl nofun with },
    (h.pool.setBuffer hgrown).move _ hlate rfl (fun _ => h.pool.pass (.inl hlogs)) fun _ => rfl,
    (h.lists.setBuffer h.pool hgrown).move _ rfl ?_ fun _ => hpast, ?_,
    h.commits_move fun hp => absurd (hpast.symm.trans hp) (by decide)⟩
  · rintro f j heq
    injection heq with _ hj
    exact hj ▸ hqueued
  refine ⟨h.kept.earlier, ?_, ?_, ?_, howed⟩
  · intro _ r hr ho hg
    have hok := hclosed nofun r hr ho hg
    exact ⟨hok.1, hshadow r hr, fun hlt =>
      (hok.2 hlt.le).imp_left (hother hlt.ne')⟩
  · intro r hr ho hg
    obtain (hunmarked | hdirty) | hsafe | hbatched := hcurrent r hr ho hg
    · exact .inl (.inl hunmarked)
    · obtain hi | hne := eq_or_ne r.buf i
      · exact .inr (.inr (.inr ⟨hi, hshadow r hr hi⟩))
      · exact .inl (.inr (hother hne hdirty))
    · exact .inr (.inl hsafe)
    · exact .inr (.inr (.inl hbatched))
  · intro r hr hto
    obtain ⟨hlt, hgroup⟩ := stillToLog_imaging.mp hto
    exact (htaken r hr (stillToLog_logging.mpr ⟨hlt.le, hgroup⟩)).trans (himage _)

theorem Invariant.logImage {i : Nat} (hpc : s.writer = .imaging false i) : Invariant c (logImage false i s) := by
  let s' : Server := WriteGroups.logImage false i s
  have hchecking : s.writer ≠ .checking := hpc ▸ nofun
  have hlogs : s.writer.logs := hpc ▸ rfl
  have hpast : s.writer.past = false := hpc ▸ rfl
  have hlate : s.writer.early = false := hpc ▸ rfl
  have hgrown : Grown s i { (s.buffer i).shadowIfNeeded s.bufferGeneration false with logged := true } :=
    (grown_shadow h.pool.shadows i false).flags _ true
  have himage (b : Nat) : image s b ≤ image s' b := (hgrown.update h.pool.shadows b).image
  have hdirty (b : Nat) : (s.buffer b).dirty → (s'.buffer b).dirty :=
    setBuffer_dirty (b := i) (d := { (s.buffer i).shadowIfNeeded s.bufferGeneration false with logged := true }) s
      (fun hb => (shadowIfNeeded_dirty ..).trans hb) b
  have hself (r : Registration) (hi : r.buf = i) (hr : r.version ≤ image s r.buf) : Batched s' r := by
    refine ⟨image s i, ?_, hi ▸ hr⟩
    rw [hi]
    exact update_self ..
  have hbatched (r : Registration) (hr : Batched s r) : Batched s' r := by
    obtain ⟨k, hk, hle⟩ := hr
    obtain hi | hne := eq_or_ne r.buf i
    · exact hself r hi (hle.trans (le_trans (h.pool.batch _ k hk).2.1
        (hi ▸ (grown_shadow h.pool.shadows i false).shadow)))
    · exact ⟨k, (update_of_ne hne ..).trans hk, hle⟩
  have hpool := (h.pool.setBuffer hgrown).move (.logging false (i+1)) hlate rfl
    (fun _ => h.pool.pass (.inl hlogs)) fun _ => rfl
  refine ⟨{ h.ring.move (.logging false (i+1)) hchecking nofun rfl nofun with }, { hpool with batch := ?_ },
    { (h.lists.setBuffer h.pool hgrown).move (.logging false (i+1)) rfl nofun (fun _ => hpast) with }, ?_,
    h.commits_move fun hp => absurd (hpast.symm.trans hp) (by decide)⟩
  · intro b k hk
    change update s.disk.batch i (some (image s i)) b = some k at hk
    obtain rfl | hne := eq_or_ne b i
    · rw [update_self] at hk
      cases hk
      refine ⟨(h.pool.log b).trans (grown_shadow h.pool.shadows b false).shadow, ?_, rfl, h.lists.imaging false b hpc⟩
      change _ ≤ (update s.buffer b _ b).shadow
      rw [update_self]
      exact le_rfl
    · rw [update_of_ne hne] at hk
      exact hpool.batch b k hk
  obtain ⟨hclosed, hcurrent, htaken, howed⟩ := h.kept.at hpc
  refine ⟨h.kept.earlier, ?_, ?_, ?_, howed⟩
  · intro _ r hr ho hg
    have hok := hclosed nofun r hr ho hg
    refine ⟨fun hlt => ?_, fun hle => (hok.2.2 hle).imp_left (hdirty r.buf)⟩
    obtain hlt | hi := lt_or_eq_of_le (Nat.le_of_lt_succ hlt)
    · exact (hok.1 hlt).imp_left (hbatched r)
    · exact .inl (hself r hi (hok.2.1 hi))
  · intro r hr ho hg
    refine (hcurrent r hr ho hg).imp (.imp_right (hdirty r.buf)) (.imp_right ?_)
    exact fun hflying => hflying.elim (hbatched r) fun hi => hself r hi.1 hi.2
  · intro r hr hto
    have hleft := stillToLog_logging.mp hto
    exact (htaken r hr (stillToLog_imaging.mpr hleft)).trans (himage _)

end

theorem commitLog_log_le (h : Pool s) (b : Nat) : s.disk.log b ≤ s.disk.commitLog.log b := by
  change _ ≤ (s.disk.batch b).getD (s.disk.log b)
  cases hk : s.disk.batch b with
  | none => exact le_rfl
  | some k => exact (h.batch b k hk).1

/-- All buffers were looked at, so the batch that is committed has the images of the group. -/
theorem Invariant.logCommit (h : Invariant c s) {i : Nat} (hpc : s.writer = .logging false i)
    (hend : c.maxBuffers ≤ i) :
    Invariant c { s with disk := s.disk.commitLog, writer := .transactions 0 } := by
  let s' : Server := { s with disk := s.disk.commitLog, writer := .transactions 0 }
  have hchecking : s.writer ≠ .checking := hpc ▸ nofun
  have hpast : s.writer.past = false := hpc ▸ rfl
  have hlate : s.writer.early = false := hpc ▸ rfl
  have hsafe (r : Registration) : Safe s r → Safe s' r := .imp_left fun hr => hr.trans (commitLog_log_le h.pool r.buf)
  have hbatched (r : Registration) (hr : Batched s r) : Safe s' r := by
    obtain ⟨k, hk, hle⟩ := hr
    refine .inl ?_
    change _ ≤ (s.disk.batch r.buf).getD (s.disk.log r.buf)
    rwa [hk]
  refine ⟨{ h.ring.move (.transactions 0) hchecking nofun rfl nofun with },
    { h.pool with bound := ?_, buffers := ?_, pass := ?_, log := ?_, batch := nofun },
    { h.lists.move (.transactions 0) rfl nofun nofun with }, ?_,
    h.commits_move fun _ => rfl⟩
  · exact h.pool.bound.trans ((generationBound_late hlate).le)
  · exact fun b => (h.pool.buffers b).trans ((generationBound_late hlate).le)
  · exact fun hp => nomatch hp
  · intro b
    change (s.disk.batch b).getD (s.disk.log b) ≤ (s.buffer b).shadow
    cases hk : s.disk.batch b with
    | none => exact h.pool.log b
    | some k => exact (h.pool.batch b k hk).2.1
  obtain ⟨hclosed, hcurrent, -, howed⟩ := h.kept.at hpc
  refine ⟨fun r hr ho hg => hsafe r (h.kept.earlier r hr ho hg), ?_, ?_, ?_, ?_⟩
  · intro _ r hr ho hg
    have hlt := h.lists.group _ (h.lists.closed hpast r hr hg)
    exact ((hclosed nofun r hr ho hg).1 (hlt.trans_le hend)).elim (hbatched r) (hsafe r)
  · exact fun r hr ho hg => (hcurrent r hr ho hg).imp_right fun hkept =>
      .inl (hkept.elim (hsafe r) (hbatched r))
  · exact fun _ _ hto => nomatch hto
  · intro b
    change (s.disk.batch b).getD (s.disk.log b) ≤ _ ∨ _
    cases hk : s.disk.batch b with
    | none => exact howed b
    | some k => exact .inr (.inr (h.pool.batch b k hk).2.2.2)

end WeaverDB.WriteGroups
