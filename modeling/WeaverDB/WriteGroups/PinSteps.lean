import WeaverDB.WriteGroups.Pins

/-! # `DBWriter` and the pins of a group

`logImage` brings the changes of the group into the shadows, so the buffers may be left to `SyncWriter`;
without block logging `writeBuffer` does, and drops the pins.
-/

namespace WeaverDB.WriteGroups
open Function Bool Nat

variable {i j : Nat} {pc old : WriterPc} {p : SyncPc} {r : Registration} {sync : WriteGroup}
  {c : Config} {s : Server}

/-! ## Small steps -/

section

variable (h : Covered c s)
include h

/-- The writer goes on within a group, perhaps with another generation of the buffers. -/
theorem Covered.advance (gen : Nat) (hold : s.writer = old)
    (hchecking : old ≠ .checking) (hlate : pc.early = false) (hflush : pc.flushes = false)
    (hsyncs : pc.syncs → s.syncWriter = .idle ∧ s.syncGroup.currstate ≠ .waiting)
    (hgen : gen ≤ s.group.generation)
    (hpass : pc.logs ∨ pc.syncs → gen = s.group.generation)
    (hpast : pc.past = false → old.past = false)
    (hdone : ∀ b, pc.hasSynced b → s.group.buffers b = false)
    (hdue : ∀ r ∈ s.registered, c.special r.buf = false → r.generation = s.group.generation →
      Due c s r old → Shadowed s r ∨ Due c { s with writer := pc, bufferGeneration := gen } r pc)
    (htaken : ∀ r ∈ s.registered, c.special r.buf = false → Taken s r old →
      Shadowed s r ∨ Taken { s with writer := pc, bufferGeneration := gen } r pc)
    (himage : ∀ r ∈ s.registered, c.special r.buf = false → stillToLog s r.buf pc →
      Imaged { s with writer := pc, bufferGeneration := gen } r) :
    Covered c { s with writer := pc, bufferGeneration := gen } := by
  subst hold
  have hpc : pc ≠ .checking := fun heq => by rw [heq] at hlate; nomatch hlate
  have hbound : generationBound { s with writer := pc, bufferGeneration := gen } = s.group.generation :=
    generationBound_late hlate
  refine ⟨{ h.ring.move pc hchecking hpc hflush hsyncs with }, ?_, ?_, ?_⟩
  · exact
      { bound := hgen.trans hbound.symm.le
        buffers := fun b => (h.shadows.generation_le b).trans hbound.symm.le
        pass := hpass
        shadow := h.shadows.shadow }
  · exact { h.rolls with
      idle := fun heq => absurd heq hpc
      done := hdone
      closed := fun hp => h.rolls.closed (hpast hp) }
  · refine { h.found with closed := ?_, current := ?_, image := himage }
    · intro _ r hr ho hg
      exact (h.found.closed hchecking r hr ho hg).elim .inl (hdue r hr ho hg)
    · intro r hr ho hg
      obtain hshadowed | hmarked | htook := h.found.current r hr ho hg
      · exact .inl hshadowed
      · exact .inr (.inl hmarked)
      · exact (htaken r hr ho htook).imp_right .inr

theorem Covered.pass (hold : s.writer = old) (hpast : old.past) (hpast' : pc.past) (hflush : pc.flushes = false)
    (hsyncs : pc.syncs → old.syncs)
    (hdone : ∀ b, pc.hasSynced b → s.group.buffers b = false)
    (hdue : ∀ r ∈ s.registered, c.special r.buf = false → r.generation = s.group.generation →
      Due c s r old → Shadowed s r ∨ Due c s r pc)
    (htaken : ∀ r ∈ s.registered, c.special r.buf = false → Taken s r old →
      Shadowed s r ∨ Taken s r pc) : Covered c { s with writer := pc } := by
  have hlogs := WriterPc.not_logs_of_past hpast'
  have hdue' (r : Registration) (h : Due c s r pc) : Due c { s with writer := pc } r pc := Due.mono s _ id id id h
  have htaken' (r : Registration) (h : Taken s r pc) : Taken { s with writer := pc } r pc := Taken.mono s _ id h
  subst hold
  refine h.advance s.bufferGeneration rfl (WriterPc.ne_checking_of_past hpast)
    (WriterPc.not_early_of_past hpast') hflush (fun hp => h.ring.syncs (hsyncs hp)) ?_ ?_ ?_ hdone ?_ ?_ ?_
  · exact le_trans h.shadows.bound ((generationBound_late (WriterPc.not_early_of_past hpast)).le)
  · exact fun hp => h.shadows.pass (.inr (hsyncs (hp.resolve_left (ne_true_of_eq_false hlogs))))
  · exact fun hp => absurd (hpast'.symm.trans hp) (by decide)
  · exact fun r hr ho hg hd => (hdue r hr ho hg hd).imp_right (hdue' r)
  · exact fun r hr ho ht => (htaken r hr ho ht).imp_right (htaken' r)
  · exact fun r _ _ hto => absurd (hlogs.symm.trans (stillToLog_logs hto)) (by decide)

theorem Covered.written_of_lists (hpc : s.writer ≠ .checking) (hr : r ∈ s.registered)
    (hcurrent : s.current.buffers r.buf = false) (hgroup : s.group.buffers r.buf = false)
    (hsync : s.syncGroup.buffers r.buf = false) : r.version ≤ s.disk.written r.buf := by
  refine h.found.written r hr (pinned_eq_false.mpr ⟨fun k => ?_, hsync⟩)
  have hring := (h.ring.closed_ hpc).1
  obtain rfl | hne := eq_or_ne k s.cart
  · exact hgroup
  · rwa [show k = s.logGroup from (eq_not_of_ne hne).trans hring.symm]

theorem Covered.regroup (hpast : s.writer.past) {g : WriteGroup} {n : Nat}
    (hgeneration : g.generation = s.group.generation) (hcalm : g.currstate ≠ .flushing)
    (hloggable : g.loggable = s.group.loggable) (hsyncGen : sync.generation = 0)
    (hbusy : s.syncWriter ≠ .idle → sync.currstate = .flushing ∨ sync.currstate = .completed)
    (hsyncs : s.writer.syncs → sync.currstate ≠ .waiting)
    (hgroup : ∀ b, g.buffers b → b < c.maxBuffers)
    (hsync : ∀ b, sync.buffers b → b < c.maxBuffers)
    (hdone : ∀ b, s.writer.hasSynced b → g.buffers b = false)
    (hdue : ∀ r ∈ s.registered, c.special r.buf = false → r.generation = s.group.generation →
      Due c s r s.writer → Shadowed s r ∨
        Due c { s.setCart s.cart g with syncGroup := sync, syncBuffers := n } r s.writer)
    (hwritten : ∀ r ∈ s.registered, s.current.buffers r.buf = false → g.buffers r.buf = false →
      sync.buffers r.buf = false → r.version ≤ s.disk.written r.buf) :
    Covered c { s.setCart s.cart g with syncGroup := sync, syncBuffers := n } := by
  let s' : Server := { s.setCart s.cart g with syncGroup := sync, syncBuffers := n }
  have hchecking := WriterPc.ne_checking_of_past hpast
  have hlogs := WriterPc.not_logs_of_past hpast
  have hg' : s'.group = g := update_self ..
  have hgen : s'.group.generation = s.group.generation := by rw [hg', hgeneration]
  have hcurrent : s'.current = s.current := update_of_ne (cart_ne_logGroup h.ring hchecking).symm ..
  refine ⟨{ (h.ring.setCart hgeneration hcalm).setSync hsyncGen hbusy fun hp => ⟨(h.ring.syncs hp).1, hsyncs hp⟩ with },
    { h.shadows.setCart hgeneration with }, ?_, ?_⟩
  · refine { h.rolls.enrolled.regroup h.ring hpast, h.rolls with
      carts := ?_, sync := hsync, done := ?_, loggable := ?_ }
    · exact setCart_all (fun g => ∀ b, g.buffers b → b < c.maxBuffers) hgroup h.rolls.carts
    · change ∀ b, _ → s'.group.buffers b = false
      rw [hg']
      exact hdone
    · refine setCart_all (·.loggable → c.logging) ?_ h.rolls.loggable
      exact fun hg => h.rolls.loggable s.cart (hloggable.symm.trans hg)
  · refine ⟨h.found.snap, ?_, ?_, ?_, ?_, ?_⟩
    · exact fun r hr ho hlt => h.found.earlier r hr ho (lt_of_lt_of_eq hlt hgen)
    · exact fun hpc r hr ho hg => (h.found.closed hpc r hr ho (hg.trans hgen)).elim .inl (hdue r hr ho (hg.trans hgen))
    · intro r hr ho hg
      exact (h.found.current r hr ho (hg.trans (congrArg WriteGroup.generation hcurrent))).imp_right
        (.imp_right (Taken.mono s _ id))
    · exact fun r _ _ hto => absurd (hlogs.symm.trans (stillToLog_logs hto)) (by decide)
    · intro r hr hpin
      obtain ⟨hlists, hs⟩ := pinned_eq_false.mp hpin
      refine hwritten r hr ?_ ?_ hs
      · rw [← hcurrent]
        exact hlists s.logGroup
      · rw [← hg']
        exact hlists s.cart

theorem Covered.setSync (hsyncGen : sync.generation = 0)
    (hbusy : p ≠ .idle → sync.currstate = .flushing ∨ sync.currstate = .completed)
    (hsyncs : s.writer.syncs → p = .idle ∧ sync.currstate ≠ .waiting)
    (hsync : ∀ b, sync.buffers b → s.syncGroup.buffers b)
    (hordinary : ∀ i, p = .writing i → c.special i = false)
    (hwritten : ∀ r ∈ s.registered, (∀ k, (s.carts k).buffers r.buf = false) →
      sync.buffers r.buf = false → r.version ≤ s.disk.written r.buf) :
    Covered c { s with syncGroup := sync, syncWriter := p } where
  ring := h.ring.setSync hsyncGen hbusy hsyncs
  shadows := { h.shadows with }
  rolls := { h.rolls with
    sync := fun b hb => h.rolls.sync b (hsync b hb)
    ordinary := hordinary }
  found := { h.found with
    closed := fun hpc r hr ho hg => (h.found.closed hpc r hr ho hg).imp_right (Due.mono s _ id id id)
    current := fun r hr ho hg => (h.found.current r hr ho hg).imp_right (.imp_right (Taken.mono s _ id))
    written := fun r hr hpin => hwritten r hr (pinned_eq_false.mp hpin).1 (pinned_eq_false.mp hpin).2 }

theorem Covered.setSyncState {state : WriterState} (hbusy : p ≠ .idle → state = .flushing ∨ state = .completed)
    (hsyncs : s.writer.syncs → p = .idle ∧ state ≠ .waiting)
    (hordinary : ∀ i, p = .writing i → c.special i = false) :
    Covered c { s with syncGroup := { s.syncGroup with currstate := state }, syncWriter := p } :=
  h.setSync h.ring.syncGeneration hbusy hsyncs (fun _ => id) hordinary
    fun r hr hcarts hsync => h.found.written r hr (pinned_eq_false.mpr ⟨hcarts, hsync⟩)

/-! ## `LogBuffers` -/

theorem Covered.beginLog (hpc : s.writer = .closed) : Covered c (beginLog c s) := by
  have hclosed := h.rolls.closed (hpc ▸ rfl)
  have hearly : s.writer.early := hpc ▸ rfl
  unfold WriteGroups.beginLog
  split
  · have hlogging : Covered c { s with
        writer := .logging false 0, bufferGeneration := s.group.generation } := by
      refine h.advance s.group.generation hpc nofun rfl rfl nofun (le_refl _) (fun _ => rfl)
        (fun _ => rfl) nofun ?_ (fun _ _ _ => False.elim) ?_
      · exact fun r _ _ _ hmarked => .inr ⟨zero_le _, hmarked⟩
      · -- every buffer has an older shadow, which the pass replaces, or none at all
        intro r hr _ _
        obtain hzero | hne := eq_or_ne s.group.generation 0
        · exact .inr (le_zero.mp (hzero ▸ h.shadows.generation_le r.buf))
        · have hlt := h.shadows.generation_lt hearly hne r.buf
          exact .inl (le_trans (h.rolls.version r hr) (le_of_eq (image_eq_data hlt).symm))
    exact hlogging.others h.found.written
  · next hlogging =>
    refine h.advance s.bufferGeneration hpc nofun rfl rfl nofun ?_ nofun (fun _ => rfl) nofun
      ?_ (fun _ _ _ => False.elim) nofun
    · refine le_trans h.shadows.bound ?_
      rw [generationBound, if_pos hearly]
      exact sub_le _ _
    · exact fun r hr _ hg _ => .inr ⟨eq_false_of_ne_true hlogging, hclosed r hr hg⟩

theorem Covered.logSkip (hpc : s.writer = .logging false i)
    (hskip : ¬ (s.group.buffers i ∧ c.special i = false ∧ (s.buffer i).dirty))
    (hover : passesOver c s s.writer = false) : Covered c { s with writer := .logging false (i+1) } := by
  have hpass := h.shadows.pass (.inl (hpc ▸ rfl))
  have hclosed := h.rolls.closed (hpc ▸ rfl)
  refine h.advance s.bufferGeneration hpc nofun rfl rfl nofun hpass.le (fun _ => hpass)
    (fun _ => rfl) nofun ?_ (fun _ _ _ => False.elim) ?_
  · rintro r hr ho hg ⟨hle, hmarked⟩
    obtain hlt | rfl := lt_or_eq_of_le hle
    · exact .inr ⟨hlt, hmarked⟩
    · have hqueued := hclosed r hr hg
      have hclean : (s.buffer r.buf).dirty = false := eq_false_of_ne_true fun hdirty => hskip ⟨hqueued, ho, hdirty⟩
      have hunmarked : (r.buf, s.group.generation) ∈ s.unmarked :=
        hg ▸ hmarked.resolve_right (ne_true_of_eq_false hclean)
      rw [hpc] at hover
      simp only [passesOver, hqueued, ho, hclean, hunmarked, Bool.not_false, Bool.and_true,
        decide_true, true_eq_false] at hover
  · intro r hr ho hto
    obtain ⟨hle, hqueued⟩ := stillToLog_logging.mp hto
    refine (h.found.image r hr ho ?_).imp id id
    rw [hpc]
    exact stillToLog_logging.mpr ⟨le_of_succ_le hle, hqueued⟩

theorem Covered.takeMark {logged : Bool} (hpc : s.writer = .imaging false i ∨ s.writer = .writing false i)
    (htaken : ∀ r ∈ s.registered, c.special r.buf = false → r.buf = i → Taken s r s.writer) :
    Covered c (s.setBuffer i { s.buffer i with dirty := false, logged := logged }) := by
  have hd : Renewed s i { s.buffer i with dirty := false, logged := logged } :=
    (Renewed.refl h.shadows i).flags false logged
  have hmarked (r : Registration) (hne : r.buf ≠ i) : Marked s r →
      Marked (s.setBuffer i { s.buffer i with dirty := false, logged := logged }) r := by
    refine .imp_right fun hdirty => ?_
    change (update s.buffer i _ r.buf).dirty
    rwa [update_of_ne hne]
  refine h.replace hd ?_ ?_
  · intro r hr _
    rcases hpc with hpc | hpc <;> rw [hpc]
    · exact .imp (fun hm => ⟨hm.1, hmarked r hm.1.ne' hm.2⟩) (.imp_right (Imaged.setBuffer h hd hr))
    · exact id
  · intro r hr ho hm
    obtain hi | hne := eq_or_ne r.buf i
    · exact .inr (Taken.mono s _ (Imaged.setBuffer h hd hr) (htaken r hr ho hi))
    · exact .inl (hmarked r hne hm)

theorem Covered.logTake (hpc : s.writer = .logging false i) (hqueued : s.group.buffers i) :
    Covered c { s.setBuffer i { s.buffer i with dirty := false } with
      writer := .imaging false i } := by
  have hpass := h.shadows.pass (.inl (hpc ▸ rfl))
  have hself (r : Registration) (hr : r ∈ s.registered) (ho : c.special r.buf = false)
      (hi : r.buf = i) : Imaged s r := by
    refine h.found.image r hr ho ?_
    rw [hpc]
    exact stillToLog_logging.mpr ⟨hi.symm.le, hi ▸ hqueued⟩
  have hmoved : Covered c { s with writer := .imaging false i } := by
    refine h.advance s.bufferGeneration hpc nofun rfl rfl nofun hpass.le
      (fun _ => hpass) (fun _ => rfl) nofun ?_ (fun _ _ _ => False.elim) ?_
    · rintro r hr ho _ ⟨hle, hmarked⟩
      obtain hlt | heq := lt_or_eq_of_le hle
      · exact .inr (.inl ⟨hlt, hmarked⟩)
      · exact .inr (.inr ⟨heq.symm, hself r hr ho heq.symm⟩)
    · intro r hr ho hto
      obtain ⟨hlt, hgroup⟩ := stillToLog_imaging.mp hto
      refine h.found.image r hr ho ?_
      rw [hpc]
      exact stillToLog_logging.mpr ⟨hlt.le, hgroup⟩
  exact hmoved.takeMark (.inl rfl) fun r hr ho hi => ⟨hi, hself r hr ho hi⟩

end

theorem shadowIfNeeded_again (d : BufferDesc) (gen : Nat) (logged : Bool) :
    ({ d.shadowIfNeeded gen false with logged := logged }.shadowIfNeeded gen false).shadow =
      (d.shadowIfNeeded gen false).shadow := by
  unfold BufferDesc.shadowIfNeeded
  grind

section

variable (h : Covered c s)
include h

theorem Covered.logImage (hpc : s.writer = .imaging false i) : Covered c (logImage false i s) := by
  let d : BufferDesc := { (s.buffer i).shadowIfNeeded s.bufferGeneration false with logged := true }
  have hset : Covered c (s.setBuffer i d) := h.setBuffer ((renewed_shadow h.shadows i false).flags _ true)
    fun hdirty => (shadowIfNeeded_dirty ..).trans hdirty
  have hpass := h.shadows.pass (.inl (hpc ▸ rfl))
  have hself (r : Registration) (hi : r.buf = i) (himaged : Imaged (s.setBuffer i d) r) :
      Shadowed (s.setBuffer i d) r := by
    have hbuffer : (s.setBuffer i d).buffer i = d := update_self ..
    refine himaged.imp_left fun hle => hle.trans (le_of_eq ?_)
    unfold image
    rw [hi, hbuffer]
    exact shadowIfNeeded_again ..
  have hmoved : Covered c { s.setBuffer i d with writer := .logging false (i+1) } := by
    refine hset.advance s.bufferGeneration hpc nofun rfl rfl nofun hpass.le
      (fun _ => hpass) (fun _ => rfl) nofun ?_ ?_ ?_
    · rintro r _ _ _ (⟨hlt, hmarked⟩ | ⟨hi, himaged⟩)
      · exact .inr ⟨hlt, hmarked⟩
      · exact .inl (hself r hi himaged)
    · rintro r _ _ ⟨hi, himaged⟩
      exact .inl (hself r hi himaged)
    · intro r hr ho hto
      obtain ⟨hlt, hgroup⟩ := stillToLog_logging.mp hto
      refine hset.found.image r hr ho ?_
      change stillToLog _ _ s.writer
      rw [hpc]
      exact stillToLog_imaging.mpr ⟨hlt, hgroup⟩
  exact hmoved.others h.found.written

theorem Covered.logBuffer (hpc : s.writer = .logging false i)
    (hover : passesOver c s s.writer = false) : Covered c (logBuffer c false i s) := by
  unfold WriteGroups.logBuffer
  split
  · split
    · next htake => exact h.logTake hpc htake.1
    · next hskip => exact h.logSkip hpc hskip hover
  · next hend =>
    have hgen := le_of_eq (h.shadows.pass (.inl (hpc ▸ rfl)))
    have hmoved : Covered c { s with writer := .transactions 0 } := by
      refine h.advance s.bufferGeneration hpc nofun rfl rfl nofun hgen nofun nofun nofun ?_
        (fun _ _ _ => False.elim) nofun
      rintro r hr _ hg ⟨hle, _⟩
      have hlt := h.rolls.carts s.cart _ (h.rolls.closed (hpc ▸ rfl) r hr hg)
      exact absurd (hle.trans_lt hlt) hend
    exact hmoved.others h.found.written

/-! ## `DBWriter` after `LogBuffers` -/

theorem Covered.logTransactions (hpc : s.writer = .transactions j) : Covered c (logTransactions j s) := by
  unfold WriteGroups.logTransactions
  split
  · have hmoved : Covered c { s with writer := .transactions (j+1) } :=
      h.pass hpc rfl rfl rfl nofun nofun (fun _ _ _ _ => .inr) (fun _ _ _ => .inr)
    exact hmoved.others h.found.written
  · exact (h.setCart (k := s.cart) (g := { s.group with currstate := .logged, dotransaction := false })
      rfl rfl nofun id).pass hpc rfl rfl rfl nofun nofun (fun _ _ _ _ => .inr)
      (fun _ _ _ => .inr)

theorem Covered.lateTransactions (hpc : s.writer = .lateTransactions j) : Covered c (lateTransactions j s) := by
  have hsynced (b : Nat) : s.writer.hasSynced b := hpc ▸ rfl
  unfold WriteGroups.lateTransactions
  split
  · have hmoved : Covered c { s with writer := .lateTransactions (j+1) } :=
      h.pass hpc rfl rfl rfl nofun (fun b _ => h.rolls.done b (hsynced b)) (fun _ _ _ _ => .inr) (fun _ _ _ => .inr)
    exact hmoved.others h.found.written
  · have hset := h.setCart (k := s.cart) (g := { s.group with currstate := .synced }) rfl rfl nofun id
    exact hset.pass hpc rfl rfl rfl nofun (fun b _ => hset.rolls.done b (hsynced b))
      (fun _ _ _ _ => .inr) (fun _ _ _ => .inr)

section

variable (hpc : s.writer = .loggedGroup)
include hpc

/-- The buffers wait for `SyncWriter`. Their images are logged, so all shadows are taken. -/
theorem Covered.leaveToSync (hbusy : s.syncBusy = false) (hloggable : s.group.loggable) (n : Nat) :
    Covered c { s.setCart s.cart s.group.emptied with
      syncGroup := { s.syncGroup.merge s.group with currstate := .waiting }
      syncBuffers := n
      writer := .finishing } := by
  let s' : Server := { s.setCart s.cart s.group.emptied with
    syncGroup := { s.syncGroup.merge s.group with currstate := .waiting }
    syncBuffers := n }
  have hlogging := h.rolls.loggable s.cart hloggable
  have hidle := h.ring.idle_of_not_busy hbusy
  have hchecking : s.writer ≠ .checking := hpc ▸ nofun
  have hmoved : Covered c s' := by
    refine h.regroup (hpc ▸ rfl) rfl (h.ring.calm s.cart) rfl h.ring.syncGeneration
      (fun hp => absurd hidle hp) (hpc ▸ nofun) nofun ?_ (fun _ _ => rfl) ?_ ?_
    · intro b hb
      exact ((or_eq_true ..).mp hb).elim (h.rolls.sync b) (h.rolls.carts s.cart b)
    · rw [hpc]
      exact fun r _ _ _ hdue => absurd (hlogging.symm.trans hdue.1) (by decide)
    · intro r hr hcurrent _ hs
      obtain ⟨hsync, hgroup⟩ := or_eq_false_iff.mp hs
      exact h.written_of_lists hchecking hr hcurrent hgroup hsync
  refine hmoved.pass hpc rfl rfl rfl nofun ?_ ?_ fun _ _ _ => False.elim
  · intro b _
    have hg : s'.group = s.group.emptied := update_self ..
    rw [hg]
    rfl
  · exact fun r _ _ _ hdue => absurd (hlogging.symm.trans hdue.1) (by decide)

theorem Covered.takeFromSync (hbusy : s.syncBusy = false) :
    Covered c { s.setCart s.cart (s.group.merge s.syncGroup) with
      syncGroup := { s.syncGroup.reset c with currstate := .notReady }
      syncBuffers := 0
      bufferGeneration := s.group.generation
      writer := .syncing false 0 } := by
  let s' : Server := { s.setCart s.cart (s.group.merge s.syncGroup) with
    syncGroup := { s.syncGroup.reset c with currstate := .notReady }
    syncBuffers := 0 }
  have hidle := h.ring.idle_of_not_busy hbusy
  have hchecking : s.writer ≠ .checking := hpc ▸ nofun
  have hgroup : s'.group = s.group.merge s.syncGroup := update_self ..
  have hgen : s.group.generation = s'.group.generation := hgroup ▸ rfl
  have hmoved : Covered c s' := by
    refine h.regroup (hpc ▸ rfl) rfl (h.ring.calm s.cart) rfl h.ring.syncGeneration
      (fun hp => absurd hidle hp) (fun _ => nofun) ?_ nofun (hpc ▸ nofun) ?_ ?_
    · intro b hb
      exact ((or_eq_true ..).mp hb).elim (h.rolls.carts s.cart b) (h.rolls.sync b)
    · refine fun r _ _ _ hdue => .inr (Due.mono s s' id id (fun hb => ?_) hdue)
      rw [hgroup]
      exact (or_eq_true ..).mpr (.inl hb)
    · intro r hr hcurrent hg _
      obtain ⟨hgroup, hsync⟩ := or_eq_false_iff.mp hg
      exact h.written_of_lists hchecking hr hcurrent hgroup hsync
  refine hmoved.advance s.group.generation hpc nofun rfl rfl (fun _ => ⟨hidle, nofun⟩)
    hgen.le (fun _ => hgen) nofun nofun ?_ (fun _ _ _ => False.elim) nofun
  exact fun r _ _ _ hdue => .inr ⟨zero_le _, hdue.2⟩

theorem Covered.settleGroup : Covered c (settleGroup c s) := by
  unfold WriteGroups.settleGroup
  split
  · refine h.setSyncState (p := s.syncWriter) (fun _ => .inr rfl) (fun hp => ?_) h.rolls.ordinary
    rw [hpc] at hp
    nomatch hp
  · next hbusy =>
    have hbusy := eq_false_of_ne_true hbusy
    split
    · next hleave => exact h.leaveToSync hpc hbusy hleave.1 _
    · exact h.takeFromSync hpc hbusy

end

theorem Covered.syncBuffer (hpc : s.writer = .syncing false i) : Covered c (syncBuffer c false i s) := by
  have hdone (b : Nat) (hlt : b < i) : s.group.buffers b = false :=
    h.rolls.done b (by rw [hpc]; exact decide_eq_true hlt)
  unfold WriteGroups.syncBuffer
  split
  · split
    · have hmoved : Covered c { s with writer := .writing false i } :=
        h.pass hpc rfl rfl rfl (fun _ => rfl) (fun b hb => hdone b (of_decide_eq_true hb))
          (fun _ _ _ _ => .inr) (fun _ _ _ => False.elim)
      exact hmoved.takeMark (.inr rfl) fun r _ _ hi => hi
    · next hlist =>
      have hlist : s.group.buffers i = false := eq_false_of_ne_true hlist
      refine h.pass hpc rfl rfl rfl (fun _ => rfl) ?_ ?_ (fun _ _ _ => False.elim)
      · intro b hb
        obtain hlt | rfl := lt_or_eq_of_le (le_of_lt_succ (of_decide_eq_true hb))
        · exact hdone b hlt
        · exact hlist
      · rintro r _ _ _ ⟨hle, hgroup⟩
        have hne : i ≠ r.buf := fun heq => absurd (hlist.symm.trans (heq ▸ hgroup)) (by decide)
        exact .inr ⟨lt_of_le_of_ne hle hne, hgroup⟩
  · next hend =>
    refine h.pass hpc rfl rfl rfl nofun ?_ ?_ (fun _ _ _ => False.elim)
    · intro b _
      refine eq_false_of_ne_true fun hb => ?_
      have hlt := (h.rolls.carts s.cart b hb).trans_le (Nat.le_of_not_lt hend)
      exact absurd ((hdone b hlt).symm.trans hb) (by decide)
    · rintro r _ _ _ ⟨hle, hgroup⟩
      exact absurd (hle.trans_lt (h.rolls.carts s.cart _ hgroup)) hend

/-- What `DBWriter` writes has everything registered of the buffer, apart from the current group. -/
theorem Covered.written_by_writer (hpc : s.writer = .writing false i)
    (hr : r ∈ s.registered) (hi : r.buf = i) (hcurrent : s.current.buffers i = false) :
    r.version ≤ ((s.buffer i).shadowIfNeeded s.bufferGeneration (!c.special i)).shadow := by
  have hpass := h.shadows.pass (.inr (hpc ▸ rfl))
  have hle := h.shadows.generation_le i
  have hversion : r.version ≤ (s.buffer i).data := hi ▸ h.rolls.version r hr
  unfold BufferDesc.shadowIfNeeded
  split
  · exact hversion
  · next hold =>
    obtain ⟨hlt, hflush⟩ := not_or.mp hold
    have heq : (s.buffer i).generation = s.group.generation := by omega
    have hspecial : c.special i := by
      refine eq_true_of_not_eq_false fun ho => hflush ⟨ho ▸ rfl, by omega⟩
    have hne : r.generation ≠ s.current.generation := fun hg =>
      absurd (hcurrent.symm.trans (hi ▸ h.rolls.queued r hr hg)) (by decide)
    have hgen := h.rolls.generation r hr
    have hnext := (h.ring.closed_ (hpc ▸ nofun)).2
    have hfirst := h.rolls.first r hr (hi ▸ hspecial)
    exact hi ▸ h.found.snap r hr (by rw [hi]; omega) (by rw [hi]; omega)

theorem Covered.writeBuffer (hpc : s.writer = .writing false i) : Covered c (writeBuffer c false i s) := by
  let d := (s.buffer i).shadowIfNeeded s.bufferGeneration (!c.special i)
  let disk : Disk := { s.disk with
    written := update s.disk.written i d.shadow
    synced := if c.special i then update s.disk.synced i d.shadow else s.disk.synced }
  let s₁ : Server := { s.setBuffer i d with disk := disk }
  let g : WriteGroup := { s.group with buffers := update s.group.buffers i false }
  let s₂ : Server := { s₁.setCart s.cart g with syncGroup := s.syncGroup, syncBuffers := s.syncBuffers }
  have hchecking : s.writer ≠ .checking := hpc ▸ nofun
  have hsyncs : s.writer.syncs := hpc ▸ rfl
  have hdone (b : Nat) (hlt : b < i) : s.group.buffers b = false :=
    h.rolls.done b (by rw [hpc]; exact decide_eq_true hlt)
  have hwritten {r : Registration} (hr : r ∈ s.registered) (hi : r.buf = i)
      (hcurrent : s.current.buffers r.buf = false) : r.version ≤ disk.written r.buf := by
    rw [hi] at hcurrent ⊢
    rw [show disk.written i = d.shadow from update_self ..]
    exact h.written_by_writer hpc hr hi hcurrent
  have hold {b : Nat} (hne : b ≠ i) : disk.written b = s.disk.written b := update_of_ne hne ..
  have hset : Covered c (s.setBuffer i d) := h.setBuffer (renewed_shadow h.shadows i _)
    fun hdirty => (shadowIfNeeded_dirty ..).trans hdirty
  have h₁ : Covered c s₁ := by
    refine hset.others fun r hr hpin => ?_
    obtain hi | hne := eq_or_ne r.buf i
    · exact hwritten hr hi ((pinned_eq_false.mp hpin).1 s.logGroup)
    · rw [hold hne]
      exact h.found.written r hr hpin
  -- an ordinary block is written as it is now
  have hself (r : Registration) (hr : r ∈ s.registered) (ho : c.special r.buf = false)
      (hi : r.buf = i) : Shadowed s₁ r := by
    have hversion := h₁.rolls.version r hr
    have hbuffer : s₁.buffer i = d := update_self ..
    have hdata : d.shadow = d.data := by
      have hgen : (s.buffer i).generation ≤ s.bufferGeneration := by
        rw [h.shadows.pass (.inr hsyncs)]
        exact h.shadows.generation_le i
      change ((s.buffer i).shadowIfNeeded _ (!c.special i)).shadow = ((s.buffer i).shadowIfNeeded _ (!c.special i)).data
      rw [show c.special i = false from hi ▸ ho]
      exact shadowIfNeeded_forflush hgen
    rw [hi, hbuffer, ← hdata] at hversion
    exact .inl (by rwa [hi, hbuffer])
  have hlist {b : Nat} (hne : b ≠ i) : g.buffers b = s.group.buffers b := update_of_ne hne ..
  have hdropped : g.buffers i = false := update_self ..
  have hgroup : s₂.group = g := update_self ..
  have h₂ : Covered c s₂ := by
    refine h₁.regroup (by change s.writer.past; rw [hpc]; rfl) rfl (h.ring.calm s.cart) rfl
      h.ring.syncGeneration (fun hp => absurd (h.ring.syncs hsyncs).1 hp)
      (fun _ => (h.ring.syncs hsyncs).2) ?_ h.rolls.sync ?_ ?_ ?_
    · intro b hb
      have hne : b ≠ i := fun heq => absurd (hdropped.symm.trans (heq ▸ hb)) (by decide)
      exact h.rolls.carts s.cart b ((hlist hne).symm.trans hb)
    · intro b hb
      change s.writer.hasSynced b at hb
      rw [hpc] at hb
      have hlt : b < i := of_decide_eq_true hb
      exact (hlist hlt.ne).trans (hdone b hlt)
    · change ∀ r ∈ s.registered, _ → _ → Due c s₁ r s.writer → _ ∨ Due c s₂ r s.writer
      rw [hpc]
      rintro r hr ho _ ⟨hle, hb⟩
      obtain hi | hne := eq_or_ne r.buf i
      · exact .inl (hself r hr ho hi)
      · refine .inr ⟨hle, ?_⟩
        rw [hgroup, hlist hne]
        exact hb
    · intro r hr hcurrent hg hsync
      obtain hi | hne := eq_or_ne r.buf i
      · exact hwritten hr hi hcurrent
      · exact h₁.written_of_lists hchecking hr hcurrent ((hlist hne).symm.trans hg) hsync
  refine h₂.pass hpc rfl rfl rfl (fun _ => rfl) ?_ ?_ ?_
  · intro b hb
    rw [hgroup]
    obtain hlt | rfl := lt_or_eq_of_le (le_of_lt_succ (of_decide_eq_true hb))
    · exact (hlist hlt.ne).trans (hdone b hlt)
    · exact hdropped
  · rintro r _ _ _ ⟨hle, hb⟩
    rw [hgroup] at hb
    have hne : i ≠ r.buf := fun heq => absurd (hdropped.symm.trans (heq ▸ hb)) (by decide)
    refine .inr ⟨lt_of_le_of_ne hle hne, ?_⟩
    rw [hgroup]
    exact hb
  · exact fun r hr ho hi => .inl (hself r hr ho hi)

theorem Covered.commitPackage (hpc : s.writer = .packaging false) : Covered c (commitPackage false s) := by
  have hmoved : Covered c { s with writer := .clearing false } :=
    h.pass hpc rfl rfl rfl nofun (fun b _ => h.rolls.done b (hpc ▸ rfl)) (fun _ _ _ _ => .inr) (fun _ _ _ => .inr)
  exact hmoved.others h.found.written

theorem Covered.clearLogs (hpc : s.writer = .clearing false) : Covered c (clearLogs c false s) := by
  have hmoved : Covered c { s with writer := .lateTransactions 0 } :=
    h.pass hpc rfl rfl rfl nofun (fun b _ => h.rolls.done b (hpc ▸ rfl)) (fun _ _ _ _ => .inr) (fun _ _ _ => .inr)
  unfold WriteGroups.clearLogs
  cases c.logging with
  | false => exact hmoved
  | true => exact hmoved.others h.found.written

end

end WeaverDB.WriteGroups
