import WeaverDB.WriteGroups.WriteAhead

/-! # Blocks of buffers that no group holds

`SyncBuffers` drops the pin of a group after it has written the block. With the last pin the buffer may
be replaced, so everything registered of it should then be in its block. What is written is the shadow,
taken anew only if its generation is behind that of the pass. `steady` excludes what the code does not
guard against:

* `FlushAllDirtyBuffers` has the buffers written under the generation 0 of the sync group, with the
  shadows that earlier groups left;
* `LogBuffers` takes the dirty mark off a buffer whose shadow of this pass is already there, and with it
  the mark of a later change;
* late dirty marks and the generation 0 that `SyncWriter` sets, as for `orderly`;
* special buffers of the group with generation 0 are written from shadows that were never taken.
-/

namespace WeaverDB.WriteGroups
open Function List

variable {r : Registration}

def Server.pinned (s : Server) (b : Nat) : Bool :=
  (s.carts false).buffers b || (s.carts true).buffers b || s.syncGroup.buffers b

/-- The block of a buffer that may be replaced has all that was registered of the buffer. -/
def UnpinnedWritten (s : Server) : Prop :=
  ∀ r ∈ s.registered, s.pinned r.buf = false → r.version ≤ s.disk.written r.buf

/-- `LogBuffers` has still to look at the buffer, and has its shadow already. -/
def shadowTaken (s : Server) (b : Nat) : Bool :=
  stillToLog s b s.writer && (s.buffer b).generation == s.bufferGeneration && (s.buffer b).generation != 0

/-- `LogBuffers` is about to pass over a buffer whose mark is still to come. -/
def passesOver (c : Config) (s : Server) : WriterPc → Bool
  | .logging _ i => s.group.buffers i && !c.special i && !(s.buffer i).dirty &&
      decide ((i, s.group.generation) ∈ s.unmarked)
  | _ => false

def steady (c : Config) (s : Server) : Event → Bool
  | .register b => if c.special b then s.current.generation != 0 else !shadowTaken s b
  | .flushAllDirtyBuffers => false
  | .writer => !passesOver c s s.writer
  | .syncWriter _ => s.syncWriter != .idle || !s.writer.logs
  | _ => true

/-- The shadow has the change, or it is certain to be taken before it is written. -/
def Shadowed (s : Server) (r : Registration) : Prop :=
  r.version ≤ (s.buffer r.buf).shadow ∨ (s.buffer r.buf).generation = 0

def Imaged (s : Server) (r : Registration) : Prop := r.version ≤ image s r.buf ∨ (s.buffer r.buf).generation = 0

def Due (c : Config) (s : Server) (r : Registration) : WriterPc → Prop
  | .checking | .closed => Marked s r
  | .logging _ i => i ≤ r.buf ∧ Marked s r
  | .imaging _ i => (i < r.buf ∧ Marked s r) ∨ (r.buf = i ∧ Imaged s r)
  | .transactions _ | .loggedGroup => c.logging = false ∧ s.group.buffers r.buf
  | .syncing _ i | .writing _ i => i ≤ r.buf ∧ s.group.buffers r.buf
  | _ => False

def Taken (s : Server) (r : Registration) : WriterPc → Prop
  | .imaging _ i => r.buf = i ∧ Imaged s r
  | .writing _ i => r.buf = i
  | _ => False

def WriterPc.hasSynced (b : Nat) : WriterPc → Bool
  | .syncing _ i | .writing _ i => decide (b < i)
  | .packaging _ | .clearing _ | .lateTransactions _ | .finishing => true
  | _ => false

structure Rolls (c : Config) (s : Server) : Prop where
  carts : ∀ k b, (s.carts k).buffers b → b < c.maxBuffers
  sync : ∀ b, s.syncGroup.buffers b → b < c.maxBuffers
  idle : s.writer = .checking → ∀ b, (s.carts (!s.cart)).buffers b = false
  done : ∀ b, s.writer.hasSynced b → s.group.buffers b = false
  loggable : ∀ k, (s.carts k).loggable → c.logging
  ordinary : ∀ i, s.syncWriter = .writing i → c.special i = false
  version : ∀ r ∈ s.registered, r.version ≤ (s.buffer r.buf).data
  generation : ∀ r ∈ s.registered, r.generation ≤ s.current.generation
  queued : ∀ r ∈ s.registered, r.generation = s.current.generation → s.current.buffers r.buf
  closed : s.writer.past = false → ∀ r ∈ s.registered, r.generation = s.group.generation → s.group.buffers r.buf
  first : ∀ r ∈ s.registered, c.special r.buf → r.generation ≠ 0

theorem Rolls.enrolled {c : Config} {s : Server} (h : Rolls c s) : Enrolled s := { h with }

structure Found (c : Config) (s : Server) : Prop where
  snap : ∀ r ∈ s.registered, (s.buffer r.buf).generation ≠ 0 →
    r.generation ≤ (s.buffer r.buf).generation → r.version ≤ (s.buffer r.buf).shadow
  earlier : ∀ r ∈ s.registered, c.special r.buf = false → r.generation < s.group.generation → Shadowed s r
  closed : s.writer ≠ .checking → ∀ r ∈ s.registered, c.special r.buf = false →
    r.generation = s.group.generation → Shadowed s r ∨ Due c s r s.writer
  current : ∀ r ∈ s.registered, c.special r.buf = false → r.generation = s.current.generation →
    Shadowed s r ∨ Marked s r ∨ Taken s r s.writer
  image : ∀ r ∈ s.registered, c.special r.buf = false → stillToLog s r.buf s.writer → Imaged s r
  written : UnpinnedWritten s

structure Covered (c : Config) (s : Server) : Prop where
  ring : Ring s
  shadows : Shadows s
  rolls : Rolls c s
  found : Found c s

theorem covered_init (c : Config) : Covered c (.init c) where
  ring := (invariant_init c).ring
  shadows := (invariant_init c).pool.shadows
  rolls := ⟨nofun, nofun, fun _ _ => rfl, fun _ _ => rfl, fun _ h => h, nofun, nofun, nofun, nofun,
    nofun, nofun⟩
  found := ⟨nofun, nofun, nofun, nofun, nofun, nofun⟩

variable {c : Config} {s : Server} {b : Nat} {pc : WriterPc}

theorem pinned_eq_false : s.pinned b = false ↔
    (∀ k, (s.carts k).buffers b = false) ∧ s.syncGroup.buffers b = false := by
  simp only [Server.pinned, Bool.or_eq_false_iff, Bool.forall_bool]

section

variable {b : Nat} {d : BufferDesc}

structure Renewed (s : Server) (b : Nat) (d : BufferDesc) : Prop extends Grown s b d where
  kept : d.generation = (s.buffer b).generation ∨ d.shadow = d.data

theorem Renewed.refl (h : Shadows s) (b : Nat) : Renewed s b (s.buffer b) := ⟨.refl h b, .inl rfl⟩

theorem Renewed.flags (hd : Renewed s b d) (dirty logged : Bool) :
    Renewed s b { d with dirty := dirty, logged := logged } :=
  ⟨hd.toGrown.flags dirty logged, hd.kept⟩

theorem renewed_shadow (h : Shadows s) (b : Nat) (forflush : Bool) :
    Renewed s b ((s.buffer b).shadowIfNeeded s.bufferGeneration forflush) := by
  refine ⟨grown_shadow h b forflush, ?_⟩
  unfold BufferDesc.shadowIfNeeded
  split
  · exact .inr rfl
  · exact .inl rfl

theorem Renewed.update (h : Shadows s) (hd : Renewed s b d) (x : Nat) : Renewed s x ((s.setBuffer b d).buffer x) := by
  change Renewed s x (Function.update s.buffer b d x)
  obtain rfl | hne := eq_or_ne x b
  · rwa [update_self]
  · rw [update_of_ne hne]
    exact .refl h x

theorem Shadows.setBuffer (h : Shadows s) (hd : Grown s b d) : Shadows (s.setBuffer b d) :=
  { h with
    buffers := fun x => (hd.update h x).generation
    shadow := fun x => (hd.update h x).held }

theorem shadow_le_image (h : Shadows s) (b : Nat) : (s.buffer b).shadow ≤ image s b := (grown_shadow h b false).shadow

theorem Shadowed.mono (s s' : Server) (hversion : r.version ≤ (s.buffer r.buf).data)
    (hd : Renewed s r.buf (s'.buffer r.buf)) (h : Shadowed s r) : Shadowed s' r := by
  obtain hle | hzero := h
  · exact .inl (hle.trans hd.shadow)
  · obtain hsame | htaken := hd.kept
    · exact .inr (hsame.trans hzero)
    · exact .inl (htaken ▸ hversion.trans hd.data)

theorem Due.mono (s s' : Server) (hmarked : Marked s r → Marked s' r)
    (himaged : Imaged s r → Imaged s' r) (hgroup : s.group.buffers r.buf → s'.group.buffers r.buf)
    (h : Due c s r pc) : Due c s' r pc := by
  cases pc with
  | checking | closed => exact hmarked h
  | logging f i => exact h.imp_right hmarked
  | imaging f i => exact h.imp (.imp_right hmarked) (.imp_right himaged)
  | transactions | loggedGroup | syncing | writing => exact h.imp_right hgroup
  | flushMerging | packaging | clearing | lateTransactions | finishing => exact h

theorem Taken.mono (s s' : Server) (himaged : Imaged s r → Imaged s' r) (h : Taken s r pc) : Taken s' r pc := by
  cases pc with
  | imaging f i => exact h.imp_right himaged
  | _ => exact h

theorem Imaged.mono (s s' : Server) (hs' : Shadows s')
    (hversion : r.version ≤ (s.buffer r.buf).data) (hd : Renewed s r.buf (s'.buffer r.buf))
    (hgen : s'.bufferGeneration = s.bufferGeneration) (h : Imaged s r) : Imaged s' r := by
  obtain hle | hzero := h
  · refine .inl (hle.trans (hd.image.trans (le_of_eq ?_)))
    rw [← hgen]
    rfl
  · have hshadowed := Shadowed.mono s s' hversion hd (.inr hzero)
    exact hshadowed.imp_left fun hle => hle.trans (shadow_le_image hs' r.buf)

section

variable (h : Covered c s)
include h

theorem Imaged.setBuffer (hd : Renewed s b d) (hr : r ∈ s.registered) : Imaged s r → Imaged (s.setBuffer b d) r :=
  Imaged.mono s _ (h.shadows.setBuffer hd.toGrown) (h.rolls.version r hr) (hd.update h.shadows r.buf) rfl

theorem Covered.replace (hd : Renewed s b d)
    (hdue : ∀ r ∈ s.registered, c.special r.buf = false → Due c s r s.writer → Due c (s.setBuffer b d) r s.writer)
    (hmarked : ∀ r ∈ s.registered, c.special r.buf = false → Marked s r →
      Marked (s.setBuffer b d) r ∨ Taken (s.setBuffer b d) r s.writer) :
    Covered c (s.setBuffer b d) := by
  have hrenewed := hd.update h.shadows
  have hversion := h.rolls.version
  have hshadowed (r : Registration) (hr : r ∈ s.registered) : Shadowed s r → Shadowed (s.setBuffer b d) r :=
    Shadowed.mono s _ (hversion r hr) (hrenewed r.buf)
  refine ⟨{ h.ring with }, h.shadows.setBuffer hd.toGrown, { h.rolls with version := ?_ }, ?_⟩
  · exact fun r hr => (hversion r hr).trans (hrenewed r.buf).data
  refine ⟨?_, ?_, ?_, ?_, ?_, h.found.written⟩
  · intro r hr hzero hle
    obtain hsame | htaken := (hrenewed r.buf).kept
    · exact (h.found.snap r hr (hsame ▸ hzero) (hsame ▸ hle)).trans (hrenewed r.buf).shadow
    · exact htaken ▸ (hversion r hr).trans (hrenewed r.buf).data
  · exact fun r hr ho hlt => hshadowed r hr (h.found.earlier r hr ho hlt)
  · exact fun hpc r hr ho hg => (h.found.closed hpc r hr ho hg).imp (hshadowed r hr) (hdue r hr ho)
  · intro r hr ho hg
    refine (h.found.current r hr ho hg).imp (hshadowed r hr) fun hkept => ?_
    exact hkept.elim (hmarked r hr ho) fun ht => .inr (Taken.mono s _ (Imaged.setBuffer h hd hr) ht)
  · exact fun r hr ho hto => Imaged.setBuffer h hd hr (h.found.image r hr ho hto)

theorem Covered.setBuffer (hd : Renewed s b d)
    (hdirty : (s.buffer b).dirty → d.dirty) : Covered c (s.setBuffer b d) := by
  have hmarked (r : Registration) : Marked s r → Marked (s.setBuffer b d) r :=
    .imp_right (setBuffer_dirty s hdirty r.buf)
  refine h.replace hd ?_ fun r _ _ hr => .inl (hmarked r hr)
  exact fun r hr _ => Due.mono s _ (hmarked r) (Imaged.setBuffer h hd hr) id

theorem Covered.unmark {generation : Nat} (hdirty : (s.buffer b).dirty) :
    Covered c { s with unmarked := s.unmarked.erase (b, generation) } := by
  have hmarked (r : Registration) (hr : Marked s r) :
      Marked { s with unmarked := s.unmarked.erase (b, generation) } r := hr.unmark hdirty
  refine ⟨{ h.ring with }, { h.shadows with }, { h.rolls with }, { h.found with closed := ?_, current := ?_ }⟩
  · exact fun hpc r hr ho hg => (h.found.closed hpc r hr ho hg).imp_right (Due.mono s _ (hmarked r) id id)
  · exact fun r hr ho hg => (h.found.current r hr ho hg).imp_right (.imp_left (hmarked r))

end

end

theorem Covered.others (h : Covered c s) {primed : Bool} {n : Nat} {disk : Disk} {commits : List (TransactionId × Nat)}
    (hwritten : ∀ r ∈ s.registered, s.pinned r.buf = false → r.version ≤ disk.written r.buf) :
    Covered c { s with primed := primed, syncBuffers := n, disk := disk, hardCommits := commits } where
  ring := { h.ring with }
  shadows := { h.shadows with }
  rolls := { h.rolls with }
  found := { h.found with written := hwritten }

theorem Covered.setCart (h : Covered c s) {k : Bool} {g : WriteGroup}
    (hbuffers : g.buffers = (s.carts k).buffers) (hgeneration : g.generation = (s.carts k).generation)
    (hcalm : g.currstate ≠ .flushing) (hloggable : g.loggable → (s.carts k).loggable) :
    Covered c (s.setCart k g) := by
  have hlists := setCart_eq WriteGroup.buffers hbuffers
  have hgroup : (s.setCart k g).group.buffers = s.group.buffers := hlists s.cart
  have hgroupGen : (s.setCart k g).group.generation = s.group.generation :=
    setCart_eq WriteGroup.generation hgeneration s.cart
  have hcurrent : (s.setCart k g).current.buffers = s.current.buffers := hlists s.logGroup
  have hcurrentGen : (s.setCart k g).current.generation = s.current.generation :=
    setCart_eq WriteGroup.generation hgeneration s.logGroup
  have hpinned (b : Nat) : (s.setCart k g).pinned b = s.pinned b := by
    unfold Server.pinned
    rw [hlists, hlists]
    rfl
  refine ⟨h.ring.setCart hgeneration hcalm, h.shadows.setCart hgeneration, ?_, ?_⟩
  · exact { h.rolls with
      carts := fun j => hlists j ▸ h.rolls.carts j
      idle := fun hpc => hlists (!s.cart) ▸ h.rolls.idle hpc
      done := hgroup ▸ h.rolls.done
      loggable := setCart_all (·.loggable → c.logging) (fun hg => h.rolls.loggable k (hloggable hg)) h.rolls.loggable
      generation := hcurrentGen ▸ h.rolls.generation
      queued := by rw [hcurrent, hcurrentGen]; exact h.rolls.queued
      closed := by rw [hgroup, hgroupGen]; exact h.rolls.closed }
  · exact
      { snap := h.found.snap
        earlier := hgroupGen ▸ h.found.earlier
        closed := fun hpc r hr ho hg => (h.found.closed hpc r hr ho (hg.trans hgroupGen)).imp_right
          (Due.mono s _ id id fun hb => (congrFun hgroup r.buf).trans hb)
        current := fun r hr ho hg => (h.found.current r hr ho (hg.trans hcurrentGen)).imp_right
          (.imp_right (Taken.mono s _ id))
        image := fun r hr ho hto => h.found.image r hr ho ((stillToLog_setCart hbuffers ..).symm.trans hto)
        written := fun r hr hpin => h.found.written r hr ((hpinned r.buf).symm.trans hpin) }

theorem generation_lt_current (hring : Ring s) (h : Shadows s) (hb : (s.buffer b).generation ≠ 0) :
    (s.buffer b).generation < s.current.generation := by
  have hle := h.buffers b
  unfold generationBound at hle
  split at hle
  · have hgroup := group_le_current hring
    omega
  · next hlate =>
    have hchecking : s.writer ≠ .checking := fun hpc => hlate (hpc ▸ rfl)
    rw [(hring.closed_ hchecking).2]
    omega

theorem imaged_of_not_taken (h : Covered c s) {gen : Nat} (hto : stillToLog s b s.writer)
    (htaken : shadowTaken s b = false) : Imaged (enlisted b s) ⟨b, (s.buffer b).data, gen⟩ := by
  have hlogs := stillToLog_logs hto
  have hlate : s.writer.early = false := WriterPc.not_early_of_logs hlogs
  have hle : (s.buffer b).generation ≤ s.bufferGeneration := by
    rw [h.shadows.pass (.inl hlogs), ← generationBound_late hlate]
    exact h.shadows.buffers b
  obtain hlt | heq := lt_or_eq_of_le hle
  · refine .inl (le_of_eq ?_)
    change _ = ((s.buffer b).shadowIfNeeded s.bufferGeneration false).shadow
    unfold BufferDesc.shadowIfNeeded
    rw [if_pos (.inl hlt)]
  · refine .inr (Decidable.byContradiction fun hzero => ?_)
    refine absurd htaken (ne_false_of_eq_true ?_)
    simp only [shadowTaken, hto, Bool.true_and, Bool.and_eq_true, beq_iff_eq, bne_iff_ne]
    exact ⟨heq, hzero⟩

theorem Covered.enlist (h : Covered c s) (hb : b < c.maxBuffers) (hfirst : c.special b → s.current.generation ≠ 0)
    (htaken : c.special b = false → shadowTaken s b = false) : Covered c (enlisted b s) := by
  have hmarked (r : Registration) : Marked s r → Marked (enlisted b s) r := .imp_left (mem_cons_of_mem _)
  refine ⟨h.ring.enlist b, h.shadows.enlist b, { h.rolls.enrolled.enlist h.ring b with
    carts := fun j => enlisted_bounded hb j (h.rolls.carts j), sync := h.rolls.sync
    done := ?_, loggable := ?_, ordinary := h.rolls.ordinary
    first := forall_mem_cons.mpr ⟨hfirst, h.rolls.first⟩ }, ⟨?_, ?_, ?_, ?_, ?_, ?_⟩⟩
  · intro x hx
    have hpc : s.writer ≠ .checking := by
      rintro hpc
      change s.writer.hasSynced x at hx
      rw [hpc] at hx
      nomatch hx
    rw [enlisted_group h.ring hpc]
    exact h.rolls.done x hx
  · intro j
    change (update s.carts s.logGroup _ j).loggable → _
    obtain rfl | hne := eq_or_ne j s.logGroup
    · rw [update_self]
      exact h.rolls.loggable s.logGroup
    · rw [update_of_ne hne]
      exact h.rolls.loggable j
  · intro r hr hzero hle
    obtain rfl | hr := mem_cons.mp hr
    · exact absurd hle (Nat.not_le_of_lt (generation_lt_current h.ring h.shadows hzero))
    · exact h.found.snap r hr hzero hle
  · intro r hr ho hg
    have hg : r.generation < s.group.generation := lt_of_lt_of_eq hg (enlisted_generation s.cart)
    obtain rfl | hr := mem_cons.mp hr
    · exact absurd hg (Nat.not_lt_of_le (group_le_current h.ring))
    · exact h.found.earlier r hr ho hg
  · intro hpc r hr ho hg
    have hg : r.generation = s.group.generation := hg.trans (enlisted_generation s.cart)
    obtain rfl | hr := mem_cons.mp hr
    · exact absurd hg (group_ne_current h.ring hpc)
    · exact (h.found.closed hpc r hr ho hg).imp_right (Due.mono s _ (hmarked r) id enlisted_buffers)
  · intro r hr ho hg
    obtain rfl | hr := mem_cons.mp hr
    · exact .inr (.inl (.inl (.head _)))
    · exact (h.found.current r hr ho (hg.trans (enlisted_generation s.logGroup))).imp_right
        (.imp (hmarked r) (Taken.mono s _ id))
  · intro r hr ho hto
    have hto : stillToLog s r.buf s.writer := (stillToLog_enlisted h.ring _).symm.trans hto
    obtain rfl | hr := mem_cons.mp hr
    · exact imaged_of_not_taken h hto (htaken ho)
    · exact h.found.image r hr ho hto
  · intro r hr hpin
    obtain ⟨hcarts, hsync⟩ := pinned_eq_false.mp hpin
    obtain rfl | hr := mem_cons.mp hr
    · exact absurd ((enlisted_self rfl).symm.trans (hcarts s.logGroup)) (by decide)
    · refine h.found.written r hr (pinned_eq_false.mpr ⟨fun k => ?_, hsync⟩)
      exact eq_false_of_ne_true fun hk => absurd ((enlisted_buffers hk).symm.trans (hcarts k)) (by decide)

end WeaverDB.WriteGroups
