import WeaverDB.Foundations.Runs
import WeaverDB.WriteGroups.Writer

/-! # Images before commits

A commit may be made durable only after the changes registered in its group and those before it: as
images in a committed batch of the log, or as synced blocks. `orderly` excludes what the code does not
guard against:

* without block logging the transactions are logged before any buffer is written;
* the first group has generation 0, the generation of every buffer that was read, so its images are
  taken from shadows that were never filled;
* `SyncWriter` sets the generation of the buffers back to 0, also while `LogBuffers` runs, and a flush
  uses up the generation of a group that goes on afterwards;
* a buffer is registered before it is marked dirty, and `LogBuffers` passes over a clean buffer;
* `LogBuffers` takes the dirty mark off a buffer that the next group has registered, and whose shadow
  was taken before that change.
-/

namespace WeaverDB.WriteGroups
open Foundations List Function

/-! ## The property and the condition -/

def Safe (s : Server) (r : Registration) : Prop :=
  r.version ≤ s.disk.log r.buf ∨ r.version ≤ s.disk.synced r.buf

/-- Every commit that may be on disk comes after images of all registered up to its group. -/
def WriteAhead (c : Config) (s : Server) : Prop :=
  ∀ xid g, (xid, g) ∈ s.hardCommits → ∀ r ∈ s.registered, c.special r.buf = false → r.generation ≤ g → Safe s r

def stillToLog (s : Server) (b : Nat) : WriterPc → Bool
  | .logging _ i => decide (i ≤ b) && s.group.buffers b
  | .imaging _ i => decide (i < b) && s.group.buffers b
  | _ => false

def WriterPc.logs : WriterPc → Bool
  | .logging _ _ | .imaging _ _ => true
  | _ => false

def orderly (s : Server) : Event → Bool
  | .register b => s.current.generation != 0 && !stillToLog s b s.writer
  | .flushAllDirtyBuffers => false
  | .writer => s.writer != .closed || s.unmarked.all fun p => p.2 != s.group.generation
  | .syncWriter _ => s.syncWriter != .idle || !s.writer.logs
  | _ => true

/-! ## The invariant -/

def image (s : Server) (b : Nat) : Nat := ((s.buffer b).shadowIfNeeded s.bufferGeneration false).shadow

def Batched (s : Server) (r : Registration) : Prop := ∃ k, s.disk.batch r.buf = some k ∧ r.version ≤ k

def Marked (s : Server) (r : Registration) : Prop :=
  (r.buf, r.generation) ∈ s.unmarked ∨ (s.buffer r.buf).dirty = true

/-- A change registered with the current group that `DBWriter` happens to write already. -/
def Flying (s : Server) (r : Registration) : WriterPc → Prop
  | .logging _ _ => Batched s r
  | .imaging _ i => Batched s r ∨ (r.buf = i ∧ r.version ≤ image s r.buf)
  | .syncing _ _ => r.version ≤ s.disk.written r.buf
  | .writing _ i => r.version ≤ s.disk.written r.buf ∨ r.buf = i
  | .packaging _ => r.version ≤ s.disk.written r.buf
  | _ => False

def ClosedOk (s : Server) (r : Registration) : WriterPc → Prop
  | .closed => Marked s r ∨ Safe s r
  | .logging _ i =>
    (r.buf < i → Batched s r ∨ Safe s r) ∧ (i ≤ r.buf → (s.buffer r.buf).dirty ∨ Safe s r)
  | .imaging _ i =>
    (r.buf < i → Batched s r ∨ Safe s r) ∧ (r.buf = i → r.version ≤ image s r.buf) ∧
      (i < r.buf → (s.buffer r.buf).dirty ∨ Safe s r)
  | _ => Safe s r

def PassImage (s : Server) : Prop := ∀ r ∈ s.registered, stillToLog s r.buf s.writer → r.version ≤ image s r.buf

/-- A logged image has been written to its block, or its buffer is still to be written. -/
def Owed (s : Server) (b : Nat) : WriterPc → Prop
  | .logging _ _ | .imaging _ _ | .transactions _ | .loggedGroup =>
    s.disk.log b ≤ s.disk.written b ∨ s.syncGroup.buffers b ∨ s.group.buffers b
  | .syncing _ i | .writing _ i =>
    s.disk.log b ≤ s.disk.written b ∨ (i ≤ b ∧ s.group.buffers b)
  | .packaging _ => s.disk.log b ≤ s.disk.written b
  | .clearing _ => s.disk.log b ≤ s.disk.synced b
  | _ => s.disk.log b ≤ s.disk.written b ∨ s.syncGroup.buffers b = true

def WriterPc.early : WriterPc → Bool
  | .checking | .closed => true
  | _ => false

def WriterPc.past : WriterPc → Bool
  | .checking | .closed | .logging _ _ | .imaging _ _ => false
  | _ => true

def WriterPc.syncs : WriterPc → Bool
  | .syncing _ _ | .writing _ _ => true
  | _ => false

def WriterPc.flushes : WriterPc → Bool
  | .logging f _ | .imaging f _ | .syncing f _ | .writing f _ | .packaging f | .clearing f => f
  | .flushMerging => true
  | _ => false

def generationBound (s : Server) : Nat := if s.writer.early then s.group.generation - 1 else s.group.generation

structure Ring (s : Server) : Prop where
  calm : ∀ k, (s.carts k).currstate ≠ .flushing
  unflushed : s.writer.flushes = false
  open_ : s.writer = .checking → s.logGroup = s.cart
  closed_ : s.writer ≠ .checking → s.logGroup = !s.cart ∧ s.current.generation = s.group.generation+1
  syncGeneration : s.syncGroup.generation = 0
  busy : s.syncWriter ≠ .idle → s.syncBusy
  syncs : s.writer.syncs → s.syncWriter = .idle ∧ s.syncGroup.currstate ≠ .waiting

structure Pool (s : Server) : Prop where
  bound : s.bufferGeneration ≤ generationBound s
  buffers : ∀ b, (s.buffer b).generation ≤ generationBound s
  pass : s.writer.logs ∨ s.writer.syncs → s.bufferGeneration = s.group.generation
  shadow : ∀ b, (s.buffer b).shadow ≤ (s.buffer b).data
  log : ∀ b, s.disk.log b ≤ (s.buffer b).shadow
  written : ∀ b, s.disk.written b ≤ (s.buffer b).shadow
  synced : ∀ b, s.disk.synced b ≤ s.disk.written b
  batch : ∀ b k, s.disk.batch b = some k →
    s.disk.log b ≤ k ∧ k ≤ (s.buffer b).shadow ∧ s.writer.logs ∧ s.group.buffers b = true

structure Shadows (s : Server) : Prop where
  bound : s.bufferGeneration ≤ generationBound s
  buffers : ∀ b, (s.buffer b).generation ≤ generationBound s
  pass : s.writer.logs ∨ s.writer.syncs → s.bufferGeneration = s.group.generation
  shadow : ∀ b, (s.buffer b).shadow ≤ (s.buffer b).data

variable {s : Server} {c : Config} {pc : WriterPc} {r : Registration} {generation : Nat}

theorem Pool.shadows (h : Pool s) : Shadows s := ⟨h.bound, h.buffers, h.pass, h.shadow⟩

structure Lists (c : Config) (s : Server) : Prop where
  group : ∀ b, s.group.buffers b → b < c.maxBuffers
  sync : ∀ b, s.syncGroup.buffers b → b < c.maxBuffers
  current : ∀ b, s.current.buffers b → b < c.maxBuffers
  idle : s.writer = .checking → ∀ b, (s.carts (!s.cart)).buffers b = false
  imaging : ∀ f i, s.writer = .imaging f i → s.group.buffers i
  first : s.writer.early → s.group.generation = 0 → ∀ b, s.group.buffers b = false
  version : ∀ r ∈ s.registered, r.version ≤ (s.buffer r.buf).data
  generation : ∀ r ∈ s.registered, r.generation ≤ s.current.generation
  queued : ∀ r ∈ s.registered, r.generation = s.current.generation → s.current.buffers r.buf
  closed : s.writer.past = false → ∀ r ∈ s.registered, r.generation = s.group.generation →
    s.group.buffers r.buf = true

structure Enrolled (s : Server) : Prop where
  idle : s.writer = .checking → ∀ b, (s.carts (!s.cart)).buffers b = false
  version : ∀ r ∈ s.registered, r.version ≤ (s.buffer r.buf).data
  generation : ∀ r ∈ s.registered, r.generation ≤ s.current.generation
  queued : ∀ r ∈ s.registered, r.generation = s.current.generation → s.current.buffers r.buf
  closed : s.writer.past = false → ∀ r ∈ s.registered, r.generation = s.group.generation →
    s.group.buffers r.buf = true

theorem Lists.enrolled (h : Lists c s) : Enrolled s := { h with }

structure Kept (c : Config) (s : Server) : Prop where
  earlier : ∀ r ∈ s.registered, c.special r.buf = false → r.generation < s.group.generation → Safe s r
  closed : s.writer ≠ .checking → ∀ r ∈ s.registered, c.special r.buf = false →
    r.generation = s.group.generation → ClosedOk s r s.writer
  current : ∀ r ∈ s.registered, c.special r.buf = false → r.generation = s.current.generation →
    Marked s r ∨ Safe s r ∨ Flying s r s.writer
  image : PassImage s
  owed : ∀ b, Owed s b s.writer

structure Invariant (c : Config) (s : Server) : Prop where
  ring : Ring s
  pool : Pool s
  lists : Lists c s
  kept : Kept c s
  commits : ∀ xid g, (xid, g) ∈ s.hardCommits →
    g ≤ s.group.generation ∧ (g = s.group.generation → s.writer.past)

theorem Kept.at (h : Kept c s) (hpc : s.writer = pc) : (pc ≠ .checking → ∀ r ∈ s.registered, c.special r.buf = false →
      r.generation = s.group.generation → ClosedOk s r pc) ∧
    (∀ r ∈ s.registered, c.special r.buf = false → r.generation = s.current.generation →
      Marked s r ∨ Safe s r ∨ Flying s r pc) ∧
    (∀ r ∈ s.registered, stillToLog s r.buf pc → r.version ≤ WriteGroups.image s r.buf) ∧ ∀ b, Owed s b pc :=
  hpc ▸ ⟨h.closed, h.current, h.image, h.owed⟩

theorem ClosedOk.safe (h : ClosedOk s r pc) (hpast : pc.past) : Safe s r := by
  cases pc with
  | checking | closed | logging | imaging => nomatch hpast
  | _ => exact h

theorem Invariant.writeAhead (h : Invariant c s) : WriteAhead c s := by
  intro xid g hcommit r hr hordinary hle
  obtain ⟨hg, hpast⟩ := h.commits xid g hcommit
  obtain hlt | heq := lt_or_eq_of_le (hle.trans hg)
  · exact h.kept.earlier r hr hordinary hlt
  · have hg' : g = s.group.generation := le_antisymm hg (heq ▸ hle)
    have hdone := hpast hg'
    have hchecking : s.writer ≠ .checking := by
      intro hpc
      rw [hpc] at hdone
      exact absurd hdone (by decide)
    exact (h.kept.closed hchecking r hr hordinary heq).safe hdone

theorem invariant_init (c : Config) : Invariant c (.init c) where
  ring := ⟨fun _ => nofun, rfl, fun _ => rfl, fun h => absurd rfl h, rfl, fun h => absurd rfl h,
    nofun⟩
  pool := ⟨le_rfl, fun _ => le_rfl, nofun, fun _ => le_rfl, fun _ => le_rfl, fun _ => le_rfl, fun _ => le_rfl, nofun⟩
  lists := ⟨nofun, nofun, nofun, fun _ _ => rfl, nofun, fun _ _ _ => rfl, nofun, nofun, nofun, nofun⟩
  kept := ⟨nofun, fun h => absurd rfl h, nofun, nofun, fun _ => .inl (le_rfl)⟩
  commits := nofun

/-! ## What a step has to keep -/

section

variable (s s' : Server) {r : Registration} {pc : WriterPc}

theorem Flying.mono (hbatch : Batched s r → Batched s' r) (himage : pc.logs → image s r.buf ≤ image s' r.buf)
    (hwritten : s.disk.written r.buf ≤ s'.disk.written r.buf) (h : Flying s r pc) :
    Flying s' r pc := by
  cases pc with
  | logging f i => exact hbatch h
  | imaging f i => exact h.imp hbatch fun hi => ⟨hi.1, hi.2.trans (himage rfl)⟩
  | syncing f i => exact h.trans hwritten
  | writing f i => exact h.imp_left fun hw => hw.trans hwritten
  | packaging f => exact h.trans hwritten
  | _ => exact h

theorem ClosedOk.mono (hbatch : Batched s r → Batched s' r)
    (himage : pc.logs → image s r.buf ≤ image s' r.buf) (hmarked : Marked s r → Marked s' r)
    (hdirty : (s.buffer r.buf).dirty → (s'.buffer r.buf).dirty)
    (hsafe : Safe s r → Safe s' r) (h : ClosedOk s r pc) : ClosedOk s' r pc := by
  cases pc with
  | closed => exact h.imp hmarked hsafe
  | logging f i =>
    exact ⟨fun hlt => (h.1 hlt).imp hbatch hsafe, fun hle => (h.2 hle).imp hdirty hsafe⟩
  | imaging f i =>
    exact ⟨fun hlt => (h.1 hlt).imp hbatch hsafe,
      fun heq => (h.2.1 heq).trans (himage rfl), fun hlt => (h.2.2 hlt).imp hdirty hsafe⟩
  | _ => exact hsafe h

end

/-! ## Steps on one buffer -/

section

variable {c : Config} {s : Server} {b : Nat} {d : BufferDesc}

theorem shadowIfNeeded_flags (d : BufferDesc) (gen : Nat) (forflush dirty logged : Bool) :
    ({ d with dirty := dirty, logged := logged }.shadowIfNeeded gen forflush).shadow =
      (d.shadowIfNeeded gen forflush).shadow := by
  unfold BufferDesc.shadowIfNeeded
  split <;> rfl

theorem shadowIfNeeded_dirty (d : BufferDesc) (gen : Nat) (forflush : Bool) :
    (d.shadowIfNeeded gen forflush).dirty = d.dirty := by
  unfold BufferDesc.shadowIfNeeded
  split <;> rfl

structure Grown (s : Server) (b : Nat) (d : BufferDesc) : Prop where
  data : (s.buffer b).data ≤ d.data
  shadow : (s.buffer b).shadow ≤ d.shadow
  held : d.shadow ≤ d.data
  generation : d.generation ≤ generationBound s
  image : image s b ≤ (d.shadowIfNeeded s.bufferGeneration false).shadow

theorem Grown.refl (h : Shadows s) (b : Nat) : Grown s b (s.buffer b) :=
  ⟨le_rfl, le_rfl, h.shadow b, h.buffers b, le_rfl⟩

theorem Grown.flags (hd : Grown s b d) (dirty logged : Bool) : Grown s b { d with dirty := dirty, logged := logged } :=
  { hd with image := le_trans hd.image (le_of_eq (shadowIfNeeded_flags ..).symm) }

theorem Grown.update (h : Shadows s) (hd : Grown s b d) (x : Nat) : Grown s x ((s.setBuffer b d).buffer x) := by
  change Grown s x (Function.update s.buffer b d x)
  obtain rfl | hne := eq_or_ne x b
  · rwa [update_self]
  · rw [update_of_ne hne]
    exact .refl h x

theorem setBuffer_dirty (s : Server) (hd : (s.buffer b).dirty → d.dirty) (x : Nat)
    (hx : (s.buffer x).dirty) : ((s.setBuffer b d).buffer x).dirty := by
  change (update s.buffer b d x).dirty
  obtain rfl | hne := eq_or_ne x b
  · rw [update_self]
    exact hd hx
  · rwa [update_of_ne hne]

theorem Pool.setBuffer (h : Pool s) (hd : Grown s b d) : Pool (s.setBuffer b d) :=
  { h with
    buffers := fun x => (hd.update h.shadows x).generation
    shadow := fun x => (hd.update h.shadows x).held
    log := fun x => (h.log x).trans (hd.update h.shadows x).shadow
    written := fun x => (h.written x).trans (hd.update h.shadows x).shadow
    batch := fun x k hk =>
      have hx := h.batch x k hk
      ⟨hx.1, hx.2.1.trans (hd.update h.shadows x).shadow, hx.2.2⟩ }

theorem Lists.setBuffer (h : Lists c s) (hpool : Pool s) (hd : Grown s b d) : Lists c (s.setBuffer b d) :=
  { h with
    version := fun r hr => (h.version r hr).trans (hd.update hpool.shadows r.buf).data }

theorem Invariant.setBuffer (h : Invariant c s) (hd : Grown s b d)
    (hdirty : (s.buffer b).dirty → d.dirty) : Invariant c (s.setBuffer b d) :=
  have himage (x : Nat) : image s x ≤ image (s.setBuffer b d) x := (hd.update h.pool.shadows x).image
  have hmarks := setBuffer_dirty s hdirty
  { ring := { h.ring with }
    pool := h.pool.setBuffer hd
    lists := h.lists.setBuffer h.pool hd
    kept :=
      { earlier := h.kept.earlier
        closed := fun hpc r hr ho hg => (h.kept.closed hpc r hr ho hg).mono s (s.setBuffer b d) id
          (fun _ => himage r.buf) (.imp_right (hmarks r.buf)) (hmarks r.buf) id
        current := fun r hr ho hg => (h.kept.current r hr ho hg).imp (.imp_right (hmarks r.buf))
          (.imp_right (Flying.mono s (s.setBuffer b d) id (fun _ => himage r.buf) (le_rfl)))
        image := fun r hr hto => (h.kept.image r hr hto).trans (himage r.buf)
        owed := h.kept.owed }
    commits := h.commits }

theorem image_shadowIfNeeded (forflush : Bool) (hheld : (s.buffer b).shadow ≤ (s.buffer b).data) :
    image s b ≤ (((s.buffer b).shadowIfNeeded s.bufferGeneration forflush).shadowIfNeeded
      s.bufferGeneration false).shadow := by
  unfold image BufferDesc.shadowIfNeeded
  grind

theorem grown_shadow (h : Shadows s) (b : Nat) (forflush : Bool) :
    Grown s b ((s.buffer b).shadowIfNeeded s.bufferGeneration forflush) := by
  have hheld := h.shadow b
  have hgen := h.buffers b
  have hbound := h.bound
  refine ⟨?_, ?_, ?_, ?_, image_shadowIfNeeded forflush hheld⟩
  all_goals
    unfold BufferDesc.shadowIfNeeded
    split <;> first | assumption | exact le_rfl

theorem grown_change (h : Shadows s) (b : Nat) : Grown s b { s.buffer b with data := (s.buffer b).data + 1 } := by
  have hheld := h.shadow b
  refine ⟨Nat.le_succ _, le_rfl, Nat.le_succ_of_le hheld, h.buffers b, ?_⟩
  unfold image BufferDesc.shadowIfNeeded
  grind

theorem Marked.unmark (hdirty : (s.buffer b).dirty) (hr : Marked s r) :
    Marked { s with unmarked := s.unmarked.erase (b, generation) } r := by
  obtain hr | hr := hr
  · obtain heq | hne := Decidable.em ((r.buf, r.generation) = (b, generation))
    · have hbuf : r.buf = b := (Prod.mk.inj heq).1
      exact .inr (hbuf ▸ hdirty)
    · exact .inl ((mem_erase_of_ne hne).mpr hr)
  · exact .inr hr

theorem Invariant.unmark (h : Invariant c s) (hdirty : (s.buffer b).dirty) :
    Invariant c { s with unmarked := s.unmarked.erase (b, generation) } :=
  have hmarked (r : Registration) (hr : Marked s r) :
      Marked { s with unmarked := s.unmarked.erase (b, generation) } r := hr.unmark hdirty
  { ring := { h.ring with }
    pool := { h.pool with }
    lists := { h.lists with }
    kept := { h.kept with
      closed := fun hpc r hr ho hg => (h.kept.closed hpc r hr ho hg).mono s _ id (fun _ => le_rfl) (hmarked r) id id
      current := fun r hr ho hg => (h.kept.current r hr ho hg).imp_left (hmarked r) }
    commits := h.commits }

end

/-! ## Steps on the groups -/

section

variable {c : Config} {s : Server}

theorem Owed.mono (s s' : Server) {b : Nat} (hlog : s'.disk.log b = s.disk.log b)
    (hsynced : s.disk.synced b ≤ s'.disk.synced b) (hwritten : s.disk.written b ≤ s'.disk.written b)
    (hgroup : s.group.buffers b → s'.group.buffers b)
    (hsync : s.syncGroup.buffers b → s'.syncGroup.buffers b ∨
      s.disk.log b ≤ s'.disk.written b) (h : Owed s b pc) : Owed s' b pc := by
  cases pc <;> simp only [Owed, hlog] at h ⊢ <;> grind

section

variable {k : Bool} {g : WriteGroup}

theorem setCart_eq {β : Type} (f : WriteGroup → β) (h : f g = f (s.carts k)) (j : Bool) :
    f ((s.setCart k g).carts j) = f (s.carts j) := by
  change f (update s.carts k g j) = _
  obtain rfl | hne := eq_or_ne j k
  · rwa [update_self]
  · rw [update_of_ne hne]

theorem generationBound_setCart (hgeneration : g.generation = (s.carts k).generation) :
    generationBound (s.setCart k g) = generationBound s := by
  have hgroup : (s.setCart k g).group.generation = s.group.generation :=
    setCart_eq WriteGroup.generation hgeneration s.cart
  unfold generationBound
  rw [hgroup]
  rfl

theorem setCart_all (P : WriteGroup → Prop) (hg : P g) (hs : ∀ j, P (s.carts j)) : ∀ j, P ((s.setCart k g).carts j) :=
  (forall_update_iff s.carts fun _ => P).mpr ⟨hg, fun j _ => hs j⟩

theorem Ring.setCart (h : Ring s) (hgeneration : g.generation = (s.carts k).generation)
    (hcalm : g.currstate ≠ .flushing) : Ring (s.setCart k g) := by
  have hgroup : (s.setCart k g).group.generation = s.group.generation :=
    setCart_eq WriteGroup.generation hgeneration s.cart
  have hcurrent : (s.setCart k g).current.generation = s.current.generation :=
    setCart_eq WriteGroup.generation hgeneration s.logGroup
  refine { h with calm := setCart_all (·.currstate ≠ .flushing) hcalm h.calm, closed_ := fun hpc => ?_ }
  rw [hgroup, hcurrent]
  exact h.closed_ hpc

theorem Shadows.setCart (h : Shadows s) (hgeneration : g.generation = (s.carts k).generation) :
    Shadows (s.setCart k g) :=
  have hbound := generationBound_setCart hgeneration
  { h with
    bound := hbound ▸ h.bound
    buffers := fun b => hbound ▸ h.buffers b
    pass := fun hpc => (h.pass hpc).trans (setCart_eq WriteGroup.generation hgeneration s.cart).symm }

theorem stillToLog_setCart (hbuffers : g.buffers = (s.carts k).buffers) (b : Nat) (pc : WriterPc) :
    stillToLog (s.setCart k g) b pc = stillToLog s b pc := by
  have hgroup : (s.setCart k g).group.buffers = s.group.buffers := setCart_eq WriteGroup.buffers hbuffers s.cart
  cases pc <;> simp only [stillToLog, hgroup]

/-- States, transactions and flags of the groups may change, not lists and generations. -/
theorem Invariant.setCart (h : Invariant c s)
    (hbuffers : g.buffers = (s.carts k).buffers) (hgeneration : g.generation = (s.carts k).generation)
    (hcalm : g.currstate ≠ .flushing) : Invariant c (s.setCart k g) := by
  have hgroup : (s.setCart k g).group.buffers = s.group.buffers := setCart_eq WriteGroup.buffers hbuffers s.cart
  have hgroupGen : (s.setCart k g).group.generation = s.group.generation :=
    setCart_eq WriteGroup.generation hgeneration s.cart
  have hcurrent : (s.setCart k g).current.buffers = s.current.buffers :=
    setCart_eq WriteGroup.buffers hbuffers s.logGroup
  have hcurrentGen : (s.setCart k g).current.generation = s.current.generation :=
    setCart_eq WriteGroup.generation hgeneration s.logGroup
  refine ⟨h.ring.setCart hgeneration hcalm, ?_, ?_, ?_, ?_⟩
  · exact { h.pool.shadows.setCart hgeneration, h.pool with
      batch := fun b k hk => by rw [hgroup]; exact h.pool.batch b k hk }
  · exact { h.lists with
      group := by rw [hgroup]; exact h.lists.group
      current := by rw [hcurrent]; exact h.lists.current
      idle := fun hpc => setCart_eq WriteGroup.buffers hbuffers (!s.cart) ▸ h.lists.idle hpc
      imaging := fun f i hpc => by rw [hgroup]; exact h.lists.imaging f i hpc
      first := by rw [hgroup, hgroupGen]; exact h.lists.first
      generation := by rw [hcurrentGen]; exact h.lists.generation
      queued := by rw [hcurrent, hcurrentGen]; exact h.lists.queued
      closed := by rw [hgroup, hgroupGen]; exact h.lists.closed }
  · exact
      { earlier := by rw [hgroupGen]; exact h.kept.earlier
        closed := fun hpc r hr ho hg => (h.kept.closed hpc r hr ho (hgroupGen ▸ hg)).mono s _ id
          (fun _ => le_rfl) id id id
        current := fun r hr ho hg => h.kept.current r hr ho (hcurrentGen ▸ hg)
        image := fun r hr hto => h.kept.image r hr (by rwa [← stillToLog_setCart hbuffers])
        owed := fun b => (h.kept.owed b).mono s _ rfl (le_rfl) (le_rfl) fun hb => by rwa [hgroup] .inl }
  · intro xid g' hcommit
    rw [hgroupGen]
    exact h.commits xid g' hcommit

end

theorem current_eq_group (h : Ring s) (hpc : s.writer = .checking) : s.current = s.group :=
  congrArg s.carts (h.open_ hpc)

theorem cart_ne_logGroup (h : Ring s) (hpc : s.writer ≠ .checking) : s.cart ≠ s.logGroup := by
  rw [(h.closed_ hpc).1]
  exact Bool.self_ne_not _

section

def enlisted (b : Nat) (s : Server) : Server :=
  { s.setCart s.logGroup
      { s.current with buffers := update s.current.buffers b true } with
    unmarked := (b, s.current.generation) :: s.unmarked
    registered := ⟨b, (s.buffer b).data, s.current.generation⟩ :: s.registered }

variable {b : Nat}

theorem enlisted_current : (enlisted b s).current = { s.current with buffers := update s.current.buffers b true } :=
  update_self ..

theorem enlisted_carts_buffers (j : Bool) (x : Nat) : ((enlisted b s).carts j).buffers x =
    if j = s.logGroup ∧ x = b then true else (s.carts j).buffers x := by
  change (update s.carts s.logGroup _ j).buffers x = _
  obtain rfl | hne := eq_or_ne j s.logGroup
  · rw [update_self]
    simp only [update_apply, true_and]
    rfl
  · rw [update_of_ne hne, if_neg fun hj => hne hj.1]

theorem enlisted_buffers {j : Bool} {x : Nat} (hx : (s.carts j).buffers x) : ((enlisted b s).carts j).buffers x := by
  rw [enlisted_carts_buffers, hx, ite_self]

theorem enlisted_generation (j : Bool) : ((enlisted b s).carts j).generation = (s.carts j).generation :=
  setCart_eq WriteGroup.generation (k := s.logGroup)
    (g := { s.current with buffers := update s.current.buffers b true }) rfl j

theorem enlisted_group (h : Ring s) (hpc : s.writer ≠ .checking) : (enlisted b s).group = s.group :=
  update_of_ne (cart_ne_logGroup h hpc) ..

theorem stillToLog_enlisted (h : Ring s) (x : Nat) :
    stillToLog (enlisted b s) x s.writer = stillToLog s x s.writer := by
  have hlogs (hl : s.writer.logs) : (enlisted b s).group = s.group :=
    enlisted_group h fun hpc => by rw [hpc] at hl; nomatch hl
  cases hw : s.writer <;> first | rfl | simp only [stillToLog, hlogs (hw ▸ rfl)]

theorem Ring.enlist (h : Ring s) (b : Nat) : Ring (enlisted b s) :=
  { h.setCart (k := s.logGroup)
      (g := { s.current with buffers := update s.current.buffers b true }) rfl
      (h.calm s.logGroup) with }

theorem Shadows.enlist (h : Shadows s) (b : Nat) : Shadows (enlisted b s) :=
  { h.setCart (k := s.logGroup) (g := { s.current with buffers := update s.current.buffers b true }) rfl with }

theorem group_le_current (h : Ring s) : s.group.generation ≤ s.current.generation := by
  obtain hpc | hpc := eq_or_ne s.writer .checking
  · rw [current_eq_group h hpc]
  · rw [(h.closed_ hpc).2]
    exact Nat.le_succ _

theorem group_ne_current (h : Ring s) (hpc : s.writer ≠ .checking) : s.current.generation ≠ s.group.generation := by
  rw [(h.closed_ hpc).2]
  exact Nat.succ_ne_self _

theorem enlisted_bounded (hb : b < c.maxBuffers) (j : Bool)
    (hj : ∀ x, (s.carts j).buffers x → x < c.maxBuffers) (x : Nat)
    (hx : ((enlisted b s).carts j).buffers x) : x < c.maxBuffers := by
  rw [enlisted_carts_buffers] at hx
  split at hx
  · next heq => exact heq.2 ▸ hb
  · exact hj x hx

theorem enlisted_self {j : Bool} (hj : j = s.logGroup) : ((enlisted b s).carts j).buffers b := by
  rw [enlisted_carts_buffers, if_pos ⟨hj, rfl⟩]

theorem Enrolled.enlist (h : Enrolled s) (hring : Ring s) (b : Nat) : Enrolled (enlisted b s) := by
  refine ⟨?_, ?_, ?_, ?_, ?_⟩
  · intro hpc x
    have hne : (!s.cart) ≠ s.logGroup := by
      rw [hring.open_ hpc]
      exact Bool.not_ne_self _
    rw [enlisted_carts_buffers, if_neg fun hj => hne hj.1]
    exact h.idle hpc x
  · exact forall_mem_cons.mpr ⟨le_rfl, h.version⟩
  · rw [enlisted_current]
    exact forall_mem_cons.mpr ⟨le_rfl, h.generation⟩
  · refine forall_mem_cons.mpr ⟨fun _ => enlisted_self rfl, fun r hr hg => ?_⟩
    exact enlisted_buffers (h.queued r hr (hg.trans (enlisted_generation s.logGroup)))
  · intro hpast r hr hg
    have hg : r.generation = s.group.generation := hg.trans (enlisted_generation s.cart)
    obtain rfl | hr := mem_cons.mp hr
    · have hpc : s.writer = .checking := Decidable.byContradiction fun hpc =>
        group_ne_current hring hpc hg
      exact enlisted_self (hring.open_ hpc).symm
    · exact enlisted_buffers (h.closed hpast r hr hg)

theorem Lists.enlist (h : Lists c s) (hring : Ring s) (hb : b < c.maxBuffers)
    (hfirst : s.current.generation ≠ 0) : Lists c (enlisted b s) := by
  refine { h.enrolled.enlist hring b with
    group := enlisted_bounded hb s.cart h.group
    sync := h.sync
    current := enlisted_bounded hb s.logGroup h.current
    imaging := fun f i hpc => enlisted_buffers (h.imaging f i hpc)
    first := fun hearly hzero => ?_ }
  have hzero : s.group.generation = 0 := (enlisted_generation s.cart).symm.trans hzero
  have hpc : s.writer ≠ .checking := fun hpc =>
    hfirst (by rw [current_eq_group hring hpc]; exact hzero)
  rw [enlisted_group hring hpc]
  exact h.first hearly hzero

theorem Kept.enlist (h : Kept c s) (hring : Ring s) (hlate : stillToLog s b s.writer = false) :
    Kept c (enlisted b s) := by
  have hmarked (r : Registration) : Marked s r → Marked (enlisted b s) r := .imp_left (mem_cons_of_mem _)
  refine ⟨?_, ?_, ?_, ?_, ?_⟩
  · intro r hr ho hg
    have hg : r.generation < s.group.generation := lt_of_lt_of_eq hg (enlisted_generation s.cart)
    obtain rfl | hr := mem_cons.mp hr
    · exact absurd hg (Nat.not_lt_of_le (group_le_current hring))
    · exact h.earlier r hr ho hg
  · intro hpc r hr ho hg
    have hg : r.generation = s.group.generation := hg.trans (enlisted_generation s.cart)
    obtain rfl | hr := mem_cons.mp hr
    · exact absurd hg (group_ne_current hring hpc)
    · exact (h.closed hpc r hr ho hg).mono s _ id (fun _ => le_rfl) (hmarked r) id id
  · intro r hr ho hg
    obtain rfl | hr := mem_cons.mp hr
    · exact .inl (.inl (.head _))
    · exact (h.current r hr ho (hg.trans (enlisted_generation s.logGroup))).imp_left (hmarked r)
  · intro r hr hto
    have hto : stillToLog s r.buf s.writer := (stillToLog_enlisted hring _).symm.trans hto
    obtain rfl | hr := mem_cons.mp hr
    · exact absurd (hto.symm.trans hlate) (by decide)
    · exact h.image r hr hto
  · exact fun x => (h.owed x).mono s _ rfl (le_rfl) (le_rfl) enlisted_buffers .inl

theorem Invariant.register (h : Invariant c s) (hb : b < c.maxBuffers)
    (hfirst : s.current.generation ≠ 0) (hlate : stillToLog s b s.writer = false) :
    Invariant c (enlisted b s) := by
  refine ⟨h.ring.enlist b, ?_, h.lists.enlist h.ring hb hfirst, h.kept.enlist h.ring hlate, ?_⟩
  · exact { h.pool.shadows.enlist b, h.pool with
      batch := fun x k hk =>
        have hx := h.pool.batch x k hk
        ⟨hx.1, hx.2.1, hx.2.2.1, enlisted_buffers hx.2.2.2⟩ }
  · intro xid g hcommit
    change g ≤ ((enlisted b s).carts s.cart).generation ∧ (g = ((enlisted b s).carts s.cart).generation → _)
    rw [enlisted_generation]
    exact h.commits xid g hcommit

end

end

end WeaverDB.WriteGroups
