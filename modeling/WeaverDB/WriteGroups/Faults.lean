import WeaverDB.Foundations.Runs
import WeaverDB.WriteGroups.Writer

/-! # Failed buffers, and flushes that `DBWriter` makes itself

`Server` is the system as long as no buffer is marked with `BM_IO_ERROR`, and `Machine` the whole of it:

* `LogBuffers` looks again at a buffer that `LogBufferIO` has refused. If it has been marked dirty
  since, `ErrorBufferIO` replaces its flags by `BM_IO_ERROR`, every operation on it fails, and
  `SyncBuffers` takes it off the list without writing it.
* `LogTransactions` reads blocks of `pg_log`. If no buffer is free, `InitiateFlush` makes `DBWriter`
  flush the current group on the spot, and then the next one until a buffer comes free.

Reading the buffer in anew, which takes the mark off, and reads outside `LogTransactions` are left out.
-/

namespace WeaverDB.WriteGroups
open Foundations Function Option

/-- Between `LogBufferIO`, which has refused the buffer, and the end of its turn. -/
inductive Look where
  /-- before `IsDirtyBufferIO` -/
  | asking (i : Nat)
  /-- before `ErrorBufferIO` -/
  | failing (i : Nat)

/-- `nested` is where `DBWriter` goes on after a flush of its own, with the group it is logging. -/
structure Machine where
  server : Server
  ioError : Nat → Bool
  look : Option Look
  nested : Option (Bool × WriterPc)

inductive MachineEvent where
  | step (e : Event)
  | look
  | selfFlush

namespace Machine

variable (c : Config) (m : Machine)

def init : Machine := ⟨.init c, fun _ => false, none, none⟩

/-- A step that meets no failed buffer. -/
def core (e : Event) : Option Machine := (WriteGroups.next c m.server e).map fun s => { m with server := s }

def errorBufferIO (i : Nat) : Machine :=
  { m with
    server := m.server.setBuffer i { m.server.buffer i with dirty := false, logged := false }
    ioError := update m.ioError i true }

/-- `LogBufferIO` fails for a buffer of the group: it is marked as failed, or clean. -/
def refuses (i : Nat) : Bool :=
  decide (i < c.maxBuffers) && m.server.group.buffers i && !c.special i &&
    (m.ioError i || !(m.server.buffer i).dirty)

/-- The turn of `SyncBuffers` for a buffer that `WriteBufferIO` refuses. -/
def dropFailed (flush : Bool) (i : Nat) : Machine :=
  let failed := m.errorBufferIO i
  { failed with server := failed.server.dropFromList flush i }

def dbWriter : Option Machine :=
  match m.look, m.nested, m.server.writer with
  | some _, _, _ => none
  -- the flush has released a buffer
  | none, some (cart, pc), .checking =>
    some { m with server := { m.server with cart := cart, writer := pc }, nested := none }
  | none, _, .logging flush i =>
    if m.refuses c i then
      some { m with server := { m.server with writer := .logging flush (i+1) }, look := some (.asking i) }
    else m.core c .writer
  | none, _, .syncing flush i =>
    if i < c.maxBuffers ∧ m.server.syncList flush i ∧ m.ioError i then
      let dropped := m.dropFailed flush i
      some { dropped with server := { dropped.server with writer := .syncing flush (i+1) } }
    else m.core c .writer
  | none, _, _ => m.core c .writer

def syncWriter (cached : Bool) : Option Machine :=
  match m.server.syncWriter with
  | .syncing i =>
    if i < c.maxBuffers ∧ m.server.syncGroup.buffers i ∧ m.server.syncGroup.currstate ≠ .completed ∧
        c.special i = false ∧ cached ∧ m.ioError i then
      let dropped := m.dropFailed true i
      some { dropped with server := { dropped.server with syncWriter := .syncing (i+1) } }
    else m.core c (.syncWriter cached)
  | _ => m.core c (.syncWriter cached)

/-- The rest of the turn of `LogBuffers`; `IsDirtyBufferIO` takes a failed buffer for a clean one. -/
def lookAgain : Option Machine :=
  match m.look with
  | some (.asking i) =>
    some { m with look := if (m.server.buffer i).dirty && !m.ioError i then some (.failing i) else none }
  | some (.failing i) => some { m.errorBufferIO i with look := none }
  | none => none

def flushWriteGroup (cart : Bool) (s : Server) : Server :=
  if c.logging then
    { s with
      cart := cart
      writer := .logging true 0
      bufferGeneration := (s.carts cart).generation
      disk := { s.disk with batch := fun _ => none } }
  else { s with cart := cart, writer := .flushMerging }

/-- `FlushAllDirtyBuffers` by `DBWriter`, in `LogTransactions` or after a flush that released nothing. -/
def selfFlush : Option Machine :=
  let begun (j : Nat) : Option Machine :=
    if m.server.group.dotransaction ∧ j < m.server.group.transactions.length ∧
        m.server.current.currstate.isOpen then
      some { m with
        server := flushWriteGroup c m.server.logGroup m.server
        nested := some (m.server.cart, m.server.writer) }
    else none
  match m.look, m.nested, m.server.writer with
  | none, none, .transactions j => begun j
  | none, none, .lateTransactions j => begun j
  | none, some _, .checking => some { m with server := flushWriteGroup c (!m.server.cart) m.server }
  | _, _, _ => none

def next : MachineEvent → Option Machine
  | .step .writer => m.dbWriter c
  | .step (.syncWriter cached) => m.syncWriter c cached
  | .step (.timeout primed) => if m.nested.isNone then m.core c (.timeout primed) else none
  | .step .close => if m.nested.isNone then m.core c .close else none
  | .step e => m.core c e
  | .look => m.lookAgain
  | .selfFlush => m.selfFlush c

/-! ## Runs without failures -/

/-- No buffer is marked between the two looks of `LogBuffers`, and `DBWriter` finds free buffers. -/
def allows (ok : Server → Event → Bool) : MachineEvent → Bool
  | .step e => ok m.server e
  | .look =>
    match m.look with
    | some (.asking i) => !(m.server.buffer i).dirty
    | _ => true
  | .selfFlush => false

abbrev Step (ok : Server → Event → Bool) : Machine → MachineEvent → Machine → Prop :=
  Guarded (fun m e m' => m.next c e = some m') fun m e => m.allows ok e

end Machine

structure Calm (m : Machine) : Prop where
  unfailed : ∀ b, m.ioError b = false
  unnested : m.nested = none
  unlooked : ∀ i, m.look ≠ some (.failing i)

variable {c : Config} {m m' : Machine} {ok : Server → Event → Bool}

theorem Calm.server (h : Calm m) (s : Server) : Calm { m with server := s } := { h with }

/-- A step that is computed as one of the server. -/
theorem Calm.core (h : Calm m) {e : Event} (hstep : m.core c e = some m') :
    Calm m' ∧ next c m.server e = some m'.server := by
  obtain ⟨s, hs, rfl⟩ := map_eq_some_iff.mp hstep
  exact ⟨h.server s, hs⟩

theorem Calm.refused {flush : Bool} {i : Nat} (h : Calm m) (hpc : m.server.writer = .logging flush i)
    (hrefuses : m.refuses c i) :
    next c m.server .writer = some { m.server with writer := .logging flush (i+1) } := by
  simp only [Machine.refuses, h.unfailed, Bool.false_or, Bool.and_eq_true, decide_eq_true_eq,
    Bool.not_eq_true'] at hrefuses
  obtain ⟨⟨⟨hi, -⟩, -⟩, hclean⟩ := hrefuses
  simp [next, dbWriter, hpc, logBuffer, hi, hclean]

theorem Calm.dbWriter (h : Calm m) (hstep : m.dbWriter c = some m') :
    Calm m' ∧ next c m.server .writer = some m'.server := by
  unfold Machine.dbWriter at hstep
  split at hstep
  · cases hstep
  · next hnested _ => exact absurd (hnested.symm.trans h.unnested) nofun
  · next flush i _ hpc =>
    split at hstep
    · next hrefuses =>
      cases hstep
      exact ⟨{ h with unlooked := fun _ heq => nomatch heq }, h.refused hpc hrefuses⟩
    · exact h.core hstep
  · split at hstep
    · next hfailed => exact absurd ((h.unfailed _).symm.trans hfailed.2.2) (by decide)
    · exact h.core hstep
  · exact h.core hstep

theorem Calm.syncWriter {cached : Bool} (h : Calm m) (hstep : m.syncWriter c cached = some m') :
    Calm m' ∧ next c m.server (.syncWriter cached) = some m'.server := by
  unfold Machine.syncWriter at hstep
  split at hstep
  · split at hstep
    · next hfailed => exact absurd ((h.unfailed _).symm.trans hfailed.2.2.2.2.2) (by decide)
    · exact h.core hstep
  · exact h.core hstep

/-- The second look finds the buffer still clean and changes nothing. -/
theorem Calm.look (h : Calm m) (hok : m.allows ok .look) (hstep : m.lookAgain = some m') :
    Calm m' ∧ m'.server = m.server := by
  unfold Machine.lookAgain at hstep
  cases hlook : m.look with
  | none => simp [hlook] at hstep
  | some l =>
    cases l with
    | failing i => exact absurd hlook (h.unlooked i)
    | asking i =>
      have hclean : (m.server.buffer i).dirty = false := by simpa [Machine.allows, hlook] using hok
      simp only [hlook, hclean, Bool.false_and, Bool.false_eq_true, if_false, some.injEq] at hstep
      subst hstep
      exact ⟨{ h with unlooked := nofun }, rfl⟩

theorem Calm.step {e : MachineEvent} (h : Calm m) (hs : Machine.Step c ok m e m') :
    Calm m' ∧ (m'.server = m.server ∨ ∃ e', ok m.server e' ∧ next c m.server e' = some m'.server) := by
  obtain ⟨hok, hstep⟩ := hs
  have htaken {e : Event} (hok : ok m.server e) (hnext : Calm m' ∧ next c m.server e = some m'.server) :
      Calm m' ∧ (m'.server = m.server ∨ ∃ e', ok m.server e' ∧ next c m.server e' = some m'.server) :=
    ⟨hnext.1, .inr ⟨e, hok, hnext.2⟩⟩
  cases e with
  | selfFlush => nomatch hok
  | look =>
    obtain ⟨hcalm, hsame⟩ := h.look hok hstep
    exact ⟨hcalm, .inl hsame⟩
  | step e =>
    cases e with
    | writer => exact htaken hok (h.dbWriter hstep)
    | syncWriter cached => exact htaken hok (h.syncWriter hstep)
    | timeout | close =>
      simp only [Machine.next, h.unnested, isNone_none, if_true] at hstep
      exact htaken hok (h.core hstep)
    | _ => exact htaken hok (h.core hstep)

/-- What the steps of the server keep holds in every run of the machine that is allowed. -/
theorem calm_run {P : Server → Prop} (hstep : ∀ s e t, P s → ok s e → next c s e = some t → P t)
    (hinit : P (.init c)) {events : List MachineEvent} (r : Run (Machine.Step c ok) (.init c) events m) :
    P m.server := by
  have hkeeps (m : Machine) (e : MachineEvent) (m' : Machine) (h : Calm m ∧ P m.server)
      (hs : Machine.Step c ok m e m') : Calm m' ∧ P m'.server := by
    obtain ⟨hcalm, hsame | ⟨e', hok, hnext⟩⟩ := h.1.step hs
    · exact ⟨hcalm, hsame ▸ h.2⟩
    · exact ⟨hcalm, hstep _ e' _ h.2 hok hnext⟩
  exact (r.preserves _ hkeeps ⟨⟨fun _ => rfl, rfl, nofun⟩, hinit⟩).2

end WeaverDB.WriteGroups
