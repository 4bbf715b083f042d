import WeaverDB.Snapshot.Horizon
import WeaverDB.Visibility.Standing

/-! # Dead tuples are invisible

What `HeapTupleSatisfiesVacuum` finds dead by the checkpoint id has a deleter that committed behind it
(`Doomed`). Nothing makes such a tuple live again, and no snapshot of a running transaction, then or
later, counts the deleter as active.
-/

namespace WeaverDB.Visibility
open Foundations TransLog Snapshot Bool List

variable {x c : TransactionId} {b : Sessions} {s : Server} {v : View} {t : HeapTupleHeader}

/-! ## The watched tuple -/

def serverView (s : Server) (current : TransactionId) (scanCommandId : CommandId) : View where
  log := s.log
  didCrash := transactionIdDidCrash s
  current := current
  scanCommandId := scanCommandId

inductive TupleStep (s : Server) (x : TransactionId) :
    Option HeapTupleHeader → Option HeapTupleHeader → Prop where
  | insert (tup : HeapTupleHeader) (cid : CommandId) : TupleStep s x none (some (heapInsert tup x cid))
  | moveIn (tup : HeapTupleHeader) (self : ItemPointerData) : TupleStep s x none (some (movedCopy tup x self))
  | call (t : HeapTupleHeader) (scan : CommandId) (c : Call) :
      TupleStep s x (some t) (some (c.exec (serverView s x scan) t).2)
  | delete (t : HeapTupleHeader) (scan cid : CommandId) (ctid : ItemPointerData)
      (hfree : (heapTupleSatisfiesUpdate (serverView s x scan) t).1 = .mayBeUpdated) :
      TupleStep s x (some t) (some (heapDelete (heapTupleSatisfiesUpdate (serverView s x scan) t).2 x cid ctid))
  | mark4Update (t : HeapTupleHeader) (scan cid : CommandId)
      (hfree : (heapTupleSatisfiesUpdate (serverView s x scan) t).1 = .mayBeUpdated) :
      TupleStep s x (some t) (some (heapMark4Update (heapTupleSatisfiesUpdate (serverView s x scan) t).2 x cid))
  | moveOff (t : HeapTupleHeader) (scan : CommandId) (oldestXmin : TransactionId)
      (hlive : (heapTupleSatisfiesVacuum (serverView s x scan) oldestXmin t).1 = .live) :
      TupleStep s x (some t) (some (movedOff (heapTupleSatisfiesVacuum (serverView s x scan) oldestXmin t).2 x))
  | moveBack (t : HeapTupleHeader) (hmine : t.xmax = x) : TupleStep s x (some t) (some (movedBack t))
  | moved (t : HeapTupleHeader) (ctid : ItemPointerData) (hmine : t.xmax = x) :
      TupleStep s x (some t) (some { t with ctid := ctid })

structure Watched where
  sessions : Sessions
  tuple : Option HeapTupleHeader

inductive WatchedEvent where
  | session (l : SessionEvent)
  | tuple (me : Nat)

inductive WatchedStep : Watched → WatchedEvent → Watched → Prop where
  | session (b b' : Sessions) (l : SessionEvent) (t : Option HeapTupleHeader)
      (hs : SessionStep b l b') : WatchedStep ⟨b, t⟩ (.session l) ⟨b', t⟩
  | tuple (b : Sessions) (t t' : Option HeapTupleHeader) (me owner : Nat) (x : TransactionId)
      (hme : WorksFor b me owner x) (hs : TupleStep b.server x t t') :
      WatchedStep ⟨b, t⟩ (.tuple me) ⟨b, t'⟩

def WatchedEvent.onServer : WatchedEvent → List Event
  | .session l => l.onServer
  | .tuple _ => []

def WatchedEvent.computes (e : WatchedEvent) : Bool := e.onServer.any Event.isSnapshot

def OnSessions (Ok : Sessions → SessionEvent → Prop) (w : Watched) : WatchedEvent → Prop
  | .session l => Ok w.sessions l
  | .tuple _ => True

def Honest (log : StatusLog) (t : HeapTupleHeader) : Prop :=
  t.has .xmaxCommitted → t.xmax ≠ 0 → transactionIdDidCommit log t.xmax = true

structure Opened (w : Watched) : Prop where
  started : Started w.sessions.server
  fresh : ∀ x, w.sessions.server.ids.shmem.nextXid ≤ x → w.sessions.server.log x = .inprogress
  closed : ∀ j, (w.sessions.env j).transaction = none
  honest : ∀ t, w.tuple = some t → Honest w.sessions.server.log t

/-! ## Statuses -/

theorem step_didCommit {e : Event} {s' : Server} (h : Lawful s) (hs : Step s e s')
    (hx : transactionIdDidCommit s.log x) : transactionIdDidCommit s'.log x := by
  have hrecord : ∀ y xstatus, (y = x → ((s.log y).stamp xstatus = .softCommit ∨
      (s.log y).stamp xstatus = .commit)) →
      transactionIdDidCommit (s.record y xstatus).log x := by
    intro y xstatus hstamp
    rw [didCommit_iff] at hx ⊢
    rw [record_log]
    refine ⟨hx.1, ?_⟩
    split_ifs with hxy
    · exact hstamp hxy.symm
    · exact hx.2
  cases hs with
  | assign i hi hidle htype => exact hx
  | publish i y hp => exact hx
  | snapshot _ me owner y serializable taken howner hme hok =>
    rw [(getSnapshotData_surveyed hok).log]
    exact hx
  | finish i y hp => exact hx
  | softCommit i y hp =>
    refine hrecord y .softCommit fun _ => ?_
    obtain e | e := h.logged.committing i y hp
    · rw [e]
      exact .inl rfl
    · rw [e]
      exact .inr rfl
  | hardCommit y _ =>
    refine hrecord y .commit fun _ => .inr ?_
    cases s.log y <;> rfl
  | abort i y hp =>
    refine hrecord y .abort ?_
    rintro rfl
    rw [didCommit_iff, h.logged.unrecorded i y (.inr hp)] at hx
    rcases hx.2 with e | e <;> cases e
  | reset i hp => exact hx

theorem worksFor_open {j o : Nat} (h : Lawful b.server)
    (hw : WorksFor b j o x) : transactionIdDidCommit b.server.log x = false := by
  rw [← not_eq_true, didCommit_iff, h.logged.unrecorded o x (.inr hw.running)]
  rintro ⟨-, e | e⟩ <;> cases e

/-! ## The contents of a snapshot -/

def InSnapshot (log : StatusLog) (snapshot : SnapshotData) (x : TransactionId) : Prop :=
  transactionIdDidCommit log x ∧ transactionIdActiveDuringSnapshot snapshot x = false

/-- An id that is neither active for a snapshot nor committed has ended for good. -/
theorem gone_of_inactive {me owner : Nat} {serializable : Bool} {taken : SnapshotData} {s' : Server}
    (h : Lawful s) (hs : Step s (.snapshot me owner serializable taken) s')
    (howner : ¬ Holds s owner x) (hseen : ∀ i, s.phase i ≠ .assigned x)
    (hactive : transactionIdActiveDuringSnapshot taken x = false) (h0 : x ≠ 0)
    (hc : ¬ transactionIdDidCommit s.log x) : (momentOf s h).Gone x := by
  cases hs with
  | snapshot _ _ _ current _ _ hphase hme hok =>
    have hsv := getSnapshotData_surveyed hok
    have hlt : x < s.ids.shmem.nextXid := by
      by_contra hge
      rw [hsv.taken, transactionIdActiveDuringSnapshot, if_pos (BitVec.not_lt.mp hge)] at hactive
      cases hactive
    refine ⟨hlt, ?_, ?_⟩
    · rintro ⟨⟨i, hi⟩, -⟩
      have him : i ≠ me := by
        rintro rfl
        obtain rfl | hidle := hme
        · exact howner hi
        · rw [Holds, hidle] at hi
          cases hi
      have hpub : (s.phase i).published := by
        have hne := hseen i
        unfold Holds at hi
        revert hi hne
        cases s.phase i <;> simp [Phase.xid, Phase.published]
      exact Bool.false_ne_true (hactive.symm.trans ((active_iff_published h.invariant hsv hi him).mpr hpub))
    · rw [didCommit_iff] at hc
      show s.log x = _ ∨ s.log x = _
      cases hlog : s.log x <;> simp_all

/-- **Contents of a snapshot.** While the server runs, the transactions a snapshot shows stay the same,
those of its owner and of threads that have not shown their id apart. -/
theorem snapshot_contents_fixed (s s' s'' : Server) (h : Lawful s) (me owner : Nat) (serializable : Bool)
    (taken : SnapshotData) (hs : Step s (.snapshot me owner serializable taken) s')
    (events : List Event) (r : Run (Guarded Step Roomy) s' events s'') (x : TransactionId)
    (howner : ¬ Holds s owner x) (hseen : ∀ i, s.phase i ≠ .assigned x) :
    InSnapshot s''.log taken x ↔ InSnapshot s.log taken x := by
  have hrun : Run (Guarded Step Roomy) s _ s'' := .guarded_cons hs trivial r
  refine and_congr_left fun hactive => ?_
  by_cases hc : transactionIdDidCommit s.log x
  · have hkept := hrun.preserves (fun s => Lawful s ∧ transactionIdDidCommit s.log x)
      (fun _ _ _ hp hs => ⟨step_lawful hp.1 hs, step_didCommit hp.1 hs.2 hp.2⟩) ⟨h, hc⟩
    exact iff_of_true hkept.2 hc
  · refine iff_of_false (fun hc' => ?_) hc
    obtain ⟨h0, hlog⟩ := (didCommit_iff _ _).mp hc'
    obtain ⟨_, hgone⟩ := hrun.preserves (fun s => ∃ h : Lawful s, (momentOf s h).Gone x)
      (fun _ _ _ ⟨hp, hg⟩ hs => ⟨step_lawful hp hs, (step_moves hp hs).gone hg⟩)
      ⟨h, gone_of_inactive h hs howner hseen hactive h0 hc⟩
    have hlost := hgone.lost
    simp only [momentOf] at hlost
    rcases hlog with e | e <;> simp [e] at hlost

/-- Transaction 602 commits after the snapshot. -/
theorem snapshot_contents_fixed_soft_commit : ∃ s : Server, transactionIdDidCommit s.log 602 ∧
    ¬ InSnapshot s.log { xmin := 602, xmax := 604, xip := [602] } 602 := by
  have h : Lawful bothRunning := bothRunning_run.preserves Lawful (fun _ _ _ => step_lawful)
    (Started.lawful twoThreads_started fun _ _ => rfl)
  have hseen : ∀ i, bothRunning.phase i ≠ .assigned 602 := by
    intro i
    rw [bothRunning, setThread_phase, assign_phase, firstRunning, setThread_phase, assign_phase]
    split_ifs <;> simp [twoThreads]
  have hfixed := snapshot_contents_fixed bothRunning _ _ h 1 1 false _
    (.snapshot _ _ 1 1 603 false _ rfl (.inl rfl) rfl) _
    (.guarded_cons (.finish _ 0 602 rfl) trivial (.guarded_cons (.softCommit _ 0 602 rfl) trivial (.nil _)))
    602 (by unfold Holds; decide) hseen
  exact ⟨_, by decide, fun hin => absurd (hfixed.mp hin).1 (by decide)⟩

/-! ## Doomed tuples -/

structure Doomed (log : StatusLog) (c : TransactionId) (t : HeapTupleHeader) : Prop where
  inserted : t.has .xminCommitted ∨ t.has .xminInvalid = false ∧ transactionIdDidCommit log t.xmin
  deleted : t.has .xmaxInvalid = false ∧ t.xmax ≠ 0
  unmarked : t.infomask.markedForUpdate = false
  committed : transactionIdDidCommit log t.xmax
  behind : t.xmax < c

theorem not_current_of_didCommit (hopen : transactionIdDidCommit v.log v.current = false)
    (asksOwn : Bool) (hx : transactionIdDidCommit v.log x) : ¬ (asksOwn && v.isCurrent x) := by
  rw [and_eq_true]
  rintro ⟨-, hcur⟩
  rw [← eq_of_beq hcur, hopen] at hx
  cases hx

section

variable {v : View} {c : TransactionId} {t : HeapTupleHeader} (h : Doomed v.log c t)
  (hopen : transactionIdDidCommit v.log v.current = false) (asksOwn : Bool)
include h hopen

theorem Doomed.inserter : (inserter v asksOwn t).1 = .committed :=
  inserter_committed_iff.mpr (h.inserted.imp_right fun hlog =>
      ⟨hlog.1, not_current_of_didCommit hopen asksOwn hlog.2, hlog.2⟩)

theorem Doomed.deleter : (deleter v asksOwn t).1 = .committed :=
  deleter_committed_iff.mpr ⟨h.deleted, .inr ⟨not_current_of_didCommit hopen asksOwn h.committed, h.committed⟩⟩

omit asksOwn in
theorem Doomed.update : (heapTupleSatisfiesUpdate v t).1 = .updated := by
  simp only [update_answer, h.inserter hopen, h.deleter hopen, h.unmarked, false_eq_true, if_false]

omit asksOwn in
theorem Doomed.not_live (oldestXmin : TransactionId) : (heapTupleSatisfiesVacuum v oldestXmin t).1 ≠ .live := by
  simp only [vacuum_answer, h.inserter hopen, h.deleter hopen, h.unmarked, false_eq_true, if_false]
  split_ifs <;> exact HTSVResult.noConfusion

omit asksOwn in
theorem Doomed.unseen (override : Bool) (snapshot : SnapshotData) (hbelow : Below c snapshot) :
    (heapTupleSatisfiesSnapshot v override snapshot t).1 = false := by
  have hdone : transactionIdActiveDuringSnapshot snapshot t.xmax = false := by
    rw [← not_eq_true]
    intro hactive
    exact absurd (hbelow _ hactive) (BitVec.not_le.mpr h.behind)
  cases override with
  | true =>
    rw [heapTupleSatisfiesSnapshot, if_pos rfl]
    simp only [now_answer, h.inserter hopen, h.deleter hopen, h.unmarked]
  | false =>
    simp only [snapshot_answer, h.inserter hopen, snapshotDeleter_unmarked v snapshot h.unmarked,
      h.deleter hopen, hdone, Bool.and_false]

end

theorem vacuum_dead (h : (heapTupleSatisfiesVacuum v c t).1 = .dead) :
    (inserter v false t).1 = .committed ∧ (deleter v false t).1 = .committed ∧
      t.infomask.markedForUpdate = false ∧ t.xmax < c := by
  rw [vacuum_answer] at h
  cases hi : (inserter v false t).1 with rw [hi] at h
  | void | own | running => cases h
  | committed =>
    cases hd : (deleter v false t).1 with simp only [hd] at h
    | void | own | running => cases h
    | committed =>
      split_ifs at h with hmark hle
      exact ⟨rfl, rfl, eq_false_iff.mpr hmark, BitVec.not_le.mp hle⟩

theorem dead_doomed (hhonest : Honest v.log t) (h : (heapTupleSatisfiesVacuum v c t).1 = .dead) : Doomed v.log c t := by
  obtain ⟨hins, hdel, hmark, hlt⟩ := vacuum_dead h
  obtain ⟨hdeleted, hcom⟩ := deleter_committed_iff.mp hdel
  refine ⟨?_, hdeleted, hmark, ?_, hlt⟩
  · exact (inserter_committed_iff.mp hins).imp_right fun hlog => ⟨hlog.1, hlog.2.2⟩
  · exact hcom.elim (fun hbit => hhonest hbit hdeleted.2) And.right

/-! ## Steps -/

theorem Honest.hints {t' : HeapTupleHeader} (h : Honest v.log t) (hh : Hints v t t') : Honest v.log t' := by
  induction hh with
  | none => exact h
  | more b _ hb ih =>
    cases b with
    | xmaxCommitted =>
      intro _ _
      obtain ⟨h0, hlog⟩ := (didHardCommit_iff _ _).mp hb.2
      exact (didCommit_iff _ _).mpr ⟨h0, .inr hlog⟩
    | xminCommitted => exact ih
    | xminInvalid => exact ih
    | xmaxInvalid => exact ih

theorem Doomed.hints {t' : HeapTupleHeader} (h : Doomed v.log c t) (hh : Hints v t t') : Doomed v.log c t' := by
  induction hh with
  | none => exact h
  | more b _ hb ih =>
    have hnot : ∀ x, transactionIdDidCommit v.log x → v.isVoid x = false := by
      intro x hx
      rw [View.isVoid, hx]
      rfl
    cases b with
    | xminCommitted => exact ⟨.inl rfl, ih.deleted, ih.unmarked, ih.committed, ih.behind⟩
    | xminInvalid =>
      refine ⟨?_, ih.deleted, ih.unmarked, ih.committed, ih.behind⟩
      refine ih.inserted.imp_right fun hins => ?_
      cases (hnot _ hins.2).symm.trans hb.2
    | xmaxCommitted => exact ⟨ih.inserted, ih.deleted, ih.unmarked, ih.committed, ih.behind⟩
    | xmaxInvalid =>
      obtain h0 | hvoid := hb.2
      · exact absurd h0 ih.deleted.2
      · cases (hnot _ ih.committed).symm.trans hvoid.2

theorem tupleStep_honest {t t' : Option HeapTupleHeader} (hs : TupleStep s x t t')
    (h : ∀ g, t = some g → Honest s.log g) : ∀ g, t' = some g → Honest s.log g := by
  intro g hg
  cases hs with
  | insert tup cid =>
    cases hg
    exact fun hbit => Bool.noConfusion hbit
  | moveIn tup self =>
    cases hg
    exact fun hbit => Bool.noConfusion hbit
  | call t scan c =>
    cases hg
    exact Honest.hints (v := serverView s x scan) (h t rfl) (exec_hints _ t c)
  | delete t scan cid ctid hfree =>
    cases hg
    exact fun hbit => Bool.noConfusion hbit
  | mark4Update t scan cid hfree =>
    cases hg
    exact fun hbit => Bool.noConfusion hbit
  | moveOff t scan oldestXmin hlive =>
    cases hg
    exact fun hbit => Bool.noConfusion hbit
  | moveBack t hmine =>
    cases hg
    exact fun _ h0 => absurd rfl h0
  | moved t ctid hmine =>
    cases hg
    exact h t rfl

theorem tupleStep_doomed {t t' : Option HeapTupleHeader} (hs : TupleStep s x t t')
    (hopen : transactionIdDidCommit s.log x = false) (h : ∃ g, t = some g ∧ Doomed s.log c g) :
    ∃ g, t' = some g ∧ Doomed s.log c g := by
  obtain ⟨g, rfl, hdoomed⟩ := h
  cases hs with
  | call _ scan c =>
    exact ⟨_, rfl, Doomed.hints (v := serverView s x scan) hdoomed (exec_hints _ g c)⟩
  | delete _ scan cid ctid hfree =>
    rw [Doomed.update (v := serverView s x scan) hdoomed hopen] at hfree
    cases hfree
  | mark4Update _ scan cid hfree =>
    rw [Doomed.update (v := serverView s x scan) hdoomed hopen] at hfree
    cases hfree
  | moveOff _ scan oldestXmin hlive =>
    exact absurd hlive (Doomed.not_live (v := serverView s x scan) hdoomed hopen oldestXmin)
  | moveBack _ hmine => cases (hmine ▸ hdoomed.committed).symm.trans hopen
  | moved _ ctid hmine => cases (hmine ▸ hdoomed.committed).symm.trans hopen

/-! ## Runs -/

structure WatchInvariant (w : Watched) : Prop where
  lawful : Lawful w.sessions.server
  kept : Kept w.sessions
  honest : ∀ t, w.tuple = some t → Honest w.sessions.server.log t

theorem Opened.invariant {w : Watched} (h : Opened w) : WatchInvariant w where
  lawful := Started.lawful h.started h.fresh
  kept := by
    have hnone : ∀ j o x, ¬ (w.sessions.env j).transaction = some (o, x) := by
      intro j o x hx
      rw [h.closed j] at hx
      cases hx
    refine
      { fresh := ?_
        dated := fun j o x hx => absurd hx (hnone j o x)
        child := fun j o x hx => absurd hx (hnone j o x)
        unset := fun o x hw => absurd hw.transaction (hnone o o x)
        sheltered := fun j o x hw => absurd hw.transaction (hnone j o x) }
    intro i x hp
    rw [h.started.idle i] at hp
    cases hp
  honest := h.honest

theorem session_statuses {l : SessionEvent} {b' : Sessions} (h : Lawful b.server)
    (hs : Guarded SessionStep Careful b l b') :
    Lawful b'.server ∧ ∀ x, transactionIdDidCommit b.server.log x → transactionIdDidCommit b'.server.log x := by
  have hrun : Run (Guarded Step Orderly) b.server l.onServer b'.server := onServer_run hs.2 hs.1.orderly
  refine hrun.preserves (fun s => Lawful s ∧ ∀ x, transactionIdDidCommit b.server.log x →
    transactionIdDidCommit s.log x) ?_ ⟨h, fun _ hx => hx⟩
  rintro s e s' ⟨hlaw, hmono⟩ ⟨horderly, hstep⟩
  exact ⟨step_lawful hlaw ⟨roomy_of_orderly horderly, hstep⟩, fun x hx => step_didCommit hlaw hstep (hmono x hx)⟩

variable {e : WatchedEvent} {w w' : Watched} {i : Nat}

theorem watched_step (w : Watched) (e : WatchedEvent) (w' : Watched) (h : WatchInvariant w)
    (hs : Guarded WatchedStep (OnSessions Careful) w e w') : WatchInvariant w' := by
  obtain ⟨hcare, hs⟩ := hs
  cases hs with
  | session b b' l t hs =>
    obtain ⟨hlaw, hmono⟩ := session_statuses h.lawful ⟨hcare, hs⟩
    refine ⟨hlaw, step_kept b l b' h.lawful.invariant h.kept ⟨hcare, hs⟩, ?_⟩
    exact fun t ht hbit h0 => hmono _ (h.honest t ht hbit h0)
  | tuple b t t' me owner x hme hs => exact ⟨h.lawful, h.kept, tupleStep_honest hs h.honest⟩

structure Buried (c : TransactionId) (w : Watched) : Prop where
  invariant : WatchInvariant w
  above : Above c w.sessions
  doomed : ∃ t, w.tuple = some t ∧ Doomed w.sessions.server.log c t

theorem buried_step (c : TransactionId) (w : Watched) (e : WatchedEvent) (w' : Watched)
    (h : Buried c w) (hs : Guarded WatchedStep (OnSessions Careful) w e w') : Buried c w' := by
  have hinv' := watched_step w e w' h.invariant hs
  obtain ⟨hcare, hs⟩ := hs
  cases hs with
  | session b b' l t hs =>
    obtain ⟨-, hmono⟩ := session_statuses h.invariant.lawful ⟨hcare, hs⟩
    refine ⟨hinv', step_above h.invariant.lawful.invariant h.invariant.kept h.above ⟨hcare, hs⟩, ?_⟩
    obtain ⟨t, ht, hd⟩ := h.doomed
    exact ⟨t, ht, hd.inserted.imp_right fun hins => ⟨hins.1, hmono _ hins.2⟩, hd.deleted, hd.unmarked,
      hmono _ hd.committed, hd.behind⟩
  | tuple b t t' me owner x hme hs =>
    exact ⟨hinv', h.above, tupleStep_doomed hs (worksFor_open h.invariant.lawful hme) h.doomed⟩

theorem watched_on_server {events : List WatchedEvent}
    (r : Run (Guarded WatchedStep (OnSessions Careful)) w events w') :
    Run (Guarded Step Orderly) w.sessions.server (events.flatMap WatchedEvent.onServer)
      w'.sessions.server := by
  refine r.project (fun w => w.sessions.server) WatchedEvent.onServer ?_
  rintro w e w' ⟨hcare, hs⟩
  cases hs with
  | session b b' l t hs => exact onServer_run hs hcare.orderly
  | tuple b t t' me owner x hme hs => exact .nil _

/-- **Dead tuples.** No snapshot that a running transaction holds then or later shows a tuple found
dead by the checkpoint id. -/
theorem dead_tuple_unseen (w₀ w w' : Watched) (events later : List WatchedEvent) (h₀ : Opened w₀)
    (r : Run (Guarded WatchedStep (OnSessions Careful)) w₀ events w)
    (hcomputed : events.any WatchedEvent.computes) (t : HeapTupleHeader)
    (ht : w.tuple = some t) (vacuum : TransactionId) (scan : CommandId)
    (hdead : (heapTupleSatisfiesVacuum (serverView w.sessions.server vacuum scan)
      w.sessions.server.ids.shmem.xidCheckpoint t).1 = .dead)
    (r' : Run (Guarded WatchedStep (OnSessions Careful)) w later w') :
    ∃ t', w'.tuple = some t' ∧ ∀ j o x taken, WorksFor w'.sessions j o x →
      taken ∈ (w'.sessions.env j).snapshots → ∀ override scan',
        (heapTupleSatisfiesSnapshot (serverView w'.sessions.server x scan') override taken t').1 = false := by
  have hinv : WatchInvariant w := r.preserves WatchInvariant watched_step h₀.invariant
  have hfloor : Floor w.sessions.server := by
    refine run_floor (watched_on_server r) h₀.started.invariant (.inr ?_)
    rw [any_flatMap]
    exact hcomputed
  have hburied : Buried w.sessions.server.ids.shmem.xidCheckpoint w :=
    ⟨hinv, above_checkpoint hinv.kept hfloor,
      t, ht, dead_doomed (v := serverView w.sessions.server vacuum scan) (hinv.honest t ht) hdead⟩
  have hlast := r'.preserves (Buried _) (buried_step _) hburied
  obtain ⟨t', ht', hdoomed⟩ := hlast.doomed
  refine ⟨t', ht', ?_⟩
  intro j o x taken hw htaken override scan'
  exact Doomed.unseen (v := serverView w'.sessions.server x scan') hdoomed
    (worksFor_open hlast.invariant.lawful hw) override taken (hlast.above.below j o x taken hw htaken)

/-! ## A deleted row -/

def quietEnv : Env where
  transaction := none
  isoLevel := .readCommitted
  holder := freeXactSnapshot
  estates := []

def oldRow : HeapTupleHeader where
  progress := 0
  xmin := 600
  xmax := 0
  ctid := ⟨0, 1⟩
  infomask := ⟨true, false, false, true, false, false, false⟩

def oneRow : Watched where
  sessions := { server := twoThreads, env := fun _ => quietEnv }
  tuple := some oldRow

theorem oneRow_opened : Opened oneRow where
  started := twoThreads_started
  fresh := fun _ _ => rfl
  closed := fun _ => rfl
  honest := by
    intro t ht
    cases ht
    exact fun hbit => Bool.noConfusion hbit

def answered (b : Sessions) (r : Request) (me : Nat) (x : TransactionId) : Sessions :=
  match r.exec b.server me x (b.env me) with
  | .ok (holder, s', _) => Sessions.setEnv { b with server := s' } me { b.env me with holder := holder }
  | .error _ => b

def committed (b : Sessions) (i : Nat) (x : TransactionId) : Sessions :=
  let finished := b.server.setThread i (threadTransactionEnd (b.server.thread i)) (.committing x)
  let recorded := (finished.record x .softCommit).setThread i (finished.thread i) (.recorded x)
  { b with
    server := recorded.setThread i (threadTransactionReset (recorded.thread i)) .idle }

theorem commit_run {Ok : Watched → WatchedEvent → Prop} (t : Option HeapTupleHeader)
    (h : b.server.phase i = .running x) (hok : ∀ w e, e.isEnding → Ok w (.session (.goesOn e))) :
    Run (Guarded WatchedStep Ok) ⟨b, t⟩ [.session (.goesOn (.finish i)), .session (.goesOn (.softCommit i)),
        .session (.goesOn (.reset i))] ⟨committed b i x, t⟩ := by
  refine .guarded_cons (.session _ _ _ _ (.goesOn _ _ _ rfl (.finish _ i x h))) (hok _ _ rfl) ?_
  refine .guarded_cons (.session _ _ _ _ (.goesOn _ _ _ rfl (.softCommit _ i x ?_))) (hok _ _ rfl) ?_
  · rw [setThread_phase, if_pos rfl]
  refine .guarded_cons (.session _ _ _ _ (.goesOn _ _ _ rfl (.reset _ i ?_))) (hok _ _ rfl) (.nil _)
  rw [setThread_phase, if_pos rfl]
  rfl

theorem begin_run {Ok : Watched → WatchedEvent → Prop} (b : Sessions) (t : Option HeapTupleHeader)
    (i : Nat) (x : TransactionId) (hi : i < b.server.maxBackends) (hidle : b.server.phase i = .idle)
    (htype : (b.server.thread i).ttype = .normal) (hx : (getNewTransactionId b.server.ids).1 = x)
    (hstart : Ok ⟨b, t⟩ (.session (.start i))) (hpublish : ∀ w, Ok w (.session (.publish i))) :
    Run (Guarded WatchedStep Ok) ⟨b, t⟩ [.session (.start i), .session (.publish i)] ⟨(b.start i).publish i x, t⟩ := by
  refine .guarded_cons (.session _ _ _ _ (.start b i (.assign _ i hi hidle (.inl htype)))) hstart ?_
  refine .guarded_cons (.session _ _ _ _ (.publish _ i x ?_)) (hpublish _) (.nil _)
  show (b.server.assign i).phase i = _
  rw [assign_phase, if_pos rfl, hx]

theorem begun_phase (b : Sessions) (x : TransactionId) {j : Nat} (hj : j ≠ i) :
    ((b.start i).publish i x).server.phase j = b.server.phase j := by
  show ((b.server.assign i).setThread i _ _).phase j = _
  rw [setThread_phase, if_neg hj, assign_phase, if_neg hj]

theorem committed_phase (b : Sessions) (x : TransactionId) {j : Nat} (hj : j ≠ i) :
    (committed b i x).server.phase j = b.server.phase j := by
  unfold committed
  rw [setThread_phase, if_neg hj, setThread_phase, if_neg hj]
  exact (setThread_phase b.server i (threadTransactionEnd (b.server.thread i)) _ j).trans (if_neg hj)

section

theorem orderly_start (hd : b.server.ids.var.nextXidData = 608)
    (hp : b.server.ids.xidPrefetch = 8192) : OrderlySession b (.start i) := by
  intro e he
  obtain rfl := mem_singleton.mp he
  show RoomLeft b.server.ids
  rw [RoomLeft, hd, hp]
  decide

theorem orderly_publish (b : Sessions) (i : Nat) : OrderlySession b (.publish i) := by
  intro e he
  obtain rfl := mem_singleton.mp he
  trivial

theorem orderly_goesOn (b : Sessions) (e : Event) (h : e.isEnding) : OrderlySession b (.goesOn e) := by
  intro e' he
  obtain rfl := mem_singleton.mp he
  cases e' <;> trivial

theorem orderly_request (h₀ : ∀ x, b.server.phase 0 ≠ .assigned x)
    (h₁ : ∀ x, b.server.phase 1 ≠ .assigned x) (h : ∀ i, 2 ≤ i → b.server.phase i = .idle)
    (r : Request) (me owner : Nat) (computed : Bool × SnapshotData) :
    OrderlySession b (.request r me owner (some computed)) := by
  intro e he
  obtain rfl := mem_singleton.mp he
  intro i x
  match i with
  | 0 => exact h₀ x
  | 1 => exact h₁ x
  | i + 2 =>
    rw [h (i+2) (by omega)]
    exact Phase.noConfusion

end

/-- The first transaction deletes the row and commits; the next one computes a snapshot. -/
def deleting : Sessions := answered ((oneRow.sessions.start 0).publish 0 602) .query 0 602

def deletedRow : HeapTupleHeader :=
  heapDelete (heapTupleSatisfiesUpdate (serverView deleting.server 602 1) oldRow).2 602 1 ⟨0, 1⟩

def surveyedAgain : Sessions := answered (((committed deleting 0 602).start 0).publish 0 603) .query 0 603

theorem dead_tuple_unseen_deleted : (heapTupleSatisfiesSnapshot (serverView surveyedAgain.server 603 1) false
      { xmin := 603, xmax := 604, xip := [] } deletedRow).1 = false := by
  have r : Run (Guarded WatchedStep (OnSessions Careful)) oneRow
      ([.session (.start 0), .session (.publish 0)] ++
      ([.session (.request .query 0 0 (some (true, { xmin := 602, xmax := 603, xip := [] }))), .tuple 0] ++
      ([.session (.goesOn (.finish 0)), .session (.goesOn (.softCommit 0)), .session (.goesOn (.reset 0))] ++
      ([.session (.start 0), .session (.publish 0)] ++
      [.session (.request .query 0 0 (some (true, { xmin := 603, xmax := 604, xip := [] })))]))))
      ⟨surveyedAgain, some deletedRow⟩ := by
    refine .trans (begin_run oneRow.sessions _ 0 602 (by decide) rfl rfl (by decide)
      ⟨orderly_start rfl rfl, trivial⟩ fun w => ⟨orderly_publish w.sessions 0, trivial⟩) ?_
    refine .trans (.guarded_cons (.session _ deleting _ _ (.request _ .query 0 0 602 _ _ _
      ⟨rfl, rfl, by decide, .inl rfl⟩ rfl)) ⟨orderly_request ?_ ?_ ?_ _ _ _ _, trivial⟩
      (.guarded_cons (.tuple _ _ _ 0 0 602 ⟨rfl, rfl, by decide, .inl rfl⟩
        (.delete oldRow 1 1 ⟨0, 1⟩ (by decide))) trivial (.nil _))) ?_
    · exact fun x hx => Phase.noConfusion hx
    · exact fun x hx => Phase.noConfusion hx
    · exact fun i hi => begun_phase oneRow.sessions 602 (by omega)
    refine .trans (commit_run _ rfl fun w e he => ⟨orderly_goesOn _ e he, trivial⟩) ?_
    refine .trans (begin_run (committed deleting 0 602) _ 0 603 (by decide) rfl rfl (by decide)
      ⟨orderly_start rfl rfl, trivial⟩ fun w => ⟨orderly_publish w.sessions 0, trivial⟩) ?_
    refine .guarded_cons (.session _ surveyedAgain _ _ (.request _ .query 0 0 603 _ _ _
      ⟨rfl, rfl, by decide, .inl rfl⟩ rfl)) ⟨orderly_request ?_ ?_ ?_ _ _ _ _, trivial⟩ (.nil _)
    · exact fun x hx => Phase.noConfusion hx
    · exact fun x hx => Phase.noConfusion hx
    · intro i hi
      exact ((begun_phase (committed deleting 0 602) 603 (by omega)).trans
        (committed_phase deleting 602 (by omega))).trans (begun_phase oneRow.sessions 602 (by omega))
  obtain ⟨t', ht', hall⟩ := dead_tuple_unseen oneRow _ _ _ [] oneRow_opened r (by decide) deletedRow rfl
    603 1 (by decide) (.nil _)
  obtain rfl := Option.some.inj ht'
  exact hall 0 0 603 _ ⟨rfl, rfl, by decide, .inl rfl⟩ (by decide) false 1

/-! ## A user snapshot before the first query -/

def bothBegun : Sessions := ((oneRow.sessions.start 0).publish 0 602 |>.start 1).publish 1 603

def rowDeletedFirst : HeapTupleHeader :=
  heapDelete (heapTupleSatisfiesUpdate (serverView bothBegun.server 602 1) oldRow).2 602 1 ⟨0, 1⟩

def userFirst : Sessions := answered bothBegun .user 1 603

/-- The first one commits, and its thread goes on with a query of the next transaction. -/
def pastUser : Sessions := answered (((committed userFirst 0 602).start 0).publish 0 604) .query 0 604

/-- The user snapshot lists 602, but the next survey puts the checkpoint at 603. -/
theorem not_all_dead_unseen : ¬ ∀ w₀ w events t vacuum scan j o x taken scan', Opened w₀ →
      Run (Guarded WatchedStep (OnSessions OrderlySession)) w₀ events w →
      events.any WatchedEvent.computes → w.tuple = some t →
      (heapTupleSatisfiesVacuum (serverView w.sessions.server vacuum scan)
        w.sessions.server.ids.shmem.xidCheckpoint t).1 = .dead →
      WorksFor w.sessions j o x → taken ∈ (w.sessions.env j).snapshots →
      (heapTupleSatisfiesSnapshot (serverView w.sessions.server x scan') false taken t).1 = false := by
  intro h
  have r : Run (Guarded WatchedStep (OnSessions OrderlySession)) oneRow
      ([.session (.start 0), .session (.publish 0)] ++
      ([.session (.start 1), .session (.publish 1)] ++
      ([.tuple 0, .session (.request .user 1 1 (some (false, { xmin := 602, xmax := 604, xip := [602] })))] ++
      ([.session (.goesOn (.finish 0)), .session (.goesOn (.softCommit 0)), .session (.goesOn (.reset 0))] ++
      ([.session (.start 0), .session (.publish 0)] ++
      [.session (.request .query 0 0 (some (true, { xmin := 603, xmax := 605, xip := [603] })))])))))
      ⟨pastUser, some rowDeletedFirst⟩ := by
    refine .trans (begin_run oneRow.sessions _ 0 602 (by decide) rfl rfl (by decide)
      (orderly_start rfl rfl) fun w => orderly_publish w.sessions 0) ?_
    refine .trans (begin_run _ _ 1 603 (by decide) rfl rfl (by decide)
      (orderly_start rfl rfl) fun w => orderly_publish w.sessions 1) ?_
    refine .trans (.guarded_cons (.tuple _ _ _ 0 0 602 ⟨rfl, rfl, by decide, .inl rfl⟩
        (.delete oldRow 1 1 ⟨0, 1⟩ (by decide))) trivial
      (.guarded_cons (.session _ userFirst _ _ (.request _ .user 1 1 603 _ _ _
        ⟨rfl, rfl, by decide, .inl rfl⟩ rfl)) (orderly_request ?_ ?_ ?_ _ _ _ _) (.nil _))) ?_
    · exact fun x hx => Phase.noConfusion hx
    · exact fun x hx => Phase.noConfusion hx
    · intro i hi
      exact (begun_phase _ 603 (by omega)).trans (begun_phase oneRow.sessions 602 (by omega))
    refine .trans (commit_run _ rfl fun w e he => orderly_goesOn _ e he) ?_
    refine .trans (begin_run (committed userFirst 0 602) _ 0 604 (by decide) rfl rfl (by decide)
      (orderly_start rfl rfl) fun w => orderly_publish w.sessions 0) ?_
    refine .guarded_cons (.session _ pastUser _ _ (.request _ .query 0 0 604 _ _ _
      ⟨rfl, rfl, by decide, .inl rfl⟩ rfl)) (orderly_request ?_ ?_ ?_ _ _ _ _) (.nil _)
    · exact fun x hx => Phase.noConfusion hx
    · exact fun x hx => Phase.noConfusion hx
    · intro i hi
      exact ((begun_phase _ 604 (by omega)).trans (committed_phase userFirst 602 (by omega))).trans
          ((begun_phase _ 603 (by omega)).trans (begun_phase oneRow.sessions 602 (by omega)))
  have hunseen := h oneRow ⟨pastUser, some rowDeletedFirst⟩ _ rowDeletedFirst 604 1 1 1 603
    { xmin := 602, xmax := 604, xip := [602] } 1 oneRow_opened r (by decide) rfl (by decide)
    ⟨rfl, rfl, by decide, .inl rfl⟩ (by decide)
  exact absurd hunseen (by decide)

end WeaverDB.Visibility
