import WeaverDB.Session.CallFlow

/-! # A failed transaction is not committed

`NoFailedCommit`: no error lies between the start of a transaction and a run of `CommitTransaction` for
it. After an error outside a block the handler of `WExec` and `WFetch` leaves the transaction open in
`TBLOCK_ABORT`, and `BeginTransactionBlock` turns that state, like any other, into `TBLOCK_MANUAL`.
-/

namespace WeaverDB.Session
open Foundations List

variable {x y : Xact} {e : Event} {xid : Nat} {log : List Event}

def NoFailedCommit (log : List Event) : Prop :=
  ∀ (before between after : List Event) (xid : Nat),
    log = before ++ .start xid :: (between ++ .commitTransaction xid :: after) → Event.raised ∉ between

/-! ## The ids that failed -/

structure Tally where
  started : List Nat
  failed : List Nat

def Tally.record (t : Tally) : Event → Tally
  | .start xid => { t with started := xid :: t.started }
  | .raised => { t with failed := t.started ++ t.failed }
  | _ => t

def Tally.empty : Tally := ⟨[], []⟩

def failures : Monitor Tally Event where
  update := Tally.record
  good := fun t e =>
    match e with
    | .commitTransaction xid => xid ∉ t.failed
    | _ => True

variable {t : Tally}

theorem record_started_mono (e : Event) (h : xid ∈ t.started) : xid ∈ (t.record e).started := by
  cases e with
  | start y => exact mem_cons_of_mem y h
  | _ => exact h

theorem record_failed_mono (e : Event) (h : xid ∈ t.failed) : xid ∈ (t.record e).failed := by
  cases e with
  | raised => exact mem_append_right t.started h
  | _ => exact h

theorem after_failed_mono (es : List Event) : ∀ (t : Tally) {xid : Nat}, xid ∈ t.failed →
    xid ∈ (failures.after t es).failed := by
  induction es with
  | nil => exact fun _ _ h => h
  | cons e es ih => exact fun t _ h => ih _ (record_failed_mono e h)

theorem after_raised_failed (es : List Event) : ∀ (t : Tally) {xid : Nat}, xid ∈ t.started →
    Event.raised ∈ es → xid ∈ (failures.after t es).failed := by
  induction es with
  | nil => exact fun _ _ _ h => absurd h not_mem_nil
  | cons e es ih =>
    intro t xid hx hr
    cases mem_cons.mp hr with
    | inl he =>
      refine after_failed_mono es _ ?_
      rw [← he]
      exact mem_append_left t.failed hx
    | inr hr' => exact ih _ (record_started_mono e hx) hr'

theorem noFailedCommit_of_accepts (h : failures.Accepts .empty log) : NoFailedCommit log := by
  intro before between after xid hlog hr
  have hgood := h (before ++ .start xid :: between) (.commitTransaction xid) after (by
    rw [hlog]
    simp)
  have hstarted : xid ∈ ((failures.after .empty before).record (.start xid)).started := (.head _)
  have hfailed := after_raised_failed between _ hstarted hr
  refine hgood ?_
  rw [Monitor.after_append]
  exact hfailed

/-! ## The invariants -/

structure Accounted (x : Xact) : Prop where
  accepts : failures.Accepts .empty x.log
  behind : ∀ xid ∈ (failures.after .empty x.log).started, xid < x.nextXid
  failed : ∀ xid ∈ (failures.after .empty x.log).failed, xid < x.nextXid

def Failed (x : Xact) : Prop := x.ts.transactionIdData ∈ (failures.after .empty x.log).failed

def Clean (x : Xact) : Prop := Accounted x ∧ ¬ Failed x

/-- Between calls: a block that `CommitTransaction` may be run from has not failed. -/
def Safe (x : Xact) : Prop :=
  Accounted x ∧ (x.ts.blockState = .auto ∨ x.ts.blockState = .manual ∨ x.ts.blockState = .commit → ¬ Failed x)

theorem after_snoc (t : Tally) (log : List Event) (e : Event) :
    failures.after t (log ++ [e]) = (failures.after t log).record e := by
  rw [Monitor.after_append]
  rfl

theorem accepts_snoc (h : failures.Accepts .empty log)
    (he : failures.good (failures.after .empty log) e) : failures.Accepts .empty (log ++ [e]) := by
  rw [Monitor.accepts_append, Monitor.accepts_cons]
  exact ⟨h, he, Monitor.accepts_nil _ _⟩

theorem Accounted.of_same (h : Accounted x) (hlog : y.log = x.log) (hnext : y.nextXid = x.nextXid) : Accounted y := by
  refine ⟨?_, ?_, ?_⟩
  · rw [hlog]
    exact h.accepts
  · rw [hlog, hnext]
    exact h.behind
  · rw [hlog, hnext]
    exact h.failed

theorem failed_of_same (hlog : y.log = x.log)
    (hxid : y.ts.transactionIdData = x.ts.transactionIdData) : Failed y ↔ Failed x := by
  rw [Failed, Failed, hlog, hxid]

def Event.IsPlain : Event → Prop
  | .start _ => False
  | .raised => False
  | _ => True

theorem record_plain (t : Tally) (he : e.IsPlain) : t.record e = t := by
  cases e with
  | start xid => exact he.elim
  | raised => exact he.elim
  | _ => rfl

theorem Accounted.emit_plain (h : Accounted x) (he : e.IsPlain)
    (hgood : failures.good (failures.after .empty x.log) e) : Accounted (x.emit e) := by
  refine ⟨accepts_snoc h.accepts hgood, ?_, ?_⟩
  · rw [Xact.emit, after_snoc, record_plain _ he]
    exact h.behind
  · rw [Xact.emit, after_snoc, record_plain _ he]
    exact h.failed

theorem failed_emit_plain (he : e.IsPlain) : Failed (x.emit e) ↔ Failed x := by
  rw [Failed, Failed, Xact.emit, after_snoc, record_plain _ he]

theorem Accounted.emit_raised (h : Accounted x) : Accounted (x.emit .raised) := by
  refine ⟨accepts_snoc h.accepts trivial, ?_, ?_⟩
  · rw [Xact.emit, after_snoc]
    exact h.behind
  · rw [Xact.emit, after_snoc]
    intro xid hx
    cases mem_append.mp hx with
    | inl hs => exact h.behind xid hs
    | inr hf => exact h.failed xid hf

theorem Accounted.assignXid (h : Accounted x) : Accounted x.assignXid ∧ ¬ Failed x.assignXid := by
  have hafter : failures.after .empty x.assignXid.log =
      (failures.after .empty x.log).record (.start x.nextXid) := after_snoc _ _ _
  refine ⟨⟨accepts_snoc h.accepts trivial, ?_, ?_⟩, ?_⟩
  · rw [hafter]
    intro xid hx
    cases mem_cons.mp hx with
    | inl he =>
      rw [he]
      exact Nat.lt_succ_self _
    | inr hs => exact Nat.lt_succ_of_lt (h.behind xid hs)
  · rw [hafter]
    exact fun xid hx => Nat.lt_succ_of_lt (h.failed xid hx)
  · rw [Failed, hafter]
    exact fun hx => absurd (h.failed _ hx) (Nat.lt_irrefl _)

theorem Clean.of_same (h : Clean x) (hlog : y.log = x.log) (hnext : y.nextXid = x.nextXid)
    (hxid : y.ts.transactionIdData = x.ts.transactionIdData) : Clean y := by
  refine ⟨h.1.of_same hlog hnext, ?_⟩
  rw [failed_of_same hlog hxid]
  exact h.2

theorem Clean.emit_plain (h : Clean x) (e : Event) (he : e.IsPlain)
    (hgood : failures.good (failures.after .empty x.log) e) : Clean (x.emit e) := by
  refine ⟨h.1.emit_plain he hgood, ?_⟩
  rw [failed_emit_plain he]
  exact h.2

theorem clean_flow : Flow Clean Accounted (fun _ => True) (fun _ => True) where
  frame := fun _ _ hxy h => h.of_same hxy.log hxy.nextXid hxy.xid
  raise := fun _ h => h.1.emit_raised
  start := fun _ _ h => Clean.of_same h.1.assignXid rfl rfl rfl
  startStep := fun _ _ _ h => h.of_same rfl rfl rfl
  startRaise := fun _ _ _ _ h => h.1.emit_raised.of_same rfl rfl
  commitRun := fun x _ h => h.emit_plain (.commitTransaction x.ts.transactionIdData) trivial h.2
  committed := fun x _ h =>
    (h.emit_plain (.committed x.ts.transactionIdData) trivial trivial).of_same rfl rfl rfl
  aborted := fun x _ h =>
    (h.emit_plain (.aborted x.ts.transactionIdData) trivial trivial).of_same rfl rfl rfl
  begin := fun _ _ h => h.of_same rfl rfl rfl
  commitBlock := fun _ _ h => h.of_same rfl rfl rfl
  abortBlock := fun _ _ h => h.of_same rfl rfl rfl
  abandon := fun _ _ h => h.of_same rfl rfl rfl

theorem Safe.of_clean (h : Clean x) : Safe x := ⟨h.1, fun _ => h.2⟩

theorem Safe.to_clean (h : Safe x)
    (hb : x.ts.blockState = .auto ∨ x.ts.blockState = .manual ∨ x.ts.blockState = .commit) :
    Clean x := ⟨h.1, h.2 hb⟩

theorem Safe.of_blockState (h : Accounted x)
    (hb : x.ts.blockState = .default ∨ x.ts.blockState = .abort ∨ x.ts.blockState = .abortonly) :
    Safe x := by
  refine ⟨h, fun hc => ?_⟩
  obtain hb | hb | hb := hb <;> simp [hb] at hc

theorem safe_flow : Flow Safe Accounted (fun _ => False) (fun _ => True) where
  frame := by
    intro x y hxy h
    refine ⟨h.1.of_same hxy.log hxy.nextXid, fun hb => ?_⟩
    rw [hxy.blockState] at hb
    rw [failed_of_same hxy.log hxy.xid]
    exact h.2 hb
  raise := fun _ h => h.1.emit_raised
  start := fun x _ h => Safe.of_clean (Clean.of_same (x := x.assignXid) h.1.assignXid rfl rfl rfl)
  startStep := fun _ _ _ h => Safe.of_clean ((h.to_clean (.inl rfl)).of_same rfl rfl rfl)
  startRaise := fun _ _ _ _ h => h.1.emit_raised.of_same rfl rfl
  commitRun := by
    intro x hb h
    have hc := h.to_clean (by obtain hb | hb := hb <;> simp [hb])
    exact Safe.of_clean (clean_flow.commitRun x hb hc)
  committed := by
    intro x hb h
    have hc := h.to_clean (by obtain hb | hb := hb <;> simp [hb])
    exact Safe.of_clean (clean_flow.committed x hb hc)
  aborted := fun x _ h => Safe.of_blockState
    ((h.1.emit_plain (e := .aborted x.ts.transactionIdData) trivial trivial).of_same rfl rfl)
    (.inl rfl)
  begin := fun _ hB _ => hB.elim
  commitBlock := fun _ hb h =>
    Safe.of_clean ((h.to_clean (.inr (.inl hb))).of_same rfl rfl rfl)
  abortBlock := fun _ _ h => Safe.of_blockState (h.1.of_same rfl rfl) (.inr (.inl rfl))
  abandon := fun _ _ h => Safe.of_blockState (h.1.of_same rfl rfl) (.inl rfl)

theorem failedCommit_phases : Phases Safe Clean Accounted (fun _ => True) (fun _ => True) where
  outer := safe_flow
  inner := clean_flow
  enter := by
    intro x hb h
    cases hb with
    | inl hb => exact h.to_clean (.inl hb)
    | inr hb => exact h.to_clean (.inr (.inl hb))
  leave := fun _ h => Safe.of_clean h
  recovered := by
    intro x h
    refine Safe.of_blockState (h.of_same rfl rfl) ?_
    change x.ts.blockState.abortOnly = _ ∨ x.ts.blockState.abortOnly = _ ∨ x.ts.blockState.abortOnly = _
    cases x.ts.blockState <;> simp [BlockState.abortOnly]

/-! ## Calls and runs -/

def BeginsClean (c : Nat) (sys : System) (l : Nat × Input × Nat) : Prop :=
  l.1 = c → l.2.1.call = .wBegin → (sys.env c).conn.transactionOwner = none →
    (sys.env c).ts.blockState.isAborted = false

theorem call_failedCommit {caller : Caller} (hpar : caller.parent = none) (call : Call)
    (m₀ : Machine) (hsafe : Safe m₀.xact) (hrest : Resting m₀.xact.ts.blockState m₀.conn)
    (hbegin : call = .wBegin → m₀.conn.transactionOwner = none → m₀.xact.ts.blockState.isAborted = false) :
    Post (fun _ => Holds Safe Resting) (After Accounted) (exec (call.run caller) m₀) := by
  have hp := failedCommit_phases
  cases call with
  | wBegin =>
    have hquiet : m₀.conn.transactionOwner = none → Quiet m₀.xact.ts.blockState := by
      intro ho
      cases hrest with
      | inl hq => exact hq
      | inr ha =>
        rw [hbegin rfl ho] at ha
        cases ha.1
    refine wBegin_flow (J := fun b _ => Quiet b) (K := fun _ _ => True) (L := fun _ _ => True) hp
      caller (fun _ _ _ => trivial) (fun _ => ?_) (fun _ => ?_) (fun _ _ _ => trivial) ?_ m₀
      ⟨hsafe, hquiet, hrest⟩
    · exact enter_flow hp (fun _ _ h => h) (fun _ _ _ => trivial)
    · exact wResetQuery_flow hp.inner false anyPlanStable
    · intro b c _ p hp'
      rw [hpar] at hp'
      cases hp'
  | wExec i parsed =>
    exact wExec_flow (J := fun _ _ => True) hp caller i parsed
      (fun _ _ _ => admits_all (fun _ => trivial) (fun _ => trivial) _ _) m₀
      ⟨hsafe, fun _ => trivial, hrest⟩
  | wFetch i eod => exact wFetch_flow hp caller i eod m₀ ⟨hsafe, hrest⟩
  | wCommit => exact wCommit_flow hp caller m₀ ⟨hsafe, hrest⟩
  | wRollback =>
    exact wRollback_flow (J := fun _ _ => True) (S := fun _ => True) hp caller (fun _ _ => trivial)
      (fun _ _ => .inr (.inr trivial)) (fun _ _ _ _ _ => trivial) m₀ ⟨hsafe, trivial, hrest⟩

structure SafeAt (c : Nat) (sys : System) : Prop where
  resting : sys.Resting
  safe : ∀ startFaults, Safe ⟨(sys.env c).ts, sys.nextXid, startFaults, (sys.env c).log⟩

theorem Safe.of_same (h : Safe x) (hts : y.ts = x.ts) (hlog : y.log = x.log)
    (hnext : x.nextXid ≤ y.nextXid) : Safe y := by
  refine ⟨⟨?_, ?_, ?_⟩, ?_⟩
  · rw [hlog]
    exact h.1.accepts
  · rw [hlog]
    exact fun xid hx => Nat.lt_of_lt_of_le (h.1.behind xid hx) hnext
  · rw [hlog]
    exact fun xid hx => Nat.lt_of_lt_of_le (h.1.failed xid hx) hnext
  · rw [Failed, hlog, hts]
    exact h.2

theorem step_safeAt {fam : Family} {c : Nat} (hc : fam.parent c = none) {sys sys' : System}
    {l : Nat × Input × Nat} (h : SafeAt c sys) (hok : BeginsClean c sys l)
    (hs : Step fam sys l sys') : SafeAt c sys' := by
  refine ⟨step_resting h.resting hs, fun startFaults => ?_⟩
  cases hs with
  | call d inp err m hcall =>
    by_cases hd : d = c
    · subst hd
      have hpar : (fam.caller sys d inp).parent = none := by
        rw [Family.caller, hc]
        rfl
      have hpost := call_failedCommit hpar inp.call (sys.machine d inp) (h.safe inp.startFaults) (h.resting d) (hok rfl)
      rw [Family.perform] at hcall
      rw [hcall] at hpost
      rw [store_env_self]
      exact hpost.1.of_same rfl rfl (Nat.le_refl _)
    · have hc' : c ≠ d := fun e => hd e.symm
      rw [store_env_ne _ _ hc']
      exact (h.safe startFaults).of_same rfl rfl (call_rests hcall h.resting).1

theorem init_safeAt (c : Nat) (nplans : Nat → Nat) (nextXid : Nat) : SafeAt c (System.init nplans nextXid) := by
  refine ⟨init_resting nplans nextXid, fun _ => Safe.of_blockState ⟨?_, ?_, ?_⟩ (.inl rfl)⟩
  · exact Monitor.accepts_nil _ _
  · exact fun _ hx => absurd hx not_mem_nil
  · exact fun _ hx => absurd hx not_mem_nil

/-- **No failed commit.** If `WBegin` is accepted only outside an aborted block. -/
theorem guarded_run_never_commits_failed (fam : Family) (c : Nat) (hc : fam.parent c = none)
    (nplans : Nat → Nat) (nextXid : Nat) {sys : System} {ls : List (Nat × Input × Nat)}
    (r : Run (Guarded (Step fam) (BeginsClean c)) (System.init nplans nextXid) ls sys) :
    NoFailedCommit (sys.env c).log := by
  have h := r.preserves (SafeAt c) (fun _ _ _ h hs => step_safeAt hc h hs.1 hs.2) (init_safeAt c nplans nextXid)
  exact noFailedCommit_of_accepts (h.safe []).1.accepts

/-- After the cancelled statement `WCommit` aborts its transaction, and a block can be begun. -/
theorem guarded_run_never_commits_failed_cancelled :
    NoFailedCommit [.start 7, .raised, .raised, .aborted 7, .start 8, .commitTransaction 8, .committed 8] := by
  exact guarded_run_never_commits_failed .solo 0 rfl (fun _ => 1) 7
    (.guarded_cons (Step.of_ok .solo _ 0 cancelledInsert 100 rfl) (fun _ h => by cases h)
      (.guarded_cons (Step.of_ok .solo _ 0 (undisturbed .wCommit) 100 rfl) (fun _ h => by cases h)
        (.guarded_cons (Step.of_ok .solo _ 0 (undisturbed .wBegin) 0 rfl) (fun _ _ _ => rfl)
          (.guarded_cons (Step.of_ok .solo _ 0 (undisturbed (.wExec 0 [.modify])) 0 rfl) (fun _ h => by cases h)
            (.guarded_cons (Step.of_ok .solo _ 0 (undisturbed .wCommit) 0 rfl)
              (fun _ h => by cases h) (.nil _))))))

/-- `WBegin` takes the transaction of the cancelled statement into a block, and `WCommit` commits it.
-/
theorem not_all_runs_spare_failed :
    ¬ ∀ (fam : Family) (c : Nat) (nplans : Nat → Nat) (nextXid : Nat) (sys : System)
      (ls : List (Nat × Input × Nat)), fam.parent c = none →
        Run (Step fam) (System.init nplans nextXid) ls sys → NoFailedCommit (sys.env c).log := by
  intro hall
  have h := hall .solo 0 (fun _ => 1) 7 _ _ rfl (.cons (Step.of_ok .solo _ 0 cancelledInsert 100 rfl)
      (.cons (Step.of_ok .solo _ 0 (undisturbed .wBegin) 0 rfl)
        (.cons (Step.of_ok .solo _ 0 (undisturbed .wCommit) 0 rfl) (.nil _))))
  exact h [] [.raised] [.committed 7] 7 rfl (.head _)

end WeaverDB.Session
