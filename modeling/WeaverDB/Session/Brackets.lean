import WeaverDB.Session.CallFlow

/-! # Every transaction id is ended once

`Bracketed` reads the log of one environment: each id is ended by exactly one `CommitTransaction` or
`AbortTransaction` before the next one is assigned. There is an open id exactly when the block state is
not `TBLOCK_DEFAULT` (`Bracket`), as long as the calls are `Disciplined`.
-/

namespace WeaverDB.Session
open Foundations List Option

variable {rest : List Event} {e : Event} {x : Xact}

def Event.started : Event → Option Nat
  | .start xid => some xid
  | _ => none

def Event.ended : Event → Option Nat
  | .committed xid => some xid
  | .aborted xid => some xid
  | _ => none

def starts (log : List Event) : List Nat := log.filterMap Event.started

def ends (log : List Event) : List Nat := log.filterMap Event.ended

/-- Up to the next start only `xid` is ended, once; without one at most once, exactly once if `idle`. -/
def EndedOnce (idle : Prop) (xid : Nat) (rest : List Event) : Prop :=
  (∃ between next after, rest = between ++ .start next :: after ∧ starts between = [] ∧ ends between = [xid]) ∨
  (starts rest = [] ∧ (ends rest = [xid] ∨ ends rest = [] ∧ ¬ idle))

def Bracketed (idle : Prop) (log : List Event) : Prop :=
  ∀ before rest xid, log = before ++ .start xid :: rest → EndedOnce idle xid rest

def bracket : Monitor (Option Nat) Event where
  update := fun o e =>
    match e with
    | .start xid => some xid
    | .committed _ => none
    | .aborted _ => none
    | _ => o
  good := fun o e =>
    match e with
    | .start _ => o = none
    | .committed xid => o = some xid
    | .aborted xid => o = some xid
    | _ => True

def NextStart (ended : List Nat) (rest : List Event) : Prop :=
  ∃ between next after, rest = between ++ .start next :: after ∧ starts between = [] ∧ ends between = ended

theorem NextStart.plain (hs : e.started = none) (he : e.ended = none) {ended : List Nat}
    (h : NextStart ended rest) : NextStart ended (e :: rest) := by
  obtain ⟨between, next, after, hr, hst, hen⟩ := h
  refine ⟨e :: between, next, after, hr ▸ rfl, ?_, ?_⟩
  · rw [starts, filterMap_cons_none hs]
    exact hst
  · rw [ends, filterMap_cons_none he]
    exact hen

theorem NextStart.ending {xid : Nat} (hs : e.started = none) (he : e.ended = some xid)
    {ended : List Nat} (h : NextStart ended rest) : NextStart (xid :: ended) (e :: rest) := by
  obtain ⟨between, next, after, hr, hst, hen⟩ := h
  refine ⟨e :: between, next, after, hr ▸ rfl, ?_, ?_⟩
  · rw [starts, filterMap_cons_none hs]
    exact hst
  · rw [ends, filterMap_cons_some he]
    exact congrArg (xid :: ·) hen

theorem closed_cases (rest : List Event) : bracket.Accepts none rest →
    NextStart [] rest ∨ (starts rest = [] ∧ ends rest = [] ∧ bracket.after none rest = none) := by
  induction rest with
  | nil => exact fun _ => .inr ⟨rfl, rfl, rfl⟩
  | cons e rest ih =>
    intro h
    obtain ⟨hgood, hrest⟩ := (bracket.accepts_cons _ _ _).mp h
    cases e with
    | start next => exact .inl ⟨[], next, rest, rfl, rfl, rfl⟩
    | committed xid => cases hgood
    | aborted xid => cases hgood
    | commitTransaction xid => exact (ih hrest).imp_left (NextStart.plain rfl rfl)
    | raised => exact (ih hrest).imp_left (NextStart.plain rfl rfl)

theorem ended_cases {xid : Nat} (hs : e.started = none) (he : e.ended = some xid)
    (h : bracket.Accepts none rest) : NextStart [xid] (e :: rest) ∨
      (starts (e :: rest) = [] ∧ ends (e :: rest) = [xid] ∧ bracket.after none rest = none) := by
  refine (closed_cases rest h).imp (NextStart.ending hs he) ?_
  rintro ⟨hst, hen, hafter⟩
  refine ⟨?_, ?_, hafter⟩
  · rw [starts, filterMap_cons_none hs]
    exact hst
  · rw [ends, filterMap_cons_some he]
    exact congrArg (xid :: ·) hen

theorem open_cases (xid : Nat) (rest : List Event) : bracket.Accepts (some xid) rest → NextStart [xid] rest ∨
      (starts rest = [] ∧ (ends rest = [xid] ∧ bracket.after (some xid) rest = none ∨
        ends rest = [] ∧ bracket.after (some xid) rest = some xid)) := by
  induction rest with
  | nil => exact fun _ => .inr ⟨rfl, .inr ⟨rfl, rfl⟩⟩
  | cons e rest ih =>
    intro h
    obtain ⟨hgood, hrest⟩ := (bracket.accepts_cons _ _ _).mp h
    cases e with
    | start next => cases hgood
    | committed y =>
      obtain rfl : xid = y := some.inj hgood
      exact (ended_cases (e := .committed xid) rfl rfl hrest).imp_right fun hr => ⟨hr.1, .inl hr.2⟩
    | aborted y =>
      obtain rfl : xid = y := some.inj hgood
      exact (ended_cases (e := .aborted xid) rfl rfl hrest).imp_right fun hr => ⟨hr.1, .inl hr.2⟩
    | commitTransaction y => exact (ih hrest).imp_left (NextStart.plain rfl rfl)
    | raised => exact (ih hrest).imp_left (NextStart.plain rfl rfl)

theorem bracketed_of_accepts {idle : Prop} {log : List Event} (h : bracket.Accepts none log)
    (hidle : idle → bracket.after none log = none) : Bracketed idle log := by
  intro before rest xid hlog
  rw [hlog, Monitor.accepts_append, Monitor.accepts_cons] at h
  rw [hlog, Monitor.after_append] at hidle
  cases open_cases xid rest h.2.2 with
  | inl hl => exact .inl hl
  | inr hr =>
    obtain ⟨hst, hen⟩ := hr
    refine .inr ⟨hst, ?_⟩
    cases hen with
    | inl h1 => exact .inl h1.1
    | inr h2 =>
      refine .inr ⟨h2.1, fun hi => ?_⟩
      have hnone : bracket.after (some xid) rest = none := hidle hi
      rw [h2.2] at hnone
      cases hnone

def openId (ts : TransactionState) : Option Nat :=
  if ts.blockState = .default then none else some ts.transactionIdData

/-- The open id is the current one, and there is one exactly outside `TBLOCK_DEFAULT`. -/
structure Bracket (x : Xact) : Prop where
  accepts : bracket.Accepts none x.log
  openId : bracket.after none x.log = Session.openId x.ts
  quietStart : ∀ f ∈ x.startFaults, f = none

theorem openId_default {ts : TransactionState} (h : ts.blockState = .default) : openId ts = none := if_pos h

theorem openId_ne (ts : TransactionState) (h : ts.blockState ≠ .default) : openId ts = some ts.transactionIdData :=
  if_neg h

theorem Bracket.emit (h : Bracket x) (e : Event) (ts : TransactionState) (hgood : bracket.good (Session.openId x.ts) e)
    (hafter : bracket.update (Session.openId x.ts) e = Session.openId ts) :
    Bracket { x.emit e with ts := ts } := by
  refine ⟨?_, ?_, h.quietStart⟩
  · change bracket.Accepts none (x.log ++ [e])
    rw [Monitor.accepts_append, Monitor.accepts_cons, h.openId]
    exact ⟨h.accepts, hgood, Monitor.accepts_nil _ _⟩
  · change bracket.after none (x.log ++ [e]) = _
    rw [Monitor.after_append, h.openId]
    exact hafter

theorem Bracket.of_openId {y : Xact} (h : Bracket x) (hlog : y.log = x.log)
    (hfaults : y.startFaults = x.startFaults) (hid : Session.openId y.ts = Session.openId x.ts) :
    Bracket y := by
  refine ⟨?_, ?_, ?_⟩
  · rw [hlog]
    exact h.accepts
  · rw [hlog, hid]
    exact h.openId
  · rw [hfaults]
    exact h.quietStart

theorem Bracket.setBlockState (h : Bracket x) (b : BlockState)
    (hb : b = .default ↔ x.ts.blockState = .default) : Bracket (x.setBlockState b) := by
  refine h.of_openId rfl rfl ?_
  exact if_congr hb rfl rfl

theorem bracket_flow (B : BlockState → Prop) (hB : ∀ b, B b → b ≠ .default) :
    Flow Bracket Bracket B (· = .default) where
  frame := by
    intro x y hxy h
    refine h.of_openId hxy.log hxy.startFaults ?_
    rw [Session.openId, Session.openId, hxy.blockState, hxy.xid]
  raise := fun x h => h.emit .raised x.ts trivial rfl
  start := by
    intro x hb h
    have hopen := openId_default hb
    exact (h.emit (.start x.nextXid) (x.assignXid.setBlockState .auto).ts hopen rfl).of_openId rfl rfl rfl
  startStep := by
    intro x fs hfs h
    refine ⟨h.accepts, h.openId, fun f hf => h.quietStart f ?_⟩
    change f ∈ x.startFaults
    rw [hfs]
    exact mem_cons_of_mem none hf
  startRaise := by
    intro x e fs hfs h
    have hnone : some e = none := h.quietStart (some e) (by
      change some e ∈ x.startFaults
      rw [hfs]
      exact .head _)
    cases hnone
  commitRun := fun x _ h =>
    h.emit (.commitTransaction x.ts.transactionIdData) x.ts trivial rfl
  committed := by
    intro x hb h
    have hopen := openId_ne x.ts (by obtain hb | hb := hb <;> simp [hb])
    exact h.emit (.committed x.ts.transactionIdData) (x.setBlockState .default).ts hopen rfl
  aborted := by
    intro x hb h
    have hopen := openId_ne x.ts (by obtain hb | hb := hb <;> simp [hb])
    exact h.emit (.aborted x.ts.transactionIdData) (x.setBlockState .default).ts hopen rfl
  begin := fun _ hb h => h.setBlockState _ (iff_of_false (by simp) (hB _ hb))
  commitBlock := fun _ hb h => h.setBlockState _ (iff_of_false (by simp) (by simp [hb]))
  abortBlock := fun _ hb h =>
    h.setBlockState _ (iff_of_false (by simp) (by obtain hb | hb := hb <;> simp [hb]))
  abandon := fun _ hb h => h.setBlockState _ (iff_of_true rfl hb)

theorem bracket_phases : Phases Bracket Bracket Bracket (· ≠ .default) (· = .default) where
  outer := bracket_flow _ fun _ h => h.elim
  inner := bracket_flow _ fun _ h => h
  enter := fun _ _ h => h
  leave := fun _ h => h
  recovered := by
    intro x h
    refine h.setBlockState _ ?_
    cases x.ts.blockState <;> simp [BlockState.abortOnly]

/-- The calls after which block state and open id agree, as conditions on the state before. -/
def DisciplinedCall (parent : Option Parent) (b : BlockState) (c : Connection) : Call → Prop
  | .wBegin => c.transactionOwner = none →
      match parent with
      | none => b = .manual ∨ AllClosed c
      | some p => p.stage = .invalid
  | .wExec i parsed => c.stage ≠ .abortonly →
      Admits (· ≠ .default) (· = .default) b.afterStart (queriesOf c i parsed)
  | .wRollback => parent = none → c.stage = .invalid ∨ b = .manual ∨ b = .abortonly
  | _ => True

def Disciplined (fam : Family) (sys : System) (l : Nat × Input × Nat) : Prop :=
  (∀ f ∈ l.2.1.startFaults, f = none) ∧
  DisciplinedCall (fam.caller sys l.1 l.2.1).parent (sys.env l.1).ts.blockState (sys.env l.1).conn l.2.1.call

theorem resetForBegin_flow {N R : Xact → Prop} {B A : BlockState → Prop} (F : Flow N R B A) (b₀ : BlockState) :
    Triple (Holds N (fun b c => b = b₀ ∧ (b = .manual ∨ AllClosed c))) (wResetQuery false)
      (fun _ => Holds N (fun b _ => b = b₀)) (After R) := by
  intro m hm
  obtain ⟨hN, hb, hcase⟩ := hm
  cases hcase with
  | inl hman =>
    have hstable : PlanStable (fun b _ => b = .manual) :=
      ⟨fun b _ h => by rw [h]; rfl, fun _ _ _ _ h => h, fun _ _ _ h => h⟩
    refine ((wResetQuery_flow F false hstable) m ⟨hN, hman⟩).mono (fun _ s hs => ⟨hs.1, ?_⟩) (fun _ he => he)
    rw [hs.2, ← hman, hb]
  | inr hclosed =>
    exact ((wResetQuery_closed F b₀) m ⟨hN, hb, hclosed⟩).mono (fun _ s hs => ⟨hs.1, hs.2.1⟩) (fun _ he => he)

def BeginsWell (caller : Caller) (b₀ b : BlockState) (c : Connection) : Prop :=
  b = b₀ ∧ (caller.parent = none → b = .manual ∨ AllClosed c) ∧ ∀ p, caller.parent = some p → p.stage = .invalid

theorem BeginsWell.afterStart {caller : Caller} {b₀ b : BlockState} {c : Connection}
    (h : BeginsWell caller b₀ b c) : BeginsWell caller b₀.afterStart b.afterStart c := by
  refine ⟨by rw [h.1], fun hpar => ?_, h.2.2⟩
  cases h.2.1 hpar with
  | inl hman =>
    rw [hman]
    exact .inl rfl
  | inr hcl => exact .inr hcl

theorem call_bracket (caller : Caller) (call : Call) (m₀ : Machine) (hbr : Bracket m₀.xact)
    (hrest : Resting m₀.xact.ts.blockState m₀.conn)
    (hok : DisciplinedCall caller.parent m₀.xact.ts.blockState m₀.conn call) :
    Post (fun _ => Holds Bracket Resting) (After Bracket) (exec (call.run caller) m₀) := by
  have hp := bracket_phases
  cases call with
  | wBegin =>
    refine wBegin_flow (J := BeginsWell caller m₀.xact.ts.blockState)
      (K := BeginsWell caller m₀.xact.ts.blockState.afterStart)
      (L := fun b _ => b = m₀.xact.ts.blockState.afterStart) hp caller
      (fun _ _ h => h.afterStart) (fun _ => ?_) (fun hpar => ?_) ?_ ?_ m₀ ⟨hbr, ?_, hrest⟩
    · exact startCommand_flow hp.outer fun _ _ h => h.afterStart
    · exact (resetForBegin_flow hp.inner _).strengthen fun _ h => ⟨h.1, h.2.1, h.2.2.1 hpar⟩
    · intro b _ h
      rw [h]
      cases m₀.xact.ts.blockState <;> simp [BlockState.afterStart]
    · exact fun b c h p hpar hst => absurd (h.2.2 p hpar) hst
    · intro howner
      have h := hok howner
      refine ⟨rfl, fun hpar => ?_, fun p hpar => ?_⟩
      · rw [hpar] at h
        exact h
      · rw [hpar] at h
        exact h
  | wExec i parsed =>
    exact wExec_flow (J := fun b c => Admits (· ≠ .default) (· = .default) b.afterStart (queriesOf c i parsed)) hp
      caller i parsed (fun _ _ h => h) m₀ ⟨hbr, hok, hrest⟩
  | wFetch i eod => exact wFetch_flow hp caller i eod m₀ ⟨hbr, hrest⟩
  | wCommit => exact wCommit_flow hp caller m₀ ⟨hbr, hrest⟩
  | wRollback =>
    refine wRollback_flow (J := fun b c => caller.parent = none → c.stage = .invalid ∨ b = .manual ∨ b = .abortonly)
      (S := fun b => b = .manual ∨ b = .abortonly ∨ b = .default) hp caller ?_ (fun _ h => h) ?_ m₀
      ⟨hbr, hok, hrest⟩
    · intro b hb
      obtain rfl | rfl | rfl := hb <;> simp [BlockState.afterCommand]
    · intro b c h hpar hst
      obtain h | rfl | rfl := h hpar
      · exact absurd h hst
      · exact .inl rfl
      · exact .inr (.inl rfl)

structure BracketedAt (sys : System) : Prop where
  resting : sys.Resting
  bracket : ∀ (c nextXid : Nat) (startFaults : List (Option ElogError)), (∀ f ∈ startFaults, f = none) →
      Bracket ⟨(sys.env c).ts, nextXid, startFaults, (sys.env c).log⟩

theorem Bracket.restart (h : Bracket x) (nextXid : Nat) {startFaults : List (Option ElogError)}
    (hf : ∀ f ∈ startFaults, f = none) : Bracket ⟨x.ts, nextXid, startFaults, x.log⟩ :=
  ⟨h.accepts, h.openId, hf⟩

theorem step_bracketedAt {fam : Family} {sys sys' : System} {l : Nat × Input × Nat}
    (h : BracketedAt sys) (hok : Disciplined fam sys l) (hs : Step fam sys l sys') :
    BracketedAt sys' := by
  refine ⟨step_resting h.resting hs, fun d nextXid startFaults hf => ?_⟩
  cases hs with
  | call c inp err m hcall =>
    by_cases hd : d = c
    · subst hd
      have hpost := call_bracket (fam.caller sys d inp) inp.call (sys.machine d inp)
        (h.bracket d sys.nextXid inp.startFaults hok.1) (h.resting d) hok.2
      rw [Family.perform] at hcall
      rw [hcall] at hpost
      rw [store_env_self]
      exact hpost.1.restart nextXid hf
    · rw [store_env_ne _ _ hd]
      exact h.bracket d nextXid startFaults hf

theorem init_bracketedAt (nplans : Nat → Nat) (nextXid : Nat) : BracketedAt (System.init nplans nextXid) :=
  ⟨init_resting nplans nextXid, fun _ _ _ hf => ⟨Monitor.accepts_nil _ _, rfl, hf⟩⟩

/-- **Brackets.** Ids are ended exactly once before the next one, and the last when all is idle. -/
theorem disciplined_run_bracketed (fam : Family) (nplans : Nat → Nat) (nextXid : Nat) {sys : System}
    {ls : List (Nat × Input × Nat)}
    (r : Run (Guarded (Step fam) (Disciplined fam)) (System.init nplans nextXid) ls sys) (c : Nat) :
    Bracketed ((sys.env c).ts.blockState = .default) (sys.env c).log := by
  have h := r.preserves BracketedAt (fun _ _ _ h hs => step_bracketedAt h hs.1 hs.2)
    (init_bracketedAt nplans nextXid)
  have hb := h.bracket c 0 [] (fun _ hf => absurd hf not_mem_nil)
  refine bracketed_of_accepts hb.accepts (fun hidle => ?_)
  rw [hb.openId]
  exact openId_default hidle

/-- A block is begun, its statement cancelled, and rolled back. -/
theorem disciplined_run_bracketed_rollback :
    Bracketed (BlockState.default = .default) [.start 8, .raised, .aborted 8] := by
  have hquiet : ∀ call : Call, ∀ f ∈ (undisturbed call).startFaults, f = none :=
    fun _ _ hf => absurd hf not_mem_nil
  exact disciplined_run_bracketed .pair (fun _ => 1) 7
    (.guarded_cons (Step.of_ok .pair _ 1 (undisturbed (.wExec 0 [.modify])) 0 rfl)
      ⟨hquiet _, fun _ => ⟨trivial, trivial⟩⟩
      (.guarded_cons (Step.of_ok .pair _ 0 (undisturbed .wBegin) 0 rfl) ⟨hquiet _, fun _ => .inr fun _ => rfl⟩
        (.guarded_cons (Step.of_ok .pair _ 0 cancelledInsert 100 rfl)
          ⟨hquiet .wBegin, fun _ => ⟨trivial, trivial⟩⟩
          (.guarded_cons (Step.of_ok .pair _ 0 (undisturbed .wRollback) 0 rfl)
            ⟨hquiet _, fun _ => .inr (.inr rfl)⟩ (.nil _))))) 0

/-- `WRollback` after a cancelled statement does not end the transaction. -/
theorem not_all_runs_bracketed : ¬ ∀ (fam : Family) (nplans : Nat → Nat) (nextXid : Nat) (sys : System)
      (ls : List (Nat × Input × Nat)) (c : Nat), Run (Step fam) (System.init nplans nextXid) ls sys →
        Bracketed ((sys.env c).ts.blockState = .default) (sys.env c).log := by
  intro hall
  have h := hall .solo (fun _ => 1) 7 _ _ 0 (.cons (Step.of_ok .solo _ 0 cancelledInsert 100 rfl)
      (.cons (Step.of_ok .solo _ 0 (undisturbed .wRollback) 0 rfl) (.nil _)))
  have hended : EndedOnce (BlockState.default = .default) 7 [.raised] := h [] [.raised] 7 rfl
  cases hended with
  | inl hnext =>
    obtain ⟨between, next, after, he, -, hends⟩ := hnext
    cases between with
    | nil => cases he
    | cons e between =>
      have hlen := congrArg List.length he
      simp at hlen
  | inr hlast =>
    cases hlast.2 with
    | inl h1 => cases h1
    | inr h2 => exact h2.2 rfl

end WeaverDB.Session
