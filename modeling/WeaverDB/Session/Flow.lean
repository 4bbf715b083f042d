import WeaverDB.Session.Connection

/-! # Following an invariant through the calls

The code of the calls is walked once, for an arbitrary invariant. `N` holds while a call runs normally,
`R` right after an error; `Flow N R B A` lists what the routines of `xact.c` must do to `N`, where `B`
are the block states for `BeginTransactionBlock` and `A` those for `AbortTransactionBlock`. A relation
`J` ties the block state to the connection.
-/

namespace WeaverDB.Session
open Foundations

variable {E : Machine → Prop}

/-! ## What the commands do to the block state -/

def BlockState.afterStart : BlockState → BlockState
  | .default => .auto
  | b => b

def BlockState.afterCommand : BlockState → BlockState
  | .manual => .manual
  | _ => .default

def BlockState.afterAct (b : BlockState) : UtilityAct → BlockState
  | .commitTransactionCommand => b.afterCommand
  | .startTransactionCommand => b.afterStart

def BlockState.isAborted (b : BlockState) : Bool := b == .abort || b == .abortonly

def BlockState.afterBegin (b : BlockState) : BlockState := if b.isAborted then b else .manual

def BlockState.afterRollback : BlockState → BlockState
  | .manual => .abort
  | .abortonly => .abort
  | _ => .default

def BlockState.afterCommit : BlockState → BlockState
  | .manual => .commit
  | .abortonly => .abort
  | b => b

def BlockState.afterUtility (b : BlockState) : UtilityStmt → BlockState
  | .beginTrans => b.afterBegin
  | .commit => b.afterCommit
  | .rollback => b.afterRollback
  | .other acts => acts.foldl BlockState.afterAct b

def BlockState.afterQuery (b : BlockState) : Query → BlockState
  | .utility stmt => (b.afterUtility stmt).afterCommand
  | .modify => b.afterCommand
  | .select => b

/-! ## Invariants of a call -/

structure Xact.SameView (x y : Xact) : Prop where
  xid : y.ts.transactionIdData = x.ts.transactionIdData
  blockState : y.ts.blockState = x.ts.blockState
  nextXid : y.nextXid = x.nextXid
  startFaults : y.startFaults = x.startFaults
  log : y.log = x.log

structure Flow (N R : Xact → Prop) (B A : BlockState → Prop) : Prop where
  frame : ∀ x y : Xact, x.SameView y → N x → N y
  raise : ∀ x : Xact, N x → R (x.emit .raised)
  start : ∀ x : Xact, x.ts.blockState = .default → N x → N (x.assignXid.setBlockState .auto)
  startStep : ∀ (x : Xact) (fs : List (Option ElogError)), x.startFaults = none :: fs →
    N (x.setBlockState .auto) → N ({ x with startFaults := fs }.setBlockState .auto)
  startRaise : ∀ (x : Xact) (e : ElogError) (fs : List (Option ElogError)),
    x.startFaults = some e :: fs → N (x.setBlockState .auto) → R ({ x with startFaults := fs }.emit .raised)
  commitRun : ∀ x : Xact, x.ts.blockState = .auto ∨ x.ts.blockState = .commit → N x →
    N (x.emit (.commitTransaction x.ts.transactionIdData))
  committed : ∀ x : Xact, x.ts.blockState = .auto ∨ x.ts.blockState = .commit → N x →
    N ((x.emit (.committed x.ts.transactionIdData)).setBlockState .default)
  aborted : ∀ x : Xact, x.ts.blockState = .abort ∨ x.ts.blockState = .abortonly → N x →
    N ((x.emit (.aborted x.ts.transactionIdData)).setBlockState .default)
  begin : ∀ x : Xact, B x.ts.blockState → N x → N (x.setBlockState .manual)
  commitBlock : ∀ x : Xact, x.ts.blockState = .manual → N x → N (x.setBlockState .commit)
  abortBlock : ∀ x : Xact, x.ts.blockState = .manual ∨ x.ts.blockState = .abortonly → N x →
    N (x.setBlockState .abort)
  abandon : ∀ x : Xact, A x.ts.blockState → N x → N (x.setBlockState .default)

def Holds (N : Xact → Prop) (J : BlockState → Connection → Prop) (m : Machine) : Prop :=
  N m.xact ∧ J m.xact.ts.blockState m.conn

def After (R : Xact → Prop) (m : Machine) : Prop := R m.xact

section
variable {N R : Xact → Prop} {B A : BlockState → Prop} {J K : BlockState → Connection → Prop}

/-! ## Conditions on statements -/

/-- Ending an executor keeps `J`: it ends a transaction command and moves a statement's stage. -/
structure StageStable (J : BlockState → Connection → Prop) : Prop where
  command : ∀ b c, J b c → J b.afterCommand c
  stage : ∀ b c i st, J b c → J b (c.setPlanStage i st)

structure PlanStable (J : BlockState → Connection → Prop) : Prop where
  command : ∀ b c, J b c → J b.afterCommand c
  plan : ∀ b c i p, J b c → J b (c.setPlan i p)
  inselect : ∀ b c i, J b c → J b (c.setInselect i)

theorem PlanStable.toStageStable (h : PlanStable J) : StageStable J where
  command := h.command
  stage := fun b c i _ hJ => h.plan b c i _ hJ

def AllClosed (c : Connection) : Prop := ∀ i, (c.plan i).isOpen = false

theorem clear_isOpen (p : PreparedPlan) (h : p.isOpen = false) : p.clear.isOpen = false := by
  unfold PreparedPlan.clear
  split_ifs
  · rfl
  · exact h

theorem AllClosed.setPlan {c : Connection} (h : AllClosed c) (i : Nat) (p : PreparedPlan)
    (hp : p.isOpen = false) : AllClosed (c.setPlan i p) := by
  intro j
  by_cases hj : j = i
  · subst hj
    simpa [Connection.setPlan] using hp
  · simpa [Connection.setPlan, Function.update_of_ne hj] using h j

/-! ## Errors -/

theorem point_triple {P : Machine → Prop} (hP : ∀ m fs, m.faults = none :: fs → P m → P { m with faults := fs })
    (hE : ∀ m e fs, m.faults = some e :: fs → P m → E { m with xact := m.xact.emit .raised, faults := fs }) :
    Triple P point (fun _ => P) E := by
  intro m hm
  rw [point, exec_bind, exec_get]
  cases hf : m.faults with
  | nil =>
    simp only [hf]
    exact hm
  | cons f fs =>
    cases f with
    | none =>
      simp only [hf]
      exact hP m fs hf hm
    | some e =>
      simp only [hf]
      exact hE m e fs hf hm

theorem modifyConn_flow {f : Connection → Connection} (h : ∀ b c, J b c → K b (f c)) :
    Triple (Holds N J) (modifyConn f) (fun _ => Holds N K) E :=
  .modify (fun _ hm => ⟨hm.1, h _ _ hm.2⟩)

theorem modifyConn_keeps {f : Connection → Connection} (h : ∀ b c, J b c → J b (f c)) :
    Triple (Holds N J) (modifyConn f) (fun _ => Holds N J) E :=
  modifyConn_flow h

variable (F : Flow N R B A)
include F

theorem raise_flow {α : Type} {Q : α → Machine → Prop} (e : ElogError) : Triple (Holds N J) (raise e) Q (After R) :=
  fun _ hm => F.raise _ hm.1

theorem elog_flow {α : Type} {Q : α → Machine → Prop} (text : String) : Triple (Holds N J) (elog text) Q (After R) :=
  raise_flow F _

theorem point_flow : Triple (Holds N J) point (fun _ => Holds N J) (After R) :=
  point_triple (fun _ _ _ h => h) (fun _ _ _ _ h => F.raise _ h.1)

theorem frame_flow (f : Xact → Xact) (hf : ∀ x : Xact, x.SameView (f x)) :
    Triple (Holds N J) (modifyXact f) (fun _ => Holds N J) E := by
  refine .modify fun m hm => ⟨F.frame _ _ (hf m.xact) hm.1, ?_⟩
  rw [(hf m.xact).blockState]
  exact hm.2

theorem setState_flow (st : TransState) : Triple (Holds N J) (setState st) (fun _ => Holds N J) E :=
  frame_flow F _ (fun _ => ⟨rfl, rfl, rfl, rfl, rfl⟩)

/-! ## Transactions -/

/-- Until `StartTransactionCommand` ends, the invariant holds of the state to come. -/
def Starting (N : Xact → Prop) (J : BlockState → Connection → Prop) (m : Machine) : Prop :=
  N (m.xact.setBlockState .auto) ∧ J .auto m.conn

theorem startPoint_flow : Triple (Starting N J) startPoint (fun _ => Starting N J) (After R) := by
  intro m hm
  rw [startPoint, exec_bind, exec_get]
  cases hf : m.xact.startFaults with
  | nil =>
    simp only [hf]
    exact hm
  | cons f fs =>
    cases f with
    | none =>
      simp only [hf]
      exact ⟨F.startStep m.xact fs hf hm.1, hm.2⟩
    | some e =>
      simp only [hf]
      exact F.startRaise m.xact e fs hf hm.1

theorem startingFrame_flow (f : Xact → Xact)
    (hf : ∀ x : Xact, (x.setBlockState .auto).SameView ((f x).setBlockState .auto)) :
    Triple (Starting N J) (modifyXact f) (fun _ => Starting N J) E :=
  .modify (fun m hm => ⟨F.frame _ _ (hf m.xact) hm.1, hm.2⟩)

theorem startTransaction_flow : Triple (Holds N fun b c => b = .default ∧ J .auto c) startTransaction
      (fun _ => Starting N J) (After R) := by
  unfold startTransaction
  refine (setState_flow F _).andThen ?_
  refine (point_flow F).andThen ?_
  refine .andThen (S := Starting N J) ?_ ?_
  · exact .modify fun m hm => ⟨F.start m.xact hm.2.1 hm.1, hm.2.2⟩
  refine (startPoint_flow F).andThen ?_
  refine (startingFrame_flow F Xact.resetCommandIds fun _ => ⟨rfl, rfl, rfl, rfl, rfl⟩).andThen ?_
  refine (startPoint_flow F).andThen ?_
  exact startingFrame_flow F (·.setState .inprogress) (fun _ => ⟨rfl, rfl, rfl, rfl, rfl⟩)

theorem startCommand_flow (h : ∀ b c, J b c → K b.afterStart c) :
    Triple (Holds N J) startTransactionCommand (fun _ => Holds N K) (After R) := by
  refine .get fun m hm => ?_
  have hJ := h _ _ hm.2
  cases hb : m.xact.ts.blockState with
  | default =>
    simp only [hb] at hJ ⊢
    refine .bind (Q := fun _ => Starting N K) ((startTransaction_flow F).of_eq ⟨hm.1, hb, hJ⟩) fun _ => ?_
    exact .modify fun s hs => hs
  | _ =>
    simp only [hb] at hJ ⊢
    refine pure_at ⟨hm.1, ?_⟩
    rw [hb]
    exact hJ

/-- Likewise between the end of the transaction and the reset of the block state. -/
def Ending (N : Xact → Prop) (J : BlockState → Connection → Prop) (m : Machine) : Prop :=
  N (m.xact.setBlockState .default) ∧ J .default m.conn

theorem commitTransaction_flow (hb : ∀ b c, J b c → b = .auto ∨ b = .commit) (h : ∀ b c, J b c → K .default c) :
    Triple (Holds N J) (commitTransaction >>= fun _ => setBlockState .default) (fun _ => Holds N K) (After R) := by
  refine .bind (Q := fun _ => Ending N K) ?_ fun _ => .modify fun _ hs => hs
  refine .andThen (S := Holds N J) ?_ ?_
  · exact .modify fun m hm => ⟨F.commitRun m.xact (hb _ _ hm.2) hm.1, hm.2⟩
  refine (point_flow F).andThen ?_
  refine (setState_flow F _).andThen ?_
  refine (point_flow F).andThen ?_
  refine .modify fun m hm => ⟨?_, h _ _ hm.2⟩
  exact F.frame ((m.xact.emit (.committed m.xact.ts.transactionIdData)).setBlockState .default) _
    ⟨rfl, rfl, rfl, rfl, rfl⟩ (F.committed m.xact (hb _ _ hm.2) hm.1)

theorem abortTransaction_flow (hb : ∀ b c, J b c → b = .abort ∨ b = .abortonly) (h : ∀ b c, J b c → K .default c) :
    Triple (Holds N J) (abortTransaction >>= fun _ => setBlockState .default) (fun _ => Holds N K) (After R) := by
  refine .bind (Q := fun _ => Ending N K) ?_ fun _ => .modify fun _ hs => hs
  unfold abortTransaction
  refine (point_flow F).andThen ?_
  refine (setState_flow F _).andThen ?_
  refine (point_flow F).andThen ?_
  refine .modify fun m hm => ⟨?_, h _ _ hm.2⟩
  exact F.frame ((m.xact.emit (.aborted m.xact.ts.transactionIdData)).setBlockState .default) _
    ⟨rfl, rfl, rfl, rfl, rfl⟩ (F.aborted m.xact (hb _ _ hm.2) hm.1)

theorem commandCounterIncrement_flow : Triple (Holds N J) commandCounterIncrement (fun _ => Holds N J) (After R) := by
  refine .get fun m hm => ?_
  refine .ite (fun _ => ?_) fun _ => (elog_flow F _).of_eq hm
  refine .andThen (S := Holds N J) ?_ ?_
  · exact (frame_flow F Xact.incrementCommandId fun _ => ⟨rfl, rfl, rfl, rfl, rfl⟩).of_eq hm
  refine .get fun m' hm' => ?_
  refine .ite (fun _ => (elog_flow F _).of_eq hm') fun _ => ?_
  refine .andThen (S := Holds N J) ?_ ?_
  · exact (frame_flow F Xact.catchUpScanCommandId fun _ => ⟨rfl, rfl, rfl, rfl, rfl⟩).of_eq hm'
  exact point_flow F

theorem commitCommand_flow (h : ∀ b c, J b c → K b.afterCommand c) :
    Triple (Holds N J) commitTransactionCommand (fun _ => Holds N K) (After R) := by
  unfold commitTransactionCommand
  refine .get fun m hm => ?_
  have hJ := h _ _ hm.2
  -- the state just read is the only fact the branches need about the block
  have hat : Holds N (fun b c => b = m.xact.ts.blockState ∧ K m.xact.ts.blockState.afterCommand c) m := ⟨hm.1, rfl, hJ⟩
  cases hb : m.xact.ts.blockState with
  | default =>
    refine pure_at ⟨hm.1, ?_⟩
    rw [hb] at hJ ⊢
    exact hJ
  | manual =>
    rw [hb] at hat
    refine ((commandCounterIncrement_flow F).of_eq hat).weaken fun _ s hs => ⟨hs.1, ?_⟩
    rw [hs.2.1]
    exact hs.2.2
  | auto =>
    rw [hb] at hat
    exact (commitTransaction_flow F (fun _ _ hc => .inl hc.1) fun _ _ hc => hc.2).of_eq hat
  | commit =>
    rw [hb] at hat
    exact (commitTransaction_flow F (fun _ _ hc => .inr hc.1) fun _ _ hc => hc.2).of_eq hat
  | abort =>
    rw [hb] at hat
    exact (abortTransaction_flow F (fun _ _ hc => .inl hc.1) fun _ _ hc => hc.2).of_eq hat
  | abortonly =>
    rw [hb] at hat
    exact (abortTransaction_flow F (fun _ _ hc => .inr hc.1) fun _ _ hc => hc.2).of_eq hat

/-! ## Transaction blocks -/

theorem beginBlock_flow (hB : ∀ b c, J b c → B b) (h : ∀ b c, J b c → K .manual c) :
    Triple (Holds N J) beginTransactionBlock (fun _ => Holds N K) E :=
  .modify (fun m hm => ⟨F.begin m.xact (hB _ _ hm.2) hm.1, h _ _ hm.2⟩)

theorem abortBlock_flow (hA : ∀ b c, J b c → b = .manual ∨ b = .abortonly ∨ A b)
    (h : ∀ b c, J b c → K b.afterRollback c) :
    Triple (Holds N J) abortTransactionBlock (fun _ => Holds N K) E := by
  refine .get fun m hm => ?_
  have hJ := h _ _ hm.2
  have hA' := hA _ _ hm.2
  cases hb : m.xact.ts.blockState with
  | manual =>
    rw [hb] at hJ
    exact modify_at ⟨F.abortBlock m.xact (.inl hb) hm.1, hJ⟩
  | abortonly =>
    rw [hb] at hJ
    exact modify_at ⟨F.abortBlock m.xact (.inr hb) hm.1, hJ⟩
  | _ =>
    rw [hb] at hJ
    refine modify_at ⟨F.abandon m.xact ?_ hm.1, hJ⟩
    simpa [hb] using hA'

theorem commitBlock_flow (h : ∀ b c, J b c → K b.afterCommit c) :
    Triple (Holds N J) commitTransactionBlock (fun _ => Holds N K) (After R) := by
  refine .get fun m hm => ?_
  have hJ := h _ _ hm.2
  cases hb : m.xact.ts.blockState with
  | manual =>
    rw [hb] at hJ
    exact modify_at ⟨F.commitBlock m.xact hb hm.1, hJ⟩
  | abortonly =>
    rw [hb] at hJ
    exact modify_at ⟨F.abortBlock m.xact (.inr hb) hm.1, hJ⟩
  | _ => exact (elog_flow F _).of_eq hm

theorem closeSub_flow : Triple (Holds N J) closeSubTransaction (fun _ => Holds N J) (After R) := by
  refine (setState_flow F _).andThen ?_
  refine (point_flow F).andThen ?_
  exact setState_flow F _

/-! ## Resetting statements -/

theorem endExecutor_flow (i : Nat) (h : ∀ b c, J b c → K b.afterCommand (c.setPlanStage i .empty)) :
    Triple (Holds N J) (endExecutor i) (fun _ => Holds N K) (After R) := by
  refine (point_flow F).andThen ?_
  refine .andThen (S := Holds N fun b c => K b (c.setPlanStage i .empty)) (commitCommand_flow F h) ?_
  exact modifyConn_flow (fun _ _ hJ => hJ)

theorem wResetExecutor_cases (i : Nat)
    (hopen : ∀ b c, J b c → (c.plan i).isOpen → K b.afterCommand (c.setPlanStage i .empty))
    (hclosed : ∀ b c, J b c → ¬ (c.plan i).isOpen → K b c) :
    Triple (Holds N J) (wResetExecutor i) (fun _ => Holds N K) (After R) := by
  unfold wResetExecutor
  refine .get fun m hm => ?_
  refine .bind (Q := fun _ => Holds N K) ?_ fun _ => point_flow F
  refine .ite (fun ho => ?_) fun hc => pure_at ⟨hm.1, hclosed _ _ hm.2 hc⟩
  exact (endExecutor_flow (J := fun b c => J b c ∧ (c.plan i).isOpen) F i
    fun b c h => hopen b c h.1 h.2).of_eq ⟨hm.1, hm.2, ho⟩

theorem wResetExecutor_flow (i : Nat) (hJ : StageStable J) :
    Triple (Holds N J) (wResetExecutor i) (fun _ => Holds N J) (After R) :=
  wResetExecutor_cases F i (fun b c h _ => hJ.stage _ _ _ _ (hJ.command b c h)) (fun _ _ h _ => h)

theorem resetPlan_flow (err : Bool) (i : Nat) (hJ : PlanStable J) :
    Triple (Holds N J) (resetPlan err i) (fun _ => Holds N J) (After R) := by
  refine .andThen (S := Holds N J) ?_ ?_
  · exact .ite (fun _ => modifyConn_flow (fun b c h => hJ.plan b c i _ h)) (fun _ => .skip)
  refine (wResetExecutor_flow F i hJ.toStageStable).andThen ?_
  exact modifyConn_flow (fun b c h => hJ.plan b c i _ h)

theorem wResetQuery_flow (err : Bool) (hJ : PlanStable J) :
    Triple (Holds N J) (wResetQuery err) (fun _ => Holds N J) (After R) := by
  refine .get fun m hm => ?_
  refine .andThen (S := Holds N J) ?_ ?_
  · exact (Triple.forM _ fun i _ => resetPlan_flow F err i hJ).of_eq hm
  refine (modifyConn_flow fun b c h => hJ.inselect b c none h).andThen ?_
  exact point_flow F

theorem wResetQuery_closed (b₀ : BlockState) : Triple (Holds N fun b c => b = b₀ ∧ AllClosed c) (wResetQuery false)
      (fun _ => Holds N fun b c => b = b₀ ∧ AllClosed c) (After R) := by
  unfold wResetQuery
  refine Triple.get fun m hm => ?_
  refine Triple.andThen (S := Holds N fun b c => b = b₀ ∧ AllClosed c) ?_ ?_
  · refine (Triple.forM _ fun i _ => ?_).of_eq hm
    unfold resetPlan
    refine (wResetExecutor_cases F i (fun b c h ho => ?_) fun _ _ h _ => h).andThen ?_
    · rw [h.2 i] at ho
      cases ho
    exact modifyConn_flow fun b c h => ⟨h.1, h.2.setPlan i _ (clear_isOpen _ (h.2 i))⟩
  refine Triple.andThen (modifyConn_keeps fun _ _ h => h) ?_
  exact point_flow F

end

end WeaverDB.Session
