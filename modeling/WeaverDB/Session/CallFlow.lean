import WeaverDB.Session.Flow

/-! # Following an invariant through whole calls

The handler brings the state after an error back under the invariant. `N` is the invariant between calls
and `N'` the one inside a transaction command that was started outside an aborted block (`Phases`).
`Resting` holds between any two calls: only an abort-only connection has an aborted block.
-/

namespace WeaverDB.Session
open Foundations

variable {b b₀ : BlockState} {c : Connection} {fam : Family} {P : Machine → Prop} {m : Machine}
  {sys : System} {Q : Nat → Machine → Prop} {parsed qs : List Query} {err i : Nat} {body : M Nat}
  {inp : Input}

structure Phases (N N' R : Xact → Prop) (B A : BlockState → Prop) : Prop where
  outer : Flow N R (fun _ => False) A
  inner : Flow N' R B A
  enter : ∀ x : Xact, x.ts.blockState = .auto ∨ x.ts.blockState = .manual → N x → N' x
  leave : ∀ x : Xact, N' x → N x
  recovered : ∀ x : Xact, R x → N (x.setBlockState x.ts.blockState.abortOnly)

/-- Where the handler leaves a connection, and whether it ended the command. -/
def Handled (usingTransaction : Bool) (b : BlockState) (c : Connection) : Prop :=
  c.stage = .abortonly ∧ (b = .default ∨ usingTransaction = false ∧ b.isAborted)

def Quiet (b : BlockState) : Prop := b = .default ∨ b = .auto ∨ b = .manual

def Resting (b : BlockState) (c : Connection) : Prop := Quiet b ∨ b.isAborted ∧ c.stage = .abortonly

theorem afterCommand_cases (b : BlockState) : b.afterCommand = .default ∨ b.afterCommand = .manual := by
  cases b <;> simp [BlockState.afterCommand]

theorem afterCommand_quiet (b : BlockState) : Quiet b.afterCommand := by
  cases b <;> simp [BlockState.afterCommand, Quiet]

theorem abortOnly_cases (b : BlockState) : b.abortOnly = .default ∨ b.abortOnly.isAborted := by
  cases b <;> simp [BlockState.abortOnly, BlockState.isAborted]

theorem isAborted_afterCommand (h : b.isAborted) : b.afterCommand = .default := by
  cases b <;> simp_all [BlockState.isAborted, BlockState.afterCommand]

theorem Handled.planStable (u : Bool) : PlanStable (Handled u) where
  command := by
    intro b c h
    refine ⟨h.1, .inl ?_⟩
    cases h.2 with
    | inl hb => rw [hb]; rfl
    | inr hb => exact isAborted_afterCommand hb.2
  plan := fun _ _ _ _ h => h
  inselect := fun _ _ _ h => h

theorem Handled.resting {u : Bool} (h : Handled u b c) : Resting b c := by
  cases h.2 with
  | inl hb => exact .inl (.inl hb)
  | inr hb => exact .inr ⟨hb.2, h.1⟩

section
variable {N N' R : Xact → Prop} {B A : BlockState → Prop} {J K : BlockState → Connection → Prop}

section

variable (hp : Phases N N' R B A)
include hp

theorem Flow.holds_leave (h : Holds N' J m) : Holds N J m := ⟨hp.leave _ h.1, h.2⟩

/-! ## The handler -/

variable (u : Bool)

theorem handleError_flow : Triple (After R) (handleError u) (fun _ => Holds N (Handled u)) (After R) := by
  unfold handleError
  refine .bind (Q := fun _ m => R m.xact ∧ m.conn.stage = .abortonly) ?_ fun _ => ?_
  · exact .modify fun _ hm => ⟨hm, rfl⟩
  refine .andThen (S := Holds N (Handled false)) ?_ ?_
  · refine .modify fun m hm => ⟨hp.recovered m.xact hm.1, hm.2, ?_⟩
    cases abortOnly_cases m.xact.ts.blockState with
    | inl hb => exact .inl hb
    | inr hb => exact .inr ⟨rfl, hb⟩
  refine .bind (Q := fun _ => Holds N (Handled u)) ?_ fun _ => wResetQuery_flow hp.outer true (Handled.planStable u)
  cases u with
  | false => exact .skip
  | true =>
    refine commitCommand_flow hp.outer fun b c h => ⟨h.1, .inl ?_⟩
    cases h.2 with
    | inl hb => rw [hb]; rfl
    | inr hb => exact isAborted_afterCommand hb.2

theorem recover_flow (hQ : ∀ err m, Holds N (Handled u) m → Q err m) (n : Nat) :
    ∀ e, Triple (After R) (recover u n e) Q (After R) := by
  induction n with
  | zero => exact fun e => .throw fun _ hs => hs
  | succ n ih =>
    intro e
    refine .tryCatch (D := After R) ?_ ih
    exact .bind (handleError_flow hp u) (fun _ => .pure fun m hm => hQ _ m hm)

theorem ready_flow (hQ : ∀ err m, Holds N (Handled u) m → Q err m) (hbody : Triple P
      (do
        (if u then startTransactionCommand else pure ())
        body) Q (After R)) :
    Triple P (ready u body) Q (After R) :=
  .tryCatch hbody (fun e => .get fun _ hm => (recover_flow hp u hQ _ e).of_eq hm)

end

/-! ## `WBegin` -/

theorem clone_flow (F : Flow N R B A) (p : TransactionState) (hclone : ∀ x, N x → N { x with ts := p }) :
    Triple (Holds N J) (cloneParentTransaction p) (fun _ => Holds N fun _ _ => True) (After R) := by
  refine .bind (Q := fun _ => Holds N fun _ _ => True) ?_ fun _ => point_flow F
  exact .modify (fun m hm => ⟨hclone _ hm.1, trivial⟩)

theorem quiet_afterStart (h : Quiet b) : b.afterStart = .auto ∨ b.afterStart = .manual := by
  obtain rfl | rfl | rfl := h <;> simp [BlockState.afterStart]

theorem enter_flow (hp : Phases N N' R B A) (hq : ∀ b c, J b c → Quiet b) (h : ∀ b c, J b c → K b.afterStart c) :
    Triple (Holds N J) startTransactionCommand (fun _ => Holds N' K) (After R) := by
  refine (startCommand_flow (K := fun b c => (b = .auto ∨ b = .manual) ∧ K b c) hp.outer ?_).weaken
    fun _ m hm => ⟨hp.enter _ hm.2.1 hm.1, hm.2.2⟩
  exact fun b c hJ => ⟨quiet_afterStart (hq b c hJ), h b c hJ⟩

theorem wBegin_flow (hp : Phases N N' R B A) (caller : Caller)
    {L : BlockState → Connection → Prop} (hstart : ∀ b c, J b c → K b.afterStart c)
    (henter : caller.parent = none → Triple (Holds N J) startTransactionCommand (fun _ => Holds N' K) (After R))
    (hreset : caller.parent = none → Triple (Holds N' K) (wResetQuery false) (fun _ => Holds N' L) (After R))
    (hB : ∀ b c, L b c → B b)
    (hclone : ∀ b c, J b c → ∀ p, caller.parent = some p → p.stage ≠ .invalid → ∀ x, N x → N { x with ts := p.ts }) :
    Triple (Holds N (fun b c => (c.transactionOwner = none → J b c) ∧ Resting b c)) (wBegin caller)
      (fun _ => Holds N Resting) (After R) := by
  unfold wBegin
  refine .get (fun m hm => ?_)
  refine .ite (fun _ => pure_at ⟨hm.1, hm.2.2⟩) (fun howner => ?_)
  refine ready_flow hp true (fun _ _ h => ⟨h.1, h.2.resting⟩) ?_
  have hm' : Holds N J m := ⟨hm.1, hm.2.1 (by simpa using howner)⟩
  cases hpar : caller.parent with
  | none =>
    refine ((henter hpar).of_eq hm').andThen ?_
    refine .andThen (S := Holds N' (fun _ _ => True)) ?_ ?_
    · refine (hreset hpar).andThen ?_
      exact beginBlock_flow hp.inner hB (fun _ _ _ => trivial)
    refine .andThen (modifyConn_keeps (fun _ _ h => h)) ?_
    refine .bind (commitCommand_flow (K := Resting) hp.inner (fun b _ _ => .inl (afterCommand_quiet b))) (fun _ => ?_)
    exact .pure (fun _ hs => Flow.holds_leave hp hs)
  | some p =>
    refine ((startCommand_flow (K := K) hp.outer hstart).of_eq hm').andThen ?_
    refine .andThen (S := Holds N (fun _ _ => True)) ?_ ?_
    · exact .ite (fun _ => elog_flow hp.outer _) (fun hst => clone_flow hp.outer p.ts (hclone _ _ hm'.2 p hpar hst))
    refine .andThen (modifyConn_keeps (fun _ _ h => h)) ?_
    exact .returning (commitCommand_flow hp.outer (fun b _ _ => .inl (afterCommand_quiet b)))

/-! ## `WExec` -/

/-- The queries of a `WExec`: those of the earlier parse, if the statement has it. -/
def queriesOf (c : Connection) (i : Nat) (parsed : List Query) : List Query :=
  if (c.plan i).nodeCxt then (c.plan i).querytreelist else parsed

/-- `BEGIN` and `ROLLBACK` are issued only in block states that `B` and `A` allow. -/
def AdmitsQuery (B A : BlockState → Prop) (b : BlockState) : Query → Prop
  | .utility .beginTrans => b.isAborted = false → B b
  | .utility .rollback => b = .manual ∨ b = .abortonly ∨ A b
  | _ => True

def Admits (B A : BlockState → Prop) : BlockState → List Query → Prop
  | _, [] => True
  | b, q :: qs => AdmitsQuery B A b q ∧ Admits B A (b.afterQuery q) qs

section

variable (F : Flow N R B A)
include F

theorem performActs_flow (acts : List UtilityAct) : ∀ b, Triple (Holds N fun b' _ => b' = b) (acts.forM performAct)
      (fun _ => Holds N fun b' _ => b' = acts.foldl BlockState.afterAct b) (After R) := by
  induction acts with
  | nil => exact fun b => .skip
  | cons a acts ih =>
    intro b
    change Triple _ (performAct a >>= fun _ => acts.forM performAct) _ _
    refine .bind (Q := fun _ => Holds N fun b' _ => b' = b.afterAct a) ?_ fun _ => ih _
    cases a with
    | commitTransactionCommand =>
      refine (point_flow F).andThen ?_
      exact commitCommand_flow F fun b' _ h => h ▸ rfl
    | startTransactionCommand =>
      refine (point_flow F).andThen ?_
      exact startCommand_flow F (fun b' _ h => h ▸ rfl)

theorem processUtility_flow {stmt : UtilityStmt} (hadm : AdmitsQuery B A b (.utility stmt)) :
    Triple (Holds N fun b' _ => b' = b) (processUtility stmt)
      (fun _ => Holds N fun b' _ => b' = b.afterUtility stmt) (After R) := by
  cases stmt with
  | beginTrans =>
    refine .get fun m hm => ?_
    have hab : isAbortedTransactionBlockState m.xact.ts = b.isAborted := by
      rw [← hm.2]
      rfl
    refine .ite (fun h => pure_at ⟨hm.1, ?_⟩) fun h => ?_
    · rw [hab] at h
      rw [hm.2, BlockState.afterUtility, BlockState.afterBegin, if_pos h]
    · rw [hab] at h
      have hB : B b := hadm (by simpa using h)
      refine (beginBlock_flow F (fun b' _ h' => by rw [h']; exact hB) fun b' _ h' => ?_).of_eq hm
      rw [BlockState.afterUtility, BlockState.afterBegin, if_neg h]
  | commit => exact commitBlock_flow F fun b' _ h => h ▸ rfl
  | rollback => exact abortBlock_flow F (fun b' _ h => by rw [h]; exact hadm) fun b' _ h => h ▸ rfl
  | other acts =>
    refine (performActs_flow F acts b).andThen ?_
    exact point_flow F

theorem execQuery_flow (i : Nat) {q : Query} (hadm : AdmitsQuery B A b q) :
    Triple (Holds N fun b' _ => b' = b) (execQuery i q)
      (fun _ => Holds N fun b' _ => b' = b.afterQuery q) (After R) := by
  cases q with
  | utility stmt =>
    refine (processUtility_flow F hadm).andThen ?_
    refine (point_flow F).andThen ?_
    exact commitCommand_flow F fun b' _ h => h ▸ rfl
  | modify =>
    refine .andThen (S := Holds N fun b' c => b' = b ∧ (c.plan i).isOpen) (modifyConn_flow fun b' c h => ⟨h, ?_⟩) ?_
    · simp [Connection.setPlanStage, Connection.setPlan, PreparedPlan.isOpen]
    refine (point_flow F).andThen ?_
    exact wResetExecutor_cases F i (fun b' _ h _ => by rw [h.1]; rfl) fun _ _ h hc => absurd h.2 hc
  | select =>
    refine .andThen (modifyConn_keeps fun _ _ h => h) ?_
    refine (point_flow F).andThen ?_
    exact modifyConn_flow (fun _ _ h => h)

theorem execQueries_flow (i : Nat) (qs : List Query) : ∀ b, Admits B A b qs →
      Triple (Holds N fun b' _ => b' = b) (qs.forM (execQuery i))
        (fun _ => Holds N fun b' _ => b' = qs.foldl BlockState.afterQuery b) (After R) := by
  induction qs with
  | nil => exact fun b _ => .skip
  | cons q qs ih =>
    intro b hadm
    exact .bind (execQuery_flow F i hadm.1) (fun _ => ih _ hadm.2)

end

theorem afterQuery_quiet (h : Quiet b) (q : Query) : Quiet (b.afterQuery q) := by
  cases q with
  | utility stmt => exact afterCommand_quiet _
  | modify => exact afterCommand_quiet _
  | select => exact h

theorem afterQueries_quiet (qs : List Query) : ∀ b, Quiet b → Quiet (qs.foldl BlockState.afterQuery b) := by
  induction qs with
  | nil => exact fun _ h => h
  | cons q qs ih => exact fun b h => ih _ (afterQuery_quiet h q)

theorem queriesOf_setPlanStage (c : Connection) (i j : Nat) (st : StatementStage)
    (parsed : List Query) : queriesOf (c.setPlanStage j st) i parsed = queriesOf c i parsed := by
  by_cases h : i = j
  · subst h
    simp [queriesOf, Connection.setPlanStage, Connection.setPlan]
  · simp [queriesOf, Connection.setPlanStage, Connection.setPlan, Function.update_of_ne h]

/-- Before its start, `WExec` ends at most the command of an open statement. -/
def BeforeStart (b₀ : BlockState) (i : Nat) (parsed qs : List Query) (b : BlockState) (c : Connection) : Prop :=
  (b = b₀ ∨ b = b₀.afterCommand) ∧ queriesOf c i parsed = qs

theorem BeforeStart.stageStable (b₀ : BlockState) (i : Nat) (parsed qs : List Query) :
    StageStable (BeforeStart b₀ i parsed qs) where
  command := by
    intro b c h
    refine ⟨.inr ?_, h.2⟩
    cases h.1 with
    | inl hb => rw [hb]
    | inr hb =>
      rw [hb]
      cases afterCommand_cases b₀ with
      | inl he => rw [he]; rfl
      | inr he => rw [he]; rfl
  stage := by
    intro b c j st h
    refine ⟨h.1, ?_⟩
    rw [queriesOf_setPlanStage]
    exact h.2

theorem BeforeStart.quiet (h₀ : Quiet b₀) (h : BeforeStart b₀ i parsed qs b c) : Quiet b := by
  cases h.1 with
  | inl hb => rw [hb]; exact h₀
  | inr hb => rw [hb]; exact afterCommand_quiet b₀

theorem BeforeStart.afterStart (h₀ : Quiet b₀) (h : BeforeStart b₀ i parsed qs b c) : b.afterStart = b₀.afterStart := by
  cases h.1 with
  | inl hb => rw [hb]
  | inr hb =>
    rw [hb]
    obtain rfl | rfl | rfl := h₀ <;> rfl

theorem startExec_flow (hp : Phases N N' R B A) (i : Nat) (parsed qs : List Query) (h₀ : Quiet b₀) :
    Triple (Holds N (BeforeStart b₀ i parsed qs)) (startExec i)
      (fun _ => Holds N' fun b c => b = b₀.afterStart ∧ queriesOf c i parsed = qs) (After R) := by
  have hst := BeforeStart.stageStable b₀ i parsed qs
  unfold startExec
  refine .get fun m hm => ?_
  refine .andThen (S := Holds N (BeforeStart b₀ i parsed qs)) ?_ ?_
  · cases m.conn.inselect with
    | none =>
      exact pure_at hm
    | some j =>
      refine ((wResetExecutor_flow hp.outer j hst).of_eq hm).andThen ?_
      exact modifyConn_flow fun _ _ h => h
  refine (wResetExecutor_flow hp.outer i hst).andThen ?_
  refine (point_flow hp.outer).andThen ?_
  exact enter_flow hp (fun _ _ h => h.quiet h₀) (fun _ _ h => ⟨h.afterStart h₀, h.2⟩)

theorem parsePlan_flow (F : Flow N R B A) (i : Nat) (parsed qs : List Query) (b₀ : BlockState) :
    Triple (Holds N fun b c => b = b₀ ∧ queriesOf c i parsed = qs) (parsePlan i parsed)
      (fun _ => Holds N fun b c => b = b₀ ∧ (c.plan i).querytreelist = qs) (After R) := by
  unfold parsePlan
  refine .get fun m hm => ?_
  obtain ⟨hN, hb, hqs⟩ := hm
  refine .bind (Q := fun _ => Holds N fun b c => b = b₀ ∧ (c.plan i).querytreelist = qs) ?_
    fun _ => modifyConn_flow fun b c h => ⟨h.1, ?_⟩
  · refine .ite (fun hn => pure_at ⟨hN, hb, ?_⟩) fun hn => ?_
    · rw [queriesOf, if_pos hn] at hqs
      exact hqs
    · rw [queriesOf, if_neg hn] at hqs
      have hm' : Holds N (fun b _ => b = b₀) m := ⟨hN, hb⟩
      refine .andThen (S := Holds N fun b _ => b = b₀) ?_ ?_
      · exact modify_at hm'
      refine (point_flow F).andThen ?_
      refine .andThen (S := Holds N fun b _ => b = b₀) ?_ ?_
      · exact .ite (fun _ => elog_flow F _) fun _ => .skip
      refine modifyConn_flow fun b c h => ⟨h, ?_⟩
      simpa [Connection.setPlan] using hqs
  · simpa [Connection.setPlanStage, Connection.setPlan] using h.2

theorem runPlan_flow (F : Flow N R B A) (i : Nat) (parsed : List Query) (h₀ : Quiet b₀) (hadm : Admits B A b₀ qs) :
    Triple (Holds N fun b c => b = b₀ ∧ queriesOf c i parsed = qs) (runPlan i parsed)
      (fun _ => Holds N fun b _ => Quiet b) (After R) := by
  unfold runPlan
  refine (parsePlan_flow F i parsed qs b₀).andThen ?_
  refine (point_flow F).andThen ?_
  refine .get fun m hm => ?_
  obtain ⟨hN, hb, hqs⟩ := hm
  have hm' : Holds N (fun b _ => b = b₀) m := ⟨hN, hb⟩
  rw [hqs]
  refine .andThen (S := Holds N fun b _ => Quiet b) ?_ ?_
  · refine ((execQueries_flow F i qs b₀ hadm).of_eq hm').weaken fun _ s hs => ⟨hs.1, ?_⟩
    rw [hs.2]
    exact afterQueries_quiet qs b₀ h₀
  refine .returning (.ite (fun _ => ?_) fun _ => .skip)
  exact commitCommand_flow F (fun b _ _ => afterCommand_quiet b)

theorem wExec_flow (hp : Phases N N' R B A) (caller : Caller) (i : Nat) (parsed : List Query)
    (hadm : ∀ b c, J b c → Admits B A b.afterStart (queriesOf c i parsed)) :
    Triple (Holds N fun b c => (c.stage ≠ .abortonly → J b c) ∧ Resting b c)
      (wExec caller i parsed) (fun _ => Holds N Resting) (After R) := by
  unfold wExec
  refine .get fun m hm => ?_
  obtain ⟨hN, hJ, hrest⟩ := hm
  refine .ite (fun _ => pure_at ⟨hN, hrest⟩) fun hstage => ?_
  refine .ite (fun _ => pure_at ⟨hN, hrest⟩) fun _ => ?_
  have h₀ : Quiet m.xact.ts.blockState := by
    cases hrest with
    | inl h => exact h
    | inr h => exact absurd h.2 hstage
  have h₁ : Quiet m.xact.ts.blockState.afterStart := by
    cases quiet_afterStart h₀ with
    | inl h => exact .inr (.inl h)
    | inr h => exact .inr (.inr h)
  refine ready_flow hp false (fun _ _ h => ⟨h.1, h.2.resting⟩) ?_
  refine .bind (Q := fun _ s => s = m) (.skip) fun _ => ?_
  have hm' : Holds N (BeforeStart m.xact.ts.blockState i parsed (queriesOf m.conn i parsed)) m := ⟨hN, .inl rfl, rfl⟩
  refine ((startExec_flow hp i parsed _ h₀).of_eq hm').andThen ?_
  refine (runPlan_flow hp.inner i parsed h₁ (hadm _ _ (hJ hstage))).weaken fun _ s hs => ?_
  exact ⟨hp.leave _ hs.1, .inl hs.2⟩

/-! ## `WFetch` -/

theorem Resting.planStable : PlanStable Resting where
  command := fun b _ _ => .inl (afterCommand_quiet b)
  plan := fun _ _ _ _ h => h
  inselect := fun _ _ _ h => h

theorem fetchTuple_flow (F : Flow N R B A) (i : Nat) (eod : Bool) :
    Triple (Holds N Resting) (fetchTuple i eod) (fun _ => Holds N Resting) (After R) := by
  unfold fetchTuple
  refine (point_flow F).andThen ?_
  refine .get fun m hm => ?_
  refine .andThen (S := Holds N Resting) ?_ ?_
  · exact .ite (fun _ => (raise_flow F _).of_eq hm) fun _ => pure_at hm
  refine (point_flow F).andThen ?_
  refine .ite (fun _ => ?_) fun _ => ?_
  · refine (wResetExecutor_flow F i Resting.planStable.toStageStable).andThen ?_
    exact .returning (modifyConn_keeps fun _ _ h => h)
  · refine (point_flow F).andThen ?_
    exact .returning (modifyConn_keeps fun _ _ h => h)

theorem wFetch_flow (hp : Phases N N' R B A) (caller : Caller) (i : Nat) (eod : Bool) :
    Triple (Holds N Resting) (wFetch caller i eod) (fun _ => Holds N Resting) (After R) := by
  unfold wFetch
  refine .get fun m hm => ?_
  refine .ite (fun _ => pure_at hm) fun _ => ?_
  refine ready_flow hp false (fun _ _ h => ⟨h.1, h.2.resting⟩) ?_
  refine .bind (Q := fun _ s => s = m) (.skip) fun _ => ?_
  refine .get fun s hs => ?_
  rw [hs]
  refine .ite (fun _ => (elog_flow hp.outer _).of_eq hm) fun _ => ?_
  refine .ite (fun _ => (elog_flow hp.outer _).of_eq hm) fun _ => ?_
  refine .ite (fun _ => (elog_flow hp.outer _).of_eq hm) fun _ => ?_
  exact (fetchTuple_flow hp.outer i eod).of_eq hm

/-! ## `WCommit` and `WRollback` -/

theorem refuseInvalidStage_flow (F : Flow N R B A) (h : ∀ b c, J b c → c.stage ≠ .invalid → K b c) :
    Triple (Holds N J) refuseInvalidStage (fun _ => Holds N K) (After R) := by
  refine .get fun m hm => ?_
  exact .ite (fun _ => (elog_flow F _).of_eq hm) (fun hst => pure_at ⟨hm.1, h _ _ hm.2 hst⟩)

theorem forget_flow (hp : Phases N N' R B A) (hbody : Triple P
      (do
        startTransactionCommand
        body) (fun _ => Holds N fun b _ => Quiet b) (After R)) :
    Triple P
      (do
        let err ← ready true body
        forgetTransaction
        pure err) (fun _ => Holds N Resting) (After R) := by
  refine .bind (Q := fun _ => Holds N fun b _ => Quiet b) ?_ fun err => ?_
  · refine ready_flow hp true (fun _ _ h => ⟨h.1, ?_⟩) hbody
    cases h.2.2 with
    | inl hb => exact .inl hb
    | inr hb => cases hb.1
  exact .returning (modifyConn_flow fun _ _ h => .inl h)

theorem anyPlanStable : PlanStable (fun _ _ => True) where
  command := fun _ _ _ => trivial
  plan := fun _ _ _ _ _ => trivial
  inselect := fun _ _ _ _ => trivial

theorem wCommit_flow (hp : Phases N N' R B A) (caller : Caller) :
    Triple (Holds N Resting) (wCommit caller) (fun _ => Holds N Resting) (After R) := by
  unfold wCommit
  refine .get fun m hm => ?_
  refine .ite (fun _ => pure_at hm) fun _ => ?_
  have hm' : Holds N (fun _ _ => True) m := ⟨hm.1, trivial⟩
  refine forget_flow hp ?_
  refine .andThen (S := Holds N fun _ _ => True) ((startCommand_flow hp.outer fun _ _ _ => trivial).of_eq hm') ?_
  refine .andThen (S := Holds N fun _ _ => True) (refuseInvalidStage_flow hp.outer fun _ _ _ _ => trivial) ?_
  refine (point_flow hp.outer).andThen ?_
  refine (wResetQuery_flow hp.outer false anyPlanStable).andThen ?_
  refine .andThen (S := Holds N fun _ _ => True) ?_ ?_
  · refine .ite (fun _ => ?_) fun _ => closeSub_flow hp.outer
    refine .andThen (modifyConn_keeps fun _ _ h => h) ?_
    exact commitBlock_flow hp.outer fun _ _ _ => trivial
  exact .returning (commitCommand_flow hp.outer fun b _ _ => afterCommand_quiet b)

theorem wRollback_flow (hp : Phases N N' R B A) (caller : Caller) {S : BlockState → Prop}
    (hS : ∀ b, S b → S b.afterCommand) (hA : ∀ b, S b → b = .manual ∨ b = .abortonly ∨ A b)
    (hJ : ∀ b c, J b c → caller.parent = none → c.stage ≠ .invalid → S b.afterStart) :
    Triple (Holds N fun b c => J b c ∧ Resting b c) (wRollback caller) (fun _ => Holds N Resting) (After R) := by
  have hstable : PlanStable (fun b _ => caller.parent = none → S b) :=
    ⟨fun b _ h hp => hS b (h hp), fun _ _ _ _ h => h, fun _ _ _ h => h⟩
  unfold wRollback
  refine .get fun m hm => ?_
  refine .ite (fun _ => pure_at ⟨hm.1, hm.2.2⟩) fun _ => ?_
  have hm' : Holds N J m := ⟨hm.1, hm.2.1⟩
  refine forget_flow hp ?_
  refine .bind (Q := fun _ => Holds N fun b c => caller.parent = none → c.stage ≠ .invalid → S b)
    ((startCommand_flow hp.outer hJ).of_eq hm') fun _ => ?_
  refine .andThen (S := Holds N fun b _ => caller.parent = none → S b)
    (refuseInvalidStage_flow hp.outer fun _ _ h hst hpar => h hpar hst) ?_
  refine .andThen (modifyConn_keeps fun _ _ h => h) ?_
  refine .get fun s hs => ?_
  refine .andThen (S := Holds N fun _ _ => True) ?_ ?_
  · refine .ite (fun _ => ?_) fun _ => pure_at ⟨hs.1, trivial⟩
    refine ((wResetQuery_flow hp.outer false hstable).of_eq hs).andThen ?_
    refine .ite (fun hpar => ?_) fun _ => ?_
    · have hnone : caller.parent = none := Option.isNone_iff_eq_none.mp hpar
      exact abortBlock_flow hp.outer (fun b _ h => hA b (h hnone)) fun _ _ _ => trivial
    · exact (closeSub_flow hp.outer).weaken fun _ t ht => ⟨ht.1, trivial⟩
  exact .returning (commitCommand_flow hp.outer fun b _ _ => afterCommand_quiet b)

/-! ## Any call -/

theorem admits_all (hB : ∀ b, B b) (hA : ∀ b, A b) (qs : List Query) : ∀ b, Admits B A b qs := by
  induction qs with
  | nil => exact fun _ => trivial
  | cons q qs ih =>
    refine fun b => ⟨?_, ih _⟩
    cases q with
    | utility stmt =>
      cases stmt with
      | beginTrans => exact fun _ => hB b
      | rollback => exact .inr (.inr (hA b))
      | commit => trivial
      | other acts => trivial
    | modify => trivial
    | select => trivial

/-- An invariant that no block state restricts, and no cloned state breaks, is kept by every call. -/
theorem call_flow_free (hp : Phases N N R B A) (hB : ∀ b, B b) (hA : ∀ b, A b)
    (hclone : ∀ (x : Xact) (ts : TransactionState), N x → N { x with ts := ts }) (caller : Caller)
    (call : Call) :
    Triple (Holds N Resting) (call.run caller) (fun _ => Holds N Resting) (After R) := by
  cases call with
  | wBegin =>
    refine (wBegin_flow (J := fun _ _ => True) (K := fun _ _ => True) (L := fun _ _ => True) hp
      caller (fun _ _ _ => trivial) (fun _ => ?_) (fun _ => ?_) (fun b _ _ => hB b)
      (fun _ _ _ p _ _ x hx => hclone x p.ts hx)).strengthen (fun _ h => ⟨h.1, fun _ => trivial, h.2⟩)
    · exact startCommand_flow hp.outer (fun _ _ _ => trivial)
    · exact wResetQuery_flow hp.outer false anyPlanStable
  | wExec i parsed =>
    exact (wExec_flow (J := fun _ _ => True) hp caller i parsed
      (fun _ _ _ => admits_all hB hA _ _)).strengthen (fun _ h => ⟨h.1, fun _ => trivial, h.2⟩)
  | wFetch i eod => exact wFetch_flow hp caller i eod
  | wCommit => exact wCommit_flow hp caller
  | wRollback =>
    exact (wRollback_flow (J := fun _ _ => True) (S := fun _ => True) hp caller (fun _ _ => trivial)
      (fun b _ => .inr (.inr (hA b))) (fun _ _ _ _ _ => trivial)).strengthen (fun _ h => ⟨h.1, trivial, h.2⟩)

end

/-! ## Every run of a family -/

theorem idsGrow_flow (n : Nat) (B : BlockState → Prop) :
    Flow (fun x => n ≤ x.nextXid) (fun x => n ≤ x.nextXid) B (fun _ => True) where
  frame := by
    intro x y hxy h
    rw [hxy.nextXid]
    exact h
  raise := fun _ h => h
  start := fun _ _ h => Nat.le_succ_of_le h
  startStep := fun _ _ _ h => h
  startRaise := fun _ _ _ _ h => h
  commitRun := fun _ _ h => h
  committed := fun _ _ h => h
  aborted := fun _ _ h => h
  begin := fun _ _ h => h
  commitBlock := fun _ _ h => h
  abortBlock := fun _ _ h => h
  abandon := fun _ _ h => h

theorem idsGrow_phases (n : Nat) : Phases (fun x => n ≤ x.nextXid) (fun x => n ≤ x.nextXid) (fun x => n ≤ x.nextXid)
      (fun _ => True) (fun _ => True) where
  outer := idsGrow_flow n _
  inner := idsGrow_flow n _
  enter := fun _ _ h => h
  leave := fun _ h => h
  recovered := fun _ h => h

theorem step_post {c : Nat} {E : Machine → Prop} (h : fam.perform sys c inp = (.ok err, m))
    (ht : Triple P (inp.call.run (fam.caller sys c inp)) Q E) (hP : P (sys.machine c inp)) :
    Q err m := by
  have hpost := ht _ hP
  rw [Family.perform] at h
  rw [h] at hpost
  exact hpost

def System.Resting (sys : System) : Prop := ∀ c, Session.Resting (sys.env c).ts.blockState (sys.env c).conn

theorem store_env_self (sys : System) (c : Nat) (m : Machine) :
    (sys.store c m).env c = ⟨m.conn, m.xact.ts, m.xact.log⟩ := Function.update_self _ _ _

theorem store_env_ne (sys : System) {c d : Nat} (m : Machine) (h : d ≠ c) :
    (sys.store c m).env d = sys.env d := Function.update_of_ne h _ _

theorem call_rests {c : Nat} (h : fam.perform sys c inp = (.ok err, m)) (hrest : sys.Resting) :
    sys.nextXid ≤ m.xact.nextXid ∧ Resting m.xact.ts.blockState m.conn :=
  step_post h (call_flow_free (idsGrow_phases sys.nextXid) (fun _ => trivial) (fun _ => trivial)
    (fun _ _ hx => hx) _ _) ⟨Nat.le_refl _, hrest c⟩

theorem step_resting {sys' : System} {l : Nat × Input × Nat}
    (hrest : sys.Resting) (hs : Step fam sys l sys') : sys'.Resting := by
  cases hs with
  | call c inp err m h =>
    intro d
    by_cases hd : d = c
    · subst hd
      rw [store_env_self]
      exact (call_rests h hrest).2
    · rw [store_env_ne _ _ hd]
      exact hrest d

theorem init_resting (nplans : Nat → Nat) (nextXid : Nat) : (System.init nplans nextXid).Resting :=
  fun _ => .inl (.inl rfl)

end WeaverDB.Session
