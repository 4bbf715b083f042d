import WeaverDB.Foundations.Runs
import WeaverDB.Session.Transaction

/-! # Calls on a connection (`env/WeaverConnection.c`)

A call runs between the macros `READY` and `RELEASE`. `READY` installs the handler, which marks the
connection and the block abort-only, ends the transaction command and resets every prepared statement.
An error inside the handler jumps to it again (`recover`), once for each of the `faults` at most. The
input of a call holds what the model does not compute. `System` is a family of connections that share
the id counter.
-/

namespace WeaverDB.Session
open Foundations

def Connection.setStage (c : Connection) (st : TransactionStage) : Connection := { c with stage := st }

def Connection.setInselect (c : Connection) (i : Option Nat) : Connection := { c with inselect := i }

def Connection.setPlan (c : Connection) (i : Nat) (p : PreparedPlan) : Connection :=
  { c with plan := Function.update c.plan i p }

def Connection.setPlanStage (c : Connection) (i : Nat) (st : StatementStage) : Connection :=
  c.setPlan i { c.plan i with stage := st }

def Connection.setOwner (c : Connection) (t : Option Nat) : Connection := { c with transactionOwner := t }

def PreparedPlan.clear (p : PreparedPlan) : PreparedPlan :=
  if p.nodeCxt then { stage := .new, nodeCxt := false, querytreelist := [] } else p

def PreparedPlan.isOpen (p : PreparedPlan) : Bool := p.stage == .exec || p.stage == .fetch

def modifyConn (f : Connection → Connection) : M Unit := modify fun m => { m with conn := f m.conn }

/-- `ExecutorEnd` of an open statement, and its transaction command. -/
def endExecutor (i : Nat) : M Unit := do
  -- ExecutorEnd
  point
  commitTransactionCommand
  modifyConn (·.setPlanStage i .empty)

def wResetExecutor (i : Nat) : M Unit := do
  let m ← get
  (if (m.conn.plan i).isOpen then endExecutor i else pure ())
  point

def clearPlan (i : Nat) : M Unit := modifyConn fun c => c.setPlan i (c.plan i).clear

def resetPlan (err : Bool) (i : Nat) : M Unit := do
  (if err then modifyConn (·.setPlanStage i .abort) else pure ())
  wResetExecutor i
  clearPlan i

/-- All prepared statements are reset, as failed ones if `err`. -/
def wResetQuery (err : Bool) : M Unit := do
  let m ← get
  (List.range m.conn.nplans).forM (resetPlan err)
  modifyConn (·.setInselect none)
  point

/-- The handler that `READY` installs. -/
def handleError (usingTransaction : Bool) : M Unit := do
  modifyConn (·.setStage .abortonly)
  setAbortOnly
  (if usingTransaction then commitTransactionCommand else pure ())
  wResetQuery true

/-- An error inside the handler comes to it again. -/
def recover (usingTransaction : Bool) : Nat → ElogError → M Nat
  | 0, e => throw e
  | n + 1, e => tryCatch (do handleError usingTransaction; pure e.code) (recover usingTransaction n)

/-- A call between `READY` and `RELEASE`. -/
def ready (usingTransaction : Bool) (body : M Nat) : M Nat :=
  tryCatch
    (do
      (if usingTransaction then startTransactionCommand else pure ())
      body)
    (fun e => do
      let m ← get
      recover usingTransaction (m.faults.length+1) e)

/-- What a sub-connection knows of its parent. -/
structure Parent where
  stage : TransactionStage
  ts : TransactionState

structure Caller where
  self : Nat
  parent : Option Parent

/-- Another thread owns the transaction. -/
def checkThreadContext (self : Nat) (c : Connection) : Bool :=
  match c.transactionOwner with
  | none => false
  | some t => t != self

def wBegin (caller : Caller) : M Nat := do
  let m ← get
  if m.conn.transactionOwner.isSome then pure 454
  else ready true do
    (match caller.parent with
      | none => do
        wResetQuery false
        beginTransactionBlock
      | some p =>
        if p.stage = .invalid then elog "parent transaction is not in a transaction"
        else cloneParentTransaction p.ts)
    modifyConn fun c => (c.setOwner (some caller.self)).setStage .begin
    commitTransactionCommand
    pure 0

def performAct : UtilityAct → M Unit
  | .commitTransactionCommand => do
    point
    commitTransactionCommand
  | .startTransactionCommand => do
    point
    startTransactionCommand

def processUtility : UtilityStmt → M Unit
  | .beginTrans => do
    let m ← get
    (if isAbortedTransactionBlockState m.xact.ts then pure () else beginTransactionBlock)
  | .commit => commitTransactionBlock
  | .rollback => abortTransactionBlock
  | .other acts => do
    acts.forM performAct
    point

def execQuery (i : Nat) : Query → M Unit
  | .utility stmt => do
    processUtility stmt
    point
    commitTransactionCommand
  | .modify => do
    modifyConn (·.setPlanStage i .exec)
    -- the executor, from TransferExecArgs to the last ExecProcNode
    point
    wResetExecutor i
  | .select => do
    modifyConn (·.setPlanStage i .exec)
    point
    modifyConn fun c => (c.setInselect (some i)).setPlanStage i .fetch

def parsePlan (i : Nat) (parsed : List Query) : M Unit := do
  let m ← get
  (if (m.conn.plan i).nodeCxt then pure ()
    else do
      modifyConn fun c => c.setPlan i { c.plan i with nodeCxt := true }
      point
      (if parsed.isEmpty then elog "parsing error" else pure ())
      modifyConn fun c => c.setPlan i { c.plan i with querytreelist := parsed })
  modifyConn (·.setPlanStage i .parsed)

def closeInselect : Option Nat → M Unit
  | none => pure ()
  | some j => do
    wResetExecutor j
    modifyConn (·.setInselect none)

def startExec (i : Nat) : M Unit := do
  let m ← get
  closeInselect m.conn.inselect
  wResetExecutor i
  -- CheckForCancel
  point
  startTransactionCommand

def runPlan (i : Nat) (parsed : List Query) : M Nat := do
  parsePlan i parsed
  -- SetQuerySnapshot
  point
  let m ← get
  (m.conn.plan i).querytreelist.forM (execQuery i)
  -- `needsCommit` is still set only if the loop made no round
  (if (m.conn.plan i).querytreelist.isEmpty then commitTransactionCommand else pure ())
  pure 0

def wExec (caller : Caller) (i : Nat) (parsed : List Query) : M Nat := do
  let m ← get
  if m.conn.stage = .abortonly then pure 456
  else if checkThreadContext caller.self m.conn then pure 454
  else ready false do
    startExec i
    runPlan i parsed

def fetchTuple (i : Nat) (eod : Bool) : M Nat := do
  point
  let m ← get
  (if (m.conn.plan i).stage = .eod then codedElog 1405 "end of data already reached" else pure ())
  -- ExecProcNode
  point
  if eod then do
    wResetExecutor i
    modifyConn fun c => (c.setInselect none).setPlanStage i .eod
    pure 4
  else do
    -- the transfer of the columns
    point
    modifyConn (·.setPlanStage i .fetch)
    pure 0

def wFetch (caller : Caller) (i : Nat) (eod : Bool) : M Nat := do
  let m ← get
  if checkThreadContext caller.self m.conn then pure 454
  else ready false do
    let m ← get
    if (m.conn.plan i).stage ≠ .fetch then elog "statement must be executed first executed"
    else if m.conn.inselect = none then elog "no statement executed"
    else if m.conn.inselect ≠ some i then
      elog "cannot mix multiple select statements on the same connection"
    else fetchTuple i eod

def refuseInvalidStage : M Unit := do
  let m ← get
  if m.conn.stage = .invalid then elog "connection is currently in an invalid state for commit"
  else pure ()

def forgetTransaction : M Unit := modifyConn fun c => (c.setStage .invalid).setOwner none

def wCommit (caller : Caller) : M Nat := do
  let m ← get
  if checkThreadContext caller.self m.conn then pure 454
  else do
    let err ← ready true do
      refuseInvalidStage
      point
      wResetQuery false
      (if caller.parent.isNone then do
          modifyConn (·.setStage .commit)
          commitTransactionBlock
        else closeSubTransaction)
      commitTransactionCommand
      pure 0
    forgetTransaction
    pure err

def rollbackBlock (caller : Caller) : M Unit := do
  wResetQuery false
  if caller.parent.isNone then abortTransactionBlock else closeSubTransaction

def wRollback (caller : Caller) : M Nat := do
  let m ← get
  if checkThreadContext caller.self m.conn then pure 454
  else do
    let err ← ready true do
      refuseInvalidStage
      modifyConn (·.setStage .abort)
      let m ← get
      (if currentXactInProgress m.xact.ts then rollbackBlock caller else pure ())
      commitTransactionCommand
      pure 0
    forgetTransaction
    pure err

inductive Call where
  | wBegin
  | wExec (plan : Nat) (parsed : List Query)
  | wFetch (plan : Nat) (eod : Bool)
  | wCommit
  | wRollback
  deriving DecidableEq, Repr

def Call.run (caller : Caller) : Call → M Nat
  | .wBegin => Session.wBegin caller
  | .wExec i parsed => Session.wExec caller i parsed
  | .wFetch i eod => Session.wFetch caller i eod
  | .wCommit => Session.wCommit caller
  | .wRollback => Session.wRollback caller

/-- A sub-connection cannot spawn children. -/
structure Family where
  parent : Nat → Option Nat
  flat : ∀ c p, parent c = some p → parent p = none

structure Env where
  conn : Connection
  ts : TransactionState
  log : List Event

structure System where
  env : Nat → Env
  nextXid : Nat

/-- A call with what the model does not compute: the thread and the errors. -/
structure Input where
  call : Call
  self : Nat
  faults : List (Option ElogError)
  startFaults : List (Option ElogError)
  deriving DecidableEq

def Family.caller (fam : Family) (sys : System) (c : Nat) (inp : Input) : Caller where
  self := inp.self
  parent := (fam.parent c).map fun p => ⟨(sys.env p).conn.stage, (sys.env p).ts⟩

def System.machine (sys : System) (c : Nat) (inp : Input) : Machine where
  xact :=
    { ts := (sys.env c).ts
      nextXid := sys.nextXid
      startFaults := inp.startFaults
      log := (sys.env c).log }
  conn := (sys.env c).conn
  faults := inp.faults

def System.store (sys : System) (c : Nat) (m : Machine) : System where
  env := Function.update sys.env c ⟨m.conn, m.xact.ts, m.xact.log⟩
  nextXid := m.xact.nextXid

def Family.perform (fam : Family) (sys : System) (c : Nat) (inp : Input) : Except ElogError Nat × Machine :=
  exec (inp.call.run (fam.caller sys c inp)) (sys.machine c inp)

/-- One call on one connection; the label says which, and what the call returned. -/
inductive Step (fam : Family) : System → Nat × Input × Nat → System → Prop where
  | call (sys : System) (c : Nat) (inp : Input) (err : Nat) (m : Machine)
      (h : fam.perform sys c inp = (.ok err, m)) : Step fam sys (c, inp, err) (sys.store c m)

theorem Step.of_ok (fam : Family) (sys : System) (c : Nat) (inp : Input) (err : Nat)
    (h : (fam.perform sys c inp).1 = .ok err) :
    Step fam sys (c, inp, err) (sys.store c (fam.perform sys c inp).2) :=
  Step.call sys c inp err _ (Prod.ext h rfl)

def freshConnection (nplans : Nat) : Connection where
  stage := .invalid
  transactionOwner := none
  nplans := nplans
  plan := fun _ => ⟨.new, false, []⟩
  inselect := none

def System.init (nplans : Nat → Nat) (nextXid : Nat) : System where
  env := fun c => ⟨freshConnection (nplans c), currentTransactionStateData, []⟩
  nextXid := nextXid

def Family.solo : Family where
  parent := fun _ => none
  flat := fun _ _ h => by cases h

def cancelledInsert : Input where
  call := .wExec 0 [.modify]
  self := 1
  faults := [none, none, none, none, none, some ⟨100, "Query Cancelled"⟩]
  startFaults := []

def undisturbed (call : Call) : Input where
  call := call
  self := 1
  faults := []
  startFaults := []

def Family.pair : Family where
  parent := fun c => if c = 1 then some 0 else none
  flat := by
    intro c p h
    split_ifs at h
    cases h
    rfl

end WeaverDB.Session
