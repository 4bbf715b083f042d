import WeaverDB.Foundations.Raising

/-! # Transaction state of one environment (`access/transam/xact.c`)

`Machine` is what a call on a connection can change. An `elog(ERROR)` is a jump to the handler that the
call installed, so the code runs in the monad `M`. `point` stands for a stretch of code without a
modelled effect, and `faults` decides which of the points raise, and what. `elog(NOTICE)` is left out;
the transaction system is enabled.
-/

namespace WeaverDB.Session
open Foundations

structure ElogError where
  code : Nat
  text : String
  deriving DecidableEq, Repr

/-- `TRANS_DEFAULT`, …: the low-level state of the current transaction. -/
inductive TransState where
  | default | start | inprogress | commit | abort
  deriving DecidableEq, Repr

/-- `TBLOCK_DEFAULT`, …: the state of the transaction block. -/
inductive BlockState where
  | default | auto | manual | abort | commit | abortonly
  deriving DecidableEq, Repr

structure TransactionState where
  transactionIdData : Nat
  commandId : BitVec 32
  scanCommandId : BitVec 32
  state : TransState
  blockState : BlockState
  deriving DecidableEq, Repr

def firstCommandId : BitVec 32 := 0

def currentTransactionStateData : TransactionState where
  transactionIdData := 0
  commandId := firstCommandId
  scanCommandId := 0
  state := .default
  blockState := .default

inductive Event where
  | start (xid : Nat)
  | commitTransaction (xid : Nat)
  | committed (xid : Nat)
  | aborted (xid : Nat)
  | raised
  deriving DecidableEq, Repr

structure Xact where
  ts : TransactionState
  nextXid : Nat
  startFaults : List (Option ElogError)
  log : List Event

/-- `TRAN_BEGIN`, …: what a connection was last asked to do. -/
inductive TransactionStage where
  | begin | commit | abort | abortonly | invalid
  deriving DecidableEq, Repr

/-- `STMT_NEW`, …: how far a prepared statement has come. -/
inductive StatementStage where
  | new | parsed | exec | fetch | eod | empty | abort
  deriving DecidableEq, Repr

inductive UtilityAct where
  | commitTransactionCommand | startTransactionCommand
  deriving DecidableEq, Repr

/-- The transaction statements, or another one with the commands it issues. -/
inductive UtilityStmt where
  | beginTrans | commit | rollback
  | other (acts : List UtilityAct)
  deriving DecidableEq, Repr

inductive Query where
  | utility (stmt : UtilityStmt)
  | modify
  | select
  deriving DecidableEq, Repr

/-- A prepared statement; `nodeCxt`: it holds a parse result, `querytreelist`. -/
structure PreparedPlan where
  stage : StatementStage
  nodeCxt : Bool
  querytreelist : List Query
  deriving DecidableEq, Repr

structure Connection where
  stage : TransactionStage
  transactionOwner : Option Nat
  nplans : Nat
  plan : Nat → PreparedPlan
  inselect : Option Nat

structure Machine where
  xact : Xact
  conn : Connection
  faults : List (Option ElogError)

abbrev M := Raising Machine ElogError

def Xact.emit (x : Xact) (e : Event) : Xact := { x with log := x.log ++ [e] }

def Xact.setBlockState (x : Xact) (b : BlockState) : Xact := { x with ts := { x.ts with blockState := b } }

def Xact.setState (x : Xact) (st : TransState) : Xact := { x with ts := { x.ts with state := st } }

def Xact.assignXid (x : Xact) : Xact :=
  { x with
    ts := { x.ts with transactionIdData := x.nextXid }
    nextXid := x.nextXid+1
    log := x.log ++ [.start x.nextXid] }

def Xact.resetCommandIds (x : Xact) : Xact :=
  { x with ts := { x.ts with commandId := firstCommandId, scanCommandId := firstCommandId } }

def Xact.incrementCommandId (x : Xact) : Xact := { x with ts := { x.ts with commandId := x.ts.commandId + 1 } }

def Xact.catchUpScanCommandId (x : Xact) : Xact :=
  { x with ts := { x.ts with scanCommandId := x.ts.commandId } }

def modifyXact (f : Xact → Xact) : M Unit := modify fun m => { m with xact := f m.xact }

def setBlockState (b : BlockState) : M Unit := modifyXact (·.setBlockState b)

def setState (st : TransState) : M Unit := modifyXact (·.setState st)

def raise {α : Type} (e : ElogError) : M α := do
  modifyXact (·.emit .raised)
  throw e

/-- `elog(ERROR, text)`: without an error code the jump carries 100. -/
def elog {α : Type} (text : String) : M α := raise ⟨100, text⟩

def codedElog {α : Type} (code : Nat) (text : String) : M α := raise ⟨code, text⟩

def point : M Unit := do
  let m ← get
  match m.faults with
  | [] => pure ()
  | none :: fs => modify fun m => { m with faults := fs }
  | some e :: fs => do
    modify fun m => { m with faults := fs }
    raise e

def startPoint : M Unit := do
  let m ← get
  match m.xact.startFaults with
  | [] => pure ()
  | none :: fs => modifyXact fun x => { x with startFaults := fs }
  | some e :: fs => do
    modifyXact fun x => { x with startFaults := fs }
    raise e

def startTransaction : M Unit := do
  setState .start
  -- ResetReindexProcessing and GetNewTransactionId, up to the assignment
  point
  modifyXact Xact.assignXid
  -- ThreadTransactionStart and XactLockTableInsert
  startPoint
  modifyXact Xact.resetCommandIds
  -- AtStart_Locks up to DeferredTriggerBeginXact
  startPoint
  setState .inprogress

def currentXactInProgress (ts : TransactionState) : Bool := ts.state == .inprogress

def isAbortedTransactionBlockState (ts : TransactionState) : Bool :=
  ts.blockState == .abort || ts.blockState == .abortonly

def commitTransaction : M Unit := do
  modifyXact fun x => x.emit (.commitTransaction x.ts.transactionIdData)
  -- DeferredTriggerEndXact
  point
  setState .commit
  -- CancelDolHelpers up to ResetLocalBufferPool
  point
  modifyXact fun x => (x.setState .default).emit (.committed x.ts.transactionIdData)

def abortTransaction : M Unit := do
  point
  setState .abort
  point
  modifyXact fun x => (x.setState .default).emit (.aborted x.ts.transactionIdData)

def commandCounterIncrement : M Unit := do
  let m ← get
  if m.xact.ts.state = .inprogress then do
    modifyXact Xact.incrementCommandId
    let m ← get
    if m.xact.ts.commandId = firstCommandId then
      elog "You may only have 2^32-1 commands per transaction"
    else do
      modifyXact Xact.catchUpScanCommandId
      point
  else elog "Transaction not started"

def startTransactionCommand : M Unit := do
  let m ← get
  match m.xact.ts.blockState with
  | .default => do
    startTransaction
    setBlockState .auto
  | _ => pure ()

def commitTransactionCommand : M Unit := do
  let m ← get
  match m.xact.ts.blockState with
  | .default => pure ()
  | .auto => do
    commitTransaction
    setBlockState .default
  | .manual => commandCounterIncrement
  | .abortonly => do
    abortTransaction
    setBlockState .default
  | .commit => do
    commitTransaction
    setBlockState .default
  | .abort => do
    abortTransaction
    setBlockState .default

def beginTransactionBlock : M Unit := setBlockState .manual

/-- To `TBLOCK_ABORT` from the two block states, else to `TBLOCK_DEFAULT`. -/
def abortTransactionBlock : M Unit := do
  let m ← get
  match m.xact.ts.blockState with
  | .manual => setBlockState .abort
  | .abortonly => setBlockState .abort
  | _ => setBlockState .default

def commitTransactionBlock : M Unit := do
  let m ← get
  match m.xact.ts.blockState with
  | .manual => setBlockState .commit
  | .abortonly => setBlockState .abort
  | _ => elog "COMMIT: no transaction in progress"

def BlockState.abortOnly : BlockState → BlockState
  | .auto => .abort
  | .default => .default
  | _ => .abortonly

def setAbortOnly : M Unit := modifyXact fun x => x.setBlockState x.ts.blockState.abortOnly

def cloneParentTransaction (parent : TransactionState) : M Unit := do
  modifyXact fun x => { x with ts := parent }
  point

def closeSubTransaction : M Unit := do
  setState .commit
  point
  setState .default

end WeaverDB.Session
