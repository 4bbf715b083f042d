import WeaverDB.TransLog.Statuses

/-! # Transactions of many threads, and their snapshots

The shared state of `xact.c`, `multithread.c`, `sinval.c` and `varsup.c`: the id counter, the
checkpoint, the statuses of the log, and one `THREAD` for each slot of the invalidation segment. `Phase`
is how far a thread has come. Only normal and pool sweep threads start transactions; a subordinate
thread works under its parent's id, so a snapshot has the thread that asks (`me`) and the one whose id
it is (`owner`). `GetSnapshotData` is one atomic step.
-/

namespace WeaverDB.Snapshot
open TransLog

inductive ThreadType where
  | normal | poolsweep | dbwriter | daemon | dol
  deriving DecidableEq, Repr

inductive TransState where
  | default | start | commit
  deriving DecidableEq, Repr

structure Thread where
  ttype : ThreadType
  state : TransState
  xid : TransactionId
  xmin : TransactionId
  deriving DecidableEq

structure SnapshotData where
  xmin : TransactionId
  xmax : TransactionId
  xip : List TransactionId
  deriving DecidableEq

inductive Phase where
  | idle
  | assigned (xid : TransactionId)
  | running (xid : TransactionId)
  | committing (xid : TransactionId)
  | recorded (xid : TransactionId)
  deriving DecidableEq

def Phase.xid : Phase → Option TransactionId
  | .idle => none
  | .assigned x | .running x | .committing x | .recorded x => some x

def Phase.published : Phase → Bool
  | .idle | .assigned _ => false
  | .running _ | .committing _ | .recorded _ => true

structure Server where
  ids : Variables
  log : StatusLog
  maxBackends : Nat
  thread : Nat → Thread
  phase : Nat → Phase

def threadTransactionStart (th : Thread) (xid : TransactionId) : Thread :=
  { th with state := .start, xmin := xid, xid := xid }

def threadTransactionEnd (th : Thread) : Thread := { th with state := .commit }

/-- `ThreadTransactionReset`, and `ResetThreadState` of the DBWriter. -/
def threadTransactionReset (th : Thread) : Thread := { th with state := .default, xid := 0, xmin := 0 }

def transactionIdIsInProgress (s : Server) (xid : TransactionId) : Bool :=
  (List.range s.maxBackends).any fun index => (s.thread index).xid == xid

def transactionIdBeforeCheckpoint (s : Server) (xid : TransactionId) : Bool :=
  decide (xid < s.ids.shmem.xidCheckpoint)

def transactionIdDidCrash (s : Server) (transactionId : TransactionId) : Bool :=
  statusTest s.log .inprogress transactionId && (transactionIdBeforeCheckpoint s transactionId ||
      !transactionIdIsInProgress s transactionId) &&
    statusTest s.log .inprogress transactionId

def readNewTransactionId (v : Variables) : Except String TransactionId :=
  if v.shmem.nextXid = 0 then
    .error "ReadNewTransactionId: ShmemVariableCache->nextXid is not initialized"
  else .ok v.shmem.nextXid

structure Survey where
  checkpoint : TransactionId
  xmin : TransactionId
  xip : List TransactionId

def Thread.passedOver (proc : Thread) : Bool :=
  proc.state == .default || proc.ttype == .dbwriter || proc.ttype == .dol || proc.ttype == .daemon

def Survey.visit (thread : Nat → Thread) (me : Nat) (survey : Survey) (index : Nat) : Survey :=
  let proc := thread index
  let checkpoint := if proc.xmin ≠ 0 ∧ proc.xmin < survey.checkpoint then proc.xmin else survey.checkpoint
  if proc.passedOver || index == me then { survey with checkpoint := checkpoint }
  else
    { checkpoint := checkpoint
      xmin := if proc.xid < survey.xmin then proc.xid else survey.xmin
      xip := survey.xip ++ [proc.xid] }

def surveyThreads (thread : Nat → Thread) (me : Nat) (current : TransactionId) (n : Nat) : Survey :=
  (List.range n).foldl (Survey.visit thread me) { checkpoint := current, xmin := current, xip := [] }

def setCheckpointId (v : Variables) (xid : TransactionId) : Variables :=
  { v with shmem := { v.shmem with xidCheckpoint := xid } }

/-- `GetSnapshotData` of the thread `me` with the transaction `current`. -/
def getSnapshotData (s : Server) (me : Nat) (current : TransactionId) (serializable : Bool) :
    Except String (SnapshotData × Server) :=
  match readNewTransactionId s.ids with
  | .error e => .error e
  | .ok xmax =>
    let survey := surveyThreads s.thread me current s.maxBackends
    let thread :=
      if serializable then Function.update s.thread me { s.thread me with xmin := survey.xmin }
      else s.thread
    let checkpoint := if serializable ∧ survey.xmin < survey.checkpoint then survey.xmin else survey.checkpoint
    .ok ({ xmin := survey.xmin, xmax := xmax, xip := survey.xip },
      { s with thread := thread, ids := setCheckpointId s.ids checkpoint })

def transactionIdActiveDuringSnapshot (snapshot : SnapshotData) (id : TransactionId) : Bool :=
  if snapshot.xmax ≤ id then true
  else if snapshot.xmin ≤ id then snapshot.xip.any fun x => id == x
  else false

inductive Event where
  | assign (i : Nat)
  | publish (i : Nat)
  | snapshot (me owner : Nat) (serializable : Bool) (taken : SnapshotData)
  | finish (i : Nat)
  | softCommit (i : Nat)
  | hardCommit (xid : TransactionId)
  | abort (i : Nat)
  | reset (i : Nat)

def Server.setThread (s : Server) (i : Nat) (th : Thread) (p : Phase) : Server :=
  { s with thread := Function.update s.thread i th, phase := Function.update s.phase i p }

def Server.record (s : Server) (xid : TransactionId) (xstatus : XidStatus) : Server :=
  { s with log := statusWrite s.log xid xstatus }

def Server.assign (s : Server) (i : Nat) : Server :=
  { s with
    ids := (getNewTransactionId s.ids).2
    phase := Function.update s.phase i (.assigned (getNewTransactionId s.ids).1) }

inductive Step : Server → Event → Server → Prop where
  | assign (s : Server) (i : Nat) (hi : i < s.maxBackends) (hidle : s.phase i = .idle)
      (htype : (s.thread i).ttype = .normal ∨ (s.thread i).ttype = .poolsweep) :
      Step s (.assign i) (s.assign i)
  | publish (s : Server) (i : Nat) (x : TransactionId) (h : s.phase i = .assigned x) :
      Step s (.publish i) (s.setThread i (threadTransactionStart (s.thread i) x) (.running x))
  | snapshot (s s' : Server) (me owner : Nat) (x : TransactionId) (serializable : Bool)
      (taken : SnapshotData) (howner : s.phase owner = .running x)
      (hme : me = owner ∨ s.phase me = .idle)
      (hok : getSnapshotData s me x serializable = .ok (taken, s')) :
      Step s (.snapshot me owner serializable taken) s'
  | finish (s : Server) (i : Nat) (x : TransactionId) (h : s.phase i = .running x) :
      Step s (.finish i) (s.setThread i (threadTransactionEnd (s.thread i)) (.committing x))
  | softCommit (s : Server) (i : Nat) (x : TransactionId) (h : s.phase i = .committing x) :
      Step s (.softCommit i) ((s.record x .softCommit).setThread i (s.thread i) (.recorded x))
  /- The DBWriter records a transaction of its write group, before or after its soft commit. -/
  | hardCommit (s : Server) (x : TransactionId) (h : (∃ i, s.phase i = .committing x) ∨ s.log x = .softCommit) :
      Step s (.hardCommit x) (s.record x .commit)
  | abort (s : Server) (i : Nat) (x : TransactionId) (h : s.phase i = .running x) :
      Step s (.abort i) ((s.record x .abort).setThread i (s.thread i) (.recorded x))
  | reset (s : Server) (i : Nat) (h : (s.phase i).published) :
      Step s (.reset i) (s.setThread i (threadTransactionReset (s.thread i)) .idle)

end WeaverDB.Snapshot
