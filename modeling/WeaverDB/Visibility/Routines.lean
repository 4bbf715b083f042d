import WeaverDB.SharedInval.Segment
import WeaverDB.Snapshot.Threads

/-! # Time qualification of heap tuples (`utils/time/tqual.c`, `access/heap/heapam.c`)

The six `HeapTupleSatisfies…` routines, each a function from a header to its result and the header with
the hint bits it has set, and what the operations of the heap and vacuum write to a header. `inserter`
and `deleter` are the tests that the routines share. `HeapTupleSatisfiesVacuum` does not ask whether the
transaction is the current one (`asksOwn`), and `HeapTupleSatisfiesSnapshot` looks at
`HEAP_MARKED_FOR_UPDATE` before it goes to the log. The union `progress` is its 64 bits: `t_cmin` below,
`t_cmax` above, `t_vtran` all of them.
-/

namespace WeaverDB.Visibility
open TransLog Snapshot SharedInval

/-! ## Data -/

abbrev CommandId := BitVec 32

def firstCommandId : CommandId := 0

structure Infomask where
  xminCommitted : Bool
  xminInvalid : Bool
  xmaxCommitted : Bool
  xmaxInvalid : Bool
  markedForUpdate : Bool
  movedIn : Bool
  movedOut : Bool
  deriving DecidableEq

structure HeapTupleHeader where
  progress : BitVec 64
  xmin : TransactionId
  xmax : TransactionId
  ctid : ItemPointerData
  infomask : Infomask
  deriving DecidableEq

def HeapTupleHeader.cmin (tuple : HeapTupleHeader) : CommandId := tuple.progress.extractLsb' 0 32

def HeapTupleHeader.cmax (tuple : HeapTupleHeader) : CommandId := tuple.progress.extractLsb' 32 32

def HeapTupleHeader.vtran (tuple : HeapTupleHeader) : TransactionId := tuple.progress

def HeapTupleHeader.setCommands (tuple : HeapTupleHeader) (cmin cmax : CommandId) :
    HeapTupleHeader :=
  { tuple with progress := cmax ++ cmin }

inductive HintBit where
  | xminCommitted | xminInvalid | xmaxCommitted | xmaxInvalid
  deriving DecidableEq, Repr

def Infomask.get (mask : Infomask) : HintBit → Bool
  | .xminCommitted => mask.xminCommitted
  | .xminInvalid => mask.xminInvalid
  | .xmaxCommitted => mask.xmaxCommitted
  | .xmaxInvalid => mask.xmaxInvalid

def Infomask.put (mask : Infomask) (value : Bool) : HintBit → Infomask
  | .xminCommitted => { mask with xminCommitted := value }
  | .xminInvalid => { mask with xminInvalid := value }
  | .xmaxCommitted => { mask with xmaxCommitted := value }
  | .xmaxInvalid => { mask with xmaxInvalid := value }

def HeapTupleHeader.has (tuple : HeapTupleHeader) (b : HintBit) : Bool := tuple.infomask.get b

def HeapTupleHeader.hint (tuple : HeapTupleHeader) (b : HintBit) : HeapTupleHeader :=
  { tuple with infomask := tuple.infomask.put true b }

def HeapTupleHeader.clear (tuple : HeapTupleHeader) (b : HintBit) : HeapTupleHeader :=
  { tuple with infomask := tuple.infomask.put false b }

structure View where
  log : StatusLog
  didCrash : TransactionId → Bool
  current : TransactionId
  scanCommandId : CommandId

def View.isCurrent (v : View) (xid : TransactionId) : Bool := v.current == xid

def View.commandIdGEScanCommandId (v : View) (cid : CommandId) : Bool := decide (v.scanCommandId ≤ cid)

/-! ## The shared tests -/

inductive Standing where
  | void | own | running | committed
  deriving DecidableEq, Repr

def askLog (v : View) (tuple : HeapTupleHeader) (xid : TransactionId) (committed invalid : HintBit) :
    Standing × HeapTupleHeader :=
  if transactionIdDidCommit v.log xid then
    (.committed, if transactionIdDidHardCommit v.log xid then tuple.hint committed else tuple)
  else if transactionIdDidAbort v.log xid then (.void, tuple.hint invalid)
  else if v.didCrash xid then (.void, tuple.hint invalid)
  else (.running, tuple)

def inserter (v : View) (asksOwn : Bool) (tuple : HeapTupleHeader) : Standing × HeapTupleHeader :=
  if tuple.infomask.xminCommitted then (.committed, tuple)
  else if tuple.infomask.xminInvalid then (.void, tuple)
  else if asksOwn && v.isCurrent tuple.xmin then (.own, tuple)
  else askLog v tuple tuple.xmin .xminCommitted .xminInvalid

def deleter (v : View) (asksOwn : Bool) (tuple : HeapTupleHeader) : Standing × HeapTupleHeader :=
  if tuple.infomask.xmaxInvalid then (.void, tuple)
  else if tuple.xmax = 0 then (.void, tuple.hint .xmaxInvalid)
  else if tuple.infomask.xmaxCommitted then (.committed, tuple)
  else if asksOwn && v.isCurrent tuple.xmax then (.own, tuple)
  else askLog v tuple tuple.xmax .xmaxCommitted .xmaxInvalid

/-! ## The six routines -/

def heapTupleSatisfiesItself (v : View) (tuple : HeapTupleHeader) : Bool × HeapTupleHeader :=
  match inserter v true tuple with
  | (.void, tuple) | (.running, tuple) => (false, tuple)
  | (.own, tuple) => (tuple.infomask.xmaxInvalid || tuple.infomask.markedForUpdate, tuple)
  | (.committed, tuple) =>
    match deleter v true tuple with
    | (.void, tuple) | (.running, tuple) => (true, tuple)
    | (.own, tuple) | (.committed, tuple) => (tuple.infomask.markedForUpdate, tuple)

def heapTupleSatisfiesNow (v : View) (tuple : HeapTupleHeader) : Bool × HeapTupleHeader :=
  match inserter v true tuple with
  | (.void, tuple) | (.running, tuple) => (false, tuple)
  | (.own, tuple) =>
    if v.commandIdGEScanCommandId tuple.cmin then (false, tuple)
    else if tuple.infomask.xmaxInvalid || tuple.infomask.markedForUpdate then (true, tuple)
    else (v.commandIdGEScanCommandId tuple.cmax, tuple)
  | (.committed, tuple) =>
    match deleter v true tuple with
    | (.void, tuple) | (.running, tuple) => (true, tuple)
    | (.own, tuple) =>
      (tuple.infomask.markedForUpdate || v.commandIdGEScanCommandId tuple.cmax, tuple)
    | (.committed, tuple) => (tuple.infomask.markedForUpdate, tuple)

inductive UpdateResult where
  | mayBeUpdated | invisible | selfUpdated | updated | beingUpdated
  deriving DecidableEq, Repr

def heapTupleSatisfiesUpdate (v : View) (tuple : HeapTupleHeader) : UpdateResult × HeapTupleHeader :=
  match inserter v true tuple with
  | (.void, tuple) | (.running, tuple) => (.invisible, tuple)
  | (.own, tuple) =>
    if v.commandIdGEScanCommandId tuple.cmin then (.invisible, tuple)
    else if tuple.infomask.xmaxInvalid || tuple.infomask.markedForUpdate then (.mayBeUpdated, tuple)
    else if v.commandIdGEScanCommandId tuple.cmax then (.selfUpdated, tuple)
    else (.invisible, tuple)
  | (.committed, tuple) =>
    match deleter v true tuple with
    | (.void, tuple) => (.mayBeUpdated, tuple)
    | (.running, tuple) => (.beingUpdated, tuple)
    | (.own, tuple) =>
      if tuple.infomask.markedForUpdate then (.mayBeUpdated, tuple)
      else if v.commandIdGEScanCommandId tuple.cmax then (.selfUpdated, tuple)
      else (.invisible, tuple)
    | (.committed, tuple) =>
      if tuple.infomask.markedForUpdate then (.mayBeUpdated, tuple) else (.updated, tuple)

/-- What `HeapTupleSatisfiesDirty` returns, with the fields it leaves in the dirty snapshot. -/
structure DirtyResult where
  satisfied : Bool
  xmin : TransactionId
  xmax : TransactionId
  tid : Option ItemPointerData
  deriving DecidableEq

def DirtyResult.plain (satisfied : Bool) : DirtyResult :=
  { satisfied := satisfied, xmin := 0, xmax := 0, tid := none }

/-- The current transaction counts as deleter of a tuple it has only marked. -/
def heapTupleSatisfiesDirty (v : View) (tuple : HeapTupleHeader) : DirtyResult × HeapTupleHeader :=
  match inserter v true tuple with
  | (.void, tuple) => (.plain false, tuple)
  | (.running, tuple) => ({ DirtyResult.plain true with xmin := tuple.xmin }, tuple)
  | (.own, tuple) => (.plain (tuple.infomask.xmaxInvalid || tuple.infomask.markedForUpdate), tuple)
  | (.committed, tuple) =>
    match deleter v true tuple with
    | (.void, tuple) => (.plain true, tuple)
    | (.running, tuple) => ({ DirtyResult.plain true with xmax := tuple.xmax }, tuple)
    | (.own, tuple) => (.plain false, tuple)
    | (.committed, tuple) =>
      if tuple.infomask.markedForUpdate then (.plain true, tuple)
      else ({ DirtyResult.plain false with tid := some tuple.ctid }, tuple)

def snapshotDeleter (v : View) (snapshot : SnapshotData) (tuple : HeapTupleHeader) : Bool × HeapTupleHeader :=
  if !tuple.infomask.xmaxInvalid && tuple.xmax != 0 && tuple.infomask.markedForUpdate then
    (true, tuple)
  else
    match deleter v true tuple with
    | (.void, tuple) | (.running, tuple) => (true, tuple)
    | (.own, tuple) => (v.commandIdGEScanCommandId tuple.cmax, tuple)
    | (.committed, tuple) =>
      (!tuple.infomask.movedOut && transactionIdActiveDuringSnapshot snapshot tuple.xmax, tuple)

def heapTupleSatisfiesSnapshot (v : View) (referentialIntegritySnapshotOverride : Bool)
    (snapshot : SnapshotData) (tuple : HeapTupleHeader) : Bool × HeapTupleHeader :=
  if referentialIntegritySnapshotOverride then heapTupleSatisfiesNow v tuple
  else
    match inserter v true tuple with
    | (.void, tuple) | (.running, tuple) => (false, tuple)
    | (.own, tuple) =>
      if v.commandIdGEScanCommandId tuple.cmin then (false, tuple)
      else if tuple.infomask.xmaxInvalid || tuple.infomask.markedForUpdate then (true, tuple)
      else (v.commandIdGEScanCommandId tuple.cmax, tuple)
    | (.committed, tuple) =>
      if transactionIdActiveDuringSnapshot snapshot
          (if tuple.infomask.movedIn then tuple.vtran else tuple.xmin) then (false, tuple)
      else snapshotDeleter v snapshot tuple

inductive HTSVResult where
  | dead | live | recentlyDead | stillborn | insertInProgress | deleteInProgress
  deriving DecidableEq, Repr

def heapTupleSatisfiesVacuum (v : View) (oldestXmin : TransactionId) (tuple : HeapTupleHeader) :
    HTSVResult × HeapTupleHeader :=
  match inserter v false tuple with
  | (.void, tuple) => (.stillborn, tuple)
  | (.running, tuple) | (.own, tuple) => (.insertInProgress, tuple)
  | (.committed, tuple) =>
    match deleter v false tuple with
    | (.void, tuple) => (.live, tuple)
    | (.running, tuple) | (.own, tuple) => (.deleteInProgress, tuple)
    | (.committed, tuple) =>
      if tuple.infomask.markedForUpdate then (.live, tuple)
      else if oldestXmin ≤ tuple.xmax then (.recentlyDead, tuple)
      else (.dead, tuple)

/-! ## Calls -/

inductive Call where
  | itself
  | now
  | update
  | dirty
  | snapshot (referentialIntegritySnapshotOverride : Bool) (snapshot : SnapshotData)
  | vacuum (oldestXmin : TransactionId)

inductive Result where
  | satisfied (b : Bool)
  | update (r : UpdateResult)
  | dirty (r : DirtyResult)
  | vacuum (r : HTSVResult)
  deriving DecidableEq

def Call.exec (v : View) (tuple : HeapTupleHeader) : Call → Result × HeapTupleHeader
  | .itself => (heapTupleSatisfiesItself v tuple).map .satisfied id
  | .now => (heapTupleSatisfiesNow v tuple).map .satisfied id
  | .update => (heapTupleSatisfiesUpdate v tuple).map .update id
  | .dirty => (heapTupleSatisfiesDirty v tuple).map .dirty id
  | .snapshot override taken =>
    (heapTupleSatisfiesSnapshot v override taken tuple).map .satisfied id
  | .vacuum oldestXmin => (heapTupleSatisfiesVacuum v oldestXmin tuple).map .vacuum id

/-! ## What the heap access methods write -/

def heapInsert (tuple : HeapTupleHeader) (xid : TransactionId) (cid : CommandId) : HeapTupleHeader :=
  { tuple.setCommands cid firstCommandId with
    xmin := xid
    xmax := 0
    infomask :=
      { tuple.infomask with
        xminCommitted := false
        xminInvalid := false
        xmaxCommitted := false
        xmaxInvalid := true
        markedForUpdate := false } }

def heapDelete (tuple : HeapTupleHeader) (xid : TransactionId) (cid : CommandId)
    (ctid : ItemPointerData) : HeapTupleHeader :=
  let restored :=
    if tuple.infomask.movedIn then
      { tuple.setCommands firstCommandId tuple.cmax with xmin := tuple.vtran }
    else tuple
  { restored.setCommands restored.cmin cid with
    xmax := xid
    ctid := ctid
    infomask :=
      { tuple.infomask with
        xmaxCommitted := false, xmaxInvalid := false, markedForUpdate := false, movedIn := false } }

def heapMark4Update (tuple : HeapTupleHeader) (xid : TransactionId) (cid : CommandId) :
    HeapTupleHeader :=
  { tuple.setCommands tuple.cmin cid with
    xmax := xid
    infomask := { tuple.infomask with xmaxCommitted := false, xmaxInvalid := false, markedForUpdate := true } }

/-! ## What `repair_page_fragmentation` writes -/

/-- The copy for the place `self` on an earlier page. `HEAP_XACT_MASK` has neither move bit. -/
def movedCopy (tuple : HeapTupleHeader) (xid : TransactionId) (self : ItemPointerData) : HeapTupleHeader where
  progress := if tuple.infomask.movedIn then tuple.progress else tuple.xmin
  xmin := xid
  xmax := 0
  ctid := self
  infomask :=
    { tuple.infomask with
      xminCommitted := false
      xminInvalid := false
      xmaxCommitted := false
      xmaxInvalid := true
      markedForUpdate := false
      movedIn := true }

def movedOff (tuple : HeapTupleHeader) (xid : TransactionId) : HeapTupleHeader :=
  { tuple with
    xmax := xid
    infomask :=
      { tuple.infomask with
        xmaxCommitted := false, xmaxInvalid := false, markedForUpdate := false, movedOut := true } }

def movedBack (tuple : HeapTupleHeader) : HeapTupleHeader :=
  { tuple with
    xmax := 0
    infomask := { tuple.infomask with xmaxInvalid := true, movedOut := false } }

end WeaverDB.Visibility
