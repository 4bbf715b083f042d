import WeaverDB.TransLog.Log

/-! # The write groups and the threads that write them

Transactions register the buffers they change, and their commits, in the current write group. `DBWriter`
closes the group, logs its buffers, makes the commits durable, and leaves the buffers to `SyncWriter` or
syncs them itself. The contents of a block are told by the number of changes made to it. Failed buffers
and flushes by `DBWriter` itself are added in `Machine`; failing reads and writes, the shutdown, and the
waits for an operation on the same buffer are left out.
-/

namespace WeaverDB.WriteGroups
open Function (update)

/-! ## State -/

instance lawfulBEqPair : LawfulBEq (Nat × Nat) := Prod.instLawfulBEq

inductive WriterState where
  | notReady
  | waiting
  | ready
  | primed
  | running
  | logged
  | synced
  | completed
  | flushing
deriving DecidableEq

structure WriteGroup where
  currstate : WriterState
  buffers : Nat → Bool
  transactions : List TransactionId
  dotransaction : Bool
  loggable : Bool
  generation : Nat

/-- `special` tells the buffers of `pg_log` and `pg_variable`. -/
structure Config where
  maxBuffers : Nat
  maxtrans : Nat
  maxLogcount : Nat
  logging : Bool
  special : Nat → Bool

/-- `data` and `shadow` are the changes which the two copies of the block hold. -/
structure BufferDesc where
  data : Nat
  shadow : Nat
  generation : Nat
  dirty : Bool
  logged : Bool

/-- `batch` is being written, `log` has the last committed images, `written` may not be `synced`. -/
structure Disk where
  batch : Nat → Option Nat
  log : Nat → Nat
  written : Nat → Nat
  synced : Nat → Nat

/-- Where `DBWriter` is. The first argument of the loops: they belong to a `FlushWriteGroup`. -/
inductive WriterPc where
  | checking
  | closed
  | logging (flush : Bool) (i : Nat)
  | imaging (flush : Bool) (i : Nat)
  | transactions (j : Nat)
  | loggedGroup
  | flushMerging
  | syncing (flush : Bool) (i : Nat)
  | writing (flush : Bool) (i : Nat)
  | packaging (flush : Bool)
  | clearing (flush : Bool)
  | lateTransactions (j : Nat)
  | finishing
deriving DecidableEq

inductive SyncPc where
  | idle
  | syncing (i : Nat)
  | writing (i : Nat)
deriving DecidableEq

/-- A `RegisterBufferWrite`, with the changes made by then and the generation of the group. -/
structure Registration where
  buf : Nat
  version : Nat
  generation : Nat
deriving DecidableEq

/-- `unmarked` are the threads between `RegisterBufferWrite` and `DirtyBufferIO`. -/
structure Server where
  carts : Bool → WriteGroup
  cart : Bool
  logGroup : Bool
  syncGroup : WriteGroup
  syncBuffers : Nat
  primed : Bool
  buffer : Nat → BufferDesc
  bufferGeneration : Nat
  disk : Disk
  writer : WriterPc
  syncWriter : SyncPc
  unmarked : List (Nat × Nat)
  registered : List Registration
  hardCommits : List (TransactionId × Nat)

inductive Event where
  | access (b : Nat)
  | change (b : Nat)
  | register (b : Nat)
  | markDirty (b generation : Nat)
  | setCommitInfo (b : Nat)
  | commit (xid : TransactionId) (loggable : Bool)
  | requestSnapshot
  | flushAllDirtyBuffers
  | timeout (primed : Bool)
  | close
  | writer
  | syncWriter (cached : Bool)
deriving DecidableEq

def WriteGroup.create (c : Config) : WriteGroup where
  currstate := .notReady
  buffers := fun _ => false
  transactions := []
  dotransaction := true
  loggable := c.logging
  generation := 0

def WriteGroup.reset (c : Config) (g : WriteGroup) : WriteGroup :=
  { g with
    buffers := fun _ => false
    transactions := []
    dotransaction := true
    loggable := c.logging }

def Server.init (c : Config) : Server where
  carts := fun _ => .create c
  cart := false
  logGroup := false
  syncGroup := .create c
  syncBuffers := 0
  primed := false
  buffer := fun _ => ⟨0, 0, 0, false, false⟩
  bufferGeneration := 0
  disk := ⟨fun _ => none, fun _ => 0, fun _ => 0, fun _ => 0⟩
  writer := .checking
  syncWriter := .idle
  unmarked := []
  registered := []
  hardCommits := []

/-! ## Parts of the steps -/

namespace Server

variable (s : Server)

def group : WriteGroup := s.carts s.cart

def current : WriteGroup := s.carts s.logGroup

def setCart (k : Bool) (g : WriteGroup) : Server := { s with carts := update s.carts k g }

def setBuffer (b : Nat) (d : BufferDesc) : Server := { s with buffer := update s.buffer b d }

end Server

def BufferDesc.shadowIfNeeded (gen : Nat) (forflush : Bool) (d : BufferDesc) : BufferDesc :=
  if d.generation < gen ∨ (forflush ∧ d.generation = gen) then
    { d with shadow := d.data, generation := gen }
  else d

def WriterState.isOpen : WriterState → Bool
  | .running | .logged | .synced | .completed => false
  | _ => true

/-- `SignalDBWriter`; its other cases are fatal and cannot be met. -/
def WriterState.signal : WriterState → WriterState
  | .notReady | .completed | .waiting => .ready
  | state => state

def WriteGroup.merge (target src : WriteGroup) : WriteGroup :=
  { target with buffers := fun b => target.buffers b || src.buffers b }

def WriteGroup.emptied (src : WriteGroup) : WriteGroup := { src with buffers := fun _ => false }

def WriteGroup.moved (c : Config) (src : WriteGroup) : Nat := (List.range c.maxBuffers).countP src.buffers

/-! ## Transactions -/

def access (b : Nat) (s : Server) : Server :=
  s.setBuffer b ((s.buffer b).shadowIfNeeded s.bufferGeneration false)

def change (b : Nat) (s : Server) : Server := s.setBuffer b { s.buffer b with data := (s.buffer b).data + 1 }

def registerBufferWrite (c : Config) (b : Nat) (s : Server) : Option Server :=
  if b < c.maxBuffers ∧ s.current.currstate.isOpen then
    some { s.setCart s.logGroup
        { s.current with buffers := update s.current.buffers b true } with
      unmarked := (b, s.current.generation) :: s.unmarked
      registered := ⟨b, (s.buffer b).data, s.current.generation⟩ :: s.registered }
  else none

def dirtyBufferIO (b generation : Nat) (s : Server) : Option Server :=
  if (b, generation) ∈ s.unmarked then
    some { s.setBuffer b { s.buffer b with dirty := true } with
      unmarked := s.unmarked.erase (b, generation) }
  else none

def setBufferCommitInfoNeedsSave (b : Nat) (s : Server) : Server :=
  s.setBuffer b { s.buffer b with dirty := true }

/-- `CommitDBBufferWrites` up to the point where the transaction waits or goes on. -/
def commitDBBufferWrites (c : Config) (xid : TransactionId) (loggable : Bool) (s : Server) : Option Server :=
  if s.current.currstate.isOpen ∧ s.current.transactions.length ≠ c.maxtrans then
    some (s.setCart s.logGroup
      { s.current with
        currstate := s.current.currstate.signal
        transactions := s.current.transactions ++ [xid]
        loggable := s.current.loggable && loggable })
  else none

def requestSnapshot (s : Server) : Option Server :=
  if s.current.currstate.isOpen then
    some (s.setCart s.logGroup { s.current with currstate := s.current.currstate.signal })
  else none

def flushAllDirtyBuffers (s : Server) : Option Server :=
  if s.current.currstate.isOpen then
    some (s.setCart s.logGroup { s.current with currstate := .flushing })
  else none

/-! ## `DBWriter` -/

/-- A group that is being flushed leads to `FlushWriteGroup`. -/
def checkWriteGroupState (c : Config) (s : Server) : Option Server :=
  match s.group.currstate with
  | .completed => some (s.setCart s.cart { s.group with currstate := .notReady })
  | .notReady | .ready => some (s.setCart s.cart { s.group with currstate := .waiting })
  | .flushing =>
    if c.logging then
      some { s with
        writer := .logging true 0
        bufferGeneration := s.group.generation
        disk := { s.disk with batch := fun _ => none } }
    else some { s with writer := .flushMerging }
  | _ => none

def timeout (primed : Bool) (s : Server) : Option Server :=
  if s.writer = .checking ∧ s.group.currstate = .waiting then
    some (s.setCart s.cart { s.group with currstate := if primed then .primed else .ready })
  else none

def advanceWriteGroupQueue (s : Server) : Option Server :=
  let following := s.carts (!s.cart)
  if s.writer = .checking ∧ (s.group.currstate = .ready ∨ s.group.currstate = .primed) ∧
      (following.currstate = .completed ∨ following.currstate = .notReady) then
    let advanced := s.setCart (!s.cart)
      { following with currstate := .notReady, generation := s.group.generation + 1 }
    some { advanced.setCart s.cart { s.group with currstate := .running } with
      logGroup := !s.cart
      primed := s.group.currstate = .primed
      writer := .closed }
  else none

/-- `LogWriteGroup` begins: `LogBuffers` if block logging is on, else the transactions. -/
def beginLog (c : Config) (s : Server) : Server :=
  if c.logging then
    { s with
      writer := .logging false 0
      bufferGeneration := s.group.generation
      disk := { s.disk with batch := fun _ => none } }
  else { s with writer := .transactions 0 }

def Disk.commitLog (d : Disk) : Disk :=
  { d with batch := fun _ => none, log := fun b => (d.batch b).getD (d.log b) }

/-- A turn of `LogBuffers`, up to `LogBufferIO`; what follows if it fails is in `Machine`. -/
def logBuffer (c : Config) (flush : Bool) (i : Nat) (s : Server) : Server :=
  if i < c.maxBuffers then
    if s.group.buffers i ∧ c.special i = false ∧ (s.buffer i).dirty then
      { s.setBuffer i { s.buffer i with dirty := false } with writer := .imaging flush i }
    else { s with writer := .logging flush (i+1) }
  else { s with
    disk := s.disk.commitLog
    writer := if flush then .flushMerging else .transactions 0 }

/-- The rest of the turn: `AdvanceBufferIO`, `smgrlog` and `TerminateBufferIO`. -/
def logImage (flush : Bool) (i : Nat) (s : Server) : Server :=
  let d := (s.buffer i).shadowIfNeeded s.bufferGeneration false
  { s.setBuffer i { d with logged := true } with
    disk := { s.disk with batch := update s.disk.batch i (some d.shadow) }
    writer := .logging flush (i+1) }

/-- `LogTransactions`: from here on the status of the transaction may be on disk. -/
def logTransaction (xid : TransactionId) (s : Server) : Server :=
  { s with hardCommits := (xid, s.group.generation) :: s.hardCommits }

def logTransactions (j : Nat) (s : Server) : Server :=
  match (if s.group.dotransaction then s.group.transactions[j]? else none) with
  | some xid => { logTransaction xid s with writer := .transactions (j+1) }
  | none =>
    { s.setCart s.cart { s.group with currstate := .logged, dotransaction := false } with
      writer := .loggedGroup }

def Server.syncBusy (s : Server) : Bool :=
  s.syncGroup.currstate = .flushing ∨ s.syncGroup.currstate = .completed

def Server.askSync (s : Server) : Server := { s with syncGroup := { s.syncGroup with currstate := .completed } }

/-- After `LogWriteGroup`: the buffers go to the sync group, or come back and are synced. -/
def settleGroup (c : Config) (s : Server) : Server :=
  if s.syncBusy then s.askSync
  else if s.group.loggable ∧ s.syncBuffers < c.maxLogcount ∧ s.primed = false then
    { s.setCart s.cart s.group.emptied with
      syncGroup := { s.syncGroup.merge s.group with currstate := .waiting }
      syncBuffers := s.syncBuffers + s.group.moved c
      writer := .finishing }
  else
    { s.setCart s.cart (s.group.merge s.syncGroup) with
      syncGroup := { s.syncGroup.reset c with currstate := .notReady }
      syncBuffers := 0
      bufferGeneration := s.group.generation
      writer := .syncing false 0 }

def flushMerge (c : Config) (s : Server) : Server :=
  if s.syncBusy then s.askSync
  else
    { s.setCart s.cart s.group.emptied with
      syncGroup := { s.syncGroup.merge s.group with currstate := .flushing }
      syncBuffers := s.syncBuffers + s.group.moved c
      bufferGeneration := s.syncGroup.generation
      writer := .syncing true 0 }

def flushed (s : Server) : Server :=
  { s.setCart s.cart { s.group with currstate := .ready } with writer := .checking }

def Server.syncList (flush : Bool) (s : Server) : Nat → Bool :=
  if flush then s.syncGroup.buffers else s.group.buffers

def Server.dropFromList (flush : Bool) (i : Nat) (s : Server) : Server :=
  if flush then
    { s with syncGroup := { s.syncGroup with buffers := update s.syncGroup.buffers i false } }
  else s.setCart s.cart { s.group with buffers := update s.group.buffers i false }

/-- One turn, up to `WriteBufferIO`: `WRITE_FLUSH` for special buffers. -/
def syncBuffer (c : Config) (flush : Bool) (i : Nat) (s : Server) : Server :=
  if i < c.maxBuffers then
    if s.syncList flush i then
      let dirty := if flush && !c.special i then (s.buffer i).dirty else false
      { s.setBuffer i { s.buffer i with dirty := dirty, logged := false } with
        writer := .writing flush i }
    else { s with writer := .syncing flush (i+1) }
  else if flush then
    let idle := { s with syncGroup := { s.syncGroup with currstate := .notReady } }
    if c.maxLogcount < s.syncBuffers then { idle with writer := .packaging true } else flushed idle
  else { s with writer := .packaging false }

/-- The rest of the turn: `smgrwrite`, or `smgrflush` for special buffers. -/
def writeBuffer (c : Config) (flush : Bool) (i : Nat) (s : Server) : Server :=
  let d := (s.buffer i).shadowIfNeeded s.bufferGeneration (!c.special i)
  let disk := { s.disk with
    written := update s.disk.written i d.shadow
    synced := if c.special i then update s.disk.synced i d.shadow else s.disk.synced }
  { (s.setBuffer i d).dropFromList flush i with disk := disk, writer := .syncing flush (i+1) }

def commitPackage (flush : Bool) (s : Server) : Server :=
  { s with disk := { s.disk with synced := s.disk.written }, writer := .clearing flush }

def clearLogs (c : Config) (flush : Bool) (s : Server) : Server :=
  let cleared := if c.logging then { s with disk := { s.disk with log := fun _ => 0 } } else s
  if flush then flushed cleared else { cleared with writer := .lateTransactions 0 }

def lateTransactions (j : Nat) (s : Server) : Server :=
  match (if s.group.dotransaction then s.group.transactions[j]? else none) with
  | some xid => { logTransaction xid s with writer := .lateTransactions (j+1) }
  | none =>
    { s.setCart s.cart { s.group with currstate := .synced } with writer := .finishing }

def finishWriteGroup (c : Config) (s : Server) : Server :=
  { s.setCart s.cart ({ s.group with currstate := .completed }.reset c) with
    cart := !s.cart
    writer := .checking }

def dbWriter (c : Config) (s : Server) : Option Server :=
  match s.writer with
  | .checking => checkWriteGroupState c s
  | .closed => some (beginLog c s)
  | .logging flush i => some (logBuffer c flush i s)
  | .imaging flush i => some (logImage flush i s)
  | .transactions j => some (logTransactions j s)
  | .loggedGroup => some (settleGroup c s)
  | .flushMerging => some (flushMerge c s)
  | .syncing flush i => some (syncBuffer c flush i s)
  | .writing flush i => some (writeBuffer c flush i s)
  | .packaging flush => some (commitPackage flush s)
  | .clearing flush => some (clearLogs c flush s)
  | .lateTransactions j => some (lateTransactions j s)
  | .finishing => some (finishWriteGroup c s)

/-! ## `SyncWriter` -/

def syncWriterDone (s : Server) : Server :=
  { s with syncGroup := { s.syncGroup with currstate := .notReady }, syncWriter := .idle }

/-- Special buffers and relations not in the path cache (`cached`) are left. -/
def syncWriterStep (c : Config) (cached : Bool) (s : Server) : Option Server :=
  match s.syncWriter with
  | .idle =>
    if s.syncGroup.currstate = .waiting then
      some { s with
        syncGroup := { s.syncGroup with currstate := .flushing }
        bufferGeneration := s.syncGroup.generation
        syncWriter := .syncing 0 }
    else none
  | .syncing i =>
    if i < c.maxBuffers then
      if s.syncGroup.buffers i = false then some { s with syncWriter := .syncing (i+1) }
      else if s.syncGroup.currstate = .completed then some (syncWriterDone s)
      else if c.special i ∨ cached = false then
        some { s with syncWriter := .syncing (i+1) }
      else some { s.setBuffer i { s.buffer i with logged := false } with syncWriter := .writing i }
    else some (syncWriterDone s)
  | .writing i =>
    let d := (s.buffer i).shadowIfNeeded s.bufferGeneration true
    some { (s.setBuffer i d).dropFromList true i with
      disk := { s.disk with written := update s.disk.written i d.shadow }
      syncWriter := .syncing (i+1) }

/-! ## The system -/

def next (c : Config) (s : Server) : Event → Option Server
  | .access b => some (access b s)
  | .change b => some (change b s)
  | .register b => registerBufferWrite c b s
  | .markDirty b generation => dirtyBufferIO b generation s
  | .setCommitInfo b => some (setBufferCommitInfoNeedsSave b s)
  | .commit xid loggable => commitDBBufferWrites c xid loggable s
  | .requestSnapshot => requestSnapshot s
  | .flushAllDirtyBuffers => flushAllDirtyBuffers s
  | .timeout primed => timeout primed s
  | .close => advanceWriteGroupQueue s
  | .writer => dbWriter c s
  | .syncWriter cached => syncWriterStep c cached s

end WeaverDB.WriteGroups
