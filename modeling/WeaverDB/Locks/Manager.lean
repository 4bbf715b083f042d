import WeaverDB.Foundations.KeyedTables
import WeaverDB.TransLog.Log

/-! # The lock manager

A lock is an entry of the lock table with its mutex `protection`; whoever holds or awaits it has an
entry in the holder table. What is done under the mutex is one step, and `next` gives the steps of all
threads on one lock. A table is a lock for every tag: a thread that sleeps on one does nothing
elsewhere. A mask of modes is told by its bits.
-/

namespace WeaverDB.Locks
open Foundations
open Function (update)

/-! ## Modes and their conflicts -/

inductive LockMode where
  | accessShareLock
  | rowShareLock
  | rowExclusiveLock
  | shareUpdateExclusiveLock
  | shareLock
  | shareRowExclusiveLock
  | exclusiveLock
  | accessExclusiveLock
deriving DecidableEq

def lockModes : List LockMode :=
  [.accessShareLock, .rowShareLock, .rowExclusiveLock, .shareUpdateExclusiveLock, .shareLock,
    .shareRowExclusiveLock, .exclusiveLock, .accessExclusiveLock]

theorem mem_lockModes (m : LockMode) : m ∈ lockModes := by
  cases m <;> decide

abbrev LockMask := LockMode → Bool

/-- The masks have a mode in common. -/
def meets (a b : LockMask) : Bool := lockModes.any fun i => a i && b i

theorem meets_iff {a b : LockMask} : meets a b ↔ ∃ i, a i ∧ b i := by
  simp only [meets, List.any_eq_true, Bool.and_eq_true]
  exact ⟨fun ⟨i, _, hi⟩ => ⟨i, hi⟩, fun ⟨i, hi⟩ => ⟨i, mem_lockModes i, hi⟩⟩

theorem meets_eq_false {a b : LockMask} (h : meets a b = false) {i : LockMode} (ha : a i) : b i = false :=
  eq_false_of_ne_true fun hb => ne_true_of_eq_false h (meets_iff.mpr ⟨i, ha, hb⟩)

structure LockMethodCtl where
  conflictTab : LockMode → LockMask
  mutual_ : ∀ a b, conflictTab a b = conflictTab b a

def conflicting : LockMode → List LockMode
  | .accessShareLock => [.accessExclusiveLock]
  | .rowShareLock => [.exclusiveLock, .accessExclusiveLock]
  | .rowExclusiveLock => [.shareLock, .shareRowExclusiveLock, .exclusiveLock, .accessExclusiveLock]
  | .shareUpdateExclusiveLock =>
    [.shareUpdateExclusiveLock, .shareLock, .shareRowExclusiveLock, .exclusiveLock, .accessExclusiveLock]
  | .shareLock =>
    [.rowExclusiveLock, .shareUpdateExclusiveLock, .shareRowExclusiveLock, .exclusiveLock, .accessExclusiveLock]
  | .shareRowExclusiveLock =>
    [.rowExclusiveLock, .shareUpdateExclusiveLock, .shareLock, .shareRowExclusiveLock,
      .exclusiveLock, .accessExclusiveLock]
  | .exclusiveLock =>
    [.rowShareLock, .rowExclusiveLock, .shareUpdateExclusiveLock, .shareLock,
      .shareRowExclusiveLock, .exclusiveLock, .accessExclusiveLock]
  | .accessExclusiveLock =>
    [.accessShareLock, .rowShareLock, .rowExclusiveLock, .shareUpdateExclusiveLock, .shareLock,
      .shareRowExclusiveLock, .exclusiveLock, .accessExclusiveLock]

def lockConflicts : LockMethodCtl where
  conflictTab := fun m i => decide (i ∈ conflicting m)
  mutual_ := by
    intro a b
    cases a <;> cases b <;> decide

/-! ## State -/

abbrev ThreadId := Nat

inductive LockMethod where
  | heap
  | index
  | user
deriving DecidableEq

structure LockTag where
  relId : Nat
  dbId : Nat
  objId : Nat
  offnum : Nat
  lockmethod : LockMethod
deriving DecidableEq

structure Holder where
  thread : ThreadId
  xid : TransactionId
  holders : LockMode → Nat
  nHolding : Nat

def Holder.tag (h : Holder) : ThreadId × TransactionId := (h.thread, h.xid)

structure Waiter where
  thread : ThreadId
  xid : TransactionId
  waitLockMode : LockMode
  holdLock : LockMask

inductive Request where
  | acquire (thread : ThreadId) (xid : TransactionId) (lockmode : LockMode) (failfast : Bool)
  | release (thread : ThreadId) (xid : TransactionId) (lockmode : LockMode)
  | releaseAll (thread : ThreadId) (xid : TransactionId)
deriving DecidableEq

def Request.thread : Request → ThreadId
  | .acquire t _ _ _ | .release t _ _ | .releaseAll t _ => t

/-- Where a thread is; `asleep` carries the variables of `ThreadSleep` and the flag it waits for. -/
inductive Pc where
  | running
  | searching
  | asleep (xid : TransactionId) (lockmode : LockMode) (origMask : LockMask) (locked : Bool)

def Pc.isRunning : Pc → Bool
  | .running => true
  | _ => false

/-- `present`: the entry is in the table; `size` is the size field of the queue. -/
structure Lock where
  present : Bool
  mask : LockMask
  waitMask : LockMask
  waitThreads : List Waiter
  size : Int
  holders : LockMode → Int
  nHolding : Int
  activeHolders : LockMode → Int
  nActive : Int
  refs : Int
  removing : Int
  holderTable : List Holder
  protection : List Request
  thread : ThreadId → Pc

def noModes : LockMask := fun _ => false

def Lock.init : Lock where
  present := false
  mask := noModes
  waitMask := noModes
  waitThreads := []
  size := 0
  holders := fun _ => 0
  nHolding := 0
  activeHolders := fun _ => 0
  nActive := 0
  refs := 0
  removing := 0
  holderTable := []
  protection := []
  thread := fun _ => .running

inductive Event where
  | search (r : Request) (garbage : LockMask)
  | enter (r : Request)
  | wakeup
  | resume (thread : ThreadId)
  | cancel (thread : ThreadId)

namespace Lock

variable (s : Lock)

def holder (t : ThreadId) (xid : TransactionId) : Holder :=
  (lookup Holder.tag (t, xid) s.holderTable).getD ⟨t, xid, fun _ => 0, 0⟩

def setHolder (h : Holder) : Lock := { s with holderTable := put Holder.tag h s.holderTable }

def dropHolder (t : ThreadId) (xid : TransactionId) : Lock :=
  { s with holderTable := without Holder.tag (t, xid) s.holderTable }

def setThread (t : ThreadId) (pc : Pc) : Lock := { s with thread := update s.thread t pc }

/-- A call is counted from its start, and no more when it gives up. -/
def request (m : LockMode) : Lock :=
  { s with
    nHolding := s.nHolding+1
    holders := update s.holders m (s.holders m + 1) }

def withdraw (m : LockMode) : Lock :=
  { s with
    nHolding := s.nHolding-1
    holders := update s.holders m (s.holders m - 1) }

def settleWaitMask (m : LockMode) : Lock :=
  if s.activeHolders m = s.holders m then
    { s with waitMask := update s.waitMask m false }
  else s

end Lock

/-! ## `LockResolveConflicts` and `GrantLock` -/

def lockCountMyLocks (t : ThreadId) (s : Lock) (m : LockMode) : Nat :=
  total (fun h => h.holders m) (s.holderTable.filter fun h => decide (h.thread = t))

/-- `true` for `STATUS_OK`. -/
def lockResolveConflicts (ctl : LockMethodCtl) (m : LockMode) (t : ThreadId) (s : Lock) : Bool :=
  !meets (ctl.conflictTab m) s.mask ||
    !meets (ctl.conflictTab m) fun i => decide (s.activeHolders i ≠ lockCountMyLocks t s i)

def grantLock (t : ThreadId) (xid : TransactionId) (m : LockMode) (s : Lock) : Lock :=
  let holder := s.holder t xid
  { s.setHolder { holder with
      holders := update holder.holders m (holder.holders m + 1)
      nHolding := holder.nHolding + 1 } with
    nActive := s.nActive+1
    activeHolders := update s.activeHolders m (s.activeHolders m + 1)
    mask := update s.mask m true }

/-! ## Sleeping -/

/-- Without a queue in the result there is a deadlock. -/
def enqueueLoop (ctl : LockMethodCtl) (me : Waiter) (holders : LockMode → Int) :
    List Waiter → LockMask → (LockMode → Int) → Bool → LockMask × Option (List Waiter)
  | [], waitMask, _, _ => (waitMask, some [me])
  | w :: rest, waitMask, aheadHolders, prevSame =>
    let stay := (waitMask, some (me :: w :: rest))
    let ahead := update aheadHolders w.waitLockMode (aheadHolders w.waitLockMode + 1)
    let passed := if ahead w.waitLockMode = holders w.waitLockMode then
      update waitMask w.waitLockMode false else waitMask
    let further := enqueueLoop ctl me holders rest passed ahead (decide (w.waitLockMode = me.waitLockMode))
    let pass := (further.1, further.2.map (w :: ·))
    if meets (ctl.conflictTab me.waitLockMode) w.holdLock then
      if meets (ctl.conflictTab w.waitLockMode) me.holdLock then (waitMask, none) else pass
    else if meets (ctl.conflictTab w.waitLockMode) me.holdLock then stay
    else if ctl.conflictTab w.waitLockMode me.waitLockMode then
      if !ctl.conflictTab me.waitLockMode me.waitLockMode && prevSame then stay else pass
    else if !meets (ctl.conflictTab me.waitLockMode) waitMask then stay
    else pass

def threadEnqueue (ctl : LockMethodCtl) (me : Waiter) (s : Lock) : LockMask × Option (List Waiter) :=
  let m := me.waitLockMode
  if !meets (ctl.conflictTab m) s.waitMask then
    (update s.waitMask m true, some (me :: s.waitThreads))
  else
    let n := s.size.toNat
    let looped := enqueueLoop ctl me s.holders (s.waitThreads.take n) s.waitMask
      (update s.activeHolders m (s.activeHolders m + 1)) false
    match looped.2 with
    | none => (looped.1, none)
    | some queue => (update looped.1 m true, some (queue ++ s.waitThreads.drop n))

def abandonWait (m : LockMode) (s : Lock) : Lock := (s.withdraw m).settleWaitMask m

def waitOnLock (ctl : LockMethodCtl) (t : ThreadId) (xid : TransactionId) (m : LockMode) (s : Lock) : Lock :=
  let me : Waiter := ⟨t, xid, m, fun i => decide (0 < lockCountMyLocks t s i)⟩
  let queued := threadEnqueue ctl me s
  match queued.2 with
  | none => abandonWait m { s with waitMask := queued.1 }
  | some queue =>
    { s.setThread t (.asleep xid m s.waitMask true) with
      waitMask := queued.1
      waitThreads := queue
      size := s.size + 1 }

def threadDequeue (t : ThreadId) (s : Lock) : Lock :=
  { s with
    waitThreads := without Waiter.thread t s.waitThreads
    size := s.size - 1 }

/-- Whether the thread has been woken is not looked at. -/
def cancelWait (t : ThreadId) (s : Lock) : Option Lock :=
  match s.thread t with
  | .asleep _ m origMask _ =>
    some (abandonWait m { (threadDequeue t s).setThread t .running with waitMask := origMask })
  | _ => none

def resume (t : ThreadId) (s : Lock) : Option Lock :=
  match s.thread t with
  | .asleep _ m _ false => some ((s.setThread t .running).settleWaitMask m)
  | _ => none

/-! ## Waking -/

/-- Granted, off the queue and woken. -/
def wake (w : Waiter) (s : Lock) : Lock :=
  let granted := threadDequeue w.thread (grantLock w.thread w.xid w.waitLockMode s)
  match s.thread w.thread with
  | .asleep xid m origMask _ => granted.setThread w.thread (.asleep xid m origMask false)
  | _ => granted

/-- The loop of `ThreadLockWakeup` with `LOCK_FIFO`: it stops at the first waiter that is refused. -/
def wakeupLoop (ctl : LockMethodCtl) : List Waiter → Lock → Lock
  | [], s => s
  | w :: rest, s =>
    -- `last_lockmode` is never set, so no waiter is passed over
    if lockResolveConflicts ctl w.waitLockMode w.thread s then wakeupLoop ctl rest (wake w s) else s

def threadLockWakeup (ctl : LockMethodCtl) (s : Lock) : Lock :=
  wakeupLoop ctl (s.waitThreads.take s.size.toNat) s

/-! ## The table of locks -/

def createEntry (garbage : LockMask) (s : Lock) : Lock :=
  { s with
    present := true
    refs := 0
    mask := noModes
    waitMask := garbage
    nHolding := 0
    nActive := 0
    removing := 0
    holders := fun _ => 0
    activeHolders := fun _ => 0
    waitThreads := []
    size := 0 }

/-- A release that finds no entry raises an error. -/
def searchLockTable (r : Request) (garbage : LockMask) (s : Lock) : Option Lock :=
  match r with
  | .acquire _ _ _ _ =>
    let entry := if s.present then s else createEntry garbage s
    some { entry with refs := entry.refs + 1 }
  | .release _ _ _ =>
    if s.present then some { s with refs := s.refs-1, removing := s.removing + 1 } else none
  | .releaseAll t xid =>
    if (lookup Holder.tag (t, xid) s.holderTable).isSome then
      some { s with refs := s.refs-1, removing := s.removing + 1 }
    else none

def removeEntry (s : Lock) : Lock :=
  let s := { s with removing := s.removing - 1 }
  if s.refs ≠ 0 ∨ s.removing ≠ 0 then s else { s with present := false }

/-! ## Acquiring and releasing -/

/-- Waiting requests go first, unless the thread holds a mode they wait for. -/
def lockIsFree (ctl : LockMethodCtl) (t : ThreadId) (m : LockMode) (s : Lock) : Bool :=
  if meets (ctl.conflictTab m) s.waitMask &&
      !lockModes.any fun i => decide (0 < lockCountMyLocks t s i) && meets (ctl.conflictTab i) s.waitMask
  then false
  else lockResolveConflicts ctl m t s

def lockAcquire (ctl : LockMethodCtl) (failfast : Bool) (t : ThreadId) (xid : TransactionId)
    (m : LockMode) (entry : Lock) : Lock :=
  let s := (entry.setHolder (entry.holder t xid)).request m
  let holder := s.holder t xid
  if (holder.nHolding : Int) = s.nActive ∨ holder.holders m ≠ 0 then grantLock t xid m s
  else if lockCountMyLocks t s m ≠ 0 then grantLock t xid m s
  else if lockIsFree ctl t m s then grantLock t xid m s
  else if failfast then
    (if holder.nHolding = 0 then s.dropHolder t xid else s).withdraw m
  else waitOnLock ctl t xid m s

def dropGrant (t : ThreadId) (xid : TransactionId) (m : LockMode) (holder : Holder) (s : Lock) :
    Lock :=
  let updated : Holder := { holder with
    holders := update holder.holders m (holder.holders m - 1)
    nHolding := holder.nHolding - 1 }
  let active := s.activeHolders m - 1
  { s.withdraw m with
    holderTable := if updated.nHolding = 0 then without Holder.tag (t, xid) s.holderTable
      else put Holder.tag updated s.holderTable
    nActive := s.nActive-1
    activeHolders := update s.activeHolders m active
    mask := if active = 0 then update s.mask m false else s.mask }

def lockRelease (ctl : LockMethodCtl) (t : ThreadId) (xid : TransactionId) (m : LockMode) (s : Lock) : Lock :=
  match lookup Holder.tag (t, xid) s.holderTable with
  | none => s
  | some holder =>
    if holder.holders m = 0 then s
    else
      let released := dropGrant t xid m holder s
      removeEntry (if released.nHolding = 0 then released else threadLockWakeup ctl released)

/-- A turn of `LockReleaseAll` on the counts. The mask stays when nobody else uses the lock. -/
def dropGrants (t : ThreadId) (xid : TransactionId) (s : Lock) : Lock :=
  let holder := s.holder t xid
  if s.nHolding ≠ holder.nHolding then
    let active := fun i => s.activeHolders i - holder.holders i
    { s.dropHolder t xid with
      holders := fun i => s.holders i - holder.holders i
      activeHolders := active
      mask := fun i => if active i = 0 then false else s.mask i
      nHolding := s.nHolding-holder.nHolding
      nActive := s.nActive - holder.nHolding }
  else
    { s.dropHolder t xid with
      nHolding := 0
      nActive := 0
      holders := fun _ => 0
      activeHolders := fun _ => 0 }

def lockReleaseAll (ctl : LockMethodCtl) (t : ThreadId) (xid : TransactionId) (s : Lock) : Lock :=
  let wakeupNeeded := lockModes.any fun i =>
    decide (0 < (s.holder t xid).holders i) && meets (ctl.conflictTab i) s.waitMask
  let released := dropGrants t xid s
  removeEntry (if released.nHolding ≠ 0 ∧ wakeupNeeded then threadLockWakeup ctl released else released)

/-! ## The system -/

def serve (ctl : LockMethodCtl) (tag : LockTag) (r : Request) (s : Lock) : Lock :=
  match r with
  | .acquire t xid m failfast =>
    lockAcquire ctl (failfast || decide (tag.lockmethod = .user)) t xid m s
  | .release t xid m => lockRelease ctl t xid m s
  | .releaseAll t xid => lockReleaseAll ctl t xid s

def next (ctl : LockMethodCtl) (tag : LockTag) (s : Lock) : Event → Option Lock
  | .search r garbage =>
    if (s.thread r.thread).isRunning then
      (searchLockTable r garbage s).map fun entry =>
        { entry.setThread r.thread .searching with protection := r :: s.protection }
    else none
  | .enter r =>
    if r ∈ s.protection then
      some (serve ctl tag r { s.setThread r.thread .running with
        protection := s.protection.erase r })
    else none
  | .wakeup => if s.present then some (threadLockWakeup ctl s) else none
  | .resume t => resume t s
  | .cancel t => cancelWait t s

abbrev Table := LockTag → Lock

def Table.init : Table := fun _ => .init

def Table.next (ctl : LockMethodCtl) (s : Table) (e : LockTag × Event) : Option Table :=
  (Locks.next ctl e.1 (s e.1) e.2).map (update s e.1)

end WeaverDB.Locks
