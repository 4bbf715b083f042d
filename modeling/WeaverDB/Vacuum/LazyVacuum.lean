import Mathlib.Data.List.DropRight
import WeaverDB.Visibility.Routines

/-! # Lazy vacuum

`lazy_vacuum_rel` scans the heap for tuples that can go, takes their entries out of the indexes, and
comes back to free their line pointers. It lets go of its `ShareUpdateExclusiveLock` before every fifth
page of the scan and every page that it frees; when it does not get it back, the work goes on with what
was collected so far. `next` gives the steps of two vacuums and of transactions that insert and end. The
truncation, the statistics, the free space map and the room on a page are left out.
-/

namespace WeaverDB.LazyVacuum
open TransLog Visibility
open Function (update)

/-! ## Pages -/

/-- A line pointer and its tuple. `used` is `LP_USED`, `length` is `lp_len`. -/
structure ItemId where
  used : Bool
  length : Nat
  tuple : HeapTupleHeader

abbrev Page := List ItemId

def ItemId.recyclable (item : ItemId) : Bool := !item.used && item.length == 0

/-- `PageAddItem` without a given offset: the page, and the offset that was taken. -/
def pageAddItem (page : Page) (size : Nat) (tuple : HeapTupleHeader) : Page × Nat :=
  let i := page.findIdx ItemId.recyclable
  if i < page.length then (page.set i ⟨true, size, tuple⟩, i+1)
  else (page ++ [⟨true, size, tuple⟩], page.length+1)

def pageCompactPage (page : Page) : Page := page.rdropWhile ItemId.recyclable

def pageRepairFragmentation (page : Page) : Page :=
  page.map fun item => if item.used then item else { item with length := 0 }

/-! ## State -/

/-- `scanRelock` and `heapRelock` stand between `UnlockRelation` and `NoWaitLockRelation`. -/
inductive VacuumPc where
  | idle
  | waiting
  | scanRelock (blkno : Nat)
  | scanPage (blkno : Nat)
  | indexing (next : Option Nat) (i : Nat)
  | heapRelock (next : Option Nat) (tupindex : Nat)
  | heapPage (next : Option Nat) (tupindex : Nat)
  | closing
deriving DecidableEq

structure Vacuum where
  pc : VacuumPc
  reapid : TransactionId
  scanonly : Bool
  forceTrim : Bool
  nblocks : Nat
  deadTuples : List ItemPointerData

structure Config where
  maxDeadTuples : Nat
  maxTuplesPerPage : Nat
  nindexes : Nat

/-- `lock`: the vacuum with `ShareUpdateExclusiveLock`. -/
structure HeapRelation where
  heap : Nat → Page
  nblocks : Nat
  index : Nat → List ItemPointerData
  lock : Option Bool
  vacuums : Bool → Vacuum
  log : StatusLog
  nextXid : Nat
  running : TransactionId → Bool

inductive Event where
  | start (v : Bool) (reapid : TransactionId) (scanonly forceTrim : Bool)
  | vacuum (v : Bool)
  | begin
  | insert (x : TransactionId) (blkno : Nat) (tup : HeapTupleHeader) (cid : CommandId) (size : Nat)
  | indexInsert (i p : Nat) (t : ItemPointerData)
  | finish (x : TransactionId) (xstatus : XidStatus)
  | harden (x : TransactionId)

namespace HeapRelation

variable (s : HeapRelation)

/-- A transaction that does not run and left nothing in the log has crashed. -/
def view : View where
  log := s.log
  didCrash := fun x => decide (x.toNat < s.nextXid) && s.log x == .inprogress && !s.running x
  current := 0
  scanCommandId := 0

def item (t : ItemPointerData) : Option ItemId :=
  if t.ipPosid = 0 then none else (s.heap t.ipBlkid)[t.ipPosid-1]?

def setPage (blkno : Nat) (page : Page) : HeapRelation := { s with heap := update s.heap blkno page }

def setVacuum (v : Bool) (w : Vacuum) : HeapRelation := { s with vacuums := update s.vacuums v w }

end HeapRelation

/-! ## Locking -/

def unlockRelation (v : Bool) (s : HeapRelation) : HeapRelation :=
  if s.lock = some v then { s with lock := none } else s

def noWaitLockRelation (v : Bool) (s : HeapRelation) : Option HeapRelation :=
  if s.lock = none then some { s with lock := some v } else none

/-! ## The scan -/

def lazyRecordDeadTuple (maxDeadTuples : Nat) (dead : List ItemPointerData) (t : ItemPointerData) :
    List ItemPointerData :=
  if dead.length < maxDeadTuples then dead ++ [t] else dead

/-- The answers of `HeapTupleSatisfiesVacuum` with which a tuple can be deleted. -/
def tupgone (r : HTSVResult) : Bool := r = .dead ∨ r = .stillborn

/-- The page with its hint bits, the dead tuples, and whether a tuple has to stay. -/
def scanItems (view : View) (record : List ItemPointerData → ItemPointerData → List ItemPointerData)
    (reapid : TransactionId) (blkno : Nat) :
    Nat → Page → List ItemPointerData → Page × List ItemPointerData × Bool
  | _, [], dead => ([], dead, false)
  | offnum, item :: rest, dead =>
    if item.used then
      let found := heapTupleSatisfiesVacuum view reapid item.tuple
      let dead := if tupgone found.1 then record dead ⟨blkno, offnum⟩ else dead
      let (page, dead, hastup) := scanItems view record reapid blkno (offnum+1) rest dead
      ({ item with tuple := found.2 } :: page, dead, !tupgone found.1 || hastup)
    else
      let (page, dead, hastup) := scanItems view record reapid blkno (offnum+1) rest dead
      (item :: page, dead, hastup)

def lazyScanHeapPage (c : Config) (view : View) (w : Vacuum) (blkno : Nat) (page : Page) :
    Page × List ItemPointerData :=
  let record := if w.scanonly then fun dead _ => dead else lazyRecordDeadTuple c.maxDeadTuples
  let (page, dead, hastup) := scanItems view record w.reapid blkno 1 page w.deadTuples
  (if hastup then page else pageRepairFragmentation (pageCompactPage page), dead)

/-- After the loop of `lazy_scan_heap`: the final cycle, if there is something to remove. -/
def endScan (v : Bool) (s : HeapRelation) : HeapRelation :=
  let w := s.vacuums v
  s.setVacuum v { w with pc := if w.deadTuples.isEmpty then .closing else .indexing none 0 }

def scanTop (v : Bool) (blkno : Nat) (s : HeapRelation) : HeapRelation :=
  let w := s.vacuums v
  if blkno < w.nblocks then
    if w.forceTrim = false ∧ blkno % 5 = 0 then
      (unlockRelation v s).setVacuum v { w with pc := .scanRelock blkno }
    else s.setVacuum v { w with pc := .scanPage blkno }
  else endScan v s

def scanRelock (v : Bool) (blkno : Nat) (s : HeapRelation) : HeapRelation :=
  match noWaitLockRelation v s with
  | some s => s.setVacuum v { s.vacuums v with pc := .scanPage blkno }
  | none => endScan v s

def scanPage (c : Config) (v : Bool) (blkno : Nat) (s : HeapRelation) : HeapRelation :=
  let w := s.vacuums v
  if c.maxDeadTuples - w.deadTuples.length < c.maxTuplesPerPage ∧ 0 < w.deadTuples.length then
    s.setVacuum v { w with pc := .indexing (some blkno) 0 }
  else
    let (page, dead) := lazyScanHeapPage c s.view w blkno (s.heap blkno)
    scanTop v (blkno+1) ((s.setPage blkno page).setVacuum v { w with deadTuples := dead })

/-! ## The removal -/

/-- The entries that stay. It stops when as many are removed as there are dead tuples. -/
def btbulkdelete (dead : List ItemPointerData) : Nat → List ItemPointerData → List ItemPointerData
  | _, [] => []
  | removed, t :: rest =>
    if t ∈ dead then
      if removed + 1 = dead.length then rest else btbulkdelete dead (removed+1) rest
    else t :: btbulkdelete dead removed rest

def clearItem (page : Page) (offnum : Nat) : Page :=
  page.modify (offnum-1) fun item => { item with used := false }

/-- The loop of `lazy_vacuum_page`: the page, and where its tuples end in the list. -/
def lazyVacuumPage (blkno : Nat) : List ItemPointerData → Page → Nat → Page × Nat
  | [], page, tupindex => (page, tupindex)
  | t :: rest, page, tupindex =>
    if t.ipBlkid = blkno then lazyVacuumPage blkno rest (clearItem page t.ipPosid) (tupindex+1)
    else (page, tupindex)

/-- The end of `lazy_vacuum_heap`: the list is forgotten, the scan goes on or is over. -/
def heapDone (v : Bool) (next : Option Nat) (s : HeapRelation) : HeapRelation :=
  let w := s.vacuums v
  let pc := match next with
    | some blkno => .scanPage blkno
    | none => .closing
  s.setVacuum v { w with pc := pc, deadTuples := [] }

def heapTop (v : Bool) (next : Option Nat) (tupindex : Nat) (s : HeapRelation) : HeapRelation :=
  let w := s.vacuums v
  if tupindex < w.deadTuples.length then
    if w.forceTrim then s.setVacuum v { w with pc := .heapPage next tupindex }
    else (unlockRelation v s).setVacuum v { w with pc := .heapRelock next tupindex }
  else heapDone v next s

def heapRelock (v : Bool) (next : Option Nat) (tupindex : Nat) (s : HeapRelation) : HeapRelation :=
  match noWaitLockRelation v s with
  | some s => s.setVacuum v { s.vacuums v with pc := .heapPage next tupindex }
  | none => heapDone v next s

def heapPage (v : Bool) (next : Option Nat) (tupindex : Nat) (s : HeapRelation) : HeapRelation :=
  match (s.vacuums v).deadTuples.drop tupindex with
  | [] => heapDone v next s
  | t :: rest =>
    let (page, tupindex) := lazyVacuumPage t.ipBlkid (t :: rest) (s.heap t.ipBlkid) tupindex
    heapTop v next tupindex (s.setPage t.ipBlkid (pageRepairFragmentation (pageCompactPage page)))

def indexing (c : Config) (v : Bool) (next : Option Nat) (i : Nat) (s : HeapRelation) :
    HeapRelation :=
  let w := s.vacuums v
  if i < c.nindexes then
    { s with index := update s.index i (btbulkdelete w.deadTuples 0 (s.index i)) }.setVacuum
      v { w with pc := .indexing next (i+1) }
  else heapTop v next 0 s

/-! ## The system -/

def lockRelation (v : Bool) (s : HeapRelation) : Option HeapRelation :=
  if s.lock = none then
    let locked := { s with lock := some v }
    some (scanTop v 0 (locked.setVacuum v { s.vacuums v with nblocks := s.nblocks, deadTuples := [] }))
  else none

def lazyVacuumRel (c : Config) (v : Bool) (s : HeapRelation) : Option HeapRelation :=
  match (s.vacuums v).pc with
  | .idle => none
  | .waiting => lockRelation v s
  | .scanRelock blkno => some (scanRelock v blkno s)
  | .scanPage blkno => some (scanPage c v blkno s)
  | .indexing next i => some (indexing c v next i s)
  | .heapRelock next tupindex => some (heapRelock v next tupindex s)
  | .heapPage next tupindex => some (heapPage v next tupindex s)
  | .closing => some ((unlockRelation v s).setVacuum v { s.vacuums v with pc := .idle })

def insertTuple (x : TransactionId) (blkno : Nat) (tup : HeapTupleHeader) (cid : CommandId) (size : Nat)
    (s : HeapRelation) : Option HeapRelation :=
  if s.running x ∧ blkno ≤ s.nblocks then
    some { s.setPage blkno (pageAddItem (s.heap blkno) size (heapInsert tup x cid)).1 with
      nblocks := max s.nblocks (blkno+1) }
  else none

def next (c : Config) (s : HeapRelation) : Event → Option HeapRelation
  | .start v reapid scanonly forceTrim =>
    if (s.vacuums v).pc = .idle then
      some (s.setVacuum v ⟨.waiting, reapid, scanonly, forceTrim, 0, []⟩)
    else none
  | .vacuum v => lazyVacuumRel c v s
  | .begin =>
    if s.nextXid < 2^64 then
      some { s with
        running := update s.running (BitVec.ofNat 64 s.nextXid) true
        nextXid := s.nextXid + 1 }
    else none
  | .insert x blkno tup cid size => insertTuple x blkno tup cid size s
  | .indexInsert i p t =>
    some { s with index := update s.index i ((s.index i).insertIdx p t) }
  | .finish x xstatus =>
    if s.running x ∧ xstatus ≠ .inprogress then
      some { s with
        log := update s.log x xstatus
        running := update s.running x false }
    else none
  | .harden x =>
    if s.log x = .softCommit then some { s with log := update s.log x .commit } else none

end WeaverDB.LazyVacuum
