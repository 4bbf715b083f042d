import WeaverDB.Foundations.PackedFields
import WeaverDB.Foundations.PageCache

/-! # The transaction log `pg_log` (`access/transam/transsup.c`)

Every transaction id owns two bits: 32 ids to an `unsigned long`, 32768 to a block, and block numbers
count from the block of the low-water mark. Ids and block numbers are 64-bit and wrap. The test of the
relation's name and the `NOTICE`s are left out; the spin lock makes each access to a word atomic.
`readBuffer` is `ReadBuffer` down to `smgrread` and `vfdread`: at the end of the file a blank page is
accepted only for the block that the descriptor's `nblocks` names.
-/

namespace WeaverDB.TransLog
open PackedFields Function BitVec

/-! ## Statuses and pages -/

abbrev TransactionId : Type := BitVec 64

abbrev BlockNumber : Type := BitVec 64

/-- `XID_INPROGRESS`, `XID_ABORT`, `XID_SOFT_COMMIT`, `XID_COMMIT`, in the order of their codes. -/
inductive XidStatus where
  | inprogress | abort | softCommit | commit
  deriving DecidableEq, Repr

def XidStatus.code : XidStatus → BitVec 64
  | .inprogress => 0
  | .abort => 1
  | .softCommit => 2
  | .commit => 3

def XidStatus.ofCode (seg : BitVec 64) : XidStatus :=
  if seg = 0 then .inprogress
  else if seg = 1 then .abort
  else if seg = 2 then .softCommit
  else .commit

abbrev Page : Type := Nat → BitVec 64

def Page.blank : Page := fun _ => 0

def numXidStatusPerBlock : Nat := 32768

def tbSize : Nat := 32

def xidIndex (transactionId : TransactionId) : Nat := transactionId.toNat % numXidStatusPerBlock

def xidShift (transactionId : TransactionId) : Nat := tbSize * 2 - 2 - xidIndex transactionId % tbSize * 2

def transBlockGetXidStatus (tblock : Page) (transactionId : TransactionId) : XidStatus :=
  .ofCode (fetch 2 (tblock (xidIndex transactionId / tbSize)) (xidShift transactionId))

def XidStatus.mask : XidStatus → BitVec 64
  | .softCommit => 0
  | _ => 3

def transBlockSetXidStatus (tblock : Page) (transactionId : TransactionId) (xstatus : XidStatus) :
    Page :=
  let finder := xidIndex transactionId / tbSize
  Function.update tblock finder (deposit (tblock finder) xstatus.mask xstatus.code (xidShift transactionId))

/-! ## The log relation and its buffers -/

/-- An `elog` with its text, or a loop that never ends. -/
inductive LogError where
  | error (text : String)
  | fatal (text : String)
  | spins
  deriving DecidableEq, Repr

/-- The pages of `pg_log` in the pool and in the file, and the `nblocks` of the descriptor. -/
structure LogRelation where
  store : PageCache Page
  nblocks : Nat
  newPage : Page

def LogRelation.block (log : LogRelation) (q : Nat) : Page := (log.store.cached q).getD .blank

def pNew : BlockNumber := 0x0000FFFFFFFFFFFF

def seekLimit : Nat := 2^50

def LogRelation.load (log : LogRelation) (q : Nat) (p : Page) : LogRelation :=
  { log with store := log.store.load q p }

def bufferFor (log : LogRelation) (q : Nat) : Option LogRelation :=
  match log.store.cached q with
  | some _ => some log
  | none =>
    match log.store.file[q]? with
    | some p => some (log.load q p)
    | none => if log.nblocks = q then some (log.load q .blank) else none

/-- `none` is `InvalidBuffer`. A block past the seek limit is not in the pool either. -/
def readBuffer (log : LogRelation) (blockNum : BlockNumber) : Option (Nat × LogRelation) :=
  if blockNum = pNew then
    let n := log.store.file.length
    let log' := { log with store := log.store.extend log.newPage, nblocks := n+1 }
    (bufferFor log' n).map fun l => (n, l)
  else if seekLimit ≤ blockNum.toNat then none
  else (bufferFor log blockNum.toNat).map fun l => (blockNum.toNat, l)

def LogRelation.write (log : LogRelation) (q : Nat) (p : Page) : LogRelation :=
  { log with store := log.store.put q p }

def LogRelation.flushBuffer (log : LogRelation) (q : Nat) : LogRelation :=
  { log with store := log.store.flush .blank q }

/-! ## Reading and writing a status -/

def transComputeBlockNumber (lowWaterMark transactionId : TransactionId) : BlockNumber :=
  transactionId / 32768#64 - lowWaterMark / 32768#64

def badBufferRead : LogError := .error "bad buffer read in transaction management"

def transBlockNumberGetXidStatus (lowWaterMark : TransactionId) (log : LogRelation)
    (xid : TransactionId) : Except LogError XidStatus × LogRelation :=
  if xid = 0 then (.error (.error "testing invalid transaction id"), log)
  else if xid < lowWaterMark then (.ok .commit, log)
  else if 32 * 1024 < transComputeBlockNumber lowWaterMark xid then (.ok .abort, log)
  else
    match readBuffer log (transComputeBlockNumber lowWaterMark xid) with
    | none => (.error badBufferRead, log)
    | some (q, log') => (.ok (transBlockGetXidStatus (log'.block q) xid), log')

def transBlockNumberSetXidStatus (isMultiuser : Bool) (lowWaterMark : TransactionId)
    (log : LogRelation) (xid : TransactionId) (xstatus : XidStatus) :
    Except LogError Unit × LogRelation :=
  match readBuffer log (transComputeBlockNumber lowWaterMark xid) with
  | none => (.error badBufferRead, log)
  | some (q, log') =>
    let written := log'.write q (transBlockSetXidStatus (log'.block q) xid xstatus)
    (.ok (), if isMultiuser then written else written.flushBuffer q)

/-! ## One status in a page -/

def XidStatus.stamp (old new : XidStatus) : XidStatus :=
  match new, old with
  | .softCommit, .abort => .commit
  | .softCommit, .commit => .commit
  | s, _ => s

theorem within_code (s : XidStatus) : Within 2 s.code := by
  apply within_of_lt
  cases s <;> decide

theorem within_mask (s : XidStatus) : Within 2 s.mask := by
  apply within_of_lt
  cases s <;> decide

theorem ofCode_stamp (v : BitVec 64) (hv : v.toNat < 2^2) (s : XidStatus) :
    XidStatus.ofCode ((v &&& ~~~s.mask) ||| s.code) = (XidStatus.ofCode v).stamp s := by
  have h4 : v = 0 ∨ v = 1 ∨ v = 2 ∨ v = 3 := by bv_omega
  rcases h4 with rfl | rfl | rfl | rfl <;> cases s <;> decide

theorem xidShift_fits (x : TransactionId) : xidShift x + 2 ≤ 64 := by
  unfold xidShift tbSize
  omega

theorem getXidStatus_set_self (p : Page) (x : TransactionId) (s : XidStatus) :
    transBlockGetXidStatus (transBlockSetXidStatus p x s) x = (transBlockGetXidStatus p x).stamp s := by
  unfold transBlockGetXidStatus transBlockSetXidStatus
  rw [update_self, fetch_deposit _ _ (xidShift_fits x) (within_code s), ofCode_stamp _ (fetch_lt 2 _ _) s]

variable {x : TransactionId} {q : Nat} {log log' : LogRelation}

theorem getXidStatus_set_of_ne (p : Page) (x y : TransactionId) (s : XidStatus) (h : xidIndex y ≠ xidIndex x) :
    transBlockGetXidStatus (transBlockSetXidStatus p x s) y = transBlockGetXidStatus p y := by
  unfold transBlockGetXidStatus transBlockSetXidStatus
  by_cases hw : xidIndex y / tbSize = xidIndex x / tbSize
  · rw [hw, update_self, fetch_deposit_of_disjoint _ (xidShift_fits y) (within_mask s) (within_code s)]
    unfold xidShift tbSize at *
    omega
  · rw [update_of_ne hw]

@[simp] theorem getXidStatus_blank (x : TransactionId) : transBlockGetXidStatus .blank x = .inprogress := by
  have h0 : fetch 2 (0 : BitVec 64) (xidShift x) = 0 := by
    simp [fetch]
  rw [transBlockGetXidStatus, Page.blank, h0]
  rfl

/-! ## Block numbers -/

theorem eq_of_block_index (x y : TransactionId) (hb : x.toNat / 32768 = y.toNat / 32768)
    (hi : xidIndex x = xidIndex y) : x = y := by
  apply eq_of_toNat_eq
  unfold xidIndex numXidStatusPerBlock at hi
  omega

theorem toNat_computeBlock (mark x : TransactionId) (h : mark.toNat / 32768 ≤ x.toNat / 32768) :
    (transComputeBlockNumber mark x).toNat = x.toNat / 32768 - mark.toNat / 32768 := by
  simp only [transComputeBlockNumber, toNat_sub, toNat_udiv, toNat_ofNat, Nat.reducePow, Nat.reduceMod]
  omega

/-- Below the mark's block the subtraction wraps to a number no seek accepts. -/
theorem seekLimit_le_computeBlock (mark x : TransactionId) (h : x.toNat / 32768 < mark.toNat / 32768) :
    seekLimit ≤ (transComputeBlockNumber mark x).toNat := by
  simp only [transComputeBlockNumber, toNat_sub, toNat_udiv, toNat_ofNat, Nat.reducePow, Nat.reduceMod, seekLimit]
  omega

/-! ## Buffers -/

def LogRelation.view (log : LogRelation) (q : Nat) : Page := log.store.view Page.blank q

def LogRelation.Coherent (log : LogRelation) : Prop := log.store.Coherent Page.blank

structure Fetched (log log' : LogRelation) (q : Nat) : Prop where
  cached : log'.store.cached q = some (log.view q)
  cachedNe : ∀ r ≠ q, log'.store.cached r = log.store.cached r
  file : log'.store.file = log.store.file
  view : ∀ r, log'.view r = log.view r
  coherent : log.Coherent → log'.Coherent
  kept : ∀ r, log.store.Kept r → log'.store.Kept r
  nblocks : log'.nblocks = log.nblocks
  newPage : log'.newPage = log.newPage

theorem fetched_load {log : LogRelation} (h : log.store.cached q = none) :
    Fetched log (log.load q (log.store.file.getD q .blank)) q where
  cached := by
    rw [LogRelation.view, PageCache.view_of_uncached _ _ _ h]
    simp [LogRelation.load]
  cachedNe := by
    intro r hr
    simp [LogRelation.load, hr]
  file := rfl
  view := PageCache.view_load Page.blank log.store q h
  coherent := fun hc => PageCache.coherent_load Page.blank log.store hc q
  kept := PageCache.kept_load log.store q _ h
  nblocks := rfl
  newPage := rfl

theorem bufferFor_fetched (h : bufferFor log q = some log') : Fetched log log' q := by
  unfold bufferFor at h
  cases hc : log.store.cached q with
  | some p =>
    simp only [hc, Option.some.injEq] at h
    subst h
    have hv : log.view q = p := PageCache.view_of_cached Page.blank log.store q p hc
    exact ⟨by rw [hc, hv], fun _ _ => rfl, rfl, fun _ => rfl, id, fun _ => id, rfl, rfl⟩
  | none =>
    simp only [hc] at h
    have hload := fetched_load hc
    cases hf : log.store.file[q]? with
    | some p =>
      simp only [hf, Option.some.injEq] at h
      rw [List.getD_eq_getElem?_getD, hf] at hload
      rw [← h]
      exact hload
    | none =>
      simp only [hf] at h
      split at h
      · rw [List.getD_eq_getElem?_getD, hf] at hload
        rw [← Option.some.inj h]
        exact hload
      · cases h

theorem readBuffer_fetched {blockNum : BlockNumber}
    (hnew : blockNum ≠ pNew) (h : readBuffer log blockNum = some (q, log')) :
    q = blockNum.toNat ∧ Fetched log log' q := by
  unfold readBuffer at h
  rw [if_neg hnew] at h
  split at h
  · cases h
  · rw [Option.map_eq_some_iff] at h
    obtain ⟨l, hl, e⟩ := h
    obtain ⟨rfl, rfl⟩ := Prod.mk.inj e
    exact ⟨rfl, bufferFor_fetched hl⟩

theorem Fetched.block (h : Fetched log log' q) : log'.block q = log.view q := by
  rw [LogRelation.block, h.cached]
  rfl

end WeaverDB.TransLog

namespace WeaverDB
export TransLog (TransactionId)
end WeaverDB
