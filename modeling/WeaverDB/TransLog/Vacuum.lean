import WeaverDB.TransLog.Recorded

/-! # Re-basing the transaction log (`access/transam/varsup.c`)

`VacuumTransactionLog` moves the low-water mark up to the smallest mark of the databases and, when that
lies in a later block, makes it block 0 of the log. `VariableRelation` are the two pages of the variable
relation, flushed at each change; `databases` is the array `LogBase`, which ends at the first unused
entry; `dids` lists the oids of `pg_database`.
-/

namespace WeaverDB.TransLog
open Option List

/-! ## Data -/

structure LogBase where
  init : Bool
  database : Nat
  lowwater : TransactionId
  deriving DecidableEq

/-- Page 0 (`nextXidData`) and page 1 (the header) of the variable relation. -/
structure VariableRelation where
  nextXidData : TransactionId
  baseline : TransactionId
  checkpoint : TransactionId
  databases : List LogBase
  deriving DecidableEq

structure VariableCache where
  xidLowWaterMark : TransactionId
  xidCheckpoint : TransactionId
  nextXid : TransactionId
  xidCount : Nat
  deriving DecidableEq

structure Variables where
  var : VariableRelation
  shmem : VariableCache
  xidPrefetch : Nat
  deriving DecidableEq

structure Transam extends Variables where
  log : LogRelation

def Transam.withLog (t : Transam) (log : LogRelation) : Transam := { t with log := log }

/-! ## Routines -/

def dbmin (databases : List LogBase) (did : Nat) : TransactionId :=
  (databases.takeWhile LogBase.init).foldl (fun m area => if area.database = did then area.lowwater else m) 0

def lowWater (databases : List LogBase) (dids : List Nat) : TransactionId :=
  dids.foldl (fun low did => if dbmin databases did < low then dbmin databases did else low) (BitVec.allOnes 64)

def smgrtruncate (log : LogRelation) (n : Nat) : LogRelation :=
  if log.store.file.length ≤ n then log
  else { log with store := log.store.truncate n, nblocks := n }

def LogRelation.flushAllDirtyBuffers (log : LogRelation) : LogRelation :=
  { log with store := log.store.flushAll Page.blank }

def badVariableRead : LogError := .error "bad buffer read in variable logging"

/-- Block `base` becomes block 0, the only one of the file. -/
def moveToFront (log : LogRelation) (base : BlockNumber) : Except LogError Unit × LogRelation :=
  match readBuffer log 0 with
  | none => (.error badVariableRead, log)
  | some (zeroblock, log₁) =>
    match readBuffer log₁ base with
    | none => (.error badVariableRead, log₁)
    | some (newzero, log₂) =>
      let copied := log₂.write zeroblock (log₂.block newzero)
      let flushed := (copied.flushBuffer zeroblock).flushBuffer newzero
      (.ok (), smgrtruncate flushed.flushAllDirtyBuffers 1)

def raiseMark (t : Transam) (low : TransactionId) : Transam :=
  if t.shmem.xidLowWaterMark < low then
    { t with
      shmem := { t.shmem with xidLowWaterMark := low }
      var := { t.var with baseline := low } }
  else t

def vacuumTransactionLog (dids : List Nat) (t : Transam) : Except LogError Unit × Transam :=
  let low := lowWater t.var.databases dids
  let base := transComputeBlockNumber t.shmem.xidLowWaterMark low
  let raised := raiseMark t low
  if base = 0 then (.ok (), raised)
  else ((moveToFront t.log base).1, raised.withLog (moveToFront t.log base).2)

/-! ## What the call has to keep -/

def Transam.read (t : Transam) (x : TransactionId) : Except LogError XidStatus :=
  (transBlockNumberGetXidStatus t.shmem.xidLowWaterMark t.log x).1

def Transam.record (isMultiuser : Bool) (t : Transam) (x : TransactionId) (s : XidStatus) :
    Except LogError XidStatus :=
  match transBlockNumberSetXidStatus isMultiuser t.shmem.xidLowWaterMark t.log x s with
  | (.error e, _) => .error e
  | (.ok _, log) => (transBlockNumberGetXidStatus t.shmem.xidLowWaterMark log x).1

/-- The id is at most `32 * 1024` blocks past the mark; the log is not consulted beyond. -/
def Transam.Reaches (t : Transam) (x : TransactionId) : Prop :=
  transComputeBlockNumber t.shmem.xidLowWaterMark x ≤ 32*1024

/-- Every id from the new mark on that the log answered for reads as before, and those that could be
recorded still can. -/
structure KeepsStatuses (t t' : Transam) : Prop where
  reads : ∀ x, t'.shmem.xidLowWaterMark ≤ x → t.Reaches x → ∀ s, t.read x = .ok s → t'.read x = .ok s
  records : ∀ x, t'.shmem.xidLowWaterMark ≤ x → t.Reaches x →
    ∀ isMultiuser s r, t.record isMultiuser x s = .ok r → t'.record isMultiuser x s = .ok r

def VacuumKeeps (dids : List Nat) (t : Transam) : Prop :=
  ∃ t', vacuumTransactionLog dids t = (.ok (), t') ∧ KeepsStatuses t t'

/-! ## Reading and recording in terms of the log's content -/

def Transam.blockOf (t : Transam) (x : TransactionId) : Nat :=
  (transComputeBlockNumber t.shmem.xidLowWaterMark x).toNat

def Transam.Present (t : Transam) (x : TransactionId) : Prop := t.log.Present (t.blockOf x)

def Transam.status (t : Transam) (x : TransactionId) : XidStatus := t.log.status t.shmem.xidLowWaterMark x

variable {t : Transam} {x : TransactionId} {blockNum : BlockNumber} {dids : List Nat} {log' : LogRelation}
  {log : LogRelation}

theorem reaches_ne_pNew (hr : t.Reaches x) : transComputeBlockNumber t.shmem.xidLowWaterMark x ≠ pNew := by
  intro h
  unfold Transam.Reaches at hr
  rw [h] at hr
  exact absurd hr (by decide)

theorem reaches_seek (hr : t.Reaches x) : ¬ seekLimit ≤ (transComputeBlockNumber t.shmem.xidLowWaterMark x).toNat := by
  unfold Transam.Reaches at hr
  unfold seekLimit
  bv_omega

theorem read_eq_ok_iff (t : Transam) (x : TransactionId) (hx : t.shmem.xidLowWaterMark ≤ x)
    (hr : t.Reaches x) (s : XidStatus) :
    t.read x = .ok s ↔ x ≠ 0 ∧ t.Present x ∧ t.status x = s := by
  by_cases h0 : x = 0
  · subst h0
    have he : t.read 0 = .error (.error "testing invalid transaction id") := rfl
    rw [he]
    simp
  · have hreach : ¬ 32 * 1024 < transComputeBlockNumber t.shmem.xidLowWaterMark x := BitVec.not_lt.mpr hr
    rw [Transam.read, get_eq t.log h0 hx]
    unfold Transam.Present Transam.blockOf Transam.status
    split_ifs with hp
    · rw [Except.ok.injEq]
      exact ⟨fun h => ⟨h0, hp, h⟩, fun h => h.2.2⟩
    · simp [hp]

theorem set_result (isMultiuser : Bool) (hr : t.Reaches x) (s : XidStatus) :
    (transBlockNumberSetXidStatus isMultiuser t.shmem.xidLowWaterMark t.log x s).1 = .ok () ↔ t.Present x := by
  unfold Transam.Present Transam.blockOf
  rw [← bufferFor_isSome, transBlockNumberSetXidStatus, readBuffer, if_neg (reaches_ne_pNew hr),
    if_neg (reaches_seek hr)]
  cases bufferFor t.log (transComputeBlockNumber t.shmem.xidLowWaterMark x).toNat with
  | none => simp
  | some l => simp

theorem record_eq_ok_iff (isMultiuser : Bool) (hx : t.shmem.xidLowWaterMark ≤ x) (hr : t.Reaches x) (s r : XidStatus) :
    t.record isMultiuser x s = .ok r ↔ x ≠ 0 ∧ t.Present x ∧ (t.status x).stamp s = r := by
  have hset := set_result isMultiuser hr s
  cases hres : transBlockNumberSetXidStatus isMultiuser t.shmem.xidLowWaterMark t.log x s with
  | mk res log =>
    rw [hres] at hset
    cases res with
    | error e =>
      have hp : ¬ t.Present x := fun h => by cases hset.mpr h
      simp [Transam.record, hres, hp]
    | ok u =>
      have hok : (transBlockNumberSetXidStatus isMultiuser t.shmem.xidLowWaterMark t.log x s).1 = .ok () := by rw [hres]
      obtain ⟨hxb, hw⟩ := set_wrote (reaches_ne_pNew hr) hok
      rw [hres] at hw
      have hp : t.Present x := hset.mp rfl
      have hp' : log.Present (transComputeBlockNumber t.shmem.xidLowWaterMark x).toNat := present_of_kept hw.kept
      have hst := hw.status hxb x hxb
      rw [if_pos rfl] at hst
      have hrec : t.record isMultiuser x s = ({ t with log := log } : Transam).read x := by
        rw [Transam.record, hres]
        rfl
      rw [hrec, read_eq_ok_iff { t with log := log } x hx hr]
      unfold Transam.status
      rw [hst]
      exact ⟨fun h => ⟨h.1, hp, h.2.2⟩, fun h => ⟨h.1, hp', h.2.2⟩⟩

theorem reaches_of_le {t' : Transam} (hm : t.shmem.xidLowWaterMark ≤ t'.shmem.xidLowWaterMark)
    (hx : t'.shmem.xidLowWaterMark ≤ x) (hr : t.Reaches x) : t'.Reaches x := by
  have hm' : t.shmem.xidLowWaterMark.toNat / 32768 ≤ t'.shmem.xidLowWaterMark.toNat / 32768 := Nat.div_le_div_right hm
  have hx' : t'.shmem.xidLowWaterMark.toNat / 32768 ≤ x.toNat / 32768 := Nat.div_le_div_right hx
  have e := toNat_computeBlock _ x (hm'.trans hx')
  have e' := toNat_computeBlock _ x hx'
  unfold Transam.Reaches at *
  rw [BitVec.le_def] at hr ⊢
  omega

theorem keepsStatuses_iff (t t' : Transam) (hm : t.shmem.xidLowWaterMark ≤ t'.shmem.xidLowWaterMark) :
    KeepsStatuses t t' ↔ ∀ x ≠ 0, t'.shmem.xidLowWaterMark ≤ x → t.Reaches x → t.Present x →
        t'.Present x ∧ t'.status x = t.status x := by
  constructor
  · intro h x h0 hx hr hp
    have hx' := BitVec.le_trans hm hx
    have hread := h.reads x hx hr (t.status x) ((read_eq_ok_iff t x hx' hr _).mpr ⟨h0, hp, rfl⟩)
    exact ((read_eq_ok_iff t' x hx (reaches_of_le hm hx hr) _).mp hread).2
  · intro h
    refine ⟨?_, ?_⟩
    · intro x hx hr s hs
      obtain ⟨h0, hp, rfl⟩ := (read_eq_ok_iff t x (BitVec.le_trans hm hx) hr s).mp hs
      exact (read_eq_ok_iff t' x hx (reaches_of_le hm hx hr) _).mpr ⟨h0, h x h0 hx hr hp⟩
    · intro x hx hr m s r hs
      obtain ⟨h0, hp, rfl⟩ := (record_eq_ok_iff m (BitVec.le_trans hm hx) hr s r).mp hs
      obtain ⟨hp', hst⟩ := h x h0 hx hr hp
      exact (record_eq_ok_iff m hx (reaches_of_le hm hx hr) s _).mpr ⟨h0, hp', by rw [hst]⟩

/-! ## Moving a block to the front -/

structure MovedToFront (log log' : LogRelation) (b : Nat) : Prop where
  cached : ∀ r, log'.store.cached r = if r = 0 ∨ r = b then some (log.view b) else log.store.cached r
  length : log'.store.file.length = 1
  nblocks : log'.nblocks = 1

theorem readBuffer_of_present (log : LogRelation) (blockNum : BlockNumber) (hnew : blockNum ≠ pNew)
    (hseek : blockNum.toNat < seekLimit) (hp : log.Present blockNum.toNat) :
    ∃ log', readBuffer log blockNum = some (blockNum.toNat, log') ∧ Fetched log log' blockNum.toNat := by
  obtain ⟨l, hl⟩ := isSome_iff_exists.mp ((bufferFor_isSome log _).mpr hp)
  refine ⟨l, ?_, bufferFor_fetched hl⟩
  rw [readBuffer, if_neg hnew, if_neg (by omega), hl]
  rfl

theorem readBuffer_eq_none (hnew : blockNum ≠ pNew) (h : seekLimit ≤ blockNum.toNat ∨ ¬ log.Present blockNum.toNat) :
    readBuffer log blockNum = none := by
  rw [readBuffer, if_neg hnew]
  split_ifs with hseek
  · rfl
  · have hp : ¬ log.Present blockNum.toNat := h.resolve_left hseek
    rw [← bufferFor_isSome, Bool.not_eq_true, isSome_eq_false_iff, isNone_iff_eq_none] at hp
    rw [hp]
    rfl

theorem Fetched.present {q : Nat} (h : Fetched log log' q) (r : Nat) (hr : r ≠ q) : log'.Present r ↔ log.Present r := by
  unfold LogRelation.Present
  rw [h.cachedNe r hr, h.file, h.nblocks]

theorem moveToFront_ok {base : BlockNumber} (hb : base ≠ 0) (hnew : base ≠ pNew)
    (hseek : base.toNat < seekLimit) (h0 : log.Present 0) (hp : log.Present base.toNat) :
    ∃ log', moveToFront log base = (.ok (), log') ∧ MovedToFront log log' base.toNat := by
  have hb' : base.toNat ≠ 0 := fun h => hb (BitVec.eq_of_toNat_eq h)
  obtain ⟨log₁, hr₁, hf₁⟩ := readBuffer_of_present log 0 (by decide) (by decide) h0
  obtain ⟨log₂, hr₂, hf₂⟩ := readBuffer_of_present log₁ base hnew hseek ((hf₁.present _ hb').mpr hp)
  have hblock : log₂.block base.toNat = log.view base.toNat := by
    rw [hf₂.block, hf₁.view]
  refine ⟨_, by rw [moveToFront, hr₁]; simp only [hr₂]; rfl, ?_⟩
  -- The flushes write both blocks, so the file has more than one block when it is cut to one.
  have hcached : ∀ r, (log₂.write 0 (log.view base.toNat)).store.cached r =
      if r = 0 ∨ r = base.toNat then some (log.view base.toNat) else log.store.cached r := by
    intro r
    rw [LogRelation.write, PageCache.cached_put]
    by_cases hr0 : r = 0
    · rw [if_pos hr0, if_pos (.inl hr0)]
    · rw [if_neg hr0]
      by_cases hrb : r = base.toNat
      · rw [if_pos (.inr hrb), hrb, hf₂.cached, hf₁.view]
      · rw [if_neg (by omega), hf₂.cachedNe r hrb]
        exact hf₁.cachedNe r hr0
  have hlen : base.toNat < ((((log₂.write 0 (log.view base.toNat)).flushBuffer 0).flushBuffer
      base.toNat).flushAllDirtyBuffers).store.file.length := by
    refine lt_of_lt_of_le ?_ (PageCache.length_le_flushAll Page.blank _)
    refine PageCache.lt_length_flush Page.blank _ base.toNat (log.view base.toNat) ?_
    rw [LogRelation.flushBuffer, PageCache.cached_flush, hcached, if_pos (.inr rfl)]
  have htoNat : (0 : BlockNumber).toNat = 0 := rfl
  rw [htoNat, hblock, smgrtruncate, if_neg (by omega)]
  refine ⟨?_, ?_, rfl⟩
  · intro r
    rw [PageCache.cached_truncate, LogRelation.flushAllDirtyBuffers, PageCache.cached_flushAll,
      LogRelation.flushBuffer, PageCache.cached_flush, LogRelation.flushBuffer,
      PageCache.cached_flush]
    exact hcached r
  · rw [PageCache.truncate, length_take]
    omega

theorem MovedToFront.present {b : Nat} (h : MovedToFront log log' b) (r : Nat) :
    log'.Present r ↔ r = 0 ∨ r = b ∨ r = 1 ∨ (log.store.cached r).isSome := by
  unfold LogRelation.Present
  rw [h.cached, h.length, h.nblocks]
  split
  · simp
    omega
  · constructor
    · rintro (hc | hlt | hn)
      · exact .inr (.inr (.inr hc))
      · exact .inl (by omega)
      · exact .inr (.inr (.inl hn.symm))
    · rintro (hr | hr | hr | hc)
      · omega
      · omega
      · exact .inr (.inr hr.symm)
      · exact .inl hc

theorem MovedToFront.view {b : Nat} (h : MovedToFront log log' b) (r : Nat) :
    log'.view r = if r = 0 ∨ r = b then log.view b else (log.store.cached r).getD .blank := by
  by_cases hr : r = 0 ∨ r = b
  · rw [if_pos hr]
    refine PageCache.view_of_cached Page.blank _ r _ ?_
    rw [h.cached, if_pos hr]
  · have hd : log'.store.file.getD r .blank = .blank := by
      refine getD_eq_default _ _ ?_
      rw [h.length]
      omega
    rw [if_neg hr, LogRelation.view, PageCache.view, h.cached, if_neg hr, hd]

/-! ## When the statuses are kept -/

def Transam.low (dids : List Nat) (t : Transam) : TransactionId := lowWater t.var.databases dids

def Transam.base (dids : List Nat) (t : Transam) : BlockNumber :=
  transComputeBlockNumber t.shmem.xidLowWaterMark (t.low dids)

def Transam.movedTo (dids : List Nat) (t : Transam) (x : TransactionId) : Nat :=
  (transComputeBlockNumber (t.low dids) x).toNat

def LogRelation.Exists (log : LogRelation) (q : Nat) : Prop :=
  (log.store.cached q).isSome ∨ q < log.store.file.length

structure Appends (dids : List Nat) (t : Transam) (x : TransactionId) : Prop where
  absent : ¬ t.log.Exists (t.blockOf x)
  next : x.toNat / 32768 = (t.low dids).toNat / 32768 + 1
  uncached : t.log.store.cached 1 = none
  base : (t.base dids).toNat ≠ 1

/-- The new mark stays in its block, or moves up to a readable block that no readable block follows.
-/
def Safe (dids : List Nat) (t : Transam) : Prop :=
  t.base dids = 0 ∨ (t.shmem.xidLowWaterMark < t.low dids ∧ t.log.Present 0 ∧
      (t.base dids = pNew ∨ t.log.Present (t.base dids).toNat) ∧
      ∀ x : TransactionId, (t.low dids).toNat / 32768 < x.toNat / 32768 → t.Reaches x →
        t.Present x → Appends dids t x)

theorem mark_le_raiseMark (t : Transam) (low : TransactionId) :
    t.shmem.xidLowWaterMark ≤ (raiseMark t low).shmem.xidLowWaterMark := by
  unfold raiseMark
  split_ifs with h
  · exact BitVec.le_of_lt h
  · exact BitVec.le_refl _

theorem raiseMark_log (t : Transam) (low : TransactionId) : (raiseMark t low).log = t.log := by
  unfold raiseMark
  split <;> rfl

section

variable (dids : List Nat) (t : Transam) (hb : t.base dids = 0)
include hb

theorem computeBlock_raiseMark (x : TransactionId) :
    transComputeBlockNumber (raiseMark t (t.low dids)).shmem.xidLowWaterMark x =
      transComputeBlockNumber t.shmem.xidLowWaterMark x := by
  have hdiv : t.low dids / 32768#64 = t.shmem.xidLowWaterMark / 32768#64 := by
    unfold Transam.base transComputeBlockNumber at hb
    generalize t.low dids / 32768#64 = a at hb ⊢
    generalize t.shmem.xidLowWaterMark / 32768#64 = b at hb ⊢
    bv_omega
  unfold raiseMark
  split
  · rw [transComputeBlockNumber, transComputeBlockNumber, hdiv]
  · rfl

theorem vacuum_eq_of_same_block : vacuumTransactionLog dids t = (.ok (), raiseMark t (t.low dids)) := by
  exact if_pos hb

theorem vacuumKeeps_of_same_block : VacuumKeeps dids t := by
  refine ⟨_, vacuum_eq_of_same_block dids t hb, ?_⟩
  rw [keepsStatuses_iff _ _ (mark_le_raiseMark t _)]
  intro x _ _ _ hp
  unfold Transam.Present Transam.blockOf Transam.status LogRelation.status at *
  rw [computeBlock_raiseMark dids t hb x, raiseMark_log]
  exact ⟨hp, rfl⟩

end

theorem vacuum_eq_of_rebase (hb : t.base dids ≠ 0) : vacuumTransactionLog dids t = ((moveToFront t.log (t.base dids)).1,
        (raiseMark t (t.low dids)).withLog (moveToFront t.log (t.base dids)).2) := by
  exact if_neg hb

theorem raiseMark_mark {low : TransactionId} (h : t.shmem.xidLowWaterMark < low) :
    (raiseMark t low).shmem.xidLowWaterMark = low := by
  rw [raiseMark, if_pos h]

theorem block_split (hm : t.shmem.xidLowWaterMark < t.low dids) (hx : (t.low dids).toNat / 32768 ≤ x.toNat / 32768) :
    t.blockOf x = (t.base dids).toNat + t.movedTo dids x ∧
      t.movedTo dids x = x.toNat / 32768 - (t.low dids).toNat / 32768 := by
  have hmlow : t.shmem.xidLowWaterMark.toNat / 32768 ≤ (t.low dids).toNat / 32768 := Nat.div_le_div_right hm.le
  have e₁ := toNat_computeBlock _ x (hmlow.trans hx)
  have e₂ := toNat_computeBlock _ x hx
  have e₃ := toNat_computeBlock _ (t.low dids) hmlow
  unfold Transam.blockOf Transam.movedTo Transam.base
  omega

theorem base_lt_seekLimit (hm : t.shmem.xidLowWaterMark < t.low dids) : (t.base dids).toNat < seekLimit := by
  have e := toNat_computeBlock t.shmem.xidLowWaterMark (t.low dids) (Nat.div_le_div_right hm.le)
  unfold Transam.base seekLimit
  omega

/-! ## The condition is enough -/

theorem moveToFront_pNew (log : LogRelation) (h0 : log.Present 0) : (moveToFront log pNew).1 = .ok () := by
  obtain ⟨log₁, hr₁, -⟩ := readBuffer_of_present log 0 (by decide) (by decide) h0
  have hp : LogRelation.Present
      { log₁ with
        store := log₁.store.extend log₁.newPage, nblocks := log₁.store.file.length + 1 }
      log₁.store.file.length := by
    right
    simp [PageCache.extend]
  obtain ⟨l, hl⟩ := isSome_iff_exists.mp ((bufferFor_isSome _ _).mpr hp)
  have hr₂ : readBuffer log₁ pNew = some (log₁.store.file.length, l) := by
    rw [readBuffer]
    simp only [hl]
    rfl
  rw [moveToFront, hr₁]
  simp only [hr₂]

def leftover (dids : List Nat) (t : Transam) (x : TransactionId) : Page :=
  if t.movedTo dids x = 0 ∨ t.movedTo dids x = (t.base dids).toNat then
    t.log.view (t.base dids).toNat
  else (t.log.store.cached (t.movedTo dids x)).getD Page.blank

section

variable (dids : List Nat) (t : Transam) (log' : LogRelation)
  (hm : t.shmem.xidLowWaterMark < t.low dids) (hfront : MovedToFront t.log log' (t.base dids).toNat)
  (x : TransactionId)
include hm hfront

theorem rebased_present : ((raiseMark t (t.low dids)).withLog log').Present x ↔
      t.movedTo dids x = 0 ∨ t.movedTo dids x = (t.base dids).toNat ∨ t.movedTo dids x = 1 ∨
        (t.log.store.cached (t.movedTo dids x)).isSome := by
  rw [← hfront.present, Transam.Present, Transam.blockOf, Transam.withLog, raiseMark_mark hm]
  rfl

theorem rebased_status : ((raiseMark t (t.low dids)).withLog log').status x =
      transBlockGetXidStatus (leftover dids t x) x := by
  rw [leftover, ← hfront.view, Transam.status, Transam.withLog, raiseMark_mark hm]
  rfl

end

theorem not_reaches_of_pNew (hm : t.shmem.xidLowWaterMark < t.low dids) (hnew : t.base dids = pNew)
    (hx : (t.low dids).toNat / 32768 ≤ x.toNat / 32768) : ¬ t.Reaches x := by
  intro hr
  have hsplit := (block_split hm hx).1
  have hfar : pNew.toNat = 2^48 - 1 := rfl
  have hle : t.blockOf x ≤ 32768 := hr
  rw [hnew] at hsplit
  omega

theorem view_of_absent {q : Nat} (h : ¬ log.Exists q) : log.view q = .blank := by
  unfold LogRelation.Exists at h
  rw [not_or, Bool.not_eq_true, isSome_eq_false_iff, isNone_iff_eq_none] at h
  rw [LogRelation.view, PageCache.view_of_uncached _ _ _ h.1]
  exact getD_eq_default _ _ (by omega)

theorem vacuumKeeps_of_safe (h : Safe dids t) : VacuumKeeps dids t := by
  by_cases hb : t.base dids = 0
  · exact vacuumKeeps_of_same_block dids t hb
  obtain ⟨hm, h0, hbase, hlater⟩ := h.resolve_left hb
  have hmark := raiseMark_mark hm
  -- A new block number is out of reach, and so is every id behind it.
  by_cases hnew : t.base dids = pNew
  · refine ⟨_, by rw [vacuum_eq_of_rebase hb, hnew, moveToFront_pNew t.log h0], ?_⟩
    rw [keepsStatuses_iff t ((raiseMark t (t.low dids)).withLog (moveToFront t.log pNew).2) (mark_le_raiseMark t _)]
    intro x _ hx hr _
    have hxb : (t.low dids).toNat / 32768 ≤ x.toNat / 32768 := by
      rw [← hmark]
      exact Nat.div_le_div_right hx
    exact absurd hr (not_reaches_of_pNew hm hnew hxb)
  have hp := hbase.resolve_left hnew
  obtain ⟨log', hmove, hfront⟩ := moveToFront_ok hb hnew (base_lt_seekLimit hm) h0 hp
  refine ⟨_, by rw [vacuum_eq_of_rebase hb, hmove], ?_⟩
  rw [keepsStatuses_iff t ((raiseMark t (t.low dids)).withLog log') (mark_le_raiseMark t _)]
  intro x _ hx hr hpx
  have hxb : (t.low dids).toNat / 32768 ≤ x.toNat / 32768 := by
    rw [← hmark]
    exact Nat.div_le_div_right hx
  obtain ⟨hsplit, hoff⟩ := block_split hm hxb
  rw [rebased_present dids t log' hm hfront x, rebased_status dids t log' hm hfront x]
  have hst : t.status x = transBlockGetXidStatus (t.log.view (t.blockOf x)) x := rfl
  rw [hst]
  by_cases hsame : x.toNat / 32768 = (t.low dids).toNat / 32768
  · have hzero : t.movedTo dids x = 0 := by omega
    rw [leftover, hsplit, hzero]
    exact ⟨.inl rfl, rfl⟩
  · have happ := hlater x (by omega) hr hpx
    have hone : t.movedTo dids x = 1 := by
      have := happ.next
      omega
    have hbne := happ.base
    rw [leftover, hone, view_of_absent happ.absent, if_neg (by omega), happ.uncached]
    exact ⟨.inr (.inr (.inl rfl)), rfl⟩

/-! ## Logs of one shape -/

structure SameShape (log log' : LogRelation) : Prop where
  length : log'.store.file.length = log.store.file.length
  nblocks : log'.nblocks = log.nblocks
  cached : ∀ q, (log'.store.cached q).isSome = (log.store.cached q).isSome

theorem SameShape.refl (log : LogRelation) : SameShape log log := ⟨rfl, rfl, fun _ => rfl⟩

theorem SameShape.present (h : SameShape log log') (q : Nat) : log'.Present q ↔ log.Present q := by
  unfold LogRelation.Present
  rw [h.cached, h.length, h.nblocks]

theorem SameShape.exists (h : SameShape log log') (q : Nat) : log'.Exists q ↔ log.Exists q := by
  unfold LogRelation.Exists
  rw [h.cached, h.length]

theorem safe_of_sameShape (h : SameShape t.log log') (hs : Safe dids t) : Safe dids (t.withLog log') := by
  obtain hb | ⟨hm, h0, hbase, hlater⟩ := hs
  · exact .inl hb
  · refine .inr ⟨hm, (h.present 0).mpr h0, hbase.imp_right (h.present _).mpr, ?_⟩
    intro x hx hr hp
    have happ := hlater x hx hr ((h.present _).mp hp)
    refine ⟨fun he => happ.absent ((h.exists _).mp he), happ.next, ?_, happ.base⟩
    have hun := h.cached 1
    rw [happ.uncached] at hun
    exact isNone_iff_eq_none.mp (isSome_eq_false_iff.mp hun)

def LogRelation.overwrite (log : LogRelation) (q : Nat) (p : Page) : LogRelation :=
  if (log.store.cached q).isSome then log.write q p
  else { log with store := { log.store with file := log.store.file.set q p } }

section

variable (log : LogRelation) (q : Nat) (p : Page)

theorem overwrite_cached_ne (r : Nat) (hr : r ≠ q) : (log.overwrite q p).store.cached r = log.store.cached r := by
  unfold LogRelation.overwrite
  split
  · rw [LogRelation.write, PageCache.cached_put, if_neg hr]
  · rfl

theorem overwrite_sameShape : SameShape log (log.overwrite q p) := by
  by_cases hc : (log.store.cached q).isSome
  · refine ⟨?_, ?_, ?_⟩
    · rw [LogRelation.overwrite, if_pos hc]
      rfl
    · rw [LogRelation.overwrite, if_pos hc]
      rfl
    · intro r
      by_cases hr : r = q
      · rw [hr, hc, LogRelation.overwrite, if_pos hc, LogRelation.write, PageCache.cached_put, if_pos rfl]
        rfl
      · rw [overwrite_cached_ne log q p r hr]
  · refine ⟨?_, ?_, ?_⟩
    · rw [LogRelation.overwrite, if_neg hc]
      exact length_set
    · rw [LogRelation.overwrite, if_neg hc]
    · intro r
      rw [LogRelation.overwrite, if_neg hc]
      rfl

theorem overwrite_view (hq : log.Exists q) (r : Nat) :
    (log.overwrite q p).view r = if r = q then p else log.view r := by
  by_cases hc : (log.store.cached q).isSome
  · rw [LogRelation.overwrite, if_pos hc, LogRelation.view, LogRelation.write, PageCache.view_put]
    rfl
  · have hlt : q < log.store.file.length := hq.resolve_left hc
    rw [Bool.not_eq_true, isSome_eq_false_iff, isNone_iff_eq_none] at hc
    rw [LogRelation.overwrite, if_neg (by rw [hc]; decide)]
    unfold LogRelation.view
    by_cases hr : r = q
    · rw [hr, if_pos rfl]
      refine PageCache.view_of_contents .blank _ q p ?_
      have hc' : PageCache.cached { log.store with file := log.store.file.set q p } q = none := hc
      rw [PageCache.contents, hc']
      exact List.getElem?_set_self hlt
    · rw [if_neg hr, PageCache.view, getD_eq_getElem?_getD, List.getElem?_set_ne (Ne.symm hr)]
      rfl

end

/-! ## The condition is needed -/

theorem moveToFront_present_zero {base : BlockNumber} (h : (moveToFront log base).1 = .ok ()) : log.Present 0 := by
  by_contra h0
  rw [moveToFront, readBuffer_eq_none (by decide) (.inr h0)] at h
  cases h

theorem moveToFront_present_base {base : BlockNumber} (hb : base ≠ 0)
    (hnew : base ≠ pNew) (h : (moveToFront log base).1 = .ok ()) :
    base.toNat < seekLimit ∧ log.Present base.toNat := by
  have hb' : base.toNat ≠ 0 := fun e => hb (BitVec.eq_of_toNat_eq e)
  obtain ⟨log₁, hr₁, hf₁⟩ := readBuffer_of_present log 0 (by decide) (by decide) (moveToFront_present_zero h)
  by_contra hc
  have hbad : seekLimit ≤ base.toNat ∨ ¬ log₁.Present base.toNat := by
    rw [hf₁.present _ hb']
    by_cases hs : seekLimit ≤ base.toNat
    · exact .inl hs
    · exact .inr fun hp => hc ⟨by omega, hp⟩
  rw [moveToFront, hr₁] at h
  simp only [readBuffer_eq_none hnew hbad] at h
  cases h

theorem moveToFront_of_vacuumKeeps (hb : t.base dids ≠ 0) (h : VacuumKeeps dids t) :
    (moveToFront t.log (t.base dids)).1 = .ok () := by
  obtain ⟨t', ht, -⟩ := h
  rw [vacuum_eq_of_rebase hb] at ht
  exact congrArg Prod.fst ht

/-- An id past the new mark's block keeps its status only where the page under its new number says the
same. -/
theorem vacuumKeeps_carries (dids : List Nat) (t : Transam) (hb : t.base dids ≠ 0)
    (hnew : t.base dids ≠ pNew) (hm : t.shmem.xidLowWaterMark < t.low dids)
    (h : VacuumKeeps dids t) (x : TransactionId)
    (hx : (t.low dids).toNat / 32768 < x.toNat / 32768) (hr : t.Reaches x) (hp : t.Present x) :
    (t.movedTo dids x = (t.base dids).toNat ∨ t.movedTo dids x = 1 ∨ (t.log.store.cached (t.movedTo dids x)).isSome) ∧
      transBlockGetXidStatus (leftover dids t x) x = t.status x := by
  have hmove := moveToFront_of_vacuumKeeps hb h
  obtain ⟨log', hlog', hfront⟩ := moveToFront_ok hb hnew (base_lt_seekLimit hm) (moveToFront_present_zero hmove)
    (moveToFront_present_base hb hnew hmove).2
  obtain ⟨t', ht, hkeeps⟩ := h
  rw [vacuum_eq_of_rebase hb, hlog'] at ht
  obtain rfl := (Prod.mk.inj ht).2
  rw [keepsStatuses_iff t ((raiseMark t (t.low dids)).withLog log') (mark_le_raiseMark t _)] at hkeeps
  have hj0 : t.movedTo dids x ≠ 0 := by
    have := (block_split hm hx.le).2
    omega
  have hx0 : x ≠ 0 := by
    rintro rfl
    exact Nat.not_lt_zero _ hx
  have hxm : ((raiseMark t (t.low dids)).withLog log').shmem.xidLowWaterMark ≤ x := by
    show (raiseMark t (t.low dids)).shmem.xidLowWaterMark ≤ x
    rw [raiseMark_mark hm, BitVec.le_def]
    omega
  obtain ⟨hpres, hst⟩ := hkeeps x hx0 hxm hr hp
  rw [rebased_present dids t log' hm hfront] at hpres
  rw [rebased_status dids t log' hm hfront] at hst
  exact ⟨hpres.resolve_left hj0, hst⟩

theorem getXidStatus_set_blank (x : TransactionId) (s : XidStatus) :
    transBlockGetXidStatus (transBlockSetXidStatus .blank x s) x = s := by
  rw [getXidStatus_set_self, getXidStatus_blank]
  cases s <;> rfl

section
variable (dids : List Nat) (t : Transam) (hb : t.base dids ≠ 0) (hnew : t.base dids ≠ pNew)
  (hm : t.shmem.xidLowWaterMark < t.low dids)
  (h : ∀ log', SameShape t.log log' → VacuumKeeps dids (t.withLog log')) (x : TransactionId)
  (hx : (t.low dids).toNat / 32768 < x.toNat / 32768) (hr : t.Reaches x) (hp : t.Present x)
include hb hnew hm h hx hr hp

/-- In every log of the shape, so also in one with another page in block `r`. -/
theorem overwrite_carries (r : Nat) (hex : t.log.Exists r) (p : Page) :
    transBlockGetXidStatus (leftover dids (t.withLog (t.log.overwrite r p)) x) x =
      transBlockGetXidStatus (if t.blockOf x = r then p else t.log.view (t.blockOf x)) x := by
  have hshape := overwrite_sameShape t.log r p
  have hc := (vacuumKeeps_carries dids (t.withLog (t.log.overwrite r p)) hb hnew hm
    (h _ hshape) x hx hr ((hshape.present _).mpr hp)).2
  rw [hc, ← overwrite_view t.log r p hex]
  rfl

/-- Whatever is put into such a block, the same page answers. -/
theorem absent_of_vacuumKeeps : ¬ t.log.Exists (t.blockOf x) := by
  intro hex
  obtain ⟨hsplit, hoff⟩ := block_split hm hx.le
  have hbpos : (t.base dids).toNat ≠ 0 := fun e => hb (BitVec.eq_of_toNat_eq e)
  have hsame : ∀ p, leftover dids (t.withLog (t.log.overwrite (t.blockOf x) p)) x = leftover dids t x := by
    intro p
    show (if t.movedTo dids x = 0 ∨ t.movedTo dids x = (t.base dids).toNat then
        (t.log.overwrite (t.blockOf x) p).view (t.base dids).toNat
      else ((t.log.overwrite (t.blockOf x) p).store.cached (t.movedTo dids x)).getD .blank) = _
    have hview : (t.log.overwrite (t.blockOf x) p).view (t.base dids).toNat = t.log.view (t.base dids).toNat := by
      rw [overwrite_view t.log _ p hex, if_neg (by omega)]
    rw [hview, overwrite_cached_ne t.log _ p (t.movedTo dids x) (by omega)]
    rfl
  have hany : ∀ s, transBlockGetXidStatus (leftover dids t x) x = s := by
    intro s
    have hc := overwrite_carries dids t hb hnew hm h x hx hr hp _ hex (transBlockSetXidStatus .blank x s)
    rw [hsame, if_pos rfl, getXidStatus_set_blank] at hc
    exact hc
  exact absurd ((hany .commit).symm.trans (hany .abort)) (by decide)

/-- The page under the new number has to be blank in every log of the shape, so there is none. -/
theorem no_leftover_of_vacuumKeeps (hex : t.log.Exists (t.movedTo dids x)) :
    t.movedTo dids x ≠ (t.base dids).toNat ∧ t.log.store.cached (t.movedTo dids x) = none := by
  have habs := absent_of_vacuumKeeps dids t hb hnew hm h x hx hr hp
  obtain ⟨hsplit, hoff⟩ := block_split hm hx.le
  have hbpos : (t.base dids).toNat ≠ 0 := fun e => hb (BitVec.eq_of_toNat_eq e)
  by_contra hcase
  have hc := overwrite_carries dids t hb hnew hm h x hx hr hp _ hex (transBlockSetXidStatus .blank x .commit)
  have hleft : leftover dids (t.withLog (t.log.overwrite (t.movedTo dids x)
      (transBlockSetXidStatus .blank x .commit))) x =
      transBlockSetXidStatus .blank x .commit := by
    show (if t.movedTo dids x = 0 ∨ t.movedTo dids x = (t.base dids).toNat then
        (t.log.overwrite (t.movedTo dids x) _).view (t.base dids).toNat
      else ((t.log.overwrite (t.movedTo dids x) _).store.cached (t.movedTo dids x)).getD .blank) = _
    by_cases hjb : t.movedTo dids x = (t.base dids).toNat
    · rw [if_pos (.inr hjb), ← hjb, overwrite_view t.log _ _ hex, if_pos rfl]
    · have hcs : (t.log.store.cached (t.movedTo dids x)).isSome := by
        rw [not_and] at hcase
        exact ne_none_iff_isSome.mp (hcase hjb)
      rw [if_neg (by omega), LogRelation.overwrite, if_pos hcs, LogRelation.write, PageCache.cached_put, if_pos rfl]
      rfl
  rw [hleft, getXidStatus_set_blank, if_neg (by omega), view_of_absent habs, getXidStatus_blank] at hc
  cases hc

theorem appends_of_vacuumKeeps (hpb : t.log.Present (t.base dids).toNat) : Appends dids t x := by
  have habs := absent_of_vacuumKeeps dids t hb hnew hm h x hx hr hp
  have hleft := no_leftover_of_vacuumKeeps dids t hb hnew hm h x hx hr hp
  have hcar := (vacuumKeeps_carries dids t hb hnew hm (h t.log (SameShape.refl _)) x hx hr hp).1
  obtain ⟨hsplit, hoff⟩ := block_split hm hx.le
  have hq : t.log.nblocks = t.blockOf x := by
    obtain hc | hlt | hn := hp
    · exact absurd (.inl hc) habs
    · exact absurd (.inr hlt) habs
    · exact hn
  have hjb : t.movedTo dids x ≠ (t.base dids).toNat := by
    intro e
    have hex : t.log.Exists (t.movedTo dids x) := by
      rw [e]
      obtain hc | hlt | hn := hpb
      · exact .inl hc
      · exact .inr hlt
      · omega
    exact (hleft hex).1 e
  have hcn : t.log.store.cached (t.movedTo dids x) = none := by
    by_contra hc
    exact hc (hleft (.inl (ne_none_iff_isSome.mp hc))).2
  have hone : t.movedTo dids x = 1 := by
    obtain e | e | e := hcar
    · exact absurd e hjb
    · exact e
    · rw [hcn] at e
      cases e
  rw [hone] at hcn hjb
  exact ⟨habs, by omega, hcn, fun e => hjb e.symm⟩

end

theorem mark_lt_low_of_ok (hb : t.base dids ≠ 0) (h : (moveToFront t.log (t.base dids)).1 = .ok ()) :
    t.shmem.xidLowWaterMark < t.low dids := by
  by_contra hle
  rw [BitVec.not_lt] at hle
  by_cases hblk : (t.low dids).toNat / 32768 < t.shmem.xidLowWaterMark.toNat / 32768
  · have hlim := seekLimit_le_computeBlock _ _ hblk
    have hnew : t.base dids ≠ pNew := by
      intro e
      have hp : pNew.toNat < seekLimit := by decide
      unfold Transam.base at e
      rw [e] at hlim
      omega
    have := (moveToFront_present_base hb hnew h).1
    unfold Transam.base at this
    omega
  · have hdiv := Nat.div_le_div_right (c := 32768) (BitVec.le_def.mp hle)
    have e := toNat_computeBlock t.shmem.xidLowWaterMark (t.low dids) (by omega)
    apply hb
    apply BitVec.eq_of_toNat_eq
    unfold Transam.base
    show _ = 0
    omega

/-- **Re-basing.** The statuses are kept exactly if the new mark stays in its block, or no readable
block follows it. -/
theorem vacuum_keeps_iff (dids : List Nat) (t : Transam) :
    (∀ log', SameShape t.log log' → VacuumKeeps dids (t.withLog log')) ↔ Safe dids t := by
  constructor
  · intro h
    by_cases hb : t.base dids = 0
    · exact .inl hb
    have hok := moveToFront_of_vacuumKeeps hb (h t.log (SameShape.refl _))
    have hm := mark_lt_low_of_ok hb hok
    have h0 := moveToFront_present_zero hok
    by_cases hnew : t.base dids = pNew
    · refine .inr ⟨hm, h0, .inl hnew, ?_⟩
      intro x hx hr _
      exact absurd hr (not_reaches_of_pNew hm hnew hx.le)
    · have hpb := (moveToFront_present_base hb hnew hok).2
      refine .inr ⟨hm, h0, .inr hpb, ?_⟩
      intro x hx hr hp
      exact appends_of_vacuumKeeps dids t hb hnew hm h x hx hr hp hpb
  · intro hs log' hshape
    exact vacuumKeeps_of_safe (safe_of_sameShape hshape hs)

/-- The mark is at 514; the database can do without ids below 40000. -/
def threeBlocks : Transam where
  var :=
    { nextXidData := 80000
      baseline := 514
      checkpoint := 514
      databases := [{ init := true, database := 1, lowwater := 40000 }] }
  shmem := { xidLowWaterMark := 514, xidCheckpoint := 80000, nextXid := 80000, xidCount := 0 }
  log :=
    { store :=
        { file := [Page.blank, Page.blank, transBlockSetXidStatus Page.blank 70000 .commit]
          frames := ∅ }
      nblocks := 3
      newPage := Page.blank }
  xidPrefetch := 8

/-- Block 1 becomes block 0 and block 2 is cut off, with the commit of id 70000. -/
theorem not_every_vacuum_keeps : ¬ ∀ dids t, VacuumKeeps dids t := by
  intro h
  obtain ⟨t', ht, hkeeps⟩ := h [1] threeBlocks
  obtain rfl : (vacuumTransactionLog [1] threeBlocks).2 = t' := congrArg Prod.snd ht
  have hread := hkeeps.reads 70000 (by decide) (by unfold Transam.Reaches; decide) .commit (by decide)
  exact absurd hread (by decide)

end WeaverDB.TransLog
