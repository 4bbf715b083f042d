import WeaverDB.TransLog.Recovery

/-! # What start-up recovery does to the recorded statuses

A `Disk` is what a crash leaves: the variable relation and the file of `pg_log` of a database that was
initialised. `recovery_exact_iff` says for which marks and file sizes exactly the soft commits of the
recovery range become aborts.
-/

namespace WeaverDB.TransLog
open List

/-! ## Disks -/

structure Disk where
  var : VariableRelation
  file : List Page
  newPage : Page
  nonempty : 0 < file.length
  numbered : var.nextXidData.toNat / 32768 < pNew.toNat
  initialised : var.baseline.toNat < 32768 →
    XidTest.commit.holds (transBlockGetXidStatus (file.getD 0 Page.blank) amiTransactionId) = true

def Disk.log (d : Disk) : LogRelation where
  store := { file := d.file, frames := ∅ }
  nblocks := d.file.length
  newPage := d.newPage

def Disk.boot (d : Disk) : Transam where
  var := d.var
  shmem := { xidLowWaterMark := 0, xidCheckpoint := 0, nextXid := 0, xidCount := 0 }
  log := d.log
  xidPrefetch := varXidPrefetch

def TransactionInfo.fresh : TransactionInfo where
  cachedTestXid := 0
  cachedTestXidStatus := .inprogress

def Disk.recorded (d : Disk) : Transam :=
  { d.boot with shmem := { d.boot.shmem with xidLowWaterMark := d.var.baseline } }

def Disk.checkpoint (d : Disk) : TransactionId := getTransactionRecoveryCheckpoint d.var

def Disk.nextId (d : Disk) : TransactionId := d.var.nextXidData+1

def Disk.recoveredStatus (d : Disk) (x : TransactionId) (s : XidStatus) : XidStatus :=
  if s = .softCommit ∧ d.checkpoint ≤ x ∧ x < d.nextId then .abort else s

def RecoversExactly (cfg : Config) (dids : List Nat) (d : Disk) : Prop :=
  ∃ t, initializeTransactionLog cfg dids d.boot .fresh = .ok t ∧
    ∀ x, t.shmem.xidLowWaterMark ≤ x → d.recorded.Reaches x →
      ∀ s, d.recorded.read x = .ok s → t.read x = .ok (d.recoveredStatus x s)

def NoRebase (dids : List Nat) (d : Disk) : Prop :=
  (lowWater d.var.databases dids).toNat / 32768 = d.var.baseline.toNat / 32768

structure SameMarks (d d' : Disk) : Prop where
  baseline : d'.var.baseline = d.var.baseline
  checkpoint : d'.var.checkpoint = d.var.checkpoint
  nextXidData : d'.var.nextXidData = d.var.nextXidData
  length : d'.file.length = d.file.length

/-- The log begins with block 0, and the range to recover ends in the file or the next block. -/
def Disk.Recoverable (d : Disk) : Prop :=
  d.var.baseline.toNat < 32768 ∧ (d.nextId ≤ d.checkpoint ∨ d.var.nextXidData.toNat / 32768 ≤ d.file.length)

theorem Disk.present_iff (d : Disk) (q : Nat) : d.log.Present q ↔ q ≤ d.file.length := by
  show (none : Option Page).isSome ∨ q < d.file.length ∨ d.file.length = q ↔ _
  simp
  omega

theorem Disk.toNat_nextId (d : Disk) : d.nextId.toNat = d.var.nextXidData.toNat+1 := by
  have hnum := d.numbered
  have hp : pNew.toNat = 2^48 - 1 := rfl
  exact toNat_succ _ (by omega)

theorem toNat_computeBlock_zero (x : TransactionId) : (transComputeBlockNumber 0 x).toNat = x.toNat / 32768 := by
  have h := toNat_computeBlock 0 x (by simp)
  simpa using h

theorem computeBlock_first {mark : TransactionId} (x : TransactionId) (h : mark.toNat < 32768) :
    transComputeBlockNumber mark x = transComputeBlockNumber 0 x := by
  apply BitVec.eq_of_toNat_eq
  rw [toNat_computeBlock mark x (by omega), toNat_computeBlock_zero]
  omega

/-! ## The test of the bootstrap id -/

theorem boot_test (d : Disk) (mask : XidTest) : (transactionLogTest 0 .fresh d.log amiTransactionId mask).1 =
        .ok (mask.holds (transBlockGetXidStatus (d.file.getD 0 .blank) amiTransactionId)) ∧
      (transactionLogTest 0 .fresh d.log amiTransactionId mask).2.1 = TransactionInfo.fresh.remember amiTransactionId
          (transBlockGetXidStatus (d.file.getD 0 .blank) amiTransactionId) := by
  have h := logTest_eq 0 amiTransactionId .fresh d.log mask (by decide) (by decide)
    ((d.present_iff _).mpr (by exact Nat.zero_le _))
    fun e => absurd e (by decide)
  exact h

/-! ## The scan from start to end -/

def startScan (log : LogRelation) (info : TransactionInfo) : Scan where
  log := log
  info := info
  masterblock := pNew
  buffer := none

def Disk.afterScan (d : Disk) (log : LogRelation) (done : Scan) : Transam :=
  setTransactionRecoveryCheckpoint ((d.boot.withLog log).takeId.withLog done.log.flushAllDirtyBuffers) d.nextId

theorem transRecover_eq (d : Disk) (log : LogRelation) (info : TransactionInfo) :
    transRecover (d.boot.withLog log) info = ((startScan log info).recoverFrom 0 d.checkpoint
        (d.nextId.toNat-d.checkpoint.toNat)).map (d.afterScan log) :=
  rfl

variable {info : TransactionInfo} {d : Disk} {dids : List Nat} {t : Transam} {cfg : Config}
  {log : LogRelation}

theorem startScan_scanned {lw : TransactionId} (h : info.Spent 0 log lw.toNat) :
    Scanned 0 log lw lw.toNat (startScan log info) where
  status := by
    intro y _
    rw [settled, if_neg]
    · rfl
    · rintro ⟨hle, hlt, -⟩
      exact absurd (BitVec.le_def.mp hle) (by omega)
  present := fun _ => .rfl
  inHand := fun hm => absurd rfl hm
  cache := h

theorem boot_spent (ht : Tested d.log log) (x : Nat) {s : XidStatus}
    (hs : s = transBlockGetXidStatus (d.file.getD 0 .blank) amiTransactionId) :
    (TransactionInfo.fresh.remember amiTransactionId s).Spent 0 log x := by
  unfold TransactionInfo.remember
  split
  · refine .inr (.inr ?_)
    intro _
    have hans : log.answer 0 amiTransactionId = transBlockGetXidStatus (log.view 0)
      amiTransactionId := rfl
    rw [hans, ht.view, hs]
    rfl
  · exact .inl rfl

theorem readable_range (ht : Tested d.log log)
    (h : d.nextId ≤ d.checkpoint ∨ d.var.nextXidData.toNat / 32768 ≤ d.file.length) :
    Readable 0 log d.checkpoint.toNat (d.nextId.toNat-d.checkpoint.toNat) := by
  intro y hy hyn
  have hnext := d.toNat_nextId
  have hnum := d.numbered
  have hlen : d.var.nextXidData.toNat / 32768 ≤ d.file.length := by
    obtain hle | hlen := h
    · exact absurd (BitVec.le_def.mp hle) (by omega)
    · exact hlen
  have hblk := toNat_computeBlock_zero y
  refine ⟨?_, ?_, ?_⟩
  · intro e
    rw [e] at hblk
    omega
  · unfold seekLimit
    omega
  · rw [ht.present, d.present_iff]
    omega

theorem transRecover_ok (ht : Tested d.log log) (hinfo : ∀ x, info.Spent 0 log x)
    (h : d.nextId ≤ d.checkpoint ∨ d.var.nextXidData.toNat / 32768 ≤ d.file.length) :
    ∃ done, transRecover (d.boot.withLog log) info = .ok (d.afterScan log done) ∧ Scanned 0 log d.checkpoint
        (d.checkpoint.toNat + (d.nextId.toNat-d.checkpoint.toNat)) done := by
  obtain ⟨done, hok, hscan⟩ := recoverFrom_scanned 0 log d.checkpoint
    (d.nextId.toNat-d.checkpoint.toNat) d.checkpoint (startScan log info)
    (startScan_scanned (hinfo _)) (BitVec.le_refl _) (Nat.zero_le _)
    (by omega) (readable_range ht h)
  refine ⟨done, ?_, hscan⟩
  rw [transRecover_eq, hok]
  rfl

theorem flushAll_present (log : LogRelation) (r : Nat) (h : log.Present r) : log.flushAllDirtyBuffers.Present r := by
  have hlen := PageCache.length_le_flushAll .blank log.store
  unfold LogRelation.Present LogRelation.flushAllDirtyBuffers at *
  rw [PageCache.cached_flushAll]
  obtain hc | hlt | hn := h
  · exact .inl hc
  · exact .inr (.inl (hlt.trans_le hlen))
  · exact .inr (.inr hn)

theorem settled_eq_recovered (ht : Tested d.log log) {x : TransactionId}
    (h0 : x ≠ 0) (hr : transComputeBlockNumber 0 x ≤ 32*1024) :
    settled 0 log d.checkpoint (d.checkpoint.toNat + (d.nextId.toNat-d.checkpoint.toNat)) x =
      d.recoveredStatus x (d.log.status 0 x) := by
  have hst : log.status 0 x = d.log.status 0 x := by
    rw [LogRelation.status, ht.view]
    rfl
  have hans : log.answer 0 x = d.log.status 0 x := by
    rw [LogRelation.answer, if_neg (BitVec.not_lt.mpr hr), hst]
  unfold settled Disk.recoveredStatus
  rw [hans, hst]
  by_cases hlw : d.checkpoint ≤ x
  · have hle := BitVec.le_def.mp hlw
    have hiff : x.toNat < d.checkpoint.toNat + (d.nextId.toNat-d.checkpoint.toNat) ↔ x < d.nextId := by
      rw [BitVec.lt_def]
      omega
    simp only [hlw, hiff, h0, ne_eq, not_false_eq_true, true_and, and_comm]
  · simp only [hlw, false_and, and_false, if_false]

theorem same_block_base (cfg : Config) (dids : List Nat) (t : Transam)
    (h : (lowWater t.var.databases dids).toNat / 32768 = t.var.baseline.toNat / 32768) :
    (initTransactionLowWaterMark cfg t).base dids = 0 := by
  apply BitVec.eq_of_toNat_eq
  have e := toNat_computeBlock t.var.baseline (lowWater t.var.databases dids) (by omega)
  show (transComputeBlockNumber t.var.baseline (lowWater t.var.databases dids)).toNat = 0
  omega

/-! ## The condition is enough -/

theorem initialize_eq (hcommit : XidTest.commit.holds (transBlockGetXidStatus (d.file.getD 0 .blank) amiTransactionId))
    (ht : transRecover (d.boot.withLog (transactionLogTest 0 .fresh d.log amiTransactionId .commit).2.2)
      (transactionLogTest 0 .fresh d.log amiTransactionId .commit).2.1 = .ok t)
    (hb : (initTransactionLowWaterMark cfg t).base dids = 0) :
    initializeTransactionLog cfg dids d.boot .fresh = .ok (raiseMark (initTransactionLowWaterMark cfg t)
        ((initTransactionLowWaterMark cfg t).low dids)) := by
  have hres := (boot_test d .commit).1
  rw [hcommit] at hres
  refine (initialize_ok_iff (Prod.ext hres rfl)).mpr ⟨t, ?_, vacuum_eq_of_same_block dids _ hb⟩
  exact ht

section

variable (cfg : Config) (dids : List Nat) (d : Disk) (log : LogRelation) (done : Scan)
  (hfirst : d.var.baseline.toNat < 32768) (ht : Tested d.log log)
  (hscan : Scanned 0 log d.checkpoint (d.checkpoint.toNat + (d.nextId.toNat-d.checkpoint.toNat)) done)
include hfirst ht hscan

theorem afterScan_present (x : TransactionId)
    (hp : d.recorded.log.Present (transComputeBlockNumber d.var.baseline x).toNat) :
    (d.afterScan log done).log.Present (transComputeBlockNumber 0 x).toNat := by
  refine flushAll_present done.log _ ?_
  rw [hscan.present, ht.present, ← computeBlock_first x hfirst]
  exact hp

theorem afterScan_status (x : TransactionId) (h0 : x ≠ 0) (hr : d.recorded.Reaches x) :
    (d.afterScan log done).log.status 0 x = d.recoveredStatus x (d.recorded.status x) := by
  have hfb := computeBlock_first x hfirst
  have hreach : transComputeBlockNumber 0 x ≤ 32*1024 := by
    rw [← hfb]
    exact hr
  have hst := hscan.status x (by simp)
  rw [settled_eq_recovered ht h0 hreach] at hst
  have hrec : d.recorded.status x = d.log.status 0 x := by
    show transBlockGetXidStatus (d.log.view (transComputeBlockNumber d.var.baseline x).toNat) x = _
    rw [hfb]
    rfl
  rw [hrec, ← hst]
  show transBlockGetXidStatus (done.log.flushAllDirtyBuffers.view _) x = _
  rw [LogRelation.view, LogRelation.flushAllDirtyBuffers, PageCache.view_flushAll]
  rfl

theorem afterScan_reads (t : Transam)
    (e : t = initTransactionLowWaterMark cfg (d.afterScan log done)) (hb : t.base dids = 0)
    (x : TransactionId) (hx : (raiseMark t (t.low dids)).shmem.xidLowWaterMark ≤ x)
    (hr : d.recorded.Reaches x) (s : XidStatus) (hs : d.recorded.read x = .ok s) :
    (raiseMark t (t.low dids)).read x = .ok (d.recoveredStatus x s) := by
  have hmark : t.shmem.xidLowWaterMark = d.var.baseline := by
    rw [e]
    rfl
  have hlog : t.log = (d.afterScan log done).log := by
    rw [e]
    rfl
  have hm : d.var.baseline ≤ (raiseMark t (t.low dids)).shmem.xidLowWaterMark := by
    rw [← hmark]
    exact mark_le_raiseMark t _
  obtain ⟨h0, hp, rfl⟩ := (read_eq_ok_iff d.recorded x (BitVec.le_trans hm hx) hr s).mp hs
  have hblock := computeBlock_raiseMark dids t hb x
  rw [hmark, computeBlock_first x hfirst] at hblock
  refine (read_eq_ok_iff _ x hx (reaches_of_le hm hx hr) _).mpr ⟨h0, ?_, ?_⟩
  · show (raiseMark t _).log.Present (transComputeBlockNumber _ x).toNat
    rw [hblock, raiseMark_log, hlog]
    exact afterScan_present d log done hfirst ht hscan x hp
  · show transBlockGetXidStatus ((raiseMark t _).log.view (transComputeBlockNumber _ x).toNat) x = _
    rw [hblock, raiseMark_log, hlog]
    exact afterScan_status d log done hfirst ht hscan x h0 hr

end

theorem recoversExactly_of_recoverable (cfg : Config) (hno : NoRebase dids d) (h : d.Recoverable) :
    RecoversExactly cfg dids d := by
  obtain ⟨hfirst, hrange⟩ := h
  have htested := logTest_tested 0 amiTransactionId .fresh d.log .commit
  have hinfo : ∀ x, (transactionLogTest 0 .fresh d.log amiTransactionId .commit).2.1.Spent 0
      (transactionLogTest 0 .fresh d.log amiTransactionId .commit).2.2 x := by
    intro x
    rw [(boot_test d .commit).2]
    exact boot_spent htested x rfl
  obtain ⟨done, hok, hscan⟩ := transRecover_ok htested hinfo hrange
  have hb := same_block_base cfg dids (d.afterScan
    (transactionLogTest 0 .fresh d.log amiTransactionId .commit).2.2 done) hno
  refine ⟨_, initialize_eq (d.initialised hfirst) hok hb, ?_⟩
  exact afterScan_reads cfg dids d _ done hfirst htested hscan _ rfl hb

/-! ## The condition is needed -/

/-- One database, whose mark is that of the log, and another file of the same size. -/
def Disk.refill (d : Disk) (did : Nat) (first : Page) (h : d.var.baseline.toNat < 32768 →
      XidTest.commit.holds (transBlockGetXidStatus first amiTransactionId)) : Disk where
  var := { d.var with databases := [{ init := true, database := did, lowwater := d.var.baseline }] }
  file := first :: List.replicate (d.file.length-1) Page.blank
  newPage := d.newPage
  nonempty := Nat.succ_pos _
  numbered := d.numbered
  initialised := h

section
variable (d : Disk) (did : Nat) (first : Page) (h : d.var.baseline.toNat < 32768 →
    XidTest.commit.holds (transBlockGetXidStatus first amiTransactionId))

theorem refill_sameMarks : SameMarks d (d.refill did first h) where
  baseline := rfl
  checkpoint := rfl
  nextXidData := rfl
  length := by
    have hpos := d.nonempty
    show (first :: List.replicate (d.file.length-1) .blank).length = _
    rw [length_cons, length_replicate]
    omega

theorem refill_first : (d.refill did first h).file.getD 0 .blank = first := rfl

theorem lowWater_single (did : Nat) (low : TransactionId) :
    lowWater [{ init := true, database := did, lowwater := low }] [did] = low := by
  have hmin : dbmin [{ init := true, database := did, lowwater := low }] did = low := by
    simp [dbmin]
  have hones : (BitVec.allOnes 64).toNat = 2^64 - 1 := rfl
  rw [lowWater, foldl_cons, foldl_nil, hmin]
  split_ifs with hn
  · rfl
  · rw [BitVec.lt_def] at hn
    apply BitVec.eq_of_toNat_eq
    omega

theorem refill_noRebase : NoRebase [did] (d.refill did first h) := by
  show (lowWater [{ init := true, database := did, lowwater := d.var.baseline }] [did]).toNat / 32768 = _
  rw [lowWater_single]
  rfl

end

/-- After a failed test of the bootstrap id the database gets the mark 514, and the log cannot be
re-based downwards. -/
theorem virgin_not_ok (hfar : 32768 ≤ d.var.baseline.toNat) (hdb : d.var.databases =
      [{ init := true, database := cfg.databaseId, lowwater := d.var.baseline }])
    {t' : Transam} (hv : initializeVirgin cfg (d.boot.withLog log) = .ok t)
    (hvac : vacuumTransactionLog [cfg.databaseId] (initTransactionLowWaterMark cfg t) = (.ok (), t')) : False := by
  have hvar : t.var.baseline = d.var.baseline ∧ t.var.databases =
        [{ init := true, database := cfg.databaseId, lowwater := firstTransactionId }] := by
    unfold initializeVirgin at hv
    split at hv
    · cases hv
    split at hv
    · cases hv
    · have hset : setLowWater cfg.databaseId firstTransactionId (d.boot.withLog log).var.databases =
          some [{ init := true, database := cfg.databaseId, lowwater := firstTransactionId }] := by
        show setLowWater _ _ d.var.databases = _
        rw [hdb, setLowWater, if_pos rfl]
      rw [hset] at hv
      cases hv
      exact ⟨rfl, rfl⟩
  have hlow : (initTransactionLowWaterMark cfg t).low [cfg.databaseId] = firstTransactionId := by
    show lowWater t.var.databases _ = _
    rw [hvar.2, lowWater_single]
  have hmark : (initTransactionLowWaterMark cfg t).shmem.xidLowWaterMark = d.var.baseline := hvar.1
  have hbase : (initTransactionLowWaterMark cfg t).base [cfg.databaseId] ≠ 0 := by
    have hlim := seekLimit_le_computeBlock d.var.baseline firstTransactionId
      (lt_of_lt_of_le (by decide : firstTransactionId.toNat / 32768 < 1) (by omega))
    rw [Transam.base, hlow, hmark]
    intro e
    rw [e] at hlim
    exact absurd hlim (by decide)
  rw [vacuum_eq_of_rebase hbase] at hvac
  have hlt := mark_lt_low_of_ok hbase (congrArg Prod.fst hvac)
  rw [hlow, hmark, BitVec.lt_def] at hlt
  have hfirst : firstTransactionId.toNat = 514 := rfl
  omega

theorem initialize_ok (h : initializeTransactionLog cfg dids d.boot .fresh = .ok t) :
    ∃ info log, Tested d.log log ∧ ∃ t',
      (if XidTest.commit.holds (transBlockGetXidStatus (d.file.getD 0 .blank) amiTransactionId)
        then transRecover (d.boot.withLog log) info
        else initializeVirgin cfg (d.boot.withLog log)) = .ok t' ∧
      vacuumTransactionLog dids (initTransactionLowWaterMark cfg t') = (.ok (), t) := by
  have hres := (boot_test d .commit).1
  have htested := logTest_tested 0 amiTransactionId .fresh d.log .commit
  exact ⟨_, _, htested, (initialize_ok_iff (Prod.ext hres rfl)).mp h⟩

theorem baseline_of_recovers (h : ∀ d' dids, SameMarks d d' → NoRebase dids d' → RecoversExactly cfg dids d') :
    d.var.baseline.toNat < 32768 := by
  by_contra hfar
  have hinit : d.var.baseline.toNat < 32768 → XidTest.commit.holds
      (transBlockGetXidStatus .blank amiTransactionId) := fun hlt => absurd hlt hfar
  obtain ⟨t, ht, -⟩ := h (d.refill cfg.databaseId .blank hinit) [cfg.databaseId]
    (refill_sameMarks d _ _ hinit) (refill_noRebase d _ _ hinit)
  obtain ⟨_, log, -, t', hbranch, hvac⟩ := initialize_ok ht
  rw [refill_first] at hbranch
  exact virgin_not_ok (by
    show 32768 ≤ d.var.baseline.toNat
    omega) rfl hbranch hvac

theorem startScan_moving (log : LogRelation) (info : TransactionInfo) : Moving log (startScan log info) where
  present := fun _ => .rfl
  master := .inl rfl
  buffer := by
    intro q hq
    cases hq

theorem length_of_recovers (hlt : d.checkpoint < d.nextId)
    (h : ∀ d' dids, SameMarks d d' → NoRebase dids d' → RecoversExactly cfg dids d') :
    d.var.nextXidData.toNat / 32768 ≤ d.file.length := by
  have hinit : d.var.baseline.toNat < 32768 → XidTest.commit.holds (transBlockGetXidStatus
      (transBlockSetXidStatus .blank amiTransactionId .commit) amiTransactionId) :=
    fun _ => by decide
  have hsame := refill_sameMarks d cfg.databaseId _ hinit
  obtain ⟨t, ht, -⟩ := h _ [cfg.databaseId] hsame (refill_noRebase d _ _ hinit)
  obtain ⟨info, log, htested, t', hbranch, -⟩ := initialize_ok ht
  rw [refill_first, transRecover_eq] at hbranch
  have hcp : (d.refill cfg.databaseId _ hinit).checkpoint = d.checkpoint := rfl
  have hnx : (d.refill cfg.databaseId _ hinit).nextId = d.nextId := rfl
  rw [hcp, hnx] at hbranch
  have hnext := d.toNat_nextId
  have hnum := d.numbered
  rw [BitVec.lt_def] at hlt
  cases hscan : (startScan log info).recoverFrom 0 d.checkpoint
      (d.nextId.toNat-d.checkpoint.toNat) with
  | error e =>
    rw [hscan] at hbranch
    cases hbranch
  | ok done =>
    have hpres := recoverFrom_present 0 log _ d.checkpoint (startScan log info) done
      (startScan_moving log info) (by omega) (by
        intro y _ hy e
        have hblk := toNat_computeBlock_zero y
        rw [e] at hblk
        omega) hscan d.var.nextXidData (by omega) (by omega)
    rw [htested.present, Disk.present_iff, toNat_computeBlock_zero, hsame.length] at hpres
    exact hpres

/-! ## Recovery -/

/-- **Start-up recovery.** Whatever is recorded is recovered exactly if the log is recoverable. -/
theorem recovery_exact_iff (cfg : Config) (d : Disk) :
    (∀ d' dids, SameMarks d d' → NoRebase dids d' → RecoversExactly cfg dids d') ↔
      d.Recoverable := by
  constructor
  · intro h
    refine ⟨baseline_of_recovers h, ?_⟩
    by_cases hlt : d.checkpoint < d.nextId
    · exact .inr (length_of_recovers hlt h)
    · exact .inl (BitVec.not_lt.mp hlt)
  · rintro ⟨hfirst, hrange⟩ d' dids hsame hno
    refine recoversExactly_of_recoverable cfg hno ⟨?_, ?_⟩
    · rw [hsame.baseline]
      exact hfirst
    · unfold Disk.nextId Disk.checkpoint getTransactionRecoveryCheckpoint at hrange ⊢
      rw [hsame.baseline, hsame.checkpoint, hsame.nextXidData, hsame.length]
      exact hrange

/-- The one block begins with id 32768; id 50000 has committed softly since. -/
def movedDisk : Disk where
  var :=
    { nextXidData := 50001
      baseline := 40000
      checkpoint := 49999
      databases := [{ init := true, database := 1, lowwater := 40000 }] }
  file := [transBlockSetXidStatus (transBlockSetXidStatus Page.blank 50000 .softCommit) 33280 .commit]
  newPage := Page.blank
  nonempty := by decide
  numbered := by decide
  initialised := fun h => absurd h (by decide)

/-- The scan looks for id 50000 in block 1, and its soft commit survives. -/
theorem not_every_recovery_exact : ¬ ∀ cfg dids d, NoRebase dids d → RecoversExactly cfg dids d := by
  intro h
  obtain ⟨t, ht, hread⟩ := h { isMultiuser := true, databaseId := 1, transactionPrefetch := none } [1] movedDisk
    (by unfold NoRebase; decide)
  have hfin : (initializeTransactionLog
      { isMultiuser := true, databaseId := 1, transactionPrefetch := none } [1] movedDisk.boot
      .fresh).map (fun t => (t.shmem.xidLowWaterMark, t.read 50000)) = .ok (40000, .ok .softCommit) := by decide
  rw [ht] at hfin
  obtain ⟨hmark, hsoft⟩ := Prod.mk.inj (Except.ok.inj hfin)
  have habort := hread 50000 (by rw [hmark]; decide) (by unfold Transam.Reaches; decide) .softCommit (by decide)
  rw [hsoft] at habort
  exact absurd habort (by decide)

end WeaverDB.TransLog
