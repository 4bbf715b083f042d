import WeaverDB.TransLog.Vacuum

/-! # Start-up of the transaction system after a crash (`access/transam/transam.c`)

`InitializeTransactionLog` on a server that has just been started, with recovery checking: the variable
cache is zeroed and the pool holds no page of `pg_log`. `smgrreplaylogs` writes no page of `pg_log` or
of the variable relation. `transactionLogTest` is the test after `TransactionSystemInitialized` is set;
it answers from `TransactionInfo` before it goes to the log. A failing `ReadBuffer` is retried for ever,
which is `LogError.spins`.
-/

namespace WeaverDB.TransLog
open BitVec

/-! ## Testing a status -/

structure TransactionInfo where
  cachedTestXid : TransactionId
  cachedTestXidStatus : XidStatus

inductive XidTest where
  | commit | abort | hardCommit | softCommit | inprogress
  deriving DecidableEq, Repr

def XidTest.holds (mask : XidTest) (s : XidStatus) : Bool :=
  match mask with
  | .commit => s == .softCommit || s == .commit
  | .abort => s == .abort
  | .hardCommit => s == .commit
  | .softCommit => s == .softCommit
  | .inprogress => s == .inprogress

def TransactionInfo.remember (info : TransactionInfo) (xid : TransactionId) (s : XidStatus) :
    TransactionInfo :=
  if s = .commit ∨ s = .abort then { cachedTestXid := xid, cachedTestXidStatus := s } else info

def transactionLogTest (lowWaterMark : TransactionId) (info : TransactionInfo) (log : LogRelation)
    (transactionId : TransactionId) (mask : XidTest) :
    Except LogError Bool × TransactionInfo × LogRelation :=
  if transactionId = 0 then (.ok (mask == .abort), info, log)
  else if transactionId = info.cachedTestXid then
    (.ok (mask.holds info.cachedTestXidStatus), info.remember transactionId info.cachedTestXidStatus, log)
  else
    match transBlockNumberGetXidStatus lowWaterMark log transactionId with
    | (.error e, log') => (.error e, info, log')
    | (.ok s, log') => (.ok (mask.holds s), info.remember transactionId s, log')

/-! ## The variable relation -/

def amiTransactionId : TransactionId := 512

def firstTransactionId : TransactionId := 514

def getNewTransactionId (v : Variables) : TransactionId × Variables :=
  let filled :=
    if v.shmem.xidCount = 0 then
      { v with
        var := { v.var with nextXidData := v.var.nextXidData + BitVec.ofNat 64 v.xidPrefetch }
        shmem := { v.shmem with nextXid := v.var.nextXidData+1, xidCount := v.xidPrefetch } }
    else v
  (filled.shmem.nextXid,
    { filled with
      shmem :=
        { filled.shmem with
          nextXid := filled.shmem.nextXid+1, xidCount := filled.shmem.xidCount - 1 } })

def Transam.takeId (t : Transam) : Transam := { t with toVariables := (getNewTransactionId t.toVariables).2 }

def getTransactionRecoveryCheckpoint (var : VariableRelation) : TransactionId :=
  if var.baseline < var.checkpoint then var.checkpoint else var.baseline

def setTransactionRecoveryCheckpoint (t : Transam) (recover : TransactionId) : Transam :=
  { t with var := { t.var with checkpoint := recover } }

/-- The search through the entries of the header page, `none` where it runs off the page. -/
def setLowWater (dbid : Nat) (lowwater : TransactionId) : List LogBase → Option (List LogBase)
  | [] => none
  | area :: rest =>
    if area.database = dbid then some ({ area with lowwater := lowwater } :: rest)
    else if !area.init then
      some ({ init := true, database := dbid, lowwater := lowwater } :: rest)
    else (setLowWater dbid lowwater rest).map (area :: ·)

structure Config where
  isMultiuser : Bool
  databaseId : Nat
  transactionPrefetch : Option Int

def varXidPrefetch : Nat := 8

def xidPrefetchFor (cfg : Config) (xidPrefetch : Nat) : Nat :=
  if cfg.isMultiuser then
    let chosen : Int := cfg.transactionPrefetch.getD (xidPrefetch*1024)
    if chosen ≤ 0 then varXidPrefetch * 1024 else chosen.toNat
  else xidPrefetch

def initTransactionLowWaterMark (cfg : Config) (t : Transam) : Transam :=
  { t with
    xidPrefetch := xidPrefetchFor cfg t.xidPrefetch
    shmem :=
      { t.shmem with
        xidLowWaterMark := t.var.baseline
        xidCheckpoint := t.var.nextXidData } }

/-! ## Recovery -/

structure Scan where
  log : LogRelation
  info : TransactionInfo
  masterblock : BlockNumber
  buffer : Option Nat

variable {mark lw x : TransactionId} {sc : Scan} {log₀ log : LogRelation} {info : TransactionInfo}

def Scan.moveTo (lowWaterMark : TransactionId) (sc : Scan) (mark : TransactionId) : Except LogError Scan :=
  let localblock := transComputeBlockNumber lowWaterMark mark
  if localblock = sc.masterblock then .ok sc
  else
    match readBuffer sc.log localblock with
    | none => .error .spins
    | some (q, log) => .ok { sc with log := log, masterblock := localblock, buffer := some q }

def Scan.settle (lowWaterMark : TransactionId) (sc : Scan) (mark : TransactionId) : Except LogError Scan :=
  match transactionLogTest lowWaterMark sc.info sc.log mark .softCommit with
  | (.error e, _) => .error e
  | (.ok soft, info, log) =>
    match soft, sc.buffer with
    | true, some q =>
      .ok { sc with
        info := info, log := log.write q (transBlockSetXidStatus (log.block q) mark .abort) }
    | _, _ => .ok { sc with info := info, log := log }

def Scan.recoverOne (lowWaterMark : TransactionId) (sc : Scan) (mark : TransactionId) : Except LogError Scan :=
  (sc.moveTo lowWaterMark mark).bind fun moved => moved.settle lowWaterMark mark

def Scan.recoverFrom (lowWaterMark : TransactionId) (sc : Scan) (mark : TransactionId) :
    Nat → Except LogError Scan
  | 0 => .ok sc
  | n + 1 =>
    (sc.recoverOne lowWaterMark mark).bind fun next => next.recoverFrom lowWaterMark (mark+1) n

def transRecover (t : Transam) (info : TransactionInfo) : Except LogError Transam :=
  let ctid := (getNewTransactionId t.toVariables).1
  let started := t.takeId
  let lowwater := getTransactionRecoveryCheckpoint started.var
  let sc : Scan := { log := started.log, info := info, masterblock := pNew, buffer := none }
  (sc.recoverFrom started.shmem.xidLowWaterMark lowwater (ctid.toNat-lowwater.toNat)).map fun done =>
      setTransactionRecoveryCheckpoint (started.withLog done.log.flushAllDirtyBuffers) ctid

/-- A virgin database: commit the id of the bootstrap, start at `firstTransactionId`. -/
def initializeVirgin (cfg : Config) (t : Transam) : Except LogError Transam :=
  if cfg.isMultiuser then .error (.fatal "this should not be happening")
  else
    match transBlockNumberSetXidStatus cfg.isMultiuser t.shmem.xidLowWaterMark t.log
        amiTransactionId .commit with
    | (.error e, _) => .error e
    | (.ok _, log) =>
      match setLowWater cfg.databaseId firstTransactionId t.var.databases with
      | none => .error (.fatal "Log cannot hold database info")
      | some databases =>
        .ok { t with
          log := log
          var := { t.var with databases := databases, nextXidData := firstTransactionId } }

def initializeTransactionLog (cfg : Config) (dids : List Nat) (t : Transam)
    (info : TransactionInfo) : Except LogError Transam :=
  let recovered : Except LogError Transam :=
    match transactionLogTest t.shmem.xidLowWaterMark info t.log amiTransactionId .commit with
    | (.error e, _) => .error e
    | (.ok true, info', log) => transRecover (t.withLog log) info'
    | (.ok false, _, log) => initializeVirgin cfg (t.withLog log)
  recovered.bind fun t' =>
    match vacuumTransactionLog dids (initTransactionLowWaterMark cfg t') with
    | (.error e, _) => .error e
    | (.ok _, t'') => .ok t''

theorem initialize_ok_iff {cfg : Config} {dids : List Nat} {t t' : Transam} {info' : TransactionInfo} {res : Bool}
    (htest : transactionLogTest t.shmem.xidLowWaterMark info t.log amiTransactionId .commit = (.ok res, info', log)) :
    initializeTransactionLog cfg dids t info = .ok t' ↔
      ∃ u, (if res then transRecover (t.withLog log) info' else initializeVirgin cfg (t.withLog log)) = .ok u ∧
        vacuumTransactionLog dids (initTransactionLowWaterMark cfg u) = (.ok (), t') := by
  have hlast (u : Transam) : (match vacuumTransactionLog dids (initTransactionLowWaterMark cfg u) with
      | (.error e, _) => Except.error e
      | (.ok _, t'') => .ok t'') = .ok t' ↔
      vacuumTransactionLog dids (initTransactionLowWaterMark cfg u) = (.ok (), t') := by
    rcases vacuumTransactionLog dids (initTransactionLowWaterMark cfg u) with ⟨_ | _, t''⟩ <;> simp
  unfold initializeTransactionLog
  rw [htest]
  cases res with
  | true => cases h : transRecover (t.withLog log) info' <;> simp [Except.bind, hlast, h]
  | false => cases h : initializeVirgin cfg (t.withLog log) <;> simp [Except.bind, hlast, h]

/-! ## What a test reads -/

def LogRelation.answer (mark : TransactionId) (log : LogRelation) (x : TransactionId) : XidStatus :=
  if 32 * 1024 < transComputeBlockNumber mark x then .abort else log.status mark x

theorem Fetched.present_iff {log' : LogRelation} {q : Nat} (h : Fetched log log' q)
    (hq : log.Present q) (r : Nat) : log'.Present r ↔ log.Present r := by
  by_cases hr : r = q
  · subst hr
    refine ⟨fun _ => hq, fun _ => .inl ?_⟩
    rw [h.cached]
    rfl
  · exact h.present r hr

variable {log' : LogRelation} {q : Nat}

theorem present_of_readBuffer {blockNum : BlockNumber} (hnew : blockNum ≠ pNew)
    (h : readBuffer log blockNum = some (q, log')) : log.Present blockNum.toNat := by
  by_contra hp
  rw [readBuffer_eq_none hnew (.inr hp)] at h
  cases h

theorem get_present (mark x : TransactionId) (log : LogRelation) (r : Nat) :
    (transBlockNumberGetXidStatus mark log x).2.Present r ↔ log.Present r := by
  obtain e | ⟨q, hnew, hr⟩ := get_log mark x log
  · rw [e]
  · obtain ⟨hq, hf⟩ := readBuffer_fetched hnew hr
    have hp := present_of_readBuffer hnew hr
    rw [← hq] at hp
    exact hf.present_iff hp r

theorem get_answer (h0 : x ≠ 0) (hx : mark ≤ x) (hp : log.Present (transComputeBlockNumber mark x).toNat) :
    (transBlockNumberGetXidStatus mark log x).1 = .ok (log.answer mark x) := by
  rw [get_eq log h0 hx]
  unfold LogRelation.answer
  split <;> rfl

/-- If the cached item is about `x`, it says what the log says. -/
def TransactionInfo.Agrees (info : TransactionInfo) (mark : TransactionId) (log : LogRelation)
    (x : TransactionId) : Prop :=
  info.cachedTestXid = x → info.cachedTestXidStatus = log.answer mark x

/-- The cached item cannot mislead a test of an id from `x` on. -/
def TransactionInfo.Spent (info : TransactionInfo) (mark : TransactionId) (log : LogRelation)
    (x : Nat) : Prop :=
  info.cachedTestXid = 0 ∨ info.cachedTestXid.toNat < x ∨ info.Agrees mark log info.cachedTestXid

theorem TransactionInfo.Spent.succ {x : Nat} (h : info.Spent mark log x) : info.Spent mark log (x+1) :=
  h.imp_right (.imp_left Nat.lt_succ_of_lt)

structure Tested (log log' : LogRelation) : Prop where
  view : ∀ r, log'.view r = log.view r
  present : ∀ r, log'.Present r ↔ log.Present r
  cached : ∀ r, (log.store.cached r).isSome → (log'.store.cached r).isSome

theorem Tested.refl (log : LogRelation) : Tested log log := ⟨fun _ => rfl, fun _ => .rfl, fun _ => id⟩

section

variable (mark x : TransactionId)

theorem get_cached (log : LogRelation) (r : Nat) (h : (log.store.cached r).isSome) :
    ((transBlockNumberGetXidStatus mark log x).2.store.cached r).isSome := by
  obtain e | ⟨q, hnew, hr⟩ := get_log mark x log
  · rw [e]
    exact h
  · obtain ⟨hq, hf⟩ := readBuffer_fetched hnew hr
    by_cases hrq : r = q
    · rw [hrq, hf.cached]
      rfl
    · rw [hf.cachedNe r hrq]
      exact h

theorem get_tested (log : LogRelation) : Tested log (transBlockNumberGetXidStatus mark log x).2 :=
  ⟨(get_unchanged mark x log).1, get_present mark x log, get_cached mark x log⟩

theorem logTest_tested (info : TransactionInfo) (log : LogRelation)
    (mask : XidTest) : Tested log (transactionLogTest mark info log x mask).2.2 := by
  unfold transactionLogTest
  split
  · exact Tested.refl log
  split
  · exact Tested.refl log
  · have h := get_tested mark x log
    cases hg : transBlockNumberGetXidStatus mark log x with
    | mk res log' =>
      rw [hg] at h
      cases res <;> exact h

theorem logTest_eq (info : TransactionInfo) (log : LogRelation) (mask : XidTest) (h0 : x ≠ 0) (hx : mark ≤ x)
    (hp : log.Present (transComputeBlockNumber mark x).toNat) (hc : info.Agrees mark log x) :
    (transactionLogTest mark info log x mask).1 = .ok (mask.holds (log.answer mark x)) ∧
      (transactionLogTest mark info log x mask).2.1 = info.remember x (log.answer mark x) := by
  unfold transactionLogTest
  rw [if_neg h0]
  split_ifs with heq
  · rw [hc heq.symm]
    exact ⟨rfl, rfl⟩
  · have h := get_answer h0 hx hp
    cases hg : transBlockNumberGetXidStatus mark log x with
    | mk res log' =>
      rw [hg] at h
      rw [show res = _ from h]
      exact ⟨rfl, rfl⟩

end

/-! ## One step of the recovery scan -/

/-- The status the scan has given `y` once it is past all ids below `x`. -/
def settled (mark : TransactionId) (log₀ : LogRelation) (lw : TransactionId) (x : Nat)
    (y : TransactionId) : XidStatus :=
  if lw ≤ y ∧ y.toNat < x ∧ y ≠ 0 ∧ log₀.answer mark y = .softCommit then .abort
  else log₀.status mark y

structure Scanned (mark : TransactionId) (log₀ : LogRelation) (lw : TransactionId) (x : Nat)
    (sc : Scan) : Prop where
  status : ∀ y : TransactionId, mark.toNat / 32768 ≤ y.toNat / 32768 →
    sc.log.status mark y = settled mark log₀ lw x y
  present : ∀ r, sc.log.Present r ↔ log₀.Present r
  inHand : sc.masterblock ≠ pNew →
    sc.buffer = some sc.masterblock.toNat ∧ (sc.log.store.cached sc.masterblock.toNat).isSome
  cache : sc.info.Spent mark log₀ x

theorem Scanned.of_tested {x : Nat} (h : Scanned mark log₀ lw x sc) (ht : Tested sc.log log') :
    Scanned mark log₀ lw x { sc with log := log' } where
  status := by
    intro y hy
    rw [LogRelation.status, ht.view]
    exact h.status y hy
  present := fun r => (ht.present r).trans (h.present r)
  inHand := fun hm => ⟨(h.inHand hm).1, ht.cached _ (h.inHand hm).2⟩
  cache := h.cache

theorem fetched_of_cached (h : (log.store.cached q).isSome) : Fetched log log q := by
  obtain ⟨p, hp⟩ := Option.isSome_iff_exists.mp h
  refine bufferFor_fetched ?_
  rw [bufferFor, hp]

theorem moveTo_scanned {n : Nat} (h : Scanned mark log₀ lw n sc) (hnew : transComputeBlockNumber mark x ≠ pNew)
    (hseek : (transComputeBlockNumber mark x).toNat < seekLimit)
    (hp : log₀.Present (transComputeBlockNumber mark x).toNat) :
    ∃ sc', sc.moveTo mark x = .ok sc' ∧ Scanned mark log₀ lw n sc' ∧
      sc'.masterblock = transComputeBlockNumber mark x := by
  unfold Scan.moveTo
  by_cases hm : transComputeBlockNumber mark x = sc.masterblock
  · exact ⟨sc, if_pos hm, h, hm.symm⟩
  · obtain ⟨log', hr, hf⟩ := readBuffer_of_present sc.log _ hnew hseek ((h.present _).mpr hp)
    refine ⟨_, by rw [if_neg hm, hr], ?_, rfl⟩
    exact
      { status := by
          intro y hy
          rw [LogRelation.status, hf.view]
          exact h.status y hy
        present := fun r => (hf.present_iff ((h.present _).mpr hp) r).trans (h.present r)
        inHand := by
          intro _
          refine ⟨rfl, ?_⟩
          rw [hf.cached]
          rfl
        cache := h.cache }

theorem settled_self (mark lw : TransactionId) (log₀ : LogRelation) (x : TransactionId) :
    settled mark log₀ lw x.toNat x = log₀.status mark x := by
  rw [settled, if_neg fun h => lt_irrefl _ h.2.1]

theorem settled_succ_of_ne (mark lw : TransactionId) (log₀ : LogRelation) (x y : TransactionId)
    (h : x ≠ y) : settled mark log₀ lw (x.toNat+1) y = settled mark log₀ lw x.toNat y := by
  have hne : x.toNat ≠ y.toNat := fun e => h (eq_of_toNat_eq e)
  have hiff : y.toNat < x.toNat + 1 ↔ y.toNat < x.toNat := by omega
  simp only [settled, hiff]

theorem Scanned.answer (h : Scanned mark log₀ lw x.toNat sc)
    (hx : mark.toNat / 32768 ≤ x.toNat / 32768) : sc.log.answer mark x = log₀.answer mark x := by
  rw [LogRelation.answer, LogRelation.answer, h.status x hx, settled_self]

theorem remember_spent (s : XidStatus) (h : info.Spent mark log₀ x.toNat) :
    (info.remember x s).Spent mark log₀ (x.toNat+1) := by
  unfold TransactionInfo.remember
  split
  · exact .inr (.inl (Nat.lt_succ_self _))
  · exact h.succ

theorem settled_succ_self (mark : TransactionId) (log₀ : LogRelation) (hlw : lw ≤ x) :
    settled mark log₀ lw (x.toNat+1) x =
      if x ≠ 0 ∧ log₀.answer mark x = .softCommit then .abort else log₀.status mark x := by
  simp [settled, hlw]

theorem Scanned.skip (h : Scanned mark log₀ lw x.toNat sc) (hlw : lw ≤ x)
    (hsoft : ¬ (x ≠ 0 ∧ log₀.answer mark x = .softCommit)) (info : TransactionInfo)
    (hinfo : info.Spent mark log₀ (x.toNat+1)) :
    Scanned mark log₀ lw (x.toNat+1) { sc with info := info } where
  status := by
    intro y hy
    rw [h.status y hy]
    by_cases hxy : x = y
    · subst hxy
      rw [settled_self, settled_succ_self mark log₀ hlw, if_neg hsoft]
    · exact (settled_succ_of_ne mark lw log₀ x y hxy).symm
  present := h.present
  inHand := h.inHand
  cache := hinfo

theorem write_present (p : Page) (hq : log.Present q) (r : Nat) : (log.write q p).Present r ↔ log.Present r := by
  unfold LogRelation.Present LogRelation.write
  rw [PageCache.cached_put]
  by_cases hr : r = q
  · rw [if_pos hr, hr]
    exact ⟨fun _ => hq, fun _ => .inl rfl⟩
  · rw [if_neg hr]
    rfl

theorem Scanned.abort (h : Scanned mark log₀ lw x.toNat sc) (hlw : lw ≤ x)
    (hx : mark.toNat / 32768 ≤ x.toNat / 32768) (hsoft : x ≠ 0 ∧ log₀.answer mark x = .softCommit)
    (hm : sc.masterblock = transComputeBlockNumber mark x)
    (hc : (sc.log.store.cached (transComputeBlockNumber mark x).toNat).isSome)
    (info : TransactionInfo) (hinfo : info.Spent mark log₀ (x.toNat+1)) :
    Scanned mark log₀ lw (x.toNat+1)
      { sc with
        info := info
        log := sc.log.write (transComputeBlockNumber mark x).toNat
          (transBlockSetXidStatus (sc.log.block (transComputeBlockNumber mark x).toNat) x .abort) }
    where
  status := by
    intro y hy
    have hf := fetched_of_cached hc
    have hw := wrote_write hf (transBlockSetXidStatus (sc.log.view (transComputeBlockNumber mark x).toNat) x .abort)
    rw [hf.block, hw.status hx y hy]
    by_cases hxy : x = y
    · subst hxy
      rw [if_pos rfl, settled_succ_self mark log₀ hlw, if_pos hsoft]
      rfl
    · rw [if_neg hxy, h.status y hy, settled_succ_of_ne mark lw log₀ x y hxy]
  present := by
    intro r
    rw [← h.present r]
    exact write_present _ (.inl hc) r
  inHand := by
    intro hnew
    refine ⟨(h.inHand hnew).1, ?_⟩
    rw [LogRelation.write, PageCache.cached_put, hm, if_pos rfl]
    rfl
  cache := hinfo

theorem Scanned.agrees (h : Scanned mark log₀ lw x.toNat sc) (h0 : x ≠ 0)
    (hx : mark.toNat / 32768 ≤ x.toNat / 32768) : sc.info.Agrees mark sc.log x := by
  intro heq
  rw [h.answer hx]
  obtain hz | hlt | hag := h.cache
  · exact absurd (heq.symm.trans hz) h0
  · rw [heq] at hlt
    exact absurd hlt (lt_irrefl _)
  · rw [heq] at hag
    exact hag heq

section

variable (mark : TransactionId) (log₀ : LogRelation) (lw x : TransactionId) (sc : Scan)
  (h : Scanned mark log₀ lw x.toNat sc) (hlw : lw ≤ x) (hx : mark ≤ x)
  (hnew : transComputeBlockNumber mark x ≠ pNew)
include h hlw hx hnew

theorem settle_scanned (hm : sc.masterblock = transComputeBlockNumber mark x)
    (hp : log₀.Present (transComputeBlockNumber mark x).toNat) :
    ∃ sc', sc.settle mark x = .ok sc' ∧ Scanned mark log₀ lw (x.toNat+1) sc' := by
  have hxb : mark.toNat / 32768 ≤ x.toNat / 32768 := Nat.div_le_div_right (le_def.mp hx)
  have hbuf := h.inHand (by rw [hm]; exact hnew)
  by_cases h0 : x = 0
  · refine ⟨{ sc with info := sc.info }, ?_, ?_⟩
    · rw [Scan.settle, transactionLogTest, if_pos h0]
      rfl
    · exact h.skip hlw (fun hs => hs.1 h0) sc.info h.cache.succ
  obtain ⟨hres, hinfo⟩ := logTest_eq mark x sc.info sc.log .softCommit h0 hx ((h.present _).mpr hp) (h.agrees h0 hxb)
  have htested := logTest_tested mark x sc.info sc.log .softCommit
  rw [h.answer hxb] at hres hinfo
  have hcache := remember_spent (log₀.answer mark x) h.cache
  rw [← hinfo] at hcache
  unfold Scan.settle
  cases ht : transactionLogTest mark sc.info sc.log x .softCommit with
  | mk res rest =>
    obtain ⟨info', log'⟩ := rest
    rw [ht] at hres htested hcache
    obtain rfl : res = _ := hres
    have h' := h.of_tested htested
    by_cases hsoft : log₀.answer mark x = .softCommit
    · have htrue : XidTest.softCommit.holds (log₀.answer mark x) := by
        rw [hsoft]
        rfl
      rw [htrue, hbuf.1]
      refine ⟨_, rfl, ?_⟩
      have hc : (log'.store.cached (transComputeBlockNumber mark x).toNat).isSome := by
        rw [← hm]
        exact htested.cached _ hbuf.2
      have hab := h'.abort hlw hxb ⟨h0, hsoft⟩ hm hc info' hcache
      simp only [← hm, hbuf.1] at hab
      exact hab
    · have hfalse : XidTest.softCommit.holds (log₀.answer mark x) = false := by
        revert hsoft
        cases log₀.answer mark x <;> decide
      rw [hfalse]
      exact ⟨_, rfl, h'.skip hlw (fun hs => hsoft hs.2) info' hcache⟩

theorem recoverOne_scanned (hseek : (transComputeBlockNumber mark x).toNat < seekLimit)
    (hp : log₀.Present (transComputeBlockNumber mark x).toNat) :
    ∃ sc', sc.recoverOne mark x = .ok sc' ∧ Scanned mark log₀ lw (x.toNat+1) sc' := by
  obtain ⟨moved, hmove, hscan, hm⟩ := moveTo_scanned h hnew hseek hp
  obtain ⟨sc', hsettle, hscan'⟩ := settle_scanned mark log₀ lw x moved hscan hlw hx hnew hm hp
  refine ⟨sc', ?_, hscan'⟩
  rw [Scan.recoverOne, hmove]
  exact hsettle

end

def Readable (mark : TransactionId) (log : LogRelation) (x n : Nat) : Prop :=
  ∀ y : TransactionId, x ≤ y.toNat → y.toNat < x+n →
    transComputeBlockNumber mark y ≠ pNew ∧ (transComputeBlockNumber mark y).toNat < seekLimit ∧
      log.Present (transComputeBlockNumber mark y).toNat

theorem toNat_succ (x : TransactionId) (h : x.toNat + 1 < 2^64) : (x+1).toNat = x.toNat+1 := by
  bv_omega

theorem recoverFrom_scanned (mark : TransactionId) (log₀ : LogRelation) (lw : TransactionId)
    (n : Nat) (x : TransactionId) (sc : Scan) (h : Scanned mark log₀ lw x.toNat sc) (hlw : lw ≤ x)
    (hx : mark ≤ x) (hn : x.toNat + n < 2^64) (hr : Readable mark log₀ x.toNat n) :
    ∃ sc', sc.recoverFrom mark x n = .ok sc' ∧ Scanned mark log₀ lw (x.toNat+n) sc' := by
  induction n generalizing x sc with
  | zero => exact ⟨sc, rfl, h⟩
  | succ n ih =>
    obtain ⟨hnew, hseek, hp⟩ := hr x (le_rfl) (by omega)
    obtain ⟨next, hone, hscan⟩ := recoverOne_scanned mark log₀ lw x sc h hlw hx hnew hseek hp
    have hsucc := toNat_succ x (by omega)
    rw [← hsucc] at hscan
    have hle : x ≤ x+1 := by
      rw [le_def]
      omega
    obtain ⟨sc', hrest, hscan'⟩ := ih (x+1) next hscan (BitVec.le_trans hlw hle)
      (BitVec.le_trans hx hle) (by omega) (by
        intro y hy hyn
        exact hr y (by omega) (by omega))
    refine ⟨sc', ?_, ?_⟩
    · rw [Scan.recoverFrom, hone]
      exact hrest
    · rw [hsucc] at hscan'
      rw [show x.toNat + (n+1) = x.toNat + 1 + n by omega]
      exact hscan'

/-! ## A scan that returns has read every block -/

structure Moving (log₀ : LogRelation) (sc : Scan) : Prop where
  present : ∀ r, sc.log.Present r ↔ log₀.Present r
  master : sc.masterblock = pNew ∨ log₀.Present sc.masterblock.toNat
  buffer : ∀ q, sc.buffer = some q → log₀.Present q

section

variable (mark : TransactionId) (log₀ : LogRelation)

theorem moveTo_moving (sc sc' : Scan) (h : Moving log₀ sc) (x : TransactionId)
    (hnew : transComputeBlockNumber mark x ≠ pNew) (hok : sc.moveTo mark x = .ok sc') :
    Moving log₀ sc' ∧ log₀.Present (transComputeBlockNumber mark x).toNat := by
  unfold Scan.moveTo at hok
  by_cases hm : transComputeBlockNumber mark x = sc.masterblock
  · rw [if_pos hm] at hok
    cases hok
    rw [hm] at hnew ⊢
    exact ⟨h, h.master.resolve_left hnew⟩
  · rw [if_neg hm] at hok
    cases hr : readBuffer sc.log (transComputeBlockNumber mark x) with
    | none =>
      rw [hr] at hok
      cases hok
    | some ql =>
      rw [hr] at hok
      cases hok
      obtain ⟨hq, hf⟩ := readBuffer_fetched hnew hr
      have hp := present_of_readBuffer hnew hr
      have hp₀ := (h.present _).mp hp
      rw [← hq] at hp
      refine ⟨⟨fun r => (hf.present_iff hp r).trans (h.present r), .inr hp₀, ?_⟩, hp₀⟩
      intro q e
      cases e
      rw [hq]
      exact hp₀

theorem settle_moving (sc sc' : Scan) (h : Moving log₀ sc) (x : TransactionId)
    (hok : sc.settle mark x = .ok sc') : Moving log₀ sc' := by
  have htested := logTest_tested mark x sc.info sc.log .softCommit
  unfold Scan.settle at hok
  cases ht : transactionLogTest mark sc.info sc.log x .softCommit with
  | mk res rest =>
    obtain ⟨info', log'⟩ := rest
    rw [ht] at hok htested
    have hpres : ∀ r, log'.Present r ↔ log₀.Present r := fun r => (htested.present r).trans (h.present r)
    cases res with
    | error e => cases hok
    | ok soft =>
      cases hb : sc.buffer with
      | none =>
        rw [hb] at hok
        cases soft <;> (obtain rfl := Except.ok.inj hok; exact ⟨hpres, h.master, by simp⟩)
      | some q =>
        have hq := h.buffer q hb
        rw [hb] at hok
        have hbuf : ∀ r, some q = some r → log₀.Present r := by
          intro r e
          rw [← Option.some.inj e]
          exact hq
        cases soft with
        | false =>
          cases hok
          exact ⟨hpres, h.master, hbuf⟩
        | true =>
          cases hok
          refine ⟨?_, h.master, hbuf⟩
          intro r
          exact (write_present _ ((hpres q).mpr hq) r).trans (hpres r)

theorem recoverFrom_present (n : Nat) (x : TransactionId) (sc sc' : Scan) (h : Moving log₀ sc) (hn : x.toNat + n < 2^64)
    (hnew : ∀ y, x.toNat ≤ y.toNat → y.toNat < x.toNat+n → transComputeBlockNumber mark y ≠ pNew)
    (hok : sc.recoverFrom mark x n = .ok sc') (y : TransactionId) (hy : x.toNat ≤ y.toNat)
    (hyn : y.toNat < x.toNat+n) : log₀.Present (transComputeBlockNumber mark y).toNat := by
  induction n generalizing x sc with
  | zero => omega
  | succ n ih =>
    rw [Scan.recoverFrom, Scan.recoverOne] at hok
    cases hmove : sc.moveTo mark x with
    | error e =>
      rw [hmove] at hok
      cases hok
    | ok moved =>
      obtain ⟨hmoving, hp⟩ := moveTo_moving mark log₀ sc moved h x (hnew x (le_rfl) (by omega)) hmove
      by_cases hxy : y = x
      · rw [hxy]
        exact hp
      · have hne : y.toNat ≠ x.toNat := fun e => hxy (eq_of_toNat_eq e)
        cases hsettle : moved.settle mark x with
        | error e =>
          rw [hmove] at hok
          simp only [Except.bind, hsettle] at hok
          cases hok
        | ok next =>
          rw [hmove] at hok
          simp only [Except.bind, hsettle] at hok
          have hsucc := toNat_succ x (by omega)
          exact ih (x+1) next (settle_moving mark log₀ moved next hmoving x hsettle) (by omega)
            (fun z hz hzn => hnew z (by omega) (by omega)) hok (by omega) (by omega)

end

end WeaverDB.TransLog
