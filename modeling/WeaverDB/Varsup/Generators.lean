import WeaverDB.TransLog.Recovery

/-! # The generators of transaction and object ids

`access/transam/varsup.c`: ids are reserved in batches on block 0 of the variable relation, which is
flushed before a batch is used, and handed out from counters in memory. `GetNewTransactionId` and
`GetNewObjectId` give up their lock while they read the block, with the count at -1. The transaction
counter has 64 bits; the object counter is an `int`. In bootstrap mode there is only one transaction id.
-/

namespace WeaverDB.Varsup
open Foundations Option
open TransLog (amiTransactionId firstTransactionId varXidPrefetch)

abbrev Oid := BitVec 64

abbrev ThreadId := Nat

def bootstrapObjectIdData : Oid := 16384

def varOidPrefetch : Nat := 8

structure VariableRelationContents where
  nextXidData : TransactionId
  nextOid : Oid

inductive Pc where
  | idle
  | fetchingXid
  | fetchedXid (nextid : TransactionId)
  | fetchingOid
  | fetchedOid (oid : Oid)
  | storedOid
deriving DecidableEq

inductive Phase where
  | down
  | bootstrapping
  | initializing
  | putting
  | running
deriving DecidableEq

/-- `disk` and `amiCommitted` survive a restart; the lists are what was handed out, the latest first. -/
structure Server where
  disk : VariableRelationContents
  amiCommitted : Bool
  phase : Phase
  xidPrefetch : Int
  oidPrefetch : Int
  xidCount : Int
  nextXid : TransactionId
  oidQueueCount : Int
  nextoid : BitVec 32
  thread : ThreadId → Pc
  xids : List TransactionId
  earlierXids : List TransactionId
  oids : List Oid

def Server.init (disk : VariableRelationContents) : Server where
  disk := disk
  amiCommitted := false
  phase := .down
  xidPrefetch := varXidPrefetch
  oidPrefetch := varOidPrefetch
  xidCount := 0
  nextXid := 0
  oidQueueCount := 0
  nextoid := 0
  thread := fun _ => .idle
  xids := []
  earlierXids := []
  oids := []

inductive Event where
  | restart (bootstrap : Bool)
  | commitAmi
  | putNextXid
  | initTransactionLowWaterMark (multiuser : Bool) (transactionPrefetch objectidPrefetch : Option (BitVec 32))
  | getNewTransactionId (t : ThreadId)
  | readXid (t : ThreadId)
  | failXid (t : ThreadId)
  | refillXid (t : ThreadId)
  | getNewObjectId (t : ThreadId)
  | readOid (t : ThreadId)
  | failOid (t : ThreadId)
  | storeOid (t : ThreadId)
  | refillOid (t : ThreadId)

def Server.setThread (s : Server) (t : ThreadId) (pc : Pc) : Server :=
  { s with thread := Function.update s.thread t pc }

def restart (bootstrap : Bool) (s : Server) : Server :=
  { Server.init s.disk with
    amiCommitted := s.amiCommitted
    phase := if bootstrap then .bootstrapping else .initializing
    earlierXids := s.xids ++ s.earlierXids
    oids := s.oids }

/-- The mode is chosen later, so that a multi-user server stops here with `FATAL` is left out. -/
def commitAmi (s : Server) : Option Server :=
  if s.phase = .initializing ∧ s.amiCommitted = false then
    some { s with amiCommitted := true, phase := .putting }
  else none

def variableRelationPutNextXid (xid : TransactionId) (s : Server) : Server :=
  { s with disk := { s.disk with nextXidData := xid } }

def putNextXid (s : Server) : Option Server :=
  if s.phase = .putting then
    some { variableRelationPutNextXid firstTransactionId s with phase := .initializing }
  else none

def prefetchSize (property : Option (BitVec 32)) (unset least : Int) : Int :=
  let size := match property with
    | some n => n.toInt
    | none => unset
  if size ≤ 0 then least else size

def mainThread : ThreadId := 0

def initTransactionLowWaterMark (multiuser : Bool)
    (transactionPrefetch objectidPrefetch : Option (BitVec 32)) (s : Server) : Option Server :=
  if s.phase = .initializing ∧ s.amiCommitted ∧ s.thread mainThread = .idle then
    let s := { s with phase := .running }
    some (if multiuser then
      { s with
        xidPrefetch := prefetchSize transactionPrefetch (s.xidPrefetch*1024) (varXidPrefetch*1024)
        oidPrefetch := prefetchSize objectidPrefetch (s.oidPrefetch*varOidPrefetch) varOidPrefetch }
    else s)
  else none

/-- Before the sizes are set only the main thread runs, if the database is initialized. -/
def mayCall (t : ThreadId) (s : Server) : Bool :=
  match s.phase with
  | .bootstrapping | .running => true
  | .initializing => s.amiCommitted && decide (t = mainThread)
  | _ => false

def handOutXid (s : Server) : Server :=
  { s with
    nextXid := s.nextXid+1
    xidCount := s.xidCount-1
    xids := s.nextXid :: s.xids }

/-- A thread that finds another at work comes back later. -/
def xidLoop (t : ThreadId) (s : Server) : Server :=
  if 0 < s.xidCount then handOutXid (s.setThread t .idle)
  else if s.xidCount = 0 then { s.setThread t .fetchingXid with xidCount := -1 }
  else s.setThread t .idle

def getNewTransactionId (t : ThreadId) (s : Server) : Option Server :=
  if mayCall t s ∧ s.thread t = .idle then
    some (if s.phase = .bootstrapping then { s with xids := amiTransactionId :: s.xids } else xidLoop t s)
  else none

/-- `VariableRelationGetNextXid`: the block is flushed before. -/
def variableRelationGetNextXid (prefetch : Int) (var : VariableRelationContents) :
    TransactionId × VariableRelationContents :=
  (var.nextXidData, { var with nextXidData := var.nextXidData + BitVec.ofInt 64 prefetch })

def readXid (t : ThreadId) (s : Server) : Option Server :=
  if s.thread t = .fetchingXid then
    let (xid, var) := variableRelationGetNextXid s.xidPrefetch s.disk
    some { s.setThread t (.fetchedXid (xid+1)) with disk := var }
  else none

def failXid (t : ThreadId) (s : Server) : Option Server :=
  if s.thread t = .fetchingXid then some (s.setThread t .idle) else none

def refillXid (t : ThreadId) (s : Server) : Option Server :=
  match s.thread t with
  | .fetchedXid nextid => some (xidLoop t { s with nextXid := nextid, xidCount := s.xidPrefetch })
  | _ => none

def handOutOid (s : Server) : Server :=
  { s with
    nextoid := s.nextoid+1
    oidQueueCount := s.oidQueueCount-1
    oids := s.nextoid.signExtend 64 :: s.oids }

def oidLoop (t : ThreadId) (s : Server) : Server :=
  if 0 < s.oidQueueCount then handOutOid (s.setThread t .idle)
  else if s.oidQueueCount = 0 then { s.setThread t .fetchingOid with oidQueueCount := -1 }
  else s.setThread t .idle

def getNewObjectId (t : ThreadId) (s : Server) : Option Server :=
  if mayCall t s ∧ s.thread t = .idle then some (oidLoop t s) else none

def variableRelationGetNextOid (prefetch : Int) (var : VariableRelationContents) :
    Oid × VariableRelationContents :=
  if var.nextOid ≠ 0 then (var.nextOid, { var with nextOid := var.nextOid + BitVec.ofInt 64 prefetch })
  else
    (bootstrapObjectIdData, { var with nextOid := bootstrapObjectIdData + BitVec.ofInt 64 prefetch })

def readOid (t : ThreadId) (s : Server) : Option Server :=
  if s.thread t = .fetchingOid then
    let (oid, var) := variableRelationGetNextOid s.oidPrefetch s.disk
    some { s.setThread t (.fetchedOid oid) with disk := var }
  else none

def failOid (t : ThreadId) (s : Server) : Option Server :=
  if s.thread t = .fetchingOid then some (s.setThread t .idle) else none

/-- The counter is stored before the lock is taken again, without the upper half of the id. -/
def storeOid (t : ThreadId) (s : Server) : Option Server :=
  match s.thread t with
  | .fetchedOid oid => some { s.setThread t .storedOid with nextoid := (oid+1).setWidth 32 }
  | _ => none

def refillOid (t : ThreadId) (s : Server) : Option Server :=
  if s.thread t = .storedOid then some (oidLoop t { s with oidQueueCount := s.oidPrefetch }) else none

def next (s : Server) : Event → Option Server
  | .restart bootstrap => some (restart bootstrap s)
  | .commitAmi => commitAmi s
  | .putNextXid => putNextXid s
  | .initTransactionLowWaterMark multiuser transactionPrefetch objectidPrefetch =>
    initTransactionLowWaterMark multiuser transactionPrefetch objectidPrefetch s
  | .getNewTransactionId t => getNewTransactionId t s
  | .readXid t => readXid t s
  | .failXid t => failXid t s
  | .refillXid t => refillXid t s
  | .getNewObjectId t => getNewObjectId t s
  | .readOid t => readOid t s
  | .failOid t => failOid t s
  | .storeOid t => storeOid t s
  | .refillOid t => refillOid t s

variable {s s' : Server} {t : ThreadId}

/-- Until the sizes of the batches are set, at most the main thread is at work. -/
def Early (s : Server) : Prop :=
  s.phase ≠ .running → s.phase ≠ .bootstrapping → ∀ t ≠ mainThread, s.thread t = .idle

theorem Early.setThread (h : Early s) (pc : Pc)
    (hpc : s.phase ≠ .running → s.phase ≠ .bootstrapping → t = mainThread ∨ pc = .idle) :
    Early (s.setThread t pc) := by
  intro hr hb t' ht'
  change Function.update s.thread t pc t' = _
  rw [Function.update_apply]
  split
  · next heq => exact (hpc hr hb).resolve_left fun hmain => ht' (heq.trans hmain)
  · exact h hr hb t' ht'

theorem Early.busy (h : Early s) (hbusy : s.thread t ≠ .idle) (hr : s.phase ≠ .running)
    (hb : s.phase ≠ .bootstrapping) : t = mainThread := by
  by_contra hne
  exact hbusy (h hr hb t hne)

theorem Early.setBusy (h : Early s) (hbusy : s.thread t ≠ .idle) (pc : Pc) : Early (s.setThread t pc) :=
  h.setThread pc fun hr hb => .inl (h.busy hbusy hr hb)

theorem mayCall_early (h : mayCall t s) (hr : s.phase ≠ .running)
    (hb : s.phase ≠ .bootstrapping) : t = mainThread ∧ s.phase = .initializing ∧
      s.amiCommitted := by
  unfold mayCall at h
  split at h
  · next hphase => exact absurd hphase hb
  · next hphase => exact absurd hphase hr
  · next hphase =>
    obtain ⟨hami, ht⟩ := Bool.and_eq_true_iff.mp h
    exact ⟨of_decide_eq_true ht, hphase, hami⟩
  · cases h

theorem Early.xidLoop (h : Early s) (hcall : s.phase ≠ .running → s.phase ≠ .bootstrapping → t = mainThread) :
    Early (xidLoop t s) := by
  unfold Varsup.xidLoop
  split
  · exact h.setThread .idle fun _ _ => .inr rfl
  · split
    · exact h.setThread .fetchingXid fun hr hb => .inl (hcall hr hb)
    · exact h.setThread .idle fun _ _ => .inr rfl

theorem Early.oidLoop (h : Early s) (hcall : s.phase ≠ .running → s.phase ≠ .bootstrapping → t = mainThread) :
    Early (oidLoop t s) := by
  unfold Varsup.oidLoop
  split
  · exact h.setThread .idle fun _ _ => .inr rfl
  · split
    · exact h.setThread .fetchingOid fun hr hb => .inl (hcall hr hb)
    · exact h.setThread .idle fun _ _ => .inr rfl

theorem Early.step (h : Early s) {e : Event} (hstep : next s e = some s') : Early s' := by
  cases e with
  | restart bootstrap =>
    cases hstep
    exact fun _ _ _ _ => rfl
  | commitAmi =>
    obtain ⟨⟨hphase, _⟩, rfl⟩ := of_guard hstep
    exact fun _ _ => h (hphase ▸ nofun) (hphase ▸ nofun)
  | putNextXid =>
    obtain ⟨hphase, rfl⟩ := of_guard hstep
    exact fun _ _ => h (hphase ▸ nofun) (hphase ▸ nofun)
  | initTransactionLowWaterMark multiuser =>
    obtain ⟨_, rfl⟩ := of_guard hstep
    intro hr
    cases multiuser <;> exact absurd rfl hr
  | getNewTransactionId t =>
    obtain ⟨⟨hmay, _⟩, rfl⟩ := of_guard hstep
    split
    · exact h
    · exact h.xidLoop fun hr hb => (mayCall_early hmay hr hb).1
  | getNewObjectId t =>
    obtain ⟨⟨hmay, _⟩, rfl⟩ := of_guard hstep
    exact h.oidLoop fun hr hb => (mayCall_early hmay hr hb).1
  | readXid t =>
    obtain ⟨hpc, rfl⟩ := of_guard hstep
    exact h.setBusy (hpc ▸ nofun) (.fetchedXid (s.disk.nextXidData+1))
  | failXid t =>
    obtain ⟨_, rfl⟩ := of_guard hstep
    exact h.setThread .idle fun _ _ => .inr rfl
  | failOid t =>
    obtain ⟨_, rfl⟩ := of_guard hstep
    exact h.setThread .idle fun _ _ => .inr rfl
  | readOid t =>
    obtain ⟨hpc, rfl⟩ := of_guard hstep
    exact h.setBusy (hpc ▸ nofun) (.fetchedOid (variableRelationGetNextOid s.oidPrefetch s.disk).1)
  | refillXid t =>
    change refillXid t s = some s' at hstep
    unfold refillXid at hstep
    split at hstep
    · next hpc =>
      exact some.inj hstep ▸ Early.xidLoop (s := { s with nextXid := _, xidCount := _ }) h (h.busy (hpc ▸ nofun))
    · nomatch hstep
  | storeOid t =>
    change storeOid t s = some s' at hstep
    unfold storeOid at hstep
    split at hstep
    · next hpc => exact some.inj hstep ▸ h.setBusy (hpc ▸ nofun) .storedOid
    · nomatch hstep
  | refillOid t =>
    obtain ⟨hpc, rfl⟩ := of_guard hstep
    exact Early.oidLoop (s := { s with oidQueueCount := _ }) h (h.busy (hpc ▸ nofun))

end WeaverDB.Varsup
