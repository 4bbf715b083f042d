import Mathlib.Data.Int.Basic
import Mathlib.Data.List.Basic

/-! # The shared invalidation segment (`storage/ipc/sinvaladt.c`)

One circular buffer of `maxNumMessages` cells and one `ProcState` per backend slot. Message numbers are
C `int`s that stay non-negative, so they are `Int` here; backend tags do wrap. Every routine runs with
`SInvalLock` held, as one step. `SIDelExpiredDataEntries` releases the lock to call `DiscardAllInvalids`
as its last action: the flag it returns stands for that, and the reads that follow are ordinary steps.
-/

namespace WeaverDB.SharedInval

structure ItemPointerData where
  ipBlkid : Nat
  ipPosid : Nat
  deriving DecidableEq, Repr

structure SharedInvalidData where
  cacheId : Int
  hashIndex : Nat
  pointerData : ItemPointerData
  deriving DecidableEq, Repr

def maxNumMessages : Int := 4096

def msgNumWrapAround : Int := maxNumMessages*4096

def invalidBackendTag : BitVec 32 := -1#32

/-- Per-backend state; `procStruct` is the offset of the backend's `THREAD`, if any. -/
structure ProcState where
  nextMsgNum : Int
  resetState : Int
  tag : BitVec 32
  procStruct : Option Nat
  deriving DecidableEq

def ProcState.inactive : ProcState where
  nextMsgNum := -1
  resetState := 0
  tag := invalidBackendTag
  procStruct := none

structure SISeg where
  minMsgNum : Int
  maxMsgNum : Int
  maxBackends : Nat
  nextBackendTag : BitVec 32
  buffer : Int → SharedInvalidData
  procState : Nat → ProcState

def SISeg.setProcState (seg : SISeg) (i : Nat) (p : ProcState) : SISeg :=
  { seg with procState := Function.update seg.procState i p }

/-- `SISegInit`. Tag counter and buffer keep what the memory `raw` holds. -/
def siSegInit (raw : SISeg) (maxBackends : Nat) : SISeg :=
  { raw with
    minMsgNum := 0
    maxMsgNum := 0
    maxBackends := maxBackends
    procState := fun i => if i < maxBackends then .inactive else raw.procState i }

def freeEntry (seg : SISeg) : Option Nat :=
  (List.range seg.maxBackends).find? fun index => (seg.procState index).tag == invalidBackendTag

/-- The new `MyBackendId`, or `none` for 0. The tag is taken before the search. -/
def siBackendInit (seg : SISeg) (myThread : Nat) : Option Nat × SISeg :=
  let seg' := { seg with nextBackendTag := seg.nextBackendTag + 1 }
  match freeEntry seg with
  | none => (none, seg')
  | some index =>
    (some (index+1), seg'.setProcState index
      { nextMsgNum := seg.maxMsgNum
        resetState := 0
        tag := seg.nextBackendTag
        procStruct := some myThread })

def cleanupInvalidationState (seg : SISeg) (me : Nat) : SISeg := seg.setProcState (me-1) .inactive

def lowerMin (min h : Int) : Int := if h ≥ 0 then (if h < min then h else min) else min

def minNextMsgNum (seg : SISeg) : Int :=
  (List.range seg.maxBackends).foldl (fun min i => lowerMin min (seg.procState i).nextMsgNum) seg.maxMsgNum

def rebase (seg : SISeg) : SISeg :=
  { seg with
    minMsgNum := seg.minMsgNum-msgNumWrapAround
    maxMsgNum := seg.maxMsgNum-msgNumWrapAround
    procState := fun i =>
      if i < seg.maxBackends ∧ (seg.procState i).nextMsgNum ≥ 0 then
        { seg.procState i with nextMsgNum := (seg.procState i).nextMsgNum - msgNumWrapAround }
      else seg.procState i }

def siDelExpiredDataEntries (seg : SISeg) : Bool × SISeg :=
  let numMsgs := seg.maxMsgNum-seg.minMsgNum
  if seg.maxMsgNum = seg.minMsgNum then (false, seg)
  else
    let min := minNextMsgNum seg
    let seg' := { seg with minMsgNum := min }
    (decide (numMsgs = (maxNumMessages*70).tdiv 100), if min ≥ msgNumWrapAround then rebase seg' else seg')

def ProcState.invalidate (p : ProcState) (state : Int) : ProcState :=
  { p with
    resetState := if state < p.resetState then state else p.resetState
    nextMsgNum := 0 }

def siSetProcStateInvalid (seg : SISeg) (state : Int) : SISeg :=
  { seg with
    minMsgNum := 0
    maxMsgNum := 0
    procState := fun i =>
      if i < seg.maxBackends ∧ (seg.procState i).nextMsgNum ≥ 0 then
        (seg.procState i).invalidate state
      else seg.procState i }

def storeMessage (seg : SISeg) (data : SharedInvalidData) : SISeg :=
  { seg with
    buffer := Function.update seg.buffer (seg.maxMsgNum.tmod maxNumMessages) data
    maxMsgNum := seg.maxMsgNum + 1 }

/-- `false` if it had to reset. -/
def siInsertDataEntry (seg : SISeg) (data : SharedInvalidData) : Bool × SISeg :=
  if seg.maxMsgNum - seg.minMsgNum ≥ maxNumMessages then
    let seg' := (siDelExpiredDataEntries seg).2
    if seg'.maxMsgNum - seg'.minMsgNum ≥ maxNumMessages then
      (false, siSetProcStateInvalid seg' 1)
    else (true, storeMessage seg' data)
  else (true, storeMessage seg data)

def siResetProcState (seg : SISeg) : Bool × SISeg := (true, siSetProcStateInvalid seg 2)

/-- The return code, the message if there is one, and the segment. -/
def siGetDataEntry (seg : SISeg) (backendId : Nat) : Int × Option SharedInvalidData × SISeg :=
  let stateP := seg.procState (backendId-1)
  if stateP.resetState = 1 then
    (-1, none, seg.setProcState (backendId-1) { stateP with resetState := 0, nextMsgNum := seg.maxMsgNum })
  else if stateP.resetState = 2 then
    (-2, none, seg.setProcState (backendId-1) { stateP with resetState := 0, nextMsgNum := seg.maxMsgNum })
  else if stateP.nextMsgNum ≥ seg.maxMsgNum then (0, none, seg)
  else
    (1, some (seg.buffer (stateP.nextMsgNum.tmod maxNumMessages)),
      seg.setProcState (backendId-1) { stateP with nextMsgNum := stateP.nextMsgNum + 1 })

/-- Backend `b` owns an active slot: ids start at 1, its counter is not negative. -/
def Active (seg : SISeg) (b : Nat) : Prop := 1 ≤ b ∧ b ≤ seg.maxBackends ∧ 0 ≤ (seg.procState (b-1)).nextMsgNum

instance (seg : SISeg) (b : Nat) : Decidable (Active seg b) := inferInstanceAs (Decidable (_ ∧ _ ∧ _))

inductive Event where
  | backendInit (thread : Nat) (backendId : Option Nat)
  | insertDataEntry (data : SharedInvalidData)
  | getDataEntry (backendId : Nat) (code : Int) (data : Option SharedInvalidData)
  | delExpiredDataEntries
  | resetProcState
  | cleanup (backendId : Nat)
  deriving DecidableEq

/-- The atomic steps of the backends. Only an active one reads or cleans up. -/
inductive Step : SISeg → Event → SISeg → Prop where
  | backendInit (seg : SISeg) (thread : Nat) :
      Step seg (.backendInit thread (siBackendInit seg thread).1) (siBackendInit seg thread).2
  | insertDataEntry (seg : SISeg) (data : SharedInvalidData) :
      Step seg (.insertDataEntry data) (siInsertDataEntry seg data).2
  | getDataEntry (seg : SISeg) (b : Nat) (hb : Active seg b) :
      Step seg (.getDataEntry b (siGetDataEntry seg b).1 (siGetDataEntry seg b).2.1) (siGetDataEntry seg b).2.2
  | delExpiredDataEntries (seg : SISeg) : Step seg .delExpiredDataEntries (siDelExpiredDataEntries seg).2
  | resetProcState (seg : SISeg) : Step seg .resetProcState (siResetProcState seg).2
  | cleanup (seg : SISeg) (b : Nat) (hb : Active seg b) : Step seg (.cleanup b) (cleanupInvalidationState seg b)

end WeaverDB.SharedInval

namespace WeaverDB
export SharedInval (ItemPointerData)
end WeaverDB
