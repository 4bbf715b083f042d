import WeaverDB.TransLog.Recovery

/-! # The transaction log as a map from ids to statuses

`StatusLog` is that map, with the tests of `transam.c` on it; a write of the paged log is a
`statusWrite` (`set_refines`).
-/

namespace WeaverDB.TransLog

abbrev StatusLog := TransactionId → XidStatus

def statusTest (log : StatusLog) (mask : XidTest) (transactionId : TransactionId) : Bool :=
  if transactionId = 0 then mask == .abort else mask.holds (log transactionId)

def statusWrite (log : StatusLog) (xid : TransactionId) (s : XidStatus) : StatusLog :=
  Function.update log xid ((log xid).stamp s)

def transactionIdDidCommit (log : StatusLog) (transactionId : TransactionId) : Bool :=
  statusTest log .commit transactionId

def transactionIdDidAbort (log : StatusLog) (transactionId : TransactionId) : Bool :=
  statusTest log .abort transactionId

def transactionIdDidHardCommit (log : StatusLog) (transactionId : TransactionId) : Bool :=
  statusTest log .hardCommit transactionId

section

variable (log : StatusLog) (x : TransactionId)

theorem didCommit_iff : transactionIdDidCommit log x ↔ x ≠ 0 ∧ (log x = .softCommit ∨ log x = .commit) := by
  unfold transactionIdDidCommit statusTest
  by_cases h0 : x = 0
  · simp [h0]
  · cases log x <;> simp [XidTest.holds]

theorem didHardCommit_iff : transactionIdDidHardCommit log x ↔ x ≠ 0 ∧ log x = .commit := by
  unfold transactionIdDidHardCommit statusTest
  by_cases h0 : x = 0
  · simp [h0]
  · cases log x <;> simp [XidTest.holds]

theorem didAbort_iff : transactionIdDidAbort log x ↔ x = 0 ∨ log x = .abort := by
  unfold transactionIdDidAbort statusTest
  by_cases h0 : x = 0
  · simp [h0]
  · cases log x <;> simp [XidTest.holds]

end

/-- **Refinement.** A write of the paged log changes the status of its id only. -/
theorem set_refines (isMultiuser : Bool) (mark x : TransactionId) (log : LogRelation) (s : XidStatus)
    (hnew : transComputeBlockNumber mark x ≠ pNew)
    (hok : (transBlockNumberSetXidStatus isMultiuser mark log x s).1 = .ok ()) (y : TransactionId)
    (hy : mark ≤ y) :
    (transBlockNumberSetXidStatus isMultiuser mark log x s).2.status mark y = statusWrite (log.status mark) x s y := by
  obtain ⟨hxb, hw⟩ := set_wrote hnew hok
  rw [hw.status hxb y (Nat.div_le_div_right hy), statusWrite, Function.update_apply]
  by_cases hxy : x = y
  · rw [if_pos hxy, if_pos hxy.symm]
  · rw [if_neg hxy, if_neg (Ne.symm hxy)]

theorem set_refines_next_id : (transBlockNumberSetXidStatus true 600 oneBlockLog 700 .softCommit).2.status 600 701 =
    statusWrite (oneBlockLog.status 600) 700 .softCommit 701 :=
  set_refines true 600 700 oneBlockLog .softCommit (by decide) rfl 701 (by decide)

end WeaverDB.TransLog
