import WeaverDB.Foundations.Runs
import WeaverDB.TransLog.Log

/-! # Statuses read back from the transaction log

Any number of threads write and read statuses, each through a descriptor with its own `nblocks`, while
the DBWriter writes dirty pages out and the pool drops clean ones. `lastStatus` is what a history of
writes says about one id.
-/

namespace WeaverDB.TransLog
open Foundations

inductive LogEvent where
  | set (isMultiuser : Bool) (xid : TransactionId) (xstatus : XidStatus) (result : Except LogError Unit)
  | get (xid : TransactionId) (result : Except LogError XidStatus)
  | descriptor (nblocks : Nat)
  | writeBack (q : Nat)
  | evict (q : Nat)

/-- `descriptor` hands over to a thread whose descriptor has another `nblocks`. -/
inductive Step (mark : TransactionId) : LogRelation → LogEvent → LogRelation → Prop where
  | set (log : LogRelation) (isMultiuser : Bool) (xid : TransactionId) (s : XidStatus) :
      Step mark log (.set isMultiuser xid s (transBlockNumberSetXidStatus isMultiuser mark log xid s).1)
        (transBlockNumberSetXidStatus isMultiuser mark log xid s).2
  | get (log : LogRelation) (xid : TransactionId) :
      Step mark log (.get xid (transBlockNumberGetXidStatus mark log xid).1)
        (transBlockNumberGetXidStatus mark log xid).2
  | descriptor (log : LogRelation) (n : Nat) : Step mark log (.descriptor n) { log with nblocks := n }
  | writeBack (log : LogRelation) (q : Nat) :
      Step mark log (.writeBack q) { log with store := log.store.writeBack Page.blank q }
  | evict (log : LogRelation) (q : Nat) : Step mark log (.evict q) { log with store := log.store.evict q }

/-- The status the log holds for `x`, read without the pool's limits. -/
def LogRelation.status (mark : TransactionId) (log : LogRelation) (x : TransactionId) : XidStatus :=
  transBlockGetXidStatus (log.view (transComputeBlockNumber mark x).toNat) x

/-- The block has a page, or is the one by which the file may grow. -/
def LogRelation.Present (log : LogRelation) (q : Nat) : Prop :=
  (log.store.cached q).isSome ∨ q < log.store.file.length ∨ log.nblocks = q

instance (log : LogRelation) (q : Nat) : Decidable (log.Present q) := inferInstanceAs (Decidable (_ ∨ _ ∨ _))

/-- Writing `new` after `old`, with a hard commit kept under a soft one. -/
def XidStatus.record (old new : XidStatus) : XidStatus :=
  if new = .softCommit ∧ old = .commit then .commit else new

def recordEvent (x : TransactionId) (s : XidStatus) : LogEvent → XidStatus
  | .set _ y new (.ok ()) => if y = x then s.record new else s
  | _ => s

def lastStatus (x : TransactionId) (events : List LogEvent) : XidStatus :=
  events.foldl (recordEvent x) .inprogress

def Written (x : TransactionId) (events : List LogEvent) : Prop := ∃ m s, LogEvent.set m x s (.ok ()) ∈ events

/-- The write does not go to the number of a new block, and puts no soft commit on an aborted id. -/
def LogEvent.Proper (mark : TransactionId) (f : TransactionId → XidStatus) : LogEvent → Prop
  | .set _ y s _ => transComputeBlockNumber mark y ≠ pNew ∧ (s = .softCommit → f y ≠ .abort)
  | _ => True

def ledger (mark : TransactionId) : Monitor (TransactionId → XidStatus) LogEvent where
  update f e := fun x => recordEvent x (f x) e
  good f e := e.Proper mark f

def Admissible (mark : TransactionId) (events : List LogEvent) : Prop :=
  (ledger mark).Accepts (fun _ => .inprogress) events

def LogRelation.Blank (log : LogRelation) : Prop := ∀ q, log.view q = Page.blank

theorem ledger_after (mark : TransactionId) (f : TransactionId → XidStatus) (x : TransactionId)
    (events : List LogEvent) :
    (ledger mark).after f events x = events.foldl (recordEvent x) (f x) := by
  induction events generalizing f with
  | nil => rfl
  | cons e events ih => rw [Monitor.after_cons, ih]; rfl

theorem stamp_eq_record (old new : XidStatus) (h : new = .softCommit → old ≠ .abort) :
    old.stamp new = old.record new := by
  revert h
  cases new <;> cases old <;> decide

variable {isMultiuser : Bool} {x : TransactionId} {s : XidStatus} {q : Nat} {log log' : LogRelation}
  {mark : TransactionId}

theorem set_error {e : LogError} (h : (transBlockNumberSetXidStatus isMultiuser mark log x s).1 = .error e) :
    (transBlockNumberSetXidStatus isMultiuser mark log x s).2 = log := by
  unfold transBlockNumberSetXidStatus at h ⊢
  cases hr : readBuffer log (transComputeBlockNumber mark x) with
  | none => rfl
  | some ql =>
    rw [hr] at h
    cases h

structure Wrote (log log' : LogRelation) (q : Nat) (p : Page) : Prop where
  view : ∀ r, log'.view r = if r = q then p else log.view r
  coherent : log.Coherent → log'.Coherent
  kept : log'.store.Kept q
  keptOf : ∀ r, log.store.Kept r → log'.store.Kept r

theorem wrote_write (h : Fetched log log' q) (p : Page) : Wrote log (log'.write q p) q p where
  view := by
    intro r
    rw [LogRelation.view, LogRelation.write, PageCache.view_put]
    by_cases hr : r = q
    · rw [if_pos hr, if_pos hr]
    · rw [if_neg hr, if_neg hr]
      exact h.view r
  coherent := fun hc => PageCache.coherent_put Page.blank log'.store (h.coherent hc) q p
  kept := PageCache.kept_put_self log'.store q p
  keptOf := fun r hr => PageCache.kept_put log'.store q p r (h.kept r hr)

theorem wrote_flush {p : Page} (h : Wrote log log' q p) : Wrote log (log'.flushBuffer q) q p where
  view := by
    intro r
    rw [LogRelation.view, LogRelation.flushBuffer, PageCache.view_flush]
    exact h.view r
  coherent := fun hc => PageCache.coherent_flush Page.blank log'.store (h.coherent hc) q
  kept := PageCache.kept_flush Page.blank q h.kept
  keptOf := fun r hr => PageCache.kept_flush Page.blank q (h.keptOf r hr)

theorem set_wrote (hnew : transComputeBlockNumber mark x ≠ pNew)
    (hok : (transBlockNumberSetXidStatus isMultiuser mark log x s).1 = .ok ()) :
    mark.toNat / 32768 ≤ x.toNat / 32768 ∧ Wrote log (transBlockNumberSetXidStatus isMultiuser mark log x s).2
        (transComputeBlockNumber mark x).toNat
        (transBlockSetXidStatus (log.view (transComputeBlockNumber mark x).toNat) x s) := by
  unfold transBlockNumberSetXidStatus at hok ⊢
  cases hr : readBuffer log (transComputeBlockNumber mark x) with
  | none =>
    rw [hr] at hok
    cases hok
  | some ql =>
    obtain ⟨q, log'⟩ := ql
    obtain ⟨rfl, hf⟩ := readBuffer_fetched hnew hr
    refine ⟨?_, ?_⟩
    · by_contra hlt
      have hlim := seekLimit_le_computeBlock mark x (by omega)
      rw [readBuffer, if_neg hnew, if_pos hlim] at hr
      cases hr
    · have hw := wrote_write hf (transBlockSetXidStatus (log.view (transComputeBlockNumber mark x).toNat) x s)
      rw [← hf.block] at hw ⊢
      cases isMultiuser with
      | true => exact hw
      | false => exact wrote_flush hw

theorem Wrote.status (hx : mark.toNat / 32768 ≤ x.toNat / 32768)
    (h : Wrote log log' (transComputeBlockNumber mark x).toNat
      (transBlockSetXidStatus (log.view (transComputeBlockNumber mark x).toNat) x s))
    (y : TransactionId) (hy : mark.toNat / 32768 ≤ y.toNat / 32768) :
    log'.status mark y = if x = y then (log.status mark x).stamp s else log.status mark y := by
  unfold LogRelation.status
  rw [h.view]
  by_cases hxy : x = y
  · subst hxy
    rw [if_pos rfl, if_pos rfl, getXidStatus_set_self]
  · split_ifs with hb
    · rw [toNat_computeBlock mark y hy, toNat_computeBlock mark x hx] at hb
      have hidx : xidIndex y ≠ xidIndex x := by
        intro hi
        exact hxy (eq_of_block_index x y (by omega) hi.symm)
      rw [getXidStatus_set_of_ne _ _ _ _ hidx, toNat_computeBlock mark x hx, toNat_computeBlock mark y hy, hb]
    · rfl

theorem ne_pNew_of_near {b : BitVec 64} (h : ¬ 32 * 1024 < b) : b ≠ pNew := by
  rintro rfl
  exact h (by decide)

theorem get_log (mark x : TransactionId) (log : LogRelation) :
    (transBlockNumberGetXidStatus mark log x).2 = log ∨ ∃ q, transComputeBlockNumber mark x ≠ pNew ∧
        readBuffer log (transComputeBlockNumber mark x) = some (q, (transBlockNumberGetXidStatus mark log x).2) := by
  unfold transBlockNumberGetXidStatus
  split
  · exact .inl rfl
  split
  · exact .inl rfl
  split_ifs with hnear
  · exact .inl rfl
  · cases hr : readBuffer log (transComputeBlockNumber mark x) with
    | none => exact .inl rfl
    | some ql => exact .inr ⟨ql.1, ne_pNew_of_near hnear, rfl⟩

theorem get_unchanged (mark x : TransactionId) (log : LogRelation) :
    (∀ r, (transBlockNumberGetXidStatus mark log x).2.view r = log.view r) ∧
      (log.Coherent → (transBlockNumberGetXidStatus mark log x).2.Coherent) ∧
      (∀ r, log.store.Kept r → (transBlockNumberGetXidStatus mark log x).2.store.Kept r) := by
  obtain e | ⟨q, hnew, hr⟩ := get_log mark x log
  · rw [e]
    exact ⟨fun _ => rfl, id, fun _ => id⟩
  · obtain ⟨-, hf⟩ := readBuffer_fetched hnew hr
    exact ⟨hf.view, hf.coherent, hf.kept⟩

theorem bufferFor_isSome (log : LogRelation) (q : Nat) : (bufferFor log q).isSome ↔ log.Present q := by
  unfold bufferFor LogRelation.Present
  cases hc : log.store.cached q with
  | some p => simp
  | none =>
    cases hf : log.store.file[q]? with
    | some p =>
      have hlt : q < log.store.file.length := (List.getElem?_eq_some_iff.mp hf).1
      simp [hlt]
    | none =>
      have hge : ¬ q < log.store.file.length := by
        have := List.getElem?_eq_none_iff.mp hf
        omega
      by_cases hn : log.nblocks = q <;> simp [hn, hge]

theorem get_eq (log : LogRelation) (h0 : x ≠ 0) (hx : mark ≤ x) : (transBlockNumberGetXidStatus mark log x).1 =
      if 32 * 1024 < transComputeBlockNumber mark x then .ok .abort
      else if log.Present (transComputeBlockNumber mark x).toNat then .ok (log.status mark x)
      else .error badBufferRead := by
  have hlt : ¬ x < mark := BitVec.not_lt.mpr hx
  unfold transBlockNumberGetXidStatus
  rw [if_neg h0, if_neg hlt]
  split
  · rfl
  rename_i hnear
  have hnew := ne_pNew_of_near hnear
  have hseek : ¬ seekLimit ≤ (transComputeBlockNumber mark x).toNat := by
    unfold seekLimit
    bv_omega
  have hread : readBuffer log (transComputeBlockNumber mark x) =
      (bufferFor log (transComputeBlockNumber mark x).toNat).map
        fun l => ((transComputeBlockNumber mark x).toNat, l) := by
    rw [readBuffer, if_neg hnew, if_neg hseek]
  rw [hread]
  cases hb : bufferFor log (transComputeBlockNumber mark x).toNat with
  | none =>
    rw [if_neg (by rw [← bufferFor_isSome, hb]; decide)]
    rfl
  | some l =>
    rw [if_pos (by rw [← bufferFor_isSome, hb]; rfl)]
    show Except.ok (transBlockGetXidStatus (l.block _) x) = _
    rw [(bufferFor_fetched hb).block]
    rfl

/-- The log holds the status that `f` gives, from the mark's block on. -/
def Tracks (mark : TransactionId) (log : LogRelation) (f : TransactionId → XidStatus) : Prop :=
  ∀ y : TransactionId, mark.toNat / 32768 ≤ y.toNat / 32768 → log.status mark y = f y

section

variable (mark : TransactionId) (log log' : LogRelation)

theorem tracks_of_view (f : TransactionId → XidStatus) (h : Tracks mark log f)
    (hv : ∀ r, log'.view r = log.view r) : Tracks mark log' f := by
  intro y hy
  rw [LogRelation.status, hv]
  exact h y hy

variable (e : LogEvent)

theorem step_tracks (f : TransactionId → XidStatus) (h : Step mark log e log')
    (hp : e.Proper mark f) (hc : log.Coherent) (ht : Tracks mark log f) :
    log'.Coherent ∧ Tracks mark log' ((ledger mark).update f e) := by
  cases h with
  | set isMultiuser x s =>
    obtain ⟨hnew, hsoft⟩ := hp
    cases hres : (transBlockNumberSetXidStatus isMultiuser mark log x s).1 with
    | error err =>
      rw [set_error hres]
      exact ⟨hc, ht⟩
    | ok u =>
      obtain ⟨hx, hw⟩ := set_wrote hnew hres
      refine ⟨hw.coherent hc, ?_⟩
      intro y hy
      rw [hw.status hx y hy, ht x hx, ht y hy, stamp_eq_record _ _ hsoft]
      show _ = if x = y then (f y).record s else f y
      by_cases hxy : x = y
      · rw [if_pos hxy, if_pos hxy, hxy]
      · rw [if_neg hxy, if_neg hxy]
  | get x =>
    obtain ⟨hv, hcoh, -⟩ := get_unchanged mark x log
    exact ⟨hcoh hc, tracks_of_view mark log _ f ht hv⟩
  | descriptor n => exact ⟨hc, ht⟩
  | writeBack q =>
    exact ⟨PageCache.coherent_writeBack Page.blank log.store hc q,
      tracks_of_view mark log _ f ht (PageCache.view_writeBack Page.blank log.store q)⟩
  | evict q =>
    exact ⟨PageCache.coherent_evict Page.blank log.store hc q,
      tracks_of_view mark log _ f ht (PageCache.view_evict Page.blank log.store hc q)⟩

variable (events : List LogEvent)

theorem run_tracks (f : TransactionId → XidStatus)
    (r : Run (Step mark) log events log') (ha : (ledger mark).Accepts f events) (hc : log.Coherent)
    (ht : Tracks mark log f) : Tracks mark log' ((ledger mark).after f events) := by
  induction r generalizing f with
  | nil => exact ht
  | cons hs _ ih =>
    obtain ⟨hgood, htail⟩ := ((ledger mark).accepts_cons f _ _).mp ha
    obtain ⟨hc', ht'⟩ := step_tracks mark _ _ _ f hs hgood hc ht
    exact ih _ htail hc' ht'

theorem step_kept (f : TransactionId → XidStatus) (h : Step mark log e log') (hp : e.Proper mark f) (q : Nat)
    (hq : log.store.Kept q) : log'.store.Kept q := by
  cases h with
  | set isMultiuser x s =>
    cases hres : (transBlockNumberSetXidStatus isMultiuser mark log x s).1 with
    | error err =>
      rw [set_error hres]
      exact hq
    | ok u => exact (set_wrote hp.1 hres).2.keptOf q hq
  | get x => exact (get_unchanged mark x log).2.2 q hq
  | descriptor n => exact hq
  | writeBack r => exact PageCache.kept_writeBack .blank r hq
  | evict r => exact PageCache.kept_evict r hq

theorem step_written (f : TransactionId → XidStatus) (h : Step mark log e log')
    (hp : e.Proper mark f) (m : Bool) (x : TransactionId) (s : XidStatus)
    (he : e = .set m x s (.ok ())) : log'.store.Kept (transComputeBlockNumber mark x).toNat := by
  cases h with
  | set m' y t =>
    injection he with hm hy hs hres
    subst hm hy hs
    exact (set_wrote hp.1 hres).2.kept
  | get y => cases he
  | descriptor n => cases he
  | writeBack q => cases he
  | evict q => cases he

theorem run_kept (f : TransactionId → XidStatus)
    (r : Run (Step mark) log events log') (ha : (ledger mark).Accepts f events) (x : TransactionId)
    (h : Written x events ∨ log.store.Kept (transComputeBlockNumber mark x).toNat) :
    log'.store.Kept (transComputeBlockNumber mark x).toNat := by
  induction r generalizing f with
  | nil =>
    obtain ⟨m, s, hmem⟩ | h := h
    · cases hmem
    · exact h
  | @cons l t u e es hs _ ih =>
    obtain ⟨hgood, htail⟩ := ((ledger mark).accepts_cons f _ _).mp ha
    refine ih _ htail ?_
    obtain ⟨m, s, hmem⟩ | h := h
    · obtain he | hmem := List.mem_cons.mp hmem
      · exact .inr (step_written mark l t e f hs hgood m x s he.symm)
      · exact .inl ⟨m, s, hmem⟩
    · exact .inr (step_kept mark l t e f hs hgood _ h)

end

theorem present_of_kept (h : log.store.Kept q) : log.Present q := by
  cases h with
  | inl hdirty => exact .inl (PageCache.cached_isSome_of_dirty hdirty)
  | inr hlt => exact .inr (.inl hlt)

/-- **Read-back.** An id at or above the mark reads as its last status when its block can be read. -/
theorem reads_back_last_status (mark : TransactionId) (log log' : LogRelation)
    (events : List LogEvent) (hblank : log.Blank) (hc : log.Coherent)
    (r : Run (Step mark) log events log') (ha : Admissible mark events)
    (x : TransactionId) (h0 : x ≠ 0) (hx : mark ≤ x) :
    (transBlockNumberGetXidStatus mark log' x).1 =
        (if 32 * 1024 < transComputeBlockNumber mark x then .ok .abort
        else if log'.Present (transComputeBlockNumber mark x).toNat then
          .ok (lastStatus x events)
        else .error badBufferRead) ∧
      (Written x events → log'.Present (transComputeBlockNumber mark x).toNat) := by
  have ht : Tracks mark log (fun _ => .inprogress) := by
    intro y _
    rw [LogRelation.status, hblank, getXidStatus_blank]
  have hrun := run_tracks mark log log' events _ r ha hc ht
  have hxb : mark.toNat / 32768 ≤ x.toNat / 32768 := Nat.div_le_div_right (BitVec.le_def.mp hx)
  have hlast : log'.status mark x = lastStatus x events := by
    rw [hrun x hxb, ledger_after]
    rfl
  refine ⟨?_, ?_⟩
  · rw [get_eq log' h0 hx, hlast]
  · intro hw
    exact present_of_kept (run_kept mark log log' events _ r ha x (.inl hw))

def oneBlockLog : LogRelation where
  store := { file := [Page.blank], frames := ∅ }
  nblocks := 1
  newPage := Page.blank

theorem oneBlockLog_blank : oneBlockLog.Blank := by
  intro q
  cases q <;> rfl

theorem oneBlockLog_coherent : oneBlockLog.Coherent := by
  intro q f hf _
  cases hf

/-- Id 700 is committed softly, its page is written out and dropped, then it is committed hard. -/
def softThenHard : List LogEvent :=
  [.set true 700 .softCommit (.ok ()), .writeBack 0, .evict 0, .set true 700 .commit (.ok ())]

theorem reads_back_last_status_committed : ∃ log', Run (Step 600) oneBlockLog softThenHard log' ∧
      (transBlockNumberGetXidStatus 600 log' 700).1 = .ok .commit := by
  have r : Run (Step 600) oneBlockLog softThenHard _ :=
    .cons (.set oneBlockLog true 700 .softCommit)
      (.cons (.writeBack _ 0) (.cons (.evict _ 0) (.cons (.set _ true 700 .commit) (.nil _))))
  have ha : Admissible 600 softThenHard := by
    unfold Admissible softThenHard
    rw [Monitor.accepts_cons, Monitor.accepts_cons, Monitor.accepts_cons, Monitor.accepts_cons]
    exact ⟨⟨by decide, by decide⟩, trivial, trivial, ⟨by decide, by decide⟩, (ledger 600).accepts_nil _⟩
  have h := (reads_back_last_status 600 oneBlockLog _ _ oneBlockLog_blank oneBlockLog_coherent r ha
    700 (by decide) (by decide)).1
  exact ⟨_, r, h⟩

/-- An id `32 * 1024 + 1` blocks past the mark was never written and reads as aborted. -/
theorem not_all_ids_read_back :
    ¬ ∀ (mark : TransactionId) (log log' : LogRelation) (events : List LogEvent), log.Blank →
      log.Coherent → Run (Step mark) log events log' → ∀ x ≠ 0, mark ≤ x →
        (transBlockNumberGetXidStatus mark log' x).1 = .ok (lastStatus x events) := by
  intro h
  have hfar := h 600 oneBlockLog oneBlockLog [] oneBlockLog_blank oneBlockLog_coherent (.nil _)
    0x40008000 (by decide) (by decide)
  exact absurd hfar (by decide)

end WeaverDB.TransLog
