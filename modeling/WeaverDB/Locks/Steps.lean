import WeaverDB.Locks.Entries

/-! # The steps on a lock

What the threads do to a lock keeps its counts, its wait queue and its entry in order, except for a wait
that is cancelled after the lock was granted: it takes back a request that no longer waits.
-/

namespace WeaverDB.Locks
open Foundations List Function

variable {ctl : LockMethodCtl} {s : Lock} {waiting : List Waiter} {spare : Int} {unfinished : Nat}
  {t : ThreadId} {xid : TransactionId} {m : LockMode} {w : Waiter}

/-! ## The invariant -/

structure Queue (s : Lock) : Prop where
  size : s.size = s.waitThreads.length
  keyed : Keyed Waiter.thread s.waitThreads
  queued : ∀ w ∈ s.waitThreads, ∃ origMask, s.thread w.thread = .asleep w.xid w.waitLockMode origMask true
  waiting : ∀ t xid m origMask, s.thread t = .asleep xid m origMask true → ∃ w ∈ s.waitThreads, w.thread = t

structure Mutex (s : Lock) : Prop where
  keyed : Keyed Request.thread s.protection
  searching : ∀ r ∈ s.protection, s.thread r.thread = .searching
  holder : ∀ t xid, .releaseAll t xid ∈ s.protection → ∃ h ∈ s.holderTable, h.tag = (t, xid)

structure Sound (ctl : LockMethodCtl) (s : Lock) (waiting : List Waiter) (spare : Int)
    (unfinished : Nat) : Prop where
  calls : Calls s waiting spare unfinished
  exclusion : Exclusion ctl s
  queue : Queue s
  mutex : Mutex s

structure Invariant (ctl : LockMethodCtl) (s : Lock) : Prop where
  sound : Sound ctl s s.waitThreads 0 0
  absent : s.present = false → s.holderTable = [] ∧ s.protection = []

theorem invariant_init (ctl : LockMethodCtl) : Invariant ctl .init where
  sound :=
    { calls :=
        { counts := ⟨nodup_nil, nofun, fun _ => rfl, rfl, fun _ => rfl, rfl,
            fun _ hi => absurd rfl hi⟩
          entry := ⟨0, rfl, le_refl _⟩
          holder := nofun }
      exclusion := nofun
      queue := ⟨rfl, nodup_nil, nofun, nofun⟩
      mutex := ⟨nodup_nil, nofun, nofun⟩ }
  absent := fun _ => ⟨rfl, rfl⟩

structure Own (t : ThreadId) (s : Lock) : Prop where
  running : s.thread t = .running
  request : ∀ r ∈ s.protection, r.thread ≠ t

theorem Queue.ne_of_mem (h : Queue s) (hw : w ∈ s.waitThreads) (ht : s.thread t = .running) : w.thread ≠ t := by
  rintro rfl
  obtain ⟨_, hasleep⟩ := h.queued w hw
  rw [hasleep] at ht
  nomatch ht

theorem Queue.tag_ne (h : Queue s) (ht : s.thread t = .running) (xid : TransactionId) :
    ∀ w ∈ s.waitThreads, w.tag ≠ (t, xid) :=
  fun _ hw heq => h.ne_of_mem hw ht (congrArg Prod.fst heq)

theorem Queue.setThread (h : Queue s) (pc : Pc) (hold : ∀ xid m origMask, s.thread t ≠ .asleep xid m origMask true)
    (hpc : ∀ xid m origMask, pc ≠ .asleep xid m origMask true) : Queue (s.setThread t pc) := by
  refine ⟨h.size, h.keyed, fun v hv => ?_, fun t' xid m origMask ht => ?_⟩
  · obtain ⟨origMask, hasleep⟩ := h.queued v hv
    have hne : v.thread ≠ t := fun heq => hold _ _ _ (heq ▸ hasleep)
    exact ⟨origMask, (update_of_ne hne ..).trans hasleep⟩
  · change update s.thread t pc t' = _ at ht
    obtain rfl | hne := eq_or_ne t' t
    · rw [update_self] at ht
      exact absurd ht (hpc xid m origMask)
    · rw [update_of_ne hne] at ht
      exact h.waiting t' xid m origMask ht

theorem Mutex.setThread (h : Mutex s) (pc : Pc) (hold : s.thread t ≠ .searching) : Mutex (s.setThread t pc) := by
  refine { h with searching := fun r hr => ?_ }
  have hne : r.thread ≠ t := fun heq => hold (heq ▸ h.searching r hr)
  exact (update_of_ne hne ..).trans (h.searching r hr)

theorem Sound.setWaitMask (h : Sound ctl s waiting spare unfinished) (mask : LockMask) :
    Sound ctl { s with waitMask := mask } waiting spare unfinished :=
  ⟨⟨{ h.calls.counts with }, h.calls.entry, h.calls.holder⟩, h.exclusion, { h.queue with }, { h.mutex with }⟩

theorem Sound.settleWaitMask (h : Sound ctl s waiting spare unfinished) (m : LockMode) :
    Sound ctl (s.settleWaitMask m) waiting spare unfinished := by
  unfold Lock.settleWaitMask
  split
  · exact h.setWaitMask _
  · exact h

/-- A release that fails is never taken off `removing`, which keeps the entry. -/
theorem Sound.failed (h : Sound ctl s waiting (-1) 1) : Sound ctl s waiting 0 0 := by
  obtain ⟨failed, hremoving, hrefs⟩ := h.calls.entry
  exact { h with calls := { h.calls with entry := ⟨failed+1, by omega, by omega⟩ } }

theorem Sound.removeEntry (h : Sound ctl s s.waitThreads 0 1) (hpresent : s.present) :
    Invariant ctl (removeEntry s) := by
  obtain ⟨failed, hremoving, hrefs⟩ := h.calls.entry
  have hsound : Sound ctl { s with removing := s.removing - 1 } s.waitThreads 0 0 := by
    refine ⟨⟨{ h.calls.counts with }, ⟨failed, ?_, hrefs⟩, h.calls.holder⟩, h.exclusion,
      { h.queue with }, { h.mutex with }⟩
    change s.removing - 1 = leaving s + 0 + failed
    omega
  unfold Locks.removeEntry
  dsimp only
  split
  · exact ⟨hsound, fun habsent => absurd (hpresent.symm.trans habsent) (by decide)⟩
  · next hnone =>
    obtain ⟨hzero, hdone⟩ := not_or.mp hnone
    have hzero : s.refs = 0 := Decidable.not_not.mp hzero
    have hdone : s.removing - 1 = 0 := Decidable.not_not.mp hdone
    have hdemand : demand s.waitThreads s.holderTable = 0 := by omega
    have hnobody : s.protection.length = 0 := by
      have hlength := length_eq_countP_add_countP Request.isAcquire (l := s.protection)
      have hleaving : leaving s = s.protection.countP fun r => decide ¬ r.isAcquire := by
        refine countP_congr fun r _ => ?_
        cases r.isAcquire <;> decide
      unfold entering at hrefs
      omega
    exact ⟨⟨⟨{ hsound.calls.counts with }, hsound.calls.entry, hsound.calls.holder⟩,
      hsound.exclusion, { hsound.queue with }, { hsound.mutex with }⟩,
      fun _ => ⟨table_eq_nil hdemand, eq_nil_of_length_eq_zero hnobody⟩⟩

/-! ## Waking -/

theorem wake_waitThreads (w : Waiter) (s : Lock) :
    (wake w s).waitThreads = without Waiter.thread w.thread s.waitThreads := by
  unfold wake
  split <;> rfl

theorem wake_eq {origMask : LockMask} {locked : Bool} (h : s.thread w.thread = .asleep xid m origMask locked) :
    wake w s = (threadDequeue w.thread (grantLock w.thread w.xid w.waitLockMode s)).setThread w.thread
      (.asleep xid m origMask false) := by
  unfold wake
  rw [h]

theorem Queue.dequeue (h : Queue s) (hw : w ∈ s.waitThreads) (pc : Pc)
    (hpc : ∀ xid m origMask, pc ≠ .asleep xid m origMask true) :
    Queue ((threadDequeue w.thread s).setThread w.thread pc) := by
  have hperm := h.keyed.perm hw
  refine ⟨?_, h.keyed.without, ?_, ?_⟩
  · have hlength := hperm.length_eq
    have hsize := h.size
    rw [length_cons] at hlength
    change s.size - 1 = ((without Waiter.thread w.thread s.waitThreads).length : Int)
    omega
  · intro v hv
    obtain ⟨hv, hne⟩ := mem_without.mp hv
    change ∃ _, update s.thread w.thread pc v.thread = _
    rw [update_of_ne hne]
    exact h.queued v hv
  · intro t xid m origMask ht
    change update s.thread w.thread pc t = _ at ht
    obtain rfl | hne := eq_or_ne t w.thread
    · rw [update_self] at ht
      exact absurd ht (hpc xid m origMask)
    · rw [update_of_ne hne] at ht
      obtain ⟨v, hv, hvt⟩ := h.waiting t xid m origMask ht
      exact ⟨v, mem_without.mpr ⟨hv, hvt ▸ hne⟩, hvt⟩

theorem Sound.wake (h : Sound ctl s s.waitThreads spare unfinished) (hw : w ∈ s.waitThreads)
    (hfree : lockResolveConflicts ctl w.waitLockMode w.thread s) :
    Sound ctl (wake w s) (wake w s).waitThreads spare unfinished := by
  obtain ⟨origMask, hasleep⟩ := h.queue.queued w hw
  have hgranted : Calls (grantLock w.thread w.xid w.waitLockMode s)
      (without Waiter.thread w.thread s.waitThreads) spare unfinished :=
    (h.calls.perm (h.queue.keyed.perm hw)).grant
  have hqueue : Queue (grantLock w.thread w.xid w.waitLockMode s) := { h.queue with }
  rw [wake_waitThreads, wake_eq hasleep]
  refine ⟨⟨{ hgranted.counts with }, hgranted.entry, hgranted.holder⟩, ?_,
    hqueue.dequeue hw _ fun _ _ _ heq => absurd (Pc.asleep.inj heq).2.2.2 (by decide), ?_⟩
  · exact h.exclusion.grant (h.calls.counts.resolve_iff.mp hfree)
  · exact ⟨h.mutex.keyed, (h.mutex.setThread _ (hasleep ▸ nofun)).searching,
      fun t xid hr => mem_put_tag (h.mutex.holder t xid hr)⟩

theorem wakeupLoop_preserves (P : Lock → Prop) (hwake : ∀ s w, P s → w ∈ s.waitThreads →
      lockResolveConflicts ctl w.waitLockMode w.thread s → P (wake w s))
    (ws : List Waiter) (s : Lock) (hkeyed : Keyed Waiter.thread ws)
    (hmem : ∀ w ∈ ws, w ∈ s.waitThreads) (hs : P s) : P (wakeupLoop ctl ws s) := by
  induction ws generalizing s with
  | nil => exact hs
  | cons w rest ih =>
    obtain ⟨hnot, hrest⟩ := nodup_cons.mp hkeyed
    rw [wakeupLoop]
    split
    · next hfree =>
      refine ih (wake w s) hrest (fun v hv => ?_) (hwake s w hs (hmem w (.head _)) hfree)
      rw [wake_waitThreads]
      exact mem_without.mpr ⟨hmem v (.tail _ hv), fun heq => hnot (heq ▸ mem_map_of_mem hv)⟩
    · exact hs

theorem Queue.take_size (h : Queue s) : s.waitThreads.take s.size.toNat = s.waitThreads := by
  rw [h.size, Int.toNat_natCast, take_length]

theorem threadLockWakeup_preserves (P : Lock → Prop) (hqueue : Queue s) (hwake : ∀ s w, P s → w ∈ s.waitThreads →
      lockResolveConflicts ctl w.waitLockMode w.thread s → P (wake w s)) (hs : P s) :
    P (threadLockWakeup ctl s) := by
  unfold threadLockWakeup
  rw [hqueue.take_size]
  exact wakeupLoop_preserves P hwake s.waitThreads s hqueue.keyed (fun _ hw => hw) hs

theorem wake_present (w : Waiter) (s : Lock) : (wake w s).present = s.present := by
  unfold wake
  split <;> rfl

theorem Sound.threadLockWakeup (h : Sound ctl s s.waitThreads spare unfinished) :
    Sound ctl (threadLockWakeup ctl s) (threadLockWakeup ctl s).waitThreads spare unfinished ∧
      (threadLockWakeup ctl s).present = s.present :=
  threadLockWakeup_preserves (fun s' => Sound ctl s' s'.waitThreads spare unfinished ∧ s'.present = s.present) h.queue
    (fun s' w hs hw hfree => ⟨hs.1.wake hw hfree, (wake_present w s').trans hs.2⟩) ⟨h, rfl⟩

/-! ## Releasing -/

theorem Mutex.other_holder (h : Mutex s) (hown : Own t s) {t' : ThreadId} {xid' : TransactionId}
    (hr : .releaseAll t' xid' ∈ s.protection) (xid : TransactionId) :
    ∃ y ∈ without Holder.tag (t, xid) s.holderTable, y.tag = (t', xid') := by
  obtain ⟨y, hy, htag⟩ := h.holder t' xid' hr
  refine ⟨y, mem_without.mpr ⟨hy, fun heq => hown.request _ hr ?_⟩, htag⟩
  exact congrArg Prod.fst (htag.symm.trans heq)

theorem Exclusion.without (h : Exclusion ctl s) {s' : Lock}
    (hsub : ∀ x ∈ s'.holderTable, x ∈ s.holderTable) : Exclusion ctl s' :=
  h.mono fun x hx _ hi => ⟨x, hsub x hx, rfl, hi⟩

theorem Sound.dropGrant (h : Sound ctl s s.waitThreads spare unfinished) (hown : Own t s)
    {x : Holder} (hfound : lookup Holder.tag (t, xid) s.holderTable = some x)
    (hm : x.holders m ≠ 0) :
    Sound ctl (dropGrant t xid m x s) s.waitThreads (spare+1) unfinished := by
  refine ⟨h.calls.dropGrant hfound hm (h.queue.tag_ne hown.running xid), ?_, { h.queue with },
    ⟨h.mutex.keyed, h.mutex.searching, fun t' xid' hr => ?_⟩⟩
  · refine h.exclusion.mono fun y hy i hi => ?_
    have hcases : y = { x with
        holders := update x.holders m (x.holders m - 1)
        nHolding := x.nHolding - 1 } ∨ y ∈ s.holderTable := by
      change y ∈ (if x.nHolding - 1 = 0 then _ else _) at hy
      split at hy
      · exact .inr (mem_without.mp hy).1
      · exact (mem_put.mp hy).imp_right And.left
    obtain rfl | hy := hcases
    · refine ⟨x, lookup_mem hfound, rfl, ?_⟩
      change update x.holders m (x.holders m - 1) i ≠ 0 at hi
      obtain rfl | hne := eq_or_ne i m
      · exact hm
      · rwa [update_of_ne hne] at hi
    · exact ⟨y, hy, rfl, hi⟩
  · obtain ⟨y, hy, htag⟩ := h.mutex.other_holder hown hr xid
    change ∃ z ∈ (if x.nHolding - 1 = 0 then without Holder.tag (t, xid) s.holderTable
      else put Holder.tag _ s.holderTable), z.tag = (t', xid')
    split
    · exact ⟨y, hy, htag⟩
    · exact mem_put_tag ⟨y, (mem_without.mp hy).1, htag⟩

theorem Sound.lockRelease (h : Sound ctl s s.waitThreads (-1) 1) (hown : Own t s)
    (hpresent : s.present) (xid : TransactionId) (m : LockMode) :
    Invariant ctl (lockRelease ctl t xid m s) := by
  have hfailed : Invariant ctl s := ⟨h.failed, fun habsent => absurd (hpresent.symm.trans habsent) (by decide)⟩
  unfold Locks.lockRelease
  split
  · exact hfailed
  · next x hfound =>
    split
    · exact hfailed
    · next hm =>
      have hreleased : Sound ctl (Locks.dropGrant t xid m x s) s.waitThreads 0 1 := h.dropGrant hown hfound hm
      dsimp only
      split
      · exact hreleased.removeEntry hpresent
      · obtain ⟨hwoken, hstill⟩ := Sound.threadLockWakeup hreleased
        exact hwoken.removeEntry (hstill.trans hpresent)

theorem dropGrants_eq (t : ThreadId) (xid : TransactionId) (s : Lock) :
    (dropGrants t xid s).holderTable = without Holder.tag (t, xid) s.holderTable ∧
      (dropGrants t xid s).waitThreads = s.waitThreads ∧ (dropGrants t xid s).size = s.size ∧
      (dropGrants t xid s).protection = s.protection ∧ (dropGrants t xid s).thread = s.thread ∧
      (dropGrants t xid s).present = s.present := by
  unfold dropGrants
  dsimp only
  split <;> exact ⟨rfl, rfl, rfl, rfl, rfl, rfl⟩

theorem Sound.dropGrants (h : Sound ctl s s.waitThreads spare unfinished) (hown : Own t s)
    (hheld : ∃ y ∈ s.holderTable, y.tag = (t, xid)) :
    Sound ctl (dropGrants t xid s) (dropGrants t xid s).waitThreads (spare+1) unfinished := by
  obtain ⟨htable, hwait, hsize, hprotection, hthread, _⟩ := dropGrants_eq t xid s
  refine ⟨?_, h.exclusion.without fun x hx => (mem_without.mp (htable ▸ hx)).1, ?_, ?_⟩
  · rw [hwait]
    exact h.calls.dropGrants hheld (h.queue.tag_ne hown.running xid)
  · refine ⟨?_, ?_, ?_, ?_⟩
    · rw [hsize, hwait]
      exact h.queue.size
    · rw [hwait]
      exact h.queue.keyed
    · rw [hwait, hthread]
      exact h.queue.queued
    · rw [hwait, hthread]
      exact h.queue.waiting
  · refine ⟨?_, ?_, ?_⟩
    · rw [hprotection]
      exact h.mutex.keyed
    · rw [hprotection, hthread]
      exact h.mutex.searching
    · rw [hprotection, htable]
      exact fun t' xid' hr => h.mutex.other_holder hown hr xid

theorem Sound.lockReleaseAll (h : Sound ctl s s.waitThreads (-1) 1) (hown : Own t s)
    (hpresent : s.present) (hheld : ∃ y ∈ s.holderTable, y.tag = (t, xid)) :
    Invariant ctl (lockReleaseAll ctl t xid s) := by
  have hreleased := h.dropGrants hown hheld
  have hstill : (Locks.dropGrants t xid s).present := (dropGrants_eq t xid s).2.2.2.2.2.trans hpresent
  unfold Locks.lockReleaseAll
  dsimp only
  split
  · obtain ⟨hwoken, hsame⟩ := Sound.threadLockWakeup hreleased
    exact hwoken.removeEntry (hsame.trans hstill)
  · exact hreleased.removeEntry hstill

end WeaverDB.Locks
