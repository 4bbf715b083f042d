import WeaverDB.Locks.Exclusion

/-! # A wait queue for one mode

As long as the queue waits for one mode, and a thread that holds a mode which conflicts with it waits
only if the mode conflicts with itself, `ThreadLockWakeup` leaves nobody in the queue that is free to
go: what blocks the first thread blocks the others.
-/

namespace WeaverDB.Locks
open Foundations List Option Function

variable {t' t : ThreadId} {x : Holder} {table : List Holder} {ctl : LockMethodCtl} {s s' : Lock}
  {xid : TransactionId} {m i : LockMode} {w : Waiter} {q : List LockMode} {spare : Int}
  {unfinished : Nat}

/-! ## Who holds what -/

def Holds (s : Lock) (t : ThreadId) (i : LockMode) : Prop := ∃ x ∈ s.holderTable, x.thread = t ∧ x.holders i ≠ 0

def Blocked (ctl : LockMethodCtl) (s : Lock) (w : Waiter) : Prop :=
  ∃ t i, t ≠ w.thread ∧ Holds s t i ∧ ctl.conflictTab w.waitLockMode i = true

def Modest (ctl : LockMethodCtl) (w : Waiter) : Prop :=
  meets (ctl.conflictTab w.waitLockMode) w.holdLock = false

instance : Decidable (Modest ctl w) := inferInstanceAs (Decidable (_ = _))

theorem holds_iff : Holds s t i ↔ lockCountMyLocks t s i ≠ 0 := by
  constructor
  · rintro ⟨x, hx, ht, hi⟩ hzero
    have hmem : x ∈ s.holderTable.filter fun h => decide (h.thread = t) := mem_filter.mpr ⟨hx, decide_eq_true ht⟩
    have hle := le_total (fun h : Holder => h.holders i) hmem
    unfold lockCountMyLocks at hzero
    omega
  · intro hne
    obtain ⟨x, hx, hi⟩ := exists_of_total_ne_zero hne
    obtain ⟨hx, ht⟩ := mem_filter.mp hx
    exact ⟨x, hx, of_decide_eq_true ht, hi⟩

theorem not_compatible_iff : ¬ Compatible ctl t m s ↔ ∃ t' i, t' ≠ t ∧ Holds s t' i ∧ ctl.conflictTab m i := by
  constructor
  · intro hnot
    by_contra hnone
    refine hnot fun x hx ht i hi => eq_false_of_ne_true fun hconflict => hnone ?_
    exact ⟨x.thread, i, ht, ⟨x, hx, rfl, hi⟩, hconflict⟩
  · rintro ⟨_, i, ht, ⟨x, hx, rfl, hi⟩, hconflict⟩ hcompatible
    exact absurd ((hcompatible x hx ht i hi).symm.trans hconflict) (by decide)

theorem Counts.blocked_iff (h : Counts s q) :
    Blocked ctl s w ↔ lockResolveConflicts ctl w.waitLockMode w.thread s = false := by
  rw [← Bool.not_eq_true, h.resolve_iff, not_compatible_iff]
  rfl

theorem Blocked.mono (h : Blocked ctl s w) (hkept : ∀ t i, t ≠ w.thread → Holds s t i → Holds s' t i) :
    Blocked ctl s' w := by
  obtain ⟨t, i, ht, hheld, hconflict⟩ := h
  exact ⟨t, i, ht, hkept t i ht hheld, hconflict⟩

theorem holds_put (hs : s.holderTable = table) (hs' : s'.holderTable = put Holder.tag x table)
    (ht : t ≠ x.thread) : Holds s' t i ↔ Holds s t i := by
  unfold Holds
  rw [hs, hs']
  constructor
  · rintro ⟨y, hy, rfl, hi⟩
    obtain rfl | ⟨hy, _⟩ := mem_put.mp hy
    · exact absurd rfl ht
    · exact ⟨y, hy, rfl, hi⟩
  · rintro ⟨y, hy, rfl, hi⟩
    exact ⟨y, mem_put.mpr (.inr ⟨hy, fun heq => ht (congrArg Prod.fst heq)⟩), rfl, hi⟩

theorem holds_without {k : ThreadId × TransactionId}
    (hs : s.holderTable = table) (hs' : s'.holderTable = without Holder.tag k table)
    (ht : t ≠ k.1) : Holds s' t i ↔ Holds s t i := by
  unfold Holds
  rw [hs, hs']
  constructor
  · rintro ⟨y, hy, hyt⟩
    exact ⟨y, (mem_without.mp hy).1, hyt⟩
  · rintro ⟨y, hy, rfl, hi⟩
    exact ⟨y, mem_without.mpr ⟨hy, fun heq => ht (congrArg Prod.fst heq)⟩, rfl, hi⟩

theorem holds_grant : Holds (grantLock t xid m s) t m :=
  ⟨_, mem_put.mpr (.inl rfl), holder_thread s t xid, by
    change update _ m _ m ≠ 0
    rw [update_self]
    exact Nat.succ_ne_zero _⟩

theorem Counts.holder_of_tag (h : Counts s q) (hx : x ∈ s.holderTable) (htag : x.tag = (t, xid)) : s.holder t xid = x :=
  holder_eq ((congrArg (lookup Holder.tag · s.holderTable) htag.symm).trans (h.keyed.lookup_eq hx))

theorem Counts.holds_grant_mono (h : Counts s q) (hheld : Holds s t' i) : Holds (grantLock t xid m s) t' i := by
  obtain ⟨x, hx, rfl, hi⟩ := hheld
  obtain htag | hne := Decidable.em (x.tag = (t, xid))
  · have hfound := h.holder_of_tag hx htag
    have hthread : (s.holder t xid).thread = x.thread := congrArg Holder.thread hfound
    refine ⟨_, mem_put.mpr (.inl rfl), hthread, ?_⟩
    change update (s.holder t xid).holders m ((s.holder t xid).holders m + 1) i ≠ 0
    rw [hfound, update_apply]
    split
    · exact Nat.succ_ne_zero _
    · exact hi
  · refine ⟨x, mem_put.mpr (.inr ⟨hx, fun heq => hne ?_⟩), rfl, hi⟩
    exact heq.trans (holder_tag s t xid)

/-! ## A queue in line -/

/-- The queue is for one mode, which the mask shows; only its first holds a conflicting mode. -/
structure Lined (ctl : LockMethodCtl) (s : Lock) : Prop where
  uniform : ∀ v ∈ s.waitThreads, ∀ w ∈ s.waitThreads, v.waitLockMode = w.waitLockMode
  masked : ∀ w ∈ s.waitThreads, s.waitMask w.waitLockMode
  granted : ∀ t xid m origMask, s.thread t = .asleep xid m origMask false → Holds s t m
  hold : ∀ w ∈ s.waitThreads, ∀ i, w.holdLock i ↔ Holds s w.thread i
  modest : ∀ w ∈ s.waitThreads.tail, Modest ctl w
  ready : ∀ w ∈ s.waitThreads, ctl.conflictTab w.waitLockMode w.waitLockMode ∨ Modest ctl w

/-- The mask shows a mode only if a thread waits for it, or was just woken with it. -/
def Shown (s : Lock) (i : LockMode) : Prop :=
  s.waitMask i → (∃ w ∈ s.waitThreads, w.waitLockMode = i) ∨
    ∃ t xid origMask, s.thread t = .asleep xid i origMask false

theorem Shown.frame (h : Shown s i) (hwait : s'.waitThreads = s.waitThreads) (hmask : s'.waitMask = s.waitMask)
    (hasleep : ∀ t' xid m origMask locked, s'.thread t' = .asleep xid m origMask locked ↔
      s.thread t' = .asleep xid m origMask locked) : Shown s' i := by
  unfold Shown
  rw [hwait, hmask]
  intro hi
  refine (h hi).imp_right fun ⟨t', xid, origMask, ht⟩ => ⟨t', xid, origMask, ?_⟩
  exact (hasleep t' xid i origMask false).mpr ht

theorem Lined.frame (h : Lined ctl s) (hqueue : Queue s) (hwait : s'.waitThreads = s.waitThreads)
    (hmask : s'.waitMask = s.waitMask)
    (hasleep : ∀ t' xid m origMask locked, s'.thread t' = .asleep xid m origMask locked ↔
      s.thread t' = .asleep xid m origMask locked)
    (hawake : ∀ xid m origMask locked, s.thread t ≠ .asleep xid m origMask locked)
    (hholds : ∀ t' i, t' ≠ t → (Holds s' t' i ↔ Holds s t' i)) : Lined ctl s' where
  uniform := hwait ▸ h.uniform
  masked := by
    rw [hwait, hmask]
    exact h.masked
  granted := by
    intro t' xid m origMask ht
    have ht := (hasleep t' xid m origMask false).mp ht
    refine (hholds t' m fun heq => hawake xid m origMask false (heq ▸ ht)).mpr ?_
    exact h.granted t' xid m origMask ht
  hold := by
    rw [hwait]
    intro w hw i
    obtain ⟨origMask, hw'⟩ := hqueue.queued w hw
    rw [h.hold w hw i, hholds w.thread i fun heq => hawake _ _ origMask true (heq ▸ hw')]
  modest := hwait ▸ h.modest
  ready := hwait ▸ h.ready

theorem mem_tail_without {k : ThreadId} {l : List Waiter} (h : w ∈ (without Waiter.thread k l).tail) : w ∈ l.tail := by
  cases l with
  | nil => exact absurd h not_mem_nil
  | cons v rest =>
    unfold without at h
    rw [filter_cons] at h
    split at h
    · exact (mem_filter.mp h).1
    · exact (mem_filter.mp (mem_of_mem_tail h)).1

theorem Counts.holds_holder (h : Counts s q) (hi : (s.holder t xid).holders i ≠ 0) : Holds s t i := by
  have hle : (s.holder t xid).holders i ≤ (s.holder t xid).nHolding :=
    h.holder_sums t xid ▸ le_total (s.holder t xid).holders (mem_lockModes i)
  exact ⟨_, holder_mem (by omega), holder_thread s t xid, hi⟩

theorem Counts.holds_of_grant (h : Counts s q)
    (hheld : Holds (grantLock t xid m s) t' i) : Holds s t' i ∨ (t' = t ∧ i = m) := by
  obtain ⟨x, hx, rfl, hi⟩ := hheld
  obtain rfl | ⟨hx, _⟩ := mem_put.mp hx
  · obtain rfl | hne := eq_or_ne i m
    · exact .inr ⟨holder_thread s t xid, rfl⟩
    · change update (s.holder t xid).holders m ((s.holder t xid).holders m + 1) i ≠ 0 at hi
      rw [update_of_ne hne] at hi
      refine .inl ?_
      rw [holder_thread]
      exact h.holds_holder hi
  · exact .inl ⟨x, hx, rfl, hi⟩

/-! ## A pass over the queue -/

theorem Sound.holds_wake (h : Sound ctl s s.waitThreads spare unfinished) (hw : w ∈ s.waitThreads) :
    Holds (Locks.wake w s) t' i ↔ Holds (grantLock w.thread w.xid w.waitLockMode s) t' i := by
  obtain ⟨origMask, hasleep⟩ := h.queue.queued w hw
  rw [wake_eq hasleep]
  rfl

theorem Lined.wake (hl : Lined ctl s) (h : Sound ctl s s.waitThreads spare unfinished)
    (hw : w ∈ s.waitThreads) : Lined ctl (Locks.wake w s) := by
  obtain ⟨origMask, hasleep⟩ := h.queue.queued w hw
  have hothers (t' : ThreadId) (i : LockMode) (ht : t' ≠ w.thread) :
      Holds (grantLock w.thread w.xid w.waitLockMode s) t' i ↔ Holds s t' i :=
    holds_put rfl rfl ((holder_thread s w.thread w.xid).symm ▸ ht)
  have hmem (v : Waiter) (hv : v ∈ without Waiter.thread w.thread s.waitThreads) :
      v ∈ s.waitThreads := (mem_without.mp hv).1
  rw [wake_eq hasleep]
  refine ⟨fun v hv v' hv' => hl.uniform v (hmem v hv) v' (hmem v' hv'),
    fun v hv => hl.masked v (hmem v hv), fun t' xid m origMask' ht => ?_, fun v hv i => ?_,
    fun v hv => hl.modest v (mem_tail_without hv),
    fun v hv => hl.ready v (hmem v hv)⟩
  · change update s.thread w.thread _ t' = _ at ht
    change Holds (grantLock w.thread w.xid w.waitLockMode s) t' m
    obtain rfl | hne := eq_or_ne t' w.thread
    · rw [update_self] at ht
      obtain ⟨_, rfl, _⟩ := Pc.asleep.inj ht
      exact holds_grant
    · rw [update_of_ne hne] at ht
      exact (hothers t' m hne).mpr (hl.granted t' xid m origMask' ht)
  · obtain ⟨hv, hne⟩ := mem_without.mp hv
    exact (hl.hold v hv i).trans (hothers v.thread i hne).symm

theorem Sound.shown_wake (h : Sound ctl s s.waitThreads spare unfinished) (hw : w ∈ s.waitThreads)
    (hshown : Shown s i) (huniform : ∀ v ∈ s.waitThreads, v.waitLockMode = w.waitLockMode) :
    Shown (Locks.wake w s) i := by
  obtain ⟨origMask, hasleep⟩ := h.queue.queued w hw
  rw [wake_eq hasleep]
  intro hi
  refine .inr ?_
  change ∃ t' xid origMask', update s.thread w.thread _ t' = _
  have hself (hmode : i = w.waitLockMode) : ∃ t' xid origMask', update s.thread w.thread
      (.asleep w.xid w.waitLockMode origMask false) t' = .asleep xid i origMask' false :=
    ⟨w.thread, w.xid, origMask, hmode ▸ update_self ..⟩
  obtain ⟨v, hv, rfl⟩ | ⟨t', xid, origMask', ht⟩ := hshown hi
  · exact hself (huniform v hv)
  · refine ⟨t', xid, origMask', ?_⟩
    rw [update_of_ne fun heq => ?_]
    · exact ht
    · rw [heq, hasleep] at ht
      exact absurd (Pc.asleep.inj ht).2.2.2 (by decide)

variable {ws : List Waiter}

theorem without_head {rest : List Waiter} (hkeyed : Keyed Waiter.thread (w :: rest)) :
    without Waiter.thread w.thread (w :: rest) = rest := by
  have hnot := (nodup_cons.mp hkeyed).1
  unfold without
  rw [filter_cons, if_neg (by simp)]
  refine filter_eq_self.mpr fun v hv => decide_eq_true fun heq => hnot ?_
  exact heq ▸ mem_map_of_mem hv

theorem wakeupLoop_all (ws : List Waiter) (s : Lock) (h : Sound ctl s s.waitThreads spare unfinished)
    (hws : s.waitThreads = ws) (hmode : ∀ w ∈ ws, w.waitLockMode = m) (hself : ctl.conflictTab m m = false)
    (hnone : ∀ t i, Holds s t i → ctl.conflictTab m i = false) :
    (wakeupLoop ctl ws s).waitThreads = [] := by
  induction ws generalizing s with
  | nil => exact hws
  | cons w rest ih =>
    have hw : w ∈ s.waitThreads := hws ▸ (.head _)
    have hwm := hmode w (.head _)
    have hfree : lockResolveConflicts ctl w.waitLockMode w.thread s := by
      refine h.calls.counts.resolve_iff.mpr fun x hx _ i hi => ?_
      rw [hwm]
      exact hnone x.thread i ⟨x, hx, rfl, hi⟩
    rw [wakeupLoop, if_pos hfree]
    refine ih (wake w s) (h.wake hw hfree) ?_ (fun v hv => hmode v (.tail _ hv)) fun t i hheld => ?_
    · have hkeyed := h.queue.keyed
      rw [wake_waitThreads]
      rw [hws] at hkeyed ⊢
      exact without_head hkeyed
    · obtain hold | ⟨_, hi⟩ := h.calls.counts.holds_of_grant ((h.holds_wake hw).mp hheld)
      · exact hnone t i hold
      · rw [hi, hwm]
        exact hself

theorem Lined.modest_holds (hl : Lined ctl s) (hw : w ∈ s.waitThreads) (hmodest : Modest ctl w)
    (hheld : Holds s w.thread i) : ctl.conflictTab w.waitLockMode i = false :=
  eq_false_of_ne_true fun hconflict =>
    absurd ((meets_eq_false hmodest hconflict).symm.trans ((hl.hold w hw i).mpr hheld)) (by decide)

section

variable {spare : Int} {unfinished : Nat} {rest : List Waiter}

theorem Lined.blocked_of_head (hl : Lined ctl s) (hws : s.waitThreads = w :: rest)
    (hblocked : Blocked ctl s w) : ∀ v ∈ s.waitThreads, Blocked ctl s v := by
  obtain ⟨t, i, ht, hheld, hconflict⟩ := hblocked
  intro v hv
  have hmode : v.waitLockMode = w.waitLockMode := hl.uniform v hv w (hws ▸ (.head _))
  have htail : v = w ∨ v ∈ s.waitThreads.tail := by
    rw [hws] at hv ⊢
    exact mem_cons.mp hv
  obtain rfl | htail := htail
  · exact ⟨t, i, ht, hheld, hconflict⟩
  · refine ⟨t, i, fun heq => ?_, hheld, hmode ▸ hconflict⟩
    have hnot := hl.modest_holds hv (hl.modest v htail) (heq ▸ hheld)
    rw [hmode] at hnot
    exact absurd (hnot.symm.trans hconflict) (by decide)

theorem Lined.none_conflicts (hl : Lined ctl s) (h : Sound ctl s s.waitThreads spare unfinished)
    (hw : w ∈ s.waitThreads) (hfree : lockResolveConflicts ctl w.waitLockMode w.thread s)
    (hself : ctl.conflictTab w.waitLockMode w.waitLockMode = false) (hheld : Holds s t i) :
    ctl.conflictTab w.waitLockMode i = false := by
  obtain rfl | hne := eq_or_ne t w.thread
  · have hmodest := (hl.ready w hw).resolve_left (ne_true_of_eq_false hself)
    exact hl.modest_holds hw hmodest hheld
  · obtain ⟨x, hx, rfl, hi⟩ := hheld
    exact h.calls.counts.resolve_iff.mp hfree x hx hne i hi

theorem Sound.wakeupLoop_stops (h : Sound ctl s s.waitThreads spare unfinished)
    (hws : s.waitThreads = rest) (hheld : Holds s t m) (hself : ctl.conflictTab m m)
    (hrest : ∀ v ∈ rest, t ≠ v.thread ∧ v.waitLockMode = m) :
    ∀ v ∈ (wakeupLoop ctl rest s).waitThreads, Blocked ctl (wakeupLoop ctl rest s) v := by
  have hblocked (v : Waiter) (hv : v ∈ rest) : Blocked ctl s v := ⟨t, m, (hrest v hv).1, hheld, (hrest v hv).2 ▸ hself⟩
  cases rest with
  | nil =>
    intro v hv
    rw [wakeupLoop, hws] at hv
    exact absurd hv not_mem_nil
  | cons v tail =>
    have hrefused := h.calls.counts.blocked_iff.mp (hblocked v (.head _))
    rw [wakeupLoop, if_neg (ne_true_of_eq_false hrefused), hws]
    exact hblocked

theorem Lined.threadLockWakeup_blocked (hl : Lined ctl s) (h : Sound ctl s s.waitThreads spare unfinished) :
    ∀ v ∈ (threadLockWakeup ctl s).waitThreads, Blocked ctl (threadLockWakeup ctl s) v := by
  unfold threadLockWakeup
  rw [h.queue.take_size]
  cases hws : s.waitThreads with
  | nil =>
    intro v hv
    rw [wakeupLoop, hws] at hv
    exact absurd hv not_mem_nil
  | cons w rest =>
    have hw : w ∈ s.waitThreads := hws ▸ (.head _)
    have hmode (v : Waiter) (hv : v ∈ rest) : v.waitLockMode = w.waitLockMode := hl.uniform v (hws ▸ .tail _ hv) w hw
    rw [wakeupLoop]
    cases hfree : lockResolveConflicts ctl w.waitLockMode w.thread s with
    | false =>
      rw [if_neg (by decide)]
      exact hl.blocked_of_head hws (h.calls.counts.blocked_iff.mpr hfree)
    | true =>
      rw [if_pos rfl]
      have hkeyed : Keyed Waiter.thread (w :: rest) := hws ▸ h.queue.keyed
      have hwoken := h.wake hw hfree
      have hqueue : (Locks.wake w s).waitThreads = rest := by
        rw [wake_waitThreads, hws]
        exact without_head hkeyed
      cases hself : ctl.conflictTab w.waitLockMode w.waitLockMode with
      | true =>
        refine hwoken.wakeupLoop_stops hqueue ((h.holds_wake hw).mpr holds_grant) hself
          fun v hv => ⟨fun heq => (nodup_cons.mp hkeyed).1 ?_, hmode v hv⟩
        exact heq ▸ mem_map_of_mem hv
      | false =>
        have hnone (t : ThreadId) (i : LockMode) (hheld : Holds (Locks.wake w s) t i) :
            ctl.conflictTab w.waitLockMode i = false := by
          obtain hold | ⟨_, hi⟩ := h.calls.counts.holds_of_grant ((h.holds_wake hw).mp hheld)
          · exact hl.none_conflicts h hw hfree hself hold
          · rw [hi]
            exact hself
        intro v hv
        rw [wakeupLoop_all rest (Locks.wake w s) hwoken hqueue hmode hself hnone] at hv
        exact absurd hv not_mem_nil

end

theorem Own.awake (h : Own t s) (xid : TransactionId) (m : LockMode) (origMask : LockMask)
    (locked : Bool) : s.thread t ≠ .asleep xid m origMask locked := by
  rw [h.running]
  nofun

structure Prompt (ctl : LockMethodCtl) (s : Lock) : Prop where
  lined : Lined ctl s
  shown : ∀ i, Shown s i
  blocked : ∀ w ∈ s.waitThreads, Blocked ctl s w

theorem prompt_init (ctl : LockMethodCtl) : Prompt ctl .init :=
  ⟨⟨nofun, nofun, nofun, nofun, nofun, nofun⟩, fun _ => nofun, nofun⟩

theorem Lined.prompt_wakeup (hl : Lined ctl s) (hshown : ∀ i, Shown s i)
    (h : Sound ctl s s.waitThreads spare unfinished) :
    Prompt ctl (Locks.threadLockWakeup ctl s) := by
  let P (s' : Lock) : Prop := Sound ctl s' s'.waitThreads spare unfinished ∧ Lined ctl s' ∧ ∀ i, Shown s' i
  have hafter : P (Locks.threadLockWakeup ctl s) := threadLockWakeup_preserves P h.queue
    (fun s' w ⟨hs, hl, hshown⟩ hw hfree => ⟨hs.wake hw hfree, hl.wake hs hw, fun i =>
      hs.shown_wake hw (hshown i) fun v hv => hl.uniform v hv w hw⟩) ⟨h, hl, hshown⟩
  exact ⟨hafter.2.1, hafter.2.2, hl.threadLockWakeup_blocked h⟩

/-- A thread that does not sleep, and takes away no mode that blocks another. -/
theorem Prompt.frame (hp : Prompt ctl s) (hqueue : Queue s) (hown : Own t s)
    (hwait : s'.waitThreads = s.waitThreads) (hmask : s'.waitMask = s.waitMask)
    (hthread : s'.thread = s.thread) (hholds : ∀ t' i, t' ≠ t → (Holds s' t' i ↔ Holds s t' i))
    (hkept : ∀ i, Holds s t i → Holds s' t i) : Prompt ctl s' where
  lined := hp.lined.frame hqueue hwait hmask (fun _ _ _ _ _ => by rw [hthread]) hown.awake hholds
  shown i := (hp.shown i).frame hwait hmask fun _ _ _ _ _ => by rw [hthread]
  blocked w hw := by
    refine (hp.blocked w (hwait ▸ hw)).mono fun t' i _ hheld => ?_
    obtain rfl | hne := eq_or_ne t' t
    · exact hkept i hheld
    · exact (hholds t' i hne).mpr hheld

/-! ## Releasing -/

theorem Prompt.removeEntry (h : Prompt ctl s) : Prompt ctl (removeEntry s) := by
  unfold Locks.removeEntry
  dsimp only
  split <;> exact ⟨{ h.lined with }, h.shown, h.blocked⟩

theorem holds_dropGrant (hfound : lookup Holder.tag (t, xid) s.holderTable = some x)
    (ht : t' ≠ t) : Holds (dropGrant t xid m x s) t' i ↔ Holds s t' i := by
  have hx : x.thread = t := congrArg Prod.fst (lookup_key hfound)
  obtain hzero | hne := Decidable.em (x.nHolding-1 = 0)
  · exact holds_without rfl (if_pos hzero) ht
  · refine holds_put rfl (if_neg hne) ?_
    rwa [hx]

section

variable {spare : Int} {unfinished : Nat}

theorem Lined.dropGrant (hl : Lined ctl s) (h : Sound ctl s s.waitThreads spare unfinished)
    (hown : Own t s) (hfound : lookup Holder.tag (t, xid) s.holderTable = some x) :
    Lined ctl (dropGrant t xid m x s) :=
  hl.frame h.queue rfl rfl (fun _ _ _ _ _ => .rfl) hown.awake fun _ _ ht =>
    holds_dropGrant hfound ht

theorem Sound.nobody_waits (h : Sound ctl s s.waitThreads spare unfinished) (hzero : s.nHolding = 0) :
    s.waitThreads = [] := by
  have hsum := h.calls.counts.nHolding
  have hactive := h.calls.counts.nActive
  rw [length_map] at hsum
  exact eq_nil_of_length_eq_zero (by omega)

theorem Lined.prompt_of_nobody (hl : Lined ctl s) (hshown : ∀ i, Shown s i)
    (hnone : s.waitThreads = []) : Prompt ctl s :=
  ⟨hl, hshown, fun _ hw => absurd (hnone ▸ hw) not_mem_nil⟩

theorem Prompt.lockRelease (hp : Prompt ctl s) (h : Sound ctl s s.waitThreads (-1) 1)
    (hown : Own t s) (xid : TransactionId) (m : LockMode) :
    Prompt ctl (lockRelease ctl t xid m s) := by
  unfold Locks.lockRelease
  split
  · exact hp
  · next x hfound =>
    split
    · exact hp
    · next hm =>
      have hsound : Sound ctl (dropGrant t xid m x s) s.waitThreads 0 1 := h.dropGrant hown hfound hm
      have hl := hp.lined.dropGrant (m := m) h hown hfound
      have hshown (i : LockMode) : Shown (dropGrant t xid m x s) i := (hp.shown i).frame rfl rfl fun _ _ _ _ _ => .rfl
      refine Prompt.removeEntry ?_
      split
      · next hzero => exact hl.prompt_of_nobody hshown (Sound.nobody_waits hsound hzero)
      · exact Lined.prompt_wakeup hl hshown hsound

theorem dropGrants_waitMask (t : ThreadId) (xid : TransactionId) (s : Lock) :
    (dropGrants t xid s).waitMask = s.waitMask := by
  unfold dropGrants
  dsimp only
  split <;> rfl

theorem Lined.dropGrants (hl : Lined ctl s) (h : Sound ctl s s.waitThreads spare unfinished)
    (hown : Own t s) (xid : TransactionId) : Lined ctl (dropGrants t xid s) := by
  obtain ⟨htable, hwait, _, _, hthread, _⟩ := dropGrants_eq t xid s
  refine hl.frame h.queue hwait (dropGrants_waitMask t xid s) (fun _ _ _ _ _ => ?_) hown.awake
    fun _ _ ht => holds_without rfl htable ht
  rw [hthread]

theorem shown_dropGrants (hshown : Shown s i) : Shown (dropGrants t xid s) i := by
  obtain ⟨_, hwait, _, _, hthread, _⟩ := dropGrants_eq t xid s
  refine hshown.frame hwait (dropGrants_waitMask t xid s) fun _ _ _ _ _ => ?_
  rw [hthread]

/-- A thread that gives up no mode which the wait mask waits for blocked nobody. -/
theorem Prompt.dropGrants (hp : Prompt ctl s) (h : Sound ctl s s.waitThreads spare unfinished) (hown : Own t s)
    (hidle : ∀ i, (s.holder t xid).holders i ≠ 0 → meets (ctl.conflictTab i) s.waitMask = false) :
    Prompt ctl (dropGrants t xid s) := by
  refine ⟨hp.lined.dropGrants h hown xid, fun i => shown_dropGrants (hp.shown i), fun w hw => ?_⟩
  obtain ⟨htable, hwait, _⟩ := dropGrants_eq t xid s
  rw [hwait] at hw
  obtain ⟨_, i, ht, ⟨x, hx, rfl, hi⟩, hconflict⟩ := hp.blocked w hw
  refine ⟨x.thread, i, ht, ⟨x, ?_, rfl, hi⟩, hconflict⟩
  rw [htable]
  refine mem_without.mpr ⟨hx, fun htag => ?_⟩
  have hfound := h.calls.counts.holder_of_tag hx htag
  have hmeets := hidle i (hfound ▸ hi)
  rw [ctl.mutual_] at hconflict
  exact absurd ((meets_eq_false hmeets hconflict).symm.trans (hp.lined.masked w hw)) (by decide)

theorem Prompt.lockReleaseAll (hp : Prompt ctl s) (h : Sound ctl s s.waitThreads (-1) 1)
    (hown : Own t s) (hheld : ∃ y ∈ s.holderTable, y.tag = (t, xid)) :
    Prompt ctl (lockReleaseAll ctl t xid s) := by
  have hsound := h.dropGrants hown hheld
  have hl := hp.lined.dropGrants h hown xid
  have hshown (i : LockMode) : Shown (Locks.dropGrants t xid s) i := shown_dropGrants (hp.shown i)
  unfold Locks.lockReleaseAll
  dsimp only
  refine Prompt.removeEntry ?_
  split
  · exact hl.prompt_wakeup hshown hsound
  · next hquiet =>
    obtain hzero | hne := Decidable.em ((Locks.dropGrants t xid s).nHolding = 0)
    · exact hl.prompt_of_nobody hshown (hsound.nobody_waits hzero)
    · refine hp.dropGrants h hown fun i hi => eq_false_of_ne_true fun hmeets => hquiet ⟨hne, ?_⟩
      refine any_eq_true.mpr ⟨i, mem_lockModes i, ?_⟩
      rw [hmeets, decide_eq_true (pos_of_ne_zero hi)]
      rfl

end

end WeaverDB.Locks
