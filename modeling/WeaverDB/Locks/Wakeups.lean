import WeaverDB.Locks.WaitQueue

/-! # Wakeups

A thread that sleeps has to be blocked by a mode which another thread holds, or to have been granted the
lock and woken. `LockReleaseAll` looks at the queue only if the wait mask shows a conflicting mode, and
the mask is not kept up:

* `ThreadEnqueue` takes the modes of the waiters that it goes past off the mask;
* a wait that is cancelled puts the mask back to what it was before, and wakes nobody;
* a new entry has whatever was in its memory as its mask.

`ThreadLockWakeup` stops at the first waiter that it must refuse, and leaves those behind it asleep.
`promptly` leaves these situations out.
-/

namespace WeaverDB.Locks
open Foundations List Option Function

variable {tag : LockTag} {garbage origMask : LockMask} {spare : Int} {unfinished : Nat}
  {r : Request} {e : Event}

variable {ctl : LockMethodCtl} {s s' : Lock} {t : ThreadId} {xid : TransactionId} {m i : LockMode}
  {w : Waiter} {q : List LockMode}

/-! ## Joining the queue -/

section

variable {me : Waiter} {holders : LockMode → Int} {ws queue : List Waiter} {waitMask : LockMask}
  {aheadHolders : LockMode → Int} {prevSame : Bool}

theorem enqueueLoop_mask {b : Bool} (hmode : ∀ w ∈ ws, w.waitLockMode = me.waitLockMode)
    (hi : i ≠ me.waitLockMode) (hb : waitMask i = b) :
    (enqueueLoop ctl me holders ws waitMask aheadHolders prevSame).1 i = b := by
  induction ws generalizing waitMask aheadHolders prevSame with
  | nil => exact hb
  | cons w rest ih =>
    have hwm := hmode w (.head _)
    have hpassed {ahead : Int} : (if ahead = holders w.waitLockMode then
        update waitMask w.waitLockMode false else waitMask) i = b := by
      split
      · rw [update_of_ne (hwm ▸ hi)]
        exact hb
      · exact hb
    have hrest (v : Waiter) (hv : v ∈ rest) := hmode v (.tail _ hv)
    rw [enqueueLoop]
    split
    · split
      · exact hb
      · exact ih hrest hpassed
    · split
      · exact hb
      · split
        · split
          · exact hb
          · exact ih hrest hpassed
        · split
          · exact hb
          · exact ih hrest hpassed

section

variable (hmode : ∀ w ∈ ws, w.waitLockMode = me.waitLockMode)
include hmode

theorem enqueueLoop_modest (hmodest : ∀ w ∈ ws, Modest ctl w) :
    (enqueueLoop ctl me holders ws waitMask aheadHolders prevSame).2 ≠ none := by
  induction ws generalizing waitMask aheadHolders prevSame with
  | nil => exact some_ne_none _
  | cons w rest ih =>
    have hwm := hmode w (.head _)
    have hnot : ¬ meets (ctl.conflictTab me.waitLockMode) w.holdLock := ne_true_of_eq_false (hwm ▸ hmodest w (.head _))
    have hpass {waitMask : LockMask} {aheadHolders : LockMode → Int} {prevSame : Bool} :
        (enqueueLoop ctl me holders rest waitMask aheadHolders prevSame).2.map (w :: ·) ≠ none :=
      fun hnone => ih (fun v hv => hmode v (.tail _ hv)) (fun v hv => hmodest v (.tail _ hv)) (map_eq_none_iff.mp hnone)
    rw [enqueueLoop, if_neg hnot]
    split
    · exact some_ne_none _
    · split
      · split
        · exact some_ne_none _
        · exact hpass
      · split
        · exact some_ne_none _
        · exact hpass

/-- A deadlock is found at the first thread, before the mask is touched. -/
theorem enqueueLoop_deadlock (hmodest : ∀ w ∈ ws.tail, Modest ctl w)
    (h : (enqueueLoop ctl me holders ws waitMask aheadHolders prevSame).2 = none) :
    (enqueueLoop ctl me holders ws waitMask aheadHolders prevSame).1 = waitMask := by
  cases ws with
  | nil => cases h
  | cons w rest =>
    have hpass {waitMask : LockMask} {aheadHolders : LockMode → Int} {prevSame : Bool} {P : Prop}
        (hnone : (enqueueLoop ctl me holders rest waitMask aheadHolders prevSame).2.map (w :: ·) = none) : P :=
      absurd (map_eq_none_iff.mp hnone) (enqueueLoop_modest (fun v hv => hmode v (.tail _ hv)) hmodest)
    rw [enqueueLoop] at h ⊢
    split at h
    · next hfirst =>
      rw [if_pos hfirst]
      split at h
      · next hsecond => rw [if_pos hsecond]
      · exact hpass h
    · split at h
      · cases h
      · split at h
        · split at h
          · cases h
          · exact hpass h
        · split at h
          · cases h
          · exact hpass h

theorem enqueueLoop_last (hself : ctl.conflictTab me.waitLockMode me.waitLockMode) (hmodest : Modest ctl me) :
    (enqueueLoop ctl me holders ws waitMask aheadHolders prevSame).2 = some (ws ++ [me]) := by
  induction ws generalizing waitMask aheadHolders prevSame with
  | nil => rfl
  | cons w rest ih =>
    have hwm := hmode w (.head _)
    have hnot : ¬ meets (ctl.conflictTab w.waitLockMode) me.holdLock := ne_true_of_eq_false (hwm ▸ hmodest)
    have hpass {waitMask : LockMask} {aheadHolders : LockMode → Int} {prevSame : Bool} :
        (enqueueLoop ctl me holders rest waitMask aheadHolders prevSame).2.map (w :: ·) = some (w :: rest ++ [me]) := by
      rw [ih fun v hv => hmode v (.tail _ hv)]
      rfl
    rw [enqueueLoop]
    split
    · exact hpass
    · rw [hwm, hself]
      exact hpass

theorem enqueueLoop_first (hmodest : ¬ Modest ctl me)
    (h : (enqueueLoop ctl me holders ws waitMask aheadHolders prevSame).2 = some queue) :
    queue = me :: ws ∧ ∀ w ∈ ws.head?, Modest ctl w := by
  cases ws with
  | nil =>
    cases h
    exact ⟨rfl, fun _ hw => absurd hw (not_mem_none _)⟩
  | cons w rest =>
    have hwm := hmode w (.head _)
    have hholds : meets (ctl.conflictTab w.waitLockMode) me.holdLock := hwm ▸ Bool.eq_true_of_not_eq_false hmodest
    rw [enqueueLoop] at h
    split at h
    · cases h
    · next hfirst =>
      cases h
      refine ⟨rfl, fun v hv => ?_⟩
      cases hv
      unfold Modest
      rw [hwm]
      exact eq_false_of_ne_true hfirst

end

variable (hl : Lined ctl s) (hqueue : Queue s) (hmode : ∀ w ∈ s.waitThreads, w.waitLockMode = me.waitLockMode)

include hqueue in
theorem threadEnqueue_eq (hmeets : meets (ctl.conflictTab me.waitLockMode) s.waitMask) : threadEnqueue ctl me s =
      let looped := enqueueLoop ctl me s.holders s.waitThreads s.waitMask
        (update s.activeHolders me.waitLockMode (s.activeHolders me.waitLockMode + 1)) false
      match looped.2 with
      | none => (looped.1, none)
      | some queue => (update looped.1 me.waitLockMode true, some queue) := by
  have hdrop : s.waitThreads.drop s.size.toNat = [] := by
    rw [hqueue.size, Int.toNat_natCast, drop_length]
  unfold threadEnqueue
  dsimp only
  rw [hmeets, hqueue.take_size, hdrop, if_neg (by decide)]
  generalize enqueueLoop ctl me s.holders s.waitThreads s.waitMask _ false = looped
  obtain ⟨mask, found⟩ := looped
  cases found with
  | none => rfl
  | some queue => simp only [append_nil]

include hqueue hmode in
theorem threadEnqueue_mask (h : (threadEnqueue ctl me s).2 = some queue) (i : LockMode) :
    (threadEnqueue ctl me s).1 i = if i = me.waitLockMode then true else s.waitMask i := by
  cases hmeets : meets (ctl.conflictTab me.waitLockMode) s.waitMask with
  | false =>
    unfold threadEnqueue
    dsimp only
    rw [hmeets, if_pos (by decide)]
    exact update_apply ..
  | true =>
    rw [threadEnqueue_eq hqueue hmeets] at h ⊢
    dsimp only at h ⊢
    split at h
    · nomatch h
    · dsimp only
      rw [update_apply]
      split
      · rfl
      · next hne => exact enqueueLoop_mask hmode hne rfl

include hl hqueue hmode in
theorem threadEnqueue_deadlock (h : (threadEnqueue ctl me s).2 = none) : (threadEnqueue ctl me s).1 = s.waitMask := by
  cases hmeets : meets (ctl.conflictTab me.waitLockMode) s.waitMask with
  | false =>
    unfold threadEnqueue at h
    dsimp only at h
    rw [hmeets, if_pos (by decide)] at h
    nomatch h
  | true =>
    rw [threadEnqueue_eq hqueue hmeets] at h ⊢
    dsimp only at h ⊢
    split at h
    · next hnone => exact enqueueLoop_deadlock hmode hl.modest hnone
    · nomatch h

include hl hqueue hmode in
theorem threadEnqueue_modest (hready : ctl.conflictTab me.waitLockMode me.waitLockMode ∨ Modest ctl me)
    (h : (threadEnqueue ctl me s).2 = some queue) : ∀ v ∈ queue.tail, Modest ctl v := by
  cases hself : ctl.conflictTab me.waitLockMode me.waitLockMode with
  | false =>
    -- everybody is modest, so the order does not matter
    intro v hv
    have hperm := threadEnqueue_perm h
    obtain rfl | hv := mem_cons.mp (hperm.mem_iff.mp (mem_of_mem_tail hv))
    · exact hready.resolve_left (ne_true_of_eq_false hself)
    · refine (hl.ready v hv).resolve_left (ne_true_of_eq_false ?_)
      rwa [hmode v hv]
  | true =>
    cases hmeets : meets (ctl.conflictTab me.waitLockMode) s.waitMask with
    | false =>
      have hnone : s.waitThreads = [] := by
        refine eq_nil_iff_forall_not_mem.mpr fun w hw => ?_
        have hmasked := hl.masked w hw
        rw [hmode w hw, meets_eq_false hmeets hself] at hmasked
        nomatch hmasked
      unfold threadEnqueue at h
      dsimp only at h
      rw [hmeets, if_pos (by decide), hnone] at h
      cases h
      nofun
    | true =>
      rw [threadEnqueue_eq hqueue hmeets] at h
      dsimp only at h
      split at h
      · nomatch h
      · next found hfound =>
        cases h
        obtain hmodest | hnot := Decidable.em (Modest ctl me)
        · cases (enqueueLoop_last hmode hself hmodest).symm.trans hfound
          intro v hv
          have htail : v ∈ s.waitThreads.tail ∨ v = me := by
            cases hws : s.waitThreads with
            | nil =>
              rw [hws] at hv
              exact absurd hv not_mem_nil
            | cons w rest =>
              rw [hws] at hv
              exact (mem_append.mp hv).imp_right mem_singleton.mp
          obtain hv | rfl := htail
          · exact hl.modest v hv
          · exact hmodest
        · obtain ⟨rfl, hhead⟩ := enqueueLoop_first hmode hnot hfound
          intro v hv
          change v ∈ s.waitThreads at hv
          cases hws : s.waitThreads with
          | nil =>
            rw [hws] at hv
            exact absurd hv not_mem_nil
          | cons w rest =>
            have htail := hl.modest v
            rw [hws] at hv hhead htail
            obtain rfl | hv := mem_cons.mp hv
            · exact hhead v rfl
            · exact htail hv

end

/-! ## Acquiring -/

theorem Counts.holds_enter (h : Counts s q) {t' : ThreadId} :
    Holds ((s.setHolder (s.holder t xid)).request m) t' i ↔ Holds s t' i := by
  constructor
  · rintro ⟨x, hx, rfl, hi⟩
    obtain rfl | ⟨hx, _⟩ := mem_put.mp hx
    · rw [holder_thread]
      exact h.holds_holder hi
    · exact ⟨x, hx, rfl, hi⟩
  · rintro ⟨x, hx, rfl, hi⟩
    obtain htag | hne := Decidable.em (x.tag = (t, xid))
    · have hfound := h.holder_of_tag hx htag
      exact ⟨x, mem_put.mpr (.inl hfound.symm), rfl, hi⟩
    · exact ⟨x, mem_put.mpr (.inr ⟨hx, fun heq => hne (heq.trans (holder_tag s t xid))⟩), rfl, hi⟩

section

variable (hp : Prompt ctl s)
include hp

theorem Prompt.enterHolder (h : Sound ctl s s.waitThreads spare unfinished)
    (hown : Own t s) : Prompt ctl ((s.setHolder (s.holder t xid)).request m) :=
  hp.frame h.queue hown rfl rfl rfl (fun _ _ _ => h.calls.counts.holds_enter) fun _ => h.calls.counts.holds_enter.mpr

theorem Prompt.grant (hcounts : Counts s q) (hqueue : Queue s) (hown : Own t s) : Prompt ctl (grantLock t xid m s) :=
  hp.frame hqueue hown rfl rfl rfl (fun _ _ ht => holds_put rfl rfl ((holder_thread s t xid).symm ▸ ht))
    fun _ => hcounts.holds_grant_mono

theorem Prompt.withdraw (m : LockMode) : Prompt ctl (s.withdraw m) := ⟨{ hp.lined with }, hp.shown, hp.blocked⟩

theorem Prompt.dropIdle (hcounts : Counts s q) (hqueue : Queue s)
    (hown : Own t s) (hidle : (s.holder t xid).nHolding = 0) : Prompt ctl (s.dropHolder t xid) := by
  refine hp.frame hqueue hown rfl rfl rfl (fun _ _ ht => holds_without rfl rfl ht) ?_
  rintro i ⟨x, hx, ht, hi⟩
  refine ⟨x, mem_without.mpr ⟨hx, fun htag => hi ?_⟩, ht, hi⟩
  have hfound := hcounts.holder_of_tag hx htag
  exact hfound ▸ holders_eq_zero (hcounts.holder_sums t xid) hidle i

end

/-- Settling the bit of a mode puts right a mask that was right on the others. -/
theorem Lined.settle (hl : Lined ctl s) (hcounts : Counts s (s.waitThreads.map Waiter.waitLockMode))
    (hshown : ∀ i ≠ m, Shown s i) (hblocked : ∀ w ∈ s.waitThreads, Blocked ctl s w) :
    Prompt ctl (s.settleWaitMask m) := by
  have hcount := hcounts.holders m
  unfold Lock.settleWaitMask
  split
  · next hsame =>
    have hnone : m ∉ s.waitThreads.map Waiter.waitLockMode := count_eq_zero.mp (by omega)
    refine ⟨{ hl with masked := fun w hw => ?_ }, fun i => ?_, hblocked⟩
    · change update s.waitMask m false w.waitLockMode
      have hne : w.waitLockMode ≠ m := fun heq => hnone (heq ▸ mem_map_of_mem hw)
      rw [update_of_ne hne]
      exact hl.masked w hw
    · intro hi
      change update s.waitMask m false i at hi
      obtain rfl | hne := eq_or_ne i m
      · rw [update_self] at hi
        nomatch hi
      · rw [update_of_ne hne] at hi
        exact hshown i hne hi
  · next hmore =>
    refine ⟨hl, fun i => ?_, hblocked⟩
    obtain rfl | hne := eq_or_ne i m
    · have hwaits : i ∈ s.waitThreads.map Waiter.waitLockMode := count_pos_iff.mp (by omega)
      obtain ⟨w, hw, hmode⟩ := mem_map.mp hwaits
      exact fun _ => .inl ⟨w, hw, hmode⟩
    · exact hshown i hne

/-- A thread sent to sleep is blocked by who blocks the queue, or was woken from it. -/
theorem Prompt.blocked_of_not_free (hp : Prompt ctl s) (hcounts : Counts s q) (hown : Own w.thread s)
    (hmode : ∀ v ∈ s.waitThreads, v.waitLockMode = w.waitLockMode)
    (hfree : lockIsFree ctl w.thread w.waitLockMode s = false) : Blocked ctl s w := by
  unfold lockIsFree at hfree
  split at hfree
  · next hforced =>
    obtain ⟨hmeets, hmine⟩ := Bool.and_eq_true_iff.mp hforced
    obtain ⟨i, hconflict, hi⟩ := meets_iff.mp hmeets
    obtain ⟨v, hv, rfl⟩ | ⟨t, xid, origMask, ht⟩ := hp.shown i hi
    · obtain ⟨t, i, _, hheld, hblocks⟩ := hp.blocked v hv
      have hvm := hmode v hv
      rw [hvm] at hblocks hi
      refine ⟨t, i, ?_, hheld, hblocks⟩
      rintro rfl
      refine absurd ?_ (ne_true_of_eq_false (Bool.not_eq_true' _ ▸ hmine))
      refine any_eq_true.mpr ⟨i, mem_lockModes i, Bool.and_eq_true_iff.mpr ⟨?_, ?_⟩⟩
      · exact decide_eq_true (pos_of_ne_zero (holds_iff.mp hheld))
      · exact meets_iff.mpr ⟨w.waitLockMode, ctl.mutual_ .. ▸ hblocks, hi⟩
    · exact ⟨t, i, fun heq => hown.awake xid i origMask false (heq ▸ ht),
        hp.lined.granted t xid i origMask ht, hconflict⟩
  · exact hcounts.blocked_iff.mpr hfree

theorem Prompt.waitOnLock (hp : Prompt ctl s)
    (h : Sound ctl s (w :: s.waitThreads) spare unfinished) (hown : Own w.thread s)
    (hhold : w.holdLock = fun i => decide (0 < lockCountMyLocks w.thread s i))
    (hmode : ∀ v ∈ s.waitThreads, v.waitLockMode = w.waitLockMode)
    (hready : ctl.conflictTab w.waitLockMode w.waitLockMode ∨ Modest ctl w)
    (hblocked : Blocked ctl s w) : Prompt ctl (waitOnLock ctl w.thread w.xid w.waitLockMode s) := by
  unfold Locks.waitOnLock
  dsimp only
  rw [← hhold]
  change Prompt ctl (match (threadEnqueue ctl w s).2 with | none => _ | some _ => _)
  split
  · next hnone =>
    rw [threadEnqueue_deadlock hp.lined h.queue hmode hnone]
    have hwithdrawn := hp.withdraw w.waitLockMode
    exact hwithdrawn.lined.settle h.withdraw.calls.counts (fun i _ => hwithdrawn.shown i) hwithdrawn.blocked
  · next queue hsome =>
    have hperm := threadEnqueue_perm hsome
    have hmask := threadEnqueue_mask h.queue hmode hsome
    have hmodes (v : Waiter) (hv : v ∈ queue) : v.waitLockMode = w.waitLockMode := by
      obtain rfl | hv := mem_cons.mp (hperm.mem_iff.mp hv)
      · rfl
      · exact hmode v hv
    -- the thread that goes to sleep was not woken, nor was a woken thread put to sleep
    have hwoken (t : ThreadId) (xid : TransactionId) (m : LockMode) (origMask : LockMask) :
        update s.thread w.thread (.asleep w.xid w.waitLockMode s.waitMask true) t =
          .asleep xid m origMask false ↔ s.thread t = .asleep xid m origMask false := by
      obtain rfl | hne := eq_or_ne t w.thread
      · rw [update_self, hown.running]
        exact ⟨fun heq => absurd (Pc.asleep.inj heq).2.2.2 (by decide), nofun⟩
      · rw [update_of_ne hne]
    refine ⟨⟨fun v hv v' hv' => (hmodes v hv).trans (hmodes v' hv').symm, fun v hv => ?_,
      fun t xid m origMask ht => ?_, fun v hv i => ?_,
      threadEnqueue_modest hp.lined h.queue hmode hready hsome, fun v hv => ?_⟩, fun i hi => ?_,
      fun v hv => ?_⟩
    · rw [hmodes v hv]
      exact (hmask w.waitLockMode).trans (if_pos rfl)
    · exact hp.lined.granted t xid m origMask ((hwoken t xid m origMask).mp ht)
    · obtain rfl | hv := mem_cons.mp (hperm.mem_iff.mp hv)
      · rw [hhold]
        exact decide_eq_true_iff.trans (pos_iff_ne_zero.trans holds_iff.symm)
      · exact hp.lined.hold v hv i
    · obtain rfl | hv := mem_cons.mp (hperm.mem_iff.mp hv)
      · exact hready
      · exact hp.lined.ready v hv
    · change (threadEnqueue ctl w s).1 i at hi
      rw [hmask i] at hi
      obtain rfl | hne := eq_or_ne i w.waitLockMode
      · exact .inl ⟨w, hperm.mem_iff.mpr (.head _), rfl⟩
      · rw [if_neg hne] at hi
        obtain ⟨v, hv, hvm⟩ | ⟨t, xid, origMask, ht⟩ := hp.shown i hi
        · exact .inl ⟨v, hperm.mem_iff.mpr (.tail _ hv), hvm⟩
        · exact .inr ⟨t, xid, origMask, (hwoken t xid i origMask).mpr ht⟩
    · obtain rfl | hv := mem_cons.mp (hperm.mem_iff.mp hv)
      · exact hblocked
      · exact hp.blocked v hv

/-- Whether a request is granted at once, or may join a queue for its own mode. -/
def inTurn (ctl : LockMethodCtl) (t : ThreadId) (m : LockMode) (s : Lock) : Bool :=
  lockIsFree ctl t m s || (s.waitThreads.all (fun w => decide (w.waitLockMode = m)) &&
      (ctl.conflictTab m m || !meets (ctl.conflictTab m) fun i => decide (0 < lockCountMyLocks t s i)))

theorem Counts.lockIsFree_enter (h : Counts s q) (xid : TransactionId) :
    lockIsFree ctl t m ((s.setHolder (s.holder t xid)).request m) = lockIsFree ctl t m s := by
  have hmine (i : LockMode) :
      decide (0 < lockCountMyLocks t ((s.setHolder (s.holder t xid)).request m) i) =
        decide (0 < lockCountMyLocks t s i) := by
    refine Bool.decide_congr ?_
    rw [pos_iff_ne_zero, pos_iff_ne_zero, ← holds_iff, ← holds_iff]
    exact h.holds_enter
  have hresolve : lockResolveConflicts ctl m t ((s.setHolder (s.holder t xid)).request m) =
      lockResolveConflicts ctl m t s := by
    have hentered : Counts ((s.setHolder (s.holder t xid)).request m) (m :: q) := (h.enterHolder t xid).request m
    rw [Bool.eq_iff_iff, hentered.resolve_iff, h.resolve_iff, ← not_iff_not, not_compatible_iff, not_compatible_iff]
    simp only [h.holds_enter]
  unfold lockIsFree
  rw [hresolve]
  simp only [hmine]
  rfl

theorem Prompt.lockAcquire (hp : Prompt ctl s) (h : Sound ctl s s.waitThreads 1 0) (hown : Own t s)
    (failfast : Bool) (xid : TransactionId) (m : LockMode) (hok : failfast ∨ inTurn ctl t m s) :
    Prompt ctl (lockAcquire ctl failfast t xid m s) := by
  let s₁ : Lock := (s.setHolder (s.holder t xid)).request m
  let me : Waiter := ⟨t, xid, m, fun i => decide (0 < lockCountMyLocks t s₁ i)⟩
  have hnot := h.queue.tag_ne hown.running xid
  have h₁ : Sound ctl s₁ (me :: s.waitThreads) 0 0 := .request (w := me) h hnot
  have hown₁ : Own t s₁ := ⟨hown.running, hown.request⟩
  have hp₁ : Prompt ctl s₁ := hp.enterHolder h hown
  have hgrant : Prompt ctl (grantLock t xid m s₁) := hp₁.grant h₁.calls.counts h₁.queue hown₁
  unfold Locks.lockAcquire
  dsimp only
  split
  · exact hgrant
  · split
    · exact hgrant
    · split
      · exact hgrant
      · next hbusy =>
        split
        · split
          · next hidle => exact (hp₁.dropIdle h₁.calls.counts h₁.queue hown₁ hidle).withdraw m
          · exact hp₁.withdraw m
        · next hwaits =>
          have hbusy : lockIsFree ctl t m s₁ = false := eq_false_of_ne_true hbusy
          have hturn := hok.resolve_left hwaits
          unfold inTurn at hturn
          rw [← h.calls.counts.lockIsFree_enter xid, hbusy, Bool.false_or] at hturn
          obtain ⟨hall, hown'⟩ := Bool.and_eq_true_iff.mp hturn
          have hmode (v : Waiter) (hv : v ∈ s.waitThreads) : v.waitLockMode = m :=
            of_decide_eq_true (all_eq_true.mp hall v hv)
          refine Prompt.waitOnLock (w := me) hp₁ h₁ hown₁ rfl hmode ?_
            (hp₁.blocked_of_not_free (w := me) h₁.calls.counts hown₁ hmode hbusy)
          refine (Bool.or_eq_true_iff.mp hown').imp_right fun hmodest => ?_
          refine eq_false_of_ne_true fun hmeets => ?_
          obtain ⟨i, hconflict, hi⟩ := meets_iff.mp hmeets
          have hheld : Holds s t i := h.calls.counts.holds_enter.mp
            (holds_iff.mpr (pos_iff_ne_zero.mp (of_decide_eq_true hi)))
          refine absurd (meets_iff.mpr ⟨i, hconflict, ?_⟩) (ne_true_of_eq_false (Bool.not_eq_true' _ ▸ hmodest))
          exact decide_eq_true (pos_iff_ne_zero.mpr (holds_iff.mp hheld))

/-! ## The end of a wait -/

theorem Prompt.cancelWait (hp : Prompt ctl s) (h : Invariant ctl s) (hasleep : s.thread t = .asleep xid m origMask true)
    (hmask : ∀ i, i ≠ m → origMask i = s.waitMask i)
    (hothers : (∃ v ∈ s.waitThreads, v.thread ≠ t) → origMask m) :
    Prompt ctl (abandonWait m { (threadDequeue t s).setThread t .running with
      waitMask := origMask }) := by
  obtain ⟨w, hw, rfl⟩ := h.sound.queue.waiting t xid m origMask hasleep
  obtain ⟨_, hqueued⟩ := h.sound.queue.queued w hw
  obtain ⟨_, rfl, _⟩ := Pc.asleep.inj (hasleep.symm.trans hqueued)
  have hcounts := (h.sound.calls.perm (h.sound.queue.keyed.perm hw)).counts
  let s' : Lock := { (threadDequeue w.thread s).setThread w.thread .running with
    waitMask := origMask }
  have hwithdrawn : Counts (s'.withdraw w.waitLockMode)
      ((s'.withdraw w.waitLockMode).waitThreads.map Waiter.waitLockMode) :=
    Counts.withdraw (s := s') { hcounts with }
  have hwoken {t : ThreadId} {xid : TransactionId} {m : LockMode} {origMask : LockMask} :
      update s.thread w.thread .running t = .asleep xid m origMask false ↔
        s.thread t = .asleep xid m origMask false := by
    obtain rfl | hne := eq_or_ne t w.thread
    · rw [update_self, hasleep]
      exact ⟨nofun, fun heq => absurd (Pc.asleep.inj heq).2.2.2 (by decide)⟩
    · rw [update_of_ne hne]
  refine Lined.settle ⟨fun v hv v' hv' => ?_, fun v hv => ?_, fun t xid m _ ht => ?_,
    fun v hv i => ?_, fun v hv => ?_, fun v hv => ?_⟩ hwithdrawn (fun i hi hbit => ?_)
    fun v hv => ?_
  · exact hp.lined.uniform v (mem_without.mp hv).1 v' (mem_without.mp hv').1
  · obtain ⟨hv, hne⟩ := mem_without.mp hv
    rw [hp.lined.uniform v hv w hw]
    exact hothers ⟨v, hv, hne⟩
  · exact hp.lined.granted t xid m _ (hwoken.mp ht)
  · exact hp.lined.hold v (mem_without.mp hv).1 i
  · exact hp.lined.modest v (mem_tail_without hv)
  · exact hp.lined.ready v (mem_without.mp hv).1
  · obtain ⟨v, hv, rfl⟩ | ⟨t, xid, _, ht⟩ := hp.shown i ((hmask i hi).symm.trans hbit)
    · exact absurd (hp.lined.uniform v hv w hw) hi
    · exact .inr ⟨t, xid, _, hwoken.mpr ht⟩
  · exact hp.blocked v (mem_without.mp hv).1

theorem Prompt.resume (hp : Prompt ctl s) (h : Invariant ctl s) (hasleep : s.thread t = .asleep xid m origMask false) :
    Prompt ctl ((s.setThread t .running).settleWaitMask m) := by
  refine Lined.settle { hp.lined with granted := fun t' xid' m' origMask' ht => ?_ }
    { h.sound.calls.counts with } (fun i hi hbit => ?_) hp.blocked
  · change update s.thread t .running t' = _ at ht
    obtain rfl | hne := eq_or_ne t' t
    · rw [update_self] at ht
      nomatch ht
    · rw [update_of_ne hne] at ht
      exact hp.lined.granted t' xid' m' origMask' ht
  · refine (hp.shown i hbit).imp_right fun ⟨t', xid', origMask', ht⟩ => ⟨t', xid', origMask', ?_⟩
    change update s.thread t .running t' = _
    rw [update_of_ne fun heq => hi ?_]
    · exact ht
    · rw [heq, hasleep] at ht
      exact (Pc.asleep.inj ht).2.1.symm

/-! ## Runs -/

/-- The mask of a new entry is empty, requests come in turn, and cancels come in time with a right
mask. -/
def promptly (ctl : LockMethodCtl) (tag : LockTag) (s : Lock) : Event → Bool
  | .search _ garbage => s.present || lockModes.all fun i => !garbage i
  | .enter (.acquire t _ m failfast) =>
    failfast || decide (tag.lockmethod = .user) || inTurn ctl t m s
  | .cancel t =>
    match s.thread t with
    | .asleep _ m origMask locked =>
      locked && lockModes.all (fun i => decide (i = m) || decide (origMask i = s.waitMask i)) &&
        (s.waitThreads.all (fun w => decide (w.thread = t)) || origMask m)
    | _ => false
  | _ => true

theorem cancelsInTime_of_promptly (h : promptly ctl tag s e) : cancelsInTime s e := by
  cases e with
  | cancel t =>
    change stillWaits s t
    unfold stillWaits
    cases hpc : s.thread t with
    | asleep xid m origMask locked =>
      simp only [promptly, hpc, Bool.and_eq_true] at h
      exact h.1.1
    | _ => simp [promptly, hpc] at h
  | search | enter | wakeup | resume => rfl

theorem Prompt.setThread (hp : Prompt ctl s) (hqueue : Queue s) (pc : Pc)
    (hawake : ∀ xid m origMask locked, s.thread t ≠ .asleep xid m origMask locked)
    (hpc : ∀ xid m origMask locked, pc ≠ .asleep xid m origMask locked)
    (hwait : s'.waitThreads = s.waitThreads) (hmask : s'.waitMask = s.waitMask)
    (hthread : s'.thread = update s.thread t pc)
    (htable : s'.holderTable = s.holderTable) : Prompt ctl s' := by
  have hasleep (t' : ThreadId) (xid : TransactionId) (m : LockMode) (origMask : LockMask)
      (locked : Bool) : s'.thread t' = .asleep xid m origMask locked ↔ s.thread t' = .asleep xid m origMask locked := by
    rw [hthread]
    obtain rfl | hne := eq_or_ne t' t
    · rw [update_self]
      exact ⟨fun heq => absurd heq (hpc _ _ _ _), fun heq => absurd heq (hawake _ _ _ _)⟩
    · rw [update_of_ne hne]
  have hholds (t' : ThreadId) (i : LockMode) : Holds s' t' i ↔ Holds s t' i := by
    unfold Holds
    rw [htable]
  exact ⟨hp.lined.frame hqueue hwait hmask hasleep hawake fun t' i _ => hholds t' i,
    fun i => (hp.shown i).frame hwait hmask hasleep,
    fun w hw => (hp.blocked w (hwait ▸ hw)).mono fun t' i _ => (hholds t' i).mpr⟩

theorem Prompt.createEntry (hp : Prompt ctl s)
    (hgarbage : ∀ i, garbage i = false) : Prompt ctl (createEntry garbage s) := by
  refine ⟨⟨nofun, nofun, fun t xid m origMask ht => ?_, nofun, nofun, nofun⟩, fun i hi => ?_, nofun⟩
  · exact hp.lined.granted t xid m origMask ht
  · exact absurd ((hgarbage i).symm.trans hi) (by decide)

section

variable (hp : Prompt ctl s) (h : Invariant ctl s)
include hp h

theorem Prompt.search (hrunning : s.thread r.thread = .running)
    (hok : s.present ∨ ∀ i, garbage i = false) (hs : searchLockTable r garbage s = some s') :
    Prompt ctl { s'.setThread r.thread .searching with protection := r :: s.protection } := by
  have hawake (xid : TransactionId) (m : LockMode) (origMask : LockMask) (locked : Bool) :
      s.thread r.thread ≠ .asleep xid m origMask locked := by
    rw [hrunning]
    nofun
  cases r with
  | acquire t xid m failfast =>
    cases hs
    cases hpresent : s.present with
    | true => exact hp.setThread h.sound.queue .searching hawake (fun _ _ _ _ => nofun) rfl rfl rfl rfl
    | false =>
      have hgarbage := hok.resolve_left (ne_true_of_eq_false hpresent)
      exact (hp.createEntry hgarbage).setThread
        (h.createEntry hpresent garbage).sound.queue .searching hawake (fun _ _ _ _ => nofun) rfl rfl
        rfl rfl
  | release t xid m =>
    obtain ⟨_, rfl⟩ := of_guard hs
    exact hp.setThread h.sound.queue .searching hawake (fun _ _ _ _ => nofun) rfl rfl rfl rfl
  | releaseAll t xid =>
    obtain ⟨_, rfl⟩ := of_guard hs
    exact hp.setThread h.sound.queue .searching hawake (fun _ _ _ _ => nofun) rfl rfl rfl rfl

theorem Prompt.admitted (hr : r ∈ s.protection) :
    Prompt ctl { s.setThread r.thread .running with protection := s.protection.erase r } := by
  refine hp.setThread (t := r.thread) h.sound.queue .running (fun _ _ _ _ => ?_) (fun _ _ _ _ => nofun) rfl rfl rfl rfl
  rw [h.sound.mutex.searching r hr]
  nofun

theorem Prompt.enter (hok : promptly ctl tag s (.enter r)) (hr : r ∈ s.protection) :
    Prompt ctl (serve ctl tag r { s.setThread r.thread .running with
      protection := s.protection.erase r }) := by
  obtain ⟨hsound, hown⟩ := h.admit hr
  have hadmitted := hp.admitted h hr
  cases r with
  | acquire t xid m failfast =>
    exact hadmitted.lockAcquire hsound hown _ xid m (Bool.or_eq_true_iff.mp hok)
  | release t xid m => exact hadmitted.lockRelease hsound hown xid m
  | releaseAll t xid =>
    exact hadmitted.lockReleaseAll hsound hown (h.sound.mutex.holder t xid hr)

theorem Prompt.step (hok : promptly ctl tag s e) (hstep : next ctl tag s e = some s') : Prompt ctl s' := by
  cases e with
  | search r garbage =>
    obtain ⟨hrunning, hstep⟩ := ite_none_right_eq_some.mp hstep
    obtain ⟨entry, hentry, rfl⟩ := map_eq_some_iff.mp hstep
    refine hp.search h (eq_running hrunning) ((Bool.or_eq_true_iff.mp hok).imp_right fun hall i => ?_) hentry
    exact Bool.not_eq_true' _ ▸ all_eq_true.mp hall i (mem_lockModes i)
  | enter r =>
    obtain ⟨hr, rfl⟩ := of_guard hstep
    exact hp.enter h hok hr
  | wakeup =>
    obtain ⟨_, rfl⟩ := of_guard hstep
    exact hp.lined.prompt_wakeup hp.shown h.sound
  | resume t =>
    change Locks.resume t s = some s' at hstep
    unfold Locks.resume at hstep
    split at hstep
    · next hasleep => exact some.inj hstep ▸ hp.resume h hasleep
    · nomatch hstep
  | cancel t =>
    change Locks.cancelWait t s = some s' at hstep
    unfold Locks.cancelWait at hstep
    unfold promptly at hok
    dsimp only at hok
    split at hstep
    · next xid m origMask locked hasleep =>
      rw [hasleep] at hok
      obtain ⟨hok, hothers⟩ := Bool.and_eq_true_iff.mp hok
      obtain ⟨hlocked, hmask⟩ := Bool.and_eq_true_iff.mp hok
      cases hlocked
      refine some.inj hstep ▸ hp.cancelWait h hasleep (fun i hi => ?_) ?_
      · have hsame := Bool.or_eq_true_iff.mp (all_eq_true.mp hmask i (mem_lockModes i))
        exact of_decide_eq_true (hsame.resolve_left fun heq => hi (of_decide_eq_true heq))
      · rintro ⟨v, hv, hne⟩
        refine (Bool.or_eq_true_iff.mp hothers).resolve_left fun hall => hne ?_
        exact of_decide_eq_true (all_eq_true.mp hall v hv)
    · nomatch hstep

end

/-! ## Refusals -/

/-- Another thread holds a mode that conflicts with the one asked for, or is queued for one. -/
def contested (ctl : LockMethodCtl) (t : ThreadId) (m : LockMode) (s : Lock) : Bool :=
  s.holderTable.any (fun h => decide (h.thread ≠ t) &&
      meets (ctl.conflictTab m) fun i => decide (h.holders i ≠ 0)) ||
    s.waitThreads.any fun w => decide (w.thread ≠ t) && ctl.conflictTab m w.waitLockMode

theorem contested_of_holds (hne : t' ≠ t) (hheld : Holds s t' i) (hconflict : ctl.conflictTab m i) :
    contested ctl t m s := by
  obtain ⟨x, hx, rfl, hi⟩ := hheld
  refine Bool.or_eq_true_iff.mpr (.inl (any_eq_true.mpr ⟨x, hx, ?_⟩))
  exact Bool.and_eq_true_iff.mpr ⟨decide_eq_true hne, meets_iff.mpr ⟨i, hconflict, decide_eq_true hi⟩⟩

theorem Prompt.contested (hp : Prompt ctl s) (h : Sound ctl s s.waitThreads spare unfinished)
    (hown : Own t s) (hbusy : lockIsFree ctl t m s = false) : contested ctl t m s := by
  unfold lockIsFree at hbusy
  split at hbusy
  · next hforced =>
    obtain ⟨i, hconflict, hi⟩ := meets_iff.mp (Bool.and_eq_true_iff.mp hforced).1
    obtain ⟨w, hw, rfl⟩ | ⟨t', xid, origMask, ht⟩ := hp.shown i hi
    · refine Bool.or_eq_true_iff.mpr (.inr (any_eq_true.mpr ⟨w, hw, ?_⟩))
      exact Bool.and_eq_true_iff.mpr ⟨decide_eq_true (h.queue.ne_of_mem hw hown.running), hconflict⟩
    · exact contested_of_holds (fun heq => hown.awake xid i origMask false (heq ▸ ht))
        (hp.lined.granted t' xid i origMask ht) hconflict
  · have hnot : ¬ Compatible ctl t m s := fun hc =>
      ne_true_of_eq_false hbusy (h.calls.counts.resolve_iff.mpr hc)
    obtain ⟨t', i, hne, hheld, hconflict⟩ := not_compatible_iff.mp hnot
    exact contested_of_holds hne hheld hconflict

theorem Counts.busy_of_refused (h : Counts s q) {failfast : Bool}
    (hrefused : lockCountMyLocks t (Locks.lockAcquire ctl failfast t xid m s) m = 0) :
    lockIsFree ctl t m s = false := by
  refine eq_false_of_ne_true fun hfree => holds_iff.mp ?_ hrefused
  rw [← h.lockIsFree_enter xid] at hfree
  unfold Locks.lockAcquire
  dsimp only
  rw [if_pos hfree, ite_self, ite_self]
  exact holds_grant

/-- A sleeping thread is in the queue and blocked, or granted and woken. -/
structure NoLostWakeup (ctl : LockMethodCtl) (s : Lock) : Prop where
  queued : ∀ t xid m origMask, s.thread t = .asleep xid m origMask true →
    ∃ w ∈ s.waitThreads, w.thread = t ∧ w.waitLockMode = m
  blocked : ∀ w ∈ s.waitThreads, Blocked ctl s w
  granted : ∀ t xid m origMask, s.thread t = .asleep xid m origMask false → Holds s t m

theorem Prompt.noLostWakeup (hp : Prompt ctl s) (h : Invariant ctl s) : NoLostWakeup ctl s := by
  refine ⟨fun t xid m origMask ht => ?_, hp.blocked, hp.lined.granted⟩
  obtain ⟨w, hw, rfl⟩ := h.sound.queue.waiting t xid m origMask ht
  obtain ⟨_, hqueued⟩ := h.sound.queue.queued w hw
  exact ⟨w, hw, rfl, (Pc.asleep.inj (ht.symm.trans hqueued)).2.1.symm⟩

section

variable (ctl : LockMethodCtl) {events : List (LockTag × Event)} {s : Table}
  (hrun : Run (Guarded (fun s e s' => Table.next ctl s e = some s')
    (fun s e => promptly ctl e.1 (s e.1) e.2)) Table.init events s)
include hrun

theorem prompt_of_run (tag : LockTag) : Invariant ctl (s tag) ∧ Prompt ctl (s tag) := by
  refine hrun.preserves (fun s => Invariant ctl (s tag) ∧ Prompt ctl (s tag)) ?_ ⟨invariant_init ctl, prompt_init ctl⟩
  rintro s e s' ⟨h, hp⟩ ⟨hok, hnext⟩
  obtain ⟨rfl, hlock⟩ | ⟨_, hsame⟩ := Table.next_cases hnext tag
  · exact ⟨h.step (cancelsInTime_of_promptly hok) hlock, hp.step h hok hlock⟩
  · exact hsame ▸ ⟨h, hp⟩

/-- **Wakeups.** A thread that sleeps is blocked, or was granted the lock and woken. -/
theorem no_lost_wakeup (tag : LockTag) : NoLostWakeup ctl (s tag) :=
  have hend := prompt_of_run ctl hrun tag
  hend.2.noLostWakeup hend.1

/-- A call that does not wait is refused only if the mode is contested. -/
theorem contested_of_refused {s' : Table}
    (hcall : Table.next ctl s (tag, .enter (.acquire t xid m true)) = some s')
    (hrefused : lockCountMyLocks t (s' tag) m = 0) : contested ctl t m (s tag) := by
  obtain ⟨h, hp⟩ := prompt_of_run ctl hrun tag
  obtain ⟨lock, hlock, rfl⟩ := map_eq_some_iff.mp hcall
  obtain ⟨hr, rfl⟩ := of_guard hlock
  rw [update_self] at hrefused
  obtain ⟨hsound, hown⟩ := h.admit hr
  exact (hp.admitted h hr).contested hsound hown (hsound.calls.counts.busy_of_refused hrefused)

end

/-! ## Sample runs -/

/-- Of two waiting readers the second one is cancelled, the first one woken. -/
def wokenReader : List (LockTag × Event) :=
  acquires 1 .accessExclusiveLock ++ acquires 2 .accessShareLock ++ acquires 3 .accessShareLock ++
    [(sampleTag, .cancel 3)] ++ releasesAll 3 ++ releases 1 .accessExclusiveLock

theorem no_lost_wakeup_woken :
    ∃ s, perform (fun s e => if promptly lockConflicts e.1 (s e.1) e.2 then
        Table.next lockConflicts s e else none) Table.init wokenReader = some s ∧
      holds 2 .accessShareLock s = 1 ∧ NoLostWakeup lockConflicts (s sampleTag) := by
  refine exists_of_map (holds 2 .accessShareLock) 1 (by decide) fun s hs hheld => ⟨hheld, ?_⟩
  exact no_lost_wakeup lockConflicts (.of_perform hs) sampleTag

/-- A thread that wants to lock rows goes past a waiting writer. -/
def writerPassed : List (LockTag × Event) :=
  acquires 1 .accessShareLock ++ acquires 2 .accessExclusiveLock ++ acquires 3 .rowShareLock

def asks (t : ThreadId) (m : LockMode) (garbage : LockMask) : LockTag × Event :=
  (sampleTag, .search (.acquire t t m true) garbage)

def calls (t : ThreadId) (m : LockMode) : LockTag × Event := (sampleTag, .enter (.acquire t t m true))

def queueAndUse (s : Table) : List ThreadId × Bool :=
  ((s sampleTag).waitThreads.map Waiter.thread,
    (s sampleTag).holderTable.any fun h => lockModes.any fun i => decide (h.holders i ≠ 0))

theorem lost_of_unused {s : Table} {ts : List ThreadId} (h : queueAndUse s = (t :: ts, false)) :
    ¬ NoLostWakeup ctl (s sampleTag) := by
  intro hnot
  obtain ⟨hqueue, hunused⟩ := Prod.mk.inj h
  obtain ⟨w, hw, _⟩ := mem_map.mp (hqueue ▸ mem_cons_self)
  obtain ⟨_, i, _, ⟨x, hx, _, hi⟩, _⟩ := hnot.blocked w hw
  refine absurd (any_eq_true.mpr ⟨x, hx, ?_⟩) (ne_true_of_eq_false hunused)
  exact any_eq_true.mpr ⟨i, mem_lockModes i, decide_eq_true hi⟩

/-- The reader ends and wakes nobody. If the writer is cancelled before, the other thread sleeps on
alone. -/
theorem wakeups_lost :
    (∃ s, perform (Table.next lockConflicts) Table.init (writerPassed ++ releasesAll 1) = some s ∧
      ¬ NoLostWakeup lockConflicts (s sampleTag)) ∧
    ∃ s, perform (Table.next lockConflicts) Table.init
        (writerPassed ++ [(sampleTag, .cancel 2)] ++ releasesAll 2 ++ releasesAll 1) = some s ∧
      ¬ NoLostWakeup lockConflicts (s sampleTag) := by
  constructor
  · exact exists_of_map queueAndUse ([2, 3], false) (by decide) fun _ _ => lost_of_unused
  · exact exists_of_map queueAndUse ([3], false) (by decide) fun _ _ => lost_of_unused

theorem contested_of_refused_reader :
    ∃ s s', perform (fun s e => if promptly lockConflicts e.1 (s e.1) e.2 then
        Table.next lockConflicts s e else none) Table.init
          (acquires 1 .accessExclusiveLock ++ [asks 2 .accessShareLock noModes]) = some s ∧
      Table.next lockConflicts s (calls 2 .accessShareLock) = some s' ∧
      holds 2 .accessShareLock s' = 0 ∧ contested lockConflicts 2 .accessShareLock (s sampleTag) := by
  have hsome : ((perform (fun s e => if promptly lockConflicts e.1 (s e.1) e.2 then
      Table.next lockConflicts s e else none) Table.init
        (acquires 1 .accessExclusiveLock ++ [asks 2 .accessShareLock noModes])).bind fun s =>
      (Table.next lockConflicts s (calls 2 .accessShareLock)).map (holds 2 .accessShareLock)) =
        some 0 := by decide
  obtain ⟨s, hs, hcall⟩ := bind_eq_some_iff.mp hsome
  obtain ⟨s', hs', hheld⟩ := map_eq_some_iff.mp hcall
  exact ⟨s, s', hs, hs', hheld, contested_of_refused lockConflicts (.of_perform hs) hs' hheld⟩

def callAfter (run : List (LockTag × Event)) (t : ThreadId) (m : LockMode) : Option (Nat × Bool) :=
  (perform (Table.next lockConflicts) Table.init run).bind fun s =>
    (Table.next lockConflicts s (calls t m)).map fun s' =>
      (holds t m s', contested lockConflicts t m (s sampleTag))

/-- A reader is refused by a mask of used memory, or one that a cancelled wait brought back. -/
theorem refused_uncontested : callAfter [asks 1 .accessShareLock fun _ => true, calls 1 .accessShareLock,
      asks 2 .accessShareLock noModes] 2 .accessShareLock = some (0, false) ∧
    callAfter (writerPassed ++ [(sampleTag, .cancel 2), (sampleTag, .cancel 3),
      asks 4 .accessShareLock noModes]) 4 .accessShareLock = some (0, false) := by
  decide

end WeaverDB.Locks
