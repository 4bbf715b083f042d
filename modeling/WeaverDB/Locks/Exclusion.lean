import WeaverDB.Foundations.Runs
import WeaverDB.Locks.Steps

/-! # Mutual exclusion

`LockAcquire` grants a mode in four ways, in each of which no other thread holds a conflicting one. A
wait that is cancelled after it was granted leaves a lock that does not know one of its holders.
-/

namespace WeaverDB.Locks
open Foundations List Option Bool Function

variable {r : Request} {s' : Lock} {me : Waiter} {queue : List Waiter} {origMask : LockMask}
  {ctl : LockMethodCtl} {s : Lock} {waiting : List Waiter} {spare : Int} {unfinished : Nat}
  {t : ThreadId} {xid : TransactionId} {m : LockMode} {w : Waiter} {q : List LockMode}

/-! ## When a mode is granted -/

theorem Counts.compatible_of_sole (h : Counts s q)
    (hsole : ((s.holder t xid).nHolding : Int) = s.nActive) : Compatible ctl t m s := by
  intro x hx ht i hi
  have hsplit := total_holder h.keyed t xid Holder.nHolding rfl
  have hactive := h.nActive
  have hother : x ∈ without Holder.tag (t, xid) s.holderTable :=
    mem_without.mpr ⟨hx, fun heq => ht (congrArg Prod.fst heq)⟩
  have hle := le_total Holder.nHolding hother
  have hheld : x.holders i ≤ x.nHolding := h.sums x hx ▸ le_total x.holders (mem_lockModes i)
  omega

theorem Counts.compatible_of_own (h : Counts s q) (hexclusion : Exclusion ctl s)
    (hm : (s.holder t xid).holders m ≠ 0) : Compatible ctl t m s := by
  have hheld : (s.holder t xid).holders m ≤ (s.holder t xid).nHolding :=
    h.holder_sums t xid ▸ le_total (s.holder t xid).holders (mem_lockModes m)
  have hmem : s.holder t xid ∈ s.holderTable := holder_mem (by omega)
  exact holder_thread s t xid ▸ hexclusion.compatible hmem hm

theorem compatible_of_mine (hexclusion : Exclusion ctl s) (hm : lockCountMyLocks t s m ≠ 0) : Compatible ctl t m s := by
  obtain ⟨x, hx, hxm⟩ := exists_of_total_ne_zero hm
  obtain ⟨hx, ht⟩ := mem_filter.mp hx
  exact of_decide_eq_true ht ▸ hexclusion.compatible hx hxm

theorem Counts.compatible_of_free (h : Counts s q) (hfree : lockIsFree ctl t m s) : Compatible ctl t m s := by
  unfold lockIsFree at hfree
  split at hfree
  · nomatch hfree
  · exact h.resolve_iff.mp hfree

/-! ## `LockAcquire` -/

theorem Sound.request (h : Sound ctl s waiting (spare+1) unfinished) (hnot : ∀ v ∈ waiting, v.tag ≠ w.tag) :
    Sound ctl ((s.setHolder (s.holder w.thread w.xid)).request w.waitLockMode) (w :: waiting) spare
      unfinished := by
  refine ⟨h.calls.request hnot, ?_, { h.queue with },
    ⟨h.mutex.keyed, h.mutex.searching, fun t xid hr => mem_put_tag (h.mutex.holder t xid hr)⟩⟩
  refine h.exclusion.mono fun x hx i hi => ?_
  obtain rfl | ⟨hx, _⟩ := mem_put.mp hx
  · have hle : (s.holder w.thread w.xid).holders i ≤ (s.holder w.thread w.xid).nHolding :=
      h.calls.counts.holder_sums w.thread w.xid ▸ le_total (s.holder w.thread w.xid).holders (mem_lockModes i)
    exact ⟨_, holder_mem (by omega), rfl, hi⟩
  · exact ⟨x, hx, rfl, hi⟩

theorem Sound.grant (h : Sound ctl s (w :: waiting) spare unfinished)
    (hcompatible : Compatible ctl w.thread w.waitLockMode s) :
    Sound ctl (grantLock w.thread w.xid w.waitLockMode s) waiting spare unfinished :=
  ⟨h.calls.grant, h.exclusion.grant hcompatible, { h.queue with },
    ⟨h.mutex.keyed, h.mutex.searching, fun t xid hr => mem_put_tag (h.mutex.holder t xid hr)⟩⟩

theorem Sound.withdraw (h : Sound ctl s (w :: waiting) spare unfinished) :
    Sound ctl (s.withdraw w.waitLockMode) waiting spare unfinished :=
  ⟨h.calls.withdraw, h.exclusion, { h.queue with }, { h.mutex with }⟩

theorem Sound.dropIdle (h : Sound ctl s waiting spare unfinished) (hown : Own t s)
    (hidle : (s.holder t xid).nHolding = 0) (hnot : ∀ v ∈ waiting, v.tag ≠ (t, xid)) :
    Sound ctl (s.dropHolder t xid) waiting spare unfinished :=
  ⟨h.calls.dropIdle hidle hnot, h.exclusion.without fun _ hx => (mem_without.mp hx).1, { h.queue with },
    ⟨h.mutex.keyed, h.mutex.searching, fun _ _ hr => h.mutex.other_holder hown hr xid⟩⟩

theorem enqueueLoop_perm {holders : LockMode → Int} {ws : List Waiter}
    {waitMask : LockMask} {aheadHolders : LockMode → Int} {prevSame : Bool}
    (h : (enqueueLoop ctl me holders ws waitMask aheadHolders prevSame).2 = some queue) :
    queue.Perm (me :: ws) := by
  induction ws generalizing queue waitMask aheadHolders prevSame with
  | nil =>
    cases h
    exact .refl _
  | cons w rest ih =>
    -- the new waiter stays before `w`, or goes past it
    have hpass {found : Option (List Waiter)} (hfound : found.map (w :: ·) = some queue)
        (hrest : ∀ queue, found = some queue → queue.Perm (me :: rest)) :
        queue.Perm (me :: w :: rest) := by
      obtain ⟨tail, htail, rfl⟩ := map_eq_some_iff.mp hfound
      exact ((hrest tail htail).cons w).trans (.swap me w rest)
    rw [enqueueLoop] at h
    split at h
    · split at h
      · nomatch h
      · exact hpass h fun _ => ih
    · split at h
      · cases h
        exact .refl _
      · split at h
        · split at h
          · cases h
            exact .refl _
          · exact hpass h fun _ => ih
        · split at h
          · cases h
            exact .refl _
          · exact hpass h fun _ => ih

theorem threadEnqueue_perm (h : (threadEnqueue ctl me s).2 = some queue) : queue.Perm (me :: s.waitThreads) := by
  unfold threadEnqueue at h
  dsimp only at h
  split at h
  · cases h
    exact .refl _
  · split at h
    · nomatch h
    · next found hfound =>
      cases h
      have hperm := (enqueueLoop_perm hfound).append_right (s.waitThreads.drop s.size.toNat)
      rwa [cons_append, take_append_drop] at hperm

theorem Sound.waitOnLock (h : Sound ctl s (w :: s.waitThreads) spare unfinished)
    (hown : Own w.thread s) {queued : LockMask × Option (List Waiter)}
    (hqueued : ∀ queue, queued.2 = some queue → queue.Perm (w :: s.waitThreads)) :
    let s' := match queued.2 with
      | none => abandonWait w.waitLockMode { s with waitMask := queued.1 }
      | some queue =>
        { s.setThread w.thread (.asleep w.xid w.waitLockMode s.waitMask true) with
          waitMask := queued.1
          waitThreads := queue
          size := s.size + 1 }
    Sound ctl s' s'.waitThreads spare unfinished := by
  dsimp only
  split
  · unfold abandonWait
    have hdone := ((h.setWaitMask queued.1).withdraw).settleWaitMask w.waitLockMode
    have hsame : ((Lock.withdraw { s with waitMask := queued.1 } w.waitLockMode).settleWaitMask
        w.waitLockMode).waitThreads = s.waitThreads := by
      unfold Lock.settleWaitMask
      split <;> rfl
    rwa [hsame]
  · next queue hsome =>
    have hperm := hqueued queue hsome
    have hcalls := h.calls.perm hperm.symm
    refine ⟨⟨{ hcalls.counts with }, hcalls.entry, hcalls.holder⟩, h.exclusion, ?_, ?_⟩
    · refine ⟨?_, ?_, ?_, ?_⟩
      · have hlength := hperm.length_eq
        have hsize := h.queue.size
        rw [length_cons] at hlength
        change s.size + 1 = (queue.length : Int)
        omega
      · refine ((hperm.map Waiter.thread).nodup_iff).mpr (nodup_cons.mpr ⟨?_, h.queue.keyed⟩)
        intro hmem
        obtain ⟨v, hv, hvt⟩ := mem_map.mp hmem
        exact h.queue.ne_of_mem hv hown.running hvt
      · intro v hv
        change ∃ _, update s.thread w.thread _ v.thread = _
        obtain rfl | hv := mem_cons.mp (hperm.mem_iff.mp hv)
        · rw [update_self]
          exact ⟨s.waitMask, rfl⟩
        · rw [update_of_ne (h.queue.ne_of_mem hv hown.running)]
          exact h.queue.queued v hv
      · intro t xid m origMask ht
        change update s.thread w.thread _ t = _ at ht
        obtain rfl | hne := eq_or_ne t w.thread
        · exact ⟨w, hperm.mem_iff.mpr (.head _), rfl⟩
        · rw [update_of_ne hne] at ht
          obtain ⟨v, hv, hvt⟩ := h.queue.waiting t xid m origMask ht
          exact ⟨v, hperm.mem_iff.mpr (.tail _ hv), hvt⟩
    · exact { h.mutex.setThread (t := w.thread) _ (by rw [hown.running]; nofun) with }

theorem Sound.lockAcquire (h : Sound ctl s s.waitThreads 1 0) (hown : Own t s) (failfast : Bool)
    (xid : TransactionId) (m : LockMode) :
    Sound ctl (lockAcquire ctl failfast t xid m s) (lockAcquire ctl failfast t xid m s).waitThreads 0 0 := by
  let s₁ : Lock := (s.setHolder (s.holder t xid)).request m
  let me : Waiter := ⟨t, xid, m, fun i => decide (0 < lockCountMyLocks t s₁ i)⟩
  have hnot := h.queue.tag_ne hown.running xid
  have h₁ : Sound ctl s₁ (me :: s.waitThreads) 0 0 := .request (w := me) h hnot
  have hown₁ : Own t s₁ := ⟨hown.running, hown.request⟩
  have hgrant (hcompatible : Compatible ctl t m s₁) :
      Sound ctl (grantLock t xid m s₁) s.waitThreads 0 0 := .grant (w := me) h₁ hcompatible
  unfold Locks.lockAcquire
  dsimp only
  split
  · next hsole =>
    obtain hsole | hheld := hsole
    · exact hgrant (h₁.calls.counts.compatible_of_sole hsole)
    · exact hgrant (h₁.calls.counts.compatible_of_own h₁.exclusion hheld)
  · split
    · next hmine => exact hgrant (compatible_of_mine h₁.exclusion hmine)
    · split
      · next hfree => exact hgrant (h₁.calls.counts.compatible_of_free hfree)
      · split
        · have hwithdrawn : Sound ctl (s₁.withdraw m) s.waitThreads 0 0 := .withdraw (w := me) h₁
          split
          · next hidle =>
            exact .dropIdle hwithdrawn ⟨hown₁.running, hown₁.request⟩ hidle hnot
          · exact hwithdrawn
        · exact .waitOnLock (w := me) h₁ hown₁ fun queue hqueue => threadEnqueue_perm hqueue

/-! ## The way to the mutex -/

theorem eq_running {pc : Pc} (h : pc.isRunning) : pc = .running := by
  cases pc with
  | running => rfl
  | searching | asleep => nomatch h

theorem Invariant.present_of_request (h : Invariant ctl s) (hr : r ∈ s.protection) : s.present := by
  cases hpresent : s.present with
  | true => rfl
  | false =>
    rw [(h.absent hpresent).2] at hr
    exact absurd hr not_mem_nil

theorem Invariant.present_of_holder (h : Invariant ctl s) {y : Holder} (hy : y ∈ s.holderTable) :
    s.present := by
  cases hpresent : s.present with
  | true => rfl
  | false =>
    rw [(h.absent hpresent).1] at hy
    exact absurd hy not_mem_nil

theorem entering_of_perm (hperm : s'.protection.Perm (r :: s.protection)) :
    entering s' = entering s + if r.isAcquire then 1 else 0 := by
  unfold entering
  rw [hperm.countP_eq, countP_cons]

theorem leaving_of_perm (hperm : s'.protection.Perm (r :: s.protection)) :
    leaving s' = leaving s + if r.isAcquire then 0 else 1 := by
  unfold leaving
  rw [hperm.countP_eq, countP_cons]
  cases r.isAcquire <;> rfl

theorem Invariant.searchEntry (h : Invariant ctl s) (hpresent : s.present)
    (hrunning : s.thread r.thread = .running) {refs removing : Int}
    (hrefs : refs = s.refs + if r.isAcquire then 1 else -1)
    (hremoving : removing = s.removing + if r.isAcquire then 0 else 1)
    (hholder : ∀ t xid, r = .releaseAll t xid → ∃ y ∈ s.holderTable, y.tag = (t, xid)) :
    Invariant ctl { s.setThread r.thread .searching with
      refs := refs
      removing := removing
      protection := r :: s.protection } := by
  let s' : Lock := { s with protection := r :: s.protection }
  have hnew : s.thread r.thread ≠ .searching := hrunning ▸ nofun
  have hentering : entering s' = _ := entering_of_perm (.refl _)
  have hleaving : leaving s' = _ := leaving_of_perm (.refl _)
  obtain ⟨failed, hfailed, hdemand⟩ := h.sound.calls.entry
  refine ⟨⟨⟨{ h.sound.calls.counts with }, ⟨failed, ?_, ?_⟩, h.sound.calls.holder⟩, h.sound.exclusion,
    { h.sound.queue.setThread (t := r.thread) .searching (hrunning ▸ nofun) nofun with },
    ?_, fun r' hr' => ?_, fun t xid hr' => ?_⟩, fun habsent =>
    absurd (hpresent.symm.trans habsent) (by decide)⟩
  · change removing = leaving s' + (0 : Nat) + failed
    split_ifs at hremoving hleaving <;> omega
  · change (entering s' : Int) + demand s.waitThreads s.holderTable + 0 ≤ refs + failed + leaving s'
    split_ifs at hrefs hentering hleaving <;> omega
  · refine nodup_cons.mpr ⟨fun hmem => ?_, h.sound.mutex.keyed⟩
    obtain ⟨r', hr', heq⟩ := mem_map.mp hmem
    exact hnew (heq ▸ h.sound.mutex.searching r' hr')
  · obtain rfl | hr' := mem_cons.mp hr'
    · exact update_self ..
    · exact (h.sound.mutex.setThread _ hnew).searching r' hr'
  · obtain heq | hr' := mem_cons.mp hr'
    · exact hholder t xid heq.symm
    · exact h.sound.mutex.holder t xid hr'

/-- A new entry takes over nothing: the tag had no holder, so no thread waited. -/
theorem Invariant.createEntry (h : Invariant ctl s) (habsent : s.present = false)
    (garbage : LockMask) : Invariant ctl (createEntry garbage s) := by
  obtain ⟨htable, hprotection⟩ := h.absent habsent
  have hnone : s.waitThreads = [] := by
    refine eq_nil_iff_forall_not_mem.mpr fun w hw => ?_
    obtain ⟨y, hy, _⟩ := h.sound.calls.holder w hw
    rw [htable] at hy
    exact absurd hy not_mem_nil
  refine ⟨⟨⟨⟨?_, ?_, fun i => ?_, ?_, fun _ => rfl, rfl, fun _ hi => absurd rfl hi⟩,
    ⟨0, ?_, ?_⟩, nofun⟩, h.sound.exclusion, ?_, { h.sound.mutex with }⟩, nofun⟩
  · exact h.sound.calls.counts.keyed
  · exact h.sound.calls.counts.sums
  · change (0 : Int) = ((total _ s.holderTable : Nat) : Int)
    rw [htable]
    rfl
  · change (0 : Int) = ((total _ s.holderTable : Nat) : Int)
    rw [htable]
    rfl
  · change (0 : Int) = (s.protection.countP _ : Nat) + (0 : Nat) + (0 : Nat)
    rw [hprotection]
    rfl
  · change ((s.protection.countP _ : Nat) : Int) + (demand [] s.holderTable : Nat) + 0 ≤
      0 + (0 : Nat) + (s.protection.countP _ : Nat)
    rw [hprotection, htable]
    exact le_refl _
  · refine ⟨rfl, nodup_nil, nofun, fun t xid m origMask ht => ?_⟩
    obtain ⟨w, hw, _⟩ := h.sound.queue.waiting t xid m origMask ht
    rw [hnone] at hw
    exact absurd hw not_mem_nil

theorem Invariant.admit (h : Invariant ctl s) (hr : r ∈ s.protection) :
    let s' : Lock := { s.setThread r.thread .running with protection := s.protection.erase r }
    Sound ctl s' s.waitThreads (if r.isAcquire then 1 else -1) (if r.isAcquire then 0 else 1) ∧ Own r.thread s' := by
  intro s'
  have hperm : s.protection.Perm (r :: s.protection.erase r) := perm_cons_erase hr
  have hkeyed : Keyed Request.thread (r :: s.protection.erase r) :=
    ((hperm.map Request.thread).nodup_iff).mp h.sound.mutex.keyed
  have hnot (r' : Request) (hr' : r' ∈ s.protection.erase r) : r'.thread ≠ r.thread := fun heq =>
    (nodup_cons.mp hkeyed).1 (heq ▸ mem_map_of_mem hr')
  have hsearching := h.sound.mutex.searching r hr
  obtain ⟨failed, hremoving, hrefs⟩ := h.sound.calls.entry
  have hentering : _ = entering s' + _ := entering_of_perm hperm
  have hleaving : _ = leaving s' + _ := leaving_of_perm hperm
  refine ⟨⟨⟨{ h.sound.calls.counts with }, ⟨failed, ?_, ?_⟩, h.sound.calls.holder⟩, h.sound.exclusion,
    { h.sound.queue.setThread (t := r.thread) .running (hsearching ▸ nofun) nofun with }, ?_⟩,
    ?_⟩
  · change s.removing = _
    split_ifs at hleaving ⊢ <;> omega
  · change (entering s' : Int) + demand s.waitThreads s.holderTable + _ ≤ s.refs + failed + leaving s'
    split_ifs at hentering hleaving ⊢ <;> omega
  · refine ⟨(nodup_cons.mp hkeyed).2, fun r' hr' => ?_, fun t xid hr' => ?_⟩
    · change update s.thread r.thread _ r'.thread = _
      rw [update_of_ne (hnot r' hr')]
      exact h.sound.mutex.searching r' (mem_of_mem_erase hr')
    · exact h.sound.mutex.holder t xid (mem_of_mem_erase hr')
  · exact ⟨update_self .., hnot⟩

theorem lockAcquire_present (failfast : Bool) : (lockAcquire ctl failfast t xid m s).present = s.present := by
  unfold lockAcquire waitOnLock abandonWait Lock.settleWaitMask
  dsimp only
  repeat' split
  all_goals rfl

section

variable (h : Invariant ctl s)
include h

theorem Invariant.enter (tag : LockTag) (hr : r ∈ s.protection) :
    Invariant ctl (serve ctl tag r { s.setThread r.thread .running with
      protection := s.protection.erase r }) := by
  obtain ⟨hsound, hown⟩ := h.admit hr
  have hpresent := h.present_of_request hr
  cases r with
  | acquire t xid m failfast =>
    refine ⟨Sound.lockAcquire hsound hown _ xid m, fun habsent => ?_⟩
    change (lockAcquire ctl _ t xid m _).present = false at habsent
    rw [lockAcquire_present] at habsent
    exact absurd (hpresent.symm.trans habsent) (by decide)
  | release t xid m => exact Sound.lockRelease hsound hown hpresent xid m
  | releaseAll t xid =>
    exact Sound.lockReleaseAll hsound hown hpresent (h.sound.mutex.holder t xid hr)

theorem Invariant.search {garbage : LockMask}
    (hrunning : s.thread r.thread = .running) (hs : searchLockTable r garbage s = some s') :
    Invariant ctl { s'.setThread r.thread .searching with protection := r :: s.protection } := by
  cases r with
  | acquire t xid m failfast =>
    cases hs
    cases hpresent : s.present with
    | true => exact h.searchEntry hpresent hrunning rfl (add_zero _).symm nofun
    | false => exact (h.createEntry hpresent garbage).searchEntry rfl hrunning rfl rfl nofun
  | release t xid m =>
    obtain ⟨hpresent, rfl⟩ := of_guard hs
    exact h.searchEntry hpresent hrunning rfl rfl nofun
  | releaseAll t xid =>
    obtain ⟨hsome, rfl⟩ := of_guard hs
    obtain ⟨y, hy⟩ := isSome_iff_exists.mp hsome
    refine h.searchEntry (h.present_of_holder (lookup_mem hy)) hrunning rfl rfl fun t' xid' heq => ?_
    cases heq
    exact ⟨y, lookup_mem hy, lookup_key hy⟩

/-! ## The end of a wait -/

theorem Invariant.settleWaitMask (m : LockMode) : Invariant ctl (s.settleWaitMask m) := by
  unfold Lock.settleWaitMask
  split
  · exact ⟨h.sound.setWaitMask _, h.absent⟩
  · exact h

theorem Invariant.cancelWait (hasleep : s.thread t = .asleep xid m origMask true) :
    Invariant ctl (abandonWait m { (threadDequeue t s).setThread t .running with
      waitMask := origMask }) := by
  obtain ⟨w, hw, rfl⟩ := h.sound.queue.waiting t xid m origMask hasleep
  obtain ⟨_, hqueued⟩ := h.sound.queue.queued w hw
  obtain ⟨_, rfl, _⟩ := Pc.asleep.inj (hasleep.symm.trans hqueued)
  have hcalls := h.sound.calls.perm (h.sound.queue.keyed.perm hw)
  have hsound : Sound ctl { (threadDequeue w.thread s).setThread w.thread .running with
      waitMask := origMask } (w :: without Waiter.thread w.thread s.waitThreads) 0 0 := by
    refine ⟨⟨{ hcalls.counts with }, hcalls.entry, hcalls.holder⟩, h.sound.exclusion,
      { h.sound.queue.dequeue hw .running nofun with },
      { h.sound.mutex.setThread (t := w.thread) .running (hasleep ▸ nofun) with }⟩
  exact Invariant.settleWaitMask ⟨hsound.withdraw, h.absent⟩ _

theorem Invariant.resume (hasleep : s.thread t = .asleep xid m origMask false) :
    Invariant ctl ((s.setThread t .running).settleWaitMask m) := by
  have hawake : Invariant ctl (s.setThread t .running) := by
    refine ⟨⟨⟨{ h.sound.calls.counts with }, h.sound.calls.entry, h.sound.calls.holder⟩,
      h.sound.exclusion, h.sound.queue.setThread _ (fun _ _ _ heq => ?_) nofun,
      h.sound.mutex.setThread _ (hasleep ▸ nofun)⟩, h.absent⟩
    exact absurd (Pc.asleep.inj (hasleep.symm.trans heq)).2.2.2 (by decide)
  exact hawake.settleWaitMask m

end

/-! ## Runs -/

def stillWaits (s : Lock) (t : ThreadId) : Bool :=
  match s.thread t with
  | .asleep _ _ _ locked => locked
  | _ => false

def cancelsInTime (s : Lock) : Event → Bool
  | .cancel t => stillWaits s t
  | _ => true

theorem Invariant.step (h : Invariant ctl s) {tag : LockTag} {e : Event}
    (hok : cancelsInTime s e) (hstep : next ctl tag s e = some s') : Invariant ctl s' := by
  cases e with
  | search r garbage =>
    obtain ⟨hrunning, hstep⟩ := ite_none_right_eq_some.mp hstep
    obtain ⟨entry, hentry, rfl⟩ := map_eq_some_iff.mp hstep
    exact h.search (eq_running hrunning) hentry
  | enter r =>
    obtain ⟨hr, rfl⟩ := of_guard hstep
    exact h.enter tag hr
  | wakeup =>
    obtain ⟨hpresent, rfl⟩ := of_guard hstep
    obtain ⟨hwoken, hsame⟩ := h.sound.threadLockWakeup
    exact ⟨hwoken, fun habsent =>
      absurd (hpresent.symm.trans (hsame.symm.trans habsent)) (by decide)⟩
  | resume t =>
    change Locks.resume t s = some s' at hstep
    unfold Locks.resume at hstep
    split at hstep
    · next hasleep => exact some.inj hstep ▸ h.resume hasleep
    · nomatch hstep
  | cancel t =>
    change Locks.cancelWait t s = some s' at hstep
    unfold Locks.cancelWait at hstep
    change stillWaits s t at hok
    unfold stillWaits at hok
    split at hstep
    · next hasleep =>
      rw [hasleep] at hok
      cases hok
      exact some.inj hstep ▸ h.cancelWait hasleep
    · nomatch hstep

theorem Table.next_cases {s s' : Table} {e : LockTag × Event} (hnext : Table.next ctl s e = some s')
    (tag : LockTag) : e.1 = tag ∧ Locks.next ctl tag (s tag) e.2 = some (s' tag) ∨ e.1 ≠ tag ∧ s' tag = s tag := by
  obtain ⟨lock, hlock, rfl⟩ := map_eq_some_iff.mp hnext
  obtain rfl | hne := eq_or_ne e.1 tag
  · exact .inl ⟨rfl, update_self (f := s) .. ▸ hlock⟩
  · exact .inr ⟨hne, update_of_ne hne.symm ..⟩

theorem run_invariant (ctl : LockMethodCtl) {events : List (LockTag × Event)} {s : Table}
    (r : Run (Guarded (fun s e s' => Table.next ctl s e = some s')
      (fun s e => cancelsInTime (s e.1) e.2)) Table.init events s) (tag : LockTag) : Invariant ctl (s tag) := by
  refine r.preserves (fun s => Invariant ctl (s tag)) ?_ (invariant_init ctl)
  rintro s e s' h ⟨hok, hnext⟩
  obtain ⟨rfl, hlock⟩ | ⟨_, hsame⟩ := Table.next_cases hnext tag
  · exact h.step hok hlock
  · exact hsame ▸ h

/-- **Mutual exclusion.** No two threads hold conflicting modes of a lock. -/
theorem no_conflicting_holders (ctl : LockMethodCtl) {events : List (LockTag × Event)} {s : Table}
    (r : Run (Guarded (fun s e s' => Table.next ctl s e = some s')
      (fun s e => cancelsInTime (s e.1) e.2)) Table.init events s) (tag : LockTag) :
    Exclusion ctl (s tag) :=
  (run_invariant ctl r tag).sound.exclusion

/-! ## What the counts say -/

structure Tallied (s : Lock) : Prop where
  nActive : s.nActive = lockModes.foldr (fun m n => s.activeHolders m + n) 0
  activeHolders : ∀ m, s.activeHolders m = total (fun h => h.holders m) s.holderTable
  mask : ∀ m, 0 < s.activeHolders m → s.mask m
  waiting : s.nHolding - s.nActive = s.waitThreads.length
  nHolding : ∀ h ∈ s.holderTable, h.nHolding = total h.holders lockModes

theorem total_nHolding (table : List Holder) (hsums : ∀ h ∈ table, h.nHolding = total h.holders lockModes) :
    total Holder.nHolding table = total (fun m => total (fun h => h.holders m) table) lockModes := by
  induction table with
  | nil => rfl
  | cons h table ih =>
    obtain ⟨hsum, hrest⟩ := forall_mem_cons.mp hsums
    rw [total_cons, hsum, ih hrest]
    simp only [total, lockModes, map_cons, map_nil, sum_cons, sum_nil]
    omega

/-- **Counts.** The counts of a lock are the sums over its holders and waiters. -/
theorem counts_tallied (ctl : LockMethodCtl) {events : List (LockTag × Event)} {s : Table}
    (r : Run (Guarded (fun s e s' => Table.next ctl s e = some s')
      (fun s e => cancelsInTime (s e.1) e.2)) Table.init events s) (tag : LockTag) : Tallied (s tag) := by
  have h := (run_invariant ctl r tag).sound.calls.counts
  refine ⟨?_, h.active, fun m hm => h.mask m hm.ne', ?_, h.sums⟩
  · rw [h.nActive, total_nHolding _ h.sums]
    simp only [h.active, total, lockModes, foldr_cons, foldr_nil, map_cons, map_nil, sum_cons, sum_nil]
    omega
  · rw [h.nHolding, length_map]
    omega

/-! ## Sample runs -/

def sampleTag : LockTag := ⟨1, 1, 0, 0, .heap⟩

def acquires (t : ThreadId) (m : LockMode) : List (LockTag × Event) :=
  [(sampleTag, .search (.acquire t t m false) noModes), (sampleTag, .enter (.acquire t t m false))]

def releases (t : ThreadId) (m : LockMode) : List (LockTag × Event) :=
  [(sampleTag, .search (.release t t m) noModes), (sampleTag, .enter (.release t t m))]

def releasesAll (t : ThreadId) : List (LockTag × Event) :=
  [(sampleTag, .search (.releaseAll t t) noModes), (sampleTag, .enter (.releaseAll t t))]

def holds (t : ThreadId) (m : LockMode) (s : Table) : Nat := lockCountMyLocks t (s sampleTag) m

/-- One of two waiting readers is cancelled in time, the other one is woken. -/
def cancelledReader : List (LockTag × Event) :=
  acquires 1 .accessExclusiveLock ++ acquires 2 .accessShareLock ++ acquires 3 .accessShareLock ++
    [(sampleTag, .cancel 2)] ++ releasesAll 2 ++ releases 1 .accessExclusiveLock ++
    [(sampleTag, .resume 3)]

theorem no_conflicting_holders_cancelled :
    ∃ s, perform (fun s e => if cancelsInTime (s e.1) e.2 then Table.next lockConflicts s e
        else none) Table.init cancelledReader = some s ∧
      holds 3 .accessShareLock s = 1 ∧ Exclusion lockConflicts (s sampleTag) := by
  refine exists_of_map (holds 3 .accessShareLock) 1 (by decide) fun s hs hheld => ⟨hheld, ?_⟩
  exact no_conflicting_holders lockConflicts (.of_perform hs) sampleTag

theorem counts_tallied_cancelled :
    ∃ s, perform (fun s e => if cancelsInTime (s e.1) e.2 then Table.next lockConflicts s e
        else none) Table.init cancelledReader = some s ∧
      holds 3 .accessShareLock s = 1 ∧ Tallied (s sampleTag) := by
  refine exists_of_map (holds 3 .accessShareLock) 1 (by decide) fun s hs hheld => ⟨hheld, ?_⟩
  exact counts_tallied lockConflicts (.of_perform hs) sampleTag

/-- A woken reader that is cancelled leaves `nHolding`, but not `nActive`. -/
theorem cancelled_counted_active : ∃ s, perform (Table.next lockConflicts) Table.init
      (acquires 1 .accessExclusiveLock ++ acquires 2 .accessShareLock ++ releases 1 .accessExclusiveLock ++
        [(sampleTag, .cancel 2)]) = some s ∧ ¬ Tallied (s sampleTag) := by
  refine exists_of_map (fun s => (s sampleTag).nHolding - (s sampleTag).nActive) (-1) (by decide)
    fun s _ heq htallied => ?_
  have hwaiting := htallied.waiting
  omega

/-- The lock counts no holder after the cancel, and a writer gets it beside the other reader. -/
def cancelledAfterGrant : List (LockTag × Event) :=
  acquires 1 .accessExclusiveLock ++ acquires 3 .accessShareLock ++ acquires 2 .accessShareLock ++
    releases 1 .accessExclusiveLock ++ [(sampleTag, .resume 3), (sampleTag, .cancel 2)] ++
    releasesAll 2 ++ acquires 4 .accessExclusiveLock

theorem conflicting_holders_after_cancel :
    ∃ s, perform (Table.next lockConflicts) Table.init cancelledAfterGrant = some s ∧
      ¬ Exclusion lockConflicts (s sampleTag) := by
  refine exists_of_map (fun s => (holds 3 .accessShareLock s, holds 4 .accessExclusiveLock s)) (1, 1)
    (by decide) fun s _ heq hexclusion => ?_
  obtain ⟨hreader, hwriter⟩ := Prod.mk.inj heq
  obtain ⟨x, hx, hxm⟩ := exists_of_total_ne_zero (ne_of_eq_of_ne hreader one_ne_zero)
  obtain ⟨y, hy, hym⟩ := exists_of_total_ne_zero (ne_of_eq_of_ne hwriter one_ne_zero)
  obtain ⟨hx, hxt⟩ := mem_filter.mp hx
  obtain ⟨hy, hyt⟩ := mem_filter.mp hy
  have hne : x.thread ≠ y.thread := by
    rw [of_decide_eq_true hxt, of_decide_eq_true hyt]
    decide
  exact absurd (hexclusion x hx y hy hne _ _ hxm hym) (by decide)

end WeaverDB.Locks
