import WeaverDB.Foundations.Reservations
import WeaverDB.Varsup.Generators

/-! # Transaction ids are handed out once

The block is ahead of every id that was handed out or is left in memory, across threads and restarts.
But in bootstrap mode every call returns the same id, and a batch that would take the 64-bit counter
past the last id starts again.
-/

namespace WeaverDB.Varsup
open Foundations Option BitVec List Function
open TransLog (amiTransactionId firstTransactionId varXidPrefetch)

variable {s s' : Server} {l : Ledger} {t : ThreadId}

/-! ## The invariant -/

def Pc.xid : Pc → Option (Option Nat)
  | .fetchingXid => some none
  | .fetchedXid nextid => some (some nextid.toNat)
  | _ => none

def xidDesk (s : Server) : Desk ThreadId where
  prefetch := s.xidPrefetch
  count := s.xidCount
  next := s.nextXid.toNat
  clerk := fun t => (s.thread t).xid

/-- The transaction ids are those of a ledger; none is handed out before the database is initialized.
-/
structure XidBooks (s : Server) (l : Ledger) : Prop where
  desk : (xidDesk s).Sound l
  durable : s.disk.nextXidData.toNat = l.durable
  issued : (s.xids ++ s.earlierXids).map BitVec.toNat = l.issued
  virgin : s.amiCommitted = false ∨ s.phase = .putting → l.issued = [] ∧ s.xidCount = 0
  settled : s.phase = .running → s.amiCommitted = true

theorem xidBooks_init (disk : VariableRelationContents) :
    XidBooks (.init disk) ⟨disk.nextXidData.toNat, disk.nextXidData.toNat+1, disk.nextXidData.toNat + 1, []⟩ where
  desk := Desk.sound_idle (Ledger.sound_start _) (Int.natCast_pos.mpr (by decide)) _
  durable := rfl
  issued := rfl
  virgin := fun _ => ⟨rfl, rfl⟩
  settled := nofun

theorem xidDesk_setThread (s : Server) (t : ThreadId) (pc : Pc) : xidDesk (s.setThread t pc) =
      { xidDesk s with clerk := update (xidDesk s).clerk t pc.xid } := by
  have hclerk : (fun t' => ((s.setThread t pc).thread t').xid) = update (xidDesk s).clerk t pc.xid := by
    funext t'
    change (update s.thread t pc t').xid = _
    rw [update_apply, update_apply]
    split <;> rfl
  exact congrArg (Desk.mk s.xidPrefetch s.xidCount s.nextXid.toNat) hclerk

/-! ## Handing out -/

theorem toNat_add_one {x : BitVec 64} (h : x.toNat + 1 < 2^64) : (x+1).toNat = x.toNat+1 := by
  exact Nat.mod_eq_of_lt h

theorem XidBooks.handOut (h : XidBooks s l) (hcount : 0 < s.xidCount) : XidBooks (handOutXid s) l.issue := by
  obtain ⟨hnext, hlimit⟩ := h.desk.cached hcount
  have hdurable := h.durable
  have hbound := s.disk.nextXidData.isLt
  have hle := h.desk.ledger.limit_le
  refine ⟨h.desk.handOut hcount fun hmore => ?_, hdurable, ?_, fun hvirgin => ?_, h.settled⟩
  · change 1 < s.xidCount at hmore
    change s.nextXid.toNat = l.next at hnext
    change l.next + s.xidCount = l.limit at hlimit
    exact toNat_add_one (by omega)
  · change s.nextXid.toNat :: (s.xids ++ s.earlierXids).map BitVec.toNat = l.next :: l.issued
    rw [h.issued]
    exact congrArg (· :: l.issued) hnext
  · have hzero := (h.virgin hvirgin).2
    omega

theorem XidBooks.loop (h : XidBooks (s.setThread t .idle) l)
    (hcall : s.phase ≠ .running → s.amiCommitted ∧ s.phase ≠ .putting) :
    ∃ l', XidBooks (xidLoop t s) l' := by
  unfold xidLoop
  split
  · next hcount => exact ⟨_, h.handOut hcount⟩
  · split
    · next hcount =>
      have hdesk := h.desk.begin_ hcount t
      rw [xidDesk_setThread] at hdesk
      have hsame : xidDesk { s.setThread t .fetchingXid with xidCount := -1 } =
          { xidDesk (s.setThread t .fetchingXid) with count := -1 } := rfl
      refine ⟨l, ?_, h.durable, h.issued, fun hvirgin => ?_, h.settled⟩
      · rw [hsame, xidDesk_setThread]
        rw [update_idem] at hdesk
        exact hdesk
      · obtain hrunning | hr := eq_or_ne s.phase .running
        · obtain hfalse | hputting := hvirgin
          · exact absurd ((h.settled hrunning).symm.trans hfalse) (by decide)
          · exact absurd (hrunning.symm.trans hputting) (by decide)
        · obtain hfalse | hputting := hvirgin
          · exact absurd ((hcall hr).1.symm.trans hfalse) (by decide)
          · exact absurd hputting (hcall hr).2
    · exact ⟨l, h⟩

/-! ## Steps -/

section

variable (h : XidBooks s l)
include h

theorem XidBooks.setThread {pc : Pc} (hpc : pc.xid = none)
    (ht : (s.thread t).xid = none) : XidBooks (s.setThread t pc) l := by
  refine { h with desk := ?_ }
  rw [xidDesk_setThread, hpc, ← ht]
  have hsame : update (xidDesk s).clerk t (s.thread t).xid = (xidDesk s).clerk := update_eq_self t (xidDesk s).clerk
  rw [hsame]
  exact h.desk

theorem XidBooks.restart (bootstrap : Bool) : XidBooks (restart bootstrap s) l where
  desk := Desk.sound_idle h.desk.ledger (Int.natCast_pos.mpr (by decide)) _
  durable := h.durable
  issued := h.issued
  virgin := by
    intro hvirgin
    refine ⟨(h.virgin (hvirgin.imp_right fun hputting => ?_)).1, rfl⟩
    cases bootstrap <;> nomatch hputting
  settled := by
    intro hrunning
    cases bootstrap <;> nomatch hrunning

theorem XidBooks.commitAmi (hstep : commitAmi s = some s') : XidBooks s' l := by
  obtain ⟨⟨_, hami⟩, rfl⟩ := of_guard hstep
  refine { h with
    virgin := fun _ => h.virgin (.inl hami)
    settled := nofun }

theorem XidBooks.putNextXid (hstep : putNextXid s = some s') : ∃ l', XidBooks s' l' := by
  obtain ⟨hphase, rfl⟩ := of_guard hstep
  obtain ⟨hissued, hcount⟩ := h.virgin (.inr hphase)
  have hfree := h.desk.free (le_of_eq hcount.symm)
  refine ⟨⟨firstTransactionId.toNat, _, _, []⟩, ⟨Ledger.sound_start _, h.desk.prefetch, h.desk.alone,
    h.desk.free, fun hpos => absurd hpos ?_,
    fun t n ht => absurd ((hfree t).symm.trans ht) nofun⟩, rfl, h.issued.trans hissued,
    fun _ => ⟨rfl, hcount⟩, nofun⟩
  change ¬ 0 < s.xidCount
  omega

end

theorem prefetchSize_pos {property : Option (BitVec 32)} {unset least : Int} (h : 0 < least) :
    0 < prefetchSize property unset least := by
  cases property <;> dsimp only [prefetchSize] <;> split <;> omega

section

variable (h : XidBooks s l)
include h

theorem XidBooks.initTransactionLowWaterMark (hearly : Early s) {multiuser : Bool}
    {transactionPrefetch objectidPrefetch : Option (BitVec 32)}
    (hstep : initTransactionLowWaterMark multiuser transactionPrefetch objectidPrefetch s = some s') :
    XidBooks s' l := by
  obtain ⟨⟨hphase, hami, hmain⟩, rfl⟩ := of_guard hstep
  have hidle := hearly (hphase ▸ nofun) (hphase ▸ nofun)
  have hnone (t : ThreadId) : (s.thread t).xid = none := by
    obtain rfl | hne := eq_or_ne t mainThread
    · rw [hmain]
      rfl
    · rw [hidle t hne]
      rfl
  have hrunning : XidBooks { s with phase := .running } l :=
    { h with
      virgin := fun hvirgin => by
        obtain hfalse | hputting := hvirgin
        · exact absurd (hami.symm.trans hfalse) (by decide)
        · nomatch hputting
      settled := fun _ => hami }
  refine ?_
  cases multiuser with
  | false => exact hrunning
  | true => exact { hrunning with desk := hrunning.desk.resize hnone (prefetchSize_pos (by decide)) }

theorem XidBooks.getNewTransactionId (hok : s.phase ≠ .bootstrapping)
    (hstep : getNewTransactionId t s = some s') : ∃ l', XidBooks s' l' := by
  obtain ⟨⟨hmay, hidle⟩, hs⟩ := ite_none_right_eq_some.mp hstep
  rw [if_neg hok] at hs
  refine some.inj hs ▸ XidBooks.loop (h.setThread rfl (hidle ▸ rfl)) fun hr => ?_
  obtain ⟨_, hphase, hami⟩ := mayCall_early hmay hr hok
  exact ⟨hami, hphase ▸ nofun⟩

theorem XidBooks.not_virgin (hbusy : (s.thread t).xid ≠ none) :
    ¬ (s.amiCommitted = false ∨ s.phase = .putting) := fun hvirgin =>
  hbusy (h.desk.free (le_of_eq (h.virgin hvirgin).2.symm) t)

theorem XidBooks.readXid (hroom : s.disk.nextXidData.toNat + s.xidPrefetch < 2^64)
    (hstep : readXid t s = some s') : ∃ l', XidBooks s' l' := by
  obtain ⟨hfetching, rfl⟩ := of_guard hstep
  have hdurable := h.durable
  have hprefetch : 0 < s.xidPrefetch := h.desk.prefetch
  have hclerk : (xidDesk s).clerk t = some none := congrArg Pc.xid hfetching
  have hbusy : (s.thread t).xid ≠ none := by
    rw [hfetching]
    nofun
  have hsize : (BitVec.ofInt 64 s.xidPrefetch).toNat = s.xidPrefetch.toNat := by
    rw [toNat_ofInt]
    omega
  have hfirst : (Pc.fetchedXid (s.disk.nextXidData+1)).xid = some (some (l.durable+1)) := by
    change some (some (s.disk.nextXidData+1).toNat) = _
    rw [toNat_add_one (by omega), hdurable]
  refine ⟨l.reserve s.xidPrefetch.toNat, ?_, ?_, h.issued,
    fun hvirgin => absurd hvirgin (h.not_virgin hbusy), h.settled⟩
  · change (xidDesk (s.setThread t (.fetchedXid (s.disk.nextXidData+1)))).Sound _
    rw [xidDesk_setThread, hfirst]
    exact h.desk.fetch hclerk
  · change (s.disk.nextXidData + .ofInt 64 s.xidPrefetch).toNat = l.durable+s.xidPrefetch.toNat
    rw [toNat_add]
    omega

theorem XidBooks.failXid (hstep : failXid t s = some s') : XidBooks s' l := by
  obtain ⟨hfetching, rfl⟩ := of_guard hstep
  refine { h with desk := ?_ }
  rw [xidDesk_setThread]
  exact h.desk.quit t

theorem XidBooks.refillXid (hstep : refillXid t s = some s') : ∃ l', XidBooks s' l' := by
  unfold Varsup.refillXid at hstep
  split at hstep
  · next nextid hfetched =>
    cases hstep
    have hclerk : (xidDesk s).clerk t = some (some nextid.toNat) := congrArg Pc.xid hfetched
    have hbusy : (s.thread t).xid ≠ none := by
      rw [hfetched]
      nofun
    have hprefetch : 0 < s.xidPrefetch := h.desk.prefetch
    refine ⟨l.issue, ?_⟩
    unfold xidLoop
    rw [if_pos hprefetch]
    refine XidBooks.handOut ⟨?_, h.durable, h.issued,
      fun hvirgin => absurd hvirgin (h.not_virgin hbusy), h.settled⟩ hprefetch
    rw [xidDesk_setThread]
    exact h.desk.refill hclerk
  · nomatch hstep

/-! ## Steps of the other generator -/

theorem XidBooks.oidFields (nextOid : Oid) (count : Int) (nextoid : BitVec 32)
    (oids : List Oid) : XidBooks { s with
      disk := { s.disk with nextOid := nextOid }
      oidQueueCount := count
      nextoid := nextoid
      oids := oids } l :=
  { h with }

theorem XidBooks.oidLoop (ht : (s.thread t).xid = none) : XidBooks (oidLoop t s) l := by
  have hidle : XidBooks (s.setThread t .idle) l := h.setThread rfl ht
  unfold Varsup.oidLoop
  split
  · exact hidle.oidFields s.disk.nextOid _ _ _
  · split
    · have hfetching : XidBooks (s.setThread t .fetchingOid) l := h.setThread rfl ht
      exact hfetching.oidFields s.disk.nextOid _ _ _
    · exact hidle

end

theorem variableRelationGetNextOid_eq (prefetch : Int) (var : VariableRelationContents) :
    (variableRelationGetNextOid prefetch var).2 =
      { var with nextOid := (variableRelationGetNextOid prefetch var).2.nextOid } := by
  unfold variableRelationGetNextOid
  split <;> rfl

theorem XidBooks.readOid (h : XidBooks s l) (hstep : readOid t s = some s') : XidBooks s' l := by
  obtain ⟨hfetching, rfl⟩ := of_guard hstep
  have hthread : XidBooks (s.setThread t (.fetchedOid (variableRelationGetNextOid s.oidPrefetch s.disk).1)) l :=
    h.setThread rfl (hfetching ▸ rfl)
  have hread := hthread.oidFields (variableRelationGetNextOid s.oidPrefetch s.disk).2.nextOid
    s.oidQueueCount s.nextoid s.oids
  change XidBooks { s.setThread t (.fetchedOid (variableRelationGetNextOid s.oidPrefetch s.disk).1) with
    disk := (variableRelationGetNextOid s.oidPrefetch s.disk).2 } l
  rw [variableRelationGetNextOid_eq]
  exact hread

theorem XidBooks.storeOid (h : XidBooks s l) (hstep : storeOid t s = some s') : XidBooks s' l := by
  unfold Varsup.storeOid at hstep
  split at hstep
  · next oid hfetched =>
    have hthread : XidBooks (s.setThread t .storedOid) l := h.setThread rfl (hfetched ▸ rfl)
    exact some.inj hstep ▸ hthread.oidFields s.disk.nextOid _ _ _
  · nomatch hstep

theorem XidBooks.refillOid (h : XidBooks s l) (hstep : refillOid t s = some s') : XidBooks s' l := by
  obtain ⟨hstored, rfl⟩ := of_guard hstep
  have hfilled : XidBooks { s with oidQueueCount := s.oidPrefetch } l :=
    h.oidFields s.disk.nextOid s.oidPrefetch s.nextoid s.oids
  refine hfilled.oidLoop ?_
  rw [hstored]
  rfl

/-! ## Runs -/

def ordinaryXid (s : Server) : Event → Bool
  | .getNewTransactionId _ => decide (s.phase ≠ .bootstrapping)
  | .readXid _ => decide (s.disk.nextXidData.toNat+s.xidPrefetch < 2^64)
  | _ => true

theorem XidBooks.step (h : XidBooks s l) (hearly : Early s) {e : Event} (hok : ordinaryXid s e)
    (hstep : next s e = some s') : ∃ l', XidBooks s' l' := by
  cases e with
  | restart bootstrap => exact ⟨l, some.inj hstep ▸ h.restart bootstrap⟩
  | commitAmi => exact ⟨l, h.commitAmi hstep⟩
  | putNextXid => exact h.putNextXid hstep
  | initTransactionLowWaterMark => exact ⟨l, h.initTransactionLowWaterMark hearly hstep⟩
  | getNewTransactionId t => exact h.getNewTransactionId (of_decide_eq_true hok) hstep
  | readXid t => exact h.readXid (of_decide_eq_true hok) hstep
  | failXid t => exact ⟨l, h.failXid hstep⟩
  | refillXid t => exact h.refillXid hstep
  | getNewObjectId t =>
    obtain ⟨⟨_, hidle⟩, rfl⟩ := of_guard hstep
    exact ⟨l, h.oidLoop (hidle ▸ rfl)⟩
  | readOid t => exact ⟨l, h.readOid hstep⟩
  | failOid t =>
    obtain ⟨hfetching, rfl⟩ := of_guard hstep
    exact ⟨l, h.setThread rfl (hfetching ▸ rfl)⟩
  | storeOid t => exact ⟨l, h.storeOid hstep⟩
  | refillOid t => exact ⟨l, h.refillOid hstep⟩

structure DistinctXids (s : Server) : Prop where
  distinct : (s.xids ++ s.earlierXids).Nodup
  growing : s.xids.Pairwise (· > ·)

theorem XidBooks.distinctXids (h : XidBooks s l) : DistinctXids s := by
  have hdecreasing : (s.xids ++ s.earlierXids).Pairwise fun a b => a.toNat > b.toNat := by
    have hall := h.desk.ledger.decreasing
    rw [← h.issued, pairwise_map] at hall
    exact hall
  refine ⟨hdecreasing.imp fun hlt heq => ?_, ?_⟩
  · rw [heq] at hlt
    exact lt_irrefl _ hlt
  · exact (pairwise_append.mp hdecreasing).1.imp fun hlt => lt_def.mpr hlt

/-- **Transaction ids.** No transaction id is handed out twice, also across restarts. -/
theorem xids_distinct (disk : VariableRelationContents) {events : List Event} {s : Server}
    (r : Run (Guarded (fun s e s' => next s e = some s') (fun s e => ordinaryXid s e))
      (.init disk) events s) : DistinctXids s := by
  obtain ⟨_, l, hl⟩ := r.preserves (fun s => Early s ∧ ∃ l, XidBooks s l)
    (fun _ _ _ ⟨hearly, _, h⟩ hs => ⟨hearly.step hs.2, h.step hearly hs.1 hs.2⟩)
    ⟨fun _ _ _ _ => rfl, _, xidBooks_init disk⟩
  exact hl.distinctXids

/-! ## Sample runs -/

def emptyBlock : VariableRelationContents := ⟨0, 0⟩

/-- The first start is in single-user mode: in a multi-user server it would be a `FATAL` error. -/
def firstStart (transactionPrefetch objectidPrefetch : Option (BitVec 32)) : List Event :=
  [.restart false, .commitAmi, .putNextXid, .initTransactionLowWaterMark false none none, .restart false,
    .initTransactionLowWaterMark true transactionPrefetch objectidPrefetch]

def takesXid (t : ThreadId) : List Event := [.getNewTransactionId t, .readXid t, .refillXid t]

/-- A restart with another size, and the main thread takes an id before it is set. -/
def interruptedBatch : List Event :=
  firstStart (some 2) none ++ takesXid 1 ++
    [.getNewTransactionId 2, .getNewTransactionId 3, .getNewTransactionId 1, .readXid 3, .restart false] ++
    takesXid 0 ++ [.initTransactionLowWaterMark true (some 4) none, .getNewTransactionId 1]

theorem xids_distinct_interrupted :
    ∃ s, perform (fun s e => if ordinaryXid s e then next s e else none) (.init emptyBlock)
        interruptedBatch = some s ∧
      (s.xids, s.earlierXids) = ([520, 519], [516, 515]) ∧ DistinctXids s := by
  exact exists_of_map (fun s => (s.xids, s.earlierXids)) ([520, 519], [516, 515]) (by decide)
    fun _ hs hids => ⟨hids, xids_distinct emptyBlock (.of_perform hs)⟩

def wastesBatch : List Event :=
  [.restart false, .initTransactionLowWaterMark true (some 1073741824) none] ++ takesXid 1

theorem wastesBatch_next (h : s.amiCommitted) : ∃ s', perform next s wastesBatch = some s' ∧ s'.amiCommitted ∧
      s'.disk.nextXidData = s.disk.nextXidData+1073741824 ∧ s'.xids = [s.disk.nextXidData+1] ∧
      s'.earlierXids = s.xids ++ s.earlierXids := by
  have hsize (unset least : Int) : prefetchSize (some 1073741824#32) unset least = 1073741824 := by
    change (if (1073741824#32).toInt ≤ 0 then least else (1073741824#32).toInt) = _
    rw [show (1073741824#32).toInt = 1073741824 from by decide, if_neg (by decide)]
  simp [wastesBatch, takesXid, perform, next, restart, initTransactionLowWaterMark, Server.init, h,
    hsize, getNewTransactionId, mayCall, xidLoop, readXid, variableRelationGetNextXid, refillXid,
    handOutXid, Server.setThread, mainThread]

theorem wastesBatch_many (n : Nat) (h : s.amiCommitted) :
    ∃ s', perform next s (List.replicate (n+1) wastesBatch).flatten = some s' ∧
      s'.amiCommitted ∧
      s'.disk.nextXidData = s.disk.nextXidData + .ofNat 64 (n+1) * 1073741824 ∧
      s'.xids = [s.disk.nextXidData + .ofNat 64 n * 1073741824 + 1] ∧
      (0 < n → s.disk.nextXidData + 1 ∈ s'.earlierXids) := by
  induction n with
  | zero =>
    obtain ⟨s', hs, hami, hdisk, hxids, _⟩ := wastesBatch_next h
    refine ⟨s', by simpa using hs, hami, ?_, ?_, nofun⟩
    · rw [hdisk]
      rfl
    · rw [hxids, show BitVec.ofNat 64 0 * 1073741824 = 0#64 from rfl, BitVec.add_zero]
  | succ n ih =>
    obtain ⟨s₁, hs₁, hami₁, hdisk₁, hxids₁, hfirst⟩ := ih
    obtain ⟨s₂, hs₂, hami₂, hdisk₂, hxids₂, hearlier₂⟩ := wastesBatch_next hami₁
    have hsucc (k : Nat) : BitVec.ofNat 64 (k+1) * 1073741824 = BitVec.ofNat 64 k * 1073741824 + 1073741824 := by
      rw [BitVec.ofNat_add, BitVec.add_mul]
      rfl
    refine ⟨s₂, ?_, hami₂, ?_, ?_, fun _ => ?_⟩
    · rw [List.replicate_succ', List.flatten_concat, perform_append, hs₁]
      exact hs₂
    · rw [hdisk₂, hdisk₁, hsucc (n+1), BitVec.add_assoc]
    · rw [hxids₂, hdisk₁]
    · rw [hearlier₂]
      obtain rfl | hpos := Nat.eq_zero_or_pos n
      · rw [hxids₁, show BitVec.ofNat 64 0 * 1073741824 = 0#64 from rfl, BitVec.add_zero]
        exact .head _
      · exact List.mem_append_right _ (hfirst hpos)

/-- In bootstrap mode the id does not change; and 2^34 restarts that waste 2^30 ids each bring the
counter back. -/
theorem xids_repeated : (∃ s, perform next (.init emptyBlock)
        [.restart true, .getNewTransactionId 0, .getNewTransactionId 0] = some s ∧
      ¬ DistinctXids s) ∧
    ∃ events s, .restart true ∉ events ∧ perform next (.init emptyBlock) events = some s ∧
      ¬ DistinctXids s := by
  constructor
  · refine ⟨_, rfl, fun hdistinct => ?_⟩
    exact (nodup_cons.mp hdistinct.distinct).1 (.head _)
  · obtain ⟨s₀, hs₀, hami⟩ := map_eq_some_iff.mp
      (show (perform next (.init emptyBlock) (firstStart none none)).map Server.amiCommitted =
        some true from rfl)
    obtain ⟨n, hpos, hwrap⟩ : ∃ n, 0 < n ∧ BitVec.ofNat 64 n * 1073741824 = 0#64 := ⟨2^34, by decide, by decide⟩
    obtain ⟨s, hs, _, _, hxids, hfirst⟩ := wastesBatch_many n hami
    refine ⟨firstStart none none ++ (List.replicate (n+1) wastesBatch).flatten, s, ?_, ?_, ?_⟩
    · intro hmem
      obtain hmem | hmem := mem_append.mp hmem
      · revert hmem
        simp [firstStart]
      · obtain ⟨ls, hls, hmem⟩ := mem_flatten.mp hmem
        rw [eq_of_mem_replicate hls] at hmem
        revert hmem
        simp [wastesBatch, takesXid]
    · rw [perform_append, hs₀]
      exact hs
    · intro hdistinct
      have hnodup := hdistinct.distinct
      rw [hxids, hwrap, BitVec.add_zero] at hnodup
      exact (nodup_cons.mp hnodup).1 (hfirst hpos)

end WeaverDB.Varsup
