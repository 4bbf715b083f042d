import WeaverDB.Varsup.TransactionIds

/-! # Object ids come back

Object ids are reserved on a counter of 64 bits but handed out from an `int`. As long as the batches end
below 2^32, every id is handed out once; after that the upper half of the counter is lost, and the ids
start again.
-/

namespace WeaverDB.Varsup
open Foundations BitVec Option Function

variable {s s' : Server} {l : Ledger} {t : ThreadId}

def Pc.oid (nextoid : BitVec 32) : Pc → Option (Option Nat)
  | .fetchingOid => some none
  | .fetchedOid oid => some (some (oid.toNat+1))
  | .storedOid => some (some nextoid.toNat)
  | _ => none

def oidDesk (s : Server) : Desk ThreadId where
  prefetch := s.oidPrefetch
  count := s.oidQueueCount
  next := s.nextoid.toNat
  clerk := fun t => (s.thread t).oid s.nextoid

def oidBase (var : VariableRelationContents) : Nat :=
  if var.nextOid ≠ 0 then var.nextOid.toNat else bootstrapObjectIdData.toNat

def throughInt (n : Nat) : Oid := (BitVec.ofNat 32 n).signExtend 64

structure OidBooks (s : Server) (l : Ledger) : Prop where
  desk : (oidDesk s).Sound l
  durable : oidBase s.disk = l.durable
  issued : s.oids = l.issued.map throughInt
  small : ∀ n ∈ l.issued, n < 2^32
  fits : l.next < l.limit → l.limit ≤ 2^32

theorem oidBooks_init (disk : VariableRelationContents) :
    OidBooks (.init disk) ⟨oidBase disk, oidBase disk + 1, oidBase disk + 1, []⟩ where
  desk := Desk.sound_idle (Ledger.sound_start _) (Int.natCast_pos.mpr (by decide)) _
  durable := rfl
  issued := rfl
  small := nofun
  fits := fun h => absurd h (lt_irrefl _)

theorem oidDesk_setThread (s : Server) (t : ThreadId) (pc : Pc) : oidDesk (s.setThread t pc) =
      { oidDesk s with clerk := update (oidDesk s).clerk t (pc.oid s.nextoid) } := by
  have hclerk : (fun t' => ((s.setThread t pc).thread t').oid s.nextoid) =
      update (oidDesk s).clerk t (pc.oid s.nextoid) := by
    funext t'
    change (update s.thread t pc t').oid s.nextoid = _
    rw [update_apply, update_apply]
    split <;> rfl
  exact congrArg (Desk.mk s.oidPrefetch s.oidQueueCount s.nextoid.toNat) hclerk

theorem throughInt_inj {m n : Nat} (hm : m < 2^32) (hn : n < 2^32) (h : throughInt m = throughInt n) : m = n := by
  have hint := congrArg BitVec.toInt h
  unfold throughInt at hint
  rw [toInt_signExtend_of_le (by decide), toInt_signExtend_of_le (by decide)] at hint
  have hnat := congrArg BitVec.toNat (eq_of_toInt_eq hint)
  rwa [toNat_ofNat, toNat_ofNat, Nat.mod_eq_of_lt hm, Nat.mod_eq_of_lt hn] at hnat

theorem OidBooks.handOut (h : OidBooks s l) (hcount : 0 < s.oidQueueCount) : OidBooks (handOutOid s) l.issue := by
  obtain ⟨hnext, hlimit⟩ := h.desk.cached hcount
  change s.nextoid.toNat = l.next at hnext
  change l.next + s.oidQueueCount = l.limit at hlimit
  have hleft : l.next < l.limit := by omega
  have hfits := h.fits hleft
  have hclerk (t : ThreadId) : (s.thread t).oid (s.nextoid+1) = (s.thread t).oid s.nextoid := by
    have hfree : (s.thread t).oid s.nextoid = none := h.desk.free (le_of_lt hcount) t
    cases hpc : s.thread t with
    | storedOid =>
      rw [hpc] at hfree
      nomatch hfree
    | idle | fetchingXid | fetchedXid | fetchingOid | fetchedOid => rfl
  have hdesk : oidDesk (handOutOid s) = { oidDesk s with
      count := s.oidQueueCount-1, next := (s.nextoid+1).toNat } :=
    congrArg (Desk.mk s.oidPrefetch (s.oidQueueCount-1) (s.nextoid+1).toNat) (funext hclerk)
  refine ⟨?_, h.durable, ?_, fun n hn => ?_, fun _ => hfits⟩
  · rw [hdesk]
    refine h.desk.handOut hcount fun hmore => ?_
    change 1 < s.oidQueueCount at hmore
    rw [toNat_add]
    exact Nat.mod_eq_of_lt (show s.nextoid.toNat + 1 < 2^32 by omega)
  · change s.nextoid.signExtend 64 :: s.oids = throughInt l.next :: l.issued.map throughInt
    unfold throughInt
    rw [← hnext, ofNat_toNat, setWidth_eq]
    exact congrArg _ h.issued
  · obtain rfl | hn := List.mem_cons.mp hn
    · omega
    · exact h.small n hn

theorem OidBooks.loop (h : OidBooks (s.setThread t .idle) l) : ∃ l', OidBooks (oidLoop t s) l' := by
  unfold oidLoop
  split
  · next hcount => exact ⟨_, h.handOut hcount⟩
  · split
    · next hcount =>
      have hdesk := h.desk.begin_ hcount t
      have hsame : oidDesk { s.setThread t .fetchingOid with oidQueueCount := -1 } =
          { oidDesk (s.setThread t .fetchingOid) with count := -1 } := rfl
      refine ⟨l, { h with desk := ?_ }⟩
      rw [oidDesk_setThread, update_idem] at hdesk
      rw [hsame, oidDesk_setThread]
      exact hdesk
    · exact ⟨l, h⟩

theorem OidBooks.setThread (h : OidBooks s l) {pc : Pc} (hpc : pc.oid s.nextoid = none)
    (ht : (s.thread t).oid s.nextoid = none) : OidBooks (s.setThread t pc) l := by
  refine { h with desk := ?_ }
  rw [oidDesk_setThread, hpc, ← ht]
  have hsame : update (oidDesk s).clerk t ((s.thread t).oid s.nextoid) =
      (oidDesk s).clerk := update_eq_self t (oidDesk s).clerk
  rw [hsame]
  exact h.desk

theorem OidBooks.restart (h : OidBooks s l) (bootstrap : Bool) : OidBooks (restart bootstrap s) l :=
  { h with desk := Desk.sound_idle h.desk.ledger (Int.natCast_pos.mpr (by decide)) _ }

theorem OidBooks.initTransactionLowWaterMark (h : OidBooks s l) (hearly : Early s) {multiuser : Bool}
    {transactionPrefetch objectidPrefetch : Option (BitVec 32)}
    (hstep : initTransactionLowWaterMark multiuser transactionPrefetch objectidPrefetch s = some s') :
    OidBooks s' l := by
  obtain ⟨⟨hphase, _, hmain⟩, rfl⟩ := of_guard hstep
  have hidle := hearly (hphase ▸ nofun) (hphase ▸ nofun)
  have hnone (t : ThreadId) : (s.thread t).oid s.nextoid = none := by
    obtain rfl | hne := eq_or_ne t mainThread
    · rw [hmain]
      rfl
    · rw [hidle t hne]
      rfl
  refine ?_
  cases multiuser with
  | false => exact { h with }
  | true => exact { h with desk := h.desk.resize hnone (prefetchSize_pos (by decide)) }

theorem variableRelationGetNextOid_spec {prefetch : Int} {var : VariableRelationContents}
    (hprefetch : 0 < prefetch) (hroom : oidBase var + prefetch < 2^32) :
    (variableRelationGetNextOid prefetch var).1.toNat = oidBase var ∧
      oidBase (variableRelationGetNextOid prefetch var).2 = oidBase var + prefetch.toNat := by
  have hsize : (BitVec.ofInt 64 prefetch).toNat = prefetch.toNat := by
    have hnonneg : 0 ≤ oidBase var := Nat.zero_le _
    rw [toNat_ofInt]
    omega
  have hadd (base : Oid) (hbase : base.toNat + prefetch < 2^32) :
      (base + .ofInt 64 prefetch).toNat = base.toNat+prefetch.toNat := by
    rw [toNat_add, hsize]
    omega
  have hbase (base : Oid) (hbase : base.toNat + prefetch < 2^32) :
      oidBase { var with nextOid := base + .ofInt 64 prefetch } = base.toNat + prefetch.toNat := by
    unfold oidBase
    rw [if_pos, hadd base hbase]
    intro hzero
    have hnat := hadd base hbase
    change base + .ofInt 64 prefetch = 0 at hzero
    rw [hzero] at hnat
    change 0 = base.toNat + prefetch.toNat at hnat
    omega
  unfold variableRelationGetNextOid
  unfold oidBase at hroom
  split
  · next hvalid =>
    rw [if_pos hvalid] at hroom
    have hold : oidBase var = var.nextOid.toNat := if_pos hvalid
    rw [hold]
    exact ⟨rfl, hbase var.nextOid hroom⟩
  · next hinvalid =>
    rw [if_neg hinvalid] at hroom
    have hold : oidBase var = bootstrapObjectIdData.toNat := if_neg hinvalid
    rw [hold]
    exact ⟨rfl, hbase bootstrapObjectIdData hroom⟩

section

variable (h : OidBooks s l)
include h

theorem OidBooks.readOid (hroom : oidBase s.disk + s.oidPrefetch < 2^32)
    (hstep : readOid t s = some s') : ∃ l', OidBooks s' l' := by
  obtain ⟨hfetching, rfl⟩ := of_guard hstep
  have hprefetch : 0 < s.oidPrefetch := h.desk.prefetch
  have hclerk : (oidDesk s).clerk t = some none := congrArg (Pc.oid s.nextoid) hfetching
  obtain ⟨hfirst, hnew⟩ := variableRelationGetNextOid_spec hprefetch hroom
  have hdurable := h.durable
  refine ⟨l.reserve s.oidPrefetch.toNat, ?_, ?_, h.issued, h.small, fun _ => ?_⟩
  · change (oidDesk (s.setThread t (.fetchedOid (variableRelationGetNextOid s.oidPrefetch s.disk).1))).Sound _
    have hmine : (Pc.fetchedOid (variableRelationGetNextOid s.oidPrefetch s.disk).1).oid s.nextoid =
        some (some (l.durable+1)) := by
      change some (some ((variableRelationGetNextOid s.oidPrefetch s.disk).1.toNat + 1)) = _
      rw [hfirst, hdurable]
    rw [oidDesk_setThread, hmine]
    exact h.desk.fetch hclerk
  · exact hnew.trans (congrArg (· + _) hdurable)
  · change l.durable + 1 + s.oidPrefetch.toNat ≤ 2^32
    omega

theorem OidBooks.failOid (hstep : failOid t s = some s') : OidBooks s' l := by
  obtain ⟨_, rfl⟩ := of_guard hstep
  refine { h with desk := ?_ }
  rw [oidDesk_setThread]
  exact h.desk.quit t

theorem OidBooks.storeOid (hstep : storeOid t s = some s') : OidBooks s' l := by
  unfold Varsup.storeOid at hstep
  split at hstep
  · next oid hfetched =>
    cases hstep
    have hclerk : (oidDesk s).clerk t = some (some (oid.toNat+1)) := congrArg (Pc.oid s.nextoid) hfetched
    have hcount : ¬ 0 ≤ s.oidQueueCount := fun hfree =>
      absurd ((h.desk.free hfree t).symm.trans hclerk) nofun
    have hprefetch : 0 < s.oidPrefetch := h.desk.prefetch
    obtain ⟨hnext, hlimit⟩ := h.desk.fetched t _ hclerk
    change l.next + s.oidPrefetch = l.limit at hlimit
    have hfits := h.fits (by omega)
    have hvalue : ((oid+1).setWidth 32).toNat = oid.toNat+1 := by
      change (oid.toNat+1) % 2^64 % 2^32 = _
      omega
    -- nobody else is on the way, so the new counter concerns only this thread
    have hsame : (oidDesk { s.setThread t .storedOid with nextoid := (oid+1).setWidth 32 }).clerk =
        (oidDesk s).clerk := by
      funext t'
      change (update s.thread t .storedOid t').oid ((oid+1).setWidth 32) = (s.thread t').oid s.nextoid
      obtain rfl | hne := eq_or_ne t' t
      · rw [update_self, hfetched]
        exact congrArg (some ∘ some) hvalue
      · rw [update_of_ne hne]
        have hother : (s.thread t').oid s.nextoid = none := by
          by_contra hbusy
          refine hne (h.desk.alone t' t hbusy ?_)
          rw [hclerk]
          nofun
        cases hpc : s.thread t' with
        | storedOid =>
          rw [hpc] at hother
          nomatch hother
        | idle | fetchingXid | fetchedXid | fetchingOid | fetchedOid => rfl
    refine { h with desk := ?_ }
    have hdesk := h.desk.setNext (fun hpos => hcount (le_of_lt hpos)) ((oid+1).setWidth 32).toNat
    rw [← hsame] at hdesk
    exact hdesk
  · nomatch hstep

theorem OidBooks.refillOid (hstep : refillOid t s = some s') : ∃ l', OidBooks s' l' := by
  obtain ⟨hstored, rfl⟩ := of_guard hstep
  have hclerk : (oidDesk s).clerk t = some (some s.nextoid.toNat) := congrArg (Pc.oid s.nextoid) hstored
  refine OidBooks.loop (l := l) { h with desk := ?_ }
  rw [oidDesk_setThread]
  exact h.desk.refill hclerk

theorem OidBooks.xidLoop (ht : (s.thread t).oid s.nextoid = none) : OidBooks (xidLoop t s) l := by
  have hidle : OidBooks (s.setThread t .idle) l := h.setThread rfl ht
  unfold Varsup.xidLoop
  split
  · exact { hidle with }
  · split
    · have hfetching : OidBooks (s.setThread t .fetchingXid) l := h.setThread rfl ht
      exact { hfetching with }
    · exact hidle

end

def ordinaryOid (s : Server) : Event → Bool
  | .readOid _ => decide (oidBase s.disk + s.oidPrefetch < 2^32)
  | _ => true

theorem OidBooks.step (h : OidBooks s l) (hearly : Early s) {e : Event}
    (hok : ordinaryOid s e) (hstep : next s e = some s') : ∃ l', OidBooks s' l' := by
  cases e with
  | restart bootstrap => exact ⟨l, some.inj hstep ▸ h.restart bootstrap⟩
  | commitAmi | putNextXid =>
    obtain ⟨_, rfl⟩ := of_guard hstep
    exact ⟨l, { h with }⟩
  | initTransactionLowWaterMark => exact ⟨l, h.initTransactionLowWaterMark hearly hstep⟩
  | getNewTransactionId t =>
    obtain ⟨⟨_, hidle⟩, rfl⟩ := of_guard hstep
    refine ⟨l, ?_⟩
    split
    · exact { h with }
    · exact h.xidLoop (hidle ▸ rfl)
  | readXid t =>
    obtain ⟨hfetching, rfl⟩ := of_guard hstep
    have hthread : OidBooks (s.setThread t (.fetchedXid (s.disk.nextXidData+1))) l := h.setThread rfl (hfetching ▸ rfl)
    exact ⟨l, { hthread with }⟩
  | failXid t =>
    obtain ⟨hfetching, rfl⟩ := of_guard hstep
    exact ⟨l, h.setThread rfl (hfetching ▸ rfl)⟩
  | refillXid t =>
    change Varsup.refillXid t s = some s' at hstep
    unfold Varsup.refillXid at hstep
    split at hstep
    · next nextid hfetched =>
      have hfilled : OidBooks { s with nextXid := nextid, xidCount := s.xidPrefetch } l := { h with }
      refine ⟨l, some.inj hstep ▸ hfilled.xidLoop ?_⟩
      change (s.thread t).oid s.nextoid = none
      rw [hfetched]
      rfl
    · nomatch hstep
  | getNewObjectId t =>
    obtain ⟨⟨_, hidle⟩, rfl⟩ := of_guard hstep
    exact OidBooks.loop (h.setThread rfl (hidle ▸ rfl))
  | readOid t => exact h.readOid (of_decide_eq_true hok) hstep
  | failOid t => exact ⟨l, h.failOid hstep⟩
  | storeOid t => exact ⟨l, h.storeOid hstep⟩
  | refillOid t => exact h.refillOid hstep

theorem OidBooks.nodup (h : OidBooks s l) : s.oids.Nodup := by
  rw [h.issued]
  refine List.Nodup.map_on (fun m hm n hn => throughInt_inj (h.small m hm) (h.small n hn)) ?_
  exact h.desk.ledger.decreasing.imp ne_of_gt

/-- **Object ids.** No object id is handed out twice. -/
theorem oids_distinct (disk : VariableRelationContents) {events : List Event} {s : Server}
    (r : Run (Guarded (fun s e s' => next s e = some s') (fun s e => ordinaryOid s e))
      (.init disk) events s) : s.oids.Nodup := by
  obtain ⟨_, l, hl⟩ := r.preserves (fun s => Early s ∧ ∃ l, OidBooks s l)
    (fun _ _ _ ⟨hearly, _, h⟩ hs => ⟨hearly.step hs.2, h.step hearly hs.1 hs.2⟩)
    ⟨fun _ _ _ _ => rfl, _, oidBooks_init disk⟩
  exact hl.nodup

def takesOid (t : ThreadId) : List Event := [.getNewObjectId t, .readOid t, .storeOid t, .refillOid t]

def interruptedOids : List Event :=
  firstStart none (some 2) ++ takesOid 1 ++ [.getNewObjectId 2, .getNewObjectId 3, .readOid 3, .restart false,
      .initTransactionLowWaterMark true none (some 3)] ++ takesOid 1 ++ [.getNewObjectId 2]

theorem oids_distinct_interrupted :
    ∃ s, perform (fun s e => if ordinaryOid s e then next s e else none) (.init emptyBlock)
        interruptedOids = some s ∧
      s.oids = [16390, 16389, 16386, 16385] ∧ s.oids.Nodup := by
  exact exists_of_map Server.oids [16390, 16389, 16386, 16385] (by decide)
    fun _ hs hids => ⟨hids, oids_distinct emptyBlock (.of_perform hs)⟩

def wastesOids : List Event :=
  [.restart false, .initTransactionLowWaterMark true none (some 1073741824)] ++ takesOid 1

/-- The fifth id is the first one again: 16385 + 2^32 has no place in the `int`. -/
theorem oids_repeated : ∃ s, perform next (.init emptyBlock) (firstStart none (some 1073741824) ++ takesOid 1 ++
        wastesOids ++ wastesOids ++ wastesOids ++ wastesOids) = some s ∧
      ¬ s.oids.Nodup := by
  refine exists_of_map Server.oids
    [16385, 0xffffffffc0004001, 0xffffffff80004001, 0x40004001, 16385] (by decide)
    fun s _ hids hnodup => ?_
  rw [hids] at hnodup
  exact absurd hnodup (by decide)

end WeaverDB.Varsup
