import WeaverDB.Blob.UpdatedChains

/-! # Which blobs an update deletes

An update should delete the blobs of the old version that the new one no longer refers to; this compares
it with what is done (`Carried`).
-/

namespace WeaverDB.Blob
open Foundations List Tuples

/-! ## Dropped blobs -/

section

variable {c : SpanContext} {w : Stores} {old new : Row c.desc}

def ReadsAs (c : SpanContext) (r : Spanned) (bytes : List UInt8) : Prop :=
  ∃ j < c.desc.natts, (c.desc.attrs j).attstorage = .external ∧
    ∃ d, (heapGetAttr c.desc r.tuple (j+1) r.cache).1 = some d ∧ attBytes (c.desc.attrs j) d = bytes

def RefersTo (c : SpanContext) (r : Spanned) (h : StoredBlob) : Prop :=
  ∃ bytes, ReadsAs c r bytes ∧ isIndirect bytes ∧ (readBlobHeader bytes).relid = h.relid ∧
    (readBlobHeader bytes).forwardPointer = h.forwardPointer

/-- Exactly the blobs that the new version no longer refers to are marked. -/
def DeletesDropped (S : Sources c w old) (r : Spanned) : Prop :=
  ∀ i < c.desc.natts, rowExternal old i → isIndirect (old.bytes i) → S.nodes i ≠ [] →
    let h := readBlobHeader (old.bytes i)
    ((∀ n ∈ S.nodes i, r.stores.xmax h.relid n.1 = some c.xid) ↔ ¬ RefersTo c r h) ∧
      (ReadsAs c r (old.bytes i) → ∀ n ∈ S.nodes i, r.stores.xmax h.relid n.1 ≠ some c.xid)

/-- The attribute has the header of the blob, as the caller gives it. -/
structure HoldsChain (new : Row c.desc) (h : StoredBlob) (j : Nat) : Prop where
  lt : j < c.desc.natts
  ext : rowExternal new j
  indirect : isIndirect (new.bytes j)
  still : isBuffered (new.bytes j) = false
  relid : (readBlobHeader (new.bytes j)).relid = h.relid
  start : (readBlobHeader (new.bytes j)).forwardPointer = h.forwardPointer

/-- Every old blob is in the new version, by attributes that are all moved or all left. -/
def ChainsKept (S : Sources c w old) (new : Row c.desc) (moves : Nat → Prop) : Prop :=
  ∀ i < c.desc.natts, rowExternal old i → isIndirect (old.bytes i) → S.nodes i ≠ [] →
    let h := readBlobHeader (old.bytes i)
    (∃ j, HoldsChain new h j) ∧ ((∀ j, HoldsChain new h j → ¬ moves j) ∨ ∀ j, HoldsChain new h j → moves j)

def ChainsApart (S : Sources c w old) (S' : Sources c w new) : Prop :=
  ∀ i < c.desc.natts, rowExternal old i → ∀ j < c.desc.natts, rowExternal new j →
    ∀ relid p, S.inSegment i relid p → S'.inSegment j relid p →
      (readBlobHeader (new.bytes j)).forwardPointer = (readBlobHeader (old.bytes i)).forwardPointer

variable {S : Sources c w old} {S' : Sources c w new} {r : Spanned} {row' : Row c.desc}
  {done : List Nat} {i : Nat}

theorem HoldsChain.nodes {j : Nat} (h : HoldsChain new (readBlobHeader (old.bytes i)) j)
    (hi : i < c.desc.natts) (hext : rowExternal old i) (hind : isIndirect (old.bytes i)) :
    S'.nodes j = S.nodes i := by
  have hsegs := (S.indirect i hi hext hind).2.segs
  have hsegs' := (S'.indirect j h.lt h.ext h.indirect).2.segs
  rw [h.relid, h.start] at hsegs'
  exact hsegs'.det hsegs

theorem Carried.marked_iff (hc : Carried S' r row' done) (hw : w.Ok) (hapart : ChainsApart S S')
    (hdone : ∀ k ∈ done, k < c.desc.natts ∧ rowExternal new k) (hi : i < c.desc.natts)
    (hext : rowExternal old i) (hind : isIndirect (old.bytes i))
    {n : ItemPointerData × List UInt8} (hn : n ∈ S.nodes i) :
    r.stores.xmax (readBlobHeader (old.bytes i)).relid n.1 = some c.xid ↔
      ∃ k ∈ done, HoldsChain new (readBlobHeader (old.bytes i)) k := by
  have hseg : S.inSegment i (readBlobHeader (old.bytes i)).relid n.1 := ⟨hind, rfl, mem_map_of_mem hn⟩
  constructor
  · intro hmarked
    by_contra hnone
    have hfree : n.1 ∉ (w.rels (readBlobHeader (old.bytes i)).relid).room :=
      fun hmem => S.not_inSegment hw hi hext hmem hseg
    have hsame := hc.unmarked _ n.1 hfree fun k hk hbuffered hin => by
      obtain ⟨hlt, hext'⟩ := hdone k hk
      have hstart := hapart i hi hext k hlt hext' _ _ hseg hin
      exact hnone ⟨k, hk, hlt, hext', hin.1, hbuffered, hin.2.1.symm, hstart⟩
    rw [(S.indirect i hi hext hind).2.live n hn] at hsame
    exact absurd (hmarked.symm.trans hsame) nofun
  · rintro ⟨k, hk, hholds⟩
    refine hc.marked k hk hholds.still _ _ ⟨hholds.indirect, hholds.relid.symm, ?_⟩
    rw [hholds.nodes hi hext hind]
    exact mem_map_of_mem hn

theorem Carried.readsAs_iff (hc : Carried S' r row' done) {bytes : List UInt8} :
    ReadsAs c r bytes ↔ ∃ j < c.desc.natts, rowExternal new j ∧ row'.bytes j = bytes := by
  constructor
  · rintro ⟨j, hj, hstorage, d, hread, hbytes⟩
    obtain ⟨hnull, hval⟩ := hc.formed.read hc.sound hj
    cases hn : row'.nulls j with
    | true => exact absurd ((hnull hn).symm.trans hread) nofun
    | false =>
      obtain ⟨d', hread', hbytes'⟩ := hval hn
      obtain rfl := Option.some.inj (hread.symm.trans hread')
      exact ⟨j, hj, rowExternal_iff.mpr ⟨hstorage, (hc.nulls j hj).symm.trans hn⟩, hbytes'.symm.trans hbytes⟩
  · rintro ⟨j, hj, hext, hbytes⟩
    obtain ⟨hstorage, hval⟩ := rowExternal_iff.mp hext
    obtain ⟨d, hread, hbytes'⟩ := (hc.formed.read hc.sound hj).2 ((hc.nulls j hj).trans hval)
    exact ⟨j, hj, hstorage, d, hread, hbytes'.trans hbytes⟩

theorem NewHeader.ne_chain {j : Nat} {h : StoredBlob} (hnew : NewHeader c w j h) (hw : w.Ok)
    (hrelid : c.storageOf (j+1 : Nat) < 2^64) (hi : i < c.desc.natts)
    (hext : rowExternal old i) (hind : isIndirect (old.bytes i)) (hne : S.nodes i ≠ []) :
    ¬ ((readBlobHeader h.bytes).relid = (readBlobHeader (old.bytes i)).relid ∧
      (readBlobHeader h.bytes).forwardPointer = (readBlobHeader (old.bytes i)).forwardPointer) := by
  rintro ⟨hrel, hstart⟩
  obtain ⟨hpointer, hplace⟩ := hnew.read hw hrelid
  have hsegs := (S.indirect i hi hext hind).2.segs
  rw [← hrel, hplace] at hsegs
  exact hnew.fresh.ne_start (hw.ready _) hsegs hne (hpointer.symm.trans hstart)

theorem Carried.refersTo_iff (hc : Carried S' r row' done) (hw : w.Ok)
    (hrelid : ∀ i < c.desc.natts, c.storageOf (i+1 : Nat) < 2^64) (hi : i < c.desc.natts)
    (hext : rowExternal old i) (hind : isIndirect (old.bytes i)) (hne : S.nodes i ≠ []) :
    RefersTo c r (readBlobHeader (old.bytes i)) ↔ ∃ j ∉ done, HoldsChain new (readBlobHeader (old.bytes i)) j := by
  constructor
  · rintro ⟨bytes, hreads, hindirect, hrel, hstart⟩
    obtain ⟨j, hj, hextj, rfl⟩ := hc.readsAs_iff.mp hreads
    have hkeeps : ∀ header, NewHeader c w j header → row'.bytes j ≠ header.bytes := by
      intro header hheader hbytes
      rw [hbytes] at hrel hstart
      exact hheader.ne_chain hw (hrelid j hj) hi hext hind hne ⟨hrel, hstart⟩
    have hstill : isBuffered (new.bytes j) = false := by
      cases hbuffered : isBuffered (new.bytes j) with
      | false => rfl
      | true =>
        obtain ⟨header, hheader, hbytes⟩ := hc.stream j hj hextj hbuffered
        exact absurd hbytes (hkeeps header hheader)
    have hsame : row'.bytes j = new.bytes j := by
      by_cases hmem : j ∈ done
      · exact (hc.either j hmem hstill).resolve_right fun ⟨header, hheader, hbytes⟩ => hkeeps header hheader hbytes
      · exact hc.kept j hj hextj hstill hmem
    have hholds : HoldsChain new (readBlobHeader (old.bytes i)) j := by
      rw [hsame] at hindirect hrel hstart
      exact ⟨hj, hextj, hindirect, hstill, hrel, hstart⟩
    refine ⟨j, fun hmem => ?_, hholds⟩
    have hnodes : S'.nodes j ≠ [] := hholds.nodes hi hext hind ▸ hne
    obtain ⟨header, hheader, hbytes⟩ := hc.moved j hmem hholds.indirect hstill hnodes
    exact hkeeps header hheader hbytes
  · rintro ⟨j, hout, hholds⟩
    have hsame := hc.kept j hholds.lt hholds.ext hholds.still hout
    refine ⟨new.bytes j, hc.readsAs_iff.mpr ⟨j, hholds.lt, hholds.ext, hsame⟩, hholds.indirect,
      hholds.relid, hholds.start⟩

theorem Carried.deletesDropped_iff (hc : Carried S' r row' done) (hw : w.Ok) (hapart : ChainsApart S S')
    (hdone : ∀ k ∈ done, k < c.desc.natts ∧ rowExternal new k)
    (hrelid : ∀ i < c.desc.natts, c.storageOf (i+1 : Nat) < 2^64) :
    DeletesDropped S r ↔ ChainsKept S new (· ∈ done) := by
  have hmarks : ∀ i < c.desc.natts, rowExternal old i → isIndirect (old.bytes i) →
      S.nodes i ≠ [] → ((∀ n ∈ S.nodes i, r.stores.xmax (readBlobHeader (old.bytes i)).relid n.1 = some c.xid) ↔
      ∃ k ∈ done, HoldsChain new (readBlobHeader (old.bytes i)) k) := by
    intro i hi hext hind hne
    obtain ⟨n, hn⟩ := exists_mem_of_ne_nil _ hne
    exact ⟨fun hall => (hc.marked_iff hw hapart hdone hi hext hind hn).mp (hall n hn),
      fun hsome m hm => (hc.marked_iff hw hapart hdone hi hext hind hm).mpr hsome⟩
  constructor
  · intro hdeletes i hi hext hind hne
    have hboth := (hdeletes i hi hext hind hne).1
    rw [hmarks i hi hext hind hne, hc.refersTo_iff hw hrelid hi hext hind hne] at hboth
    by_cases hsome : ∃ k ∈ done, HoldsChain new (readBlobHeader (old.bytes i)) k
    · have hnone := hboth.mp hsome
      obtain ⟨k, _, hholds⟩ := hsome
      exact ⟨⟨k, hholds⟩, .inr fun j hj => not_not.mp fun hout => hnone ⟨j, hout, hj⟩⟩
    · obtain ⟨j, _, hholds⟩ := not_not.mp fun hnone => hsome (hboth.mpr hnone)
      exact ⟨⟨j, hholds⟩, .inl fun k hk hmem => hsome ⟨k, hmem, hk⟩⟩
  · intro hkept i hi hext hind hne
    obtain ⟨⟨j, hholds⟩, hcases⟩ := hkept i hi hext hind hne
    have hrefers := hc.refersTo_iff hw hrelid hi hext hind hne
    have hboth : (∃ k ∈ done, HoldsChain new (readBlobHeader (old.bytes i)) k) ↔
        ¬ RefersTo c r (readBlobHeader (old.bytes i)) := by
      rw [hrefers]
      obtain hout | hall := hcases
      · refine ⟨fun ⟨k, hk, hk'⟩ => absurd hk (hout k hk'), fun hnone => ?_⟩
        exact absurd ⟨j, hout j hholds, hholds⟩ hnone
      · exact ⟨fun _ ⟨k, hout, hk⟩ => hout (hall k hk), fun _ => ⟨j, hall j hholds, hholds⟩⟩
    refine ⟨(hmarks i hi hext hind hne).trans hboth, fun hreads n hn hmarked => ?_⟩
    have hsome := (hc.marked_iff hw hapart hdone hi hext hind hn).mp hmarked
    exact hboth.mp hsome ⟨_, hreads, hind, rfl, rfl⟩

/-- An update deletes the right blobs exactly if it keeps all of them, each moved or left as a whole. -/
theorem heapUpdate_deletesDropped_iff (c : SpanContext) (e : Surroundings) (fuel : Nat)
    (old new : Row c.desc) (oldtup newtup : HeapTuple) (hold : Formed old oldtup)
    (hnew : heapFormtuple c.desc new.toValues = .ok newtup) (calls : List (Call c.desc)) (w : Stores)
    (hw : w.Ok) (S : Sources c w old) (S' : Sources c w new) (hapart : ChainsApart S S')
    (hrelid : ∀ i < c.desc.natts, c.storageOf (i+1 : Nat) < 2^64) (r : Spanned)
    (hok : heapUpdate c e fuel oldtup newtup w (calls.foldl (cacheAfter c.desc) OffsetCache.fresh) = .ok r) :
    DeletesDropped S r ↔ ChainsKept S new (InReach c e new newtup) := by
  obtain ⟨row', done, hc, hdone⟩ := heapUpdate_carried S' hw hnew hrelid (sound_calls calls) hold hok
  have hmoves : (fun i => i ∈ done) = InReach c e new newtup := funext fun i => propext (hdone i)
  rw [← hmoves]
  refine hc.deletesDropped_iff hw hapart (fun k hk => ?_) hrelid
  obtain ⟨hk, hext⟩ := mem_reachedUpTo ((hdone k).mp hk).2.2
  exact ⟨hk, hext⟩

end

/-! ## A blob of one segment -/

section

theorem heapUpdate_samePage {c : SpanContext} {e : Surroundings} {old : Row c.desc}
    {oldtup newtup : HeapTuple} (hold : Formed old oldtup) {cache : OffsetCache}
    (hs : Sound c.desc cache) (hsame : samePage e newtup) (fuel : Nat) (w : Stores) :
    ∃ r, heapUpdate c e fuel oldtup newtup w cache = .ok r := by
  unfold heapUpdate storeNewVersion
  rw [if_pos hsame]
  cases hflag : oldtup.blobLinked with
  | false => exact ⟨_, rfl⟩
  | true =>
    obtain ⟨cache', hdelete, _⟩ := deleteTupleBlob_update hold hs fuel w newtup
    refine ⟨{ tuple := newtup, stores := w, cache := cache', limit := 0 }, ?_⟩
    change ((deleteTupleBlob c fuel oldtup (some newtup) w cache) >>= _) = _
    rw [hdelete]
    rfl

def oneRelation : BlobRelation where
  items p := if p = ⟨0, 1⟩ then some ⟨itemPointerInvalid, [65]⟩ else none
  room := [⟨0, 2⟩]

theorem oneRelation_ready : oneRelation.Ready := ⟨by decide, by decide, fun p hp => by rw [mem_singleton.mp hp]; rfl⟩

def oneSegment : Stores where
  rels _ := oneRelation
  xmax _ _ := none

theorem oneSegment_ok : oneSegment.Ok where
  ready _ := oneRelation_ready
  fresh _ _ _ := rfl
  bounded _ p hp := by
    rw [mem_singleton.mp hp]
    decide

def oneHeader : StoredBlob := ⟨5, ⟨0, 1⟩, 1⟩

def oneBlob (mem : List UInt8) (h : 4 ≤ varsize mem ∧ varsize mem = mem.length) : Row (blobContext 1).desc where
  value _ := .pointer mem
  nulls _ := false
  fits _ _ _ := ⟨rfl, h.1, h.2.le, nofun⟩

theorem bytes_oneBlob {mem : List UInt8} {h : 4 ≤ varsize mem ∧ varsize mem = mem.length} (i : Nat) :
    (oneBlob mem h).bytes i = mem := by
  change mem.take (varsize mem) = mem
  rw [h.2, take_length]

theorem oneHeader_blob : BlobAt (blobContext 1).cfg oneSegment oneHeader [65] [(⟨0, 1⟩, [65])] where
  segs := ⟨.cons rfl (.nil _), by decide, by decide, by decide⟩
  live _ _ := rfl
  flatten := rfl
  length := rfl

def headerSources : Sources (blobContext 1) oneSegment (oneBlob oneHeader.bytes (by decide)) where
  content _ := [65]
  nodes _ := [(⟨0, 1⟩, [65])]
  direct i _ _ hind := by
    rw [bytes_oneBlob] at hind
    exact absurd hind (by decide)
  indirect i _ _ _ := by
    rw [rowSize, bytes_oneBlob]
    exact ⟨by decide, oneHeader_blob⟩

def bytesSources : Sources (blobContext 1) oneSegment (oneBlob [5, 0, 0, 0, 66] (by decide)) where
  content _ := [66]
  nodes _ := []
  direct i _ _ _ := by
    rw [bytes_oneBlob]
    rfl
  indirect i _ _ hind := by
    rw [bytes_oneBlob] at hind
    exact absurd hind (by decide)

def roomyPage : Surroundings where
  pageError := false
  pageSpace := 4000
  newPageSpace := 8152
  pipe _ := none

def oldVersion : HeapTuple :=
  { formTuple (blobDesc 1) (oneBlob oneHeader.bytes (by decide)).toValues with blobLinked := true }

theorem formed_oldVersion : Formed (oneBlob oneHeader.bytes (by decide)) oldVersion := by
  have h := formed_formTuple (oneBlob oneHeader.bytes (by decide))
  exact ⟨h.natts, h.len, h.null, h.bit, h.varlena, h.value⟩

theorem headerSources_apart : ChainsApart headerSources headerSources := by
  intro i _ _ j _ _ relid p _ _
  rw [bytes_oneBlob, bytes_oneBlob]

theorem headerSources_kept (moves : Nat → Prop) (hmoves : ∀ j, ¬ moves j) :
    ChainsKept headerSources (oneBlob oneHeader.bytes (by decide)) moves := by
  intro i hi hext hind _
  refine ⟨⟨i, hi, hext, hind, ?_, rfl, rfl⟩, .inl fun j _ => hmoves j⟩
  rw [bytes_oneBlob]
  decide

/-- The blob is carried over. -/
theorem heapUpdate_deletesDropped_iff_carried_over : ∃ r, heapUpdate (blobContext 1) roomyPage 1 oldVersion
        (formTuple (blobDesc 1) (oneBlob oneHeader.bytes (by decide)).toValues) oneSegment
        OffsetCache.fresh = .ok r ∧ DeletesDropped headerSources r := by
  have hsame : samePage roomyPage (formTuple (blobDesc 1) (oneBlob oneHeader.bytes (by decide)).toValues) := rfl
  obtain ⟨r, hok⟩ := heapUpdate_samePage (c := blobContext 1) formed_oldVersion
    (sound_calls []) hsame 1 oneSegment
  refine ⟨r, hok, (heapUpdate_deletesDropped_iff (blobContext 1) roomyPage 1 _ _ _ _ formed_oldVersion
    rfl [] oneSegment oneSegment_ok headerSources headerSources headerSources_apart
    (fun _ _ => show 1 < 2^64 by decide) r hok).mpr (headerSources_kept _ fun j hj => ?_)⟩
  exact absurd (hsame.symm.trans hj.1) nofun

/-- The blob is replaced, and its segment is not deleted. -/
theorem heapUpdate_replaced_blob_leaks : ∃ r, heapUpdate (blobContext 1) roomyPage 1 oldVersion
        (formTuple (blobDesc 1) (oneBlob [5, 0, 0, 0, 66] (by decide)).toValues) oneSegment
        OffsetCache.fresh = .ok r ∧ ¬ DeletesDropped headerSources r := by
  have hsame : samePage roomyPage
      (formTuple (blobDesc 1) (oneBlob [5, 0, 0, 0, 66] (by decide)).toValues) := rfl
  obtain ⟨r, hok⟩ := heapUpdate_samePage (c := blobContext 1) formed_oldVersion
    (sound_calls []) hsame 1 oneSegment
  refine ⟨r, hok, fun hdeletes => ?_⟩
  have hrelid : ∀ i < (blobContext 1).desc.natts, (blobContext 1).storageOf (i+1 : Nat) < 2^64 :=
    fun _ _ => show 1 < 2^64 by decide
  obtain ⟨row', done, hc, hdone⟩ := heapUpdate_carried bytesSources oneSegment_ok rfl hrelid
    (sound_calls []) formed_oldVersion hok
  have hapart : ChainsApart headerSources bytesSources := fun _ _ _ _ _ _ _ _ _ hp => absurd hp.2.2 not_mem_nil
  have hnone : ∀ k, k ∉ done := fun k hk => absurd (hsame.symm.trans ((hdone k).mp hk).1) nofun
  have hkept := (hc.deletesDropped_iff oneSegment_ok hapart (fun k hk => absurd hk (hnone k)) hrelid).mp
    hdeletes
  have hind : isIndirect ((oneBlob oneHeader.bytes (by decide)).bytes 0) := by
    decide
  obtain ⟨⟨j, hholds⟩, _⟩ := hkept 0 zero_lt_one rfl hind nofun
  have hdirect := hholds.indirect
  rw [bytes_oneBlob] at hdirect
  exact absurd hdirect (by decide)

end

end WeaverDB.Blob
