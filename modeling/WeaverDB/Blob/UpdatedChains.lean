import WeaverDB.Blob.Growth
import WeaverDB.Blob.HeapUpdate
import WeaverDB.Blob.TupleBlobs

/-! # What an update does to the blobs

`delete_tuple_blob` compares each blob of the old version with itself, so it deletes nothing when there
is a new version. What goes are the segments of blobs that `store_tuple_blob` moves (`Carried`).
-/

namespace WeaverDB.Blob
open Foundations Bool Nat List Option Tuples Function

variable {w' : Stores} {relid n size xid i : Nat} {rel : BlobRelation} {desc : TupleDesc}
  {link : ItemPointerData} {r' : Spanned} {e : Surroundings} {s : Spilled × OffsetCache}
  {cache : OffsetCache}

/-! ## The blobs of the old version -/

section

variable {c : SpanContext} {row : Row c.desc} {t : HeapTuple} {cache : OffsetCache} {i : Nat}

theorem deleteAttributeBlob_update (ht : Formed row t) (hs : Sound c.desc cache)
    (hi : i < c.desc.natts) (fuel : Nat) (w : Stores) (newtup : HeapTuple) :
    ∃ cache', deleteAttributeBlob c fuel t (some newtup) (w, cache) i = .ok (w, cache') ∧ Sound c.desc cache' := by
  unfold deleteAttributeBlob
  by_cases hstorage : (c.desc.attrs i).attstorage = .external
  · -- both reads are of the same tuple
    obtain ⟨cache₁, hget, hs₁⟩ := heapGetAttr_external ht hs hi hstorage
    obtain ⟨cache₂, hget', hs₂⟩ := heapGetAttr_external ht hs₁ hi hstorage
    rw [if_neg (not_not.mpr hstorage)]
    dsimp only
    rw [hget]
    cases hnull : row.nulls i with
    | true => exact ⟨cache₁, rfl, hs₁⟩
    | false =>
      rw [hnull] at hget'
      simp only [false_eq_true, if_false, hget']
      by_cases hind : isIndirect (t.data.drop (row.attOffset i))
      · exact ⟨cache₂, by simp [hind], hs₂⟩
      · exact ⟨cache₁, if_neg hind, hs₁⟩
  · rw [if_pos hstorage]
    exact ⟨cache, rfl, hs⟩

theorem deleteTupleBlob_update (ht : Formed row t) (hs : Sound c.desc cache) (fuel : Nat) (w : Stores)
    (newtup : HeapTuple) : ∃ cache', deleteTupleBlob c fuel t (some newtup) w cache = .ok (w, cache') ∧
      Sound c.desc cache' := by
  have hrange : ∀ n ≤ c.desc.natts, ∃ cache',
      (List.range n).foldlM (deleteAttributeBlob c fuel t (some newtup)) (w, cache) = .ok (w, cache') ∧
      Sound c.desc cache' := by
    intro n hn
    induction n with
    | zero => exact ⟨cache, rfl, hs⟩
    | succ n ih =>
      obtain ⟨cache₁, hfold, hs₁⟩ := ih (le_of_succ_le hn)
      obtain ⟨cache₂, hstep, hs₂⟩ := deleteAttributeBlob_update ht hs₁ hn fuel w newtup
      refine ⟨cache₂, ?_, hs₂⟩
      rw [range_succ, foldlM_append, hfold]
      change (deleteAttributeBlob c fuel t (some newtup) (w, cache₁) n >>= pure) = _
      rw [hstep]
      rfl
  exact hrange c.desc.natts (le_rfl)

end

/-! ## Segments in new places -/

theorem Extends.mem_room_of_chain {rel' : BlobRelation} {nodes : List (ItemPointerData × List UInt8)}
    {q : ItemPointerData} (h : Extends rel rel') (hchain : Chain rel'.cell link nodes q)
    (hlink : Fresh rel link) (hvalid : ∀ n ∈ nodes, itemPointerIsValid n.1) :
    ∀ n ∈ nodes, n.1 ∈ rel.room := by
  induction hchain with
  | nil => exact forall_mem_nil _
  | cons hcell _ ih =>
    obtain ⟨hp, hvalid⟩ := forall_mem_cons.mp hvalid
    obtain ⟨segment, hitem, hpair⟩ := map_eq_some_iff.mp hcell
    have hmem := hlink.mem_of_valid hp
    have hnext := h.linked _ hmem segment hitem
    rw [(Prod.mk.inj hpair).2] at hnext
    exact forall_mem_cons.mpr ⟨hmem, ih hnext hvalid⟩

theorem deleteBlobSegments_fresh {fuel : Nat} {w : Stores} (hgrown : Extends rel (w.rels relid))
    (hlink : Fresh rel link) (hok : deleteBlobSegments relid xid fuel link w = .ok w') :
    w'.rels = w.rels ∧ ∀ r p, (r = relid → p ∉ rel.room) → w'.xmax r p = w.xmax r p := by
  obtain ⟨nodes, hwalk, rfl⟩ := walk_of_deleteBlobSegments hok
  obtain ⟨-, q, hchain, hvalid, -⟩ := (walk_iff _).mp hwalk
  refine ⟨rels_marked .., fun r p hp => ?_⟩
  rw [xmax_marked, if_neg]
  rintro ⟨hr, hmem⟩
  obtain ⟨n, hn, rfl⟩ := mem_map.mp hmem
  exact hp hr (hgrown.mem_room_of_chain hchain hlink hvalid n hn)

/-! ## What an update does -/

structure NewHeader (c : SpanContext) (w : Stores) (i : Nat) (h : StoredBlob) : Prop where
  relid : h.relid = c.storageOf (i+1 : Nat)
  fresh : Fresh (w.rels h.relid) h.forwardPointer

theorem NewHeader.read {c : SpanContext} {w : Stores} {h : StoredBlob} (hnew : NewHeader c w i h)
    (hw : w.Ok) (hrelid : c.storageOf (i+1 : Nat) < 2^64) :
    (readBlobHeader h.bytes).forwardPointer = h.forwardPointer ∧ (readBlobHeader h.bytes).relid = h.relid := by
  have hbounds : h.forwardPointer.ipBlkid < 2^48 ∧ h.forwardPointer.ipPosid < 2^16 := by
    obtain hmem | hinvalid := hnew.fresh
    · exact hw.bounded _ _ hmem
    · rw [hinvalid]
      decide
  exact readBlobHeader_place hbounds.1 hbounds.2 (hnew.relid ▸ hrelid)

structure Marks {c : SpanContext} {w : Stores} {row : Row c.desc} (S : Sources c w row) (w' : Stores)
    (done : List Nat) : Prop where
  grown : ∀ relid, Extends (w.rels relid) (w'.rels relid)
  marked : ∀ k ∈ done, isBuffered (row.bytes k) = false → ∀ relid p, S.inSegment k relid p →
    w'.xmax relid p = some c.xid
  unmarked : ∀ relid p, p ∉ (w.rels relid).room →
    (∀ k ∈ done, isBuffered (row.bytes k) = false → ¬ S.inSegment k relid p) →
    w'.xmax relid p = w.xmax relid p

structure Carried {c : SpanContext} {w : Stores} {row : Row c.desc} (S : Sources c w row) (r : Spanned)
    (row' : Row c.desc) (done : List Nat) : Prop extends Marks S r.stores done where
  formed : Formed row' r.tuple
  sound : Sound c.desc r.cache
  nulls : ∀ i < c.desc.natts, row'.nulls i = row.nulls i
  plain : ∀ i < c.desc.natts, row.nulls i = false → rowExternal row i = false → row'.bytes i = row.bytes i
  stream : ∀ i < c.desc.natts, rowExternal row i → isBuffered (row.bytes i) →
    ∃ h, NewHeader c w i h ∧ row'.bytes i = h.bytes
  kept : ∀ i < c.desc.natts, rowExternal row i → isBuffered (row.bytes i) = false →
    i ∉ done → row'.bytes i = row.bytes i
  either : ∀ i ∈ done, isBuffered (row.bytes i) = false →
    row'.bytes i = row.bytes i ∨ ∃ h, NewHeader c w i h ∧ row'.bytes i = h.bytes
  moved : ∀ i ∈ done, isIndirect (row.bytes i) → isBuffered (row.bytes i) = false →
    S.nodes i ≠ [] → ∃ h, NewHeader c w i h ∧ row'.bytes i = h.bytes

/-! ## Streams -/

section

variable {c : SpanContext} {w : Stores} {row : Row c.desc} {t : HeapTuple}
  {pipe : Nat → Option (List (List UInt8))}

theorem extends_setRel (h : ∀ relid, Extends (w.rels relid) (w'.rels relid))
    (hrel : Extends (w.rels relid) rel) (r : Nat) :
    Extends (w.rels r) ((w'.setRel relid rel).rels r) := by
  rw [rels_setRel]
  split
  · next hr => exact hr ▸ hrel
  · exact h r

def isStream (row : Row c.desc) (i : Nat) : Bool := rowExternal row i && isBuffered (row.bytes i)

structure Streamed (row : Row c.desc) (w : Stores) (s : Spilled × OffsetCache) (n : Nat) : Prop where
  sound : Sound c.desc s.2
  grown : ∀ relid, Extends (w.rels relid) (s.1.stores.rels relid)
  xmax : s.1.stores.xmax = w.xmax
  stream : ∀ i < n, isStream row i → ∃ h, NewHeader c w i h ∧ s.1.repl i = some (.pointer h.bytes)
  other : ∀ i, (i < n → isStream row i = false) → s.1.repl i = none

theorem Streamed.skip (h : Streamed row w s n) (hn : isStream row n = false)
    (hs : Sound c.desc cache) : Streamed row w (s.1, cache) (n+1) where
  sound := hs
  grown := h.grown
  xmax := h.xmax
  stream i hi hstream := by
    obtain hlt | rfl := Nat.lt_succ_iff_lt_or_eq.mp hi
    · exact h.stream i hlt hstream
    · exact absurd (hstream.symm.trans hn) nofun
  other i hi := h.other i fun hlt => hi (lt_succ_of_lt hlt)

theorem Streamed.step (hw : w.Ok) (ht : Formed row t) {s' : Spilled × OffsetCache}
    (h : Streamed row w s n) (hn : n < c.desc.natts) (hok : spanAttribute c pipe t s n = .ok s') :
    Streamed row w s' (n+1) := by
  unfold spanAttribute at hok
  by_cases hstorage : (c.desc.attrs n).attstorage = .external
  · rw [if_neg (not_not.mpr hstorage)] at hok
    obtain ⟨cache, hget, hsound⟩ := heapGetAttr_external ht h.sound hn hstorage
    rw [hget] at hok
    cases hnull : row.nulls n with rw [hnull] at hok
    | true =>
      cases hok
      exact h.skip (by simp [isStream, rowExternal, hnull]) hsound
    | false =>
      have hext : rowExternal row n := rowExternal_iff.mpr ⟨hstorage, hnull⟩
      rw [if_neg Bool.false_ne_true] at hok
      dsimp only at hok
      have hbuffered : isBuffered (t.data.drop (row.attOffset n)) = isBuffered (row.bytes n) :=
        isBuffered_itemOf ht hn hext
      rw [hbuffered] at hok
      cases hstream : isBuffered (row.bytes n) with
      | false =>
        rw [hstream, if_neg Bool.false_ne_true] at hok
        cases hok
        exact h.skip (by simp [isStream, hstream]) hsound
      | true =>
        rw [hstream, if_pos rfl] at hok
        cases hpipe : pipe n with
        | none =>
          rw [hpipe] at hok
          cases hok
        | some pieces =>
          rw [hpipe] at hok
          dsimp only at hok
          split at hok
          · cases hok
          · next header rel hwrite =>
            obtain ⟨hrel, hfresh⟩ := writeBlob_extends (hw.ready _) (h.grown _) hwrite
            cases hok
            refine ⟨hsound, extends_setRel h.grown hrel, h.xmax, fun i hi hi' => ?_, fun i hi => ?_⟩
            · by_cases hin : i = n
              · subst hin
                exact ⟨_, ⟨rfl, hfresh⟩, update_self ..⟩
              · obtain ⟨header', hheader, hrepl⟩ := h.stream i (by omega) hi'
                exact ⟨header', hheader, (update_of_ne hin _ _).trans hrepl⟩
            · have hin : i ≠ n := by
                rintro rfl
                have hfalse := hi (lt_succ_self i)
                simp [isStream, hext, hstream] at hfalse
              exact (update_of_ne hin _ _).trans (h.other i fun hlt => hi (lt_succ_of_lt hlt))
  · rw [if_pos hstorage] at hok
    cases hok
    exact h.skip (by simp [isStream, rowExternal, hstorage]) h.sound

theorem streamed_run (hw : w.Ok) (ht : Formed row t) {s' : Spilled × OffsetCache}
    (hn : n ≤ c.desc.natts) (h : Streamed row w s 0)
    (hok : (List.range n).foldlM (spanAttribute c pipe t) s = .ok s') : Streamed row w s' n := by
  induction n generalizing s' with
  | zero =>
    cases hok
    exact h
  | succ n ih =>
    rw [range_succ, foldlM_append] at hok
    obtain ⟨s₁, hfold, hlast⟩ := bind_ok hok
    obtain ⟨s₂, hstep, hend⟩ := bind_ok hlast
    cases hend
    exact (ih (le_of_succ_le hn) hfold).step hw ht hn hstep

theorem isBuffered_value (hi : i < c.desc.natts) (hext : rowExternal row i) :
    ∃ mem, row.value i = .pointer mem ∧ isBuffered mem = isBuffered (row.bytes i) := by
  obtain ⟨mem, hvalue, hbytes, hfour, -⟩ := external_value hi hext
  refine ⟨mem, hvalue, ?_⟩
  rw [hbytes, isBuffered, isBuffered, take_take, min_eq_left hfour]

theorem isStream_of_flag (ht : heapFormtuple c.desc row.toValues = .ok t)
    (hflag : t.hasBuffered = false) (hi : i < c.desc.natts) : isStream row i = false := by
  cases hext : rowExternal row i with
  | false => simp [isStream, hext]
  | true =>
    obtain ⟨mem, hvalue, hsame⟩ := isBuffered_value hi hext
    obtain ⟨hstorage, hval⟩ := rowExternal_iff.mp hext
    have hany : anyExternal c.desc row.toValues isBuffered = false := by
      unfold heapFormtuple at ht
      split at ht
      · cases ht
      · rw [← hflag, ← Except.ok.inj ht]
        rfl
    have hthis := any_eq_false.mp hany i (mem_range.mpr hi)
    simp only [hval, hstorage, hvalue, Bool.not_false, decide_true, Bool.true_and, not_eq_true] at hthis
    rw [isStream, ← hsame, hthis, Bool.and_false]

theorem marks_nil (S : Sources c w row)
    (hgrown : ∀ relid, Extends (w.rels relid) (w'.rels relid)) (hxmax : w'.xmax = w.xmax) :
    Marks S w' [] where
  grown := hgrown
  marked _ hk := absurd hk not_mem_nil
  unmarked relid p _ _ := by rw [hxmax]

theorem carried_given (S : Sources c w row) (hw : w.Ok) (ht : Formed row t)
    (hs : Sound c.desc cache) (hstream : ∀ i < c.desc.natts, isStream row i = false) :
    Carried S { tuple := t, stores := w, cache := cache, limit := 0 } row [] where
  toMarks := marks_nil S (fun relid => Extends.refl (hw.ready relid)) rfl
  formed := ht
  sound := hs
  nulls _ _ := rfl
  plain _ _ _ _ := rfl
  stream i hi hext hbuffered := by
    have hfalse := hstream i hi
    simp [isStream, hext, hbuffered] at hfalse
  kept _ _ _ _ _ := rfl
  either _ hmem := absurd hmem not_mem_nil
  moved _ hmem := absurd hmem not_mem_nil

theorem spanStreams_carried (S : Sources c w row) (hw : w.Ok)
    (ht : heapFormtuple c.desc row.toValues = .ok t) (hs : Sound c.desc cache) {r : Spanned}
    (hok : spanStreams c pipe t w cache = .ok r) : ∃ row', Carried S r row' [] := by
  have hformed := formed_of_formtuple ht
  unfold spanStreams at hok
  cases hflag : t.hasBuffered with
  | false =>
    rw [hflag, if_neg Bool.false_ne_true] at hok
    cases hok
    exact ⟨row, carried_given S hw hformed hs fun i hi => isStream_of_flag ht hflag hi⟩
  | true =>
    rw [hflag, if_pos rfl] at hok
    obtain ⟨s, hfold, hmodify⟩ := bind_ok hok
    have hstart : Streamed row w ({ stores := w, repl := fun _ => none, limit := 0 }, cache) 0 :=
      ⟨hs, fun relid => Extends.refl (hw.ready relid), rfl, fun _ hi => absurd hi (not_lt_zero _), fun _ _ => rfl⟩
    have h := streamed_run hw hformed (le_rfl) hstart hfold
    have hrepl : ∀ i < c.desc.natts, ∀ d, s.1.repl i = some d →
        rowExternal row i ∧ ∃ h : StoredBlob, d = .pointer h.bytes := by
      intro i hi d hd
      cases hstream : isStream row i with
      | false => exact absurd (hd.symm.trans (h.other i fun _ => hstream)) (some_ne_none d)
      | true =>
        obtain ⟨header, _, hrepl⟩ := h.stream i hi hstream
        rw [isStream, and_eq_true] at hstream
        exact ⟨hstream.1, header, some.inj (hd.symm.trans hrepl)⟩
    obtain ⟨r', row', hmodify', hr⟩ := modifySpanned_spec hformed (natts_le_of_formtuple ht) hrepl h.sound
    obtain rfl := Except.ok.inj (hmodify.symm.trans hmodify')
    have hkept : ∀ i < c.desc.natts, row.nulls i = false → isStream row i = false → row'.bytes i = row.bytes i :=
      fun i hi hval hstream => hr.bytes_kept hformed hi hval (h.other i fun _ => hstream)
    refine ⟨row', ⟨?_, hr.formed, hr.sound, hr.nulls, ?_, ?_, ?_, ?_, ?_⟩⟩
    · rw [hr.stores]
      exact marks_nil S h.grown h.xmax
    · intro i hi hval hext
      exact hkept i hi hval (by simp [isStream, hext])
    · intro i hi hext hbuffered
      obtain ⟨header, hheader, hsome⟩ := h.stream i hi (by simp [isStream, hext, hbuffered])
      exact ⟨header, hheader, hr.bytes_header hi hext hsome⟩
    · intro i hi hext hbuffered _
      exact hkept i hi (rowExternal_iff.mp hext).2 (by simp [isStream, hbuffered])
    · exact fun i hi => absurd hi not_mem_nil
    · exact fun i hi => absurd hi not_mem_nil

end

/-! ## Blobs that are moved -/

section

variable {c : SpanContext} {w : Stores} {row row' : Row c.desc} {S : Sources c w row} {r : Spanned}
  {s s' : Spilled} {done : List Nat} {k fuel : Nat}

theorem Marks.cons {w'' : Stores} (h : Marks S w' done) (hrels : w''.rels = w'.rels)
    (hout : isBuffered (row.bytes k) = false → ∀ relid p, ¬ S.inSegment k relid p)
    (hxmax : ∀ relid p, p ∉ (w.rels relid).room → w''.xmax relid p = w'.xmax relid p)
    (hroom : ∀ j ∈ done, isBuffered (row.bytes j) = false → ∀ relid p, S.inSegment j relid p →
      p ∉ (w.rels relid).room) :
    Marks S w'' (k :: done) where
  grown relid := by
    rw [hrels]
    exact h.grown relid
  marked j hj hbuffered relid p hp := by
    obtain rfl | hj := mem_cons.mp hj
    · exact absurd hp (hout hbuffered relid p)
    · rw [hxmax relid p (hroom j hj hbuffered relid p hp)]
      exact h.marked j hj hbuffered relid p hp
  unmarked relid p hfree hp := by
    rw [hxmax relid p hfree]
    exact h.unmarked relid p hfree fun j hj => hp j (mem_cons_of_mem k hj)

theorem Marks.cons_marked (h : Marks S w' done) (hbuffered : isBuffered (row.bytes k) = false)
    (hind : isIndirect (row.bytes k)) :
    Marks S (w'.marked (readBlobHeader (row.bytes k)).relid c.xid (S.nodes k)) (k :: done) where
  grown relid := by
    rw [rels_marked]
    exact h.grown relid
  marked j hj hbuffered' relid p hp := by
    rw [xmax_marked]
    split
    · rfl
    · next hout =>
      obtain rfl | hj := mem_cons.mp hj
      · exact absurd ⟨hp.2.1, hp.2.2⟩ hout
      · exact h.marked j hj hbuffered' relid p hp
  unmarked relid p hfree hp := by
    rw [xmax_marked, if_neg]
    · exact h.unmarked relid p hfree fun j hj => hp j (mem_cons_of_mem k hj)
    · rintro ⟨rfl, hmem⟩
      exact hp k (.head _) hbuffered ⟨hind, rfl, hmem⟩

theorem itemData_marks (hw : w.Ok) (hc : Carried S r row' []) (hdone : ∀ j ∈ done, j < c.desc.natts ∧
      rowExternal row j) (h : Marks S s.stores done) (hk : k < c.desc.natts)
    (hext : rowExternal row k) (hrelid : c.storageOf (k+1 : Nat) < 2^64) {data : List UInt8}
    (hok : itemData c fuel (itemOf row' r.tuple k) s.stores = .ok ((size, data), w')) :
    Marks S w' (k :: done) ∧ (isIndirect (row'.bytes k) → size = (readBlobHeader (row'.bytes k)).blobLength ∧
        data.length + varhdrsz = (readBlobHeader (row'.bytes k)).blobLength) := by
  have hext' : rowExternal row' k := by
    obtain ⟨hstorage, hval⟩ := rowExternal_iff.mp hext
    exact rowExternal_iff.mpr ⟨hstorage, (hc.nulls k hk).trans hval⟩
  have hroom : ∀ j ∈ done, isBuffered (row.bytes j) = false → ∀ relid p, S.inSegment j relid p →
      p ∉ (w.rels relid).room :=
    fun j hj _ relid p hp hmem => S.not_inSegment hw (hdone j hj).1 (hdone j hj).2 hmem hp
  have hsame : isBuffered (row.bytes k) = false → row'.bytes k = row.bytes k :=
    fun hbuffered => hc.kept k hk hext hbuffered not_mem_nil
  unfold itemData at hok
  rw [isIndirect_itemOf hc.formed hk hext'] at hok
  cases hind : isIndirect (row'.bytes k) with
  | false =>
    rw [hind, if_neg Bool.false_ne_true] at hok
    obtain ⟨_, rfl⟩ := Prod.mk.inj (Except.ok.inj hok)
    refine ⟨h.cons rfl (fun hbuffered relid p hp => ?_) (fun _ _ _ => rfl) hroom, fun h => Bool.noConfusion h⟩
    rw [hsame hbuffered] at hind
    exact Bool.noConfusion (hp.1.symm.trans hind)
  | true =>
    have hsize : rowSize row' k = sizeofBlobHeader := by
      cases hbuffered : isBuffered (row.bytes k) with
      | true =>
        obtain ⟨header, _, hbytes⟩ := hc.stream k hk hext hbuffered
        rw [rowSize, hbytes, length_headerBytes]
      | false =>
        rw [rowSize, hsame hbuffered]
        rw [hsame hbuffered] at hind
        exact (S.indirect k hk hext hind).1
    rw [hind, if_pos rfl, readBlobHeader_itemOf hc.formed hk hext' hsize] at hok
    obtain ⟨data', hrebuild, hrest⟩ := bind_ok hok
    obtain ⟨w'', hdelete, hlast⟩ := bind_ok hrest
    obtain ⟨hpair, rfl⟩ := Prod.mk.inj (Except.ok.inj hlast)
    obtain ⟨rfl, rfl⟩ := Prod.mk.inj hpair
    obtain ⟨hmax, hlength⟩ := rebuildIndirectBlob_length hrebuild
    refine ⟨?_, fun _ => ⟨mod_eq_of_lt (lt_succ_of_le hmax), hlength⟩⟩
    · cases hbuffered : isBuffered (row.bytes k) with
      | true =>
        obtain ⟨header, hheader, hbytes⟩ := hc.stream k hk hext hbuffered
        obtain ⟨hpointer, hplace⟩ := hheader.read hw hrelid
        rw [hbytes, hpointer, hplace] at hdelete
        obtain ⟨hrels, hxmax⟩ := deleteBlobSegments_fresh (h.grown _) hheader.fresh hdelete
        refine h.cons hrels (fun hfalse => ?_) (fun relid p hp => hxmax relid p ?_) hroom
        · exact Bool.noConfusion (hbuffered.symm.trans hfalse)
        · rintro rfl
          exact hp
      | false =>
        rw [hsame hbuffered] at hdelete hind
        have hsegs := (h.grown _).segs (S.indirect k hk hext hind).2.segs
        have hfuel := deleteBlobSegments_fuel hsegs hdelete
        rw [deleteBlobSegments_ok c.xid hsegs hfuel] at hdelete
        cases hdelete
        exact h.cons_marked hbuffered hind

theorem putBlob_marks (hw : w.Ok) (h : Marks S w' done) {data : List UInt8}
    (hok : putBlob c s (k+1) size data w' = .ok s') :
    Marks S s'.stores done ∧ (∀ i ≠ k, s'.repl i = s.repl i) ∧
      (data.take (size-varhdrsz) = [] ∧ s'.repl k = s.repl k ∨ data.take (size-varhdrsz) ≠ [] ∧
          ∃ h, NewHeader c w k h ∧ s'.repl k = some (.pointer h.bytes)) := by
  unfold putBlob at hok
  split at hok
  · cases hok
  · next rel hstore =>
    obtain ⟨hgrown, hnone, _⟩ := storeBlobSegments_extends (hw.ready _) (h.grown _) hstore
    cases hok
    exact ⟨⟨extends_setRel h.grown hgrown, h.marked, h.unmarked⟩, fun _ _ => rfl, .inl ⟨hnone.mp rfl, rfl⟩⟩
  · next start last rel hstore =>
    obtain ⟨hgrown, hnone, hsome⟩ := storeBlobSegments_extends (hw.ready _) (h.grown _) hstore
    cases hok
    refine ⟨⟨extends_setRel h.grown hgrown, h.marked, h.unmarked⟩, fun i hik => update_of_ne hik _ _,
      .inr ⟨fun hnil => ?_, ?_⟩⟩
    · exact absurd (hnone.mpr hnil) nofun
    · exact ⟨⟨size, start, c.storageOf (k+1 : Nat)⟩, ⟨rfl, (hsome start last rfl).1⟩, update_self ..⟩

structure Moving {c : SpanContext} {w : Stores} {row : Row c.desc} (S : Sources c w row)
    (row' : Row c.desc) (s : Spilled) (done : List Nat) : Prop extends Marks S s.stores done where
  skipped : ∀ i, i ∉ done → s.repl i = none
  header : ∀ i d, s.repl i = some d → ∃ h, NewHeader c w i h ∧ d = .pointer h.bytes
  moved : ∀ i ∈ done, isIndirect (row'.bytes i) → varhdrsz < (readBlobHeader (row'.bytes i)).blobLength → s.repl i ≠ none

theorem Moving.step (hw : w.Ok) (hc : Carried S r row' [])
    (hdone : ∀ j ∈ done, j < c.desc.natts ∧ rowExternal row j) (h : Moving S row' s done)
    (hk : k < c.desc.natts) (hext : rowExternal row k) (hnew : k ∉ done)
    (hrelid : c.storageOf (k+1 : Nat) < 2^64)
    (hok : storeItem c fuel s (itemOf row' r.tuple k) = .ok s') : Moving S row' s' (k :: done) := by
  obtain ⟨⟨⟨size, data⟩, w'⟩, hdata, hput⟩ := bind_ok hok
  obtain ⟨hmarks, hsize⟩ := itemData_marks hw hc hdone h.toMarks hk hext hrelid hdata
  obtain ⟨hmarks', hother, hself⟩ := putBlob_marks hw hmarks hput
  refine ⟨hmarks', fun i hi => ?_, fun i d hd => ?_, fun i hi hind hlarge => ?_⟩
  · rw [hother i fun heq => hi (heq ▸ (.head _))]
    exact h.skipped i fun hmem => hi (mem_cons_of_mem k hmem)
  · by_cases hik : i = k
    · subst hik
      obtain ⟨_, heq⟩ | ⟨_, header, hheader, heq⟩ := hself
      · exact h.header i d (heq ▸ hd)
      · exact ⟨header, hheader, some.inj (hd.symm.trans heq)⟩
    · exact h.header i d (hother i hik ▸ hd)
  · obtain rfl | hi := mem_cons.mp hi
    · obtain ⟨hnil, _⟩ | ⟨_, header, _, heq⟩ := hself
      · obtain ⟨rfl, hlength⟩ := hsize hind
        rw [take_eq_nil_iff, ← length_eq_zero_iff] at hnil
        omega
      · rw [heq]
        exact nofun
    · rw [hother i fun heq => hnew (heq ▸ hi)]
      exact h.moved i hi hind hlarge

theorem Moving.run (hw : w.Ok) (hc : Carried S r row' []) (list : List Nat)
    (hdone : ∀ j ∈ done, j < c.desc.natts ∧ rowExternal row j)
    (hlist : ∀ j ∈ list, j < c.desc.natts ∧ rowExternal row j) (hnodup : (list ++ done).Nodup)
    (hrelid : ∀ i < c.desc.natts, c.storageOf (i+1 : Nat) < 2^64) (h : Moving S row' s done)
    (hok : (list.map (itemOf row' r.tuple)).foldlM (storeItem c fuel) s = .ok s') :
    Moving S row' s' (list.reverse ++ done) := by
  induction list generalizing s done with
  | nil =>
    cases hok
    exact h
  | cons k rest ih =>
    obtain ⟨hk, hrest⟩ := forall_mem_cons.mp hlist
    rw [cons_append] at hnodup
    obtain ⟨hout, hnodup'⟩ := nodup_cons.mp hnodup
    rw [map_cons, foldlM_cons] at hok
    obtain ⟨s₁, hstep, hrun⟩ := bind_ok hok
    have hnew : k ∉ done := fun hmem => hout (mem_append_right _ hmem)
    have h₁ := h.step hw hc hdone hk.1 hk.2 hnew (hrelid k hk.1) hstep
    have hperm : (rest ++ k :: done).Nodup := by
      rw [nodup_middle]
      exact nodup_cons.mpr ⟨hout, hnodup'⟩
    rw [reverse_cons, append_assoc]
    exact ih (forall_mem_cons.mpr ⟨hk, hdone⟩) hrest hperm h₁ hrun

theorem rowExternal_congr (h : row'.nulls i = row.nulls i) : rowExternal row' i = rowExternal row i := by
  rw [rowExternal, rowExternal, h]

theorem storeTupleBlob_carried (hw : w.Ok) (hnatts : c.desc.natts ≤ maxHeapAttributeNumber)
    (hrelid : ∀ i < c.desc.natts, c.storageOf (i+1 : Nat) < 2^64) (hc : Carried S r row' [])
    (hok : storeTupleBlob c fuel r.tuple .size r.stores r.cache = .ok r') :
    ∃ row'' done, Carried S r' row'' done ∧ ∀ i, i ∈ done ↔ i ∈ reached c.cfg row' := by
  have hprior := prioritizeBlobs_spec hc.formed hc.sound
  cases hp : prioritizeBlobs c r.tuple .size r.cache with
  | none =>
    unfold storeTupleBlob at hok
    rw [hp] at hok
    cases hok
  | some p =>
    rw [hp] at hprior
    obtain ⟨hlisted, _⟩ := hprior
    obtain ⟨list, hperm, hlist⟩ := hlisted.attributes
    have hmem : ∀ i ∈ list, i < c.desc.natts ∧ rowExternal row i := by
      intro i hi
      obtain ⟨hlt, hext⟩ := mem_reachedUpTo (hperm.mem_iff.mp hi)
      exact ⟨hlt, (rowExternal_congr (hc.nulls i hlt)).symm.trans hext⟩
    obtain ⟨s, hrun⟩ := storeTupleBlob_run hp hok
    have hstart : Moving S row' { stores := r.stores, repl := fun _ => none, limit := 0 } [] :=
      ⟨hc.toMarks, fun _ _ => rfl, nofun, fun _ hi => absurd hi not_mem_nil⟩
    have hnodup : (list ++ []).Nodup := by
      rw [append_nil]
      exact hperm.nodup_iff.mpr (nodup_reachedUpTo _)
    have h := hstart.run hw hc list (fun _ hj => absurd hj not_mem_nil) hmem hnodup hrelid (hlist ▸ hrun)
    rw [append_nil] at h
    have hdone : ∀ i, i ∈ list.reverse ↔ i ∈ reached c.cfg row' := fun i => mem_reverse.trans hperm.mem_iff
    have hrepl : ∀ i < c.desc.natts, ∀ d, s.repl i = some d →
        rowExternal row' i ∧ ∃ h : StoredBlob, d = .pointer h.bytes := by
      intro i _ d hd
      have hin : i ∈ list.reverse := by
        by_contra hout
        exact absurd (hd.symm.trans (h.skipped i hout)) nofun
      obtain ⟨header, _, hbytes⟩ := h.header i d hd
      exact ⟨(mem_reachedUpTo ((hdone i).mp hin)).2, header, hbytes⟩
    obtain ⟨r₁, row'', hmodify, hr⟩ := modifySpanned_spec hc.formed hnatts hrepl hlisted.sound
    obtain rfl : r' = r₁ := by
      unfold storeTupleBlob at hok
      rw [hp] at hok
      dsimp only at hok
      rw [hrun] at hok
      exact Except.ok.inj (hok.symm.trans hmodify)
    have hsame : ∀ i < c.desc.natts, row.nulls i = false → s.repl i = none → row''.bytes i = row'.bytes i :=
      fun i hi hval hnone => hr.bytes_kept hc.formed hi ((hc.nulls i hi).trans hval) hnone
    have hheader : ∀ i < c.desc.natts, rowExternal row i → s.repl i ≠ none →
        ∃ h, NewHeader c w i h ∧ row''.bytes i = h.bytes := by
      intro i hi hext hne
      obtain ⟨d, hd⟩ := ne_none_iff_exists'.mp hne
      obtain ⟨header, hnew, rfl⟩ := h.header i d hd
      exact ⟨header, hnew, hr.bytes_header hi ((rowExternal_congr (hc.nulls i hi)).trans hext) hd⟩
    refine ⟨row'', list.reverse, ⟨?_, hr.formed, hr.sound, fun i hi => ?_, ?_, ?_, ?_, ?_, ?_⟩, hdone⟩
    · rw [hr.stores]
      exact h.toMarks
    · exact (hr.nulls i hi).trans (hc.nulls i hi)
    · intro i hi hval hext
      have hout : i ∉ list.reverse := fun hin =>
        absurd ((hmem i (mem_reverse.mp hin)).2.symm.trans hext) nofun
      rw [hsame i hi hval (h.skipped i hout), hc.plain i hi hval hext]
    · intro i hi hext hbuffered
      by_cases hnone : s.repl i = none
      · rw [hsame i hi (rowExternal_iff.mp hext).2 hnone]
        exact hc.stream i hi hext hbuffered
      · exact hheader i hi hext hnone
    · intro i hi hext hbuffered hout
      rw [hsame i hi (rowExternal_iff.mp hext).2 (h.skipped i hout)]
      exact hc.kept i hi hext hbuffered not_mem_nil
    · intro i hin hbuffered
      obtain ⟨hi, hext⟩ := hmem i (mem_reverse.mp hin)
      by_cases hnone : s.repl i = none
      · refine .inl ?_
        rw [hsame i hi (rowExternal_iff.mp hext).2 hnone]
        exact hc.kept i hi hext hbuffered not_mem_nil
      · exact .inr (hheader i hi hext hnone)
    · intro i hin hind hbuffered hne
      obtain ⟨hi, hext⟩ := hmem i (mem_reverse.mp hin)
      have hkept := hc.kept i hi hext hbuffered not_mem_nil
      refine hheader i hi hext (h.moved i hin (hkept ▸ hind) ?_)
      rw [hkept, (S.indirect i hi hext hind).2.length]
      have hpos : 0 < (S.content i).length := by
        refine length_pos_iff.mpr fun hnil => hne ?_
        have hblob := (S.indirect i hi hext hind).2
        rw [hnil] at hblob
        exact hblob.nodes_nil
      omega

end

/-! ## The update -/

section

variable {c : SpanContext} {w : Stores} {row row' : Row c.desc} {S : Sources c w row} {r : Spanned}
  {t : HeapTuple} {done : List Nat} {fuel : Nat}

theorem rowLength_congr {row row' : Row desc} (hnulls : ∀ i < desc.natts, row'.nulls i = row.nulls i)
    (hsize : ∀ i < desc.natts, row.nulls i = false → rowSize row' i = rowSize row i) :
    rowLength row' = rowLength row := by
  rw [rowLength, rowLength, hasNull_congr hnulls, computeDataSize, computeDataSize,
    dataSize_eq_layoutSize row' (le_rfl), dataSize_eq_layoutSize row (le_rfl)]
  congr 1
  exact layoutSize_congr hnulls hsize

theorem reachedUpTo_congr {row row' : Row desc} (cfg : Config) (hnulls : ∀ i < desc.natts, row'.nulls i = row.nulls i)
    (hsize : ∀ i < desc.natts, row.nulls i = false → rowSize row' i = rowSize row i)
    (hn : n ≤ desc.natts) : reachedUpTo cfg row' n = reachedUpTo cfg row n := by
  induction n with
  | zero =>
    change (([], ((maxAlign (rowLength row') : Nat) : Int)) : List Nat × Int) = _
    rw [rowLength_congr hnulls hsize]
    rfl
  | succ n ih =>
    rw [reachedUpTo_succ, reachedUpTo_succ, ih (le_of_succ_le hn), reachStep, reachStep]
    have hext : rowExternal row' n = rowExternal row n := by
      rw [rowExternal, rowExternal, hnulls n hn]
    rw [hext]
    cases hnull : row.nulls n with
    | true => simp [rowExternal, hnull]
    | false => rw [hsize n hn hnull]

def headedRow (row : Row c.desc) : Row c.desc where
  value i := if isStream row i then .pointer (StoredBlob.bytes ⟨0, itemPointerInvalid, 0⟩) else row.value i
  nulls := row.nulls
  fits i hi hval := by
    split
    · next hstream =>
      rw [isStream, and_eq_true] at hstream
      exact fits_headerBytes hi (rowExternal_iff.mp hstream.1).1 _
    · exact row.fits i hi hval

theorem rowSize_headedRow (hi : i < c.desc.natts) :
    rowSize (headedRow row) i = if isStream row i then sizeofBlobHeader else rowSize row i := by
  cases hstream : isStream row i with
  | false =>
    rw [if_neg Bool.false_ne_true]
    simp only [rowSize, Row.bytes, headedRow, hstream, if_neg, false_eq_true, not_false_iff]
  | true =>
    have hvalue : (headedRow row).value i = .pointer (StoredBlob.bytes ⟨0, itemPointerInvalid, 0⟩) := if_pos hstream
    rw [isStream, and_eq_true] at hstream
    have hlen := (c.external i hi (rowExternal_iff.mp hstream.1).1).1
    have hword : (c.desc.attrs i).inWord = false := by simp [FormPgAttribute.inWord, hlen]
    have hbytes : (headedRow row).bytes i = StoredBlob.bytes ⟨0, itemPointerInvalid, 0⟩ := by
      rw [Row.bytes, hvalue]
      simp only [attBytes, hword, hlen, false_eq_true, if_false, if_true]
      rw [varsize_headerBytes, ← length_headerBytes ⟨0, itemPointerInvalid, 0⟩, take_length]
    rw [if_pos rfl, rowSize, hbytes, length_headerBytes]

theorem Carried.rowSize_eq (hc : Carried S r row' []) (hi : i < c.desc.natts)
    (hval : row.nulls i = false) : rowSize row' i = rowSize (headedRow row) i := by
  rw [rowSize_headedRow hi]
  cases hext : rowExternal row i with
  | false =>
    rw [isStream, hext, Bool.false_and, if_neg Bool.false_ne_true, rowSize, hc.plain i hi hval hext]
    rfl
  | true =>
    cases hbuffered : isBuffered (row.bytes i) with
    | false =>
      rw [isStream, hext, hbuffered, Bool.and_false, if_neg Bool.false_ne_true, rowSize,
        hc.kept i hi hext hbuffered not_mem_nil]
      rfl
    | true =>
      obtain ⟨header, _, hbytes⟩ := hc.stream i hi hext hbuffered
      rw [isStream, hext, hbuffered, Bool.and_self, if_pos rfl, rowSize, hbytes, length_headerBytes]

/-- The attributes that `prioritize_blobs` gets to, if the tuple moves and is too long. -/
def InReach (c : SpanContext) (e : Surroundings) (row : Row c.desc) (newtup : HeapTuple) (i : Nat) : Prop :=
  samePage e newtup = false ∧ c.cfg.maxTupleSize < maxAlign (rowLength (headedRow row)) ∧
    i ∈ reached c.cfg (headedRow row)

theorem shortenTuple_carried (hw : w.Ok) (hnatts : c.desc.natts ≤ maxHeapAttributeNumber)
    (hrelid : ∀ i < c.desc.natts, c.storageOf (i+1 : Nat) < 2^64) (hc : Carried S r row' [])
    (hok : shortenTuple c fuel r = .ok r') :
    ∃ row'' done, Carried S r' row'' done ∧ ∀ i, i ∈ done ↔
      c.cfg.maxTupleSize < maxAlign (rowLength (headedRow row)) ∧ i ∈ reached c.cfg (headedRow row) := by
  have hsize : ∀ i < c.desc.natts, (headedRow row).nulls i = false →
      rowSize row' i = rowSize (headedRow row) i := fun i hi hval => hc.rowSize_eq hi hval
  have hlength : r.tuple.tLen = rowLength (headedRow row) := hc.formed.len.trans (rowLength_congr hc.nulls hsize)
  have hnulls : ∀ i < c.desc.natts, row'.nulls i = (headedRow row).nulls i := hc.nulls
  have hreach : reached c.cfg row' = reached c.cfg (headedRow row) :=
    congrArg Prod.fst (reachedUpTo_congr c.cfg hnulls hsize (le_rfl))
  unfold shortenTuple at hok
  rw [hlength] at hok
  split at hok
  · next hlarge =>
    split at hok
    · obtain ⟨row'', done, hcarried, hdone⟩ := storeTupleBlob_carried hw hnatts hrelid hc hok
      refine ⟨row'', done, hcarried, fun i => ?_⟩
      rw [hdone i, hreach]
      exact ⟨fun hi => ⟨hlarge, hi⟩, And.right⟩
    · cases hok
  · next hsmall =>
    cases hok
    refine ⟨row', [], hc, fun i => ⟨fun hi => absurd hi not_mem_nil, fun hi => ?_⟩⟩
    exact absurd hi.1 hsmall

section

variable (S : Sources c w row) (hw : w.Ok) (ht : heapFormtuple c.desc row.toValues = .ok t)
  (hrelid : ∀ i < c.desc.natts, c.storageOf (i+1 : Nat) < 2^64) {cache : OffsetCache}
  (hs : Sound c.desc cache)
include hw ht hrelid hs

theorem storeNewVersion_carried (hok : storeNewVersion c e fuel t w cache = .ok r) :
    ∃ row'' done, Carried S r row'' done ∧ ∀ i, i ∈ done ↔ InReach c e row t i := by
  unfold storeNewVersion at hok
  cases hsame : samePage e t with
  | true =>
    rw [hsame, if_pos rfl] at hok
    cases hok
    have hflag : t.hasBuffered = false := by
      unfold samePage at hsame
      simp only [and_eq_true, not_eq_true'] at hsame
      exact hsame.2
    refine ⟨row, [], carried_given S hw (formed_of_formtuple ht) hs
      fun i hi => isStream_of_flag ht hflag hi, fun i => ⟨fun hi => absurd hi not_mem_nil, fun hi => ?_⟩⟩
    exact Bool.noConfusion (hsame.symm.trans hi.1)
  | false =>
    rw [hsame, if_neg Bool.false_ne_true] at hok
    obtain ⟨r₁, hspan, hrest⟩ := bind_ok hok
    obtain ⟨r₂, hshorten, hplace⟩ := bind_ok hrest
    obtain ⟨row', hc⟩ := spanStreams_carried S hw ht hs hspan
    obtain ⟨row'', done, hcarried, hdone⟩ := shortenTuple_carried hw (natts_le_of_formtuple ht) hrelid hc hshorten
    split at hplace
    · cases hplace
    · cases hplace
      refine ⟨row'', done, hcarried, fun i => ?_⟩
      rw [hdone i]
      exact ⟨fun hi => ⟨hsame, hi⟩, And.right⟩

theorem heapUpdate_carried {old : Row c.desc} {oldtup : HeapTuple}
    (hold : Formed old oldtup) (hok : heapUpdate c e fuel oldtup t w cache = .ok r) :
    ∃ row'' done, Carried S r row'' done ∧ ∀ i, i ∈ done ↔ InReach c e row t i := by
  obtain ⟨r₁, hstore, hrest⟩ := bind_ok hok
  obtain ⟨row'', done, hc, hdone⟩ := storeNewVersion_carried S hw ht hrelid hs hstore
  split at hrest
  · obtain ⟨cache', hdelete, hsound⟩ := deleteTupleBlob_update hold hc.sound fuel r₁.stores r₁.tuple
    rw [hdelete] at hrest
    cases hrest
    exact ⟨row'', done, ⟨hc.toMarks, hc.formed, hsound, hc.nulls, hc.plain, hc.stream, hc.kept, hc.either,
      hc.moved⟩, hdone⟩
  · cases hrest
    exact ⟨row'', done, hc, hdone⟩

end

end

end WeaverDB.Blob
