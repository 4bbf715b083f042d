import Mathlib.Algebra.Order.BigOperators.Group.List
import WeaverDB.Blob.Spilled
import WeaverDB.Tuples.Replaced

/-! # Tuples with their blobs stored

`store_tuple_blob` puts the chosen blobs into segments and forms the tuple again with headers in their
place.
-/

namespace WeaverDB.Blob
open List Nat

open Foundations Tuples

variable {cache : OffsetCache} {p : Prior} {list : List Nat} {fuel : Nat} {content : List UInt8}
  {d : Datum} {cfg : Config}

/-! ## What the call is for -/

def Content (cfg : Config) (w : Stores) (a : FormPgAttribute) (d : Datum) (content : List UInt8) : Prop :=
  if a.attstorage = .external then BlobContent cfg w (attBytes a d) content
  else attBytes a d = content

section

variable {c : SpanContext} (row : Row c.desc)

def ReadsBack (w : Stores) (r : Spanned) : Prop :=
  ∀ i < c.desc.natts, (row.nulls i → (heapGetAttr c.desc r.tuple (i+1) r.cache).1 = none) ∧
    (row.nulls i = false → ∃ d, (heapGetAttr c.desc r.tuple (i+1) r.cache).1 = some d ∧
      ∀ content, Content c.cfg w (c.desc.attrs i) (row.value i) content →
        Content c.cfg r.stores (c.desc.attrs i) d content)

def sizedLength (size : Nat → Nat) : Nat :=
  headerSize c.desc.natts (row.hasNull c.desc.natts) + layoutSize c.desc row.nulls size c.desc.natts

def HeadersFit : Prop :=
  maxAlign (sizedLength row fun i => if rowExternal row i then sizeofBlobHeader else rowSize row i) ≤
    c.cfg.maxTupleSize

def reachedSize (i : Nat) : Nat :=
  if i ∈ reached c.cfg row ∧ rowSize row i ≠ varhdrsz then sizeofBlobHeader else rowSize row i

def ReachedFit : Prop := maxAlign (sizedLength row (reachedSize row)) ≤ c.cfg.maxTupleSize

/-- The call completes, the list is enough if any is, and the tuple reads as before. -/
def StoresBlobs (t : HeapTuple) (w : Stores) (cache : OffsetCache) : Prop :=
  ∃ fuel r p, storeTupleBlob c fuel t .size w cache = .ok r ∧
    prioritizeBlobs c t .size cache = some p ∧ (p.list.map BlobItem.attnum).Nodup ∧
    Descending p.list ∧ (HeadersFit row → maxAlign r.tuple.tLen ≤ c.cfg.maxTupleSize) ∧
    ReadsBack row w r

/-- The first attribute in reach is the largest, and those in reach are enough. -/
structure Spillable {row : Row c.desc} {w : Stores} (S : Sources c w row) : Prop where
  first : FirstLargest row (reached c.cfg row)
  enough : HeadersFit row → ReachedFit row
  small : ∀ i ∈ reached c.cfg row, isIndirect (row.bytes i) → (readBlobHeader (row.bytes i)).blobLength < 2^30
  apart : ∀ i ∈ reached c.cfg row, ∀ j < c.desc.natts, rowExternal row j →
    j ∉ reached c.cfg row → ∀ relid p, S.inSegment i relid p → ¬ S.inSegment j relid p

end

/-! ## The new tuple -/

section

variable {c : SpanContext} {w : Stores} {row row' : Row c.desc} {t : HeapTuple} {s : Spilled}
  {r : Spanned} {done : List Nat} {i : Nat}

variable {S : Sources c w row}

structure Rewritten (row : Row c.desc) (t : HeapTuple) (s : Spilled) (r : Spanned)
    (row' : Row c.desc) : Prop where
  stores : r.stores = s.stores
  sound : Sound c.desc r.cache
  formed : Formed row' r.tuple
  nulls : ∀ i < c.desc.natts, row'.nulls i = row.nulls i
  value : ∀ i < c.desc.natts, row.nulls i = false → row'.value i = replacedValue row t s.repl i

theorem hasNull_congr {desc : TupleDesc} {row row' : Row desc} (h : ∀ i < desc.natts, row'.nulls i = row.nulls i) :
    row'.hasNull desc.natts = row.hasNull desc.natts := by
  unfold Values.hasNull
  rw [Bool.eq_iff_iff, any_eq_true, any_eq_true]
  refine exists_congr fun i => and_congr_right fun hi => ?_
  rw [h i (mem_range.mp hi)]

theorem fits_headerBytes (hi : i < c.desc.natts) (hext : (c.desc.attrs i).attstorage = .external)
    (h : StoredBlob) : Fits (c.desc.attrs i) (.pointer h.bytes) := by
  obtain ⟨hlen, htype⟩ := c.external i hi hext
  refine ⟨by simp [FormPgAttribute.inWord, hlen], ?_⟩
  rw [if_pos hlen, varsize_headerBytes]
  refine ⟨by decide, le_rfl, fun hfixed => ?_⟩
  simp [varlenaFixedSize, htype] at hfixed

theorem Progress.repl_some (h : Progress S s done) (hd : s.repl i = some d) :
    i ∈ done ∧ S.content i ≠ [] ∧ ∃ h : StoredBlob, d = .pointer h.bytes := by
  have hmem : i ∈ done := by
    by_contra hout
    exact absurd (hd.symm.trans (h.skipped i hout)) nofun
  have hne : S.content i ≠ [] := by
    intro hnil
    exact absurd (hd.symm.trans (h.empty i hmem hnil)) nofun
  obtain ⟨header, _, hheader, _⟩ := h.stored i hmem hne
  exact ⟨hmem, hne, header, Option.some.inj (hd.symm.trans hheader)⟩

theorem formed_replacedTuple {new : HeapTuple} (ht : Formed row t) (hnew : Formed row' new)
    (hnulls : ∀ i < c.desc.natts, row'.nulls i = row.nulls i) : Formed row' (replacedTuple t new) := by
  have hnull_iff : t.hasNull ↔ new.hasNull := by
    rw [ht.null, hnew.null]
    exact exists_congr fun k => and_congr_right fun hk => by rw [hnulls k hk]
  have hvarlena_iff : t.hasVarlena ↔ new.hasVarlena := by
    rw [ht.varlena, hnew.varlena]
    exact exists_congr fun k => and_congr_right fun hk => by rw [hnulls k hk]
  unfold replacedTuple
  refine ⟨hnew.natts, hnew.len, ?_, fun hany => hnew.bit ?_, ?_, hnew.value⟩
  · rw [← hnew.null, Bool.or_eq_true, hnull_iff, or_self]
  · rwa [Bool.or_eq_true, hnull_iff, or_self] at hany
  · rw [← hnew.varlena, Bool.or_eq_true, hvarlena_iff, or_self]

theorem modifySpanned_spec (ht : Formed row t) (hnatts : c.desc.natts ≤ maxHeapAttributeNumber)
    (hrepl : ∀ i < c.desc.natts, ∀ d, s.repl i = some d →
      rowExternal row i ∧ ∃ h : StoredBlob, d = .pointer h.bytes) (hs : Sound c.desc cache) :
    ∃ r row', modifySpanned c t s cache = .ok r ∧ Rewritten row t s r row' := by
  have hnull : ∀ i < c.desc.natts, row.nulls i → s.repl i = none := by
    intro i hi hnull
    cases hd : s.repl i with
    | none => rfl
    | some d =>
      have hval := (rowExternal_iff.mp (hrepl i hi d hd).1).2
      exact absurd (hnull.symm.trans hval) nofun
  have hfits : ∀ i < c.desc.natts, ∀ d, s.repl i = some d → Fits (c.desc.attrs i) d := by
    intro i hi d hd
    obtain ⟨hext, header, rfl⟩ := hrepl i hi d hd
    exact fits_headerBytes hi (rowExternal_iff.mp hext).1 header
  obtain ⟨row', cache', hmodify, hsound', hnulls, hvalue⟩ := heapModifytuple_spec ht hnatts hnull hfits hs
  unfold modifySpanned
  rw [hmodify]
  exact ⟨_, row', rfl, rfl, hsound', formed_replacedTuple ht (formed_formTuple row') hnulls, hnulls, hvalue⟩

theorem rewritten (h : Progress S s done) (ht : Formed row t) (hnatts : c.desc.natts ≤ maxHeapAttributeNumber)
    (hdone : ∀ i ∈ done, i < c.desc.natts ∧ rowExternal row i)
    (hp : prioritizeBlobs c t .size cache = some p) (hsound : Sound c.desc p.cache)
    (hs : p.list.foldlM (storeItem c fuel) { stores := w, repl := fun _ => none, limit := 0 } = .ok s) :
    ∃ r row', storeTupleBlob c fuel t .size w cache = .ok r ∧ Rewritten row t s r row' := by
  have hrepl : ∀ i < c.desc.natts, ∀ d, s.repl i = some d →
      rowExternal row i ∧ ∃ h : StoredBlob, d = .pointer h.bytes := by
    intro i _ d hd
    obtain ⟨hmem, _, hheader⟩ := h.repl_some hd
    exact ⟨(hdone i hmem).2, hheader⟩
  obtain ⟨r, row', hmodify, hr⟩ := modifySpanned_spec ht hnatts hrepl hsound
  refine ⟨r, row', ?_, hr⟩
  unfold storeTupleBlob
  rw [hp]
  dsimp only
  rw [hs]
  exact hmodify

section

variable (hr : Rewritten row t s r row')
include hr

theorem Rewritten.bytes_kept (ht : Formed row t)
    (hi : i < c.desc.natts) (hval : row.nulls i = false) (hnone : s.repl i = none) :
    row'.bytes i = row.bytes i := by
  unfold Row.bytes
  rw [hr.value i hi hval, replacedValue, hnone]
  exact (ht.fetch hi hval).attBytes_eq

theorem Rewritten.bytes_header (hi : i < c.desc.natts)
    (hext : rowExternal row i) {h : StoredBlob} (hsome : s.repl i = some (.pointer h.bytes)) :
    row'.bytes i = h.bytes := by
  obtain ⟨hstorage, hval⟩ := rowExternal_iff.mp hext
  have hlen := (c.external i hi hstorage).1
  unfold Row.bytes
  rw [hr.value i hi hval, replacedValue, hsome]
  change attBytes (c.desc.attrs i) (.pointer h.bytes) = h.bytes
  simp only [attBytes, FormPgAttribute.inWord, hlen]
  rw [varsize_headerBytes, ← length_headerBytes h]
  simp

theorem Rewritten.read (hi : i < c.desc.natts) :
    (row.nulls i → (heapGetAttr c.desc r.tuple (i+1) r.cache).1 = none) ∧
    (row.nulls i = false → ∃ d, (heapGetAttr c.desc r.tuple (i+1) r.cache).1 = some d ∧
      attBytes (c.desc.attrs i) d = row'.bytes i) := by
  have hread := hr.formed.read hr.sound hi
  rwa [hr.nulls i hi] at hread

end

section

variable (hr : Rewritten row t s r row') (ht : Formed row t)
  (h : Progress S s done) (hdone : ∀ i, i ∈ done ↔ i ∈ reached c.cfg row)
include hr ht S h hdone

theorem Rewritten.size (hi : i < c.desc.natts) (hval : row.nulls i = false) : rowSize row' i = reachedSize row i := by
  unfold reachedSize
  by_cases hmem : i ∈ reached c.cfg row
  · obtain ⟨_, hext⟩ := mem_reachedUpTo hmem
    by_cases hnil : S.content i = []
    · have hkept : rowSize row' i = rowSize row i := by
        rw [rowSize, hr.bytes_kept ht hi hval (h.empty i ((hdone i).mpr hmem) hnil)]
        rfl
      rw [hkept]
      split
      · next hne =>
        cases hind : isIndirect (row.bytes i) with
        | true => exact (S.indirect i hi hext hind).1
        | false =>
          have hsize := S.length_direct hi hext hind
          rw [hnil] at hsize
          exact absurd hsize hne.2
      · rfl
    · obtain ⟨header, _, hheader, _⟩ := h.stored i ((hdone i).mpr hmem) hnil
      have hsize : rowSize row' i = sizeofBlobHeader := by
        rw [rowSize, hr.bytes_header hi hext hheader, length_headerBytes]
      have hne : rowSize row i ≠ varhdrsz := by
        intro heq
        cases hind : isIndirect (row.bytes i) with
        | true =>
          rw [(S.indirect i hi hext hind).1] at heq
          exact absurd heq (by decide)
        | false =>
          have hsize := S.length_direct hi hext hind
          exact hnil (length_eq_zero_iff.mp (Nat.right_eq_add.mp (heq.symm.trans hsize)))
      rw [hsize, if_pos ⟨hmem, hne⟩]
  · rw [if_neg fun hboth => hmem hboth.1, rowSize,
      hr.bytes_kept ht hi hval (h.skipped i fun hin => hmem ((hdone i).mp hin))]
    rfl

theorem Rewritten.length : r.tuple.tLen = sizedLength row (reachedSize row) := by
  rw [hr.formed.len, hasNull_congr hr.nulls, computeDataSize, dataSize_eq_layoutSize row' (le_rfl)]
  congr 1
  exact layoutSize_congr hr.nulls fun i hi hval => hr.size ht h hdone hi hval

end

/-! ## Reading the blobs back -/

theorem Content.external {a : FormPgAttribute} (ha : a.attstorage = .external) :
    Content cfg w a d content ↔ BlobContent cfg w (attBytes a d) content := by
  rw [Content, if_pos ha]

theorem BlobContent.of_header {h : StoredBlob} (he : h.Encodable) :
    BlobContent c.cfg w h.bytes content ↔ ∃ nodes, BlobAt c.cfg w h content nodes := by
  rw [BlobContent, if_pos (isIndirect_headerBytes h), readBlobHeader_bytes he]

theorem BlobAt.nodes_nil {h : StoredBlob} {nodes : List (ItemPointerData × List UInt8)}
    (hat : BlobAt cfg w h [] nodes) : nodes = [] := by
  cases nodes with
  | nil => rfl
  | cons n rest =>
    have hne := hat.segs.uncons.2.2.1
    have hflat := hat.flatten
    exact absurd (append_eq_nil_iff.mp hflat).1 hne

section

variable (hi : i < c.desc.natts) (hext : rowExternal row i)
include hi hext

theorem Sources.content_eq (S : Sources c w row) :
    BlobContent c.cfg w (row.bytes i) content ↔ content = S.content i := by
  unfold BlobContent
  cases hind : isIndirect (row.bytes i) with
  | true =>
    have hblob := (S.indirect i hi hext hind).2
    constructor
    · rintro ⟨nodes, hat⟩
      rw [← hat.flatten, hat.segs.det hblob.segs, hblob.flatten]
    · rintro rfl
      exact ⟨_, hblob⟩
  | false =>
    rw [S.direct i hi hext hind]
    exact eq_comm

theorem Progress.blobAt_iff (h : Progress S s done) (hind : isIndirect (row.bytes i)) :
    BlobContent c.cfg s.stores (row.bytes i) (S.content i) ↔
      ∀ relid p, S.inSegment i relid p → s.stores.xmax relid p = none := by
  have hblob := (S.indirect i hi hext hind).2
  have hkept := h.kept _ _ _ hblob.segs
  rw [BlobContent, if_pos hind]
  constructor
  · rintro ⟨nodes, hat⟩ relid p ⟨_, rfl, hp⟩
    obtain ⟨n, hn, rfl⟩ := mem_map.mp hp
    exact hat.live n (hkept.det hat.segs ▸ hn)
  · intro hlive
    refine ⟨S.nodes i, hkept, fun n hn => ?_, hblob.flatten, hblob.length⟩
    exact hlive _ _ ⟨hind, rfl, mem_map_of_mem hn⟩

theorem Progress.kept_iff (h : Progress S s done) : BlobContent c.cfg s.stores (row.bytes i) (S.content i) ↔
      ∀ k ∈ done, ∀ relid p, S.inSegment k relid p → ¬ S.inSegment i relid p := by
  cases hind : isIndirect (row.bytes i) with
  | true =>
    rw [h.blobAt_iff hi hext hind]
    constructor
    · intro hlive k hk relid p hkp hip
      exact absurd ((h.marked k hk relid p hkp).symm.trans (hlive relid p hip)) nofun
    · intro hapart relid p hp
      rw [h.unmarked relid p fun k hk hkp => hapart k hk relid p hkp hp]
      obtain ⟨_, rfl, hmem⟩ := hp
      obtain ⟨n, hn, rfl⟩ := mem_map.mp hmem
      exact (S.indirect i hi hext hind).2.live n hn
  | false =>
    rw [BlobContent, if_neg (by simp [hind])]
    refine ⟨fun _ k _ relid p _ hip => ?_, fun _ => S.direct i hi hext hind⟩
    exact absurd (hip.1.symm.trans hind) nofun

variable (hr : Rewritten row t s r row')
include hr

theorem Rewritten.moved (ht : Formed row t) (h : Progress S s done) (hmem : i ∈ done) :
    BlobContent c.cfg s.stores (row'.bytes i) (S.content i) := by
  by_cases hnil : S.content i = []
  · rw [hr.bytes_kept ht hi (rowExternal_iff.mp hext).2 (h.empty i hmem hnil)]
    cases hind : isIndirect (row.bytes i) with
    | true =>
      -- an empty blob has no segment that could have been deleted
      have hblob := (S.indirect i hi hext hind).2
      rw [hnil] at hblob
      rw [h.blobAt_iff hi hext hind]
      rintro relid p ⟨_, _, hp⟩
      rw [hblob.nodes_nil] at hp
      exact absurd hp not_mem_nil
    | false =>
      rw [BlobContent, if_neg (by simp [hind])]
      exact S.direct i hi hext hind
  · obtain ⟨header, nodes, hheader, hencodable, hat, _⟩ := h.stored i hmem hnil
    rw [hr.bytes_header hi hext hheader, BlobContent.of_header hencodable]
    exact ⟨nodes, hat⟩

theorem Rewritten.external_iff (S : Sources c w row) : (∃ d, (heapGetAttr c.desc r.tuple (i+1) r.cache).1 = some d ∧
      ∀ content, Content c.cfg w (c.desc.attrs i) (row.value i) content →
        Content c.cfg r.stores (c.desc.attrs i) d content) ↔
      BlobContent c.cfg s.stores (row'.bytes i) (S.content i) := by
  obtain ⟨hstorage, hval⟩ := rowExternal_iff.mp hext
  obtain ⟨d, hread, hbytes⟩ := (hr.read hi).2 hval
  constructor
  · rintro ⟨d', hread', hcontent⟩
    obtain rfl := Option.some.inj (hread.symm.trans hread')
    have hsame := hcontent (S.content i) ((Content.external hstorage).mpr ((S.content_eq hi hext).mpr rfl))
    rw [Content.external hstorage, hbytes, hr.stores] at hsame
    exact hsame
  · intro hblob
    refine ⟨d, hread, fun content hcontent => ?_⟩
    obtain rfl := (S.content_eq hi hext).mp ((Content.external hstorage).mp hcontent)
    rw [Content.external hstorage, hbytes, hr.stores]
    exact hblob

end

theorem Rewritten.plain (hr : Rewritten row t s r row') (ht : Formed row t)
    (h : Progress S s done) (hdone : ∀ i ∈ done, rowExternal row i) (hi : i < c.desc.natts)
    (hval : row.nulls i = false) (hplain : (c.desc.attrs i).attstorage ≠ .external) :
    ∃ d, (heapGetAttr c.desc r.tuple (i+1) r.cache).1 = some d ∧
      ∀ content, Content c.cfg w (c.desc.attrs i) (row.value i) content →
        Content c.cfg r.stores (c.desc.attrs i) d content := by
  obtain ⟨d, hread, hbytes⟩ := (hr.read hi).2 hval
  refine ⟨d, hread, fun content hcontent => ?_⟩
  have hnone : s.repl i = none := h.skipped i fun hmem => hplain (rowExternal_iff.mp (hdone i hmem)).1
  rw [Content, if_neg hplain] at hcontent ⊢
  rw [hbytes, hr.bytes_kept ht hi hval hnone]
  exact hcontent

theorem Rewritten.readsBack_iff (hr : Rewritten row t s r row') (ht : Formed row t) (h : Progress S s done)
    (hdone : ∀ i, i ∈ done ↔ i ∈ reached c.cfg row) :
    ReadsBack row w r ↔ ∀ i ∈ reached c.cfg row, ∀ j < c.desc.natts, rowExternal row j →
      j ∉ reached c.cfg row → ∀ relid p, S.inSegment i relid p → ¬ S.inSegment j relid p := by
  have hkept : ∀ j < c.desc.natts, rowExternal row j → j ∉ reached c.cfg row → row'.bytes j = row.bytes j := by
    intro j hj hext hout
    exact hr.bytes_kept ht hj (rowExternal_iff.mp hext).2 (h.skipped j fun hin => hout ((hdone j).mp hin))
  constructor
  · intro hreads i hmem j hj hext hout
    have hcontent := (hr.external_iff hj hext S).mp ((hreads j hj).2 (rowExternal_iff.mp hext).2)
    rw [hkept j hj hext hout] at hcontent
    exact (h.kept_iff hj hext).mp hcontent i ((hdone i).mpr hmem)
  · intro hapart i hi
    refine ⟨(hr.read hi).1, fun hval => ?_⟩
    by_cases hstorage : (c.desc.attrs i).attstorage = .external
    · have hext := rowExternal_iff.mpr ⟨hstorage, hval⟩
      rw [hr.external_iff hi hext S]
      by_cases hmem : i ∈ reached c.cfg row
      · exact hr.moved hi hext ht h ((hdone i).mpr hmem)
      · rw [hkept i hi hext hmem, h.kept_iff hi hext]
        exact fun k hk => hapart k ((hdone k).mp hk) i hi hext hmem
    · exact hr.plain ht h (fun k hk => (mem_reachedUpTo ((hdone k).mp hk)).2) hi hval hstorage

end

/-! ## The call -/

section

variable {c : SpanContext} {w : Stores} {row : Row c.desc} {t : HeapTuple} {S : Sources c w row}

def Room (S : Sources c w row) : Prop :=
  ∀ relid, (((List.range c.desc.natts).filter (rowExternal row)).map fun i =>
    (S.content i).length).sum ≤ (w.rels relid).room.length

theorem sum_le_of_nodup {f : Nat → Nat} {all : List Nat} (hnodup : list.Nodup)
    (hsub : ∀ i ∈ list, i ∈ all) : (list.map f).sum ≤ (all.map f).sum := by
  obtain ⟨part, hperm, hpart⟩ := subperm_of_subset hnodup hsub
  rw [← (hperm.map f).sum_eq]
  exact (hpart.map f).sum_le_sum fun _ _ => zero_le _

theorem Room.reached (h : Room S) (hperm : list.Perm (reached c.cfg row)) (relid : Nat) :
    (list.map fun i => (S.content i).length).sum ≤ (w.rels relid).room.length := by
  refine le_trans (sum_le_of_nodup (hperm.nodup_iff.mpr (nodup_reachedUpTo _)) ?_) (h relid)
  intro i hi
  obtain ⟨hlt, hext⟩ := mem_reachedUpTo (hperm.mem_iff.mp hi)
  exact mem_filter.mpr ⟨mem_range.mpr hlt, hext⟩

theorem prioritizeBlobs_spec (ht : Formed row t) (hs : Sound c.desc cache) :
    match prioritizeBlobs c t .size cache with
    | some p => Listed row t p c.desc.natts ∧ FirstLargest row (reached c.cfg row)
    | none => ¬ FirstLargest row (reached c.cfg row) :=
  prioritize_upTo ht hs (le_rfl)

theorem firstLargest_of_some (ht : Formed row t) (hs : Sound c.desc cache)
    (hp : prioritizeBlobs c t .size cache = some p) : FirstLargest row (reached c.cfg row) := by
  have hprior := prioritizeBlobs_spec ht hs
  rw [hp] at hprior
  exact hprior.2

theorem Listed.nodup (h : Listed row t p c.desc.natts) : (p.list.map BlobItem.attnum).Nodup := by
  obtain ⟨list, hperm, hlist⟩ := h.attributes
  rw [hlist, map_map]
  have hinj : Function.Injective (BlobItem.attnum ∘ itemOf row t) := fun a b hab => by
    exact Nat.succ.inj hab
  exact (hperm.nodup_iff.mpr (nodup_reachedUpTo _)).map hinj

theorem storeTupleBlob_rewritten (hw : w.Ok) (ht : Formed row t)
    (hnatts : c.desc.natts ≤ maxHeapAttributeNumber) (hroom : Room S)
    (hp : prioritizeBlobs c t .size cache = some p) (hlisted : Listed row t p c.desc.natts)
     (hperm : list.Perm (reached c.cfg row))
    (hlist : p.list = list.map (itemOf row t)) (hstorable : Storable S fuel list) :
    ∃ r s row', storeTupleBlob c fuel t .size w cache = .ok r ∧ Progress S s list.reverse ∧
      Rewritten row t s r row' := by
  have hnodup : (list ++ []).Nodup := by
    rw [append_nil]
    exact hperm.nodup_iff.mpr (nodup_reachedUpTo _)
  obtain ⟨s, hrun, hprogress⟩ := (progress_start S hw).run hw ht list hstorable hnodup (hroom.reached hperm)
  rw [← hlist] at hrun
  rw [append_nil] at hprogress
  have hdone : ∀ i ∈ list.reverse, i < c.desc.natts ∧ rowExternal row i :=
    fun i hi => hstorable.external i (mem_reverse.mp hi)
  obtain ⟨r, row', hstore, hr⟩ := rewritten hprogress ht hnatts hdone hp hlisted.sound hrun
  exact ⟨r, s, row', hstore, hprogress, hr⟩

theorem storeTupleBlob_run {r : Spanned}
    (hp : prioritizeBlobs c t .size cache = some p) (hok : storeTupleBlob c fuel t .size w cache = .ok r) :
    ∃ s, p.list.foldlM (storeItem c fuel) { stores := w, repl := fun _ => none, limit := 0 } = .ok s := by
  unfold storeTupleBlob at hok
  rw [hp] at hok
  dsimp only at hok
  cases hrun : p.list.foldlM (storeItem c fuel) { stores := w, repl := fun _ => none, limit := 0 } with
  | ok s => exact ⟨s, rfl⟩
  | error e =>
    rw [hrun] at hok
    exact absurd hok nofun

/-- The call does what it is for exactly on spillable tuples. -/
theorem storeTupleBlob_iff (c : SpanContext) (row : Row c.desc) (calls : List (Call c.desc))
    (t : HeapTuple) (ht : heapFormtuple c.desc row.toValues = .ok t) (w : Stores) (hw : w.Ok)
    (S : Sources c w row) (hseen : ∀ i < c.desc.natts, rowExternal row i → S.Seen i)
    (hrelid : ∀ i < c.desc.natts, c.storageOf (i+1 : Nat) < 2^64) (hroom : Room S) :
    StoresBlobs row t w (calls.foldl (cacheAfter c.desc) OffsetCache.fresh) ↔ Spillable S := by
  have hformed := formed_of_formtuple ht
  have hnatts := natts_le_of_formtuple ht
  have hsound := sound_calls calls
  have hprior := prioritizeBlobs_spec hformed hsound
  have hreach : ∀ list : List Nat, list.Perm (reached c.cfg row) →
      ∀ i, i ∈ list.reverse ↔ i ∈ reached c.cfg row :=
    fun list hperm i => mem_reverse.trans hperm.mem_iff
  constructor
  · rintro ⟨fuel, r, p, hstore, hp, _, _, hfit, hreads⟩
    rw [hp] at hprior
    obtain ⟨hlisted, hfirst⟩ := hprior
    obtain ⟨list, hperm, hlist⟩ := hlisted.attributes
    obtain ⟨s, hrun⟩ := storeTupleBlob_run hp hstore
    have hmem : ∀ i ∈ list, i < c.desc.natts ∧ rowExternal row i :=
      fun i hi => mem_reachedUpTo (hperm.mem_iff.mp hi)
    have hnodup : (list ++ []).Nodup := by
      rw [append_nil]
      exact hperm.nodup_iff.mpr (nodup_reachedUpTo _)
    have hstorable : Storable S fuel list :=
      (progress_start S hw).storable hw hformed list hmem
        (fun i hi => hseen i (hmem i hi).1 (hmem i hi).2) (fun i hi => hrelid i (hmem i hi).1) hnodup
        (hroom.reached hperm) (hlist ▸ hrun)
    obtain ⟨r', s', row', hstore', hprogress, hr⟩ :=
      storeTupleBlob_rewritten hw hformed hnatts hroom hp hlisted hperm hlist hstorable
    obtain rfl := Except.ok.inj (hstore.symm.trans hstore')
    refine ⟨hfirst, fun hheaders => ?_, fun i hi hind => ?_,
      (hr.readsBack_iff hformed hprogress (hreach list hperm)).mp hreads⟩
    · rw [ReachedFit, ← hr.length hformed hprogress (hreach list hperm)]
      exact hfit hheaders
    · exact lt_succ_of_le (hstorable.small i (hperm.mem_iff.mpr hi) hind)
  · intro hspill
    cases hp : prioritizeBlobs c t .size (calls.foldl (cacheAfter c.desc) OffsetCache.fresh) with
    | none =>
      rw [hp] at hprior
      exact absurd hspill.first hprior
    | some p =>
      rw [hp] at hprior
      obtain ⟨hlisted, _⟩ := hprior
      obtain ⟨list, hperm, hlist⟩ := hlisted.attributes
      have hmem : ∀ i ∈ list, i < c.desc.natts ∧ rowExternal row i :=
        fun i hi => mem_reachedUpTo (hperm.mem_iff.mp hi)
      have hstorable : Storable S (list.map fun i => (S.nodes i).length).sum list :=
        { external := hmem
          small := fun i hi hind => le_of_lt_succ (hspill.small i (hperm.mem_iff.mp hi) hind)
          fuel := fun i hi _ => single_le_sum (fun _ _ => zero_le _) _ (mem_map_of_mem hi)
          seen := fun i hi => hseen i (hmem i hi).1 (hmem i hi).2
          relid := fun i hi => hrelid i (hmem i hi).1 }
      obtain ⟨r, s, row', hstore, hprogress, hr⟩ :=
        storeTupleBlob_rewritten hw hformed hnatts hroom hp hlisted hperm hlist hstorable
      refine ⟨_, r, p, hstore, hp, hlisted.nodup, hlisted.descending, fun hheaders => ?_, ?_⟩
      · rw [hr.length hformed hprogress (hreach list hperm)]
        exact hspill.enough hheaders
      · exact (hr.readsBack_iff hformed hprogress (hreach list hperm)).mpr hspill.apart

end

/-! ## Tuples of blobs of zeros -/

section

def zeros (n : Nat) : List UInt8 := leBytes 4 (n+4) ++ List.replicate n 0

theorem take_zeros (n : Nat) : (zeros n).take 4 = leBytes 4 (n+4) := by
  rw [zeros, take_append_of_le_length (by rw [length_leBytes]), take_of_length_le]
  rw [length_leBytes]

theorem length_zeros (n : Nat) : (zeros n).length = n+4 := by
  rw [zeros, length_append, length_leBytes, length_replicate, add_comm]

theorem varsize_zeros {n : Nat} (h : n + 4 < 2^30) : varsize (zeros n) = n+4 := by
  rw [varsize, take_zeros, leValue_leBytes_of_lt (h.trans (by decide)), mod_eq_of_lt h]

theorem isIndirect_zeros {n : Nat} (h : n + 4 < 2^30) : isIndirect (zeros n) = false := by
  rw [isIndirect, take_zeros, leValue_leBytes_of_lt (h.trans (by decide))]
  exact testBit_lt_two_pow (h.trans (by decide))

def blobAttribute : FormPgAttribute :=
  { atttypid := 1803, attlen := -1, atttypmod := -1, attbyval := false, attalign := .int,
    attstorage := .external }

def blobDesc (natts : Nat) : TupleDesc := ⟨natts, fun _ => blobAttribute, fun _ _ => ⟨by decide, by decide, by decide⟩⟩

def blobContext (natts : Nat) : SpanContext where
  cfg := { segmentsOfFour with blobsegments := none }
  desc := blobDesc natts
  relid := 1
  storageOf _ := 1
  xid := 7
  seen _ _ := true
  external _ _ _ := ⟨rfl, show blobAttribute.atttypid ≠ bpcharOid by decide⟩

def zerosRow (n : Nat → Nat) (h : ∀ i, n i + 4 < 2^30) : Row (blobContext 2).desc where
  value i := .pointer (zeros (n i))
  nulls _ := false
  fits i _ _ := by
    change _ ∧ 4 ≤ varsize (zeros (n i)) ∧ varsize (zeros (n i)) ≤ (zeros (n i)).length ∧ _
    rw [varsize_zeros (h i), length_zeros]
    exact ⟨rfl, by omega, le_rfl, nofun⟩

variable {n : Nat → Nat} {h : ∀ i, n i + 4 < 2^30}

theorem bytes_zerosRow (i : Nat) : (zerosRow n h).bytes i = zeros (n i) := by
  change (zeros (n i)).take (varsize (zeros (n i))) = zeros (n i)
  rw [varsize_zeros (h i), ← length_zeros, take_length]

theorem rowSize_zerosRow (i : Nat) : rowSize (zerosRow n h) i = n i + 4 := by
  rw [rowSize, bytes_zerosRow, length_zeros]

theorem isIndirect_zerosRow (i : Nat) : isIndirect ((zerosRow n h).bytes i) = false := by
  rw [bytes_zerosRow, isIndirect_zeros (h i)]

theorem sizedLength_zerosRow (size : Nat → Nat) :
    sizedLength (zerosRow n h) size = 48 + (typeAlign 4 (size 0) + size 1) := by
  change headerSize 2 false + (typeAlign 4 (typeAlign 4 0 + size 0) + size 1) = _
  rw [show typeAlign 4 0 = 0 from rfl, zero_add]
  rfl

theorem rowLength_zerosRow : rowLength (zerosRow n h) = sizedLength (zerosRow n h) fun i => n i + 4 := by
  rw [rowLength, computeDataSize, dataSize_eq_layoutSize _ (le_rfl), sizedLength]
  exact congrArg (_ + ·) (layoutSize_congr (fun _ _ => rfl) fun i _ _ => rowSize_zerosRow i)

def placesFor (n : Nat) : Stores where
  rels _ := { items := fun _ => none, room := (List.range n).map fun i => ⟨i, 1⟩ }
  xmax _ _ := none

theorem placesFor_ok {n : Nat} (h : n < 2^48) : (placesFor n).Ok where
  ready _ :=
    { nodup := nodup_range.map fun _ _ heq => congrArg SharedInval.ItemPointerData.ipBlkid heq
      valid := fun p hp => by
        obtain ⟨i, _, rfl⟩ := mem_map.mp hp
        rfl
      free := fun _ _ => rfl }
  fresh _ _ _ := rfl
  bounded _ p hp := by
    obtain ⟨i, hi, rfl⟩ := mem_map.mp hp
    exact ⟨(mem_range.mp hi).trans h, show 1 < 2^16 by decide⟩

def zerosSources (n : Nat → Nat) (h : ∀ i, n i + 4 < 2^30) (w : Stores) : Sources (blobContext 2) w (zerosRow n h) where
  content i := List.replicate (n i) 0
  nodes _ := []
  direct i _ _ _ := by
    rw [bytes_zerosRow, zeros, drop_left' (show (leBytes 4 (n i + 4)).length = varhdrsz from length_leBytes _ _)]
  indirect i _ _ hind := absurd ((isIndirect_zerosRow i).symm.trans hind) nofun

theorem reached_zerosRow (hlarge : 8040 ≤ n 0 + n 1) : reached (blobContext 2).cfg (zerosRow n h) = [0, 1] := by
  have hlength : 8096 ≤ rowLength (zerosRow n h) := by
    rw [rowLength_zerosRow, sizedLength_zerosRow]
    unfold typeAlign
    omega
  have hfits : fitsTuple (blobContext 2).cfg (maxAlign (rowLength (zerosRow n h)) : Nat) = false := by
    have hmax : (blobContext 2).cfg.maxTupleSize = 8096 := rfl
    rw [fitsTuple, decide_eq_false_iff_not]
    unfold maxAlign typeAlign
    omega
  have hstart : reachedUpTo (blobContext 2).cfg (zerosRow n h) 0 =
      ([], ((maxAlign (rowLength (zerosRow n h)) : Nat) : Int)) := rfl
  have hone : reachedUpTo (blobContext 2).cfg (zerosRow n h) 1 =
      ([0], ((maxAlign (rowLength (zerosRow n h)) : Nat) : Int)) := by
    rw [reachedUpTo_succ, hstart, reachStep, hfits]
    rfl
  rw [reached, show (blobContext 2).desc.natts = 1 + 1 from rfl, reachedUpTo_succ, hone, reachStep, hfits]
  rfl

theorem spillable_zerosRow (hlarge : 8040 ≤ n 0 + n 1) (hfirst : n 1 < n 0) (hsome : 0 < n 1) (w : Stores) :
    Spillable (zerosSources n h w) where
  first := by
    rw [reached_zerosRow hlarge]
    rintro first rest heq i hi
    obtain ⟨rfl, rfl⟩ := List.cons.inj heq
    rw [mem_singleton.mp hi, rowSize_zerosRow, rowSize_zerosRow]
    omega
  enough _ := by
    have hsize : ∀ i ∈ [0, 1], reachedSize (zerosRow n h) i = 32 := by
      intro i hi
      rw [reachedSize, reached_zerosRow hlarge, rowSize_zerosRow]
      refine if_pos ⟨hi, fun heq => ?_⟩
      have hzero : n i = 0 := Nat.add_right_cancel (heq.trans (zero_add varhdrsz).symm)
      obtain rfl | hi := mem_cons.mp hi
      · omega
      · rw [mem_singleton.mp hi] at hzero
        omega
    rw [ReachedFit, sizedLength_zerosRow, hsize 0 (.head _), hsize 1 (.tail _ (.head _))]
    exact show maxAlign 112 ≤ 8096 by decide
  small i _ hind := absurd ((isIndirect_zerosRow i).symm.trans hind) nofun
  apart i _ j hj _ hout := by
    rw [reached_zerosRow hlarge] at hout
    have hmem : j ∈ List.range 2 := mem_range.mpr hj
    exact absurd hmem hout

theorem room_zerosRow : Room (zerosSources n h (placesFor (n 0 + n 1))) := by
  intro relid
  change (List.replicate (n 0) (0 : UInt8)).length + ((List.replicate (n 1) (0 : UInt8)).length + 0) ≤
    ((List.range (n 0 + n 1)).map _).length
  rw [length_map, length_range, length_replicate, length_replicate, add_zero]

/-- Two blobs, of 6000 and of 5000 bytes. -/
theorem storeTupleBlob_iff_two_blobs : StoresBlobs (zerosRow (fun i => 6000 - 1000 * i) (fun _ => by omega))
      (formTuple (blobDesc 2) (zerosRow (fun i => 6000 - 1000 * i) (fun _ => by omega)).toValues)
      (placesFor 11000) OffsetCache.fresh := by
  have h : ∀ i, 6000 - 1000 * i + 4 < 2^30 := fun _ => by omega
  exact (storeTupleBlob_iff (blobContext 2) (zerosRow _ h) [] _ rfl (placesFor 11000)
    (placesFor_ok (by decide)) (zerosSources _ h _)
    (fun _ _ _ _ _ hn => absurd hn not_mem_nil) fun _ _ => show 1 < 2^64 by decide
    room_zerosRow).mpr (spillable_zerosRow (by decide) (by decide) (by decide) _)

/-- The second of two blobs of 5000 bytes is not smaller: there is no item to put it behind. -/
theorem storeTupleBlob_two_blobs : ¬ StoresBlobs (zerosRow (fun _ => 5000) fun _ => by decide)
      (formTuple (blobDesc 2) (zerosRow (fun _ => 5000) fun _ => by decide).toValues) (placesFor 10000)
      OffsetCache.fresh := by
  rintro ⟨_, _, p, _, hp, _⟩
  have hfirst := firstLargest_of_some (formed_formTuple (zerosRow (fun _ => 5000) fun _ => by decide))
    (sound_calls []) hp
  rw [reached_zerosRow (by decide)] at hfirst
  have hless := hfirst 0 [1] rfl 1 (mem_singleton.mpr rfl)
  exact absurd hless (lt_irrefl _)

end

end WeaverDB.Blob
