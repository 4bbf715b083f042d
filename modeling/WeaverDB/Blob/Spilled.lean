import WeaverDB.Blob.Prioritized
import WeaverDB.Blob.ReadPipeline

/-! # What moving the blobs does

The blobs of a tuple are given by `Sources`. Storing an item leaves a blob with its bytes in new places;
if it was in segments, these are marked (`Progress`).
-/

namespace WeaverDB.Blob
open Foundations List Nat Function Tuples

variable {n fuel relid size k : Nat} {s' : Spilled} {h : StoredBlob}

/-! ## Headers -/

structure StoredBlob.Encodable (h : StoredBlob) : Prop where
  length : h.blobLength < 2^64
  block : h.forwardPointer.ipBlkid < 2^48
  offset : h.forwardPointer.ipPosid < 2^16
  relid : h.relid < 2^64

theorem length_headerBytes (h : StoredBlob) : h.bytes.length = sizeofBlobHeader := by
  rfl

theorem take_headerBytes (h : StoredBlob) : h.bytes.take 4 = leBytes 4 (sizeofBlobHeader + 2^31) := by
  exact take_left' (length_leBytes 4 _)

theorem varsize_headerBytes (h : StoredBlob) : varsize h.bytes = sizeofBlobHeader := by
  rw [varsize, take_headerBytes]
  rfl

theorem isIndirect_headerBytes (h : StoredBlob) : isIndirect h.bytes := by
  rw [isIndirect, take_headerBytes]
  decide

theorem leValue_leBytes_of_lt (h : n < 256^k) : leValue (leBytes k n) = n := by
  rw [leValue_leBytes, mod_eq_of_lt h]

theorem readAt_field (k n pos : Nat) (before rest : List UInt8) (h : before.length = pos) :
    readAt (before ++ (leBytes k n ++ rest)) pos k = leBytes k n := by
  rw [readAt_skip before (q := 0) _ k (by omega)]
  exact readAt_here _ _ (length_leBytes k n)

theorem readBlobHeader_place (hblock : h.forwardPointer.ipBlkid < 2^48)
    (hoffset : h.forwardPointer.ipPosid < 2^16) (hrelid : h.relid < 2^64) :
    (readBlobHeader h.bytes).forwardPointer = h.forwardPointer ∧ (readBlobHeader h.bytes).relid = h.relid := by
  have hpointer : readAt h.bytes 16 8 = leBytes 8 (pointerWord h.forwardPointer) := by
    rw [StoredBlob.bytes, ← append_assoc (leBytes 4 (sizeofBlobHeader + 2^31)),
      ← append_assoc (leBytes 4 (sizeofBlobHeader + 2^31) ++ leBytes 4 0)]
    exact readAt_field 8 _ _ _ _ (by simp [length_leBytes])
  have hfield : readAt h.bytes 24 8 = leBytes 8 h.relid := by
    have hlast := readAt_field 8 h.relid 24 (leBytes 4 (sizeofBlobHeader + 2^31) ++ leBytes 4 0 ++
      leBytes 8 h.blobLength ++ leBytes 8 (pointerWord h.forwardPointer)) []
      (by simp [length_leBytes])
    rw [append_nil, append_assoc, append_assoc, append_assoc] at hlast
    exact hlast
  have hword : pointerWord h.forwardPointer < 256^8 := by
    unfold pointerWord
    omega
  have hblk : pointerWord h.forwardPointer / 2^16 = h.forwardPointer.ipBlkid := by
    unfold pointerWord
    omega
  have hpos : pointerWord h.forwardPointer % 2^16 = h.forwardPointer.ipPosid := by
    unfold pointerWord
    omega
  unfold readBlobHeader
  rw [hpointer, hfield, leValue_leBytes_of_lt hword, leValue_leBytes_of_lt hrelid, hblk, hpos]
  exact ⟨rfl, rfl⟩

theorem readBlobHeader_bytes (he : h.Encodable) : readBlobHeader h.bytes = h := by
  obtain ⟨hpointer, hrelid⟩ := readBlobHeader_place he.block he.offset he.relid
  have hfield : readAt h.bytes 8 8 = leBytes 8 h.blobLength := by
    rw [StoredBlob.bytes, ← append_assoc (leBytes 4 (sizeofBlobHeader + 2^31))]
    exact readAt_field 8 _ _ _ _ (by simp [length_leBytes])
  have hlength : (readBlobHeader h.bytes).blobLength = h.blobLength := by
    unfold readBlobHeader
    rw [hfield, leValue_leBytes_of_lt he.length]
  exact StoredBlob.ext hlength hpointer hrelid

/-! ## Blobs in segments -/

structure BlobAt (cfg : Config) (w : Stores) (h : StoredBlob) (content : List UInt8)
    (nodes : List (ItemPointerData × List UInt8)) : Prop where
  segs : Segs cfg.sizeofMaxTupleBlob (w.rels h.relid) h.forwardPointer nodes
  live : ∀ n ∈ nodes, w.xmax h.relid n.1 = none
  flatten : (nodes.map Prod.snd).flatten = content
  length : h.blobLength = content.length+varhdrsz

def BlobContent (cfg : Config) (w : Stores) (bytes content : List UInt8) : Prop :=
  if isIndirect bytes then ∃ nodes, BlobAt cfg w (readBlobHeader bytes) content nodes
  else bytes.drop varhdrsz = content

section

variable {cfg : Config} {rel : BlobRelation} {nodes : List (ItemPointerData × List UInt8)}
  {link : ItemPointerData}

theorem Segs.length_le (h : Segs size rel link nodes) : nodes.length ≤ (nodes.map Prod.snd).flatten.length := by
  induction nodes generalizing link with
  | nil => exact le_rfl
  | cons n rest ih =>
    obtain ⟨_, _, hne, _, next, _, hrest⟩ := h.uncons
    have hpos := length_pos_iff.mpr hne
    have hprev := ih hrest
    rw [map_cons, flatten_cons, length_append, length_cons]
    omega

theorem rebuildLoop_ok {seen : ItemPointerData → Bool} (fuel left : Nat)
    (h : Segs cfg.sizeofMaxTupleBlob rel link nodes) (hseen : ∀ n ∈ nodes, seen n.1)
    (hfuel : nodes.length ≤ fuel) (hleft : (nodes.map Prod.snd).flatten.length ≤ left) :
    rebuildLoop cfg rel seen fuel link left = .ok (nodes.map Prod.snd).flatten := by
  induction nodes generalizing link fuel left with
  | nil =>
    have hinvalid := h.invalid_of_nil
    cases fuel <;> simp [rebuildLoop, hinvalid]
  | cons n rest ih =>
    obtain ⟨hn, hvalid, hne, hsize, next, hcell, hrest⟩ := h.uncons
    obtain ⟨hseen', hseenrest⟩ := forall_mem_cons.mp hseen
    have hpos := length_pos_iff.mpr hne
    rw [map_cons, flatten_cons, length_append] at hleft
    cases fuel with
    | zero => exact absurd hfuel (not_succ_le_zero _)
    | succ fuel =>
      have hget := getSegment_eq cfg (hn ▸ hseen') hcell hsize left
      rw [if_neg (by omega)] at hget
      have htail := ih fuel (left-n.2.length) hrest hseenrest (le_of_succ_le_succ hfuel) (by omega)
      rw [rebuildLoop, if_pos hvalid, hget]
      dsimp only
      rw [if_neg (by omega), if_neg (by omega), htail]
      rfl

def Stores.marked (w : Stores) (relid xid : Nat) (nodes : List (ItemPointerData × List UInt8)) :
    Stores :=
  nodes.foldl (fun w n => w.mark relid n.1 xid) w

theorem deleteBlobSegments_eq (relid xid fuel : Nat) (link : ItemPointerData) (w : Stores) :
    deleteBlobSegments relid xid fuel link w = ((walk (w.rels relid).cell itemPointerIsValid (fuel+1) link).map
        (w.marked relid xid)).elim (.error .endless) .ok := by
  induction fuel generalizing link w with
  | zero =>
    rw [deleteBlobSegments, walk]
    split
    · cases (w.rels relid).cell link <;> rfl
    · rfl
  | succ fuel ih =>
    by_cases hvalid : itemPointerIsValid link
    · rw [deleteBlobSegments, if_pos hvalid]
      cases hitem : (w.rels relid).items link with
      | none => rw [walk_stuck hvalid (congrArg (Option.map _) hitem)]; rfl
      | some segment =>
        have hcell : (w.rels relid).cell link = some (segment.data, segment.forward) := congrArg (Option.map _) hitem
        rw [walk, if_pos hvalid, hcell]
        dsimp only
        rw [ih, Option.map_map]
        rfl
    · rw [deleteBlobSegments, if_neg hvalid, walk, if_neg hvalid]
      rfl

theorem Segs.walk (h : Segs size rel link nodes) (fuel : Nat) :
    walk rel.cell itemPointerIsValid fuel link = some nodes ↔ nodes.length < fuel :=
  (walk_iff fuel).trans (and_iff_left ⟨_, h.chain, h.valid, rfl⟩)

theorem deleteBlobSegments_ok {w : Stores} (xid : Nat)
    (h : Segs cfg.sizeofMaxTupleBlob (w.rels relid) link nodes) (hfuel : nodes.length ≤ fuel) :
    deleteBlobSegments relid xid fuel link w = .ok (w.marked relid xid nodes) := by
  rw [deleteBlobSegments_eq, (h.walk _).mpr (lt_succ_of_le hfuel)]
  rfl

theorem walk_of_deleteBlobSegments {w w' : Stores} {xid : Nat}
    (hok : deleteBlobSegments relid xid fuel link w = .ok w') :
    ∃ nodes, walk (w.rels relid).cell itemPointerIsValid (fuel+1) link = some nodes ∧
      w' = w.marked relid xid nodes := by
  rw [deleteBlobSegments_eq] at hok
  cases hwalk : walk (w.rels relid).cell itemPointerIsValid (fuel+1) link with
  | none => rw [hwalk] at hok; cases hok
  | some nodes => rw [hwalk] at hok; exact ⟨nodes, rfl, (Except.ok.inj hok).symm⟩

theorem deleteBlobSegments_fuel {w w' : Stores} {xid : Nat} (h : Segs cfg.sizeofMaxTupleBlob (w.rels relid) link nodes)
    (hok : deleteBlobSegments relid xid fuel link w = .ok w') : nodes.length ≤ fuel := by
  obtain ⟨nodes', hwalk, -⟩ := walk_of_deleteBlobSegments hok
  -- with enough fuel for both the walk gives both
  obtain ⟨hfuel, hchain⟩ := (walk_iff _).mp hwalk
  have hmore := (walk_iff (nodes.length + nodes'.length + 1)).mpr ⟨by omega, hchain⟩
  rw [(h.walk _).mpr (by omega), Option.some_inj] at hmore
  exact hmore ▸ le_of_lt_succ hfuel

theorem rels_marked (w : Stores) (relid xid : Nat) (nodes : List (ItemPointerData × List UInt8)) :
    (w.marked relid xid nodes).rels = w.rels := by
  induction nodes generalizing w with
  | nil => rfl
  | cons n rest ih => exact ih (w.mark relid n.1 xid)

theorem xmax_mark (w : Stores) (relid xid : Nat) (p : ItemPointerData) (r : Nat) (q : ItemPointerData) :
    (w.mark relid p xid).xmax r q = if r = relid ∧ q = p then some xid else w.xmax r q := by
  unfold Stores.mark
  by_cases hr : r = relid
  · subst hr
    by_cases hq : q = p <;> simp [hq]
  · simp [hr]

theorem xmax_marked (w : Stores) (relid xid : Nat) (nodes : List (ItemPointerData × List UInt8))
    (r : Nat) (q : ItemPointerData) :
    (w.marked relid xid nodes).xmax r q = if r = relid ∧ q ∈ nodes.map Prod.fst then some xid else w.xmax r q := by
  induction nodes generalizing w with
  | nil => simp [Stores.marked]
  | cons n rest ih =>
    have hrest := ih (w.mark relid n.1 xid)
    rw [xmax_mark] at hrest
    change (Stores.marked (w.mark relid n.1 xid) relid xid rest).xmax r q = _
    rw [hrest]
    by_cases hr : r = relid
    · subst hr
      by_cases hq : q = n.1
      · simp [hq]
      · simp only [hq, and_false, if_false, map_cons, mem_cons, false_or]
    · simp [hr]

end

/-! ## The blobs of a tuple -/

structure Stores.Ok (w : Stores) : Prop where
  ready : ∀ relid, (w.rels relid).Ready
  fresh : ∀ relid, ∀ p ∈ (w.rels relid).room, w.xmax relid p = none
  bounded : ∀ relid, ∀ p ∈ (w.rels relid).room, p.ipBlkid < 2^48 ∧ p.ipPosid < 2^16

structure Sources (c : SpanContext) (w : Stores) (row : Row c.desc) where
  content : Nat → List UInt8
  nodes : Nat → List (ItemPointerData × List UInt8)
  direct : ∀ i < c.desc.natts, rowExternal row i → isIndirect (row.bytes i) = false →
    (row.bytes i).drop varhdrsz = content i
  indirect : ∀ i < c.desc.natts, rowExternal row i → isIndirect (row.bytes i) →
    rowSize row i = sizeofBlobHeader ∧ BlobAt c.cfg w (readBlobHeader (row.bytes i)) (content i) (nodes i)

section

variable {c : SpanContext} {w : Stores} {row : Row c.desc}

def Sources.Seen (S : Sources c w row) (i : Nat) : Prop :=
  isIndirect (row.bytes i) → ∀ n ∈ S.nodes i, c.seen (readBlobHeader (row.bytes i)).relid n.1 = true

def Sources.inSegment (S : Sources c w row) (i relid : Nat) (p : ItemPointerData) : Prop :=
  isIndirect (row.bytes i) ∧ relid = (readBlobHeader (row.bytes i)).relid ∧ p ∈ (S.nodes i).map Prod.fst

structure Progress (S : Sources c w row) (s : Spilled) (done : List Nat) : Prop where
  ok : s.stores.Ok
  room : ∀ relid, ∀ p ∈ (s.stores.rels relid).room, p ∈ (w.rels relid).room
  kept : ∀ relid start nodes, Segs c.cfg.sizeofMaxTupleBlob (w.rels relid) start nodes →
    Segs c.cfg.sizeofMaxTupleBlob (s.stores.rels relid) start nodes
  marked : ∀ i ∈ done, ∀ relid p, S.inSegment i relid p → s.stores.xmax relid p = some c.xid
  unmarked : ∀ relid p, (∀ i ∈ done, ¬ S.inSegment i relid p) → s.stores.xmax relid p = w.xmax relid p
  skipped : ∀ i, i ∉ done → s.repl i = none
  empty : ∀ i ∈ done, S.content i = [] → s.repl i = none
  stored : ∀ i ∈ done, S.content i ≠ [] → ∃ h nodes, s.repl i = some (.pointer h.bytes) ∧
    h.Encodable ∧ BlobAt c.cfg s.stores h (S.content i) nodes ∧
    ∀ n ∈ nodes, n.1 ∈ (w.rels h.relid).room

theorem progress_start (S : Sources c w row) (hw : w.Ok) :
    Progress S { stores := w, repl := fun _ => none, limit := 0 } [] where
  ok := hw
  room _ _ h := h
  kept _ _ _ h := h
  marked _ h := absurd h not_mem_nil
  unmarked _ _ _ := rfl
  skipped _ _ := rfl
  empty _ h := absurd h not_mem_nil
  stored _ h := absurd h not_mem_nil

theorem Sources.not_inSegment (S : Sources c w row) (hw : w.Ok) {i : Nat} {p : ItemPointerData}
    (hi : i < c.desc.natts) (hext : rowExternal row i) (hp : p ∈ (w.rels relid).room) :
    ¬ S.inSegment i relid p := by
  rintro ⟨hind, rfl, hmem⟩
  exact (S.indirect i hi hext hind).2.segs.not_mem_of_free ((hw.ready _).free p hp) hmem

theorem segmentCount_le (hsize : 0 < size) (n : Nat) : segmentCount size n ≤ n := by
  cases n with
  | zero => simp [segmentCount]
  | succ n =>
    obtain ⟨hpos, hlow, _⟩ := segmentCount_spec hsize (show 0 < n+1 from succ_pos n)
    have hmul : segmentCount size (n+1) - 1 ≤ (segmentCount size (n+1) - 1) * size := Nat.le_mul_of_pos_right _ hsize
    omega

/-! ## Storing one item -/

variable {t : HeapTuple} {s : Spilled} {done : List Nat} {i : Nat} {S : Sources c w row} {rel : BlobRelation}

theorem external_value (hi : i < c.desc.natts) (hext : rowExternal row i) :
    ∃ mem, row.value i = .pointer mem ∧ row.bytes i = mem.take (varsize mem) ∧ 4 ≤ varsize mem ∧
      varsize mem ≤ mem.length := by
  obtain ⟨hstorage, hval⟩ := rowExternal_iff.mp hext
  have hlen := (c.external i hi hstorage).1
  have hfits := row.fits i hi hval
  cases hd : row.value i with
  | word v =>
    rw [hd] at hfits
    have hword : (c.desc.attrs i).inWord := hfits
    simp [FormPgAttribute.inWord, hlen] at hword
  | pointer mem =>
    rw [hd] at hfits
    obtain ⟨hword, hmem⟩ := hfits
    rw [if_pos hlen] at hmem
    exact ⟨mem, rfl, by simp [Row.bytes, hd, attBytes, hword, hlen], hmem.1, hmem.2.1⟩

theorem four_le_rowSize (hi : i < c.desc.natts) (hext : rowExternal row i) :
    4 ≤ rowSize row i ∧ varsize (row.bytes i) = rowSize row i := by
  obtain ⟨mem, -, hbytes, hfour, hle⟩ := external_value hi hext
  rw [rowSize, hbytes, length_take_of_le hle]
  refine ⟨hfour, varsize_of_take hfour ?_⟩
  rw [take_take, min_self]

section

variable (ht : Formed row t) (hi : i < c.desc.natts) (hext : rowExternal row i)
include ht hi hext

theorem take_itemOf : (itemOf row t i).data.take (rowSize row i) = row.bytes i :=
  ht.value i hi (rowExternal_iff.mp hext).2

theorem lengthWord_itemOf : (itemOf row t i).data.take 4 = (row.bytes i).take 4 := by
  rw [← take_itemOf ht hi hext, take_take, min_eq_left (four_le_rowSize hi hext).1]

theorem isIndirect_itemOf : isIndirect (itemOf row t i).data = isIndirect (row.bytes i) := by
  rw [isIndirect, isIndirect, lengthWord_itemOf ht hi hext]

theorem isBuffered_itemOf : isBuffered (itemOf row t i).data = isBuffered (row.bytes i) := by
  rw [isBuffered, isBuffered, lengthWord_itemOf ht hi hext]

end

theorem readAt_take (mem : List UInt8) {pos : Nat} (h : pos + k ≤ n) :
    readAt (mem.take n) pos k = readAt mem pos k := by
  rw [readAt, readAt, drop_take, take_take, min_eq_left (by omega)]

theorem readBlobHeader_itemOf (ht : Formed row t) (hi : i < c.desc.natts)
    (hext : rowExternal row i) (hsize : rowSize row i = sizeofBlobHeader) :
    readBlobHeader (itemOf row t i).data = readBlobHeader (row.bytes i) := by
  rw [← take_itemOf ht hi hext, hsize]
  unfold readBlobHeader sizeofBlobHeader
  rw [readAt_take _ (by decide), readAt_take _ (by decide), readAt_take _ (by decide)]

def Sources.deleted (S : Sources c w row) (i : Nat) (w' : Stores) : Stores :=
  if isIndirect (row.bytes i) then
    w'.marked (readBlobHeader (row.bytes i)).relid c.xid (S.nodes i)
  else w'

theorem Sources.length_direct (S : Sources c w row) (hi : i < c.desc.natts) (hext : rowExternal row i)
    (hind : isIndirect (row.bytes i) = false) : rowSize row i = (S.content i).length + varhdrsz := by
  have hfour := (four_le_rowSize hi hext).1
  rw [← S.direct i hi hext hind, length_drop]
  unfold rowSize varhdrsz at *
  omega

theorem Progress.itemData (h : Progress S s done) (ht : Formed row t) (hi : i < c.desc.natts)
    (hext : rowExternal row i) (fuel : Nat)
    (hsmall : isIndirect (row.bytes i) → (readBlobHeader (row.bytes i)).blobLength ≤ maxAllocSize)
    (hfuel : isIndirect (row.bytes i) → (S.nodes i).length ≤ fuel) (hseen : S.Seen i) :
    ∃ data, itemData c fuel (itemOf row t i) s.stores =
        .ok (((S.content i).length + varhdrsz, data), S.deleted i s.stores) ∧
      data.take (S.content i).length = S.content i := by
  cases hind : isIndirect (row.bytes i) with
  | false =>
    have hsize := S.length_direct hi hext hind
    refine ⟨(itemOf row t i).data.drop varhdrsz, ?_, ?_⟩
    · rw [Blob.itemData, isIndirect_itemOf ht hi hext, hind, if_neg nofun, ← hsize,
        ← size_itemOf ht hi hext, Sources.deleted, if_neg (by simp [hind])]
      rfl
    · rw [Nat.eq_sub_of_add_eq hsize.symm, ← drop_take, take_itemOf ht hi hext]
      exact S.direct i hi hext hind
  | true =>
    obtain ⟨hheader, hblob⟩ := S.indirect i hi hext hind
    have hsegs := h.kept _ _ _ hblob.segs
    have hlen : (S.nodes i).length ≤ (readBlobHeader (row.bytes i)).blobLength := by
      rw [hblob.length, ← hblob.flatten]
      have hcount := hblob.segs.length_le
      omega
    have hrebuild : rebuildIndirectBlob c.cfg s.stores c.seen (readBlobHeader (row.bytes i)) = .ok (S.content i) := by
      unfold rebuildIndirectBlob
      have hsize : (readBlobHeader (row.bytes i)).blobLength ≤ 0x3fffffff := hsmall hind
      have hpos : (readBlobHeader (row.bytes i)).blobLength ≠ 0 := by
        rw [hblob.length]
        exact succ_ne_zero _
      rw [if_neg (by omega), if_neg (not_or.mpr ⟨hpos, not_lt.mpr (hsmall hind)⟩),
        rebuildLoop_ok _ _ hsegs (hseen hind) hlen ?_, hblob.flatten]
      · change (if _ then _ else _) = _
        rw [if_neg fun hne => hne hblob.length.symm]
      · rw [hblob.flatten, hblob.length, Nat.add_sub_cancel]
    refine ⟨S.content i, ?_, take_length⟩
    rw [Blob.itemData, isIndirect_itemOf ht hi hext, hind, if_pos rfl, readBlobHeader_itemOf ht hi hext hheader]
    dsimp only
    rw [hrebuild]
    change (deleteBlobSegments _ _ _ _ _ >>= _) = _
    rw [deleteBlobSegments_ok c.xid hsegs (hfuel hind), Sources.deleted, if_pos hind, ← hblob.length]
    have hlt := mod_eq_of_lt (Nat.lt_succ_of_le (hsmall hind))
    exact congrArg (fun n => Except.ok ((n, S.content i), _)) hlt

theorem Sources.deleted_spec (S : Sources c w row) (i : Nat) (w' : Stores) : (S.deleted i w').rels = w'.rels ∧
      (∀ relid p, S.inSegment i relid p → (S.deleted i w').xmax relid p = some c.xid) ∧
      ∀ relid p, ¬ S.inSegment i relid p → (S.deleted i w').xmax relid p = w'.xmax relid p := by
  refine ⟨?_, fun relid p hin => ?_, fun relid p hnot => ?_⟩
  · unfold Sources.deleted
    split
    · exact rels_marked _ _ _ _
    · rfl
  · rw [Sources.deleted, if_pos hin.1, xmax_marked, if_pos hin.2]
  · unfold Sources.deleted
    split
    · next hind =>
      rw [xmax_marked, if_neg]
      exact fun hin => hnot ⟨hind, hin⟩
    · rfl

theorem rels_setRel (w : Stores) (relid r : Nat) (rel : BlobRelation) :
    (w.setRel relid rel).rels r = if r = relid then rel else w.rels r :=
  update_apply w.rels relid rel r

structure StoresGrown (cfg : Config) (w w' : Stores) (n : Nat) : Prop where
  ready : ∀ relid, (w'.rels relid).Ready
  room : ∀ relid, ∀ p ∈ (w'.rels relid).room, p ∈ (w.rels relid).room
  left : ∀ relid, (w.rels relid).room.length ≤ (w'.rels relid).room.length + n
  kept : ∀ relid start nodes, Segs cfg.sizeofMaxTupleBlob (w.rels relid) start nodes →
    Segs cfg.sizeofMaxTupleBlob (w'.rels relid) start nodes
  xmax : w'.xmax = w.xmax

theorem storesGrown_setRel {cfg : Config} (hready : ∀ relid, (w.rels relid).Ready)
    (h : Grown cfg.sizeofMaxTupleBlob (w.rels relid) rel n) :
    StoresGrown cfg w (w.setRel relid rel) n := by
  refine ⟨fun r => ?_, fun r p hp => ?_, fun r => ?_, fun r start nodes hs => ?_, rfl⟩
  · rw [rels_setRel]
    split
    · exact h.ready
    · exact hready r
  · rw [rels_setRel] at hp
    split at hp
    · next hr =>
      rw [h.room] at hp
      exact hr ▸ mem_of_mem_drop hp
    · exact hp
  · rw [rels_setRel]
    split
    · next hr =>
      rw [h.room, hr, length_drop]
      omega
    · omega
  · rw [rels_setRel]
    split
    · next hr =>
      rw [hr] at hs
      exact h.kept start nodes hs
    · exact hs

theorem Progress.finish (h : Progress S s done) (hw : w.Ok) (hi : i < c.desc.natts) (hext : rowExternal row i)
    (hgrown : StoresGrown c.cfg (S.deleted i s.stores) s'.stores n)
    (hrepl : ∀ k ≠ i, s'.repl k = s.repl k) (hempty : S.content i = [] → s'.repl i = none)
    (hstored : S.content i ≠ [] → ∃ h nodes, s'.repl i = some (.pointer h.bytes) ∧ h.Encodable ∧
      BlobAt c.cfg s'.stores h (S.content i) nodes ∧ ∀ n ∈ nodes, n.1 ∈ (w.rels h.relid).room)
    (hnew : i ∉ done) : Progress S s' (i :: done) := by
  obtain ⟨hrels, hmark, hother⟩ := S.deleted_spec i s.stores
  have hfresh : ∀ relid, ∀ p ∈ (w.rels relid).room, s'.stores.xmax relid p = s.stores.xmax relid p := by
    intro relid p hp
    rw [hgrown.xmax]
    exact hother relid p (S.not_inSegment hw hi hext hp)
  have hkept : ∀ relid start nodes, Segs c.cfg.sizeofMaxTupleBlob (s.stores.rels relid) start nodes →
      Segs c.cfg.sizeofMaxTupleBlob (s'.stores.rels relid) start nodes := by
    intro relid start nodes hs
    exact hgrown.kept relid start nodes (hrels ▸ hs)
  have hroom : ∀ relid, ∀ p ∈ (s'.stores.rels relid).room, p ∈ (s.stores.rels relid).room := by
    intro relid p hp
    have hp' := hgrown.room relid p hp
    rwa [hrels] at hp'
  refine ⟨⟨hgrown.ready, fun relid p hp => ?_, fun relid p hp => ?_⟩, fun relid p hp => ?_,
    fun relid start nodes hs => ?_, fun k hk relid p hin => ?_, fun relid p hnot => ?_,
    fun k hk => ?_, fun k hk hnil => ?_, fun k hk hne => ?_⟩
  · rw [hfresh relid p (h.room relid p (hroom relid p hp))]
    exact h.ok.fresh relid p (hroom relid p hp)
  · exact h.ok.bounded relid p (hroom relid p hp)
  · exact h.room relid p (hroom relid p hp)
  · exact hkept relid start nodes (h.kept relid start nodes hs)
  · rw [hgrown.xmax]
    by_cases hthis : S.inSegment i relid p
    · exact hmark relid p hthis
    · rw [hother relid p hthis]
      obtain rfl | hk := mem_cons.mp hk
      · exact absurd hin hthis
      · exact h.marked k hk relid p hin
  · rw [hgrown.xmax, hother relid p (hnot i (.head _))]
    exact h.unmarked relid p fun k hk => hnot k (mem_cons_of_mem i hk)
  · have hki : k ≠ i := fun hki => hk (hki ▸ (.head _))
    rw [hrepl k hki]
    exact h.skipped k fun hk' => hk (mem_cons_of_mem i hk')
  · obtain rfl | hk := mem_cons.mp hk
    · exact hempty hnil
    · rw [hrepl k fun hki => hnew (hki ▸ hk)]
      exact h.empty k hk hnil
  · obtain rfl | hk := mem_cons.mp hk
    · exact hstored hne
    · obtain ⟨b, nodes, hb, henc, hblob, hplaces⟩ := h.stored k hk hne
      refine ⟨b, nodes, ?_, henc, ⟨hkept _ _ _ hblob.segs, fun n hn => ?_, hblob.flatten, hblob.length⟩, hplaces⟩
      · rw [hrepl k fun hki => hnew (hki ▸ hk), hb]
      · rw [hfresh _ _ (hplaces n hn)]
        exact hblob.live n hn

theorem grown_refl (cfg : Config) (h : rel.Ready) : Grown cfg.sizeofMaxTupleBlob rel rel 0 := ⟨h, rfl, fun _ _ hs => hs⟩

theorem Sources.length_lt (S : Sources c w row) (hi : i < c.desc.natts) (hext : rowExternal row i)
    (hsmall : isIndirect (row.bytes i) → (readBlobHeader (row.bytes i)).blobLength ≤ maxAllocSize) :
    (S.content i).length + varhdrsz < 2^30 := by
  cases hind : isIndirect (row.bytes i) with
  | true =>
    rw [← (S.indirect i hi hext hind).2.length]
    exact Nat.lt_succ_of_le (hsmall hind)
  | false =>
    rw [← S.length_direct hi hext hind, ← (four_le_rowSize hi hext).2]
    exact mod_lt _ (by decide)

theorem Progress.step (h : Progress S s done) (hw : w.Ok) (ht : Formed row t)
    (hi : i < c.desc.natts) (hext : rowExternal row i) (hnew : i ∉ done) (fuel : Nat)
    (hsmall : isIndirect (row.bytes i) → (readBlobHeader (row.bytes i)).blobLength ≤ maxAllocSize)
    (hfuel : isIndirect (row.bytes i) → (S.nodes i).length ≤ fuel) (hseen : S.Seen i)
    (hroom : ∀ relid, (S.content i).length ≤ (s.stores.rels relid).room.length)
    (hrelid : c.storageOf (i+1 : Nat) < 2^64) :
    ∃ s', storeItem c fuel s (itemOf row t i) = .ok s' ∧ Progress S s' (i :: done) ∧
      ∀ relid, (s.stores.rels relid).room.length ≤ (s'.stores.rels relid).room.length + (S.content i).length := by
  obtain ⟨data, hdata, htake⟩ := h.itemData ht hi hext fuel hsmall hfuel hseen
  obtain ⟨hrels, _, _⟩ := S.deleted_spec i s.stores
  have hready : ∀ relid, ((S.deleted i s.stores).rels relid).Ready := fun relid => hrels ▸ h.ok.ready relid
  have hroom' : ∀ relid, (s.stores.rels relid).room.length ≤
      ((S.deleted i s.stores).rels relid).room.length := fun relid => by rw [hrels]
  unfold storeItem
  rw [hdata]
  change ∃ s', putBlob c s (i+1) ((S.content i).length + varhdrsz) data (S.deleted i s.stores) = .ok s' ∧ _
  unfold putBlob
  rw [Nat.add_sub_cancel, htake]
  by_cases hnil : S.content i = []
  · have hstore : storeBlobSegments c.cfg ((S.deleted i s.stores).rels (c.storageOf (i+1 : Nat)))
        (S.content i) = .ok (none, (S.deleted i s.stores).rels (c.storageOf (i+1 : Nat))) := by
      rw [hnil]
      rfl
    rw [hstore]
    have hgrown := storesGrown_setRel hready (grown_refl c.cfg (hready (c.storageOf (i+1 : Nat))))
    refine ⟨_, rfl, h.finish hw hi hext hgrown (fun _ _ => rfl) (fun _ => h.skipped i hnew)
      (fun hne => absurd hnil hne) hnew, fun relid => ?_⟩
    exact (hroom' relid).trans ((hgrown.left relid).trans (Nat.add_le_add_left (Nat.zero_le _) _))
  · have hpos := length_pos_iff.mpr hnil
    have hcount : segmentCount c.cfg.sizeofMaxTupleBlob (S.content i).length ≤ (S.content i).length :=
      segmentCount_le c.cfg.size_pos _
    obtain ⟨start, nodes, rel, hstore, hsegs, hnodes, hbytes, hplaces, hgrown⟩ :=
      storeBlobSegments_ok (hready (c.storageOf (i+1 : Nat))) hpos (by rw [hrels]; exact hcount.trans (hroom _))
    rw [hstore]
    have hgrown' := storesGrown_setRel hready hgrown
    have hfree : ∀ n ∈ nodes, n.1 ∈ (s.stores.rels (c.storageOf (i+1 : Nat))).room := by
      intro n hn
      have hp := hplaces n.1 (mem_map_of_mem hn)
      rwa [hrels] at hp
    have hplaces' : ∀ n ∈ nodes, n.1 ∈ (w.rels (c.storageOf (i+1 : Nat))).room := fun n hn => h.room _ _ (hfree n hn)
    have hstart : start ∈ (w.rels (c.storageOf (i+1 : Nat))).room := by
      cases hcons : nodes with
      | nil => exact absurd hcons hnodes
      | cons n rest =>
        rw [hcons] at hsegs
        rw [← hsegs.uncons.1]
        exact hplaces' n (hcons ▸ (.head _))
    refine ⟨_, rfl, h.finish hw hi hext hgrown' (fun k hk => ?_) (fun hnil' => absurd hnil' hnil)
      (fun _ => ⟨⟨(S.content i).length + varhdrsz, start, c.storageOf (i+1 : Nat)⟩, nodes, ?_, ?_, ?_, hplaces'⟩) hnew,
      fun relid => ?_⟩
    · exact update_of_ne hk ..
    · exact update_self ..
    · obtain ⟨hblock, hoffset⟩ := hw.bounded _ start hstart
      exact ⟨(S.length_lt hi hext hsmall).trans (by decide), hblock, hoffset, hrelid⟩
    · refine ⟨?_, fun n hn => ?_, hbytes, rfl⟩
      · rw [rels_setRel, if_pos rfl]
        exact hsegs
      · change (S.deleted i s.stores).xmax _ _ = none
        rw [(S.deleted_spec i s.stores).2.2 _ _ (S.not_inSegment hw hi hext (hplaces' n hn))]
        exact h.ok.fresh _ _ (hfree n hn)
    · exact (hroom' relid).trans ((hgrown'.left relid).trans (Nat.add_le_add_left hcount _))

/-! ## Storing the list -/

structure Storable (S : Sources c w row) (fuel : Nat) (list : List Nat) : Prop where
  external : ∀ i ∈ list, i < c.desc.natts ∧ rowExternal row i
  small : ∀ i ∈ list, isIndirect (row.bytes i) → (readBlobHeader (row.bytes i)).blobLength ≤ maxAllocSize
  fuel : ∀ i ∈ list, isIndirect (row.bytes i) → (S.nodes i).length ≤ fuel
  seen : ∀ i ∈ list, S.Seen i
  relid : ∀ i ∈ list, c.storageOf (i+1 : Nat) < 2^64

theorem Progress.run (h : Progress S s done) (hw : w.Ok) (ht : Formed row t)
    (list : List Nat) (hlist : Storable S fuel list) (hnodup : (list ++ done).Nodup)
    (hroom : ∀ relid, (list.map fun i => (S.content i).length).sum ≤ (s.stores.rels relid).room.length) :
    ∃ s', (list.map (itemOf row t)).foldlM (storeItem c fuel) s = .ok s' ∧ Progress S s' (list.reverse ++ done) := by
  induction list generalizing s done with
  | nil => exact ⟨s, rfl, h⟩
  | cons i rest ih =>
    obtain ⟨hexternal, hexternals⟩ := forall_mem_cons.mp hlist.external
    obtain ⟨hsmall, hsmalls⟩ := forall_mem_cons.mp hlist.small
    obtain ⟨hfuel, hfuels⟩ := forall_mem_cons.mp hlist.fuel
    obtain ⟨hseen, hseens⟩ := forall_mem_cons.mp hlist.seen
    obtain ⟨hrelid, hrelids⟩ := forall_mem_cons.mp hlist.relid
    rw [cons_append] at hnodup
    obtain ⟨hout, hnodup'⟩ := nodup_cons.mp hnodup
    have hnew : i ∉ done := fun hi => hout (mem_append_right _ hi)
    have hroom₁ : ∀ relid, (S.content i).length ≤ (s.stores.rels relid).room.length := by
      intro relid
      have hsum := hroom relid
      rw [map_cons, sum_cons] at hsum
      omega
    obtain ⟨s', hstep, hprogress, hleft⟩ :=
      h.step hw ht hexternal.1 hexternal.2 hnew fuel hsmall hfuel hseen hroom₁ hrelid
    have hperm : (rest ++ i :: done).Nodup := by
      rw [nodup_middle]
      exact nodup_cons.mpr ⟨hout, hnodup'⟩
    obtain ⟨s'', hrun, hdone⟩ := ih hprogress ⟨hexternals, hsmalls, hfuels, hseens, hrelids⟩ hperm (by
      intro relid
      have hsum := hroom relid
      have hleft' := hleft relid
      rw [map_cons, sum_cons] at hsum
      omega)
    refine ⟨s'', ?_, ?_⟩
    · rw [map_cons, foldlM_cons, hstep]
      exact hrun
    · rw [reverse_cons, append_assoc]
      exact hdone

theorem rebuildIndirectBlob_length {h : StoredBlob} {data : List UInt8} {seen : Nat → ItemPointerData → Bool}
    (hok : rebuildIndirectBlob cfg w seen h = .ok data) :
    h.blobLength ≤ maxAllocSize ∧ data.length + varhdrsz = h.blobLength := by
  unfold rebuildIndirectBlob at hok
  split at hok
  · cases hok
  · split at hok
    · cases hok
    · next hsize =>
      obtain ⟨data', _, hcheck⟩ := bind_ok hok
      split at hcheck
      · cases hcheck
      · next heq =>
        cases hcheck
        exact ⟨Nat.le_of_not_lt fun hbig => hsize (.inr hbig), not_not.mp heq⟩

theorem storeItem_bounds (h : Progress S s done) (ht : Formed row t) (hi : i < c.desc.natts)
    (hext : rowExternal row i) (hok : storeItem c fuel s (itemOf row t i) = .ok s')
    (hind : isIndirect (row.bytes i)) :
    (readBlobHeader (row.bytes i)).blobLength ≤ maxAllocSize ∧ (S.nodes i).length ≤ fuel := by
  have hblob := (S.indirect i hi hext hind).2
  rw [storeItem, Blob.itemData, isIndirect_itemOf ht hi hext, hind, if_pos rfl,
    readBlobHeader_itemOf ht hi hext (S.indirect i hi hext hind).1] at hok
  dsimp only at hok
  cases hrebuild : rebuildIndirectBlob c.cfg s.stores c.seen (readBlobHeader (row.bytes i)) with
  | error e =>
    rw [hrebuild] at hok
    exact absurd hok nofun
  | ok data =>
    rw [hrebuild] at hok
    cases hdelete : deleteBlobSegments (readBlobHeader (row.bytes i)).relid c.xid fuel
        (readBlobHeader (row.bytes i)).forwardPointer s.stores with
    | error e =>
      change ((deleteBlobSegments _ _ _ _ _ >>= _) >>= _) = _ at hok
      rw [hdelete] at hok
      exact absurd hok nofun
    | ok w' =>
      exact ⟨(rebuildIndirectBlob_length hrebuild).1, deleteBlobSegments_fuel (h.kept _ _ _ hblob.segs) hdelete⟩

theorem Progress.storable (h : Progress S s done) (hw : w.Ok) (ht : Formed row t) (list : List Nat)
    (hlist : ∀ i ∈ list, i < c.desc.natts ∧ rowExternal row i) (hseen : ∀ i ∈ list, S.Seen i)
    (hrelid : ∀ i ∈ list, c.storageOf (i+1 : Nat) < 2^64) (hnodup : (list ++ done).Nodup)
    (hroom : ∀ relid, (list.map fun i => (S.content i).length).sum ≤ (s.stores.rels relid).room.length)
    (hok : (list.map (itemOf row t)).foldlM (storeItem c fuel) s = .ok s') :
    Storable S fuel list := by
  induction list generalizing s done with
  | nil => exact ⟨hlist, nofun, nofun, hseen, hrelid⟩
  | cons k rest ih =>
    obtain ⟨hk, hrest⟩ := forall_mem_cons.mp hlist
    obtain ⟨hseenk, hseens⟩ := forall_mem_cons.mp hseen
    obtain ⟨hrelidk, hrelids⟩ := forall_mem_cons.mp hrelid
    rw [cons_append] at hnodup
    obtain ⟨hout, hnodup'⟩ := nodup_cons.mp hnodup
    have hnew : k ∉ done := fun hi => hout (mem_append_right _ hi)
    rw [map_cons, foldlM_cons] at hok
    cases hstep : storeItem c fuel s (itemOf row t k) with
    | error e =>
      rw [hstep] at hok
      exact absurd hok nofun
    | ok s₁ =>
      rw [hstep] at hok
      have hbounds := storeItem_bounds h ht hk.1 hk.2 hstep
      have hsmall := fun hind => (hbounds hind).1
      have hfuel := fun hind => (hbounds hind).2
      have hroomk : ∀ relid, (S.content k).length ≤ (s.stores.rels relid).room.length := by
        intro relid
        have hsum := hroom relid
        rw [map_cons, sum_cons] at hsum
        omega
      obtain ⟨s₂, hstep', hprogress, hleft⟩ := h.step hw ht hk.1 hk.2 hnew fuel hsmall hfuel hseenk hroomk hrelidk
      obtain rfl := Except.ok.inj (hstep.symm.trans hstep')
      have hperm : (rest ++ k :: done).Nodup := by
        rw [nodup_middle]
        exact nodup_cons.mpr ⟨hout, hnodup'⟩
      have hstorable := ih hprogress hrest hseens hrelids hperm (by
        intro relid
        have hsum := hroom relid
        have hleft' := hleft relid
        rw [map_cons, sum_cons] at hsum
        omega) hok
      exact ⟨hlist, forall_mem_cons.mpr ⟨hsmall, hstorable.small⟩,
        forall_mem_cons.mpr ⟨hfuel, hstorable.fuel⟩, hseen, hrelid⟩

theorem Listed.attributes {p : Prior} (h : Listed row t p n) :
    ∃ list : List Nat, list.Perm (reachedUpTo c.cfg row n).1 ∧ p.list = list.map (itemOf row t) := by
  refine ⟨p.list.map fun item => item.attnum-1, ?_, ?_⟩
  · have hperm := h.perm.map fun item => item.attnum-1
    rw [map_map] at hperm
    have hid : ((fun item : BlobItem => item.attnum-1) ∘ itemOf row t) = id := rfl
    rwa [hid, map_id] at hperm
  · rw [map_map]
    refine (map_id p.list).symm.trans (map_congr_left fun item hitem => ?_)
    obtain ⟨i, _, rfl⟩ := mem_map.mp (h.perm.mem_iff.mp hitem)
    rfl

end

end WeaverDB.Blob
