import Mathlib.Algebra.Group.Nat.Defs
import WeaverDB.Foundations.LinkedCells
import WeaverDB.SharedInval.Segment

/-! # Segments of a blob (`access/heap/blobstorage.c`)

A blob is a list of heap tuples, each with a piece of the data and the place of the next one, stored
back to front by `store_blob_segments`. `BlobRelation.room` are the places that the free space map and
`PageAddItem` choose. Allocations in memory succeed.
-/

namespace WeaverDB.Blob
open Foundations List Nat Function

variable {piece : List UInt8}

/-- `MaxAttrSize` and `SEGHDRSZ`; a piece of a page (4096 or 8192 bytes) fits into an `int16`. -/
structure Layout where
  maxAttrSize : Nat
  segHdrSz : Nat
  roomy : segHdrSz < maxAttrSize
  short : maxAttrSize < 2^15

/-- The layout, and the number in the property `blobsegments`. -/
structure Config where
  layout : Layout
  blobsegments : Option Int

def Config.sizeofMaxTupleBlob (cfg : Config) : Nat :=
  let segmentSize := cfg.layout.maxAttrSize-cfg.layout.segHdrSz
  match cfg.blobsegments with
  | some ref => if 0 < ref ∧ ref < segmentSize then ref.toNat else segmentSize
  | none => segmentSize

theorem Config.size_pos (cfg : Config) : 0 < cfg.sizeofMaxTupleBlob := by
  have hroom := cfg.layout.roomy
  unfold sizeofMaxTupleBlob
  dsimp only
  split
  · split <;> omega
  · omega

theorem Config.size_le (cfg : Config) : cfg.sizeofMaxTupleBlob ≤ cfg.layout.maxAttrSize := by
  unfold sizeofMaxTupleBlob
  dsimp only
  split
  · split <;> omega
  · omega

def itemPointerIsValid (pointer : ItemPointerData) : Bool := pointer.ipPosid != 0

def invalidBlockNumber : Nat := 0x0000FFFFFFFFFFFF

def itemPointerInvalid : ItemPointerData := ⟨invalidBlockNumber, 0⟩

/-- The tuple of a segment. Its `length` is the number of bytes in `data`. -/
structure SegmentHeader where
  forward : ItemPointerData
  data : List UInt8

structure BlobRelation where
  items : ItemPointerData → Option SegmentHeader
  room : List ItemPointerData

inductive BlobError where
  | noRoom
  | elog (text : String)
  deriving DecidableEq

def storeSegment (rel : BlobRelation) (segment : SegmentHeader) :
    Except BlobError (ItemPointerData × BlobRelation) :=
  match rel.room with
  | [] => .error .noRoom
  | self :: room =>
    .ok (self, { items := update rel.items self (some segment), room := room })

def segmentCount (size copylen : Nat) : Nat := if copylen % size ≠ 0 then copylen / size + 1 else copylen / size

def segmentMap (size : Nat) (data : List UInt8) : List (List UInt8) :=
  let len := segmentCount size data.length
  (List.range (len-1)).map (fun counter => (data.drop (counter*size)).take size) ++ [data.drop ((len-1) * size)]

/-- The storing loop, from the end of the map: `link` is stored last, `tail` first. -/
def storeBack (rel : BlobRelation) (link tail : ItemPointerData) :
    List (List UInt8) → Except BlobError (ItemPointerData × ItemPointerData × BlobRelation)
  | [] => .ok (link, tail, rel)
  | piece :: pieces => do
    let (self, rel) ← storeSegment rel { forward := link, data := piece }
    storeBack rel self (if itemPointerIsValid tail then tail else self) pieces

def storeBlobSegments (cfg : Config) (rel : BlobRelation) (data : List UInt8) :
    Except BlobError (Option (ItemPointerData × ItemPointerData) × BlobRelation) :=
  if data.length = 0 then .ok (none, rel)
  else do
    let (start, tail, rel) ← storeBack rel itemPointerInvalid itemPointerInvalid
      (segmentMap cfg.sizeofMaxTupleBlob data).reverse
    .ok (some (start, tail), rel)

structure Got where
  len : Int
  pointer : ItemPointerData
  bytes : List UInt8

/-- A target that is too small gets nothing, and the pointer stays. -/
def getSegment (cfg : Config) (rel : BlobRelation) (satisfies : ItemPointerData → Bool)
    (pointer : ItemPointerData) (hasTarget : Bool) (limit : Nat) : Got :=
  match rel.items pointer with
  | none => { len := -1, pointer := pointer, bytes := [] }
  | some segment =>
    if !satisfies pointer || decide (cfg.layout.maxAttrSize < segment.data.length) then
      { len := -1, pointer := itemPointerInvalid, bytes := [] }
    else if decide (limit < segment.data.length) && hasTarget then
      { len := 0, pointer := pointer, bytes := [] }
    else
      { len := segment.data.length, pointer := segment.forward,
        bytes := if hasTarget then segment.data else [] }

theorem cut_flatten (size : Nat) (data : List UInt8) (m : Nat) :
    ((List.range m).map fun i => (data.drop (i*size)).take size).flatten ++ data.drop (m*size) =
      data := by
  induction m with
  | zero => simp
  | succ m ih =>
    rw [range_succ, map_append, flatten_append, append_assoc]
    have hcut : (data.drop (m*size)).take size ++ data.drop ((m+1) * size) = data.drop (m*size) := by
      rw [succ_mul, ← drop_drop, take_append_drop]
    rw [map_singleton, flatten_singleton, hcut]
    exact ih

section

variable {size : Nat} {data : List UInt8}

theorem segmentCount_spec (hsize : 0 < size) {n : Nat} (hn : 0 < n) :
    0 < segmentCount size n ∧ (segmentCount size n - 1) * size < n ∧ n ≤ segmentCount size n * size := by
  have hdiv := div_add_mod' n size
  have hmod := mod_lt n hsize
  unfold segmentCount
  split_ifs with hrem
  · rw [Nat.add_sub_cancel, succ_mul]
    exact ⟨succ_pos _, by omega, by omega⟩
  · have hfull : 0 < n / size := by
      obtain h0 | h0 := Nat.eq_zero_or_pos (n/size)
      · rw [h0] at hdiv
        omega
      · exact h0
    rw [Nat.sub_mul]
    omega

theorem segmentCount_mul (hsize : 0 < size) (q : Nat) : segmentCount size (q*size) = q := by
  rw [segmentCount, mul_mod_left, if_neg fun h => h rfl, Nat.mul_div_cancel _ hsize]

theorem segmentMap_length (hsize : 0 < size) (hdata : 0 < data.length) :
    (segmentMap size data).length = segmentCount size data.length := by
  unfold segmentMap
  rw [length_append, length_map, length_range]
  exact Nat.sub_add_cancel (segmentCount_spec hsize hdata).1

theorem segmentMap_flatten (size : Nat) (data : List UInt8) : (segmentMap size data).flatten = data := by
  unfold segmentMap
  rw [flatten_append, flatten_singleton]
  exact cut_flatten size data _

theorem segmentMap_sized (hsize : 0 < size) (hdata : 0 < data.length)
    (h : piece ∈ segmentMap size data) : piece ≠ [] ∧ piece.length ≤ size := by
  obtain ⟨hpos, hlow, hhigh⟩ := segmentCount_spec hsize hdata
  have hlast : segmentCount size data.length * size = (segmentCount size data.length - 1) * size + size := by
    rw [← succ_mul, succ_eq_add_one, Nat.sub_add_cancel hpos]
  unfold segmentMap at h
  rw [mem_append, mem_map, mem_singleton] at h
  have hlen : 0 < piece.length ∧ piece.length ≤ size := by
    obtain ⟨i, hi, rfl⟩ | rfl := h
    · have hi' := Nat.mul_le_mul_right size (succ_le_of_lt (mem_range.mp hi))
      rw [succ_mul] at hi'
      rw [length_take, length_drop]
      omega
    · rw [length_drop]
      omega
  exact ⟨length_pos_iff.mp hlen.1, hlen.2⟩

end

def BlobRelation.cell (rel : BlobRelation) (p : ItemPointerData) : Option (List UInt8 × ItemPointerData) :=
  (rel.items p).map fun segment => (segment.data, segment.forward)

structure BlobRelation.Ready (rel : BlobRelation) : Prop where
  nodup : rel.room.Nodup
  valid : ∀ p ∈ rel.room, itemPointerIsValid p
  free : ∀ p ∈ rel.room, rel.items p = none

structure Segs (size : Nat) (rel : BlobRelation) (start : ItemPointerData)
    (nodes : List (ItemPointerData × List UInt8)) : Prop where
  chain : Chain rel.cell start nodes itemPointerInvalid
  nodup : (nodes.map Prod.fst).Nodup
  valid : ∀ n ∈ nodes, itemPointerIsValid n.1
  sized : ∀ n ∈ nodes, n.2 ≠ [] ∧ n.2.length ≤ size

def lastPointer (nodes : List (ItemPointerData × List UInt8)) : ItemPointerData :=
  match nodes.getLast? with
  | some n => n.1
  | none => itemPointerInvalid

theorem isSome_of_cell {rel : BlobRelation} {p : ItemPointerData} {x : List UInt8 × ItemPointerData}
    (h : rel.cell p = some x) : (rel.items p).isSome := by
  obtain ⟨segment, hitem, _⟩ := Option.map_eq_some_iff.mp h
  exact hitem ▸ rfl

theorem cell_update (rel : BlobRelation) (p : ItemPointerData) (segment : SegmentHeader) (room : List ItemPointerData) :
    BlobRelation.cell { items := update rel.items p (some segment), room := room } =
      update rel.cell p (some (segment.data, segment.forward)) := by
  funext q
  unfold BlobRelation.cell
  dsimp only
  by_cases hq : q = p
  · rw [hq, update_self, update_self]
    rfl
  · rw [update_of_ne hq, update_of_ne hq]

section

variable {size : Nat} {rel : BlobRelation} {start p : ItemPointerData}
  {nodes : List (ItemPointerData × List UInt8)} {room : List ItemPointerData}

theorem Segs.nil (size : Nat) (rel : BlobRelation) : Segs size rel itemPointerInvalid [] :=
  ⟨.nil _, nodup_nil, fun _ h => (nomatch h), fun _ h => (nomatch h)⟩

theorem Segs.not_mem_of_free (h : Segs size rel start nodes) (hp : rel.items p = none) : p ∉ nodes.map Prod.fst := by
  intro hmem
  obtain ⟨n, hn, rfl⟩ := mem_map.mp hmem
  have hsome := h.chain.isSome hn
  rw [BlobRelation.cell, hp] at hsome
  cases hsome

theorem Segs.invalid_of_nil (h : Segs size rel start []) : itemPointerIsValid start = false := by
  cases h.chain
  rfl

theorem Segs.uncons {n : ItemPointerData × List UInt8} (h : Segs size rel start (n :: nodes)) :
    n.1 = start ∧ itemPointerIsValid start ∧ n.2 ≠ [] ∧ n.2.length ≤ size ∧
      ∃ next, rel.cell start = some (n.2, next) ∧ Segs size rel next nodes := by
  obtain ⟨hchain, hnodup, hvalid, hsized⟩ := h
  obtain ⟨hsize, hsized'⟩ := forall_mem_cons.mp hsized
  obtain ⟨hok, hvalid'⟩ := forall_mem_cons.mp hvalid
  cases hchain with
  | cons hcell hrest =>
    exact ⟨rfl, hok, hsize.1, hsize.2, _, hcell, hrest, (nodup_cons.mp hnodup).2, hvalid', hsized'⟩

section

variable (h : Segs size rel start nodes)
include h

theorem Segs.det {nodes' : List (ItemPointerData × List UInt8)} (h' : Segs size rel start nodes') : nodes = nodes' := by
  induction nodes generalizing start nodes' with
  | nil =>
    cases nodes' with
    | nil => rfl
    | cons n rest =>
      have hvalid := h'.uncons.2.1
      cases h.chain
      exact absurd hvalid (by decide)
  | cons n rest ih =>
    obtain ⟨hn, hvalid, _, _, next, hcell, hrest⟩ := h.uncons
    cases nodes' with
    | nil =>
      cases h'.chain
      exact absurd hvalid (by decide)
    | cons n' rest' =>
      obtain ⟨hn', _, _, _, next', hcell', hrest'⟩ := h'.uncons
      obtain ⟨hdata, hnext⟩ := Prod.mk.inj (Option.some.inj (hcell.symm.trans hcell'))
      rw [← hnext] at hrest'
      rw [ih hrest hrest', show n = n' from Prod.ext (hn.trans hn'.symm) hdata]

theorem Segs.store (hp : rel.items p = none) (segment : SegmentHeader) (room : List ItemPointerData) :
    Segs size { items := update rel.items p (some segment), room := room } start nodes where
  chain := by
    rw [cell_update]
    exact h.chain.update (h.not_mem_of_free hp)
  nodup := h.nodup
  valid := h.valid
  sized := h.sized

theorem Segs.push (hp : rel.items p = none) (hvalid : itemPointerIsValid p)
    (hpiece : piece ≠ [] ∧ piece.length ≤ size) (room : List ItemPointerData) :
    Segs size { items := update rel.items p (some ⟨start, piece⟩), room := room } p ((p, piece) :: nodes) where
  chain := by
    rw [cell_update]
    exact h.chain.push (h.not_mem_of_free hp)
  nodup := nodup_cons.mpr ⟨h.not_mem_of_free hp, h.nodup⟩
  valid := forall_mem_cons.mpr ⟨hvalid, h.valid⟩
  sized := forall_mem_cons.mpr ⟨hpiece, h.sized⟩

end

theorem BlobRelation.Ready.store (h : rel.Ready) (hroom : rel.room = p :: room) (segment : SegmentHeader) :
    BlobRelation.Ready { items := update rel.items p (some segment), room := room } := by
  have hnodup := h.nodup
  rw [hroom, nodup_cons] at hnodup
  refine ⟨hnodup.2, fun q hq => ?_, fun q hq => ?_⟩
  · exact h.valid q (hroom ▸ mem_cons_of_mem p hq)
  · have hne : q ≠ p := by
      rintro rfl
      exact hnodup.1 hq
    exact (update_of_ne hne ..).trans (h.free q (hroom ▸ mem_cons_of_mem p hq))

theorem lastPointer_valid (h : Segs size rel start nodes) :
    itemPointerIsValid (lastPointer nodes) = !nodes.isEmpty := by
  unfold lastPointer
  cases hl : nodes.getLast? with
  | none =>
    rw [List.getLast?_eq_none_iff.mp hl]
    rfl
  | some n =>
    have hmem := List.mem_of_getLast? hl
    rw [h.valid n hmem]
    cases nodes with
    | nil => cases hmem
    | cons => rfl

theorem lastPointer_cons (h : Segs size rel start nodes) (piece : List UInt8) : lastPointer ((p, piece) :: nodes) =
      if itemPointerIsValid (lastPointer nodes) then lastPointer nodes else p := by
  rw [lastPointer_valid h]
  cases nodes with
  | nil => rfl
  | cons n nodes => rfl

theorem Segs.relink {t start' : ItemPointerData} {more : List (ItemPointerData × List UInt8)}
    (h : Segs size rel start (nodes ++ [(t, piece)])) (h' : Segs size rel start' more)
    (hapart : ∀ q ∈ more.map Prod.fst, q ∉ (nodes ++ [(t, piece)]).map Prod.fst)
    (room : List ItemPointerData) :
    Segs size { items := update rel.items t (some ⟨start', piece⟩), room := room } start
      (nodes ++ [(t, piece)] ++ more) := by
  have hnodup := h.nodup
  rw [map_append] at hnodup
  have hlast : t ∈ (nodes ++ [(t, piece)]).map Prod.fst := by simp
  refine ⟨?_, ?_, ?_, ?_⟩
  · rw [cell_update]
    refine h.chain.relink h'.chain ?_ fun ht => hapart t ht hlast
    exact fun ht => disjoint_of_nodup_append hnodup ht (mem_singleton_self t)
  · rw [map_append]
    exact h.nodup.append h'.nodup fun q hq hq' => hapart q hq' hq
  · exact forall_mem_append.mpr ⟨h.valid, h'.valid⟩
  · exact forall_mem_append.mpr ⟨h.sized, h'.sized⟩

end

structure Grown (size : Nat) (rel rel' : BlobRelation) (count : Nat) : Prop where
  ready : rel'.Ready
  room : rel'.room = rel.room.drop count
  kept : ∀ start nodes, Segs size rel start nodes → Segs size rel' start nodes

variable {rel : BlobRelation}

theorem storeBack_ok {size : Nat} (pieces : List (List UInt8)) (rel : BlobRelation)
    (link : ItemPointerData) (nodes : List (ItemPointerData × List UInt8)) (hready : rel.Ready)
    (hroom : pieces.length ≤ rel.room.length) (hsegs : Segs size rel link nodes)
    (hsized : ∀ piece ∈ pieces, piece ≠ [] ∧ piece.length ≤ size) :
    ∃ start nodes' rel', storeBack rel link (lastPointer nodes) pieces = .ok (start, lastPointer nodes', rel') ∧
      Segs size rel' start nodes' ∧ nodes'.map Prod.snd = pieces.reverse ++ nodes.map Prod.snd ∧
      (∀ q ∈ nodes'.map Prod.fst, q ∈ nodes.map Prod.fst ∨ q ∈ rel.room) ∧
      Grown size rel rel' pieces.length := by
  induction pieces generalizing rel link nodes with
  | nil =>
    exact ⟨link, nodes, rel, rfl, hsegs, rfl, fun q hq => .inl hq, hready, rfl, fun _ _ h => h⟩
  | cons piece pieces ih =>
    obtain ⟨p, room, hcons⟩ : ∃ p room, rel.room = p :: room := by
      cases h : rel.room with
      | nil =>
        rw [h] at hroom
        cases hroom
      | cons p room => exact ⟨p, room, rfl⟩
    have hp : p ∈ rel.room := hcons ▸ (.head _)
    have hfree := hready.free p hp
    have hnew := hsegs.push hfree (hready.valid p hp) (hsized piece (.head _)) room
    obtain ⟨start, nodes', rel', hok, hsegs', hbytes, hplaces, hgrown⟩ := ih
      { items := update rel.items p (some ⟨link, piece⟩), room := room } p
      ((p, piece) :: nodes) (hready.store hcons _) (by rw [hcons] at hroom; exact le_of_succ_le_succ hroom) hnew
      fun q hq => hsized q (.tail _ hq)
    refine ⟨start, nodes', rel', ?_, hsegs', ?_, fun q hq => ?_, hgrown.ready, ?_, fun s ns hs => ?_⟩
    · rw [lastPointer_cons hsegs] at hok
      unfold storeBack storeSegment
      rw [hcons]
      exact hok
    · rw [hbytes, map_cons, reverse_cons, append_assoc, singleton_append]
    · obtain hq | hq := hplaces q hq
      · rw [map_cons, mem_cons] at hq
        obtain rfl | hq := hq
        · exact .inr hp
        · exact .inl hq
      · exact .inr (hcons ▸ mem_cons_of_mem p hq)
    · rw [hgrown.room, hcons]
      rfl
    · exact hgrown.kept s ns (hs.store hfree _ room)

theorem storeBlobSegments_ok {cfg : Config} {data : List UInt8} (hready : rel.Ready) (hdata : 0 < data.length)
    (hroom : segmentCount cfg.sizeofMaxTupleBlob data.length ≤ rel.room.length) :
    ∃ start nodes rel', storeBlobSegments cfg rel data = .ok (some (start, lastPointer nodes), rel') ∧
      Segs cfg.sizeofMaxTupleBlob rel' start nodes ∧ nodes ≠ [] ∧
      (nodes.map Prod.snd).flatten = data ∧ (∀ q ∈ nodes.map Prod.fst, q ∈ rel.room) ∧
      Grown cfg.sizeofMaxTupleBlob rel rel' (segmentCount cfg.sizeofMaxTupleBlob data.length) := by
  have hsize := cfg.size_pos
  have hlen := segmentMap_length hsize hdata
  obtain ⟨start, nodes, rel', hok, hsegs, hbytes, hplaces, hgrown⟩ := storeBack_ok
    (segmentMap cfg.sizeofMaxTupleBlob data).reverse rel itemPointerInvalid [] hready
    (by rw [length_reverse, hlen]; exact hroom) (Segs.nil _ rel)
    fun piece hp => segmentMap_sized hsize hdata (mem_reverse.mp hp)
  rw [reverse_reverse, map_nil, append_nil] at hbytes
  rw [length_reverse, hlen] at hgrown
  refine ⟨start, nodes, rel', ?_, hsegs, ?_, ?_, fun q hq => ?_, hgrown⟩
  · unfold storeBlobSegments
    rw [if_neg (ne_of_gt hdata)]
    change storeBack rel itemPointerInvalid itemPointerInvalid _ = _ at hok
    rw [hok]
    rfl
  · rintro rfl
    rw [map_nil] at hbytes
    have hcount := (segmentCount_spec hsize hdata).1
    rw [← hlen, ← hbytes] at hcount
    cases hcount
  · rw [hbytes]
    exact segmentMap_flatten _ data
  · obtain hq | hq := hplaces q hq
    · cases hq
    · exact hq

end WeaverDB.Blob
