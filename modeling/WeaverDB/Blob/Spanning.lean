import WeaverDB.Blob.WritePipeline
import WeaverDB.Tuples.Codec

/-! # Blobs of a tuple that is too long (`store_tuple_blob`)

`prioritize_blobs` lists the external attributes to move, the largest first, until the estimated length
is small enough; `store_tuple_blob` stores each in segments and leaves a header in the tuple. An
attribute that is a header already is read, deleted and stored anew.
-/

namespace WeaverDB.Blob
open Foundations Tuples

@[ext]
structure StoredBlob where
  blobLength : Nat
  forwardPointer : ItemPointerData
  relid : Nat
deriving DecidableEq

def sizeofBlobHeader : Nat := 32

def pointerWord (p : ItemPointerData) : Nat := p.ipBlkid * 2^16 + p.ipPosid

def StoredBlob.bytes (h : StoredBlob) : List UInt8 :=
  leBytes 4 (sizeofBlobHeader + 2^31) ++ (leBytes 4 0 ++ (leBytes 8 h.blobLength ++
    (leBytes 8 (pointerWord h.forwardPointer) ++ leBytes 8 h.relid)))

def readBlobHeader (mem : List UInt8) : StoredBlob where
  blobLength := leValue (readAt mem 8 8)
  forwardPointer := ⟨leValue (readAt mem 16 8) / 2^16, leValue (readAt mem 16 8) % 2^16⟩
  relid := leValue (readAt mem 24 8)

structure Stores where
  rels : Nat → BlobRelation
  xmax : Nat → ItemPointerData → Option Nat

inductive SpanError where
  | blob (error : BlobError)
  | nullPointer
  | endless
deriving DecidableEq

def Stores.mark (w : Stores) (relid : Nat) (p : ItemPointerData) (xid : Nat) : Stores :=
  { w with xmax := Function.update w.xmax relid (Function.update (w.xmax relid) p (some xid)) }

def Stores.setRel (w : Stores) (relid : Nat) (rel : BlobRelation) : Stores :=
  { w with rels := Function.update w.rels relid rel }

/-- At a pointer without a tuple the loop does not end. -/
def deleteBlobSegments (relid xid : Nat) : Nat → ItemPointerData → Stores → Except SpanError Stores
  | 0, link, w => if itemPointerIsValid link then .error .endless else .ok w
  | fuel + 1, link, w =>
    if itemPointerIsValid link then
      match (w.rels relid).items link with
      | none => .error .endless
      | some segment => deleteBlobSegments relid xid fuel segment.forward (w.mark relid link xid)
    else .ok w

/-- A turn reads a byte at least, so the length bounds the turns. -/
def rebuildLoop (cfg : Config) (rel : BlobRelation) (seen : ItemPointerData → Bool) :
    Nat → ItemPointerData → Nat → Except SpanError (List UInt8)
  | 0, link, _ =>
    if itemPointerIsValid link then .error (.blob (.elog "blob does not fit in provided space"))
    else .ok []
  | fuel + 1, link, left =>
    if itemPointerIsValid link then
      let got := getSegment cfg rel seen link true left
      if got.len < 0 then .error (.blob (.elog "error rebuilding blob"))
      else if got.len = 0 then .error (.blob (.elog "blob does not fit in provided space"))
      else do
        let rest ← rebuildLoop cfg rel seen fuel got.pointer (left-got.bytes.length)
        .ok (got.bytes ++ rest)
    else .ok []

def maxAllocSize : Nat := 0x3fffffff

/-- The second check is that of `palloc`, which allocates the whole `varlena`. -/
def rebuildIndirectBlob (cfg : Config) (w : Stores) (seen : Nat → ItemPointerData → Bool)
    (h : StoredBlob) : Except SpanError (List UInt8) :=
  if 0x7fffffff < h.blobLength then .error (.blob (.elog "blob is too large to be rebuild"))
  else if h.blobLength = 0 ∨ maxAllocSize < h.blobLength then
    .error (.blob (.elog ("MemoryContextAlloc:SpanBlobContext invalid request size " ++ toString h.blobLength)))
  else do
    let data ← rebuildLoop cfg (w.rels h.relid) (seen h.relid) h.blobLength h.forwardPointer
      (h.blobLength-varhdrsz)
    if data.length + varhdrsz ≠ h.blobLength then
      .error (.blob (.elog "rebuild_indirect -- inconsistent spanning blob detected"))
    else .ok data

structure BlobItem where
  attnum : Nat
  data : List UInt8

def BlobItem.size (item : BlobItem) : Nat := varsize item.data

def insertBehind (item : BlobItem) : List BlobItem → List BlobItem
  | [] => [item]
  | pointer :: rest =>
    if item.size < pointer.size then pointer :: insertBehind item rest else item :: pointer :: rest

/-- Before an item that is as large as the head there is no `prev`: the code follows a null pointer.
-/
def insertBlob (item : BlobItem) : List BlobItem → Option (List BlobItem)
  | [] => some [item]
  | head :: rest => if item.size < head.size then some (head :: insertBehind item rest) else none

/-- The argument of `store_tuple_blob`: `SIZE_SPAN`, `LOC_SPAN`, or an attribute. -/
inductive Span where
  | size
  | loc
  | attribute (attnum : Nat)
deriving DecidableEq

def Config.maxTupleSize (cfg : Config) : Nat := cfg.layout.maxAttrSize + maxAlign (offsetofBits+4)

/-- The relations of the tuple and of its attributes, and the segments that the command sees. -/
structure SpanContext where
  cfg : Config
  desc : TupleDesc
  relid : Nat
  storageOf : Int → Nat
  xid : Nat
  seen : Nat → ItemPointerData → Bool
  external : ∀ i < desc.natts, (desc.attrs i).attstorage = .external →
    (desc.attrs i).attlen = -1 ∧ (desc.attrs i).atttypid ≠ bpcharOid

structure Prior where
  list : List BlobItem
  tLength : Int
  cache : OffsetCache

section

variable (c : SpanContext)

def fitsTuple (cfg : Config) (tLength : Int) : Bool :=
  decide (0 ≤ tLength ∧ tLength < cfg.maxTupleSize)

/-- One turn of `prioritize_blobs`. The length goes down for every item but the first. -/
def prioritizeAttribute (t : HeapTuple) (span : Span) (p : Prior) (i : Nat) : Option Prior :=
  if (c.desc.attrs i).attstorage ≠ .external then some p
  else if span = .size ∧ fitsTuple c.cfg p.tLength then some p
  else if span = .loc ∧ c.storageOf (-1) ≠ c.relid then some p
  else if (match span with | .attribute attnum => decide (i+1 ≠ attnum) | _ => false) = true then
    some p
  else
    match heapGetAttr c.desc t (i+1) p.cache with
    | (some (.pointer mem), cache) =>
      (insertBlob ⟨i+1, mem⟩ p.list).map fun list =>
        { list := list
          tLength := if p.list.isEmpty then p.tLength else p.tLength - (varsize mem - sizeofBlobHeader)
          cache := cache }
    | (_, cache) => some { p with cache := cache }

def prioritizeBlobs (t : HeapTuple) (span : Span) (cache : OffsetCache) : Option Prior :=
  (List.range c.desc.natts).foldlM (prioritizeAttribute c t span)
    { list := [], tLength := maxAlign t.tLen, cache := cache }

/-- The `varlena` to store. An indirect blob is read and its segments are deleted. -/
def itemData (fuel : Nat) (item : BlobItem) (w : Stores) : Except SpanError ((Nat × List UInt8) × Stores) :=
  if isIndirect item.data then do
    let h := readBlobHeader item.data
    let data ← rebuildIndirectBlob c.cfg w c.seen h
    let w ← deleteBlobSegments h.relid c.xid fuel h.forwardPointer w
    .ok ((h.blobLength % 2^30, data), w)
  else .ok ((varsize item.data, item.data.drop varhdrsz), w)

structure Spilled where
  stores : Stores
  repl : Nat → Option Datum
  limit : Nat

def putBlob (s : Spilled) (attnum size : Nat) (data : List UInt8) (w : Stores) : Except SpanError Spilled :=
  match storeBlobSegments c.cfg (w.rels (c.storageOf attnum)) (data.take (size-varhdrsz)) with
  | .error error => .error (.blob error)
  | .ok (none, rel) => .ok { s with stores := w.setRel (c.storageOf attnum) rel }
  | .ok (some (start, _), rel) =>
    let h : StoredBlob := ⟨size, start, c.storageOf attnum⟩
    .ok
      { stores := w.setRel (c.storageOf attnum) rel
        repl := Function.update s.repl (attnum-1) (some (.pointer h.bytes))
        limit := if h.relid = c.relid ∧ s.limit < start.ipBlkid then start.ipBlkid else s.limit }

def storeItem (fuel : Nat) (s : Spilled) (item : BlobItem) : Except SpanError Spilled := do
  let ((size, data), w) ← itemData c fuel item s.stores
  putBlob c s item.attnum size data w

structure Spanned where
  tuple : HeapTuple
  stores : Stores
  cache : OffsetCache
  limit : Nat

def replacedTuple (t new : HeapTuple) : HeapTuple :=
  { t with
    tLen := new.tLen
    tNatts := new.tNatts
    hasNull := new.hasNull || t.hasNull
    hasVarlena := new.hasVarlena || t.hasVarlena
    blobLinked := true
    hasBuffered := true
    tHoff := new.tHoff
    bits := new.bits
    data := new.data }

/-- The end of `store_tuple_blob` and of `span_buffered_blob`. -/
def modifySpanned (t : HeapTuple) (s : Spilled) (cache : OffsetCache) : Except SpanError Spanned :=
  match heapModifytuple c.desc t s.repl cache with
  | (.error text, _) => .error (.blob (.elog text))
  | (.ok new, cache) =>
    .ok { tuple := replacedTuple t new, stores := s.stores, cache := cache, limit := s.limit }

def storeTupleBlob (fuel : Nat) (t : HeapTuple) (span : Span) (w : Stores) (cache : OffsetCache) :
    Except SpanError Spanned :=
  match prioritizeBlobs c t span cache with
  | none => .error .nullPointer
  | some p => do
    let s ← p.list.foldlM (storeItem c fuel) { stores := w, repl := fun _ => none, limit := 0 }
    modifySpanned c t s p.cache

end

end WeaverDB.Blob
