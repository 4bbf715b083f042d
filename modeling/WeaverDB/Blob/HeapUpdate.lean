import WeaverDB.Blob.Spanning

/-! # The blobs of an update (`heap_update`)

The part of `heap_update` behind `LockHeapTupleForUpdate`. A tuple that is too long or has streams in it
goes through `RelationPutHeapTupleAtFreespace`, which writes the streams to segments and stores the
blobs. At the end `delete_tuple_blob` goes through the blobs of the old version.
-/

namespace WeaverDB.Blob
open Foundations Tuples

/-- The error flag, the free space of the old page and a new one, and the streams. -/
structure Surroundings where
  pageError : Bool
  pageSpace : Nat
  newPageSpace : Nat
  pipe : Nat → Option (List (List UInt8))

section

variable (c : SpanContext)

def spanAttribute (pipe : Nat → Option (List (List UInt8))) (t : HeapTuple)
    (s : Spilled × OffsetCache) (i : Nat) : Except SpanError (Spilled × OffsetCache) :=
  if (c.desc.attrs i).attstorage ≠ .external then .ok s
  else
    match heapGetAttr c.desc t (i+1) s.2 with
    | (some (.pointer blob), cache) =>
      if isBuffered blob then
        match pipe i with
        | none => .error (.blob (.elog "piping error"))
        | some pieces =>
          match writeBlob c.cfg (s.1.stores.rels (c.storageOf (i+1 : Nat)))
              (pieces.filter fun piece => !piece.isEmpty) with
          | .error error => .error (.blob error)
          | .ok (header, rel) =>
            let h : StoredBlob := ⟨header.blobLength, header.forwardPointer, c.storageOf (i+1 : Nat)⟩
            .ok
              ({ stores := s.1.stores.setRel (c.storageOf (i+1 : Nat)) rel
                 repl := Function.update s.1.repl i (some (.pointer h.bytes))
                 limit := 0 }, cache)
      else .ok (s.1, cache)
    | (_, cache) => .ok (s.1, cache)

def spanBufferedBlob (pipe : Nat → Option (List (List UInt8))) (t : HeapTuple) (w : Stores)
    (cache : OffsetCache) : Except SpanError Spanned := do
  let s ← (List.range c.desc.natts).foldlM (spanAttribute c pipe t)
    ({ stores := w, repl := fun _ => none, limit := 0 }, cache)
  modifySpanned c t s.1 s.2

/-- `blobatt` is the number of the last attribute with external storage, or 0. -/
def hasBlobatt (desc : TupleDesc) : Bool :=
  (List.range desc.natts).any fun i => decide ((desc.attrs i).attstorage = .external)

def spanStreams (pipe : Nat → Option (List (List UInt8))) (t : HeapTuple) (w : Stores)
    (cache : OffsetCache) : Except SpanError Spanned :=
  if t.hasBuffered then spanBufferedBlob c pipe t w cache
  else .ok { tuple := t, stores := w, cache := cache, limit := 0 }

def shortenTuple (fuel : Nat) (r : Spanned) : Except SpanError Spanned :=
  if c.cfg.maxTupleSize < maxAlign r.tuple.tLen then
    if hasBlobatt c.desc then storeTupleBlob c fuel r.tuple .size r.stores r.cache
    else .error (.blob (.elog ("Tuple is too big: size " ++ toString (maxAlign r.tuple.tLen) ++
      ", max size " ++ toString c.cfg.maxTupleSize)))
  else .ok r

/-- The search goes on until a page has the space. No page has more than a new one. -/
def relationPutHeapTupleAtFreespace (e : Surroundings) (fuel : Nat) (t : HeapTuple) (w : Stores)
    (cache : OffsetCache) : Except SpanError Spanned := do
  let r ← spanStreams c e.pipe t w cache
  let r ← shortenTuple c fuel r
  if e.newPageSpace < maxAlign r.tuple.tLen then .error .endless else .ok r

/-- The blob is compared with what is read again from the old tuple. -/
def deleteAttributeBlob (fuel : Nat) (t : HeapTuple) (newtup : Option HeapTuple)
    (s : Stores × OffsetCache) (i : Nat) : Except SpanError (Stores × OffsetCache) :=
  if (c.desc.attrs i).attstorage ≠ .external then .ok s
  else
    match heapGetAttr c.desc t (i+1) s.2 with
    | (some (.pointer blob), cache) =>
      if isIndirect blob then
        let h := readBlobHeader blob
        match newtup with
        | none => (deleteBlobSegments h.relid c.xid fuel h.forwardPointer s.1).map fun w => (w, cache)
        | some _ =>
          match heapGetAttr c.desc t (i+1) cache with
          | (some (.pointer checkblob), cache) =>
            if isIndirect checkblob &&
                decide (blob.take sizeofBlobHeader = checkblob.take sizeofBlobHeader) then
              .ok (s.1, cache)
            else
              (deleteBlobSegments h.relid c.xid fuel h.forwardPointer s.1).map fun w => (w, cache)
          | (_, cache) =>
            (deleteBlobSegments h.relid c.xid fuel h.forwardPointer s.1).map fun w => (w, cache)
      else .ok (s.1, cache)
    | (_, cache) => .ok (s.1, cache)

def deleteTupleBlob (fuel : Nat) (t : HeapTuple) (newtup : Option HeapTuple) (w : Stores)
    (cache : OffsetCache) : Except SpanError (Stores × OffsetCache) :=
  (List.range c.desc.natts).foldlM (deleteAttributeBlob c fuel t newtup) (w, cache)

def samePage (e : Surroundings) (newtup : HeapTuple) : Bool :=
  !e.pageError && decide (maxAlign newtup.tLen ≤ e.pageSpace) && !newtup.hasBuffered

def storeNewVersion (e : Surroundings) (fuel : Nat) (newtup : HeapTuple) (w : Stores)
    (cache : OffsetCache) : Except SpanError Spanned :=
  if samePage e newtup then .ok { tuple := newtup, stores := w, cache := cache, limit := 0 }
  else relationPutHeapTupleAtFreespace c e fuel newtup w cache

def heapUpdate (e : Surroundings) (fuel : Nat) (oldtup newtup : HeapTuple) (w : Stores)
    (cache : OffsetCache) : Except SpanError Spanned := do
  let r ← storeNewVersion c e fuel newtup w cache
  if oldtup.blobLinked then
    let s ← deleteTupleBlob c fuel oldtup (some r.tuple) r.stores r.cache
    .ok { r with stores := s.1, cache := s.2 }
  else .ok r

end

end WeaverDB.Blob
