import WeaverDB.Blob.StreamOut
import WeaverDB.Java.Protocol

/-! # Java values that are stored out of line

`javaout` collects the segments of a value in a buffer with a loop that moves the pointer to the buffer
itself; afterwards that pointer serves as the start of the bytes and as the block that is freed.
-/

namespace WeaverDB.Java
open Foundations List Blob
open Tuples (isIndirect)

variable (cfg : Config) (satisfies : ItemPointerData → Bool)

def collectSegments (rel : BlobRelation) : Nat → ReadPipeline → List UInt8 → Option (List UInt8)
  | 0, _, _ => none
  | fuel + 1, pipe, stored =>
    match readPipelineSegmentBlob cfg rel satisfies (2 * cfg.sizeofMaxTupleBlob + 2) pipe
      cfg.sizeofMaxTupleBlob with
    | none => none
    | some (false, _, _) => some stored
    | some (true, bytes, pipe) => collectSegments rel fuel pipe (stored ++ bytes)

/-- The buffer, the region handed to the loader, and the place passed to `pfree`. -/
structure Handed where
  size : Nat
  stored : List UInt8
  start : Nat
  length : Nat
  freed : Option Nat
deriving DecidableEq

def sizeofIndirectBlob (h : StoredBlob) : Int := ((h.blobLength : Int) - varhdrsz).bmod (2^32)

/-- `javaout` up to the loader; no result if `palloc` raises an error. -/
def javaout (w : Stores) (fuel : Nat) (datum : List UInt8) : Option Handed :=
  if isIndirect datum then
    let header := readBlobHeader datum
    let length := sizeofIndirectBlob header
    if 0 < length ∧ length ≤ maxAllocSize then
      let pipe := openReadPipelineBlob ⟨header.blobLength, header.forwardPointer⟩
      (collectSegments cfg satisfies (w.rels header.relid) fuel pipe []).map fun stored =>
        ⟨length.toNat, stored, stored.length, length.toNat, some stored.length⟩
    else none
  else
    let data := datum.drop varhdrsz
    some ⟨data.length, data, 0, data.length, none⟩

/-- The bytes are handed over, all accesses are inside the buffer, and it is freed by its own pointer.
-/
structure Handed.Right (h : Handed) (content : List UInt8) : Prop where
  bytes : readAt h.stored h.start h.length = content
  writes : h.stored.length ≤ h.size
  reads : h.start + h.length ≤ h.size
  freed : h.freed = none ∨ h.freed = some 0

variable {cfg satisfies}

theorem collectSegments_eq {rel : BlobRelation} (hsat : ∀ p, (rel.items p).isSome → satisfies p)
    (fuel : Nat) (pipe : ReadPipeline) (stored content : List UInt8)
    (hpipe : ∃ cached rest, Rest cfg rel pipe cached rest ∧ cached ++ rest = content)
    (hlength : pipe.read + content.length < pipe.length) (hfuel : content.length < fuel) :
    collectSegments cfg satisfies rel fuel pipe stored = some (stored ++ content) := by
  induction fuel generalizing pipe stored content with
  | zero => omega
  | succ fuel ih =>
    have hpos := cfg.size_pos
    obtain ⟨pipe', hread, hpipe', hlength'⟩ := read_rest hsat pipe hpipe hlength hpos _ (le_rfl)
    rw [collectSegments, hread]
    by_cases hnil : content = []
    · rw [hnil, append_nil]
      rfl
    · have hcontent := length_pos_iff.mpr hnil
      have hrest := ih pipe' (stored ++ content.take cfg.sizeofMaxTupleBlob)
        (content.drop cfg.sizeofMaxTupleBlob) hpipe' hlength' (by rw [length_drop]; omega)
      rw [append_assoc, take_append_drop] at hrest
      simpa only [hnil, ne_eq, not_false_eq_true, decide_true] using hrest

/-- No value out of line is handed over. -/
theorem javaout_indirect_not_right (cfg : Config) (w : Stores) (datum content : List UInt8)
    (hindirect : isIndirect datum) (hdatum : BlobContent cfg w datum content)
    (satisfies : ItemPointerData → Bool)
    (hsat : ∀ relid p, ((w.rels relid).items p).isSome → satisfies p)
    (fuel : Nat) (hfuel : content.length < fuel) :
    ¬ ∃ h, javaout cfg satisfies w fuel datum = some h ∧ h.Right content := by
  rintro ⟨h, hout, hright⟩
  rw [BlobContent, if_pos hindirect] at hdatum
  obtain ⟨nodes, hblob⟩ := hdatum
  have hopen : 0 + content.length < (readBlobHeader datum).blobLength := by
    rw [hblob.length, Blob.varhdrsz]
    omega
  have hcollect := collectSegments_eq (hsat _) fuel
    (openReadPipelineBlob ⟨(readBlobHeader datum).blobLength, (readBlobHeader datum).forwardPointer⟩)
    [] content ⟨[], content, ⟨rfl, nodes, hblob.segs, hblob.flatten⟩, nil_append _⟩ hopen hfuel
  rw [javaout, if_pos hindirect] at hout
  simp only [hcollect, nil_append, Option.map_some] at hout
  split at hout
  · next hlength =>
    cases hout
    have hreads : content.length + (sizeofIndirectBlob (readBlobHeader datum)).toNat ≤
        (sizeofIndirectBlob (readBlobHeader datum)).toNat := hright.reads
    have hnil : content = [] := length_eq_zero_iff.mp (by omega)
    rw [sizeofIndirectBlob, hblob.length, hnil] at hlength
    exact absurd hlength.1 (by decide)
  · cases hout

theorem javaout_indirect_two_bytes : ¬ ∃ h,
    javaout segmentsOfFour (fun _ => true) twoBytes 3 twoBytesHeader.bytes = some h ∧ h.Right [1, 2] :=
  javaout_indirect_not_right segmentsOfFour twoBytes twoBytesHeader.bytes [1, 2]
    (isIndirect_headerBytes _) twoBytes_content (fun _ => true) (fun _ _ _ => rfl) 3 (by decide)

/-- Of two bytes the loader gets the two behind the buffer. -/
theorem javaout_reads_behind : ∃ h,
    javaout segmentsOfFour (fun _ => true) twoBytes 3 twoBytesHeader.bytes = some h ∧
      h.stored = [1, 2] ∧ h.size = 2 ∧ h.start = 2 ∧ h.length = 2 ∧ h.freed = some 2 ∧
      ¬ h.Right [1, 2] := by
  refine ⟨⟨2, [1, 2], 2, 2, some 2⟩, by decide, rfl, rfl, rfl, rfl, rfl, fun hright => ?_⟩
  exact absurd hright.reads (by decide)

end WeaverDB.Java
