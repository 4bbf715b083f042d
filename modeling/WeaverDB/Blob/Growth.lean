import WeaverDB.Blob.WritePipeline

/-! # What storing a blob leaves alone

Storing uses free places of the relation: what was there is still there, and the pointers and links are
to new places (`Extends`, `Fresh`).
-/

namespace WeaverDB.Blob
open Foundations List Function

def Fresh (rel : BlobRelation) (p : ItemPointerData) : Prop := p ∈ rel.room ∨ p = itemPointerInvalid

structure Extends (rel rel' : BlobRelation) : Prop where
  kept : ∀ p segment, rel.items p = some segment → rel'.items p = some segment
  room : ∀ p ∈ rel'.room, p ∈ rel.room
  ready : rel'.Ready
  linked : ∀ p ∈ rel.room, ∀ segment, rel'.items p = some segment → Fresh rel segment.forward

section

variable {cfg : Config} {rel r r' : BlobRelation} {p link tail start : ItemPointerData}

theorem Extends.refl (h : rel.Ready) : Extends rel rel where
  kept _ _ h := h
  room _ h := h
  ready := h
  linked p hp _ hsome := absurd (hsome.symm.trans (h.free p hp)) nofun

theorem Extends.segs (h : Extends rel r) {size : Nat} {nodes : List (ItemPointerData × List UInt8)}
    (hs : Segs size rel start nodes) : Segs size r start nodes := by
  refine ⟨hs.chain.congr fun n hn => ?_, hs.nodup, hs.valid, hs.sized⟩
  obtain ⟨x, hx⟩ := Option.isSome_iff_exists.mp (hs.chain.isSome hn)
  obtain ⟨segment, hitem, _⟩ := Option.map_eq_some_iff.mp hx
  simp only [BlobRelation.cell, h.kept _ _ hitem, hitem]

theorem fresh_invalid (rel : BlobRelation) : Fresh rel itemPointerInvalid := .inr rfl

theorem Fresh.mem_of_valid (h : Fresh rel p) (hvalid : itemPointerIsValid p) : p ∈ rel.room := by
  refine h.resolve_right ?_
  rintro rfl
  exact absurd hvalid (by decide)

section

variable (hrel : rel.Ready)
include hrel

theorem Fresh.ne_start (hp : Fresh rel p) {size : Nat} {nodes : List (ItemPointerData × List UInt8)}
    (hs : Segs size rel start nodes) (hne : nodes ≠ []) : p ≠ start := by
  rintro rfl
  obtain ⟨n, rest, rfl⟩ := exists_cons_of_ne_nil hne
  obtain ⟨_, hvalid, _, _, next, hcell, _⟩ := hs.uncons
  have hfree := hrel.free p (hp.mem_of_valid hvalid)
  simp [BlobRelation.cell, hfree] at hcell

theorem Extends.update (h : Extends rel r) (hp : p ∈ rel.room) (segment : SegmentHeader)
    (hsegment : Fresh rel segment.forward) {room : List ItemPointerData} (hroom : ∀ q ∈ room, q ∈ r.room ∧ q ≠ p)
    (hnodup : room.Nodup) : Extends rel { items := Function.update r.items p (some segment), room := room } where
  kept q old hq := by
    have hne : q ≠ p := by
      rintro rfl
      exact absurd (hq.symm.trans (hrel.free q hp)) nofun
    exact (update_of_ne hne _ _).trans (h.kept q old hq)
  room q hq := h.room q (hroom q hq).1
  ready :=
    { nodup := hnodup
      valid := fun q hq => h.ready.valid q (hroom q hq).1
      free := fun q hq =>
        (update_of_ne (hroom q hq).2 _ _).trans (h.ready.free q (hroom q hq).1) }
  linked q hq new hnew := by
    change Function.update r.items p (some segment) q = some new at hnew
    by_cases hqp : q = p
    · rw [hqp, update_self] at hnew
      exact Option.some.inj hnew ▸ hsegment
    · rw [update_of_ne hqp] at hnew
      exact h.linked q hq new hnew

theorem storeSegment_extends (h : Extends rel r) {segment : SegmentHeader}
    (hsegment : Fresh rel segment.forward) (hok : storeSegment r segment = .ok (p, r')) :
    Extends rel r' ∧ p ∈ rel.room := by
  unfold storeSegment at hok
  cases hroom : r.room with
  | nil =>
    rw [hroom] at hok
    cases hok
  | cons self room =>
    rw [hroom] at hok
    obtain ⟨rfl, rfl⟩ := Prod.mk.inj (Except.ok.inj hok)
    have hself : self ∈ r.room := hroom ▸ (.head _)
    have hnodup := h.ready.nodup
    rw [hroom] at hnodup
    obtain ⟨hout, hnodup'⟩ := nodup_cons.mp hnodup
    refine ⟨h.update hrel (h.room self hself) segment hsegment (fun q hq => ⟨?_, ?_⟩) hnodup', h.room self hself⟩
    · exact hroom ▸ mem_cons_of_mem self hq
    · rintro rfl
      exact hout hq

theorem storeBack_extends (pieces : List (List UInt8)) (h : Extends rel r)
    (hlink : Fresh rel link) (htail : Fresh rel tail) {last : ItemPointerData}
    (hok : storeBack r link tail pieces = .ok (start, last, r')) :
    Extends rel r' ∧ Fresh rel start ∧ Fresh rel last := by
  induction pieces generalizing r link tail with
  | nil =>
    obtain ⟨rfl, heq⟩ := Prod.mk.inj (Except.ok.inj hok)
    obtain ⟨rfl, rfl⟩ := Prod.mk.inj heq
    exact ⟨h, hlink, htail⟩
  | cons piece pieces ih =>
    obtain ⟨⟨self, r₁⟩, hstore, hrest⟩ := bind_ok hok
    obtain ⟨h₁, hself⟩ := storeSegment_extends hrel h hlink hstore
    refine ih h₁ (.inl hself) ?_ hrest
    split
    · exact htail
    · exact .inl hself

theorem storeBlobSegments_extends (h : Extends rel r) {data : List UInt8}
    {ends : Option (ItemPointerData × ItemPointerData)}
    (hok : storeBlobSegments cfg r data = .ok (ends, r')) :
    Extends rel r' ∧ (ends = none ↔ data = []) ∧
      ∀ start last, ends = some (start, last) → Fresh rel start ∧ Fresh rel last := by
  unfold storeBlobSegments at hok
  split at hok
  · next hnil =>
    cases hok
    exact ⟨h, ⟨fun _ => length_eq_zero_iff.mp hnil, fun _ => rfl⟩, nofun⟩
  · next hne =>
    obtain ⟨⟨start, last, r₁⟩, hback, hrest⟩ := bind_ok hok
    cases hrest
    obtain ⟨h₁, hstart, hlast⟩ := storeBack_extends hrel _ h (fresh_invalid rel) (fresh_invalid rel) hback
    refine ⟨h₁, ⟨nofun, fun hnil => absurd (congrArg List.length hnil) hne⟩, ?_⟩
    rintro s l heq
    cases heq
    exact ⟨hstart, hlast⟩

theorem linkTail_extends (h : Extends rel r) (htail : tail ∈ rel.room)
    (hstart : Fresh rel start) (hok : linkTail r tail start = .ok r') : Extends rel r' := by
  unfold linkTail at hok
  cases hitem : r.items tail with
  | none =>
    rw [hitem] at hok
    cases hok
  | some segment =>
    rw [hitem] at hok
    cases hok
    refine h.update hrel htail _ hstart (fun q hq => ⟨hq, ?_⟩) h.ready.nodup
    rintro rfl
    exact absurd (hitem.symm.trans (h.ready.free q hq)) nofun

end

/-! ## The pipeline -/

structure PipeExtends (rel r : BlobRelation) (pipe : WritePipeline) : Prop where
  grown : Extends rel r
  head : Fresh rel pipe.headPointer
  tail : Fresh rel pipe.tailPointer

variable {pipe pipe' : WritePipeline}

section

variable (hrel : rel.Ready)
include hrel

theorem sendSegments_extends (h : PipeExtends rel r pipe) {data : List UInt8}
    {b : Bool} (hok : sendSegments cfg r pipe data = .ok (b, r', pipe')) :
    PipeExtends rel r' pipe' := by
  obtain ⟨⟨ends, r₁⟩, hstore, hrest⟩ := bind_ok hok
  obtain ⟨h₁, _, hends⟩ := storeBlobSegments_extends hrel h.grown hstore
  cases ends with
  | none =>
    obtain ⟨_, heq⟩ := Prod.mk.inj (Except.ok.inj hrest)
    obtain ⟨rfl, rfl⟩ := Prod.mk.inj heq
    exact ⟨h₁, h.head, h.tail⟩
  | some pair =>
    obtain ⟨start, last⟩ := pair
    obtain ⟨hstart, hlast⟩ := hends start last rfl
    dsimp only at hrest
    split at hrest
    · next hvalid =>
      obtain ⟨r₂, hlink, hlast'⟩ := bind_ok hrest
      have htail := h.tail.mem_of_valid hvalid
      obtain ⟨_, heq⟩ := Prod.mk.inj (Except.ok.inj hlast')
      obtain ⟨rfl, rfl⟩ := Prod.mk.inj heq
      exact ⟨linkTail_extends hrel h₁ htail hstart hlink, h.head, hlast⟩
    · obtain ⟨_, heq⟩ := Prod.mk.inj (Except.ok.inj hrest)
      obtain ⟨rfl, rfl⟩ := Prod.mk.inj heq
      exact ⟨h₁, hstart, hlast⟩

theorem writePipelineSegmentBlob_extends (h : PipeExtends rel r pipe) {data : Option (List UInt8)} {b : Bool}
    (hok : writePipelineSegmentBlob cfg r pipe data = .ok (b, r', pipe')) :
    PipeExtends rel r' pipe' := by
  have hsame : ∀ {pipe₁ : WritePipeline} {b₁ : Bool}, pipe₁.headPointer = pipe.headPointer →
      pipe₁.tailPointer = pipe.tailPointer →
      (.ok (b₁, r, pipe₁) : Except BlobError (Bool × BlobRelation × WritePipeline)) = .ok (b, r', pipe') →
      PipeExtends rel r' pipe' := by
    intro pipe₁ b₁ hhead htail hok
    obtain ⟨_, heq⟩ := Prod.mk.inj (Except.ok.inj hok)
    obtain ⟨rfl, rfl⟩ := Prod.mk.inj heq
    exact ⟨h.grown, hhead ▸ h.head, htail ▸ h.tail⟩
  cases data with
  | some data =>
    unfold writePipelineSegmentBlob at hok
    dsimp only at hok
    split at hok
    · exact sendSegments_extends hrel h hok
    · split at hok
      · refine sendSegments_extends hrel ?_ hok
        exact ⟨h.grown, h.head, h.tail⟩
      · refine hsame ?_ ?_ hok
        · rfl
        · rfl
  | none =>
    unfold writePipelineSegmentBlob at hok
    dsimp only at hok
    split at hok
    · exact hsame rfl rfl hok
    · exact sendSegments_extends hrel h hok

theorem writeChunks_extends (chunks : List (List UInt8)) (h : PipeExtends rel r pipe)
    (hok : writeChunks cfg r pipe chunks = .ok (r', pipe')) : PipeExtends rel r' pipe' := by
  induction chunks generalizing r pipe with
  | nil =>
    cases hok
    exact h
  | cons chunk chunks ih =>
    obtain ⟨⟨b, r₁, pipe₁⟩, hwrite, hrest⟩ := bind_ok hok
    exact ih (writePipelineSegmentBlob_extends hrel h hwrite) hrest

theorem writeBlob_extends (h : Extends rel r) {chunks : List (List UInt8)}
    {header : BlobHeader} (hok : writeBlob cfg r chunks = .ok (header, r')) :
    Extends rel r' ∧ Fresh rel header.forwardPointer := by
  obtain ⟨⟨r₁, pipe₁⟩, hchunks, hclose⟩ := bind_ok hok
  have h₁ := writeChunks_extends hrel chunks ⟨h, fresh_invalid rel, fresh_invalid rel⟩ hchunks
  change closeWritePipelineBlob cfg r₁ pipe₁ = _ at hclose
  unfold closeWritePipelineBlob at hclose
  split at hclose
  · obtain ⟨⟨b, r₂, pipe₂⟩, hflush, hrest⟩ := bind_ok hclose
    have h₂ := writePipelineSegmentBlob_extends hrel h₁ hflush
    cases hrest
    exact ⟨h₂.grown, h₂.head⟩
  · cases hclose
    exact ⟨h₁.grown, h₁.head⟩

end

end

end WeaverDB.Blob
