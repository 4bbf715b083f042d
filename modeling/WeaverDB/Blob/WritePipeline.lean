import WeaverDB.Blob.Storage

/-! # The write pipeline of a blob

`write_pipeline_segment_blob` gathers its chunks in a cache of one segment and stores full segments;
`close_write_pipeline_blob` stores the rest. `Piped`: what was `flushed` is a list of segments that ends
with the tail, the rest is in the cache.
-/

namespace WeaverDB.Blob
open Foundations List Nat

/-! ## Routines -/

def varhdrsz : Nat := 4

structure WritePipeline where
  headPointer : ItemPointerData
  tailPointer : ItemPointerData
  length : Nat
  cacheData : List UInt8
  cacheLimit : Nat

structure BlobHeader where
  blobLength : Nat
  forwardPointer : ItemPointerData

def openWritePipelineBlob (cfg : Config) : WritePipeline where
  headPointer := itemPointerInvalid
  tailPointer := itemPointerInvalid
  length := 0
  cacheData := []
  cacheLimit := cfg.sizeofMaxTupleBlob

def linkTail (rel : BlobRelation) (tail start : ItemPointerData) : Except BlobError BlobRelation :=
  match rel.items tail with
  | none => .error (.elog "writing stream")
  | some segment =>
    .ok { rel with items := Function.update rel.items tail (some { segment with forward := start }) }

def sendSegments (cfg : Config) (rel : BlobRelation) (pipe : WritePipeline) (data : List UInt8) :
    Except BlobError (Bool × BlobRelation × WritePipeline) := do
  match ← storeBlobSegments cfg rel data with
  | (none, rel) => .ok (true, rel, pipe)
  | (some (start, tail), rel) =>
    if itemPointerIsValid pipe.tailPointer then
      let rel ← linkTail rel pipe.tailPointer start
      .ok (true, rel, { pipe with tailPointer := tail, length := pipe.length + data.length })
    else
      .ok (true, rel, { pipe with
        headPointer := start, tailPointer := tail, length := pipe.length + data.length })

def writePipelineSegmentBlob (cfg : Config) (rel : BlobRelation) (pipe : WritePipeline) :
    Option (List UInt8) → Except BlobError (Bool × BlobRelation × WritePipeline)
  | some data =>
    let tail := (pipe.cacheData.length+data.length) % pipe.cacheLimit
    if pipe.cacheData.length = 0 ∧ tail = 0 then sendSegments cfg rel pipe data
    else if pipe.cacheLimit < data.length + pipe.cacheData.length then
      let send := (pipe.cacheData ++ data).take (pipe.cacheData.length + data.length - tail)
      sendSegments cfg rel { pipe with cacheData := data.drop (data.length-tail) } send
    else .ok (false, rel, { pipe with cacheData := pipe.cacheData ++ data })
  | none =>
    if pipe.cacheData.length = 0 then .ok (false, rel, pipe)
    else sendSegments cfg rel pipe pipe.cacheData

def closeWritePipelineBlob (cfg : Config) (rel : BlobRelation) (pipe : WritePipeline) :
    Except BlobError (BlobHeader × BlobRelation) := do
  let (_, rel, pipe) ←
    if 0 < pipe.cacheData.length then writePipelineSegmentBlob cfg rel pipe none
    else .ok (false, rel, pipe)
  .ok ({ blobLength := pipe.length+varhdrsz, forwardPointer := pipe.headPointer }, rel)

def writeChunks (cfg : Config) (rel : BlobRelation) (pipe : WritePipeline) :
    List (List UInt8) → Except BlobError (BlobRelation × WritePipeline)
  | [] => .ok (rel, pipe)
  | chunk :: chunks => do
    let (_, rel, pipe) ← writePipelineSegmentBlob cfg rel pipe (some chunk)
    writeChunks cfg rel pipe chunks

def writeBlob (cfg : Config) (rel : BlobRelation) (chunks : List (List UInt8)) :
    Except BlobError (BlobHeader × BlobRelation) := do
  let (rel, pipe) ← writeChunks cfg rel (openWritePipelineBlob cfg) chunks
  closeWritePipelineBlob cfg rel pipe

/-! ## The pipeline -/

structure Holds (size : Nat) (rel : BlobRelation) (head tail : ItemPointerData)
    (bytes : List UInt8) : Prop where
  exists_segs : ∃ nodes, Segs size rel head nodes ∧ tail = lastPointer nodes ∧
    (nodes.map Prod.snd).flatten = bytes

structure Piped (cfg : Config) (rel : BlobRelation) (pipe : WritePipeline) (flushed : List UInt8) : Prop where
  ready : rel.Ready
  holds : Holds cfg.sizeofMaxTupleBlob rel pipe.headPointer pipe.tailPointer flushed
  length : pipe.length = flushed.length
  limit : pipe.cacheLimit = cfg.sizeofMaxTupleBlob
  cached : pipe.cacheData.length ≤ cfg.sizeofMaxTupleBlob

theorem bind_ok {ε α β : Type} {x : Except ε α} {f : α → Except ε β} {b : β}
    (h : x >>= f = .ok b) : ∃ a, x = .ok a ∧ f a = .ok b := by
  cases x with
  | error e => cases h
  | ok a => exact ⟨a, rfl, h⟩

theorem linkTail_ok {size : Nat} {rel : BlobRelation} {head start : ItemPointerData}
    {nodes more : List (ItemPointerData × List UInt8)} (h : Segs size rel head nodes)
    (hmore : Segs size rel start more) (hne : nodes ≠ []) (hready : rel.Ready)
    (hapart : ∀ q ∈ more.map Prod.fst, q ∉ nodes.map Prod.fst) :
    ∃ rel', linkTail rel (lastPointer nodes) start = .ok rel' ∧
      Segs size rel' head (nodes ++ more) ∧ rel'.Ready ∧ rel'.room = rel.room := by
  obtain ⟨init, ⟨t, piece⟩, rfl⟩ : ∃ init n, nodes = init ++ [n] := ⟨_, _, (dropLast_append_getLast hne).symm⟩
  have hlast : lastPointer (init ++ [(t, piece)]) = t := by
    rw [lastPointer, List.getLast?_append_of_ne_nil _ (cons_ne_nil _ _)]
    rfl
  obtain ⟨q, -, htail⟩ := h.chain.split
  have hcell : rel.cell t = some (piece, itemPointerInvalid) := by
    cases htail with
    | cons hc hnil =>
      cases hnil
      exact hc
  obtain ⟨segment, hitem, hseg⟩ := Option.map_eq_some_iff.mp hcell
  have hdata : segment.data = piece := congrArg Prod.fst hseg
  refine ⟨{ items := Function.update rel.items t (some ⟨start, piece⟩), room := rel.room }, ?_,
    h.relink hmore hapart rel.room, ⟨hready.nodup, hready.valid, fun q hq => ?_⟩, rfl⟩
  · rw [hlast, linkTail, hitem, ← hdata]
  · have hne : q ≠ t := by
      rintro rfl
      cases (hready.free q hq).symm.trans hitem
    exact (Function.update_of_ne hne ..).trans (hready.free q hq)

section

variable {cfg : Config} {rel : BlobRelation} {pipe : WritePipeline} {flushed : List UInt8}

theorem sendSegments_ok (h : Piped cfg rel pipe flushed) (data : List UInt8) (hdata : 0 < data.length)
    (hroom : segmentCount cfg.sizeofMaxTupleBlob data.length ≤ rel.room.length) :
    ∃ rel' pipe', sendSegments cfg rel pipe data = .ok (true, rel', pipe') ∧
      Piped cfg rel' pipe' (flushed ++ data) ∧ pipe'.cacheData = pipe.cacheData ∧
      rel'.room = rel.room.drop (segmentCount cfg.sizeofMaxTupleBlob data.length) := by
  obtain ⟨nodes, hsegs, htail, hbytes⟩ := h.holds.exists_segs
  obtain ⟨start, more, rel₁, hok, hmore, hne, hdatas, hplaces, hgrown⟩ := storeBlobSegments_ok h.ready hdata hroom
  have hflat : ((nodes ++ more).map Prod.snd).flatten = flushed ++ data := by
    rw [map_append, flatten_append, hbytes, hdatas]
  have hlength : pipe.length + data.length = (flushed ++ data).length := by
    rw [length_append, h.length]
  have hlast : lastPointer (nodes ++ more) = lastPointer more := by
    rw [lastPointer, List.getLast?_append_of_ne_nil _ hne]
    rfl
  cases hvalid : itemPointerIsValid pipe.tailPointer with
  | true =>
    have hnodes : nodes ≠ [] := by
      rintro rfl
      rw [htail] at hvalid
      cases hvalid
    obtain ⟨rel', hlink, hall, hready', hroom'⟩ := linkTail_ok (hgrown.kept _ _ hsegs) hmore hnodes
      hgrown.ready fun q hq => hsegs.not_mem_of_free (h.ready.free q (hplaces q hq))
    refine ⟨rel', { pipe with
      tailPointer := lastPointer more, length := pipe.length + data.length }, ?_, ?_, rfl, ?_⟩
    · unfold sendSegments
      rw [hok]
      dsimp only [bind, Except.bind]
      rw [if_pos hvalid, htail, hlink]
    · exact ⟨hready', ⟨_, hall, hlast.symm, hflat⟩, hlength, h.limit, h.cached⟩
    · rw [hroom', hgrown.room]
  | false =>
    have hnodes : nodes = [] := by
      rw [htail, lastPointer_valid hsegs] at hvalid
      rw [← List.isEmpty_iff]
      exact (Bool.not_eq_false' ..).mp hvalid
    subst hnodes
    refine ⟨rel₁, { pipe with
      headPointer := start, tailPointer := lastPointer more, length := pipe.length + data.length },
      ?_, ?_, rfl, hgrown.room⟩
    · unfold sendSegments
      rw [hok]
      dsimp only [bind, Except.bind]
      rw [if_neg (Bool.eq_false_iff.mp hvalid)]
    · exact ⟨hgrown.ready, ⟨more, hmore, rfl, hflat⟩, hlength, h.limit, h.cached⟩

theorem sendSegments_whole (h : Piped cfg rel pipe flushed) (data : List UInt8) (q : Nat)
    (hdata : data.length = q*cfg.sizeofMaxTupleBlob)
    (hroom : data.length ≤ rel.room.length*cfg.sizeofMaxTupleBlob) :
    ∃ rel' pipe', sendSegments cfg rel pipe data = .ok (true, rel', pipe') ∧
      Piped cfg rel' pipe' (flushed ++ data) ∧ pipe'.cacheData = pipe.cacheData ∧
      rel'.room.length * cfg.sizeofMaxTupleBlob + data.length = rel.room.length * cfg.sizeofMaxTupleBlob := by
  have hsize := cfg.size_pos
  obtain h0 | hpos := Nat.eq_zero_or_pos data.length
  · obtain rfl := length_eq_zero_iff.mp h0
    refine ⟨rel, pipe, ?_, ?_, rfl, rfl⟩
    · rfl
    · rw [append_nil]
      exact h
  · have hcount : segmentCount cfg.sizeofMaxTupleBlob data.length = q := by
      rw [hdata, segmentCount_mul hsize]
    have hq : q ≤ rel.room.length := by
      rw [hdata] at hroom
      exact Nat.le_of_mul_le_mul_right hroom hsize
    obtain ⟨rel', pipe', hok, hpiped, hcache, hroom'⟩ := sendSegments_ok h data hpos (hcount.symm ▸ hq)
    refine ⟨rel', pipe', hok, hpiped, hcache, ?_⟩
    rw [hroom', hcount, length_drop, hdata, ← Nat.add_mul, Nat.sub_add_cancel hq]

theorem tail_le {c n size : Nat} (hc : c ≤ size) (hfull : size < n+c) : (c+n) % size ≤ n := by
  rw [mod_eq_sub_mod (by omega)]
  exact le_trans (mod_le _ _) (by omega)

theorem write_piped (h : Piped cfg rel pipe flushed) (data : List UInt8)
    (hroom : (pipe.cacheData ++ data).length ≤ rel.room.length*cfg.sizeofMaxTupleBlob) :
    ∃ b rel' pipe' sent, writePipelineSegmentBlob cfg rel pipe (some data) = .ok (b, rel', pipe') ∧
      Piped cfg rel' pipe' (flushed ++ sent) ∧ sent ++ pipe'.cacheData = pipe.cacheData ++ data ∧
      rel'.room.length * cfg.sizeofMaxTupleBlob + sent.length = rel.room.length * cfg.sizeofMaxTupleBlob := by
  have hsize := cfg.size_pos
  have hcached := h.cached
  rw [length_append] at hroom
  unfold writePipelineSegmentBlob
  dsimp only
  rw [h.limit]
  split_ifs with hdirect hfull
  · obtain ⟨hempty, htail⟩ := hdirect
    rw [hempty, Nat.zero_add] at htail
    obtain ⟨rel', pipe', hok, hpiped, hcache, hleft⟩ := sendSegments_whole h data
      (data.length/cfg.sizeofMaxTupleBlob) (Nat.div_mul_cancel (dvd_of_mod_eq_zero htail)).symm
      (by omega)
    refine ⟨true, rel', pipe', data, hok, hpiped, ?_, hleft⟩
    rw [hcache, length_eq_zero_iff.mp hempty, append_nil, nil_append]
  · have hle := tail_le hcached hfull
    have hdiv := div_add_mod' (pipe.cacheData.length+data.length) cfg.sizeofMaxTupleBlob
    have hmod := mod_lt (pipe.cacheData.length+data.length) hsize
    generalize (pipe.cacheData.length+data.length) % cfg.sizeofMaxTupleBlob = tail at *
    have hsent : ((pipe.cacheData ++ data).take (pipe.cacheData.length + data.length - tail)).length =
        pipe.cacheData.length + data.length - tail := by
      rw [length_take, length_append]
      omega
    have hrest : (pipe.cacheData ++ data).drop (pipe.cacheData.length + data.length - tail) =
        data.drop (data.length-tail) := by
      rw [Nat.add_sub_assoc hle, drop_length_add_append]
    have hpiped₀ : Piped cfg rel { pipe with
        cacheData := data.drop (data.length-tail), cacheLimit := cfg.sizeofMaxTupleBlob } flushed :=
      ⟨h.ready, h.holds, h.length, rfl, by rw [length_drop]; omega⟩
    obtain ⟨rel', pipe', hok, hpiped, hcache, hleft⟩ := sendSegments_whole hpiped₀ _
      ((pipe.cacheData.length+data.length) / cfg.sizeofMaxTupleBlob) (by rw [hsent]; omega)
      (by omega)
    refine ⟨true, rel', pipe', _, hok, hpiped, ?_, hleft⟩
    rw [hcache]
    rw [← hrest, take_append_drop]
  · refine ⟨false, rel, _, [], rfl, ?_, rfl, rfl⟩
    rw [append_nil]
    exact ⟨h.ready, h.holds, h.length, rfl, by rw [length_append]; omega⟩

variable {chunks : List (List UInt8)}

theorem writeChunks_piped (h : Piped cfg rel pipe flushed)
    (hroom : (pipe.cacheData ++ chunks.flatten).length ≤ rel.room.length*cfg.sizeofMaxTupleBlob) :
    ∃ rel' pipe' flushed', writeChunks cfg rel pipe chunks = .ok (rel', pipe') ∧
      Piped cfg rel' pipe' flushed' ∧
      flushed' ++ pipe'.cacheData = flushed ++ pipe.cacheData ++ chunks.flatten ∧
      pipe'.cacheData.length ≤ rel'.room.length*cfg.sizeofMaxTupleBlob := by
  induction chunks generalizing rel pipe flushed with
  | nil =>
    rw [flatten_nil, append_nil] at hroom
    exact ⟨rel, pipe, flushed, rfl, h, (append_nil _).symm, hroom⟩
  | cons chunk chunks ih =>
    rw [flatten_cons, ← append_assoc, length_append] at hroom
    obtain ⟨b, rel₁, pipe₁, sent, hok, hpiped, hbytes, hleft⟩ := write_piped h chunk (le_trans (le_add_right _ _) hroom)
    have hlen := congrArg List.length hbytes
    rw [length_append] at hlen
    obtain ⟨rel', pipe', flushed', hok', hpiped', hbytes', hroom'⟩ := ih hpiped (by
      rw [length_append]
      omega)
    refine ⟨rel', pipe', flushed', ?_, hpiped', ?_, hroom'⟩
    · unfold writeChunks
      rw [hok]
      exact hok'
    · rw [hbytes', append_assoc flushed, hbytes, flatten_cons]
      simp only [append_assoc]

theorem writeBlob_ok (hready : rel.Ready) (hroom : chunks.flatten.length ≤ rel.room.length*cfg.sizeofMaxTupleBlob) :
    ∃ header rel', writeBlob cfg rel chunks = .ok (header, rel') ∧
      header.blobLength = chunks.flatten.length+varhdrsz ∧
      ∃ nodes, Segs cfg.sizeofMaxTupleBlob rel' header.forwardPointer nodes ∧
        (nodes.map Prod.snd).flatten = chunks.flatten := by
  have hstart : Piped cfg rel (openWritePipelineBlob cfg) [] :=
    ⟨hready, ⟨[], Segs.nil _ rel, rfl, rfl⟩, rfl, rfl, Nat.zero_le _⟩
  obtain ⟨rel₁, pipe₁, flushed, hok, hpiped, hbytes, hleft⟩ := writeChunks_piped hstart hroom
  unfold writeBlob closeWritePipelineBlob
  rw [hok]
  dsimp only [bind, Except.bind]
  by_cases hcache : 0 < pipe₁.cacheData.length
  · have hcount : segmentCount cfg.sizeofMaxTupleBlob pipe₁.cacheData.length ≤ rel₁.room.length := by
      have hspec := (segmentCount_spec cfg.size_pos hcache).2.1
      have hlt := Nat.lt_of_mul_lt_mul_right (Nat.lt_of_lt_of_le hspec hleft)
      omega
    obtain ⟨rel', pipe', hsend, hpiped', -, -⟩ := sendSegments_ok hpiped _ hcache hcount
    rw [hbytes] at hpiped'
    rw [if_pos hcache, writePipelineSegmentBlob, if_neg (Nat.ne_of_gt hcache), hsend]
    obtain ⟨nodes, hsegs, -, hflat⟩ := hpiped'.holds.exists_segs
    exact ⟨_, rel', rfl, congrArg (· + varhdrsz) hpiped'.length, nodes, hsegs, hflat⟩
  · have hnil : pipe₁.cacheData = [] := length_eq_zero_iff.mp (Nat.eq_zero_of_not_pos hcache)
    rw [hnil, append_nil] at hbytes
    subst hbytes
    rw [if_neg hcache]
    obtain ⟨nodes, hsegs, -, hflat⟩ := hpiped.holds.exists_segs
    exact ⟨_, rel₁, rfl, congrArg (· + varhdrsz) hpiped.length, nodes, hsegs, hflat⟩

end

end WeaverDB.Blob
