import Mathlib.Data.Nat.Find
import WeaverDB.Blob.WritePipeline

/-! # The read pipeline of a blob

`read_pipeline_segment_blob` fills its target from the cache and the segments. `Rest` are the bytes
still to come, and a call with a positive limit delivers the next of them (`read_rest`), so what went
into the write pipeline comes out whatever the two chunkings are.
-/

namespace WeaverDB.Blob
open Foundations Int Option List

variable {limits : Nat → Nat} {stored cached piece rest : List UInt8} {n : Nat}

def int16 (n : Int) : Int := n.bmod (2^16)

structure ReadPipeline where
  tailPointer : ItemPointerData
  length : Nat
  read : Nat
  cacheData : Option (List UInt8)
  cacheOffset : Int
  cacheLength : Int

def openReadPipelineBlob (header : BlobHeader) : ReadPipeline where
  tailPointer := header.forwardPointer
  length := header.blobLength
  read := 0
  cacheData := none
  cacheOffset := 0
  cacheLength := 0

/-- The variables of the loop: `count` is the number of bytes at the target. -/
structure Reading where
  pipe : ReadPipeline
  target : List UInt8
  dataAvail : Bool

def readCache (limit : Nat) (data : List UInt8) (r : Reading) : Reading :=
  let passLim : Int := limit-r.target.length
  let cacheLim := r.pipe.cacheLength-r.pipe.cacheOffset
  let localLim := if passLim < cacheLim then passLim else cacheLim
  let target := r.target ++ (data.drop r.pipe.cacheOffset.toNat).take localLim.toNat
  let offset := int16 (r.pipe.cacheOffset+localLim)
  if offset = r.pipe.cacheLength then
    { pipe := { r.pipe with cacheData := none, cacheOffset := 0, cacheLength := 0 }
      target := target
      dataAvail := true }
  else
    { pipe := { r.pipe with cacheOffset := offset }, target := target, dataAvail := true }

section

variable (cfg : Config) (rel : BlobRelation) (satisfies : ItemPointerData → Bool)

def readDisk (limit : Nat) (r : Reading) : Reading × Bool :=
  if !itemPointerIsValid r.pipe.tailPointer then (r, false)
  else
    let got := getSegment cfg rel satisfies r.pipe.tailPointer true (limit-r.target.length)
    if got.len < 0 then
      ({ r with pipe := { r.pipe with tailPointer := itemPointerInvalid }, dataAvail := false }, false)
    else if got.len = 0 then
      let cached := getSegment cfg rel satisfies got.pointer true cfg.sizeofMaxTupleBlob
      if cached.len < 0 then
        ({ r with
          pipe := { r.pipe with tailPointer := cached.pointer, cacheData := some [] }
          dataAvail := false }, false)
      else
        ({ r with
          pipe := { r.pipe with
            tailPointer := cached.pointer
            cacheData := some cached.bytes
            cacheOffset := 0
            cacheLength := int16 cached.len }
          dataAvail := true }, true)
    else
      ({ pipe := { r.pipe with tailPointer := got.pointer }
         target := r.target ++ got.bytes
         dataAvail := true }, true)

def readLoop (limit : Nat) : Nat → Reading → Option Reading
  | 0, _ => none
  | fuel + 1, r =>
    if limit - r.target.length = 0 then some r
    else
      match r.pipe.cacheData with
      | some data => readLoop limit fuel (readCache limit data r)
      | none =>
        match readDisk cfg rel satisfies limit r with
        | (r, true) => readLoop limit fuel r
        | (r, false) => some r

def readPipelineSegmentBlob (fuel : Nat) (pipe : ReadPipeline) (limit : Nat) :
    Option (Bool × List UInt8 × ReadPipeline) :=
  if pipe.cacheData.isNone && !itemPointerIsValid pipe.tailPointer then some (false, [], pipe)
  else if pipe.length = pipe.read then some (false, [], pipe)
  else
    (readLoop cfg rel satisfies limit fuel ⟨pipe, [], false⟩).map fun r =>
      let read := pipe.read+r.target.length
      if pipe.length < read then
        let length := r.target.length - (read-pipe.length)
        (decide (0 < length) && r.dataAvail, r.target.take length,
          { r.pipe with read := pipe.length, tailPointer := itemPointerInvalid })
      else (r.dataAvail, r.target, { r.pipe with read := read })

def readCalls (fuel limits : Nat → Nat) (pipe : ReadPipeline) : Nat → Option (Bool × List UInt8 × ReadPipeline)
  | 0 => readPipelineSegmentBlob cfg rel satisfies (fuel 0) pipe (limits 0)
  | i + 1 =>
    (readCalls fuel limits pipe i).bind fun r =>
      readPipelineSegmentBlob cfg rel satisfies (fuel (i+1)) r.2.2 (limits (i+1))

end

theorem int16_of_lt (h : n < 2^15) : int16 n = n := by
  exact bmod_eq_of_le (by omega) (by omega)

def Cached (pipe : ReadPipeline) (bytes : List UInt8) : Prop :=
  match pipe.cacheData with
  | none => bytes = []
  | some data => ∃ k : Nat, k < data.length ∧ data.length < 2^15 ∧ pipe.cacheOffset = k ∧
      pipe.cacheLength = data.length ∧ bytes = data.drop k

structure Rest (cfg : Config) (rel : BlobRelation) (pipe : ReadPipeline)
    (cached stored : List UInt8) : Prop where
  cache : Cached pipe cached
  segs : ∃ nodes, Segs cfg.sizeofMaxTupleBlob rel pipe.tailPointer nodes ∧ (nodes.map Prod.snd).flatten = stored

theorem getSegment_eq (cfg : Config) {rel : BlobRelation} {satisfies : ItemPointerData → Bool}
    {p q : ItemPointerData} (hshown : satisfies p) (hcell : rel.cell p = some (piece, q))
    (hpiece : piece.length ≤ cfg.sizeofMaxTupleBlob) (limit : Nat) :
    getSegment cfg rel satisfies p true limit =
      if limit < piece.length then { len := 0, pointer := p, bytes := [] }
      else { len := piece.length, pointer := q, bytes := piece } := by
  obtain ⟨segment, hitem, hseg⟩ := map_eq_some_iff.mp hcell
  obtain rfl : segment.data = piece := congrArg Prod.fst hseg
  obtain rfl : segment.forward = q := congrArg Prod.snd hseg
  have hmax := cfg.size_le
  have hcheck : (!satisfies p || decide (cfg.layout.maxAttrSize < segment.data.length)) = false := by
    rw [hshown, Bool.not_true, Bool.false_or, decide_eq_false_iff_not]
    omega
  unfold getSegment
  rw [hitem]
  dsimp only
  rw [hcheck, if_neg nofun, Bool.and_true]
  by_cases hl : limit < segment.data.length
  · rw [if_pos hl, if_pos (decide_eq_true hl)]
  · rw [if_neg hl, if_neg (by rw [decide_eq_false hl]; exact nofun), if_pos rfl]

structure Passed (cfg : Config) (rel : BlobRelation) (r r' : Reading) (piece rest : List UInt8) : Prop where
  target : r'.target = r.target ++ piece
  avail : r'.dataAvail
  length : r'.pipe.length = r.pipe.length
  read : r'.pipe.read = r.pipe.read
  left : ∃ cached stored, Rest cfg rel r'.pipe cached stored ∧ cached ++ stored = rest

section

variable {cfg : Config} {rel : BlobRelation} {r : Reading} {limit : Nat}

theorem readCache_passed {data : List UInt8} (h : Rest cfg rel r.pipe cached stored)
    (hdata : r.pipe.cacheData = some data) (hlimit : r.target.length < limit) :
    ∃ piece rest, cached ++ stored = piece ++ rest ∧ 0 < piece.length ∧
      piece.length ≤ limit-r.target.length ∧
      Passed cfg rel r (readCache limit data r) piece rest ∧
      ((readCache limit data r).pipe.cacheData = none ∨ piece.length = limit-r.target.length) := by
  have hcache := h.cache
  unfold Cached at hcache
  rw [hdata] at hcache
  obtain ⟨k, hk, hshort, hoff, hlen, rfl⟩ := hcache
  -- the number of bytes to copy, as a natural number
  obtain ⟨n, hn⟩ : ∃ n, n = min (limit-r.target.length) (data.length-k) := ⟨_, rfl⟩
  have hlocal : (if (limit : Int) - r.target.length < r.pipe.cacheLength - r.pipe.cacheOffset then
      (limit : Int) - r.target.length else r.pipe.cacheLength - r.pipe.cacheOffset) = n := by
    rw [hoff, hlen]
    split_ifs <;> omega
  have hnext : int16 (r.pipe.cacheOffset+n) = ((k+n : Nat) : Int) := by
    rw [hoff, ← natCast_add]
    exact int16_of_lt (by omega)
  have hpiece : ((data.drop k).take n).length = n := by
    rw [length_take, length_drop]
    omega
  have htoNat : r.pipe.cacheOffset.toNat = k := by rw [hoff, toNat_natCast]
  refine ⟨(data.drop k).take n, data.drop (k+n) ++ stored, ?_, by omega, by omega, ?_⟩
  · rw [← append_assoc, ← drop_drop, take_append_drop]
  unfold readCache
  dsimp only
  rw [hlocal, hnext, htoNat, toNat_natCast, hlen]
  by_cases hend : k + n = data.length
  · rw [if_pos (congrArg Nat.cast hend)]
    refine ⟨⟨rfl, rfl, rfl, rfl, [], stored, ⟨rfl, h.segs⟩, ?_⟩, .inl rfl⟩
    rw [hend, drop_length]
  · rw [if_neg fun e => hend (natCast_inj.mp e)]
    refine ⟨⟨rfl, rfl, rfl, rfl, data.drop (k+n), stored, ⟨?_, h.segs⟩, rfl⟩, .inr (by omega)⟩
    unfold Cached
    dsimp only
    rw [hdata]
    exact ⟨k+n, by omega, hshort, rfl, rfl, rfl⟩

variable {satisfies : ItemPointerData → Bool} (hsat : ∀ p, (rel.items p).isSome → satisfies p)
include hsat

theorem readDisk_passed (limit : Nat) (h : Rest cfg rel r.pipe [] stored) (hstored : stored ≠ []) :
    ∃ piece rest, stored = piece ++ rest ∧ piece.length ≤ limit-r.target.length ∧
      Passed cfg rel r (readDisk cfg rel satisfies limit r).1 piece rest ∧
      (readDisk cfg rel satisfies limit r).2 ∧
      (0 < piece.length ∨ (readDisk cfg rel satisfies limit r).1.pipe.cacheData ≠ none) := by
  obtain ⟨nodes, hsegs, rfl⟩ := h.segs
  obtain ⟨hchain, hnodup, hvalid, hsized⟩ := hsegs
  have hcache := h.cache
  cases nodes with
  | nil => exact absurd rfl hstored
  | cons n nodes =>
  cases hchain with
  | cons hcell hrest =>
  rename_i q piece
  obtain ⟨⟨hne, hsize⟩, hsized'⟩ := forall_mem_cons.mp hsized
  obtain ⟨hok, hvalid'⟩ := forall_mem_cons.mp hvalid
  have hpos := length_pos_iff.mpr hne
  have hmax := cfg.size_le
  have hshort := cfg.layout.short
  have hrest' : Segs cfg.sizeofMaxTupleBlob rel q nodes := ⟨hrest, (nodup_cons.mp hnodup).2, hvalid', hsized'⟩
  have hget := getSegment_eq cfg (hsat _ (isSome_of_cell hcell)) hcell hsize
  dsimp only at hok hsize hpos
  unfold readDisk
  rw [hok, Bool.not_true, if_neg nofun]
  dsimp only
  rw [hget]
  by_cases hbig : limit - r.target.length < piece.length
  · rw [if_pos hbig]
    dsimp only
    rw [if_neg (by decide), if_pos rfl, hget, if_neg (Nat.not_lt.mpr hsize)]
    dsimp only
    rw [if_neg (Int.not_lt.mpr (natCast_nonneg _))]
    refine ⟨[], piece ++ (nodes.map Prod.snd).flatten, rfl, Nat.zero_le _, ?_, rfl, .inr (by simp)⟩
    refine ⟨(append_nil _).symm, rfl, rfl, rfl, piece, _, ⟨?_, nodes, hrest', rfl⟩, rfl⟩
    have hlen : int16 (piece.length : Int) = piece.length := int16_of_lt (by omega)
    unfold Cached
    dsimp only
    exact ⟨0, hpos, by omega, rfl, hlen, rfl⟩
  · rw [if_neg hbig]
    dsimp only
    rw [if_neg (Int.not_lt.mpr (natCast_nonneg _)), if_neg (by omega)]
    exact ⟨piece, _, rfl, Nat.not_lt.mp hbig,
      ⟨rfl, rfl, rfl, rfl, [], _, ⟨hcache, nodes, hrest', rfl⟩, rfl⟩, rfl, .inl hpos⟩

omit hsat in
theorem tail_invalid_of_rest (h : Rest cfg rel r.pipe cached []) : itemPointerIsValid r.pipe.tailPointer = false := by
  obtain ⟨nodes, hsegs, hnil⟩ := h.segs
  cases nodes with
  | nil =>
    generalize r.pipe.tailPointer = p at hsegs
    cases hsegs.chain
    rfl
  | cons n nodes =>
    have hne := (hsegs.sized n (.head _)).1
    rw [map_cons, flatten_cons, append_eq_nil_iff] at hnil
    exact absurd hnil.1 hne

structure Delivered (cfg : Config) (rel : BlobRelation) (r r' : Reading) (n : Nat)
    (rest : List UInt8) : Prop where
  target : r'.target = r.target ++ rest.take n
  length : r'.pipe.length = r.pipe.length
  read : r'.pipe.read = r.pipe.read
  avail : r'.dataAvail = r.dataAvail ∨ r'.dataAvail
  some : 0 < n → rest ≠ [] → r'.dataAvail
  left : ∃ cached stored, Rest cfg rel r'.pipe cached stored ∧ cached ++ stored = rest.drop n

omit hsat in
theorem Passed.delivered {r₁ r' : Reading} (h : Passed cfg rel r r₁ piece rest)
    (hle : piece.length ≤ n) (h' : Delivered cfg rel r₁ r' (n-piece.length) rest) :
    Delivered cfg rel r r' n (piece ++ rest) := by
  have hyes : r'.dataAvail := h'.avail.elim (fun e => e.trans h.avail) id
  refine ⟨?_, h'.length.trans h.length, h'.read.trans h.read, .inr hyes, fun _ _ => hyes, ?_⟩
  · rw [h'.target, h.target, append_assoc, take_append, take_of_length_le hle]
  · rw [drop_append, drop_of_length_le hle, nil_append]
    exact h'.left

def passes (pipe : ReadPipeline) (n : Nat) : Nat := 2 * n + if pipe.cacheData.isNone then 2 else 1

theorem readLoop_delivered (limit fuel : Nat) (h : Rest cfg rel r.pipe cached stored)
    (hlimit : r.target.length ≤ limit) (hfuel : passes r.pipe (limit-r.target.length) ≤ fuel) :
    ∃ r', readLoop cfg rel satisfies limit fuel r = some r' ∧
      Delivered cfg rel r r' (limit-r.target.length) (cached ++ stored) := by
  induction fuel generalizing r cached stored with
  | zero =>
    unfold passes at hfuel
    split_ifs at hfuel <;> omega
  | succ fuel ih =>
  unfold readLoop
  obtain hfull | hlt := Nat.eq_or_lt_of_le hlimit
  · rw [hfull, Nat.sub_self]
    exact ⟨r, rfl, (append_nil _).symm, rfl, rfl, .inl rfl, fun h0 => absurd h0 (Nat.lt_irrefl 0),
      cached, stored, h, rfl⟩
  rw [if_neg (by omega)]
  -- a pass, and the loop from there
  have hon : ∀ {r₁ : Reading} {piece rest : List UInt8}, Passed cfg rel r r₁ piece rest →
      piece.length ≤ limit-r.target.length →
      passes r₁.pipe (limit - r.target.length - piece.length) ≤ fuel →
      ∃ r', readLoop cfg rel satisfies limit fuel r₁ = some r' ∧
        Delivered cfg rel r r' (limit-r.target.length) (piece ++ rest) := by
    intro r₁ piece rest hpass hle hfuel₁
    obtain ⟨cached₁, stored₁, hrest₁, rfl⟩ := hpass.left
    have hlen : r₁.target.length = r.target.length+piece.length := by
      rw [hpass.target, length_append]
    have hsub : limit - r₁.target.length = limit - r.target.length - piece.length := by omega
    obtain ⟨r', hok, hdelivered⟩ := ih hrest₁ (by omega) (hsub.symm ▸ hfuel₁)
    exact ⟨r', hok, hpass.delivered hle (hsub ▸ hdelivered)⟩
  cases hdata : r.pipe.cacheData with
  | some data =>
    obtain ⟨piece, rest, hsplit, hpos, hle, hpass, -⟩ := readCache_passed h hdata hlt
    rw [hsplit]
    refine hon hpass hle ?_
    unfold passes at hfuel ⊢
    split_ifs at hfuel ⊢ <;> omega
  | none =>
    obtain rfl : cached = [] := by
      have hcache := h.cache
      unfold Cached at hcache
      rw [hdata] at hcache
      exact hcache
    by_cases hstored : stored = []
    · subst hstored
      have hstop : readDisk cfg rel satisfies limit r = (r, false) := by
        unfold readDisk
        rw [tail_invalid_of_rest h]
        rfl
      dsimp only
      rw [hstop]
      refine ⟨r, rfl, ?_, rfl, rfl, .inl rfl, fun _ hne => absurd rfl hne, [], [], h, ?_⟩
      · rw [append_nil, take_nil, append_nil]
      · rw [append_nil, drop_nil]
    · obtain ⟨piece, rest, rfl, hle, hpass, hgo, hprogress⟩ := readDisk_passed hsat limit h hstored
      have hpair : readDisk cfg rel satisfies limit r =
          ((readDisk cfg rel satisfies limit r).1, true) := Prod.ext rfl hgo
      dsimp only
      rw [hpair, nil_append]
      refine hon hpass hle ?_
      unfold passes at hfuel ⊢
      rw [hdata, if_pos isNone_none] at hfuel
      obtain hpos | hcached := hprogress
      · split_ifs <;> omega
      · rw [if_neg (by simpa using hcached)]
        omega

variable (pipe : ReadPipeline)

theorem read_rest (h : ∃ cached stored, Rest cfg rel pipe cached stored ∧ cached ++ stored = rest)
    (hlength : pipe.read + rest.length < pipe.length) (hlimit : 0 < limit) (fuel : Nat)
    (hfuel : 2 * limit + 2 ≤ fuel) :
    ∃ pipe', readPipelineSegmentBlob cfg rel satisfies fuel pipe limit =
        some (decide (rest ≠ []), rest.take limit, pipe') ∧
      (∃ cached stored, Rest cfg rel pipe' cached stored ∧ cached ++ stored = rest.drop limit) ∧
      pipe'.read + (rest.drop limit).length < pipe'.length := by
  obtain ⟨cached, stored, hrest, rfl⟩ := h
  unfold readPipelineSegmentBlob
  by_cases hend : cached ++ stored = []
  · obtain ⟨rfl, rfl⟩ := append_eq_nil_iff.mp hend
    have hnone : pipe.cacheData = none := by
      have hcache := hrest.cache
      unfold Cached at hcache
      cases hdata : pipe.cacheData with
      | none => rfl
      | some data =>
        rw [hdata] at hcache
        obtain ⟨k, hk, -, -, -, hdrop⟩ := hcache
        have hlen := congrArg List.length hdrop
        rw [length_drop, length_nil] at hlen
        omega
    have hinvalid := tail_invalid_of_rest (r := ⟨pipe, [], false⟩) hrest
    dsimp only at hinvalid
    rw [hnone, hinvalid, if_pos (by rfl)]
    refine ⟨pipe, by simp, ⟨[], [], hrest, ?_⟩, ?_⟩
    · simp
    · simpa using hlength
  · have hsomething : (pipe.cacheData.isNone && !itemPointerIsValid pipe.tailPointer) = false := by
      rw [Bool.eq_false_iff, Ne, Bool.and_eq_true, Bool.not_eq_true']
      rintro ⟨hnone, hinvalid⟩
      have hcache := hrest.cache
      unfold Cached at hcache
      rw [isNone_iff_eq_none.mp hnone] at hcache
      obtain ⟨nodes, hsegs, hflat⟩ := hrest.segs
      cases nodes with
      | nil => exact hend (by rw [hcache, ← hflat]; rfl)
      | cons n nodes =>
        have hvalid := hsegs.valid n (.head _)
        cases hsegs.chain
        cases hvalid.symm.trans hinvalid
    obtain ⟨r', hok, hdel⟩ := readLoop_delivered (r := ⟨pipe, [], false⟩) hsat limit fuel hrest
      (Nat.zero_le _) (by
        unfold passes
        dsimp only [length_nil]
        split_ifs <;> omega)
    have htarget : r'.target = (cached ++ stored).take limit := hdel.target
    have hrestlen : (cached ++ stored).length =
        ((cached ++ stored).take limit).length + ((cached ++ stored).drop limit).length := by
      rw [← length_append, take_append_drop]
    rw [hsomething, if_neg nofun, if_neg (by omega), hok]
    dsimp only [map_some]
    rw [if_neg (by rw [htarget]; omega), hdel.some hlimit hend, htarget, decide_eq_true hend]
    obtain ⟨cached', stored', hrest', hleft⟩ := hdel.left
    refine ⟨_, rfl, ⟨cached', stored', ⟨hrest'.cache, hrest'.segs⟩, hleft⟩, ?_⟩
    dsimp only
    rw [hdel.length]
    dsimp only
    omega

def taken (limits : Nat → Nat) : Nat → Nat
  | 0 => 0
  | i + 1 => taken limits i + limits i

theorem readCalls_rest {bytes : List UInt8}
    (h : ∃ cached stored, Rest cfg rel pipe cached stored ∧ cached ++ stored = bytes)
    (hlength : pipe.read + bytes.length < pipe.length) {fuel : Nat → Nat}
    (hlimits : ∀ i, 0 < limits i) (hfuel : ∀ i, 2 * limits i + 2 ≤ fuel i) (i : Nat) :
    ∃ pipe', readCalls cfg rel satisfies fuel limits pipe i = some (decide (bytes.drop (taken limits i) ≠ []),
          (bytes.drop (taken limits i)).take (limits i), pipe') ∧
      (∃ cached stored, Rest cfg rel pipe' cached stored ∧ cached ++ stored = bytes.drop (taken limits (i+1))) ∧
      pipe'.read + (bytes.drop (taken limits (i+1))).length < pipe'.length := by
  induction i with
  | zero =>
    obtain ⟨pipe', hok, hrest, hlen⟩ := read_rest hsat pipe h hlength (hlimits 0) (fuel 0) (hfuel 0)
    have hfirst : taken limits (0+1) = limits 0 := zero_add _
    rw [hfirst, taken, drop_zero]
    exact ⟨pipe', hok, hrest, hlen⟩
  | succ i ih =>
    obtain ⟨pipe₁, hok₁, hrest₁, hlen₁⟩ := ih
    obtain ⟨pipe', hok, hrest, hlen⟩ := read_rest hsat pipe₁ hrest₁ hlen₁ (hlimits (i+1)) (fuel (i+1)) (hfuel (i+1))
    rw [drop_drop] at hrest hlen
    refine ⟨pipe', ?_, hrest, hlen⟩
    rw [readCalls, hok₁]
    exact hok

end

theorem le_taken (h : ∀ i, 0 < limits i) (i : Nat) : i ≤ taken limits i := by
  induction i with
  | zero => exact le_refl 0
  | succ i ih =>
    have hi := h i
    rw [taken]
    omega

theorem taken_mono {i j : Nat} (h : i ≤ j) : taken limits i ≤ taken limits j := by
  induction h with
  | refl => exact Nat.le_refl _
  | step _ ih => exact Nat.le_trans ih (Nat.le_add_right _ _)

theorem flatten_taken (limits : Nat → Nat) (bytes : List UInt8) (n : Nat) :
    ((List.range n).map fun i => (bytes.drop (taken limits i)).take (limits i)).flatten =
      bytes.take (taken limits n) := by
  induction n with
  | zero => rfl
  | succ n ih =>
    rw [range_succ, map_append, flatten_append, ih, map_singleton, flatten_singleton, taken, take_add]

/-- **The round trip.** Every list of chunks is stored, and read back in pieces that are not empty. -/
theorem blob_round_trip (cfg : Config) (rel : BlobRelation) (chunks : List (List UInt8))
    (hready : rel.Ready) (hroom : chunks.flatten.length ≤ rel.room.length*cfg.sizeofMaxTupleBlob) :
    ∃ header rel', writeBlob cfg rel chunks = .ok (header, rel') ∧
      header.blobLength = chunks.flatten.length+varhdrsz ∧
      ∀ satisfies : ItemPointerData → Bool, (∀ p, (rel'.items p).isSome → satisfies p) →
        ∀ limits fuel : Nat → Nat, (∀ i, 0 < limits i) → (∀ i, 2 * limits i + 2 ≤ fuel i) →
        ∃ pieces : List (List UInt8), (∀ piece ∈ pieces, piece ≠ []) ∧
          pieces.flatten = chunks.flatten ∧
          ∀ i, ∃ pipe, readCalls cfg rel' satisfies fuel limits (openReadPipelineBlob header) i =
            some (decide (i < pieces.length), pieces[i]?.getD [], pipe) := by
  obtain ⟨header, rel', hok, hlength, nodes, hsegs, hflat⟩ := writeBlob_ok hready hroom
  refine ⟨header, rel', hok, hlength, fun satisfies hsat limits fuel hlimits hfuel => ?_⟩
  generalize chunks.flatten = bytes at hlength hflat
  have hopen : (openReadPipelineBlob header).read + bytes.length < (openReadPipelineBlob header).length := by
    change 0 + bytes.length < header.blobLength
    rw [hlength, varhdrsz]
    omega
  have hreads := readCalls_rest hsat (openReadPipelineBlob header)
    ⟨[], bytes, ⟨rfl, nodes, hsegs, hflat⟩, nil_append _⟩ hopen hlimits hfuel
  -- the number of calls that find something
  have hex : ∃ n, bytes.length ≤ taken limits n := ⟨_, le_taken hlimits bytes.length⟩
  obtain ⟨n, hn, hmin⟩ : ∃ n, bytes.length ≤ taken limits n ∧ ∀ i < n, taken limits i < bytes.length :=
    ⟨Nat.find hex, Nat.find_spec hex, fun i hi => not_le.mp (Nat.find_min hex hi)⟩
  refine ⟨(List.range n).map fun i => (bytes.drop (taken limits i)).take (limits i), ?_, ?_, ?_⟩
  · intro piece hpiece
    obtain ⟨i, hi, rfl⟩ := mem_map.mp hpiece
    have hlt := hmin i (mem_range.mp hi)
    have hpos := hlimits i
    refine length_pos_iff.mp ?_
    rw [length_take, length_drop]
    omega
  · rw [flatten_taken, take_of_length_le hn]
  · intro i
    obtain ⟨pipe, hcall, -, -⟩ := hreads i
    refine ⟨pipe, hcall.trans ?_⟩
    rw [length_map, length_range, List.getElem?_map]
    by_cases hi : i < n
    · have hlt := hmin i hi
      have hne : bytes.drop (taken limits i) ≠ [] := by
        rw [Ne, drop_eq_nil_iff]
        omega
      simp [hi, hne]
    · have hdone := le_trans hn (taken_mono (not_lt.mp hi))
      have hnil : bytes.drop (taken limits i) = [] := drop_of_length_le hdone
      simp [hi, hnil]

def segmentsOfFour : Config where
  layout := { maxAttrSize := 8040, segHdrSz := 16, roomy := by decide, short := by decide }
  blobsegments := some 4

def emptyRelation : BlobRelation where
  items _ := none
  room := [⟨0, 1⟩, ⟨0, 2⟩]

theorem blob_round_trip_six_bytes :
    ∃ header rel', writeBlob segmentsOfFour emptyRelation [[1, 2, 3], [], [4, 5, 6]] =
        .ok (header, rel') ∧ header.blobLength = 10 ∧
      ∃ pieces : List (List UInt8), pieces.flatten = [1, 2, 3, 4, 5, 6] ∧
        ∀ i, ∃ pipe, readCalls segmentsOfFour rel' (fun _ => true) (fun _ => 12) (fun _ => 5)
          (openReadPipelineBlob header) i = some (decide (i < pieces.length), pieces[i]?.getD [], pipe) := by
  have hready : emptyRelation.Ready := ⟨by decide, by decide, fun _ _ => rfl⟩
  obtain ⟨header, rel', hok, hlength, hreads⟩ := blob_round_trip segmentsOfFour emptyRelation
    [[1, 2, 3], [], [4, 5, 6]] hready (by decide)
  obtain ⟨pieces, -, hflat, hcalls⟩ := hreads (fun _ => true) (fun _ _ => rfl) (fun _ => 5)
    (fun _ => 12) (fun _ => by decide) (fun _ => by decide)
  exact ⟨header, rel', hok, hlength, pieces, hflat, hcalls⟩

end WeaverDB.Blob
