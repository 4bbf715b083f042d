import Mathlib.Algebra.GroupWithZero.Nat
import WeaverDB.ShadowLog.Batches

/-! # Replaying the shadow log

`_vfdreplaylogfile` reads batch after batch while `total`, its count of the bytes it has walked, is
below the length of the file. It counts a whole block for each image, so with compression the count runs
ahead of the file and the walk may end before the last batches.
-/

namespace WeaverDB.ShadowLog
open Foundations List

variable {opens : Oid → Oid → Bool} {tail : Bytes}
  {files : Oid → Oid → Option (Int64 → Option Bytes)} {file : Int64 → Option Bytes}

variable {c : Config}

/-! ## One batch -/

def batchWrites (opens : Oid → Oid → Bool) (batch : List (Image c)) : List BlockWrite :=
  (segmentsOf batch).flatMap (emitted opens ⟨none, 0, 0⟩)

def batchSpan (c : Config) (batch : List (Image c)) : Nat :=
  c.blcksz * (1 + segmentsNeeded c batch.length + batch.length)

variable {segments batches : List (List (Image c))} {w : FileWalk} {batch images : List (Image c)}

theorem replaySegments_segmentsBytes (hfit : ∀ segment ∈ segments, segment.length ≤ c.maxBlocks)
    (i : Nat) (tail : Bytes) (total : Nat) (r : Recovery) :
    ∃ r', replaySegments c false c.compressLog segments.length (segmentsBytes i segments ++ tail)
        total r = (tail, total + c.blcksz * (segments.length+segments.flatten.length), r') ∧
      Wrote r (segments.flatMap (emitted r.opens ⟨none, 0, 0⟩)) r' := by
  induction segments generalizing i total r with
  | nil => exact ⟨r, rfl, .refl r⟩
  | cons segment segments ih =>
    have hwrote := wrote_replayImages segment ⟨none, 0, 0⟩ r
    obtain ⟨r', hrest, hwrote'⟩ := ih (fun s h => hfit s (.tail _ h)) (i+1)
      (total + c.blcksz * (1+segment.length)) (replayImages segment (⟨none, 0, 0⟩, r)).2
    rw [hwrote.opens] at hwrote'
    have htotal : total + c.blcksz * (1+segment.length) + c.blcksz * (segments.length+segments.flatten.length) =
        total + c.blcksz * (segments.length + 1 + (segment :: segments).flatten.length) := by
      rw [flatten_cons, length_append, Nat.add_assoc, ← Nat.mul_add]
      congr 2
      omega
    refine ⟨r', ?_, hwrote.trans hwrote'⟩
    rw [length_cons, segmentsBytes, append_assoc, replaySegments,
      vfdreplaysegment_segmentBytes _ (hfit segment (.head _))]
    dsimp only
    rw [hrest, htotal]

theorem replayBatch_batchBytes {id : Int64} (hrest : w.rest = batchBytes id batch ++ tail)
    (hid : w.id ≠ 0 → w.id + 1 = id) (hcount : (segmentsOf batch).length < 2^63) :
    ∃ w', replayBatch c false w = (true, w') ∧ w'.rest = tail ∧
      w'.total = w.total + batchSpan c batch ∧ w'.id = id ∧
      Wrote w.recovery (batchWrites w.recovery.opens batch) w'.recovery := by
  have hlength := LogHeader.length_block c (headerOf c id (segmentsOf batch).length true)
  have htake : w.rest.take c.blcksz = (headerOf c id (segmentsOf batch).length true).block c := by
    rw [hrest, batchBytes, append_assoc, take_left' hlength]
  have hdrop : w.rest.drop c.blcksz = segmentsBytes 0 (segmentsOf batch) ++ tail := by
    rw [hrest, batchBytes, append_assoc, drop_left' hlength]
  obtain ⟨r', hsegments, hwrote⟩ := replaySegments_segmentsBytes
    (fun _ h => length_segment_le batch h) 0 tail (w.total+c.blcksz) w.recovery
  have hloop : (Int64.ofNat (segmentsOf batch).length).toInt.toNat = (segmentsOf batch).length := by
    rw [Int64.toInt_ofNat_of_lt hcount, Int.toNat_natCast]
  have hseq : ¬ (w.id ≠ 0 ∧ w.id + 1 ≠ (headerOf c id (segmentsOf batch).length true).logId) := fun h => h.2 (hid h.1)
  have hcompressed : (headerOf c id (segmentsOf batch).length true).compressed = c.compressLog := rfl
  have hsegs : (headerOf c id (segmentsOf batch).length true).segments.toInt.toNat = (segmentsOf batch).length := hloop
  let header := (headerOf c id (segmentsOf batch).length true).block c
  refine ⟨⟨tail, w.total + batchSpan c batch, id, true, header ++ w.logBuffer.drop header.length,
    r'⟩, ?_, rfl, rfl, rfl, hwrote⟩
  unfold replayBatch
  simp only [FileWalk.header, htake, hdrop, LogHeader.ofBlock_append]
  rw [if_neg fun h => h hlength, if_neg fun h => h rfl, if_neg (by simp [headerOf]),
    if_neg hseq, hcompressed, hsegs, hsegments]
  have htotal : w.total + c.blcksz + c.blcksz * ((segmentsOf batch).length + (segmentsOf batch).flatten.length) =
      w.total + batchSpan c batch := by
    rw [flatten_segmentsOf, length_segmentsOf, batchSpan, Nat.add_assoc 1, Nat.mul_add c.blcksz 1,
      Nat.mul_one, Nat.add_assoc]
  rw [htotal]
  rfl

theorem replayBatch_uncommitted (indexonly : Bool) (htail : Uncommitted c w.rest) :
    ∃ w', replayBatch c indexonly w = (false, w') ∧ w'.recovery = w.recovery := by
  have hpos := c.blcksz_pos
  unfold replayBatch
  obtain hnil | ⟨h, spilled, hcompleted, hrest⟩ := htail
  · rw [hnil, if_pos (by simpa using Nat.ne_of_lt hpos)]
    exact ⟨_, rfl, rfl⟩
  · have hlength := h.length_block c
    have htake : w.rest.take c.blcksz = h.block c := by rw [hrest, take_left' hlength]
    simp only [FileWalk.header, htake, LogHeader.ofBlock_append, hcompleted]
    rw [if_neg fun hne => hne hlength]
    split
    · exact ⟨_, rfl, rfl⟩
    · exact ⟨_, rfl, rfl⟩

/-! ## The walk over the file -/

section

variable {indexonly : Bool} {stop : Nat} {w w' : FileWalk}

theorem replayLoop_of_ge (h : ¬ w.total < stop) : replayLoop c indexonly stop w = w := by
  rw [replayLoop, if_neg h]

theorem replayLoop_of_break (h : w.total < stop) (hbatch : replayBatch c indexonly w = (false, w')) :
    replayLoop c indexonly stop w = w' := by
  rw [replayLoop, if_pos h]
  split
  · next heq => exact (Prod.mk.inj (heq.symm.trans hbatch)).2
  · next heq => exact absurd (Prod.mk.inj (heq.symm.trans hbatch)).1 (by decide)

theorem replayLoop_of_batch (h : w.total < stop) (hbatch : replayBatch c indexonly w = (true, w')) :
    replayLoop c indexonly stop w = replayLoop c indexonly stop w' := by
  rw [replayLoop, if_pos h]
  split
  · next heq => exact absurd (Prod.mk.inj (heq.symm.trans hbatch)).1 (by decide)
  · next heq => rw [(Prod.mk.inj (heq.symm.trans hbatch)).2]

end

def reached (c : Config) (stop : Nat) : Nat → List (List (Image c)) → List (List (Image c))
  | _, [] => []
  | total, batch :: batches =>
    if total < stop then batch :: reached c stop (total + batchSpan c batch) batches else []

theorem replayLoop_logBytes (stop : Nat) (batches : List (List (Image c)))
    (hcount : ∀ batch ∈ batches, (segmentsOf batch).length < 2^63) (id : Int64)
    (htail : Uncommitted c tail) (w : FileWalk) (hrest : w.rest = logBytes id batches ++ tail)
    (hid : w.id ≠ 0 → w.id + 1 = id) :
    Wrote w.recovery ((reached c stop w.total batches).flatMap (batchWrites w.recovery.opens))
      (replayLoop c false stop w).recovery := by
  induction batches generalizing id w with
  | nil =>
    obtain hlt | hge := Classical.em (w.total < stop)
    · rw [logBytes, nil_append] at hrest
      obtain ⟨w', hbreak, hrecovery⟩ := replayBatch_uncommitted false (hrest.symm ▸ htail)
      rw [replayLoop_of_break hlt hbreak, hrecovery]
      exact .refl _
    · rw [replayLoop_of_ge hge]
      exact .refl _
  | cons batch batches ih =>
    rw [reached]
    split
    · next hlt =>
      rw [logBytes, append_assoc] at hrest
      obtain ⟨w', hbatch, hrest', htotal, hid', hwrote⟩ := replayBatch_batchBytes hrest hid (hcount batch (.head _))
      have hlater := ih (fun b h => hcount b (.tail _ h)) (id+1) w' hrest' fun _ => by rw [hid']
      rw [hwrote.opens, htotal] at hlater
      rw [replayLoop_of_batch hlt hbatch]
      exact hwrote.trans hlater
    · next hge =>
      rw [replayLoop_of_ge hge]
      exact .refl _

/-! ## Lengths -/

theorem length_storedImages (hraw : c.compressLog = false) (images : List (Image c)) :
    (storedImages images).length = c.blcksz*images.length := by
  induction images with
  | nil => rfl
  | cons image images ih =>
    have himage : (stored c image.buffer).length = c.blcksz := by
      rw [stored, hraw]
      exact image.buffer.property
    rw [storedImages, flatMap_cons, length_append, himage, length_cons, Nat.mul_succ, add_comm, ← storedImages, ih]

theorem length_segmentsBytes (hfit : ∀ segment ∈ segments, segment.length ≤ c.maxBlocks) (i : Nat) :
    (segmentsBytes i segments).length = c.blcksz * segments.length + (storedImages segments.flatten).length := by
  induction segments generalizing i with
  | nil => rfl
  | cons segment segments ih =>
    have hstored : storedImages (segment :: segments).flatten =
        storedImages segment ++ storedImages segments.flatten := flatMap_append
    rw [segmentsBytes, length_append, ih fun s h => hfit s (.tail _ h),
      segmentBytes, length_append, length_segmentOf _ (hfit segment (.head _)),
      hstored, length_append, length_cons, Nat.mul_succ]
    omega

variable (id : Int64)

theorem length_batchBytes (batch : List (Image c)) : (batchBytes id batch).length =
      c.blcksz * (1 + segmentsNeeded c batch.length) + (storedImages batch).length := by
  rw [batchBytes, length_append, LogHeader.length_block,
    length_segmentsBytes fun _ h => length_segment_le batch h, flatten_segmentsOf,
    length_segmentsOf, Nat.mul_add, Nat.mul_one, Nat.add_assoc]

def walked (c : Config) (batches : List (List (Image c))) : Nat := (batches.map (batchSpan c)).sum

theorem length_logBytes (hraw : c.compressLog = false) (id : Int64)
    (batches : List (List (Image c))) : (logBytes id batches).length = walked c batches := by
  induction batches generalizing id with
  | nil => rfl
  | cons batch batches ih =>
    have hspan : c.blcksz * (1 + segmentsNeeded c batch.length) + c.blcksz * batch.length =
        batchSpan c batch := (Nat.mul_add _ _ _).symm
    rw [logBytes, length_append, length_batchBytes, length_storedImages hraw, hspan, ih]
    rfl

theorem length_segmentsOf_le (h : batch ∈ batches) : (segmentsOf batch).length ≤ (logBytes id batches).length := by
  have hsegments (segments : List (List (Image c)))
      (hfit : ∀ segment ∈ segments, segment.length ≤ c.maxBlocks) (i : Nat) :
      segments.length ≤ (segmentsBytes i segments).length := by
    induction segments generalizing i with
    | nil => exact Nat.zero_le _
    | cons segment segments ih =>
      have hrest := ih (fun s h => hfit s (mem_cons_of_mem _ h)) (i+1)
      have hblock := length_segmentOf (.ofNat i) (hfit segment mem_cons_self)
      have hpos := c.blcksz_pos
      rw [segmentsBytes, segmentBytes, length_append, length_append, length_cons]
      omega
  induction batches generalizing id with
  | nil => cases h
  | cons first batches ih =>
    rw [logBytes, length_append]
    obtain rfl | h := mem_cons.mp h
    · have hbatch := hsegments _ (fun _ h => length_segment_le batch h) 0
      rw [batchBytes, length_append]
      omega
    · exact Nat.le_trans (ih (id+1) h) (Nat.le_add_left _ _)

/-! ## Which batches are reached -/

theorem reached_flatten_iff (stop total : Nat) (batches : List (List (Image c))) :
    (reached c stop total batches).flatten = batches.flatten ↔
      ∀ before batch after, batches = before ++ batch :: after → batch ≠ [] → total + walked c before < stop := by
  induction batches generalizing total with
  | nil =>
    refine ⟨fun _ before batch after h => ?_, fun _ => rfl⟩
    exact absurd h.symm (by simp)
  | cons first batches ih =>
    rw [reached]
    split
    · next hlt =>
      rw [flatten_cons, flatten_cons, append_right_inj, ih]
      constructor
      · intro h before batch after heq hne
        obtain ⟨rfl, _⟩ | ⟨before', rfl, heq'⟩ := cons_eq_append_iff.mp heq
        · exact hlt
        · have hlater := h before' batch after heq' hne
          rw [walked, map_cons, sum_cons]
          rwa [Nat.add_assoc] at hlater
      · intro h before batch after heq hne
        have hlater := h (first :: before) batch after (by rw [heq, cons_append]) hne
        rw [walked, map_cons, sum_cons] at hlater
        rwa [Nat.add_assoc]
    · next hge =>
      constructor
      · intro h before batch after heq hne
        have hnil := flatten_eq_nil_iff.mp h.symm batch (by rw [heq]; simp)
        exact absurd hnil hne
      · intro h
        refine (flatten_eq_nil_iff.mpr fun batch hmem => ?_).symm
        obtain ⟨before, after, heq⟩ := append_of_mem hmem
        refine Classical.byContradiction fun hne => hge ?_
        exact Nat.lt_of_le_of_lt (Nat.le_add_right _ _) (h before batch after heq hne)

theorem walked_lt (hraw : c.compressLog = false) (id : Int64) {before after : List (List (Image c))}
    (h : batches = before ++ batch :: after) : walked c before < (logBytes id batches).length := by
  have hpos := c.blcksz_pos
  have hspan : 0 < batchSpan c batch := Nat.mul_pos hpos (by omega)
  rw [length_logBytes hraw, h, walked, walked, map_append, sum_append, map_cons, sum_cons]
  omega

/-! ## When every file opens -/

def AllOpen (opens : Oid → Oid → Bool) (batches : List (List (Image c))) : Prop :=
  ∀ batch ∈ batches, ∀ image ∈ batch, Opens opens image ∧ image.info.relid ≠ 0

theorem emitted_of_open (hopen : ∀ image ∈ images, Opens opens image ∧ image.info.relid ≠ 0) :
    emitted opens ⟨none, 0, 0⟩ images = images.map blockWrite := by
  have hnever : ¬ Interrupted opens images := by
    rintro ⟨before, x, missing, y, after, rfl, _, hne, hmissing, _⟩
    obtain ⟨m, hm⟩ := exists_mem_of_ne_nil _ hne
    have hopens := (hopen m (by simp [hm])).1
    exact Bool.false_ne_true ((hmissing m hm).symm.trans hopens)
  rw [(emitted_iff fun image h => (hopen image h).2).mpr hnever, filter_eq_self.mpr fun image h => (hopen image h).1]

theorem batchWrites_of_open (hopen : ∀ image ∈ batch, Opens opens image ∧ image.info.relid ≠ 0) :
    batchWrites opens batch = batch.map blockWrite := by
  have hsegment : ∀ segment ∈ segmentsOf batch, emitted opens ⟨none, 0, 0⟩ segment = segment.map blockWrite := by
    intro segment hmem
    refine emitted_of_open fun image himage => hopen image ?_
    rw [← flatten_segmentsOf batch]
    exact mem_flatten_of_mem hmem himage
  conv_rhs => rw [← flatten_segmentsOf batch, map_flatten]
  rw [batchWrites, flatMap_def, map_congr_left hsegment]

theorem flatMap_batchWrites (hopen : AllOpen opens batches) :
    batches.flatMap (batchWrites opens) = batches.flatten.map blockWrite := by
  rw [flatMap_def, map_congr_left fun batch h => batchWrites_of_open (hopen batch h), map_flatten]

theorem reached_append (stop total : Nat) (batches : List (List (Image c))) :
    ∃ rest, reached c stop total batches ++ rest = batches := by
  induction batches generalizing total with
  | nil => exact ⟨[], rfl⟩
  | cons first batches ih =>
    rw [reached]
    split
    · obtain ⟨rest, hrest⟩ := ih (total + batchSpan c first)
      exact ⟨rest, by rw [cons_append, hrest]⟩
    · exact ⟨first :: batches, rfl⟩

theorem AllOpen.reached (hopen : AllOpen opens batches) (stop total : Nat) :
    AllOpen opens (reached c stop total batches) := by
  obtain ⟨rest, hrest⟩ := reached_append stop total batches
  intro batch hmem
  exact hopen batch (hrest ▸ mem_append_left rest hmem)

theorem map_reached_iff (stop total : Nat) (batches : List (List (Image c))) :
    (reached c stop total batches).flatten.map blockWrite = batches.flatten.map blockWrite ↔
      (reached c stop total batches).flatten = batches.flatten := by
  refine ⟨fun h => ?_, fun h => by rw [h]⟩
  obtain ⟨rest, hrest⟩ := reached_append stop total batches
  have hlength := congrArg List.length h
  have hflatten : batches.flatten = (reached c stop total batches).flatten ++ rest.flatten := by
    rw [← flatten_append, hrest]
  rw [length_map, length_map, hflatten, length_append] at hlength
  have hnil : rest.flatten = [] := length_eq_zero_iff.mp (by omega)
  rw [hflatten, hnil, append_nil]

theorem wrote_replaylogfile {logCount : Int64} (hlong : (logBytes logCount batches).length < 2^63)
    (htail : Uncommitted c tail) (logBuffer : Bytes) {r : Recovery}
    (hopen : AllOpen r.opens batches) :
    Wrote r ((reached c (logBytes logCount batches ++ tail).length 0 batches).flatten.map blockWrite)
      (vfdreplaylogfile c false (logBytes logCount batches ++ tail) logBuffer r).recovery := by
  have hcount : ∀ batch ∈ batches, (segmentsOf batch).length < 2^63 :=
    fun batch h => Nat.lt_of_le_of_lt (length_segmentsOf_le logCount h) hlong
  rw [← flatMap_batchWrites (hopen.reached _ 0)]
  exact replayLoop_logBytes _ batches hcount logCount htail ⟨_, 0, 0, false, logBuffer, r⟩ rfl (fun h => absurd rfl h)

/-! ## The last image of a block -/

def SameBlock (a b : BlockWrite) : Prop := a.dbid = b.dbid ∧ a.relid = b.relid ∧ a.nblocks = b.nblocks

theorem applyWrite_other {w later : BlockWrite} (hother : ¬ SameBlock w later)
    (hfile : files w.dbid w.relid = some file) (hblock : file w.nblocks = some w.block) :
    ∃ file', applyWrite files later w.dbid w.relid = some file' ∧ file' w.nblocks = some w.block := by
  unfold applyWrite
  split
  · next hrel =>
    refine ⟨_, by rw [hfile]; rfl, ?_⟩
    exact (if_neg fun hn => hother ⟨hrel.1, hrel.2, hn⟩).trans hblock
  · exact ⟨file, hfile, hblock⟩

theorem foldl_applyWrite_last {w : BlockWrite} (after : List BlockWrite) (hlast : ∀ later ∈ after, ¬ SameBlock w later)
    (hfile : files w.dbid w.relid = some file) (hblock : file w.nblocks = some w.block) :
    ∃ file', after.foldl applyWrite files w.dbid w.relid = some file' ∧ file' w.nblocks = some w.block := by
  induction after generalizing files file with
  | nil => exact ⟨file, hfile, hblock⟩
  | cons later after ih =>
    obtain ⟨file', hfile', hblock'⟩ := applyWrite_other (hlast later (.head _)) hfile hblock
    exact ih (fun l h => hlast l (.tail _ h)) hfile' hblock'

structure Replayed (r : Recovery) (images : List (Image c)) (r' : Recovery) : Prop where
  writes : r'.writes = r.writes ++ images.map blockWrite
  last : ∀ before image after, images = before ++ image :: after →
    (∀ later ∈ after, ¬ SameBlock (blockWrite image) (blockWrite later)) →
    ∃ file, r'.files image.info.dbid image.info.relid = some file ∧ file image.block = some image.buffer.val

theorem Wrote.replayed {r r' : Recovery} (h : Wrote r (images.map blockWrite) r')
    (hopen : ∀ image ∈ images, Opens r.opens image) : Replayed r images r' := by
  refine ⟨h.writes, fun before image after himages hlast => ?_⟩
  have hopens : Opens r.opens image := hopen image (by simp [himages])
  have hsome (ws : List BlockWrite) (files : Oid → Oid → Option (Int64 → Option Bytes))
      (hfiles : (files image.info.dbid image.info.relid).isSome) :
      (ws.foldl applyWrite files image.info.dbid image.info.relid).isSome := by
    induction ws generalizing files with
    | nil => exact hfiles
    | cons w ws ih =>
      refine ih _ ?_
      unfold applyWrite
      split
      · rwa [Option.isSome_map]
      · exact hfiles
  obtain ⟨file, hfile⟩ := Option.isSome_iff_exists.mp (hsome (before.map blockWrite) r.files hopens)
  have hwritten : applyWrite ((before.map blockWrite).foldl applyWrite r.files) (blockWrite image)
      image.info.dbid image.info.relid = some fun n => if n = image.block then some image.buffer.val else file n := by
    rw [applyWrite, if_pos ⟨rfl, rfl⟩, hfile]
    rfl
  have hafter : ∀ later ∈ after.map blockWrite, ¬ SameBlock (blockWrite image) later := by
    intro later hmem
    obtain ⟨l, hl, rfl⟩ := mem_map.mp hmem
    exact hlast l hl
  rw [h.files, himages, map_append, map_cons, foldl_append, foldl_cons]
  exact foldl_applyWrite_last _ hafter hwritten (if_pos rfl)

/-! ## Complete logs -/

/-- Exactly if it is not compressed or the count stays below the length at every batch with images. -/
theorem log_replayed_iff (c : Config) (logCount : Int64) (batches : List (List (Image c)))
    (hlong : (logBatches c logCount batches).file.length < 2^63) (logBuffer : Bytes)
    (r : Recovery) (hopen : AllOpen r.opens batches) :
    Replayed r batches.flatten
        (vfdreplaylogfile c false (logBatches c logCount batches).file logBuffer r).recovery ↔
      (c.compressLog = false ∨ ∀ before batch after, batches = before ++ batch :: after →
        batch ≠ [] → walked c before < (logBatches c logCount batches).file.length) := by
  have hfile := (resting_logBatches logCount batches).file
  have hwrote := wrote_replaylogfile (hfile ▸ hlong) (.inl rfl) logBuffer hopen
  have hreached := reached_flatten_iff (logBytes logCount batches).length 0 batches
  simp only [zero_add] at hreached
  rw [append_nil] at hwrote
  rw [hfile]
  constructor
  · intro hreplayed
    have hwrites := hwrote.writes.symm.trans hreplayed.writes
    exact .inr (hreached.mp ((map_reached_iff _ _ _).mp (append_cancel_left hwrites)))
  · intro hwhen
    have hall : (reached c (logBytes logCount batches).length 0 batches).flatten =
        batches.flatten := by
      refine hreached.mpr fun before batch after heq hne => ?_
      obtain hraw | hwhen := hwhen
      · exact walked_lt hraw logCount heq
      · exact hwhen before batch after heq hne
    rw [hall] at hwrote
    refine hwrote.replayed fun image himage => ?_
    obtain ⟨batch, hbatch, himage⟩ := mem_flatten.mp himage
    exact (hopen batch hbatch image himage).1

def twoBatches : List (List (Image .standard)) :=
  [[.filled _ 1 1 0 7, .filled _ 1 1 1 8], [.filled _ 1 1 0 9]]

theorem length_twoBatches : (logBatches .standard 1 twoBatches).file.length = 57344 := by
  rw [(resting_logBatches 1 twoBatches).file, length_logBytes rfl]
  rfl

theorem allOpen_twoBatches : AllOpen oneRelation.opens twoBatches := by
  intro batch hbatch image himage
  have hmem := mem_flatten_of_mem hbatch himage
  rcases hmem with _ | ⟨_, _ | ⟨_, _ | ⟨_, hmem⟩⟩⟩
  · exact ⟨rfl, by decide⟩
  · exact ⟨rfl, by decide⟩
  · exact ⟨rfl, by decide⟩
  · cases hmem

theorem log_replayed_iff_two_batches : Replayed oneRelation twoBatches.flatten
      (vfdreplaylogfile .standard false (logBatches .standard 1 twoBatches).file [] oneRelation).recovery := by
  have hlong : (logBatches .standard 1 twoBatches).file.length < 2^63 := by
    rw [length_twoBatches]
    decide
  exact (log_replayed_iff .standard 1 twoBatches hlong [] oneRelation allOpen_twoBatches).mpr (.inl rfl)

/-- A codec that stores a block of zeros as one byte and gives up on any other. -/
def Lzf.zeroRuns : Lzf where
  compress := fun page limit => if page = zeros page.length ∧ 1 ≤ limit then [0] else []
  decompress := fun _ n => zeros n
  compress_fits := by
    intro page limit
    split
    · next h => exact h.2
    · exact Nat.zero_le _
  decompress_compress := by
    intro page limit h
    split at h
    · next hzero => exact hzero.1.symm
    · exact absurd rfl h

theorem zeroRuns_compress (n : Nat) {limit : Nat} (h : 1 ≤ limit) :
    Lzf.zeroRuns.compress (List.replicate n 0) limit = [0] := by
  have hzero : List.replicate n 0 = zeros (List.replicate n (0 : UInt8)).length := by
    rw [length_replicate, zeros]
  exact if_pos ⟨hzero, h⟩

def Config.compressing : Config := { Config.standard with compressLog := true, lzf := .zeroRuns }

def zeroBlocks (first n : Nat) : List (Image .compressing) :=
  (List.range n).map fun i => .filled _ 1 1 (Int64.ofNat (first+i)) 0

def sixZeroBlocks : List (List (Image .compressing)) := [zeroBlocks 0 5, zeroBlocks 5 1]

theorem stored_zeroBlock (block : Int64) :
    stored .compressing (Image.filled .compressing 1 1 block 0).buffer = leBytes 4 1 ++ [0] := by
  have hput : Config.compressing.lzf.compress (Image.filled .compressing 1 1 block 0).buffer.val
      (Config.compressing.blcksz-1) = [0] := zeroRuns_compress _ (by decide)
  rw [stored]
  simp only [hput]
  rfl

theorem length_zeroBlocks (first n : Nat) : (storedImages (zeroBlocks first n)).length = 5*n := by
  have hstored : storedImages (zeroBlocks first n) = (List.range n).flatMap fun _ => leBytes 4 1 ++ [0] := by
    rw [storedImages, zeroBlocks, flatMap_map]
    simp only [stored_zeroBlock]
  rw [hstored]
  simp [length_leBytes, mul_comm]

theorem length_sixZeroBlocks : (logBytes 1 sixZeroBlocks).length = 32798 := by
  rw [sixZeroBlocks, logBytes, logBytes, logBytes, append_nil, length_append,
    length_batchBytes, length_batchBytes, length_zeroBlocks, length_zeroBlocks]
  rfl

/-- The first batch is counted with 57344 bytes of a file with 32798, so the second is not replayed.
-/
theorem second_compressed_batch_lost :
    (vfdreplaylogfile .compressing false (logBatches .compressing 1 sixZeroBlocks).file []
        oneRelation).recovery.writes = (zeroBlocks 0 5).map blockWrite ∧
      AllOpen oneRelation.opens sixZeroBlocks := by
  have hopen : AllOpen oneRelation.opens sixZeroBlocks := by
    intro batch hbatch image himage
    have hfilled : ∃ block, image = Image.filled .compressing 1 1 block 0 := by
      obtain rfl | rfl := mem_pair.mp hbatch
      all_goals
        obtain ⟨i, _, rfl⟩ := mem_map.mp himage
        exact ⟨_, rfl⟩
    obtain ⟨block, rfl⟩ := hfilled
    exact ⟨rfl, (by decide : (1 : Oid) ≠ 0)⟩
  have hlong : (logBytes 1 sixZeroBlocks).length < 2^63 := by
    rw [length_sixZeroBlocks]
    decide
  have hwrote := wrote_replaylogfile hlong (.inl rfl) [] hopen
  have hreached : reached Config.compressing 32798 0 sixZeroBlocks = [zeroBlocks 0 5] := rfl
  rw [append_nil, length_sixZeroBlocks, hreached] at hwrote
  rw [(resting_logBatches 1 sixZeroBlocks).file]
  refine ⟨hwrote.writes.trans ?_, hopen⟩
  rw [flatten_singleton]
  rfl

/-! ## Stopped processes -/

section

variable {compressed : Bool}

theorem wrote_recovered (r : Recovery) (pages : List (Oid × Oid × Int64)) : Wrote r [] { r with recovered := pages } :=
  ⟨(append_nil _).symm, rfl, rfl⟩

theorem wrote_replayEntry_index (w : SegmentWalk) (info : SmgrData) :
    Wrote w.recovery [] (replayEntry c true compressed w info).recovery := by
  unfold replayEntry
  simp only [if_true]
  split
  · exact wrote_recovered _ _
  · exact .refl _

theorem wrote_foldl_index (blocks : List SmgrData) (w : SegmentWalk) :
    Wrote w.recovery [] (blocks.foldl (replayEntry c true compressed) w).recovery := by
  induction blocks generalizing w with
  | nil => exact .refl _
  | cons info blocks ih => exact (wrote_replayEntry_index w info).trans (ih _)

theorem wrote_replaysegment_index (rest : Bytes) (r : Recovery) :
    Wrote r [] (vfdreplaysegment c true compressed rest r).2.2 := by
  unfold vfdreplaysegment
  dsimp only
  split
  · exact .refl _
  · split
    · exact .refl _
    · exact wrote_foldl_index _ ⟨_, _, _, r⟩

theorem wrote_replaySegments_index (n : Nat) (rest : Bytes) (total : Nat) (r : Recovery) :
    Wrote r [] (replaySegments c true compressed n rest total r).2.2 := by
  induction n generalizing rest total r with
  | zero => exact .refl r
  | succ n ih =>
    have hsegment := @wrote_replaysegment_index c compressed rest r
    rw [replaySegments]
    split
    · next heq =>
      rw [heq] at hsegment
      exact hsegment
    · next heq =>
      rw [heq] at hsegment
      exact hsegment.trans (ih _ _ _)

end

theorem wrote_replayBatch_index (w : FileWalk) : Wrote w.recovery [] (replayBatch c true w).2.recovery := by
  unfold replayBatch
  dsimp only
  split
  · exact .refl _
  split
  · exact .refl _
  split
  · exact .refl _
  split
  · exact .refl _
  · exact wrote_replaySegments_index _ _ _ _

theorem wrote_replayLoop_index (stop : Nat) (w : FileWalk) :
    Wrote w.recovery [] (replayLoop c true stop w).recovery := by
  fun_induction replayLoop c true stop w with
  | case1 w _ w' hbatch =>
    have hwrote := wrote_replayBatch_index (c := c) w
    rwa [hbatch] at hwrote
  | case2 w _ w' hbatch ih =>
    have hwrote := wrote_replayBatch_index (c := c) w
    rw [hbatch] at hwrote
    exact hwrote.trans ih
  | case3 w _ => exact .refl _

theorem wrote_replaylogfile_index (c : Config) (file logBuffer : Bytes) (r : Recovery) :
    Wrote r [] (vfdreplaylogfile c true file logBuffer r).recovery :=
  wrote_replayLoop_index file.length ⟨file, 0, 0, false, logBuffer, r⟩

theorem length_logBytes_take (batches : List (List (Image c))) (n : Nat) :
    (logBytes id (batches.take n)).length ≤ (logBytes id batches).length := by
  induction batches generalizing id n with
  | nil => simp only [take_nil, Nat.le_refl]
  | cons batch batches ih =>
    cases n with
    | zero => exact Nat.zero_le _
    | succ n =>
      rw [take_succ_cons, logBytes, logBytes, length_append, length_append]
      exact Nat.add_le_add_left (ih (id+1) n) _

/-- Wherever the process stops, the replay applies exactly the images of the completed batches. -/
theorem stopped_log_replays_committed (c : Config) (hraw : c.compressLog = false)
    (logCount : Int64) (batches : List (List (Image c)))
    (hlong : (logBatches c logCount batches).file.length < 2^63) (k : Nat)
    (old : Option Bytes) (logBuffer : Bytes) (r : Recovery) (hopen : AllOpen r.opens batches) :
    Wrote r ((batches.take (committed ((logBatches c logCount batches).writes.take k))).flatten.map blockWrite)
      (vfdreplaylogs c (fileAfter ((logBatches c logCount batches).writes.take k)) old logBuffer
        r).recovery := by
  have hresting := resting_logBatches logCount batches
  obtain ⟨tail, htail, hfile⟩ := hresting.stops.stopped k
  rw [hresting.file] at hlong
  generalize committed ((logBatches c logCount batches).writes.take k) = n at hfile ⊢
  have hlong' : (logBytes logCount (batches.take n)).length < 2^63 :=
    Nat.lt_of_le_of_lt (length_logBytes_take logCount batches n) hlong
  have hopen' : AllOpen r.opens (batches.take n) := fun batch h => hopen batch (mem_of_mem_take h)
  have hwrote := wrote_replaylogfile hlong' htail logBuffer hopen'
  have hall := (reached_flatten_iff (logBytes logCount (batches.take n) ++ tail).length 0
    (batches.take n)).mpr (by
      intro before batch after heq _
      have hlt := walked_lt hraw logCount heq
      rw [length_append, Nat.zero_add]
      exact Nat.lt_of_lt_of_le hlt (Nat.le_add_right _ _))
  rw [hall, ← hfile] at hwrote
  unfold vfdreplaylogs
  dsimp only
  split
  · exact hwrote
  · split
    · exact hwrote.silent (wrote_replaylogfile_index c _ _ _)
    · exact hwrote

/-- The process stops while it logs the second batch. -/
theorem stopped_log_replays_committed_first : committed ((logBatches .standard 1 twoBatches).writes.take 6) = 1 ∧
    Wrote oneRelation
      ((twoBatches.take (committed ((logBatches .standard 1 twoBatches).writes.take 6))).flatten.map blockWrite)
      (vfdreplaylogs .standard (fileAfter ((logBatches .standard 1 twoBatches).writes.take 6)) none []
        oneRelation).recovery := by
  have hlong : (logBatches .standard 1 twoBatches).file.length < 2^63 := by
    rw [length_twoBatches]
    decide
  exact ⟨rfl, stopped_log_replays_committed .standard rfl 1 twoBatches hlong 6 none [] oneRelation allOpen_twoBatches⟩

/-- The start of the log stays, and the batch is written behind it. -/
structure Keeps (start : Bytes) (s : LogState) : Prop where
  file : start <+: s.file
  offset : start.length ≤ s.offset
  logPos : start.length ≤ s.logPos

section

variable {start : Bytes} {s : LogState}

theorem Keeps.fileWrite (h : Keeps start s) (purpose : Purpose) (bytes : Bytes) :
    Keeps start (fileWrite purpose bytes s) where
  file := by
    have htake : start <+: s.file.take s.offset := prefix_take_iff.mpr ⟨h.file, h.offset⟩
    change start <+: s.file.take s.offset ++ bytes ++ _
    rw [append_assoc]
    exact htake.trans (prefix_append _ _)
  offset := Nat.le_trans h.offset (Nat.le_add_right _ _)
  logPos := h.logPos

theorem Keeps.dump (h : Keeps start s) : Keeps start (vfddumplogtodisk c s) := by
  unfold vfddumplogtodisk
  split
  · exact h
  · have hcounted : Keeps start { s with header.segments := s.header.segments + 1 } := { h with }
    exact { (hcounted.fileWrite .segment _).fileWrite .images s.scratch with }

theorem Keeps.log (h : Keeps start s) (image : Image c) : Keeps start (vfdlog c image s) := by
  unfold vfdlog
  split
  · exact { h.dump with }
  · exact { h with }

theorem prefix_logBatch (s : LogState) (batch : List (Image c)) : s.file <+: (logBatch c s batch).file := by
  have hbegun : Keeps s.file (vfdbeginlog c s) := by
    refine { Keeps.fileWrite ?_ .begun _ with }
    exact ⟨prefix_rfl, Nat.le_refl _, Nat.le_refl _⟩
  have hlogged : Keeps s.file (batch.foldl (fun s image => vfdlog c image s) (vfdbeginlog c s)) :=
    foldlRecOn batch _ hbegun fun _ h image _ => h.log image
  have hdumped : Keeps s.file (vfddumplogtodisk c _) := hlogged.dump
  refine (Keeps.fileWrite ?_ .committed _).file
  exact ⟨hdumped.file, hdumped.logPos, hdumped.logPos⟩

theorem file_vfdbeginlog (s : LogState) : (vfdbeginlog c s).file = s.file ++ (vfdbeginlog c s).header.block c :=
  overwrite_end ..

end

/-- Nothing behind an uncompleted header is replayed. -/
theorem replay_uncompleted {header : LogHeader} (hheader : header.completed = false) {log : Bytes}
    (hlog : header.block c <+: log) (r : Recovery) :
    (vfdreplaylogfile c false log [] r).recovery.writes = r.writes := by
  obtain ⟨rest, rfl⟩ := hlog
  have htail : Uncommitted c (header.block c ++ rest) := .inr ⟨header, rest, hheader, rfl⟩
  have hshort : (logBytes 0 ([] : List (List (Image c)))).length < 2^63 := Nat.two_pow_pos 63
  exact (wrote_replaylogfile hshort htail [] nofun).writes.trans (append_nil _)

theorem replay_reopened {s t : LogState} (hs : s.file = []) (ht : t.file = (vfdbeginlog c s).file)
    (batch : List (Image c)) (r : Recovery) :
    (vfdreplaylogs c (logBatch c t batch).file none [] r).recovery.writes = r.writes := by
  have hprefix := prefix_logBatch t batch
  rw [ht, file_vfdbeginlog, hs, nil_append] at hprefix
  unfold vfdreplaylogs
  dsimp only
  rw [ite_self]
  exact replay_uncompleted rfl hprefix r

def reopenedLog : LogState := { freshLog 2 with file := (vfdbeginlog .standard (freshLog 1)).file }

/-- A process stops after `vfdbeginlog`. The next one opens the log as it is, and its batch is lost. -/
theorem reopened_log_batch_lost : committed (logBatch .standard reopenedLog [.filled _ 1 1 0 7]).writes = 1 ∧
    (vfdreplaylogs .standard (logBatch .standard reopenedLog [.filled _ 1 1 0 7]).file none []
      oneRelation).recovery.writes = [] := by
  have hfile : reopenedLog.file = (vfdbeginlog .standard (freshLog 1)).file := rfl
  exact ⟨rfl, replay_reopened rfl hfile [.filled _ 1 1 0 7] oneRelation⟩

end WeaverDB.ShadowLog
