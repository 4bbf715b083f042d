import Mathlib.Data.List.Induction
import WeaverDB.ShadowLog.Segments

/-! # The file a sequence of batches leaves

The file is, at any time, the completed batches one after the other and then, while a batch is being
logged, an uncompleted header and whatever segments of it were spilled. This is also all that a stop
between two writes can leave.
-/

namespace WeaverDB.ShadowLog
open Foundations List

variable {c : Config}

/-! ## Cutting a batch into segments -/

/-- The spilled segments and the images still in `SegmentStore`, after one more image. -/
def pack (p : List (List (Image c)) × List (Image c)) (image : Image c) :
    List (List (Image c)) × List (Image c) :=
  if p.2.length = c.maxBlocks then (p.1 ++ [p.2], [image]) else (p.1, p.2 ++ [image])

def spill (p : List (List (Image c)) × List (Image c)) : List (List (Image c)) :=
  if p.2 = [] then p.1 else p.1 ++ [p.2]

def segmentsOf (batch : List (Image c)) : List (List (Image c)) := spill (batch.foldl pack ([], []))

structure Packed (logged : List (Image c)) (p : List (List (Image c)) × List (Image c)) : Prop where
  images : p.1.flatten ++ p.2 = logged
  full : ∀ segment ∈ p.1, segment.length = c.maxBlocks
  fits : p.2.length ≤ c.maxBlocks
  begun : p.2 = [] → p.1 = []

theorem Packed.pack {logged : List (Image c)} {p : List (List (Image c)) × List (Image c)}
    (h : Packed logged p) (image : Image c) : Packed (logged ++ [image]) (pack p image) := by
  have hpos := c.maxBlocks_pos
  unfold ShadowLog.pack
  split
  · next hfull =>
    refine ⟨?_, ?_, hpos, fun h => (nomatch h)⟩
    · rw [flatten_append, flatten_singleton, h.images]
    · intro segment hmem
      obtain hmem | hmem := mem_append.mp hmem
      · exact h.full segment hmem
      · rw [mem_singleton.mp hmem, hfull]
  · next hroom =>
    have hfits := h.fits
    refine ⟨by rw [← append_assoc, h.images], h.full, ?_, fun h => absurd h (by simp)⟩
    rw [length_append, length_singleton]
    omega

theorem packed_foldl (batch : List (Image c)) : Packed batch (batch.foldl pack ([], [])) := by
  induction batch using List.reverseRecOn with
  | nil => exact ⟨rfl, fun _ h => (nomatch h), Nat.zero_le _, fun _ => rfl⟩
  | append_singleton batch image ih =>
    rw [foldl_append]
    exact ih.pack image

section

variable (batch : List (Image c))

theorem flatten_segmentsOf : (segmentsOf batch).flatten = batch := by
  have himages := (packed_foldl batch).images
  unfold segmentsOf spill
  split
  · next hnil => rwa [hnil, append_nil] at himages
  · rwa [flatten_append, flatten_singleton]

theorem length_segment_le {segment : List (Image c)} (h : segment ∈ segmentsOf batch) :
    segment.length ≤ c.maxBlocks := by
  have hpacked := packed_foldl batch
  unfold segmentsOf spill at h
  split at h
  · exact Nat.le_of_eq (hpacked.full segment h)
  · obtain h | h := mem_append.mp h
    · exact Nat.le_of_eq (hpacked.full segment h)
    · rw [mem_singleton.mp h]
      exact hpacked.fits

def segmentsNeeded (c : Config) (n : Nat) : Nat := (n + c.maxBlocks - 1) / c.maxBlocks

theorem length_flatten_full {segments : List (List (Image c))}
    (hfull : ∀ segment ∈ segments, segment.length = c.maxBlocks) :
    segments.flatten.length = segments.length*c.maxBlocks := by
  rw [length_flatten, map_congr_left hfull, map_const', sum_replicate_nat]

theorem length_segmentsOf : (segmentsOf batch).length = segmentsNeeded c batch.length := by
  have hpacked := packed_foldl batch
  have hpos := c.maxBlocks_pos
  have htotal := congrArg List.length hpacked.images
  rw [length_append, length_flatten_full hpacked.full] at htotal
  have hfits := hpacked.fits
  unfold segmentsOf spill segmentsNeeded
  split
  · next hnil =>
    rw [hnil, hpacked.begun hnil] at htotal
    rw [hpacked.begun hnil, ← htotal]
    refine (Nat.div_eq_of_lt ?_).symm
    simp only [length_nil, Nat.zero_mul, Nat.zero_add]
    omega
  · next hcons =>
    have hlast := length_pos_iff.mpr hcons
    rw [length_append, length_singleton]
    refine (Nat.div_eq_of_lt_le ?_ ?_).symm
    · rw [Nat.add_mul]
      omega
    · rw [Nat.add_mul, Nat.add_mul]
      omega

end

/-! ## The bytes of a log -/

def segmentsBytes : Nat → List (List (Image c)) → Bytes
  | _, [] => []
  | i, segment :: segments =>
    segmentBytes (Int64.ofNat i) segment ++ segmentsBytes (i+1) segments

theorem segmentsBytes_append (i : Nat) (segments : List (List (Image c))) (segment : List (Image c)) :
    segmentsBytes i (segments ++ [segment]) =
      segmentsBytes i segments ++ segmentBytes (.ofNat (i+segments.length)) segment := by
  induction segments generalizing i with
  | nil => simp [segmentsBytes]
  | cons first segments ih =>
    rw [cons_append, segmentsBytes, ih, segmentsBytes, append_assoc, length_cons, Nat.add_right_comm, Nat.add_assoc]

def headerOf (c : Config) (id : Int64) (segments : Nat) (completed : Bool) : LogHeader where
  headerMagic := headerMagic
  logId := id
  segments := Int64.ofNat segments
  completed := completed
  compressed := c.compressLog

def batchBytes (id : Int64) (batch : List (Image c)) : Bytes :=
  (headerOf c id (segmentsOf batch).length true).block c ++ segmentsBytes 0 (segmentsOf batch)

def logBytes : Int64 → List (List (Image c)) → Bytes
  | _, [] => []
  | id, batch :: batches => batchBytes id batch ++ logBytes (id+1) batches

def idAfter (id : Int64) (batches : List (List (Image c))) : Int64 := batches.foldl (fun id _ => id+1) id

theorem logBytes_append (id : Int64) (batches : List (List (Image c))) (batch : List (Image c)) :
    logBytes id (batches ++ [batch]) = logBytes id batches ++ batchBytes (idAfter id batches) batch := by
  induction batches generalizing id with
  | nil => exact append_nil _
  | cons first batches ih =>
    rw [cons_append, logBytes, ih, logBytes, append_assoc]
    rfl

def Uncommitted (c : Config) (tail : Bytes) : Prop :=
  tail = [] ∨ ∃ (h : LogHeader) (spilled : Bytes), h.completed = false ∧ tail = h.block c ++ spilled

/-! ## Stops -/

def committed (writes : List LogWrite) : Nat := writes.countP fun w => w.purpose = .committed

/-- The file after `writes` is that of the batches whose completed header was written. -/
def Stopped (c : Config) (id : Int64) (batches : List (List (Image c))) (writes : List LogWrite) :
    Prop :=
  ∃ tail, Uncommitted c tail ∧ fileAfter writes = logBytes id (batches.take (committed writes)) ++ tail

structure Stops (c : Config) (id : Int64) (batches : List (List (Image c))) (s : LogState) : Prop where
  file : s.file = fileAfter s.writes
  committed : committed s.writes = batches.length
  stopped : ∀ k, Stopped c id batches (s.writes.take k)

theorem fileAfter_append (writes : List LogWrite) (w : LogWrite) :
    fileAfter (writes ++ [w]) = overwrite (fileAfter writes) w.pos w.bytes := by
  rw [fileAfter, foldl_append]
  rfl

theorem take_append_singleton {α : Type} (xs : List α) (x : α) (k : Nat) :
    (xs ++ [x]).take k = xs.take k ∨ (xs ++ [x]).take k = xs ++ [x] := by
  obtain hlt | hle := Nat.lt_or_ge xs.length k
  · refine .inr (take_of_length_le ?_)
    rwa [length_append]
  · exact .inl (take_append_of_le_length hle)

section

variable {id : Int64} {batches : List (List (Image c))} {s : LogState}

theorem Stops.write (h : Stops c id batches s) {purpose : Purpose} {bytes tail : Bytes}
    (hpurpose : purpose ≠ .committed) (htail : Uncommitted c tail)
    (hfile : (fileWrite purpose bytes s).file = logBytes id batches ++ tail) :
    Stops c id batches (fileWrite purpose bytes s) := by
  have hafter : (fileWrite purpose bytes s).file = fileAfter (fileWrite purpose bytes s).writes := by
    simp only [fileWrite, fileAfter_append, h.file]
  have hcount : ShadowLog.committed (fileWrite purpose bytes s).writes = batches.length := by
    simp only [fileWrite, ShadowLog.committed, countP_append, countP_singleton, hpurpose,
      decide_false, Bool.false_eq_true, if_false, add_zero]
    exact h.committed
  refine ⟨hafter, hcount, fun k => ?_⟩
  obtain hk | hk := take_append_singleton s.writes ⟨purpose, s.offset, bytes⟩ k
  · rw [fileWrite, hk]
    exact h.stopped k
  · refine ⟨tail, htail, ?_⟩
    rw [fileWrite, hk]
    change fileAfter (fileWrite purpose bytes s).writes =
      logBytes id (batches.take (ShadowLog.committed (fileWrite purpose bytes s).writes)) ++ tail
    rw [hcount, take_length, ← hafter, hfile]

theorem committed_take_le (writes : List LogWrite) (k : Nat) : committed (writes.take k) ≤ committed writes :=
  (take_sublist k writes).countP_le

theorem Stops.commit (h : Stops c id batches s) {bytes : Bytes} {batch : List (Image c)}
    (hfile : (fileWrite .committed bytes s).file = logBytes id (batches ++ [batch])) :
    Stops c id (batches ++ [batch]) (fileWrite .committed bytes s) := by
  have hafter : (fileWrite .committed bytes s).file = fileAfter (fileWrite .committed bytes s).writes := by
    simp only [fileWrite, fileAfter_append, h.file]
  have hcount : ShadowLog.committed (fileWrite .committed bytes s).writes = (batches ++ [batch]).length := by
    rw [length_append, length_singleton, ← h.committed]
    simp only [fileWrite, ShadowLog.committed, countP_append, countP_singleton, decide_true, if_true]
  refine ⟨hafter, hcount, fun k => ?_⟩
  obtain hk | hk := take_append_singleton s.writes ⟨.committed, s.offset, bytes⟩ k
  · obtain ⟨tail, htail, hfile⟩ := h.stopped k
    refine ⟨tail, htail, ?_⟩
    have hle : ShadowLog.committed (s.writes.take k) ≤ batches.length := h.committed ▸ committed_take_le s.writes k
    rw [fileWrite, hk, take_append_of_le_length hle]
    exact hfile
  · refine ⟨[], .inl rfl, ?_⟩
    rw [fileWrite, hk]
    change fileAfter (fileWrite .committed bytes s).writes = logBytes id ((batches ++ [batch]).take
      (ShadowLog.committed (fileWrite .committed bytes s).writes)) ++ []
    rw [hcount, take_length, ← hafter, hfile, append_nil]

end

/-! ## The writer's state -/

structure Resting (c : Config) (id : Int64) (batches : List (List (Image c))) (s : LogState) : Prop where
  stops : Stops c id batches s
  file : s.file = logBytes id batches
  logCount : s.logCount = idAfter id batches
  scratch : s.scratch = []

structure Logging (c : Config) (id : Int64) (batches : List (List (Image c)))
    (p : List (List (Image c)) × List (Image c)) (s : LogState) : Prop where
  stops : Stops c id batches s
  file : s.file = logBytes id batches ++
    ((headerOf c (idAfter id batches) 0 false).block c ++ segmentsBytes 0 p.1)
  offset : s.offset = s.file.length
  header : s.header = headerOf c (idAfter id batches) p.1.length false
  logPos : s.logPos = (logBytes id batches).length
  logCount : s.logCount = idAfter id batches + 1
  blocks : s.blocks = p.2.map Image.entry
  scratch : s.scratch = storedImages p.2

theorem uncommitted_header (c : Config) (id : Int64) (spilled : Bytes) :
    Uncommitted c ((headerOf c id 0 false).block c ++ spilled) :=
  .inr ⟨_, spilled, rfl, rfl⟩

theorem file_fileWrite {s : LogState} (h : s.offset = s.file.length) (purpose : Purpose)
    (bytes : Bytes) : (fileWrite purpose bytes s).file = s.file ++ bytes := by
  rw [fileWrite, h]
  exact overwrite_end _ _

theorem offset_fileWrite {s : LogState} (h : s.offset = s.file.length) (purpose : Purpose) (bytes : Bytes) :
    (fileWrite purpose bytes s).offset = (fileWrite purpose bytes s).file.length := by
  rw [file_fileWrite h, length_append, ← h]
  rfl

section

variable {id : Int64} {batches : List (List (Image c))} {s : LogState}
  {p : List (List (Image c)) × List (Image c)}

theorem Stops.congr {s' : LogState} (h : Stops c id batches s) (hfile : s'.file = s.file)
    (hwrites : s'.writes = s.writes) : Stops c id batches s' where
  file := by rw [hfile, hwrites, h.file]
  committed := by rw [hwrites, h.committed]
  stopped := by rw [hwrites]; exact h.stopped

theorem Resting.begin (h : Resting c id batches s) : Logging c id batches ([], []) (vfdbeginlog c s) := by
  let sought : LogState := { s with
    header := headerOf c s.logCount 0 false
    logCount := s.logCount+1
    logPos := s.file.length
    offset := s.file.length }
  have hfile : (fileWrite .begun ((headerOf c s.logCount 0 false).block c) sought).file =
      logBytes id batches ++ ((headerOf c (idAfter id batches) 0 false).block c ++ []) := by
    rw [file_fileWrite rfl, append_nil, h.logCount]
    exact congrArg (· ++ _) h.file
  have hstops : Stops c id batches sought := h.stops.congr rfl rfl
  have hwritten : Stops c id batches (fileWrite .begun _ sought) := hstops.write nofun (uncommitted_header c _ []) hfile
  exact
    { stops := hwritten.congr rfl rfl
      file := hfile
      offset := offset_fileWrite rfl .begun _
      header := congrArg (headerOf c · 0 false) h.logCount
      logPos := congrArg List.length h.file
      logCount := congrArg (· + 1) h.logCount
      blocks := rfl
      scratch := h.scratch }

section

variable (h : Logging c id batches p s)
include h

theorem Logging.dump (hcons : p.2 ≠ []) : Logging c id batches (p.1 ++ [p.2], []) (vfddumplogtodisk c s) := by
  let counted : LogState := { s with header.segments := s.header.segments + 1 }
  let headed := fileWrite .segment ((segmentOf (.ofNat p.1.length) p.2).data c) counted
  let filled := fileWrite .images (storedImages p.2) headed
  have hcounted : counted.offset = counted.file.length := h.offset
  have hheaded : headed.offset = headed.file.length := offset_fileWrite hcounted .segment _
  have hspilled (rest : Bytes) : counted.file ++ rest = logBytes id batches ++
      ((headerOf c (idAfter id batches) 0 false).block c ++ (segmentsBytes 0 p.1 ++ rest)) := by
    rw [show counted.file = _ from h.file, append_assoc, append_assoc]
  have hfile₁ : headed.file = _ := (file_fileWrite hcounted .segment _).trans (hspilled _)
  have hfile₂ : filled.file = logBytes id batches ++
      ((headerOf c (idAfter id batches) 0 false).block c ++ segmentsBytes 0 (p.1 ++ [p.2])) := by
    rw [segmentsBytes_append, zero_add, segmentBytes, ← hspilled, ← append_assoc, ← file_fileWrite hcounted .segment]
    exact file_fileWrite hheaded .images _
  have hstops : Stops c id batches counted := h.stops.congr rfl rfl
  have hstops₁ : Stops c id batches headed := hstops.write Purpose.noConfusion (uncommitted_header c _ _) hfile₁
  have hstops₂ : Stops c id batches filled := hstops₁.write Purpose.noConfusion (uncommitted_header c _ _) hfile₂
  have hdump : vfddumplogtodisk c s = { filled with scratch := [], blocks := [] } := by
    have hblocks : s.blocks ≠ [] := by
      rw [h.blocks]
      exact fun hnil => hcons (map_eq_nil_iff.mp hnil)
    have hsegment : (⟨segmentMagic, s.header.segments, Int16.ofNat s.blocks.length, s.blocks⟩ :
        LogSegment) = segmentOf (.ofNat p.1.length) p.2 := by
      rw [h.blocks, h.header]
      rfl
    rw [vfddumplogtodisk, if_neg hblocks]
    simp only [hsegment, h.scratch, filled, headed, counted]
  have hsegments : s.header.segments + 1 = .ofNat (p.1 ++ [p.2]).length := by
    rw [h.header, length_append, Int64.ofNat_add]
    rfl
  rw [hdump]
  exact
    { stops := hstops₂.congr rfl rfl
      file := hfile₂
      offset := offset_fileWrite hheaded .images _
      header := by
        change { s.header with segments := s.header.segments + 1 } = _
        rw [hsegments, h.header]
        rfl
      logPos := h.logPos
      logCount := h.logCount
      blocks := rfl
      scratch := rfl }

theorem Logging.log (image : Image c) : Logging c id batches (pack p image) (vfdlog c image s) := by
  have hadd {q : List (List (Image c)) × List (Image c)} {s' : LogState} (h' : Logging c id batches q s') :
      Logging c id batches (q.1, q.2 ++ [image])
        { s' with
          blocks := s'.blocks ++ [image.entry]
          scratch := s'.scratch ++ stored c image.buffer } :=
    { stops := h'.stops.congr rfl rfl
      file := h'.file
      offset := h'.offset
      header := h'.header
      logPos := h'.logPos
      logCount := h'.logCount
      blocks := by rw [h'.blocks, map_append, map_singleton]
      scratch := by rw [h'.scratch, storedImages, storedImages, flatMap_append, flatMap_singleton] }
  have hlength : s.blocks.length = p.2.length := by rw [h.blocks, length_map]
  unfold vfdlog pack
  rw [hlength]
  split
  · next hfull =>
    have hcons : p.2 ≠ [] := by
      rw [← length_pos_iff, hfull]
      exact c.maxBlocks_pos
    exact hadd (h.dump hcons)
  · exact hadd h

theorem Logging.foldl (batch : List (Image c)) : Logging c id batches (batch.foldl pack p)
      (batch.foldl (fun s image => vfdlog c image s) s) := by
  induction batch generalizing p s with
  | nil => exact h
  | cons image batch ih => exact ih (h.log image)

theorem Logging.spill : Logging c id batches (spill p, []) (vfddumplogtodisk c s) := by
  unfold ShadowLog.spill
  split
  · next hnil =>
    have hblocks : s.blocks = [] := by rw [h.blocks, hnil, map_nil]
    have hp : (p.1, ([] : List (Image c))) = p := by rw [← hnil]
    rw [vfddumplogtodisk, if_pos hblocks, hp]
    exact h
  · next hcons => exact h.dump hcons

end

theorem Logging.commit {batch : List (Image c)} (h : Logging c id batches (batch.foldl pack ([], [])) s) :
    Resting c id (batches ++ [batch]) (vfdcommitlog c s) := by
  have hspill := h.spill
  let sought : LogState :=
    { vfddumplogtodisk c s with
      header.completed := true
      offset := (vfddumplogtodisk c s).logPos }
  have hheader : sought.header = headerOf c (idAfter id batches) (segmentsOf batch).length true := by
    change { (vfddumplogtodisk c s).header with completed := true } = _
    rw [hspill.header]
    rfl
  have hfile : (fileWrite .committed (sought.header.block c) sought).file = logBytes id (batches ++ [batch]) := by
    have hlength : (sought.header.block c).length = ((headerOf c (idAfter id batches) 0 false).block c).length := by
      rw [LogHeader.length_block, LogHeader.length_block]
    change overwrite (vfddumplogtodisk c s).file (vfddumplogtodisk c s).logPos _ = _
    rw [hspill.file, hspill.logPos, ← append_assoc, overwrite_piece _ _ _ hlength, hheader,
      logBytes_append, append_assoc]
    rfl
  have hstops : Stops c id batches sought := hspill.stops.congr rfl rfl
  exact
    { stops := hstops.commit hfile
      file := hfile
      logCount := by
        rw [idAfter, foldl_append]
        exact hspill.logCount
      scratch := hspill.scratch }

end

theorem resting_freshLog (c : Config) (id : Int64) : Resting c id [] (freshLog id) where
  stops := ⟨rfl, rfl, fun k => ⟨[], .inl rfl, by rw [freshLog, take_nil]; rfl⟩⟩
  file := rfl
  logCount := rfl
  scratch := rfl

theorem resting_logBatches (id : Int64) (batches : List (List (Image c))) :
    Resting c id batches (logBatches c id batches) := by
  induction batches using List.reverseRecOn with
  | nil => exact resting_freshLog c id
  | append_singleton batches batch ih =>
    rw [logBatches, foldl_append]
    exact (ih.begin.foldl batch).commit

end WeaverDB.ShadowLog
