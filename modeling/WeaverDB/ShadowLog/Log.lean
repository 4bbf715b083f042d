import Mathlib.Data.List.Basic
import WeaverDB.ShadowLog.Format

/-! # Writing and replaying the shadow log

The writer is a function on `LogState`: the log file, the position in it and the static buffers of
`vfd.c`. Every `FileWrite` is also recorded in `writes`, for the file that a stop between two writes
leaves. What the replay still has to read is the list `rest`.
-/

namespace WeaverDB.ShadowLog
open Foundations

structure Image (c : Config) where
  info : SmgrData
  block : Int64
  buffer : { page : Bytes // page.length = c.blcksz }

def Image.filled (c : Config) (dbid relid : Oid) (block : Int64) (byte : UInt8) : Image c where
  info := ⟨114, 0, relid, dbid⟩
  block := block
  buffer := ⟨List.replicate c.blcksz byte, List.length_replicate⟩

inductive Purpose where
  | begun
  | segment
  | images
  | committed
deriving DecidableEq

structure LogWrite where
  purpose : Purpose
  pos : Nat
  bytes : Bytes

/-- `blocks` are the entries of `SegmentStore` in use, `scratch` is `scratch_space`. -/
structure LogState where
  file : Bytes
  offset : Nat
  writes : List LogWrite
  header : LogHeader
  logCount : Int64
  logPos : Nat
  blocks : List SmgrData
  scratch : Bytes

def fileWrite (purpose : Purpose) (bytes : Bytes) (s : LogState) : LogState :=
  { s with
    file := overwrite s.file s.offset bytes
    offset := s.offset+bytes.length
    writes := s.writes ++ [⟨purpose, s.offset, bytes⟩] }

def vfdbeginlog (c : Config) (s : LogState) : LogState :=
  let header : LogHeader :=
    { headerMagic := headerMagic
      logId := s.logCount
      segments := 0
      completed := false
      compressed := c.compressLog }
  let sought := { s with
    header := header
    logCount := s.logCount+1
    logPos := s.file.length
    offset := s.file.length }
  { fileWrite .begun (header.block c) sought with blocks := [] }

def vfddumplogtodisk (c : Config) (s : LogState) : LogState :=
  if s.blocks = [] then s
  else
    let segment : LogSegment :=
      { segmentMagic := segmentMagic
        segId := s.header.segments
        count := Int16.ofNat s.blocks.length
        blocks := s.blocks }
    let counted := { s with header.segments := s.header.segments + 1 }
    let dumped := fileWrite .images s.scratch (fileWrite .segment (segment.data c) counted)
    { dumped with scratch := [], blocks := [] }

def stored (c : Config) (page : Bytes) : Bytes :=
  if c.compressLog then
    let put := c.lzf.compress page (c.blcksz-1)
    if put = [] then leBytes 4 c.blcksz ++ page
    else leBytes 4 put.length ++ put
  else page

/-- `vfdlog` sets `nblocks` of the caller's `info` before it copies it. -/
def Image.entry {c : Config} (image : Image c) : SmgrData := { image.info with nblocks := image.block }

def vfdlog (c : Config) (image : Image c) (s : LogState) : LogState :=
  let s := if s.blocks.length = c.maxBlocks then vfddumplogtodisk c s else s
  { s with
    blocks := s.blocks ++ [image.entry]
    scratch := s.scratch ++ stored c image.buffer }

def vfdcommitlog (c : Config) (s : LogState) : LogState :=
  let s := vfddumplogtodisk c s
  let s := { s with header.completed := true, offset := s.logPos }
  fileWrite .committed (s.header.block c) s

/-- One `vfdbeginlog`, a `vfdlog` for each image, and one `vfdcommitlog`. -/
def logBatch (c : Config) (s : LogState) (batch : List (Image c)) : LogState :=
  vfdcommitlog c (batch.foldl (fun s image => vfdlog c image s) (vfdbeginlog c s))

/-- A log file that was just created, as by `vfdexpirelogs`. `vfdinit` opens the file that is there. -/
def freshLog (logCount : Int64) : LogState where
  file := []
  offset := 0
  writes := []
  header := ⟨headerMagic, 0, 0, false, false⟩
  logCount := logCount
  logPos := 0
  blocks := []
  scratch := []

def logBatches (c : Config) (logCount : Int64) (batches : List (List (Image c))) : LogState :=
  batches.foldl (logBatch c) (freshLog logCount)

def fileAfter (writes : List LogWrite) : Bytes := writes.foldl (fun file w => overwrite file w.pos w.bytes) []

structure BlockWrite where
  dbid : Oid
  relid : Oid
  nblocks : Int64
  block : Bytes
deriving DecidableEq

/-- `files dbid relid` is `none` where `FileNameOpenFile` fails; `writes` are the blocks written. -/
structure Recovery where
  files : Oid → Oid → Option (Int64 → Option Bytes)
  writes : List BlockWrite
  recovered : List (Oid × Oid × Int64)

/-- An open `fd` is given by its relation; descriptor 0 is never handed out. -/
structure Cursor where
  fd : Option (Oid × Oid)
  cdb : Oid
  crel : Oid

def relkindIndex : UInt8 := 105

def Recovery.opens (r : Recovery) (dbid relid : Oid) : Bool := (r.files dbid relid).isSome

def applyWrite (files : Oid → Oid → Option (Int64 → Option Bytes)) (w : BlockWrite)
    (dbid relid : Oid) : Option (Int64 → Option Bytes) :=
  if dbid = w.dbid ∧ relid = w.relid then
    (files dbid relid).map fun file n => if n = w.nblocks then some w.block else file n
  else files dbid relid

def writeBlock (w : BlockWrite) (r : Recovery) : Recovery :=
  { r with files := applyWrite r.files w, writes := r.writes ++ [w] }

def openRelation (opens : Oid → Oid → Bool) (info : SmgrData) (cur : Cursor) : Cursor :=
  if cur.cdb ≠ info.dbid ∨ cur.crel ≠ info.relid then
    if opens info.dbid info.relid then
      { fd := some (info.dbid, info.relid), cdb := info.dbid, crel := info.relid }
    else { cur with fd := none }
  else cur

def replayBlock (info : SmgrData) (block : Bytes) (cur : Cursor) (r : Recovery) : Cursor × Recovery :=
  let cur := openRelation r.opens info cur
  match cur.fd with
  | none => (cur, r)
  | some (dbid, relid) =>
    let r := writeBlock ⟨dbid, relid, info.nblocks, block⟩ r
    if info.relkind = relkindIndex then
      (cur, { r with recovered := r.recovered ++ [(cur.cdb, cur.crel, info.nblocks)] })
    else (cur, r)

/-- Old contents that a short read leaves are not modelled, nor a length that the block has no room for. -/
def readImage (c : Config) (compressed : Bool) (rest : Bytes) : Nat × Bytes × Bytes :=
  if compressed then
    let get := leValue (rest.take 4 ++ (leBytes 4 c.blcksz).drop (rest.take 4).length)
    let readBlock := (rest.drop 4).take get
    let rest := (rest.drop 4).drop get
    if get ≠ c.blcksz then
      let block := c.lzf.decompress readBlock c.blcksz
      (block.length, block, rest)
    else (c.blcksz, readBlock, rest)
  else ((rest.take c.blcksz).length, rest.take c.blcksz, rest.drop c.blcksz)

structure SegmentWalk where
  rest : Bytes
  total : Nat
  cur : Cursor
  recovery : Recovery

def replayEntry (c : Config) (indexingonly compressed : Bool) (w : SegmentWalk)
    (info : SmgrData) : SegmentWalk :=
  let (ret, block, rest) := readImage c compressed w.rest
  if indexingonly then
    if info.relkind = relkindIndex then
      { w with rest := rest, recovery := { w.recovery with
          recovered := w.recovery.recovered ++ [(info.dbid, info.relid, info.nblocks)] } }
    else { w with rest := rest }
  else if ret = c.blcksz then
    let (cur, recovery) := replayBlock info block w.cur w.recovery
    { rest := rest, total := w.total+ret, cur := cur, recovery := recovery }
  else { w with rest := rest }

def vfdreplaysegment (c : Config) (indexingonly compressed : Bool) (rest : Bytes) (r : Recovery) :
    Option Nat × Bytes × Recovery :=
  let data := rest.take c.blcksz
  let rest := rest.drop c.blcksz
  if data.length ≠ c.blcksz then (none, rest, r)
  else if (LogSegment.ofData data).segmentMagic ≠ segmentMagic then (none, rest, r)
  else
    let walk := (LogSegment.ofData data).blocks.foldl (replayEntry c indexingonly compressed)
      { rest := rest, total := c.blcksz, cur := ⟨none, 0, 0⟩, recovery := r }
    (some walk.total, walk.rest, walk.recovery)

def replaySegments (c : Config) (indexonly compressed : Bool) : Nat → Bytes → Nat → Recovery →
    Bytes × Nat × Recovery
  | 0, rest, total, r => (rest, total, r)
  | n + 1, rest, total, r =>
    match vfdreplaysegment c indexonly compressed rest r with
    | (none, rest, r) => (rest, total, r)
    | (some add, rest, r) => replaySegments c indexonly compressed n rest (total+add) r

/-- `logBuffer` is `LogBuffer.block`, which a short read overwrites in part. -/
structure FileWalk where
  rest : Bytes
  total : Nat
  id : Int64
  logged : Bool
  logBuffer : Bytes
  recovery : Recovery

def FileWalk.header (w : FileWalk) : LogHeader := LogHeader.ofBlock w.logBuffer

def replayBatch (c : Config) (indexonly : Bool) (w : FileWalk) : Bool × FileWalk :=
  let read := w.rest.take c.blcksz
  let w := { w with rest := w.rest.drop c.blcksz, logBuffer := read ++ w.logBuffer.drop read.length }
  if read.length ≠ c.blcksz then (false, w)
  else
    let w := { w with total := w.total + c.blcksz }
    if w.header.headerMagic ≠ headerMagic then (false, w)
    else if w.header.completed = false then (false, w)
    else if w.id ≠ 0 ∧ w.id + 1 ≠ w.header.logId then (false, w)
    else
      let (rest, total, recovery) := replaySegments c indexonly w.header.compressed
        w.header.segments.toInt.toNat w.rest w.total w.recovery
      (true, { w with
        rest := rest
        total := total
        id := w.header.logId
        logged := true
        recovery := recovery })

theorem replaySegments_total (c : Config) (indexonly compressed : Bool) (n : Nat) (rest : Bytes)
    (total : Nat) (r : Recovery) :
    total ≤ (replaySegments c indexonly compressed n rest total r).2.1 := by
  induction n generalizing rest total r with
  | zero => exact Nat.le_refl _
  | succ n ih =>
    rw [replaySegments]
    split
    · exact Nat.le_refl _
    · exact Nat.le_trans (Nat.le_add_right _ _) (ih _ _ _)

theorem replayBatch_total {c : Config} {indexonly : Bool} {w w' : FileWalk}
    (h : replayBatch c indexonly w = (true, w')) : w.total < w'.total := by
  simp only [replayBatch] at h
  split at h
  · nomatch h
  split at h
  · nomatch h
  split at h
  · nomatch h
  split at h
  · nomatch h
  · injection h with _ hw
    subst hw
    exact Nat.lt_of_lt_of_le (Nat.lt_add_of_pos_right c.blcksz_pos) (replaySegments_total c indexonly _ _ _ _ _)

def replayLoop (c : Config) (indexonly : Bool) (stop : Nat) (w : FileWalk) : FileWalk :=
  if w.total < stop then
    match _hbatch : replayBatch c indexonly w with
    | (false, w') => w'
    | (true, w') => replayLoop c indexonly stop w'
  else w
termination_by stop - w.total
decreasing_by
  have htotal := replayBatch_total _hbatch
  omega

/-- `_vfdreplaylogfile` on a file that opened; `logged` is its result. -/
def vfdreplaylogfile (c : Config) (indexonly : Bool) (file logBuffer : Bytes) (r : Recovery) :
    FileWalk :=
  replayLoop c indexonly file.length
    { rest := file, total := 0, id := 0, logged := false, logBuffer := logBuffer, recovery := r }

/-- The expired log is consulted for its index pages, when the log itself holds no batch. -/
def vfdreplaylogs (c : Config) (log : Bytes) (old : Option Bytes) (logBuffer : Bytes)
    (r : Recovery) : FileWalk :=
  let w := vfdreplaylogfile c false log logBuffer r
  if w.logged then w
  else match old with
    | some file => vfdreplaylogfile c true file w.logBuffer w.recovery
    | none => w

end WeaverDB.ShadowLog
