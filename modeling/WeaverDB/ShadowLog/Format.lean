import WeaverDB.Foundations.ByteFiles

/-! # The blocks of the shadow log

A batch of images in `pg_shadowlog` is one header block followed by segments; a segment is one block
that lists up to `max_blocks` entries, followed by their images.
-/

namespace WeaverDB.ShadowLog
open Foundations Nat List

abbrev Bytes := List UInt8

abbrev Oid := UInt64

/-- `lzf_compress` returns the empty list where the source returns 0. -/
structure Lzf where
  compress : Bytes → Nat → Bytes
  decompress : Bytes → Nat → Bytes
  compress_fits : ∀ (page : Bytes) (limit : Nat), (compress page limit).length ≤ limit
  decompress_compress : ∀ (page : Bytes) (limit : Nat), compress page limit ≠ [] →
    decompress (compress page limit) page.length = page

/-- `vfdinit` subtracts the offset of the entries with the wrong sign, hence `blcksz + 24`. They still
fit (`fits`). -/
structure Config where
  blcksz : Nat
  compressLog : Bool
  lzf : Lzf
  bounded : blcksz ≤ 32768
  fits : 24 + 176 * ((blcksz+24) / 176) ≤ blcksz
  large : 152 ≤ blcksz

def Lzf.incompressible : Lzf where
  compress := fun _ _ => []
  decompress := fun bytes _ => bytes
  compress_fits := fun _ _ => zero_le _
  decompress_compress := fun _ _ h => absurd rfl h

/-- The standard build: blocks of 8192 bytes, and `vfdcompress_log` not set. -/
def Config.standard : Config where
  blcksz := 8192
  compressLog := false
  lzf := .incompressible
  bounded := by decide
  fits := by decide
  large := by decide

namespace Config

variable (c : Config)

def maxBlocks : Nat := (c.blcksz+24) / 176

theorem maxBlocks_pos : 0 < c.maxBlocks := Nat.div_pos (Nat.add_le_add_right c.large 24) (zero_lt_succ _)

theorem entries_fit {n : Nat} (h : n ≤ c.maxBlocks) : 24 + 176 * n ≤ c.blcksz :=
  Nat.le_trans (Nat.add_le_add_left (Nat.mul_le_mul_left 176 h) 24) c.fits

theorem maxBlocks_lt : c.maxBlocks < 2^15 := by
  have hfits := c.entries_fit (Nat.le_refl _)
  have hbounded := c.bounded
  omega

theorem blcksz_pos : 0 < c.blcksz := Nat.lt_of_lt_of_le (zero_lt_succ _) c.large

end Config

def zeros (n : Nat) : Bytes := List.replicate n 0

def word (n : UInt64) : Bytes := leBytes 8 n.toNat

def ofWord (bytes : Bytes) : UInt64 := UInt64.ofNat (leValue bytes)

def flag (b : Bool) : Bytes := leBytes 1 b.toNat

def ofFlag (bytes : Bytes) : Bool := leValue bytes != 0

theorem length_zeros (n : Nat) : (zeros n).length = n := length_replicate

variable (n : UInt64)

theorem length_word : (word n).length = 8 := length_leBytes 8 _

theorem length_flag (b : Bool) : (flag b).length = 1 := length_leBytes 1 _

theorem ofWord_word : ofWord (word n) = n := by
  have hlt : n.toNat < 256^8 := n.toNat_lt
  rw [ofWord, word, leValue_leBytes, mod_eq_of_lt hlt, UInt64.ofNat_toNat]

theorem ofFlag_flag (b : Bool) : ofFlag (flag b) = b := by cases b <;> rfl

theorem readAt_word (b : Bytes) (q k : Nat) : readAt (word n ++ b) (q+8) k = readAt b q k :=
  readAt_skip _ _ k (by rw [length_word, add_comm])

theorem readAt_flag (v : Bool) (b : Bytes) (q k : Nat) : readAt (flag v ++ b) (q+1) k = readAt b q k :=
  readAt_skip _ _ k (by rw [length_flag, add_comm])

def headerMagic : UInt64 := 0xCAFE08072006BABE

structure LogHeader where
  headerMagic : UInt64
  logId : Int64
  segments : Int64
  completed : Bool
  compressed : Bool
deriving DecidableEq

namespace LogHeader

def block (c : Config) (h : LogHeader) : Bytes :=
  word h.headerMagic ++ (word h.logId.toUInt64 ++ (word h.segments.toUInt64 ++
    (flag h.completed ++ (flag h.compressed ++ zeros (c.blcksz-26)))))

def ofBlock (block : Bytes) : LogHeader where
  headerMagic := ofWord (readAt block 0 8)
  logId := (ofWord (readAt block 8 8)).toInt64
  segments := (ofWord (readAt block 16 8)).toInt64
  completed := ofFlag (readAt block 24 1)
  compressed := ofFlag (readAt block 25 1)

theorem length_block (c : Config) (h : LogHeader) : (h.block c).length = c.blcksz := by
  have hlarge := c.large
  simp only [block, length_append, length_word, length_flag, length_zeros]
  omega

theorem ofBlock_block (c : Config) (h : LogHeader) : ofBlock (h.block c) = h := by
  have hmagic : readAt (h.block c) 0 8 = word h.headerMagic := readAt_here _ _ (length_word _)
  have hid : readAt (h.block c) 8 8 = word h.logId.toUInt64 := by
    rw [block, readAt_word, readAt_here _ _ (length_word _)]
  have hsegments : readAt (h.block c) 16 8 = word h.segments.toUInt64 := by
    rw [block, readAt_word, readAt_word, readAt_here _ _ (length_word _)]
  have hcompleted : readAt (h.block c) 24 1 = flag h.completed := by
    rw [block, readAt_word, readAt_word, readAt_word, readAt_here _ _ (length_flag _)]
  have hcompressed : readAt (h.block c) 25 1 = flag h.compressed := by
    rw [block, readAt_word, readAt_word, readAt_word, readAt_flag, readAt_here _ _ (length_flag _)]
  rw [ofBlock, hmagic, hid, hsegments, hcompleted, hcompressed]
  simp only [ofWord_word, ofFlag_flag, Int64.toInt64_toUInt64]

theorem ofBlock_append (c : Config) (h : LogHeader) (rest : Bytes) : ofBlock (h.block c ++ rest) = h := by
  have hread (pos n : Nat) (hpos : pos + n ≤ 26) : readAt (h.block c ++ rest) pos n = readAt (h.block c) pos n := by
    have hlarge := c.large
    exact readAt_left _ _ (by rw [length_block]; omega)
  have heq : ofBlock (h.block c ++ rest) = ofBlock (h.block c) := by
    rw [ofBlock, hread 0 8 (by decide), hread 8 8 (by decide), hread 16 8 (by decide),
      hread 24 1 (by decide), hread 25 1 (by decide), ofBlock]
  rw [heq, ofBlock_block]

end LogHeader

/-- A file is found by the two ids; the names are left out. -/
structure SmgrData where
  relkind : UInt8
  nblocks : Int64
  relid : Oid
  dbid : Oid
deriving DecidableEq

namespace SmgrData

def bytes (e : SmgrData) : Bytes :=
  zeros 9 ++ (leBytes 1 e.relkind.toNat ++ (zeros 6 ++ (word e.nblocks.toUInt64 ++
    (word e.relid ++ (word e.dbid ++ zeros 136)))))

def ofBytes (bytes : Bytes) : SmgrData where
  relkind := UInt8.ofNat (leValue (readAt bytes 9 1))
  nblocks := (ofWord (readAt bytes 16 8)).toInt64
  relid := ofWord (readAt bytes 24 8)
  dbid := ofWord (readAt bytes 32 8)

theorem length_bytes (e : SmgrData) : e.bytes.length = 176 := by
  simp only [bytes, length_append, length_word, length_zeros, length_leBytes]

theorem ofBytes_bytes (e : SmgrData) : ofBytes e.bytes = e := by
  have hkind : readAt e.bytes 9 1 = leBytes 1 e.relkind.toNat := by
    rw [bytes, readAt_skip _ _ (q := 0) 1 (length_zeros 9), readAt_here _ _ (length_leBytes 1 _)]
  -- the three words follow the first sixteen bytes
  have hskip (q n : Nat) : readAt e.bytes (16+q) n =
      readAt (word e.nblocks.toUInt64 ++ (word e.relid ++ (word e.dbid ++ zeros 136))) q n := by
    rw [bytes, readAt_skip _ _ (q := 7+q) n (by rw [length_zeros]; omega),
      readAt_skip _ _ (q := 6+q) n (by rw [length_leBytes]; omega),
      readAt_skip _ _ (q := q) n (by rw [length_zeros])]
  have hblock : readAt e.bytes 16 8 = word e.nblocks.toUInt64 := by
    rw [hskip 0 8, readAt_here _ _ (length_word _)]
  have hrel : readAt e.bytes 24 8 = word e.relid := by
    rw [hskip 8 8, readAt_word, readAt_here _ _ (length_word _)]
  have hdb : readAt e.bytes 32 8 = word e.dbid := by
    rw [hskip 16 8, readAt_word, readAt_word, readAt_here _ _ (length_word _)]
  have hbyte : e.relkind.toNat % 256^1 = e.relkind.toNat := mod_eq_of_lt e.relkind.toNat_lt
  rw [ofBytes, hkind, hblock, hrel, hdb, leValue_leBytes, hbyte]
  simp only [ofWord_word, UInt8.ofNat_toNat, Int64.toInt64_toUInt64]

end SmgrData

def segmentMagic : UInt64 := 0xABCDEF0123456789

structure LogSegment where
  segmentMagic : UInt64
  segId : Int64
  count : Int16
  blocks : List SmgrData
deriving DecidableEq

def readBlocks : Nat → Bytes → List SmgrData
  | 0, _ => []
  | n + 1, bytes => SmgrData.ofBytes (bytes.take 176) :: readBlocks n (bytes.drop 176)

namespace LogSegment

def data (c : Config) (s : LogSegment) : Bytes :=
  word s.segmentMagic ++ (word s.segId.toUInt64 ++ (leBytes 2 s.count.toUInt16.toNat ++
    (zeros 6 ++ (s.blocks.flatMap SmgrData.bytes ++ zeros (c.blcksz - 24 - 176 * s.blocks.length)))))

def ofData (data : Bytes) : LogSegment :=
  let count := (UInt16.ofNat (leValue (readAt data 16 2))).toInt16
  { segmentMagic := ofWord (readAt data 0 8)
    segId := (ofWord (readAt data 8 8)).toInt64
    count := count
    blocks := readBlocks count.toInt.toNat (data.drop 24) }

end LogSegment

variable (blocks : List SmgrData)

theorem readBlocks_flatMap (tail : Bytes) :
    readBlocks blocks.length (blocks.flatMap SmgrData.bytes ++ tail) = blocks := by
  induction blocks with
  | nil => rfl
  | cons e blocks ih =>
    have hlength : e.bytes.length = 176 := e.length_bytes
    rw [length_cons, readBlocks, flatMap_cons, append_assoc,
      take_left' hlength, drop_left' hlength, ih, SmgrData.ofBytes_bytes]

theorem length_flatMap_bytes : (blocks.flatMap SmgrData.bytes).length = 176*blocks.length := by
  induction blocks with
  | nil => rfl
  | cons e blocks ih =>
    rw [flatMap_cons, length_append, ih, e.length_bytes, length_cons, mul_succ, add_comm]

namespace LogSegment

variable {s : LogSegment}

theorem length_data {c : Config} (h : s.blocks.length ≤ c.maxBlocks) : (s.data c).length = c.blcksz := by
  have hfit := c.entries_fit h
  simp only [data, length_append, length_word, length_leBytes, length_zeros, length_flatMap_bytes]
  omega

theorem ofData_data (c : Config) (hlength : s.blocks.length < 2^15)
    (hcount : s.count = Int16.ofNat s.blocks.length) : ofData (s.data c) = s := by
  have hmagic : readAt (s.data c) 0 8 = word s.segmentMagic := readAt_here _ _ (length_word _)
  have hid : readAt (s.data c) 8 8 = word s.segId.toUInt64 := by
    rw [data, readAt_word, readAt_here _ _ (length_word _)]
  have hcount2 : readAt (s.data c) 16 2 = leBytes 2 s.count.toUInt16.toNat := by
    rw [data, readAt_word, readAt_word, readAt_here _ _ (length_leBytes 2 _)]
  have hvalue : leValue (leBytes 2 s.count.toUInt16.toNat) = s.count.toUInt16.toNat := by
    have hlt : s.count.toUInt16.toNat < 256^2 := s.count.toUInt16.toNat_lt
    rw [leValue_leBytes, mod_eq_of_lt hlt]
  have hdrop : (s.data c).drop 24 =
      s.blocks.flatMap SmgrData.bytes ++ zeros (c.blcksz - 24 - 176 * s.blocks.length) := by
    rw [data, ← append_assoc, ← append_assoc, ← append_assoc]
    refine drop_left' ?_
    simp only [length_append, length_word, length_leBytes, length_zeros]
  have hblocks : readBlocks s.count.toInt.toNat ((s.data c).drop 24) = s.blocks := by
    rw [hdrop, hcount, Int16.toInt_ofNat_of_lt hlength, Int.toNat_natCast, readBlocks_flatMap]
  simp only [ofData, hmagic, hid, hcount2, hvalue, UInt16.ofNat_toNat, Int16.toInt16_toUInt16,
    hblocks, ofWord_word, Int64.toInt64_toUInt64]

end LogSegment

end WeaverDB.ShadowLog
