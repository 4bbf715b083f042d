import Mathlib.Data.BitVec
import WeaverDB.Foundations.ByteFiles

/-! # Heap tuples (`access/common/heaptuple.c`)

`heap_formtuple` writes the values of a row, each at the next place that its alignment allows, and
`HeapGetAttr` finds a value again, with the places that are the same in all tuples in `attcacheoff`.
Offsets count from `t_hoff`, which is aligned. A pointer is the memory from its address on.
-/

namespace WeaverDB.Tuples
open Foundations

/-- `attalign`: `c`, `s`, `i`, `l` and `d`. -/
inductive Align where
  | char
  | short
  | int
  | long
  | double
deriving DecidableEq

def Align.size : Align → Nat
  | .char => 1
  | .short => 2
  | .int => 4
  | .long => 8
  | .double => 8

/-- `attstorage`: `p` and `e`. -/
inductive Storage where
  | plain
  | external
deriving DecidableEq

/-- A row of `pg_attribute`. The `attcacheoff` of a descriptor are in an `OffsetCache`. -/
structure FormPgAttribute where
  atttypid : Nat
  attlen : Int
  atttypmod : Int
  attbyval : Bool
  attalign : Align
  attstorage : Storage

def bpcharOid : Nat := 1042

def varlenaFixedSize (a : FormPgAttribute) : Bool := a.atttypid == bpcharOid && decide (0 < a.atttypmod)

/-- What the types keep to. The lengths by value are those that `DataFill` has a case for. -/
structure FormPgAttribute.Valid (a : FormPgAttribute) : Prop where
  len : a.attlen = -1 ∨ 0 < a.attlen
  byval : a.attbyval → a.attlen = -1 ∨ a.attlen = 1 ∨ a.attlen = 2 ∨ a.attlen = 4 ∨ a.attlen = 8
  bpchar : a.atttypid = bpcharOid → a.attlen = -1

structure TupleDesc where
  natts : Nat
  attrs : Nat → FormPgAttribute
  valid : ∀ i < natts, (attrs i).Valid

abbrev OffsetCache := Nat → Int

def OffsetCache.fresh : OffsetCache := fun _ => -1

inductive Datum where
  | word (w : BitVec 64)
  | pointer (mem : List UInt8)

/-- The length word of a `varlena`. Its two upper bits are marks. -/
def varsize (mem : List UInt8) : Nat := leValue (mem.take 4) % 2^30

def isBuffered (mem : List UInt8) : Bool := (leValue (mem.take 4)).testBit 30

def isIndirect (mem : List UInt8) : Bool := (leValue (mem.take 4)).testBit 31

def FormPgAttribute.inWord (a : FormPgAttribute) : Bool := a.attbyval && decide (a.attlen ≠ -1)

def attBytes (a : FormPgAttribute) : Datum → List UInt8
  | .word w => if a.inWord then leBytes a.attlen.toNat w.toNat else []
  | .pointer mem =>
    if a.inWord then []
    else if a.attlen = -1 then mem.take (varsize mem) else mem.take a.attlen.toNat

/-- A value of the type of the attribute, in memory that holds all of it. -/
def Fits (a : FormPgAttribute) : Datum → Prop
  | .word _ => a.inWord
  | .pointer mem =>
    a.inWord = false ∧
      if a.attlen = -1 then
        4 ≤ varsize mem ∧ varsize mem ≤ mem.length ∧ (varlenaFixedSize a → (varsize mem : Int) = a.atttypmod)
      else a.attlen.toNat ≤ mem.length

structure Values where
  value : Nat → Datum
  nulls : Nat → Bool

structure Row (desc : TupleDesc) extends Values where
  fits : ∀ i < desc.natts, nulls i = false → Fits (desc.attrs i) (value i)

def typeAlign (alignval len : Nat) : Nat := (len + (alignval-1)) / alignval * alignval

def maxAlign (len : Nat) : Nat := typeAlign 8 len

def attAlign (off : Nat) (a : FormPgAttribute) : Nat := typeAlign a.attalign.size off

def attAddlength (off : Nat) (a : FormPgAttribute) (d : Datum) : Nat :=
  if a.attlen ≠ -1 then off + a.attlen.toNat
  else
    match d with
    | .word _ => off
    | .pointer mem => off + varsize mem

section

variable (desc : TupleDesc) (value : Nat → Datum) (nulls : Nat → Bool)

def dataSize : Nat → Nat
  | 0 => 0
  | i + 1 =>
    if nulls i then dataSize i
    else attAddlength (attAlign (dataSize i) (desc.attrs i)) (desc.attrs i) (value i)

def computeDataSize : Nat := dataSize desc value nulls desc.natts

/-- `bitP` counts from one: it is the number of bytes of the bitmap in use. -/
structure Fill where
  hasNull : Bool
  hasVarlena : Bool
  bits : List (BitVec 8)
  bitP : Nat
  bitmask : BitVec 8
  data : List UInt8
  pos : Nat

def csignBit : BitVec 8 := 0x80#8

def Fill.nextBit (f : Fill) : Fill :=
  if f.bitmask ≠ csignBit then { f with bitmask := f.bitmask <<< 1 }
  else { f with bitP := f.bitP+1, bits := f.bits.set f.bitP 0#8, bitmask := 1#8 }

def Fill.setBit (f : Fill) : Fill := { f with bits := f.bits.modify (f.bitP-1) (fun b => b ||| f.bitmask) }

def Fill.putValue (f : Fill) (a : FormPgAttribute) (d : Datum) : Fill :=
  { f with
    hasVarlena := f.hasVarlena || decide (a.attlen = -1)
    data := overwrite f.data (attAlign f.pos a) (attBytes a d)
    pos := attAddlength (attAlign f.pos a) a d }

/-- One turn of `DataFill`. Without a bitmap no attribute is null. -/
def fillAttribute (bitmap : Bool) (f : Fill) (i : Nat) : Fill :=
  if bitmap then
    if nulls i then { f.nextBit with hasNull := true }
    else f.nextBit.setBit.putValue (desc.attrs i) (value i)
  else f.putValue (desc.attrs i) (value i)

def dataFill (bitmap : Bool) (f : Fill) : Fill :=
  (List.range desc.natts).foldl (fillAttribute desc value nulls bitmap) f

end

/-- The marks of `t_info`, and those of `t_infomask` that are about the data. -/
structure HeapTuple where
  tLen : Nat
  hasIndirect : Bool
  hasBuffered : Bool
  tNatts : Nat
  hasNull : Bool
  hasVarlena : Bool
  blobLinked : Bool
  tHoff : Nat
  bits : List (BitVec 8)
  data : List UInt8

def maxHeapAttributeNumber : Nat := 1600

def offsetofBits : Nat := 45

def bitmapLen (natts : Nat) : Nat := (natts-1) / 8 / 4 * 4 + 4

def anyExternal (desc : TupleDesc) (v : Values) (p : List UInt8 → Bool) : Bool :=
  (List.range desc.natts).any fun i =>
    !v.nulls i && decide ((desc.attrs i).attstorage = .external) &&
      match v.value i with
      | .word _ => false
      | .pointer mem => p mem

def headerSize (natts : Nat) (hasNull : Bool) : Nat :=
  maxAlign (offsetofBits + if hasNull then bitmapLen natts else 0)

def Values.hasNull (v : Values) (natts : Nat) : Bool := (List.range natts).any v.nulls

def Fill.start (desc : TupleDesc) (v : Values) : Fill where
  hasNull := false
  hasVarlena := false
  bits := List.replicate (bitmapLen desc.natts) 0#8
  bitP := 0
  bitmask := csignBit
  data := List.replicate (computeDataSize desc v.value v.nulls) 0
  pos := 0

def formTuple (desc : TupleDesc) (v : Values) : HeapTuple :=
  let hasNull := v.hasNull desc.natts
  let hoff := headerSize desc.natts hasNull
  let f := dataFill desc v.value v.nulls hasNull (Fill.start desc v)
  { tLen := hoff + computeDataSize desc v.value v.nulls
    hasIndirect := anyExternal desc v isIndirect
    hasBuffered := anyExternal desc v isBuffered
    tNatts := desc.natts
    hasNull := f.hasNull
    hasVarlena := f.hasVarlena
    blobLinked := false
    tHoff := hoff % 256
    bits := f.bits
    data := f.data }

def heapFormtuple (desc : TupleDesc) (v : Values) : Except String HeapTuple :=
  if maxHeapAttributeNumber < desc.natts then
    .error ("heap_formtuple: numberOfAttributes of " ++ toString desc.natts ++ " > " ++
      toString maxHeapAttributeNumber)
  else .ok (formTuple desc v)

def attIsnull (att : Nat) (bits : List (BitVec 8)) : Bool := !(bits.getD (att/8) 0#8).getLsbD (att % 8)

def signedAt (k : Nat) (mem : List UInt8) : BitVec 64 :=
  (BitVec.ofNat (8*k) (leValue (mem.take k))).signExtend 64

def heapFetchAtt (a : FormPgAttribute) (mem : List UInt8) : Datum :=
  if a.inWord then
    if a.attlen = 1 then .word (signedAt 1 mem)
    else if a.attlen = 2 then .word (signedAt 2 mem)
    else if a.attlen = 8 then .word (signedAt 8 mem)
    else .word (signedAt 4 mem)
  else .pointer mem

def nullBefore (att : Nat) (bits : List (BitVec 8)) : Bool :=
  decide (~~~(bits.getD (att/8) 0#8) &&& BitVec.ofNat 8 (2^(att % 8) - 1) ≠ 0#8) ||
    (List.range (att/8)).any fun i => decide (bits.getD i 0#8 ≠ 0xFF#8)

section

variable (desc : TupleDesc) (t : HeapTuple)

/-- The first attribute from `j` on without an offset. The last argument bounds the loop. -/
def skipCached (cache : OffsetCache) (j : Nat) : Nat → Nat
  | 0 => j
  | n + 1 => if 0 < cache j then skipCached cache (j+1) n else j

def cacheOffsets : Nat → Nat → Nat → OffsetCache → OffsetCache
  | 0, _, _, cache => cache
  | n + 1, j, off, cache =>
    let off := attAlign off (desc.attrs j)
    cacheOffsets n (j+1) (attAddlength off (desc.attrs j) (.pointer (t.data.drop off)))
      (Function.update cache j off)

structure Walk where
  usecache : Bool
  off : Nat
  cache : OffsetCache

def walkAttribute (w : Walk) (i : Nat) : Walk :=
  if t.hasNull && attIsnull i t.bits then { w with usecache := false }
  else
    let known := w.usecache && decide (w.cache i ≠ -1)
    let off := if known then (w.cache i).toNat else attAlign w.off (desc.attrs i)
    { usecache := w.usecache &&
        !(decide ((desc.attrs i).attlen = -1) && !varlenaFixedSize (desc.attrs i))
      off := attAddlength off (desc.attrs i) (.pointer (t.data.drop off))
      cache := if w.usecache && !known then Function.update w.cache i off else w.cache }

/-- The attribute `att` counts from zero here. -/
def nocachegetattr (att : Nat) (cache : OffsetCache) : Datum × OffsetCache :=
  let a := desc.attrs att
  let slow := t.hasNull && nullBefore att t.bits
  if !slow && decide (cache att ≠ -1) then
    (heapFetchAtt a (t.data.drop (cache att).toNat), cache)
  else if !slow && decide (att = 0) then (heapFetchAtt a t.data, cache)
  else if slow || t.hasVarlena && (List.range (att+1)).any
      fun j => decide ((desc.attrs j).attlen < 1) && !varlenaFixedSize (desc.attrs j) then
    let w := (List.range att).foldl (walkAttribute desc t) { usecache := true, off := 0, cache := cache }
    (heapFetchAtt a (t.data.drop (attAlign w.off a)), w.cache)
  else
    let cache := Function.update cache 0 0
    let j := skipCached cache 1 att
    let last := desc.attrs (j-1)
    let off := cache (j-1) + if varlenaFixedSize last then last.atttypmod else last.attlen
    let cache := cacheOffsets desc t (att+1 - j) j off.toNat cache
    (heapFetchAtt a (t.data.drop (cache att).toNat), cache)

def heapGetAttr (attnum : Nat) (cache : OffsetCache) : Option Datum × OffsetCache :=
  if attnum = 0 ∨ t.tNatts < attnum then (none, cache)
  else if t.hasNull then
    if attIsnull (attnum-1) t.bits then (none, cache)
    else
      let (d, cache) := nocachegetattr desc t (attnum-1) cache
      (some d, cache)
  else if cache (attnum-1) ≠ -1 ∨ attnum = 1 then
    let off := if attnum ≠ 1 then (cache (attnum-1)).toNat else 0
    (some (heapFetchAtt (desc.attrs (attnum-1)) (t.data.drop off)), cache)
  else
    let (d, cache) := nocachegetattr desc t (attnum-1) cache
    (some d, cache)

end

def modifiedValues (desc : TupleDesc) (t : HeapTuple) (repl : Nat → Option Datum) :
    Nat → OffsetCache → Values × OffsetCache
  | 0, cache => (⟨fun _ => .pointer [], fun _ => true⟩, cache)
  | i + 1, cache =>
    let (v, cache) := modifiedValues desc t repl i cache
    match repl i with
    | some d => (⟨Function.update v.value i d, Function.update v.nulls i false⟩, cache)
    | none =>
      match heapGetAttr desc t (i+1) cache with
      | (some d, cache) => (⟨Function.update v.value i d, Function.update v.nulls i false⟩, cache)
      | (none, cache) => (v, cache)

def heapModifytuple (desc : TupleDesc) (t : HeapTuple) (repl : Nat → Option Datum)
    (cache : OffsetCache) : Except String HeapTuple × OffsetCache :=
  let (v, cache) := modifiedValues desc t repl desc.natts cache
  (heapFormtuple desc v, cache)

end WeaverDB.Tuples
