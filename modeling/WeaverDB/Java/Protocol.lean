import WeaverDB.Foundations.ByteFiles

/-! # The call protocol between the server and Java

`BuildArgBlockForInvoker` packs the arguments into one block, the Java side parses it, calls the method
and stores the result, or the text of an exception, in a buffer of the server.
`CallJavaInvokerWithGrowableResult` calls again if the result is longer than the buffer. An object
stands for its serialized form, a `double` for its 64 bits, and the blocks start at multiples of 8. Here
both segments cover their blocks; `Bounds` is about their sizes.
-/

namespace WeaverDB.Java
open Foundations

/-- A Java array has an `int` as its length. -/
@[ext]
structure JavaBytes where
  bytes : List UInt8
  length_lt : bytes.length < 2^31
deriving DecidableEq

inductive Value where
  | null
  | int4 (i : BitVec 32)
  | int8 (j : BitVec 64)
  | float8 (d : BitVec 64)
  | bool (z : Bool)
  | object (serialized : JavaBytes)
deriving DecidableEq

inductive Kind where
  | int4
  | int8
  | float8
  | bool
  | javaObject
  | null
  | error
deriving DecidableEq

def Kind.tag : Kind → BitVec 32
  | .int4 => 23
  | .int8 => 20
  | .float8 => 701
  | .bool => 16
  | .javaObject => 1830
  | .null => -1
  | .error => -99

def kindOf (tag : BitVec 32) : Option Kind :=
  [Kind.int4, .int8, .float8, .bool, .javaObject, .null, .error].find? (·.tag = tag)

theorem kindOf_tag (k : Kind) : kindOf k.tag = some k := by
  cases k <;> rfl

def Value.kind : Value → Kind
  | .null => .null
  | .int4 _ => .int4
  | .int8 _ => .int8
  | .float8 _ => .float8
  | .bool _ => .bool
  | .object _ => .javaObject

def Value.data : Value → List UInt8
  | .null => []
  | .int4 i => leBytes 4 i.toNat
  | .int8 j => leBytes 8 j.toNat
  | .float8 d => leBytes 8 d.toNat
  | .bool z => [if z then 1 else 0]
  | .object serialized => serialized.bytes

def Value.width : Value → Nat
  | .int4 _ => 4
  | .int8 _ | .float8 _ => 8
  | _ => 1

def entry (k : Kind) (data : List UInt8) : List UInt8 :=
  leBytes 4 k.tag.toNat ++ (leBytes 4 data.length ++ data)

def Value.entry (v : Value) : List UInt8 := Java.entry v.kind v.data

def maxAllocSize : Nat := 0x3fffffff

def varhdrsz : Nat := 4

structure ArgBlock where
  capacity : Nat
  bytes : List UInt8
  inside : Bool

def ArgBlock.makeRoom (b : ArgBlock) : Option ArgBlock :=
  if b.capacity < b.bytes.length + 64 then
    if b.capacity * 2 ≤ maxAllocSize then some { b with capacity := b.capacity * 2 } else none
  else some b

def ArgBlock.put (b : ArgBlock) (data : List UInt8) : ArgBlock :=
  { b with
    bytes := b.bytes ++ data
    inside := b.inside && decide (b.bytes.length+data.length ≤ b.capacity) }

def Value.serializable : Value → Bool
  | .object serialized => decide (serialized.bytes.length+varhdrsz ≤ maxAllocSize)
  | _ => true

def buildArgs : List Value → ArgBlock → ArgBlock × Bool
  | [], b => (b, false)
  | v :: args, b =>
    match b.makeRoom with
    | none => (b, true)
    | some b => if v.serializable then buildArgs args (b.put v.entry) else (b, true)

def emptyBlock : ArgBlock := ⟨8192, leBytes 4 0, true⟩

/-- `BuildArgBlockForInvoker`; the number of arguments is stored last, at the start. -/
def buildArgBlockForInvoker (args : List Value) : ArgBlock × Bool :=
  let built := buildArgs args emptyBlock
  if built.2 then built
  else
    ({ built.1 with
      bytes := overwrite built.1.bytes 0 (leBytes 4 args.length)
      inside := built.1.inside && decide (4 ≤ built.1.capacity) }, false)

def segmentGet (seg : List UInt8) (width offset n : Nat) : Option (List UInt8) :=
  if offset % width = 0 then some (readAt seg offset n) else none

def readInt4 (seg : List UInt8) (offset : Nat) : Option (BitVec 32) :=
  (segmentGet seg 4 offset 4).map fun bytes => BitVec.ofNat 32 (leValue bytes)

def readInt8 (seg : List UInt8) (offset : Nat) : Option (BitVec 64) :=
  (segmentGet seg 8 offset 8).map fun bytes => BitVec.ofNat 64 (leValue bytes)

def readBool (seg : List UInt8) (offset : Nat) : Option Bool :=
  (segmentGet seg 1 offset 1).map fun bytes => leValue bytes != 0

def readBytes (seg : List UInt8) (offset : Nat) (length : BitVec 32) : Option JavaBytes :=
  if h : length.toNat < 2^31 then
    some ⟨readAt seg offset length.toNat, Nat.lt_of_le_of_lt (List.length_take_le ..) h⟩
  else none

def parseArgument (seg : List UInt8) (tag valueLen : BitVec 32) (offset : Nat) : Option (Value × Nat) :=
  match kindOf tag with
  | some .int4 => (readInt4 seg offset).map fun i => (.int4 i, offset+4)
  | some .int8 => (readInt8 seg offset).map fun j => (.int8 j, offset+8)
  | some .float8 => (readInt8 seg offset).map fun d => (.float8 d, offset+8)
  | some .bool => (readBool seg offset).map fun z => (.bool z, offset+1)
  | some .javaObject =>
    (readBytes seg offset valueLen).map fun o => (.object o, offset+valueLen.toNat)
  | some .null => some (.null, offset)
  | _ => some (.null, offset+valueLen.toNat)

/-- The loop of `parseArguments`. Arguments left when the block ends stay `null`. -/
def parseLoop (seg : List UInt8) (len : Nat) : Nat → Nat → Option (List Value)
  | 0, _ => some []
  | n + 1, offset =>
    if len < offset + 8 then some (List.replicate (n+1) .null)
    else do
      let tag ← readInt4 seg offset
      let valueLen ← readInt4 seg (offset+4)
      let (v, offset) ← parseArgument seg tag valueLen (offset+8)
      let args ← parseLoop seg len n offset
      pure (v :: args)

/-- `parseArguments`, called with the number of arguments that the block gives. -/
def parseArguments (seg : List UInt8) (len : Nat) : Option (List Value) :=
  if len < 4 then some []
  else do
    let numArgs ← readInt4 seg 0
    parseLoop seg len numArgs.toNat 4

/-- An access to a segment that covers what is stored. The upcall's own segments do not (`stored_eq_nil`). -/
def segmentSet (width : Nat) (data seg : List UInt8) : Option (List UInt8) :=
  if seg.length % width = 0 then some (seg ++ data) else none

/-- `writeResult`: the buffer, unless an access raises an exception. -/
def writeResult (v : Value) : Option (List UInt8) := do
  let seg ← segmentSet 4 (leBytes 4 1) []
  let seg ← segmentSet 4 (leBytes 4 v.kind.tag.toNat) seg
  let seg ← segmentSet 4 (leBytes 4 v.data.length) seg
  segmentSet v.width v.data seg

def writeError (message : JavaBytes) : List UInt8 := leBytes 4 1 ++ Java.entry .error message.bytes

def intAt (buf : List UInt8) (offset : Nat) : BitVec 32 := BitVec.ofNat 32 (leValue (readAt buf offset 4))

def longAt (buf : List UInt8) (offset : Nat) : BitVec 64 := BitVec.ofNat 64 (leValue (readAt buf offset 8))

inductive ResultError where
  | javaFunctionError (message : List UInt8)
  | noMessage
deriving DecidableEq

def parseInvokerResult (buf : List UInt8) (bufLen : Nat) : Except ResultError Value :=
  if bufLen < 4 then .ok .null
  else if (intAt buf 0).toInt ≤ 0 then .ok .null
  else if bufLen < 12 then .ok .null
  else
    let vlen := intAt buf 8
    match kindOf (intAt buf 4) with
    | some .int4 => .ok (.int4 (intAt buf 12))
    | some .int8 => .ok (.int8 (longAt buf 12))
    | some .float8 => .ok (.float8 (longAt buf 12))
    | some .bool => .ok (.bool (leValue (readAt buf 12 1) != 0))
    | some .javaObject =>
      match readBytes buf 12 vlen with
      | some o => if vlen = 0 then .ok .null else .ok (.object o)
      | none => .ok .null
    | some .error =>
      if 0 < vlen.toInt then .error (.javaFunctionError (readAt buf 12 vlen.toNat))
      else .error .noMessage
    | _ => .ok .null

/-- The method returns, or an exception is raised, also while the result is stored. -/
inductive Outcome where
  | returns (v : Value)
  | throws (message : JavaBytes)
deriving DecidableEq

/-- After an exception the header of the error overwrites what was stored. -/
def Outcome.block : Outcome → List UInt8
  | .returns v => leBytes 4 1 ++ v.entry
  | .throws message => writeError message

def initialSize : Nat := 16384

def maxAttempts : Nat := 4

def inspectValues (buf : List UInt8) (bufSize : Nat) : Nat → Nat → Int → Int
  | 0, _, totalNeeded => totalNeeded
  | n + 1, off, totalNeeded =>
    if bufSize < off+8 then totalNeeded
    else
      let needed : Int := (off+8 : Nat) + (intAt buf (off+4)).toInt
      if (bufSize : Int) < needed then (needed.bmod (2^32) + 1024).bmod (2^32)
      else inspectValues buf bufSize n needed.toNat (needed.bmod (2^32))

def inspectWrittenResultSize (buf : List UInt8) (bufSize : Nat) : Int :=
  if bufSize < 4 then bufSize + 1
  else if (intAt buf 0).toInt ≤ 0 then 4
  else inspectValues buf bufSize (intAt buf 0).toNat 4 4

/-- `rc` and result, without `rc` after a refused allocation, and the number of calls. -/
structure Invocation where
  rc : Option Int
  result : List UInt8
  calls : Nat

/-- The loop, from the given attempt on. `outcomes` are those of the calls of the method. -/
def invokeFrom (outcomes : Nat → Outcome) : Nat → Nat → Nat → Invocation
  | 0, _, _ => ⟨some (-2), [], 0⟩
  | fuel + 1, currentSize, attempts =>
    let block := (outcomes attempts).block
    match outcomes attempts with
    | .throws _ => ⟨some (-1), [], 1⟩
    | .returns _ =>
      let written := inspectWrittenResultSize (block.take currentSize) currentSize
      if written ≤ currentSize then
        -- the first buffer is on the stack, and its contents are copied
        if attempts = 0 ∧ written ≤ 0 then ⟨none, [], 1⟩
        else ⟨some 0, block.take written.toNat, 1⟩
      else
        let newSize := (max ((written+4096).bmod (2^32)) (currentSize*2)).toNat
        if maxAllocSize < newSize then ⟨none, [], 1⟩
        else
          let later := invokeFrom outcomes fuel newSize (attempts+1)
          { later with calls := later.calls + 1 }

def callJavaInvokerWithGrowableResult (outcomes : Nat → Outcome) : Invocation :=
  invokeFrom outcomes maxAttempts initialSize 0

end WeaverDB.Java
