import WeaverDB.Adt.VarBits

/-! # Operators on bit strings

The operators of `varbit.c` fill a new block byte by byte, over the `garbage` that stands there. They
can write behind its end, and have no result when `palloc` or `memcpy` gets a negative size or the two
shifts call each other without end. Null pointers are left out. `Operation.spec` is what an operator
stands for.
-/

namespace WeaverDB.VarBits
open Foundations

structure Made where
  bitlen : Int
  block : Block Bits8

def Made.value (made : Made) : VarBit := ⟨made.bitlen, made.block.toList⟩

/-- `palloc` for a bit string; a block can be too small for the headers. -/
def palloc (garbage : Nat → Bits8) (bitlen : Int) : Option (Block Bits8) :=
  if varBitDataLen bitlen < 0 then none
  else some ⟨varBitBytes bitlen, garbage, decide (varBitDataLen bitlen < 8)⟩

def pallocLike (garbage : Nat → Bits8) (arg : VarBit) : Block Bits8 := ⟨arg.bytes.length, garbage, false⟩

def spread (ishift : Nat) : Nat → List Bits8 → Block Bits8 → Block Bits8
  | _, [], result => result
  | r, p :: rest, result =>
    let result := result.store r (result.data r ||| p >>> ishift)
    let result := if r + 1 < result.size then result.store (r+1) (p <<< (8-ishift)) else result
    spread ishift (r+1) rest result

def catBits (arg1 arg2 : VarBit) (result : Block Bits8) : Block Bits8 :=
  let result := result.copy 0 arg1.data arg1.bytes.length
  let bit1pad := arg1.pad
  if bit1pad = 0 then result.copy arg1.bytes.length arg2.data arg2.bytes.length
  else if 0 < arg2.bitlen then
    let bit2shift := 8-bit1pad.toNat
    spread bit2shift (arg1.bytes.length-1) arg2.bytes result
  else result

def bitcat (garbage : Nat → Bits8) (arg1 arg2 : VarBit) : Option Made :=
  let bitlen := int32 (arg1.bitlen+arg2.bitlen)
  (palloc garbage bitlen).map fun result => ⟨bitlen, catBits arg1 arg2 result⟩

def shiftedByte (arg : VarBit) (byteShift ishift i : Nat) : Bits8 :=
  let ps := byteShift+i
  arg.data ps <<< ishift ||| if ps + 1 < arg.bytes.length then arg.data (ps+1) >>> (8-ishift) else 0

/-- The last byte is masked if there is padding; with a negative length the header is hit. -/
def maskLast (bitlen : Int) (result : Block Bits8) : Block Bits8 :=
  let ipad := (result.size * 8 - bitlen : Int)
  if 0 < ipad then
    if 0 < result.size then
      result.store (result.size-1) (result.data (result.size-1) &&& 0xFF#8 <<< ipad.toNat)
    else { result with stray := true }
  else result

def copyWindow (arg : VarBit) (start : Nat) (rbitlen : Int) (result : Block Bits8) : Option (Block Bits8) :=
  let byteShift := start / 8
  let ishift := start % 8
  if ishift = 0 then
    if varBitDataLen rbitlen < 8 then none
    else some (maskLast rbitlen (result.copy 0 (fun i => arg.data (byteShift+i)) result.size))
  else some (maskLast rbitlen (result.copy 0 (shiftedByte arg byteShift ishift) result.size))

def sliceEnd (arg : VarBit) (s l : Int32) : Int :=
  let e := int32 (s.toInt+l.toInt)
  min e (int32 (arg.bitlen+1))

def bitsubstr (garbage : Nat → Bits8) (arg : VarBit) (s l : Int32) : Option Made :=
  let s1 := max s.toInt 1
  let e1 := sliceEnd arg s l
  if s1 > arg.bitlen ∨ e1 < 1 then (palloc garbage 0).map (⟨0, ·⟩)
  else
    let rbitlen := e1-s1
    (palloc garbage rbitlen).bind fun result =>
      (copyWindow arg (s1-1).toNat rbitlen result).map (⟨rbitlen, ·⟩)

def bitwise (f : Bits8 → Bits8 → Bits8) (garbage : Nat → Bits8) (arg1 arg2 : VarBit) : Made :=
  let len := min arg1.bytes.length arg2.bytes.length
  ⟨min arg1.bitlen arg2.bitlen,
    (⟨len, garbage, false⟩ : Block Bits8).copy 0 (fun i => f (arg1.data i) (arg2.data i)) len⟩

def padResult (made : Made) : Made :=
  let mask := 0xFF#8 <<< made.value.pad.toNat
  let r := made.block.size
  { made with block := made.block.store r (made.block.data r &&& mask) }

def bitAnd (garbage : Nat → Bits8) (arg1 arg2 : VarBit) : Made := bitwise (· &&& ·) garbage arg1 arg2

def bitOr (garbage : Nat → Bits8) (arg1 arg2 : VarBit) : Made := padResult (bitwise (· ||| ·) garbage arg1 arg2)

def bitxor (garbage : Nat → Bits8) (arg1 arg2 : VarBit) : Made :=
  padResult (bitwise (· ^^^ ·) garbage arg1 arg2)

def bitnot (garbage : Nat → Bits8) (arg : VarBit) : Made :=
  padResult ⟨arg.bitlen, (pallocLike garbage arg).copy 0 (fun i => ~~~arg.data i) arg.bytes.length⟩

def shiftLeftBy (garbage : Nat → Bits8) (arg : VarBit) (shft : Nat) : Option Made :=
  let result := pallocLike garbage arg
  let byteShift := shft / 8
  let ishift := shft % 8
  let len := arg.bytes.length-byteShift
  if ishift = 0 then
    if arg.bytes.length < byteShift then none
    else
      let result := result.copy 0 (fun i => arg.data (byteShift+i)) len
      some ⟨arg.bitlen, result.copy len (fun _ => 0) byteShift⟩
  else
    let result := result.copy 0 (shiftedByte arg byteShift ishift) len
    some ⟨arg.bitlen, result.copy len (fun _ => 0) (arg.bytes.length-len)⟩

def shiftRightBy (garbage : Nat → Bits8) (arg : VarBit) (shft : Nat) : Option Made :=
  let byteShift := shft / 8
  let ishift := shft % 8
  let len := arg.bytes.length-byteShift
  let result := (pallocLike garbage arg).copy 0 (fun _ => 0) byteShift
  if ishift = 0 then
    if arg.bytes.length < byteShift then none
    else some ⟨arg.bitlen, result.copy byteShift arg.data len⟩
  else
    let result := result.store byteShift 0
    some ⟨arg.bitlen, spread ishift byteShift (arg.bytes.take len) result⟩

mutual

def bitshiftleft (garbage : Nat → Bits8) (arg : VarBit) : Nat → Int32 → Option Made
  | 0, _ => none
  | fuel + 1, shft =>
    if shft < 0 then bitshiftright garbage arg fuel (-shft)
    else shiftLeftBy garbage arg shft.toInt.toNat

def bitshiftright (garbage : Nat → Bits8) (arg : VarBit) : Nat → Int32 → Option Made
  | 0, _ => none
  | fuel + 1, shft =>
    if shft < 0 then bitshiftleft garbage arg fuel (-shft)
    else shiftRightBy garbage arg shft.toInt.toNat

end

/-! ## What the operators stand for -/

inductive Operation where
  | cat (arg1 arg2 : BitString)
  | substr (arg : BitString) (s l : Int32)
  | and (arg1 arg2 : BitString)
  | or (arg1 arg2 : BitString)
  | xor (arg1 arg2 : BitString)
  | not (arg : BitString)
  | shiftleft (arg : BitString) (shft : Int32)
  | shiftright (arg : BitString) (shft : Int32)

def slice (bits : List Bool) (s l : Int) : List Bool := (bits.take (s + l - 1).toNat).drop (s-1).toNat

def shiftLeftBits (bits : List Bool) (k : Nat) : List Bool :=
  bits.drop k ++ List.replicate (min k bits.length) false

def shiftRightBits (bits : List Bool) (k : Nat) : List Bool :=
  List.replicate (min k bits.length) false ++ bits.take (bits.length-k)

def shiftBits (bits : List Bool) (k : Int) : List Bool :=
  if 0 ≤ k then shiftLeftBits bits k.toNat else shiftRightBits bits (-k).toNat

namespace Operation

def spec : Operation → List Bool
  | .cat arg1 arg2 => arg1.bits ++ arg2.bits
  | .substr arg s l => slice arg.bits s.toInt l.toInt
  | .and arg1 arg2 => List.zipWith (· && ·) arg1.bits arg2.bits
  | .or arg1 arg2 => List.zipWith (· || ·) arg1.bits arg2.bits
  | .xor arg1 arg2 => List.zipWith (· ^^ ·) arg1.bits arg2.bits
  | .not arg => arg.bits.map (!·)
  | .shiftleft arg shft => shiftBits arg.bits shft.toInt
  | .shiftright arg shft => shiftBits arg.bits (-shft.toInt)

def run (garbage : Nat → Bits8) (fuel : Nat) : Operation → Option Made
  | .cat arg1 arg2 => bitcat garbage arg1.toVarBit arg2.toVarBit
  | .substr arg s l => bitsubstr garbage arg.toVarBit s l
  | .and arg1 arg2 => some (bitAnd garbage arg1.toVarBit arg2.toVarBit)
  | .or arg1 arg2 => some (bitOr garbage arg1.toVarBit arg2.toVarBit)
  | .xor arg1 arg2 => some (bitxor garbage arg1.toVarBit arg2.toVarBit)
  | .not arg => some (bitnot garbage arg.toVarBit)
  | .shiftleft arg shft => bitshiftleft garbage arg.toVarBit fuel shft
  | .shiftright arg shft => bitshiftright garbage arg.toVarBit fuel shft

structure Yields (op : Operation) (made : Made) : Prop where
  inside : made.block.stray = false
  wellFormed : made.value.WellFormed
  bits : made.value.bits = op.spec

def Right (op : Operation) : Prop := ∀ garbage, ∃ fuel made, op.run garbage fuel = some made ∧ op.Yields made

end Operation
end WeaverDB.VarBits
