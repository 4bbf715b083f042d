import WeaverDB.Foundations.Decimals

/-! # Numeric division

The variables and the stored form of numeric.c, and the functions below `numeric_div`. A variable has
the weight of its first digit, the number of places it is computed to (`rscale`) and shown with
(`dscale`). `global_rscale`, a static that the callers set before a division without a lock, is an
argument here.
-/

namespace WeaverDB.Numeric
open Foundations

inductive Sign
  | pos
  | neg
  | nan
deriving DecidableEq, Repr

structure NumericVar where
  weight : ℤ
  rscale : ℤ
  dscale : ℤ
  sign : Sign
  digits : List ℕ
deriving DecidableEq, Repr

/-- The stored form. A byte of `n_data` holds two digits, the first in its high half. -/
structure NumericData where
  nWeight : ℤ
  nRscale : ℕ
  nSign : Sign
  nDscale : ℕ
  nData : List (ℕ × ℕ)
deriving DecidableEq, Repr

def NumericVar.ndigits (v : NumericVar) : ℤ := v.digits.length

def zeroVar : NumericVar := ⟨0, 0, 0, .pos, []⟩

def constNan : NumericVar := ⟨0, 0, 0, .nan, []⟩

def unpack (nData : List (ℕ × ℕ)) : List ℕ := nData.flatMap fun digitpair => [digitpair.1, digitpair.2]

def setVarFromNum (num : NumericData) : NumericVar :=
  ⟨num.nWeight, num.nRscale, num.nDscale, num.nSign, unpack num.nData⟩

/-- The two loops at the end of every operation: leading zeros, then trailing ones. -/
def stripZeros (digits : List ℕ) (weight : ℤ) : List ℕ × ℤ :=
  ((digits.dropWhile (· = 0)).rdropWhile (· = 0), weight - (digits.takeWhile (· = 0)).length)

def pack : List ℕ → List (ℕ × ℕ)
  | [] => []
  | [d] => [(d, 0)]
  | d :: e :: digits => (d, e) :: pack digits

/-- A signed and two unsigned 16-bit fields; two bits of the last are the sign. -/
def makeResult (var : NumericVar) : NumericData :=
  if var.sign = .nan then ⟨0, 0, .nan, 0, []⟩
  else
    let n := max 0 (min var.ndigits (var.weight + var.rscale + 1))
    let (digits, weight) := stripZeros (var.digits.take n.toNat) var.weight
    let weight := if digits = [] then 0 else weight
    let sign := if digits = [] then .pos else var.sign
    ⟨weight.bmod (2^16), (var.rscale % 2^16).toNat, sign, (var.dscale % 2^14).toNat, pack digits⟩

def skipZeros : List ℕ → ℤ → ℤ → Option (List ℕ × ℤ)
  | [], w, _ => some ([], w)
  | d :: digits, w, w' =>
    if w > w' then if d ≠ 0 then none else skipZeros digits (w-1) w'
    else some (d :: digits, w)

def cmpRests (digits1 digits2 : List ℕ) : ℤ :=
  if digits1.any (· ≠ 0) then 1 else if digits2.any (· ≠ 0) then -1 else 0

def cmpDigits : List ℕ → List ℕ → ℤ
  | d1 :: digits1, d2 :: digits2 =>
    if d1 = d2 then cmpDigits digits1 digits2 else if d1 > d2 then 1 else -1
  | digits1, digits2 => cmpRests digits1 digits2

def cmpAbs (var1 var2 : NumericVar) : ℤ :=
  match skipZeros var1.digits var1.weight var2.weight with
  | none => 1
  | some (digits1, w1) =>
    match skipZeros var2.digits var2.weight w1 with
    | none => -1
    | some (digits2, w2) => if w1 = w2 then cmpDigits digits1 digits2 else cmpRests digits1 digits2

def subDigits (digits1 digits2 : List ℕ) : ℕ → ℤ → ℤ → ℤ → List ℕ
  | 0, _, _, _ => []
  | n + 1, i1, i2, borrow =>
    let borrow := borrow + digitAt digits1 (i1-1) - digitAt digits2 (i2-1)
    if borrow < 0 then (borrow+10).toNat :: subDigits digits1 digits2 n (i1-1) (i2-1) (-1)
    else borrow.toNat :: subDigits digits1 digits2 n (i1-1) (i2-1) 0

def atLeastOne (resNdigits : ℤ) : ℕ := if resNdigits ≤ 0 then 1 else resNdigits.toNat

def subAbs (var1 var2 : NumericVar) : NumericVar :=
  let resWeight := var1.weight
  let resRscale := max var1.rscale var2.rscale
  let resNdigits := atLeastOne (resRscale + resWeight + 1)
  let i1 := resRscale + var1.weight + 1
  let i2 := resRscale + var2.weight + 1
  let (digits, weight) := stripZeros (subDigits var1.digits var2.digits resNdigits i1 i2 0).reverse resWeight
  ⟨if digits = [] then 0 else weight, resRscale, max var1.dscale var2.dscale, .pos, digits⟩

def carryUp : List ℕ → ℕ → List ℕ
  | [], _ => []
  | d :: digits, 0 => d :: digits
  | d :: digits, carry+1 => (carry + 1 + d) % 10 :: carryUp digits ((carry + 1 + d) / 10)

def roundDigits (digits : List ℕ) (i : ℕ) : List ℕ :=
  (carryUp (digits.take i).reverse (if digits.getD i 0 > 4 then 1 else 0)).reverse

structure DivState where
  dividend : NumericVar
  weightTmp : ℤ
  rscaleTmp : ℤ
  firstHave : ℕ
  firstNextdigit : ℤ
deriving DecidableEq, Repr

def timesDigit (guess : ℕ) : List ℕ → ℕ → List ℕ
  | [], _ => []
  | d :: digits, sum => (sum + d * guess) % 10 :: timesDigit guess digits ((sum + d * guess) / 10)

/-- `divisor[guess]`. The source keeps the digits when it has computed them. -/
def divisor (digits2 : List ℕ) (guess : ℕ) (s : DivState) : NumericVar :=
  let first := 0 :: digits2
  let digits := if guess = 1 then first else (timesDigit guess first.reverse 0).reverse
  ⟨s.weightTmp, s.rscaleTmp, 0, .pos, digits⟩

def firstDiv (digits2 : List ℕ) : ℕ := digits2.getD 0 0 * 10 + digits2.getD 1 0

def DivState.advance (s : DivState) : DivState :=
  { s with
    firstHave := s.firstHave * 10 + digitAt s.dividend.digits s.firstNextdigit
    firstNextdigit := s.firstNextdigit + 1 }

def firstGuess (digits2 : List ℕ) (s : DivState) : ℕ := min (s.firstHave * 10 / firstDiv digits2 + 1) 9

/-- The guess goes down until its multiple fits; with it the last `cmp_abs`. -/
def tryGuess (digits2 : List ℕ) (s : DivState) : ℕ → ℕ × ℤ
  | 0 => (0, -1)
  | guess + 1 =>
    let stat := cmpAbs s.dividend (divisor digits2 (guess+1) s)
    if stat ≥ 0 then (guess+1, stat) else tryGuess digits2 s guess

def divStep (digits2 : List ℕ) (s : DivState) : ℕ × Option DivState :=
  let s := s.advance
  let (guess, stat) := tryGuess digits2 s (firstGuess digits2 s)
  if stat = 0 then (guess, none)
  else if guess = 0 then
    (guess, some { s with weightTmp := s.weightTmp-1, rscaleTmp := s.rscaleTmp + 1 })
  else
    let dividend := subAbs s.dividend (divisor digits2 guess s)
    let first := dividend.weight - (s.weightTmp-1)
    (guess, some ⟨dividend, s.weightTmp-1, s.rscaleTmp+1, digitAt dividend.digits first, first+1⟩)

def divLoop (digits2 : List ℕ) : ℕ → DivState → List ℕ
  | 0, _ => []
  | n + 1, s =>
    match divStep digits2 s with
    | (guess, none) => [guess]
    | (guess, some s) => guess :: divLoop digits2 n s

def divStart (var1 var2 : NumericVar) : DivState :=
  { dividend := ⟨0, var1.ndigits, 0, .pos, var1.digits⟩
    weightTmp := 1
    rscaleTmp := var2.ndigits
    firstHave := 0
    firstNextdigit := 0 }

def divTurns (globalRscale : ℤ) (var1 var2 : NumericVar) : ℕ :=
  atLeastOne (globalRscale + (var1.weight - var2.weight + 1))

def divVar (globalRscale : ℤ) (var1 var2 : NumericVar) : Except String NumericVar :=
  if var2.digits = [] then .error "division by zero on numeric"
  else
    let resSign := if var1.sign = var2.sign then .pos else .neg
    let resWeight := var1.weight - var2.weight + 1
    let resNdigits := divTurns globalRscale var1 var2
    if var1.digits = [] then .ok { zeroVar with rscale := globalRscale }
    else
      let resDigits := 0 :: divLoop var2.digits (resNdigits+1) (divStart var1 var2)
      let rounded :=
        if resDigits.length = resNdigits + 2 then roundDigits resDigits (resNdigits+1) else resDigits
      let (digits, weight) := stripZeros rounded resWeight
      .ok ⟨weight, globalRscale, 0, if digits = [] then .pos else resSign, digits⟩

def divDscale (arg1 arg2 : NumericVar) : ℤ := min (max (arg1.dscale+arg2.dscale) 10) 1000

def divRscale (arg1 arg2 : NumericVar) : ℤ :=
  min (max (max (arg1.rscale+arg2.rscale) 34) (divDscale arg1 arg2 + 4)) 2000

def numericDiv : Option NumericData → Option NumericData → Except String (Option NumericData)
  | some num1, some num2 =>
    if num1.nSign = .nan ∨ num2.nSign = .nan then .ok (some (makeResult constNan))
    else do
      let arg1 := setVarFromNum num1
      let arg2 := setVarFromNum num2
      let result ← divVar (divRscale arg1 arg2) arg1 arg2
      .ok (some (makeResult { result with dscale := divDscale arg1 arg2 }))
  | _, _ => .ok none

/-- No leading or trailing zero digit, and zero is positive. The low half of the last byte may be no
digit. -/
structure NumericData.Canonical (num : NumericData) : Prop where
  head : ∀ digitpair ∈ num.nData.head?, digitpair.1 ≠ 0
  last : ∀ digitpair ∈ num.nData.getLast?, digitpair ≠ (0, 0)
  zero : num.nData = [] → num.nWeight = 0 ∧ num.nSign = .pos

/-- What `make_result` builds (`makeResult_stored`). No digit is behind the scale. -/
structure Stored extends NumericData where
  digit : ∀ digitpair ∈ nData, digitpair.1 < 10 ∧ digitpair.2 < 10
  canonical : toNumericData.Canonical
  notNan : nSign ≠ .nan
  weight16 : -2^15 ≤ nWeight ∧ nWeight < 2^15
  rscale16 : nRscale < 2^16
  dscale14 : nDscale < 2^14
  scaled : EndsAt (unpack nData) nWeight nRscale

def Sign.factor (sign : Sign) : ℚ := if sign = .neg then -1 else 1

def NumericVar.value (v : NumericVar) : ℚ := v.sign.factor * magnitude v.digits v.weight

def NumericData.value (num : NumericData) : ℚ := (setVarFromNum num).value

end WeaverDB.Numeric
