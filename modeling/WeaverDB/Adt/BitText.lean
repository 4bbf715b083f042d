import WeaverDB.Adt.BitResults

/-! # Texts of bit strings

`zpbit_in` and `varbit_in` read binary digits behind a `b` and hexadecimal ones behind an `x`. At the
end of a byte the loop over binary digits sets `bc` to zero, and its head adds one. So from the second
byte on a byte gets seven digits: the digit `j` comes to the place `place j`.
-/

namespace WeaverDB.VarBits
open Foundations List Int

variable {made : Made} {i n k q : Nat} {b : Block Bits8} {check : Bool} {ofType who : String}
  {atttypmod : Int} {w : List Bool}

/-- `MaxAttrSize` depends on the block size, and is far from what an `int` can hold. -/
structure Limits where
  maxAttrSize : Nat
  small : maxAttrSize < 2^28

/-! ## Input -/

def parseBits : List Char → Nat → Bits8 → Nat → Block Bits8 → Block Bits8
  | [], _, _, _, result => result
  | c :: sp, r, x, bc, result =>
    let result := if c = '1' then result.store r (result.data r ||| x) else result
    if bc = 7 then parseBits sp (r+1) 0x80 (0+1) result
    else parseBits sp r (x >>> 1) (bc+1) result

def hexValue (c : Char) : Option Bits8 :=
  if '0' ≤ c ∧ c ≤ '9' then some (.ofNat 8 (c.toNat - '0'.toNat))
  else if 'A' ≤ c ∧ c ≤ 'F' then some (.ofNat 8 (c.toNat - 'A'.toNat + 10))
  else if 'a' ≤ c ∧ c ≤ 'f' then some (.ofNat 8 (c.toNat - 'a'.toNat + 10))
  else none

def parseHex : List Char → Nat → Bool → Block Bits8 → Except String (Block Bits8)
  | [], _, _, result => .ok result
  | c :: sp, r, bc, result =>
    match hexValue c with
    | none => .error ("Cannot parse " ++ c.toString ++ " as a hex digit")
    | some x =>
      if bc then parseHex sp (r+1) false (result.store r (result.data r ||| x))
      else parseHex sp r true (result.store r (x <<< 4))

def bitNotHex (who : String) (s : List Char) : Except String Bool :=
  match s.head? with
  | some 'b' | some 'B' => .ok true
  | some 'x' | some 'X' => .ok false
  | _ => .error (who ++ String.ofList s ++ " is not a valid bitstring")

def inferredLength (binary : Bool) (s : List Char) : Int :=
  let slen := int32 (s.length-1)
  if binary then slen else int32 (slen*4)

/-- The bits do not fit a type of `atttypmod` bits; a hexadecimal string may have three more. -/
def tooLong (binary : Bool) (bitlen atttypmod : Int) : Prop :=
  (bitlen > atttypmod ∧ binary) ∨ (bitlen > int32 (atttypmod+3) ∧ binary = false)

instance (binary : Bool) (bitlen atttypmod : Int) : Decidable (tooLong binary bitlen atttypmod) :=
  inferInstanceAs (Decidable (_ ∨ _))

/-- What both functions share: `rbitlen` zero bits, the digits, and the test of the padding if
`check`. -/
def readDigits (c : Limits) (who ofType : String) (binary : Bool) (s : List Char) (rbitlen atttypmod : Int)
    (check : Bool) : Except String Made :=
  let len := varBitDataLen rbitlen
  -- `len` is compared as an unsigned number
  if len < 0 ∨ len > c.maxAttrSize then
    .error (who ++ "length of bit() must be less than " ++ toString ((c.maxAttrSize-8) * 8 % 2^32))
  else
    let result : Block Bits8 := ⟨varBitBytes rbitlen, fun _ => 0, decide (len < 8)⟩
    match (if binary then .ok (parseBits s.tail 0 0x80 0 result) else parseHex s.tail 0 false result) with
    | .error e => .error e
    | .ok result =>
      let ipad := (result.size * 8 - rbitlen : Int)
      if check ∧ result.data (result.size-1) <<< (8-ipad).toNat ≠ 0 then
        .error (who ++ "bit string too large for " ++ ofType ++ "(" ++ toString atttypmod ++ ") data type")
      else .ok ⟨rbitlen, result⟩

/-- `none` is the null pointer. -/
def zpbitIn (c : Limits) (s : Option (List Char)) (atttypmod : Int) : Except String (Option Made) :=
  match s with
  | none => .ok none
  | some s =>
    match bitNotHex "zpbit_in: " s with
    | .error e => .error e
    | .ok binary =>
      let bitlen := inferredLength binary s
      if atttypmod ≠ -1 ∧ tooLong binary bitlen atttypmod then
        .error ("zpbit_in: bit string of size " ++ toString bitlen ++ " cannot be written into bits(" ++
          toString atttypmod ++ ")")
      else
        let atttypmod := if atttypmod = -1 then bitlen else atttypmod
        (readDigits c "zpbit_in: " "bit" binary s atttypmod atttypmod (bitlen > atttypmod)).map some

def varbitIn (c : Limits) (s : Option (List Char)) (atttypmod : Int) : Except String (Option Made) :=
  match s with
  | none => .ok none
  | some s =>
    match bitNotHex "zpbit_in: " s with
    | .error e => .error e
    | .ok binary =>
      let bitlen := inferredLength binary s
      if atttypmod > -1 ∧ tooLong binary bitlen atttypmod then
        .error ("varbit_in: bit string of size " ++ toString bitlen ++
          " cannot be written into varying bits(" ++ toString atttypmod ++ ")")
      else
        (readDigits c "varbit_in: " "varying bit" binary s bitlen atttypmod (bitlen > atttypmod)).map some

/-! ## Output -/

def hexDig (z : Bits8) : Char :=
  if z.toNat < 10 then Char.ofNat (z.toNat + '0'.toNat) else Char.ofNat (z.toNat - 10 + 'A'.toNat)

def zpbitOut (s : Option VarBit) : List Char :=
  match s with
  | none => ['-']
  | some s =>
    let len := (s.bitlen.tdiv 4 + (if 0 < s.bitlen.tmod 4 then 1 else 0)).toNat
    let turns := (len+1) / 2
    let digits := (List.range turns).flatMap fun sp =>
      [hexDig (s.data sp >>> 4), hexDig (s.data sp &&& 0xF)]
    -- one step back if the last digit is not part of the bit string
    ['X', '\x27'] ++ (if 2 * turns = len+1 then digits.dropLast else digits) ++ ['\x27']

def bitChar (bit : Bool) : Char := if bit then '1' else '0'

def printBits : Nat → Bits8 → List Char
  | 0, _ => []
  | k + 1, x => (if x &&& 0x80 ≠ 0 then '1' else '0') :: printBits k (x <<< 1)

def printBytes (s : VarBit) (sp left : Nat) : List Char :=
  if 8 < left then printBits 8 (s.data sp) ++ printBytes s (sp+1) (left-8)
  else printBits left (s.data sp)
termination_by left

def zpbitsOut (s : Option VarBit) : List Char :=
  match s with
  | none => ['-']
  | some s => ['B', '\x27'] ++ printBytes s 0 s.bitlen.toNat ++ ['\x27']

/-! ## Binary digits -/

def place (j : Nat) : Nat := j + (j-8) / 7

def maskAt (j : Nat) : Bits8 := 0x80#8 >>> (place j % 8)

def countAt (j : Nat) : Nat := if j < 8 then j else 1 + (j-8) % 7

theorem high_bit (p : Nat) (hk : k < 8) : (0x80#8 >>> p).getMsbD k = decide (k = p) := by
  have hhigh : ∀ n < 8, (0x80#8).getMsbD n = decide (n = 0) := by decide
  rw [BitVec.getMsbD_ushiftRight, decide_eq_true hk, Bool.true_and]
  obtain hlt | hge := Nat.lt_or_ge k p
  · rw [decide_eq_true hlt, decide_eq_false (by omega), Bool.not_true, Bool.false_and]
  · rw [decide_eq_false (Nat.not_lt.mpr hge), Bool.not_false, Bool.true_and, hhigh _ (by omega), decide_eq_decide]
    omega

theorem store_mask_bit (b : Block Bits8) (j i : Nat) :
    blockBit (b.store (place j / 8) (b.data (place j / 8) ||| maskAt j)) i =
      (blockBit b i || decide (i = place j)) := by
  rw [blockBit, Block.store_data]
  by_cases hbyte : i / 8 = place j / 8
  · rw [if_pos hbyte, BitVec.getMsbD_or, maskAt, high_bit _ (Nat.mod_lt _ (by decide)), ← hbyte]
    congr 1
    rw [decide_eq_decide]
    omega
  · rw [if_neg hbyte, decide_eq_false (by omega : ¬ i = place j), Bool.or_false, blockBit]

theorem parseBits_cons (c : Char) (sp : List Char) (j : Nat) (b : Block Bits8) :
    parseBits (c :: sp) (place j / 8) (maskAt j) (countAt j) b =
      parseBits sp (place (j+1) / 8) (maskAt (j+1)) (countAt (j+1))
        (if c = '1' then b.store (place j / 8) (b.data (place j / 8) ||| maskAt j) else b) := by
  rw [parseBits]
  by_cases hlast : countAt j = 7
  · obtain ⟨hbyte, hmod, hcount⟩ : place (j+1) / 8 = place j / 8 + 1 ∧ place (j+1) % 8 = 0 ∧ countAt (j+1) = 0+1 := by
      unfold countAt at hlast ⊢
      unfold place
      split at hlast <;> split <;> omega
    have hmask : maskAt (j+1) = 0x80 := by
      rw [maskAt, hmod]
      rfl
    rw [if_pos hlast, hbyte, hmask, hcount]
  · obtain ⟨hbyte, hmod, hcount⟩ : place (j+1) / 8 = place j / 8 ∧
        place (j+1) % 8 = place j % 8 + 1 ∧ countAt (j+1) = countAt j + 1 := by
      unfold countAt at hlast ⊢
      unfold place
      split at hlast <;> split <;> omega
    have hmask : maskAt (j+1) = maskAt j >>> 1 := by
      rw [maskAt, maskAt, hmod, BitVec.shiftRight_add]
    rw [if_neg hlast, hbyte, hcount, hmask]

theorem parseBits_spec (w : List Bool) (j : Nat) (b : Block Bits8) :
    let result := parseBits (w.map bitChar) (place j / 8) (maskAt j) (countAt j) b
    result.size = b.size ∧
    (result.stray ↔ b.stray ∨ ∃ t, w.getD t false ∧ b.size ≤ place (j+t) / 8) ∧
    ∀ i, blockBit result i ↔ blockBit b i ∨ ∃ t, w.getD t false ∧ i = place (j+t) := by
  induction w generalizing j b with
  | nil => simp [parseBits]
  | cons d w ih =>
    -- the first digit stands apart from the others
    have hsplit (P : Nat → Prop) : (∃ t, (d :: w).getD t false ∧ P (j+t)) ↔
        (d ∧ P j) ∨ ∃ t, w.getD t false ∧ P (j+1 + t) := by
      constructor
      · rintro ⟨t, ht, hp⟩
        cases t with
        | zero => exact .inl ⟨ht, hp⟩
        | succ t => exact .inr ⟨t, ht, by rwa [add_assoc, add_comm 1 t]⟩
      · rintro (⟨hd, hp⟩ | ⟨t, ht, hp⟩)
        · exact ⟨0, hd, hp⟩
        · exact ⟨t+1, ht, by rwa [add_comm t 1, ← add_assoc]⟩
    rw [map_cons, parseBits_cons]
    obtain ⟨hsize, hstray, hbit⟩ := ih (j+1)
      (if bitChar d = '1' then b.store (place j / 8) (b.data (place j / 8) ||| maskAt j) else b)
    refine ⟨hsize.trans ?_, ?_, fun i => ?_⟩
    · split <;> rfl
    · rw [hsplit fun j => b.size ≤ place j / 8, hstray]
      cases d with
      | false => simp [bitChar]
      | true => simp [bitChar, Block.store, or_assoc]
    · rw [hsplit fun j => i = place j, hbit i]
      cases d with
      | false => simp [bitChar]
      | true => simp [bitChar, store_mask_bit, or_assoc]

/-! ## Printing bits -/

theorem high_bit_set : ∀ x : Bits8, (if x &&& 0x80 ≠ 0 then '1' else '0') = bitChar (x.getMsbD 0) := by
  decide

theorem printBits_eq (k : Nat) (x : Bits8) : printBits k x = (List.range k).map fun i => bitChar (x.getMsbD i) := by
  induction k generalizing x with
  | zero => rfl
  | succ k ih =>
    rw [printBits, ih, range_succ_eq_map, map_cons, map_map, high_bit_set]
    congr 1
    apply map_congr_left
    intro i _
    rw [BitVec.getMsbD_shiftLeft]
    rfl

theorem printBytes_eq (s : VarBit) (sp left : Nat) :
    printBytes s sp left = (List.range left).map fun i => bitChar (s.bit (8 * sp + i)) := by
  fun_induction printBytes s sp left with
  | case1 sp left hmore ih =>
    have hleft : left = 8 + (left-8) := by omega
    rw [ih, printBits_eq]
    conv =>
      rhs
      rw [hleft, range_add, map_append, map_map]
    congr 1
    · apply map_congr_left
      intro i hi
      rw [VarBit.bit_of_byte _ _ (mem_range.mp hi)]
    · apply map_congr_left
      intro i _
      change _ = bitChar (s.bit (8 * sp + (8+i)))
      congr 2
      omega
  | case2 sp left hlast =>
    rw [printBits_eq]
    apply map_congr_left
    intro i hi
    rw [VarBit.bit_of_byte _ _ (by have := mem_range.mp hi; omega)]

variable (v : VarBit)

theorem zpbitsOut_eq : zpbitsOut (some v) = ['B', '\x27'] ++ v.bits.map bitChar ++ ['\x27'] := by
  have hbits : printBytes v 0 v.bitlen.toNat = v.bits.map bitChar := by
    rw [printBytes_eq, VarBit.bits, map_map]
    apply map_congr_left
    intro i _
    rw [Nat.zero_add]
    rfl
  rw [zpbitsOut, hbits]

/-! ## Reading binary digits -/

structure ReadAs (w : List Bool) (made : Made) : Prop where
  inside : made.block.stray = false
  wellFormed : made.value.WellFormed
  bits : made.value.bits = w

def BitsRoundTrip (c : Limits) (w : List Bool) : Prop :=
  (∃ made, zpbitIn c (some ('b' :: w.map bitChar)) (-1) = .ok (some made) ∧ ReadAs w made ∧
    zpbitsOut (some made.value) = ['B', '\x27'] ++ w.map bitChar ++ ['\x27']) ∧
  (∃ made, varbitIn c (some ('b' :: w.map bitChar)) (-1) = .ok (some made) ∧ ReadAs w made ∧
    zpbitsOut (some made.value) = ['B', '\x27'] ++ w.map bitChar ++ ['\x27'])

theorem ReadAs.fits (h : ReadAs w made) : w.length < 2^31 := by
  have hlen : w.length = made.value.bitlen.toNat := by rw [← h.bits, VarBit.bits_length]
  have hfits := h.wellFormed.fits
  omega

theorem varBitDataLen_nat (n : Nat) : varBitDataLen n = ((n+7) / 8 + 8 : Nat) := by
  rw [varBitDataLen, tdiv_eq_ediv_of_nonneg (by omega), tmod_eq_emod_of_nonneg (by omega)]
  split <;> omega

def zeroBlock (n : Nat) : Block Bits8 := ⟨(n+7) / 8, fun _ => 0, false⟩

def checkPadding (n : Nat) (result : Block Bits8) (check : Bool) : Prop :=
  check ∧ result.data (result.size-1) <<< (8 - (result.size * 8 - n : Int)).toNat ≠ 0

theorem readDigits_iff {c : Limits} {binary : Bool} {s : List Char} :
    readDigits c who ofType binary s n atttypmod check = .ok made ↔ varBitDataLen n ≤ c.maxAttrSize ∧ ∃ result,
        (if binary then .ok (parseBits s.tail 0 0x80 0 (zeroBlock n))
          else parseHex s.tail 0 false (zeroBlock n)) = .ok result ∧
        ¬ checkPadding n result check ∧ made = ⟨n, result⟩ := by
  have hlen := varBitDataLen_nat n
  have hblock : (⟨varBitBytes n, fun _ => 0, decide (varBitDataLen n < 8)⟩ : Block Bits8) = zeroBlock n := by
    rw [varBitBytes_eq, decide_eq_false (by omega), zeroBlock]
  unfold readDigits checkPadding
  dsimp only
  rw [hblock]
  by_cases hle : varBitDataLen n ≤ c.maxAttrSize
  · rw [if_neg (by omega)]
    cases (if binary then .ok (parseBits s.tail 0 0x80 0 (zeroBlock n))
        else parseHex s.tail 0 false (zeroBlock n) : Except String (Block Bits8)) with
    | error e =>
      refine ⟨nofun, ?_⟩
      rintro ⟨-, _, h, -⟩
      cases h
    | ok result =>
      dsimp only
      split
      · next hcheck =>
        refine ⟨nofun, fun ⟨_, _, hresult, hno, _⟩ => absurd hcheck ?_⟩
        rwa [Except.ok.inj hresult]
      · next hcheck =>
        refine ⟨fun h => ⟨hle, result, rfl, hcheck, (Except.ok.inj h).symm⟩, ?_⟩
        rintro ⟨-, _, hresult, -, hmade⟩
        rw [hmade, Except.ok.inj hresult]
  · rw [if_pos (by omega)]
    exact ⟨nofun, fun h => absurd h.1 hle⟩

theorem map_some_ok {x : Except String Made} : x.map some = .ok (some made) ↔ x = .ok made := by
  cases x with
  | error e => exact ⟨nofun, nofun⟩
  | ok m => simp [Except.map]

theorem padding_zero (hsize : b.size = (n+7) / 8)
    (h : ∀ i, n ≤ i → blockBit b i = false) (check : Bool) : ¬ checkPadding n b check := by
  rintro ⟨-, hne⟩
  refine hne (BitVec.eq_of_getMsbD_eq fun k hk => ?_)
  have hzero : BitVec.getMsbD (0 : Bits8) k = false := BitVec.getMsbD_zero
  rw [BitVec.getMsbD_shiftLeft, hzero]
  rcases Nat.lt_or_ge (k + (8 - (b.size * 8 - n : Int)).toNat) 8 with hlt | hge
  · rw [← blockBit_of_byte b _ hlt]
    exact h _ (by omega)
  · exact BitVec.getMsbD_of_ge _ _ hge

section

variable {c : Limits} {binary : Bool} {s : List Char} (h : bitNotHex "zpbit_in: " s = .ok binary)
include h

theorem zpbitIn_plain : zpbitIn c (some s) (-1) = (readDigits c "zpbit_in: " "bit" binary s
    (inferredLength binary s) (inferredLength binary s) false).map some := by
  have hcheck : decide (inferredLength binary s > inferredLength binary s) = false := decide_eq_false (Int.lt_irrefl _)
  unfold zpbitIn
  simp only [h, ne_eq, not_true_eq_false, false_and, if_false, if_true, hcheck]

theorem varbitIn_plain : varbitIn c (some s) (-1) = (readDigits c "varbit_in: " "varying bit" binary s
    (inferredLength binary s) (-1) (decide (inferredLength binary s > -1))).map some := by
  unfold varbitIn
  simp only [h, gt_iff_lt, Int.lt_irrefl, false_and, if_false]

theorem read_both (hlength : inferredLength binary s = w.length)
    (hparse : (if binary then .ok (parseBits s.tail 0 0x80 0 (zeroBlock w.length))
      else parseHex s.tail 0 false (zeroBlock w.length)) = .ok b)
    (hle : varBitDataLen w.length ≤ c.maxAttrSize) (hsize : b.size = (w.length+7) / 8)
    (hinside : b.stray = false) (hbit : ∀ i, blockBit b i = w.getD i false) :
    ReadAs w ⟨w.length, b⟩ ∧ zpbitIn c (some s) (-1) = .ok (some ⟨w.length, b⟩) ∧
      varbitIn c (some s) (-1) = .ok (some ⟨w.length, b⟩) := by
  have hlen := varBitDataLen_nat w.length
  have hsmall := c.small
  have hvalue (i : Nat) : (⟨w.length, b⟩ : Made).value.bit i = w.getD i false := by
    rw [value_bit, hbit]
    by_cases hi : i < 8*b.size
    · rw [decide_eq_true hi, Bool.true_and]
    · rw [getD_eq_default _ _ (by omega), Bool.and_false]
  obtain ⟨hwell, hsame⟩ := VarBit.of_bit (b := (⟨w.length, b⟩ : Made).value) rfl (by omega)
    ((value_length _).trans hsize) hvalue
  have hzero (i : Nat) (hi : w.length ≤ i) : blockBit b i = false := by
    rw [hbit, getD_eq_default _ _ hi]
  refine ⟨⟨hinside, hwell, hsame⟩, ?_, ?_⟩
  · rw [zpbitIn_plain h, map_some_ok, hlength]
    exact readDigits_iff.mpr ⟨hle, b, hparse, padding_zero hsize hzero _, rfl⟩
  · rw [varbitIn_plain h, map_some_ok, hlength]
    exact readDigits_iff.mpr ⟨hle, b, hparse, padding_zero hsize hzero _, rfl⟩

end

def parsed (w : List Bool) : Block Bits8 := parseBits (w.map bitChar) 0 0x80 0 (zeroBlock w.length)

theorem parsed_size (w : List Bool) : (parsed w).size = (w.length+7) / 8 := (parseBits_spec w 0 (zeroBlock w.length)).1

theorem parsed_stray (w : List Bool) : (parsed w).stray ↔ ∃ t, w.getD t false ∧ (w.length+7) / 8 ≤ place t / 8 := by
  have h := (parseBits_spec w 0 (zeroBlock w.length)).2.1
  simp only [zero_add] at h
  refine h.trans ⟨fun h => h.resolve_left nofun, .inr⟩

theorem parsed_bit (w : List Bool) (i : Nat) : blockBit (parsed w) i ↔ ∃ t, w.getD t false ∧ i = place t := by
  have h := (parseBits_spec w 0 (zeroBlock w.length)).2.2 i
  have hzero : blockBit (zeroBlock w.length) i = false := BitVec.getMsbD_zero
  simp only [zero_add] at h
  refine h.trans ⟨fun h => h.resolve_left (by rw [hzero]; exact nofun), .inr⟩

def ShortOnes (w : List Bool) : Prop := ∀ i, 15 ≤ i → w.getD i false = false

theorem place_eq (h : i < 15) : place i = i := by
  unfold place
  omega

theorem lt_place (h : 15 ≤ i) : i < place i := by
  unfold place
  omega

section

variable {w : List Bool}

theorem lt_length_of_getD (h : w.getD i false) : i < w.length := by
  by_contra hge
  rw [getD_eq_default _ _ (Nat.not_lt.mp hge)] at h
  cases h

theorem ShortOnes.lt (h : ShortOnes w) (hi : w.getD i false) : i < 15 := by
  by_contra hge
  rw [h i (Nat.not_lt.mp hge)] at hi
  cases hi

theorem ShortOnes.bit (h : ShortOnes w) (i : Nat) : blockBit (parsed w) i = w.getD i false := by
  rw [Bool.eq_iff_iff, parsed_bit]
  constructor
  · rintro ⟨t, ht, rfl⟩
    rwa [place_eq (h.lt ht)]
  · intro hi
    exact ⟨i, hi, (place_eq (h.lt hi)).symm⟩

theorem ShortOnes.inside (h : ShortOnes w) : (parsed w).stray = false := by
  rw [← Bool.not_eq_true, parsed_stray]
  rintro ⟨t, ht, hle⟩
  have hlt := lt_length_of_getD ht
  rw [place_eq (h.lt ht)] at hle
  omega

theorem shortOnes_of_readAs (h : ReadAs w ⟨w.length, parsed w⟩) : ShortOnes w := by
  intro i
  induction i using Nat.strongRecOn with
  | ind i ih =>
    intro hi
    by_contra hone
    rw [Bool.not_eq_false] at hone
    have hbit : blockBit (parsed w) i := by
      have hval := h.wellFormed.getD i
      rw [h.bits, hone, value_bit] at hval
      exact (Bool.and_eq_true_iff.mp hval.symm).2
    obtain ⟨t, ht, rfl⟩ := (parsed_bit w i).mp hbit
    obtain hlt | hge := Nat.lt_or_ge t 15
    · rw [place_eq hlt] at hi
      omega
    · rw [ih t (lt_place hge) hge] at ht
      cases ht

theorem inferredLength_binary (hfits : w.length < 2^31) : inferredLength true ('b' :: w.map bitChar) = w.length := by
  unfold inferredLength
  rw [if_pos rfl, length_cons, length_map, int32_eq] <;> omega

theorem bitsRoundTrip_iff (c : Limits) : BitsRoundTrip c w ↔ ShortOnes w ∧ varBitDataLen w.length ≤ c.maxAttrSize := by
  have hb : bitNotHex "zpbit_in: " ('b' :: w.map bitChar) = .ok true := rfl
  constructor
  · rintro ⟨⟨made, hmade, hread, -⟩, -⟩
    rw [zpbitIn_plain hb, map_some_ok, inferredLength_binary hread.fits] at hmade
    obtain ⟨hle, block, hblock, -, rfl⟩ := readDigits_iff.mp hmade
    obtain rfl : parsed w = block := Except.ok.inj hblock
    exact ⟨shortOnes_of_readAs hread, hle⟩
  · rintro ⟨hshort, hle⟩
    have hfits : w.length < 2^31 := by
      have hlen := varBitDataLen_nat w.length
      have hsmall := c.small
      omega
    obtain ⟨hread, hzpbit, hvarbit⟩ := read_both (b := parsed w) hb (inferredLength_binary hfits) rfl
      hle (parsed_size w) hshort.inside hshort.bit
    have hprint : zpbitsOut (some (⟨w.length, parsed w⟩ : Made).value) =
        ['B', '\x27'] ++ w.map bitChar ++ ['\x27'] := by rw [zpbitsOut_eq, hread.bits]
    exact ⟨⟨_, hzpbit, hread, hprint⟩, ⟨_, hvarbit, hread, hprint⟩⟩

end

/-! ## Hexadecimal digits -/

def digitOf (c : Char) : Bits8 := (hexValue c).getD 0

def IsHex (digits : List Char) : Prop := ∀ c ∈ digits, hexValue c = some (digitOf c)

def nibble (c : Char) : List Bool := (List.range 4).map fun k => (digitOf c).getMsbD (4+k)

def hexBits (digits : List Char) : List Bool := digits.flatMap nibble

def upper (c : Char) : Char := if 'a' ≤ c ∧ c ≤ 'f' then Char.ofNat (c.toNat-32) else c

theorem hexBits_length (digits : List Char) : (hexBits digits).length = 4*digits.length := by
  induction digits with
  | nil => rfl
  | cons c digits ih =>
    rw [hexBits, flatMap_cons, length_append, length_cons]
    change 4 + (hexBits digits).length = _
    omega

theorem nibble_getD (c : Char) (hk : k < 4) : (nibble c).getD k false = (digitOf c).getMsbD (4+k) := by
  rw [nibble, getD_eq_getElem _ _ (by simpa using hk), getElem_map, getElem_range]

theorem hexBits_getD (digits : List Char) (i : Nat) : (hexBits digits).getD i false =
    (digits[i / 4]?.elim false fun c => (digitOf c).getMsbD (4 + i % 4)) := by
  induction digits generalizing i with
  | nil => rfl
  | cons c digits ih =>
    have hlen : (nibble c).length = 4 := rfl
    rw [hexBits, flatMap_cons]
    obtain hlt | hge := Nat.lt_or_ge i 4
    · have hdiv : i / 4 = 0 := by omega
      have hmod : i % 4 = i := by omega
      rw [getD_append _ _ _ _ (by omega), nibble_getD c hlt, hdiv, hmod]
      rfl
    · have hdiv : i / 4 = (i-4) / 4 + 1 := by omega
      have hmod : i % 4 = (i-4) % 4 := by omega
      rw [getD_append_right _ _ _ _ (by omega), hlen, hdiv, hmod, List.getElem?_cons_succ]
      exact ih (i-4)

theorem char_le (a b : Char) : a ≤ b ↔ a.toNat ≤ b.toNat := .rfl

theorem hexValue_spec {c : Char} {x : Bits8} (h : hexValue c = some x) : x.toNat < 16 ∧ hexDig x = upper c := by
  have h0 : '0'.toNat = 48 := rfl
  have h9 : '9'.toNat = 57 := rfl
  have hA : 'A'.toNat = 65 := rfl
  have hF : 'F'.toNat = 70 := rfl
  have ha : 'a'.toNat = 97 := rfl
  have hf : 'f'.toNat = 102 := rfl
  have hval {n : Nat} (hn : n < 16) (hv : some (.ofNat 8 n) = some x) : x.toNat = n := by
    rw [← Option.some.inj hv, BitVec.toNat_ofNat, Nat.mod_eq_of_lt (by omega)]
  unfold hexValue at h
  unfold hexDig upper
  simp only [char_le] at h ⊢
  split at h
  · have hback : c.toNat - '0'.toNat + '0'.toNat = c.toNat := by omega
    rw [hval (by omega) h, if_pos (by omega), if_neg (by omega), hback, Char.ofNat_toNat]
    exact ⟨by omega, rfl⟩
  · split at h
    · have hback : c.toNat - 'A'.toNat + 10 - 10 + 'A'.toNat = c.toNat := by omega
      rw [hval (by omega) h, if_neg (by omega), if_neg (by omega), hback, Char.ofNat_toNat]
      exact ⟨by omega, rfl⟩
    · split at h
      · have hback : c.toNat - 'a'.toNat + 10 - 10 + 'A'.toNat = c.toNat-32 := by omega
        rw [hval (by omega) h, if_neg (by omega), if_pos (by omega), hback]
        exact ⟨by omega, rfl⟩
      · cases h

theorem digitOf_lt (c : Char) : (digitOf c).toNat < 16 := by
  unfold digitOf
  cases h : hexValue c with
  | none => decide
  | some x => exact (hexValue_spec h).1

theorem getMsbD_small : ∀ x : Bits8, x.toNat < 16 → ∀ k < 4, x.getMsbD k = false := by decide

def storeDigit (b : Block Bits8) (q : Nat) (x : Bits8) : Block Bits8 :=
  if q % 2 = 1 then b.store (q/2) (b.data (q/2) ||| x) else b.store (q/2) (x <<< 4)

theorem parseHex_cons {c : Char} (hc : hexValue c = some (digitOf c)) (sp : List Char) (q : Nat)
    (b : Block Bits8) : parseHex (c :: sp) (q/2) (decide (q % 2 = 1)) b =
      parseHex sp ((q+1) / 2) (decide ((q+1) % 2 = 1)) (storeDigit b q (digitOf c)) := by
  rw [parseHex]
  simp only [hc]
  by_cases hodd : q % 2 = 1
  · have hbyte : (q+1) / 2 = q / 2 + 1 := by omega
    rw [if_pos (decide_eq_true hodd), hbyte, decide_eq_false (by omega), storeDigit, if_pos hodd]
  · have hbyte : (q+1) / 2 = q / 2 := by omega
    rw [if_neg (by simpa using hodd), hbyte, decide_eq_true (by omega), storeDigit, if_neg hodd]

theorem storeDigit_size (b : Block Bits8) (q : Nat) (x : Bits8) : (storeDigit b q x).size = b.size := by
  unfold storeDigit
  split <;> rfl

theorem storeDigit_stray (x : Bits8) (h : q / 2 < b.size) : (storeDigit b q x).stray = b.stray := by
  unfold storeDigit
  split <;> exact Block.store_stray h

theorem storeDigit_bit (c : Char) (hzero : ∀ i, 4*q ≤ i → blockBit b i = false) (i : Nat) :
    blockBit (storeDigit b q (digitOf c)) i =
      if 4 * q ≤ i ∧ i < 4 * (q+1) then (digitOf c).getMsbD (4 + i % 4) else blockBit b i := by
  have hsmall := getMsbD_small (digitOf c) (digitOf_lt c)
  unfold storeDigit
  by_cases hodd : q % 2 = 1
  · rw [if_pos hodd, blockBit, Block.store_data]
    by_cases hbyte : i / 8 = q / 2
    · rw [if_pos hbyte, BitVec.getMsbD_or, ← hbyte]
      change (blockBit b i || _) = _
      obtain hlt | hge := Nat.lt_or_ge i (4*q)
      · rw [if_neg (by omega), hsmall _ (by omega), Bool.or_false]
      · have hmod : i % 8 = 4 + i % 4 := by omega
        rw [if_pos (by omega), hzero i hge, Bool.false_or, hmod]
    · rw [if_neg hbyte, if_neg (by omega), blockBit]
  · rw [if_neg hodd, blockBit, Block.store_data]
    by_cases hbyte : i / 8 = q / 2
    · rw [if_pos hbyte, BitVec.getMsbD_shiftLeft]
      obtain hlt | hge := Nat.lt_or_ge (i % 8) 4
      · have hmod : i % 8 + 4 = 4 + i % 4 := by omega
        rw [if_pos (by omega), hmod]
      · rw [if_neg (by omega), BitVec.getMsbD_of_ge _ _ (by omega), hzero i (by omega)]
    · rw [if_neg hbyte, if_neg (by omega), blockBit]

theorem parseHex_spec (digits : List Char) (hhex : IsHex digits) (q : Nat) (b : Block Bits8)
    (hroom : (q + digits.length + 1) / 2 ≤ b.size) (hzero : ∀ i, 4*q ≤ i → blockBit b i = false) :
    ∃ result, parseHex digits (q/2) (decide (q % 2 = 1)) b = .ok result ∧ result.size = b.size ∧
      result.stray = b.stray ∧ ∀ i, blockBit result i =
        if 4 * q ≤ i then (hexBits digits).getD (i-4 * q) false else blockBit b i := by
  induction digits generalizing q b with
  | nil =>
    refine ⟨b, rfl, rfl, rfl, fun i => ?_⟩
    split
    · next hi =>
      rw [hzero i hi]
      rfl
    · rfl
  | cons c digits ih =>
    rw [length_cons] at hroom
    have hc := hhex c (.head _)
    rw [parseHex_cons hc]
    have hstep := storeDigit_bit c hzero
    obtain ⟨result, hresult, hsize, hstray, hbit⟩ := ih (fun d hd => hhex d (mem_cons_of_mem c hd))
      (q+1) (storeDigit b q (digitOf c)) (by rw [storeDigit_size]; omega) (fun i hi => by
        rw [hstep, if_neg (by omega), hzero i (by omega)])
    refine ⟨result, hresult, hsize.trans (storeDigit_size ..), hstray.trans
      (storeDigit_stray _ (by omega)), fun i => ?_⟩
    rw [hbit, hstep, hexBits_getD, hexBits_getD]
    obtain hlt | hge := Nat.lt_or_ge i (4 * (q+1))
    · rw [if_neg (by omega)]
      by_cases hin : 4 * q ≤ i
      · have hdiv : (i-4 * q) / 4 = 0 := by omega
        have hmod : (i-4 * q) % 4 = i % 4 := by omega
        rw [if_pos ⟨hin, hlt⟩, if_pos hin, hdiv, hmod]
        rfl
      · rw [if_neg fun h => hin h.1, if_neg hin]
    · have hdiv : (i-4 * q) / 4 = (i-4 * (q+1)) / 4 + 1 := by omega
      have hmod : (i-4 * q) % 4 = (i-4 * (q+1)) % 4 := by omega
      rw [if_pos hge, if_pos (by omega), hdiv, hmod, List.getElem?_cons_succ]

/-! ## Printing hexadecimal digits -/

def halfByte (v : VarBit) (k : Nat) : Bits8 := if k % 2 = 1 then v.data (k/2) &&& 0xF else v.data (k/2) >>> 4

theorem low_mask : ∀ j < 8, (0xF : Bits8).getMsbD j = decide (4 ≤ j) := by decide

theorem halfByte_bit (k : Nat) {j : Nat} (hj : j < 8) :
    (halfByte v k).getMsbD j = (decide (4 ≤ j) && v.bit (4 * k + (j-4))) := by
  unfold halfByte
  by_cases hodd : k % 2 = 1
  · rw [if_pos hodd, BitVec.getMsbD_and, low_mask j hj, Bool.and_comm]
    by_cases h4 : 4 ≤ j
    · have hindex : 4 * k + (j-4) = 8 * (k/2) + j := by omega
      rw [hindex, VarBit.bit_of_byte _ _ hj]
    · rw [decide_eq_false h4, Bool.false_and, Bool.false_and]
  · rw [if_neg hodd, BitVec.getMsbD_ushiftRight, decide_eq_true hj, Bool.true_and]
    by_cases h4 : 4 ≤ j
    · have hindex : 4 * k + (j-4) = 8 * (k/2) + (j-4) := by omega
      rw [decide_eq_true h4, decide_eq_false (by omega : ¬ j < 4), Bool.not_false, hindex,
        VarBit.bit_of_byte _ _ (by omega)]
    · rw [decide_eq_false h4, decide_eq_true (by omega : j < 4), Bool.not_true, Bool.false_and, Bool.false_and]

theorem printed_eq (n : Nat) : ((List.range n).flatMap fun sp =>
    [hexDig (v.data sp >>> 4), hexDig (v.data sp &&& 0xF)]) =
      (List.range (2*n)).map fun k => hexDig (halfByte v k) := by
  induction n with
  | zero => rfl
  | succ n ih =>
    have heven : halfByte v (2*n) = v.data n >>> 4 := by
      have hbyte : 2 * n / 2 = n := by omega
      rw [halfByte, if_neg (by omega), hbyte]
    have hodd : halfByte v (2 * n + 1) = v.data n &&& 0xF := by
      have hbyte : (2 * n + 1) / 2 = n := by omega
      rw [halfByte, if_pos (by omega), hbyte]
    rw [range_succ, flatMap_append, ih, Nat.mul_succ, range_succ, range_succ]
    simp [heven, hodd]

theorem zpbitOut_eq {v : VarBit} (hlen : v.bitlen = (4*n : Nat)) : zpbitOut (some v) =
      ['X', '\x27'] ++ ((List.range n).map fun k => hexDig (halfByte v k)) ++ ['\x27'] := by
  have hcount : (v.bitlen.tdiv 4 + (if 0 < v.bitlen.tmod 4 then 1 else 0)).toNat = n := by
    rw [hlen, tdiv_eq_ediv_of_nonneg (by omega), tmod_eq_emod_of_nonneg (by omega), if_neg (by omega)]
    omega
  unfold zpbitOut
  simp only [hcount, printed_eq]
  by_cases hodd : 2 * ((n+1) / 2) = n+1
  · rw [if_pos hodd, hodd, range_succ, map_append, map_singleton, dropLast_concat]
  · have heven : 2 * ((n+1) / 2) = n := by omega
    rw [if_neg hodd, heven]

def HexRoundTrip (c : Limits) (digits : List Char) : Prop :=
  (∃ made, zpbitIn c (some ('x' :: digits)) (-1) = .ok (some made) ∧ ReadAs (hexBits digits) made ∧
    zpbitOut (some made.value) = ['X', '\x27'] ++ digits.map upper ++ ['\x27']) ∧
  (∃ made, varbitIn c (some ('x' :: digits)) (-1) = .ok (some made) ∧ ReadAs (hexBits digits) made ∧
    zpbitOut (some made.value) = ['X', '\x27'] ++ digits.map upper ++ ['\x27'])

section

variable {digits : List Char} (hhex : IsHex digits)

theorem halfByte_digit (hread : ReadAs (hexBits digits) made)
    (hk : k < digits.length) : halfByte made.value k = digitOf digits[k] := by
  refine BitVec.eq_of_getMsbD_eq fun j hj => ?_
  rw [halfByte_bit _ _ hj]
  by_cases h4 : 4 ≤ j
  · have hdiv : (4 * k + (j-4)) / 4 = k := by omega
    have hmod : 4 + (4 * k + (j-4)) % 4 = j := by omega
    rw [← hread.wellFormed.getD, hread.bits, hexBits_getD, hdiv, hmod, List.getElem?_eq_getElem hk, decide_eq_true h4]
    rfl
  · rw [decide_eq_false h4, Bool.false_and, getMsbD_small _ (digitOf_lt _) j (by omega)]

include hhex

theorem zpbitOut_digits (hread : ReadAs (hexBits digits) made) (hlen : made.bitlen = (4*digits.length : Nat)) :
    zpbitOut (some made.value) = ['X', '\x27'] ++ digits.map upper ++ ['\x27'] := by
  have hprint : ((List.range digits.length).map fun k => hexDig (halfByte made.value k)) = digits.map upper := by
    apply ext_getElem
    · rw [length_map, length_map, length_range]
    · intro k h₁ h₂
      have hk : k < digits.length := by simpa using h₂
      rw [getElem_map, getElem_map, getElem_range, halfByte_digit hread hk, (hexValue_spec (hhex _ (getElem_mem hk))).2]
  rw [zpbitOut_eq hlen, hprint]

omit hhex in
theorem inferredLength_hex (hfits : 4 * digits.length < 2^31) :
    inferredLength false ('x' :: digits) = (4*digits.length : Nat) := by
  have hslen : int32 (('x' :: digits).length - 1 : Int) = digits.length := by
    rw [length_cons, int32_eq] <;> omega
  unfold inferredLength
  rw [if_neg nofun, hslen, int32_eq] <;> omega

theorem hexRoundTrip_iff (c : Limits) :
    HexRoundTrip c digits ↔ varBitDataLen (4*digits.length : Nat) ≤ c.maxAttrSize := by
  have hb : bitNotHex "zpbit_in: " ('x' :: digits) = .ok false := rfl
  have hbits := hexBits_length digits
  constructor
  · rintro ⟨⟨made, hmade, hread, -⟩, -⟩
    have hfits := hread.fits
    rw [zpbitIn_plain hb, map_some_ok, inferredLength_hex (by omega)] at hmade
    exact (readDigits_iff.mp hmade).1
  · intro hle
    have hfits : 4 * digits.length < 2^31 := by
      have hlen := varBitDataLen_nat (4*digits.length)
      have hsmall := c.small
      omega
    obtain ⟨result, hresult, hsize, hstray, hbit⟩ := parseHex_spec digits hhex 0
      (zeroBlock (hexBits digits).length) (by change _ ≤ ((hexBits digits).length + 7) / 8; omega)
      fun i _ => BitVec.getMsbD_zero
    have hlength : inferredLength false ('x' :: digits) = (hexBits digits).length := hbits ▸ inferredLength_hex hfits
    obtain ⟨hread, hzpbit, hvarbit⟩ := read_both hb hlength hresult (hbits ▸ hle) hsize hstray
      fun i => (hbit i).trans (if_pos (Nat.zero_le _))
    have hprint := zpbitOut_digits hhex hread (congrArg Nat.cast hbits)
    exact ⟨⟨_, hzpbit, hread, hprint⟩, ⟨_, hvarbit, hread, hprint⟩⟩

end

/-! ## Both kinds of digits -/

/-- **Bit texts.** Binary digits come back iff there is no one from the sixteenth digit on, hexadecimal ones always. -/
theorem bit_text_iff (c : Limits) :
    (∀ w : List Bool, BitsRoundTrip c w ↔ ShortOnes w ∧ varBitDataLen w.length ≤ c.maxAttrSize) ∧
    (∀ digits, IsHex digits →
      (HexRoundTrip c digits ↔ varBitDataLen (4*digits.length : Nat) ≤ c.maxAttrSize)) :=
  ⟨fun _ => bitsRoundTrip_iff c, fun _ hhex => hexRoundTrip_iff hhex c⟩

def sampleLimits : Limits := ⟨8000, by decide⟩

theorem bit_text_iff_both :
    BitsRoundTrip sampleLimits [true, false, true] ∧ HexRoundTrip sampleLimits ['1', 'f', 'A'] := by
  have hshort : ShortOnes [true, false, true] := fun i hi => List.getD_eq_default _ _ (Nat.le_trans (by decide) hi)
  have hhex : ['1', 'f', 'A'].all (fun c => decide (hexValue c = some (digitOf c))) := by decide
  obtain ⟨hbits, htext⟩ := bit_text_iff sampleLimits
  refine ⟨(hbits _).mpr ⟨hshort, by decide⟩, (htext ['1', 'f', 'A'] fun c hc => ?_).mpr (by decide)⟩
  exact of_decide_eq_true (all_eq_true.mp hhex c hc)

/-- Fifteen zeros and a one: the one goes to a third byte, which the value does not have. -/
theorem sixteenth_digit_lost : ¬ BitsRoundTrip sampleLimits (List.replicate 15 false ++ [true]) := by
  rw [bitsRoundTrip_iff]
  rintro ⟨hshort, -⟩
  have hlast := hshort 15 (Nat.le_refl 15)
  revert hlast
  decide

end WeaverDB.VarBits
