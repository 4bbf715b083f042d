import Mathlib.Algebra.Group.Int.Defs
import Mathlib.Algebra.Group.Nat.Defs
import WeaverDB.Foundations.Blocks

/-! # Bit strings

A bit string is stored in whole bytes behind the number of its bits. It is well formed if there are just
enough bytes and the padding is zero; then `biteq`, which compares the bytes, compares the bits.
-/

namespace WeaverDB.VarBits
open Foundations List

abbrev Bits8 := BitVec 8

def int32 (x : Int) : Int := x.bmod (2^32)

/-- `bitlen` is `VARBITLEN`, and there are `VARBITBYTES` bytes. -/
structure VarBit where
  bitlen : Int
  bytes : List Bits8
deriving DecidableEq

/-- `VARBITDATALEN`; `/` and `%` round towards zero, the headers take 8 bytes. -/
def varBitDataLen (bitlen : Int) : Int := bitlen.tdiv 8 + (if 0 < bitlen.tmod 8 then 1 else 0) + 8

def varBitBytes (bitlen : Int) : Nat := (varBitDataLen bitlen - 8).toNat

namespace VarBit

variable (b : VarBit)

def data (i : Nat) : Bits8 := b.bytes.getD i 0

def pad : Int := b.bytes.length * 8 - b.bitlen

def bit (i : Nat) : Bool := (b.data (i/8)).getMsbD (i % 8)

def bits : List Bool := (List.range b.bitlen.toNat).map b.bit

structure WellFormed : Prop where
  nonneg : 0 ≤ b.bitlen
  fits : b.bitlen < 2^31
  bytes : b.bytes.length = (b.bitlen.toNat+7) / 8
  padding : ∀ i, b.bitlen.toNat ≤ i → b.bit i = false

end VarBit

structure BitString extends VarBit where
  wellFormed : toVarBit.WellFormed

theorem varBitBytes_eq (n : Nat) : varBitBytes n = (n+7) / 8 := by
  rw [varBitBytes, varBitDataLen, Int.tdiv_eq_ediv_of_nonneg (by omega), Int.tmod_eq_emod_of_nonneg (by omega)]
  split <;> omega

namespace VarBit

variable {b : VarBit}

theorem bits_length : b.bits.length = b.bitlen.toNat := by
  rw [bits, length_map, length_range]

theorem bits_getD (i : Nat) : b.bits.getD i false = (decide (i < b.bitlen.toNat) && b.bit i) := by
  by_cases h : i < b.bitlen.toNat
  · rw [getD_eq_getElem _ _ (by rw [bits_length]; exact h), decide_eq_true h, Bool.true_and]
    simp only [bits, getElem_map, getElem_range]
  · rw [getD_eq_default _ _ (by rw [bits_length]; omega), decide_eq_false h, Bool.false_and]

theorem WellFormed.getD (h : b.WellFormed) (i : Nat) : b.bits.getD i false = b.bit i := by
  rw [bits_getD]
  by_cases hi : i < b.bitlen.toNat
  · rw [decide_eq_true hi, Bool.true_and]
  · rw [h.padding i (Nat.not_lt.mp hi), Bool.and_false]

theorem of_bit {l : List Bool} (hlen : b.bitlen = l.length) (hfits : l.length < 2^31)
    (hbytes : b.bytes.length = (l.length+7) / 8) (hbit : ∀ i, b.bit i = l.getD i false) :
    b.WellFormed ∧ b.bits = l := by
  have hn : b.bitlen.toNat = l.length := by omega
  refine ⟨⟨by omega, by omega, by rw [hbytes, hn], fun i hi => ?_⟩, ?_⟩
  · rw [hbit, getD_eq_default _ _ (by omega)]
  · apply ext_getElem
    · rw [bits_length, hn]
    · intro i h₁ h₂
      have hi := hbit i
      rw [getD_eq_getElem _ _ h₂] at hi
      simp only [bits, getElem_map, getElem_range, hi]

theorem bit_of_byte (i j : Nat) (hj : j < 8) : b.bit (8 * i + j) = (b.data i).getMsbD j := by
  have hdiv : (8 * i + j) / 8 = i := by omega
  have hmod : (8 * i + j) % 8 = j := by omega
  rw [bit, hdiv, hmod]

theorem bit_of_ge {i : Nat} (h : 8 * b.bytes.length ≤ i) : b.bit i = false := by
  rw [bit, data, getD_eq_default _ _ (by omega)]
  exact BitVec.getMsbD_zero

theorem ext_bit {a : VarBit} (hlen : a.bitlen = b.bitlen) (hbytes : a.bytes.length = b.bytes.length)
    (hbit : ∀ i, a.bit i = b.bit i) : a = b := by
  cases a with | mk alen abytes =>
  cases b with | mk blen bbytes =>
  have heq : abytes = bbytes := by
    apply ext_getElem hbytes
    intro i h₁ h₂
    apply BitVec.eq_of_getMsbD_eq
    intro j hj
    have hi := hbit (8 * i + j)
    rw [bit_of_byte i j hj, bit_of_byte i j hj, data, data, getD_eq_getElem _ _ h₁, getD_eq_getElem _ _ h₂] at hi
    exact hi
  have hlen : alen = blen := hlen
  rw [heq, hlen]

end VarBit

def memcmp (a b : Nat → Bits8) : Nat → Nat → Int
  | _, 0 => 0
  | i, n+1 => if a i = b i then memcmp a b (i+1) n else if a i < b i then -1 else 1

def biteq (arg1 arg2 : VarBit) : Bool :=
  if arg1.bitlen ≠ arg2.bitlen then false else memcmp arg1.data arg2.data 0 arg1.bytes.length = 0

theorem memcmp_eq_zero (a b : Nat → Bits8) (i n : Nat) : memcmp a b i n = 0 ↔ ∀ j, i ≤ j → j < i+n → a j = b j := by
  induction n generalizing i with
  | zero =>
    refine ⟨fun _ j h₁ h₂ => ?_, fun _ => rfl⟩
    omega
  | succ n ih =>
    rw [memcmp]
    split
    · next heq =>
      rw [ih]
      constructor
      · intro h j h₁ h₂
        obtain rfl | hlt := Nat.eq_or_lt_of_le h₁
        · exact heq
        · exact h j hlt (by omega)
      · intro h j h₁ h₂
        exact h j (by omega) (by omega)
    · next hne =>
      refine ⟨fun h => ?_, fun h => absurd (h i (Nat.le_refl i) (by omega)) hne⟩
      split at h <;> omega

theorem biteq_iff {a b : VarBit} (ha : a.WellFormed) (hb : b.WellFormed) : biteq a b ↔ a.bits = b.bits := by
  rw [biteq]
  split
  · next hne =>
    refine ⟨nofun, fun heq => absurd ?_ hne⟩
    have hlen := congrArg List.length heq
    rw [VarBit.bits_length, VarBit.bits_length] at hlen
    have h₁ := ha.nonneg
    have h₂ := hb.nonneg
    omega
  · next heq =>
    have hlen : a.bitlen = b.bitlen := Decidable.not_not.mp heq
    have hbytes : a.bytes.length = b.bytes.length := by rw [ha.bytes, hb.bytes, hlen]
    rw [decide_eq_true_iff, memcmp_eq_zero]
    constructor
    · intro h
      have hsame : a = b := VarBit.ext_bit hlen hbytes fun i => by
        by_cases hi : i / 8 < a.bytes.length
        · rw [VarBit.bit, VarBit.bit, h (i/8) (Nat.zero_le _) (by omega)]
        · rw [VarBit.bit_of_ge (by omega), VarBit.bit_of_ge (by omega)]
      rw [hsame]
    · intro h j _ _
      have hsame : a = b := VarBit.ext_bit hlen hbytes fun i => by
        rw [← ha.getD, ← hb.getD, h]
      rw [hsame]

end WeaverDB.VarBits
