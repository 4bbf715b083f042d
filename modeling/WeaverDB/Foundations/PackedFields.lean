import Mathlib.Data.Nat.Bitwise
import Mathlib.Data.BitVec

/-! # Fixed-width fields packed into one machine word

A field of `k` bits sits `sh` bits above the low end of a `w`-bit word. `deposit` clears the bits of
`mask` in it and ors a value in: a field is overwritten with `mask` all ones, and bits are added with
`mask` zero.
-/

namespace WeaverDB.PackedFields
open BitVec

variable {w : Nat}

def ones (w k : Nat) : BitVec w := BitVec.ofNat w (2^k - 1)

def fetch (k : Nat) (ref : BitVec w) (sh : Nat) : BitVec w := (ref >>> sh) &&& ones w k

def deposit (ref mask seg : BitVec w) (sh : Nat) : BitVec w := (ref &&& ~~~(mask <<< sh)) ||| (seg <<< sh)

def Within (k : Nat) (v : BitVec w) : Prop := ∀ i, k ≤ i → v.getLsbD i = false

variable {k i sh : Nat}

theorem within_of_lt (k : Nat) (v : BitVec w) (h : v.toNat < 2^k) : Within k v := by
  intro i hi
  exact Nat.testBit_lt_two_pow (h.trans_le (Nat.pow_le_pow_right (by decide) hi))

theorem getLsbD_ones (k i : Nat) (hi : i < w) : (ones w k).getLsbD i = decide (i < k) := by
  rw [ones, getLsbD_ofNat]
  simp [hi]

theorem getLsbD_fetch (k : Nat) (ref : BitVec w) (sh : Nat) (hi : i < w) :
    (fetch k ref sh).getLsbD i = (decide (i < k) && ref.getLsbD (sh+i)) := by
  rw [fetch, getLsbD_and, getLsbD_ushiftRight, getLsbD_ones k i hi, Bool.and_comm]

theorem fetch_lt (k : Nat) (ref : BitVec w) (sh : Nat) : (fetch k ref sh).toNat < 2^k := by
  have hpos : 0 < 2^k := Nat.two_pow_pos k
  have hle : (fetch k ref sh).toNat ≤ (ones w k).toNat := by
    exact Nat.and_le_right
  have hones : (ones w k).toNat ≤ 2^k - 1 := by
    exact Nat.mod_le _ _
  omega

variable (ref mask seg : BitVec w)

theorem getLsbD_deposit (hi : sh + i < w) : (deposit ref mask seg sh).getLsbD (sh+i) =
      ((ref.getLsbD (sh+i) && !mask.getLsbD i) || seg.getLsbD i) := by
  have hlt : ¬ sh + i < sh := by omega
  rw [deposit, getLsbD_or, getLsbD_and, getLsbD_not, getLsbD_shiftLeft, getLsbD_shiftLeft, Nat.add_sub_cancel_left]
  simp only [hi, hlt, decide_true, decide_false, Bool.not_false, Bool.true_and]

theorem getLsbD_deposit_lt (hi : i < w) (h : i < sh) : (deposit ref mask seg sh).getLsbD i = ref.getLsbD i := by
  simp [deposit, hi, h]

theorem fetch_deposit (ref mask : BitVec w) {seg : BitVec w} (hk : sh + k ≤ w) (hs : Within k seg) :
    fetch k (deposit ref mask seg sh) sh = (fetch k ref sh &&& ~~~mask) ||| seg := by
  apply eq_of_getLsbD_eq
  intro i hi
  rw [getLsbD_fetch k _ sh hi, getLsbD_or, getLsbD_and, getLsbD_fetch k _ sh hi]
  by_cases hik : i < k
  · rw [getLsbD_deposit ref mask seg (by omega)]
    simp [hik, hi]
  · rw [hs i (by omega)]
    simp [hik]

theorem fetch_deposit_of_disjoint (ref : BitVec w) {mask seg : BitVec w} {sh' : Nat}
    (hk : sh' + k ≤ w) (hm : Within k mask) (hs : Within k seg) (hd : sh' + k ≤ sh ∨ sh + k ≤ sh') :
    fetch k (deposit ref mask seg sh) sh' = fetch k ref sh' := by
  apply eq_of_getLsbD_eq
  intro i hi
  rw [getLsbD_fetch k _ sh' hi, getLsbD_fetch k _ sh' hi]
  by_cases hik : i < k
  · cases hd with
    | inl h => rw [getLsbD_deposit_lt ref mask seg (by omega) (by omega)]
    | inr h =>
      obtain ⟨d, hd⟩ : ∃ d, sh'+i = sh+d := ⟨sh' + i - sh, by omega⟩
      rw [hd, getLsbD_deposit ref mask seg (by omega), hm d (by omega), hs d (by omega)]
      simp
  · simp [hik]

end WeaverDB.PackedFields
