import Mathlib.Data.Nat.Log
import Mathlib.Tactic.Ring
import WeaverDB.Java.Protocol

/-! # What a call stores lies inside its buffers

The block of the arguments is doubled once before an argument if 64 bytes are missing, whatever the
argument takes. In the buffer for the result Java stores nothing, since the stub does not tell it how
long the buffer is.
-/

namespace WeaverDB.Java
open Foundations List BitVec Option

variable {v : Value} {b : ArgBlock} {outcomes : Nat → Outcome} {p s : Nat}

/-- `createUpcallStub` describes `resultOut` as a plain `ADDRESS`, which is a segment of no bytes. -/
def resultOutSize : Nat := 0

/-- Offset and width of the accesses of `writeResult` and `writeError`. -/
def Outcome.accesses : Outcome → List (Nat × Nat)
  | .returns .null => [(0, 4), (4, 4), (8, 4)]
  | .returns (.object o) => [(0, 4), (4, 4), (8, 4)] ++ (List.range o.bytes.length).map (12 + ·, 1)
  | .returns v => [(0, 4), (4, 4), (8, 4), (12, v.width)]
  | .throws message => [(0, 4), (4, 4), (8, 4)] ++ (List.range message.bytes.length).map (12 + ·, 1)

/-- An access behind the end of the segment raises. -/
def Outcome.stored (o : Outcome) : List (Nat × Nat) :=
  o.accesses.takeWhile fun (offset, width) => offset + width ≤ resultOutSize

/-- Every byte is stored inside the block or the buffer. -/
structure Inside (args : List Value) (outcomes : Nat → Outcome) : Prop where
  arguments : (buildArgBlockForInvoker args).1.inside
  results : ∀ k, ∀ access ∈ (outcomes k).stored, access.1 + access.2 ≤ initialSize

/-- The least of the sizes `8192 * 2 ^ k` that leaves 64 bytes behind the first `p`. -/
def room (p : Nat) : Nat := 8192 * 2^Nat.clog 2 ((p+64 + 8191) / 8192)

/-- Every argument fits into `room`, up to one at which an allocation raises. -/
def ArgsFit : Nat → List Value → Prop
  | _, [] => True
  | p, v :: args => maxAllocSize < room p ∨ v.serializable = false ∨
      (p+v.entry.length ≤ room p ∧ ArgsFit (p+v.entry.length) args)

theorem le_room (p : Nat) : p + 64 ≤ room p := by
  have hclog := Nat.le_pow_clog (by decide : 1 < 2) ((p+64 + 8191) / 8192)
  unfold room
  omega

theorem room_le {k : Nat} (h : p + 64 ≤ 8192 * 2^k) : room p ≤ 8192 * 2^k := by
  have hclog : Nat.clog 2 ((p+64 + 8191) / 8192) ≤ k := by
    apply Nat.clog_le_of_le_pow
    omega
  exact Nat.mul_le_mul_left _ (Nat.pow_le_pow_right (by decide) hclog)

theorem room_mono {q : Nat} (h : p ≤ q) : room p ≤ room q := room_le ((Nat.add_le_add_right h 64).trans (le_room q))

structure Steady (b : ArgBlock) : Prop where
  inside : b.inside
  power : ∃ k, b.capacity = 8192 * 2^k
  needed : b.capacity ≤ room b.bytes.length
  fits : b.bytes.length ≤ b.capacity
  allowed : b.capacity ≤ maxAllocSize

theorem ArgBlock.makeRoom_cases {b' : ArgBlock} (h : b.makeRoom = some b') :
    b' = b ∨ (b.capacity*2 ≤ maxAllocSize ∧ b' = { b with capacity := b.capacity * 2 }) := by
  unfold ArgBlock.makeRoom at h
  split at h
  · obtain ⟨hmax, h⟩ := Option.ite_none_right_eq_some.mp h
    exact .inr ⟨hmax, (some.inj h).symm⟩
  · exact .inl (some.inj h).symm

theorem Steady.makeRoom (h : Steady b) : b.makeRoom =
    if room b.bytes.length ≤ maxAllocSize then some { b with capacity := room b.bytes.length }
    else none := by
  obtain ⟨k, hk⟩ := h.power
  have hpos : 0 < 2^k := Nat.two_pow_pos k
  have hfits := h.fits
  unfold ArgBlock.makeRoom
  by_cases hroom : b.capacity < b.bytes.length+64
  · -- what is less than a power of two is at most half of it
    have hle : room b.bytes.length ≤ b.capacity*2 := by
      rw [hk, Nat.mul_assoc, ← Nat.pow_succ]
      exact room_le (by rw [Nat.pow_succ]; omega)
    have hge : b.capacity * 2 ≤ room b.bytes.length := by
      have hlt := hroom.trans_le (le_room b.bytes.length)
      rw [hk, room] at hlt
      rw [hk, room, Nat.mul_assoc, ← Nat.pow_succ]
      exact Nat.mul_le_mul_left _ (Nat.pow_le_pow_right (by decide)
        ((Nat.pow_lt_pow_iff_right (by decide)).mp (Nat.lt_of_mul_lt_mul_left hlt)))
    rw [if_pos hroom, Nat.le_antisymm hge hle]
  · have heq : room b.bytes.length = b.capacity := by
      refine Nat.le_antisymm ?_ h.needed
      rw [hk]
      exact room_le (by omega)
    rw [if_neg hroom, heq, if_pos h.allowed]

theorem Steady.put (h : Steady b) (hroom : room b.bytes.length ≤ maxAllocSize) {data : List UInt8}
    (hdata : b.bytes.length + data.length ≤ room b.bytes.length) :
    Steady (.put { b with capacity := room b.bytes.length } data) where
  inside := by
    rw [ArgBlock.put, h.inside, decide_eq_true hdata]
    rfl
  power := ⟨_, rfl⟩
  needed := by
    rw [ArgBlock.put, length_append]
    exact room_mono (Nat.le_add_right _ _)
  fits := by
    rw [ArgBlock.put, length_append]
    exact hdata
  allowed := hroom

theorem buildArgs_keeps {P : ArgBlock → Prop} (args : List Value)
    (hdouble : ∀ b, b.capacity*2 ≤ maxAllocSize → P b → P { b with capacity := b.capacity * 2 })
    (hput : ∀ b data, P b → P (.put b data)) (h : P b) : P (buildArgs args b).1 := by
  induction args generalizing b with
  | nil => exact h
  | cons v args ih =>
    unfold buildArgs
    split
    · exact h
    · next b' hroom =>
      have hb' : P b' := by
        obtain rfl | ⟨hmax, rfl⟩ := ArgBlock.makeRoom_cases hroom
        · exact h
        · exact hdouble b hmax h
      split
      · exact ih (hput _ _ hb')
      · exact hb'

theorem buildArgs_outside (args : List Value) (h : b.inside = false) : (buildArgs args b).1.inside = false := by
  refine buildArgs_keeps (P := fun b => b.inside = false) args (fun _ _ => id) (fun b data hb => ?_) h
  rw [ArgBlock.put, hb, Bool.false_and]

theorem buildArgs_inside_iff (args : List Value) (h : Steady b) :
    (buildArgs args b).1.inside ↔ ArgsFit b.bytes.length args := by
  induction args generalizing b with
  | nil => exact iff_of_true h.inside trivial
  | cons v args ih =>
    unfold buildArgs ArgsFit
    rw [h.makeRoom]
    by_cases hroom : room b.bytes.length ≤ maxAllocSize
    · rw [if_pos hroom, or_iff_right (not_lt.mpr hroom)]
      cases hser : v.serializable with
      | false =>
        simp only [Bool.false_eq_true, if_false, true_or, iff_true]
        exact h.inside
      | true =>
        simp only [if_true, Bool.true_eq_false, false_or]
        by_cases hfits : b.bytes.length + v.entry.length ≤ room b.bytes.length
        · have hnext := ih (h.put hroom hfits)
          rw [hnext, and_iff_right hfits, ArgBlock.put, length_append]
        · refine iff_of_false (Bool.eq_false_iff.mp (buildArgs_outside _ ?_)) fun hin => hfits hin.1
          rw [ArgBlock.put, decide_eq_false hfits, Bool.and_false]
    · rw [if_neg hroom]
      exact iff_of_true h.inside (.inl (Nat.lt_of_not_le hroom))

theorem steady_emptyBlock : Steady emptyBlock where
  inside := rfl
  power := ⟨0, rfl⟩
  needed := by decide
  fits := by decide
  allowed := by decide

theorem capacity_buildArgs (args : List Value) (h : 4 ≤ b.capacity ∧ b.capacity ≤ maxAllocSize) :
    4 ≤ (buildArgs args b).1.capacity ∧ (buildArgs args b).1.capacity ≤ maxAllocSize := by
  refine buildArgs_keeps (P := fun b => 4 ≤ b.capacity ∧ b.capacity ≤ maxAllocSize) args
    (fun b hmax hb => ⟨?_, hmax⟩) (fun _ _ => id) h
  exact hb.1.trans (Nat.le_mul_of_pos_right _ (by decide))

theorem built_inside_iff (args : List Value) : (buildArgBlockForInvoker args).1.inside ↔ ArgsFit 4 args := by
  have hcapacity := (capacity_buildArgs (b := emptyBlock) args (by decide)).1
  have hbuild := buildArgs_inside_iff args steady_emptyBlock
  rw [show emptyBlock.bytes.length = 4 from rfl] at hbuild
  rw [← hbuild, buildArgBlockForInvoker]
  dsimp only
  split
  · rfl
  · simp [hcapacity]

theorem Value.length_data_lt (v : Value) : v.data.length < 2^31 := by
  cases v with
  | object o => exact o.length_lt
  | null => decide
  | bool z => exact (by decide : 1 < 2^31)
  | int4 i | int8 i | float8 i =>
    rw [Value.data, length_leBytes]
    decide

variable (k : Kind)

theorem length_entry (data : List UInt8) : (entry k data).length = 8+data.length := by
  rw [entry, length_append, length_append, length_leBytes, length_leBytes]
  omega

theorem length_block (v : Value) : (Outcome.returns v).block.length = 12+v.data.length := by
  rw [Outcome.block, length_append, length_leBytes, Value.entry, length_entry]
  omega

theorem intAt_take (l : List UInt8) (h : p + 4 ≤ s) : intAt (l.take s) p = intAt l p := by
  rw [intAt, intAt, readAt, readAt, drop_take, take_take, min_eq_left (by omega)]

theorem readAt_behind {α : Type} (l m r : List α) {n : Nat} (hp : l.length = p) (hn : m.length = n) :
    readAt (l ++ (m ++ r)) p n = m := by
  rw [readAt_skip _ _ n (by rw [hp, add_zero] : l.length + 0 = p), readAt_here _ _ hn]

variable {l : List UInt8}

theorem intAt_leBytes (l r : List UInt8) {n : Nat} (hp : l.length = p) :
    intAt (l ++ (leBytes 4 n ++ r)) p = .ofNat 32 n := by
  rw [intAt, readAt_behind _ _ _ hp (length_leBytes 4 n), leValue_leBytes]
  apply eq_of_toNat_eq
  simp

variable (data r : List UInt8)

theorem intAt_tag (hp : l.length = p) : intAt (l ++ (entry k data ++ r)) p = k.tag := by
  rw [entry, List.append_assoc, intAt_leBytes _ _ hp, BitVec.ofNat_toNat, BitVec.setWidth_eq]

theorem intAt_length (hp : l.length + 4 = p) : intAt (l ++ (entry k data ++ r)) p = .ofNat 32 data.length := by
  rw [entry, List.append_assoc, ← List.append_assoc l]
  exact intAt_leBytes _ _ (by rw [List.length_append, length_leBytes, hp])

theorem Outcome.block_eq (v : Value) : (Outcome.returns v).block = leBytes 4 1 ++ (Java.entry v.kind v.data ++ []) := by
  rw [append_nil]
  rfl

theorem intAt_block (v : Value) (hs : 12 ≤ s) : intAt ((Outcome.returns v).block.take s) 0 = 1 ∧
      intAt ((Outcome.returns v).block.take s) 8 = BitVec.ofNat 32 v.data.length := by
  rw [intAt_take _ (by omega), intAt_take _ (by omega), Outcome.block_eq]
  exact ⟨intAt_leBytes [] _ rfl, intAt_length _ _ _ (by rw [length_leBytes])⟩

theorem toInt_ofNat_length (v : Value) : (BitVec.ofNat 32 v.data.length).toInt = v.data.length := by
  rw [toInt_ofNat']
  exact Int.bmod_eq_of_le (by omega) (by have := v.length_data_lt; omega)

theorem inspect_block (v : Value) (hs : 12 ≤ s) (hmax : s ≤ maxAllocSize) :
    inspectWrittenResultSize ((Outcome.returns v).block.take s) s =
      if (Outcome.returns v).block.length ≤ s then ((Outcome.returns v).block.length : Int)
      else (((Outcome.returns v).block.length : Int).bmod (2^32) + 1024).bmod (2^32) := by
  obtain ⟨hnum, hlen⟩ := intAt_block v hs
  have hneeded : ((4+8 : Nat) : Int) + (BitVec.ofNat 32 v.data.length).toInt =
      ((Outcome.returns v).block.length : Int) := by
    rw [toInt_ofNat_length, length_block]
    push_cast
    rfl
  have hone : (1 : BitVec 32).toNat = 1 := rfl
  rw [inspectWrittenResultSize, if_neg (by omega), hnum, if_neg (by decide), hone, inspectValues,
    if_neg (by omega), hlen]
  simp only [hneeded]
  by_cases hfits : (Outcome.returns v).block.length ≤ s
  · rw [if_neg (by omega), if_pos hfits, inspectValues]
    exact Int.bmod_eq_of_le (by omega) (by unfold maxAllocSize at hmax; omega)
  · rw [if_pos (by omega), if_neg hfits]

theorem stored_eq_nil (o : Outcome) : o.stored = [] := by
  cases o with
  | throws message => rfl
  | returns v => cases v <;> rfl

/-- **What a call stores.** The condition is about the arguments alone. -/
theorem call_inside_iff (args : List Value) (outcomes : Nat → Outcome) : Inside args outcomes ↔ ArgsFit 4 args := by
  rw [← built_inside_iff]
  refine ⟨fun h => h.arguments, fun h => ⟨h, fun k access hmem => ?_⟩⟩
  rw [stored_eq_nil] at hmem
  exact absurd hmem not_mem_nil

theorem not_argsFit_object {o : JavaBytes} (h : o.bytes.length = 8181) : ¬ ArgsFit 4 [.object o] := by
  have hroom : room 4 = 8192 := by decide
  have hentry : (Value.object o).entry.length = 8189 := (length_entry _ _).trans (congrArg (8 + ·) h)
  rintro (hbig | hraises | ⟨hfits, _⟩)
  · exact absurd hbig (by rw [hroom]; decide)
  · rw [Value.serializable, h] at hraises
    exact absurd hraises (by decide)
  · rw [hentry, hroom] at hfits
    exact absurd hfits (by decide)

/-- An object of 8181 bytes as the first argument is stored beyond the 8192 bytes of the block. -/
theorem large_argument_outside : ¬ Inside [.object ⟨List.replicate 8181 0, by rw [length_replicate]; decide⟩] fun _ =>
    .returns .null :=
  fun h => not_argsFit_object length_replicate ((built_inside_iff _).mp h.arguments)

end WeaverDB.Java
