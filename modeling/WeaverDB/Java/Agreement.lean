import WeaverDB.Java.Bounds

/-! # The two sides of the protocol agree

Fields are packed without padding, and Java accesses numbers only at multiples of their width. So what
stands before an argument decides whether it can be read, and a `Long` or a `Double`, at the offset 12,
cannot be stored as a result.
-/

namespace WeaverDB.Java
open Foundations List BitVec Nat Option

variable {v : Value} {b : ArgBlock}

structure Agrees (args : List Value) (result : Value) : Prop where
  arguments : parseArguments (buildArgBlockForInvoker args).1.bytes
    (buildArgBlockForInvoker args).1.bytes.length = some args
  result : ∃ block, writeResult result = some block ∧ parseInvokerResult block block.length = .ok result

/-- Every entry starts at a multiple of 4, the data of a number at one of its width. -/
def Aligned : Nat → List Value → Prop
  | _, [] => True
  | p, v :: args => p % 4 = 0 ∧ (p+8) % v.width = 0 ∧ Aligned (p+8 + v.data.length) args

variable {args : List Value} {seg : List UInt8}

theorem bytes_buildArgs (h : (buildArgs args b).2 = false) :
    (buildArgs args b).1.bytes = b.bytes ++ args.flatMap Value.entry := by
  induction args generalizing b with
  | nil => exact (List.append_nil _).symm
  | cons v args ih =>
    unfold buildArgs at h ⊢
    rw [List.flatMap_cons, ← List.append_assoc]
    split at h
    · nomatch h
    · next b' hroom =>
      have hbytes : b'.bytes = b.bytes := by
        rcases ArgBlock.makeRoom_cases hroom with rfl | ⟨-, rfl⟩ <;> rfl
      split at h
      · next hser =>
        rw [if_pos hser, ih h, ArgBlock.put, hbytes]
      · nomatch h

theorem bytes_block (h : (buildArgBlockForInvoker args).2 = false) :
    (buildArgBlockForInvoker args).1.bytes = leBytes 4 args.length ++ args.flatMap Value.entry := by
  unfold buildArgBlockForInvoker at h ⊢
  cases hraised : (buildArgs args emptyBlock).2 with
  | true =>
    simp only [hraised, if_true] at h
    nomatch h
  | false =>
    simp only
    rw [if_neg (by rw [hraised]; decide), bytes_buildArgs hraised]
    exact overwrite_piece [] (leBytes 4 0) _ rfl

theorem length_le_flatMap (args : List Value) : args.length ≤ (args.flatMap Value.entry).length := by
  induction args with
  | nil => exact le_refl 0
  | cons v args ih =>
    rw [flatMap_cons, length_append, length_cons, Value.entry, length_entry]
    omega

theorem ofNat_leValue {w : Nat} (k : Nat) (hk : 256^k = 2^w) (x : BitVec w) :
    .ofNat w (leValue (leBytes k x.toNat)) = x := by
  rw [leValue_leBytes, hk, toNat_mod_cancel, ofNat_toNat, setWidth_eq]

theorem toNat_length (v : Value) : (BitVec.ofNat 32 v.data.length).toNat = v.data.length :=
  toNat_ofNat .. |>.trans (mod_eq_of_lt (v.length_data_lt.trans (by decide)))

theorem readBytes_eq (o : JavaBytes) {p : Nat} (h : readAt seg p o.bytes.length = o.bytes) :
    readBytes seg p (.ofNat 32 o.bytes.length) = some o := by
  have hnat : (BitVec.ofNat 32 o.bytes.length).toNat = o.bytes.length := toNat_length (.object o)
  rw [readBytes, dif_pos (by rw [hnat]; exact o.length_lt)]
  apply congrArg some
  apply JavaBytes.ext
  change readAt seg p (BitVec.ofNat 32 o.bytes.length).toNat = o.bytes
  rw [hnat, h]

theorem parseArgument_eq {p : Nat} (h : readAt seg p v.data.length = v.data) :
    parseArgument seg v.kind.tag (.ofNat 32 v.data.length) p =
      if p % v.width = 0 then some (v, p+v.data.length) else none := by
  rw [parseArgument, kindOf_tag]
  cases v with
  | null => exact (if_pos (mod_one p)).symm
  | int4 i =>
    rw [Value.data, length_leBytes] at h
    simp only [Value.kind, readInt4, segmentGet, Value.width, Value.data, length_leBytes, h]
    split
    · simp only [map_some, ofNat_leValue 4 rfl i]
    · rfl
  | int8 j | float8 j =>
    rw [Value.data, length_leBytes] at h
    simp only [Value.kind, readInt8, segmentGet, Value.width, Value.data, length_leBytes, h]
    split
    · simp only [map_some, ofNat_leValue 8 rfl j]
    · rfl
  | bool z =>
    have hread : readAt seg p 1 = [if z then 1 else 0] := h
    simp only [Value.kind, readBool, segmentGet, Value.width, mod_one, if_true, hread]
    cases z <;> rfl
  | object o =>
    simp only [Value.kind, Value.width, Value.data, mod_one, if_true]
    have hlen : (BitVec.ofNat 32 o.bytes.length).toNat = o.bytes.length := toNat_length (.object o)
    rw [readBytes_eq o h, map_some, hlen]

theorem readInt4_eq (seg : List UInt8) (p : Nat) : readInt4 seg p = if p % 4 = 0 then some (intAt seg p) else none := by
  rw [readInt4, segmentGet]
  split <;> rfl

theorem parseLoop_iff (args : List Value) (l : List UInt8) :
    parseLoop (l ++ args.flatMap Value.entry) (l ++ args.flatMap Value.entry).length args.length
      l.length = some args ↔ Aligned l.length args := by
  induction args generalizing l with
  | nil => exact iff_of_true rfl trivial
  | cons v args ih =>
    have hseg : l ++ (v :: args).flatMap Value.entry = l ++ (entry v.kind v.data ++ args.flatMap Value.entry) := rfl
    have hnext := ih (l ++ v.entry)
    have hlength : (l ++ v.entry).length = l.length + 8 + v.data.length := by
      rw [List.length_append, Value.entry, length_entry, add_assoc]
    rw [hlength, List.append_assoc] at hnext
    rw [hseg, List.length_cons, parseLoop, Aligned, ← hnext, readInt4_eq, readInt4_eq,
      intAt_tag _ _ _ rfl, intAt_length _ _ _ rfl]
    have hroom : ¬ (l ++ (entry v.kind v.data ++ args.flatMap Value.entry)).length < l.length+8 := by
      rw [List.length_append, List.length_append, length_entry]
      omega
    have hdata : readAt (l ++ (entry v.kind v.data ++ args.flatMap Value.entry)) (l.length+8)
        v.data.length = v.data := by
      rw [entry, List.append_assoc, List.append_assoc, ← List.append_assoc l, ← List.append_assoc]
      exact readAt_behind _ _ _ (by simp [length_leBytes]) rfl
    rw [if_neg hroom]
    by_cases hentry : l.length % 4 = 0
    · simp only [if_pos hentry, if_pos (by omega : (l.length+4) % 4 = 0), Option.bind_eq_bind,
        Option.bind_some, parseArgument_eq hdata]
      by_cases hwidth : (l.length+8) % v.width = 0
      · simp [hentry, hwidth, Value.entry, Option.bind_eq_some_iff]
      · rw [if_neg hwidth]
        exact iff_of_false (Option.some_ne_none _).symm fun h => hwidth h.2.1
    · rw [if_neg hentry]
      exact iff_of_false (Option.some_ne_none _).symm fun h => hentry h.1

theorem parseArguments_iff (h : (buildArgBlockForInvoker args).2 = false)
    (hfits : (buildArgBlockForInvoker args).1.bytes.length ≤ (buildArgBlockForInvoker args).1.capacity) :
    parseArguments (buildArgBlockForInvoker args).1.bytes (buildArgBlockForInvoker args).1.bytes.length =
      some args ↔ Aligned 4 args := by
  have hmax : (buildArgBlockForInvoker args).1.capacity ≤ maxAllocSize := by
    have hbounds := (capacity_buildArgs (b := emptyBlock) args (by decide)).2
    unfold buildArgBlockForInvoker
    simp only
    split <;> exact hbounds
  have hcount := length_le_flatMap args
  rw [bytes_block h] at hfits ⊢
  rw [length_append, length_leBytes] at hfits
  have hnum : (BitVec.ofNat 32 args.length).toNat = args.length := by
    rw [toNat_ofNat]
    exact mod_eq_of_lt (by unfold maxAllocSize at hmax; omega)
  have hloop := parseLoop_iff args (leBytes 4 args.length)
  rw [length_leBytes] at hloop
  rw [parseArguments, if_neg (by rw [length_append, length_leBytes]; omega), readInt4_eq, if_pos rfl, ← hloop]
  have hint : intAt (leBytes 4 args.length ++ args.flatMap Value.entry) 0 = BitVec.ofNat 32 args.length :=
    intAt_leBytes [] _ rfl
  simp only [hint, bind_eq_bind, bind_some, hnum]

theorem writeResult_eq (v : Value) :
    writeResult v = if 12 % v.width = 0 then some (Outcome.returns v).block else none := by
  have hblock : (Outcome.returns v).block = leBytes 4 1 ++ leBytes 4 v.kind.tag.toNat ++
      leBytes 4 v.data.length ++ v.data := by
    simp [Outcome.block, Value.entry, entry]
  rw [hblock]
  simp [writeResult, segmentSet, length_leBytes]

theorem parseInvokerResult_block (h : 12 % v.width = 0) :
    parseInvokerResult (Outcome.returns v).block (Outcome.returns v).block.length = .ok v ↔
      v.kind ≠ .javaObject ∨ v.data ≠ [] := by
  have htake : (Outcome.returns v).block.take (12+v.data.length) = (Outcome.returns v).block :=
    List.take_of_length_le ((length_block v).le)
  obtain ⟨hnum, hlen⟩ := intAt_block v (le_add_right 12 v.data.length)
  rw [htake] at hnum hlen
  have htag : intAt (Outcome.returns v).block 4 = v.kind.tag := by
    rw [Outcome.block_eq]
    exact intAt_tag _ _ _ (length_leBytes ..)
  have hdata : readAt (Outcome.returns v).block 12 v.data.length = v.data := by
    rw [Outcome.block_eq, entry, List.append_assoc, List.append_assoc, ← List.append_assoc, ← List.append_assoc]
    exact readAt_behind _ _ _ (by simp [length_leBytes]) rfl
  rw [parseInvokerResult, length_block, if_neg (by omega), hnum, if_neg (by decide),
    if_neg (by omega), htag, hlen, kindOf_tag]
  cases v with
  | null => exact iff_of_true rfl (.inl Kind.noConfusion)
  | int4 i =>
    rw [Value.data, length_leBytes] at hdata
    refine iff_of_true ?_ (.inl Kind.noConfusion)
    simp only [Value.kind, intAt, hdata, ofNat_leValue 4 rfl i]
  | int8 j | float8 j => exact absurd h (by decide : ¬ 12 % 8 = 0)
  | bool z =>
    have hread : readAt (Outcome.returns (.bool z)).block 12 1 = [if z then 1 else 0] := hdata
    refine iff_of_true ?_ (.inl Kind.noConfusion)
    simp only [Value.kind, hread]
    cases z <;> rfl
  | object o =>
    have hread := readBytes_eq o hdata
    have hzero : BitVec.ofNat 32 o.bytes.length = 0 ↔ o.bytes = [] := by
      have hnat : (BitVec.ofNat 32 o.bytes.length).toNat = o.bytes.length := toNat_length (.object o)
      rw [← BitVec.toNat_inj, hnat]
      exact List.length_eq_zero_iff
    have hdata' : (Value.object o).data = o.bytes := rfl
    simp only [hdata', Value.kind, hread]
    by_cases hnil : o.bytes = []
    · simp [hnil]
    · simp only [hnil, not_false_eq_true, iff_true, ite_eq_right_iff, not_true_eq_false, ne_eq, false_or]
      exact fun hz => absurd (hzero.mp hz) hnil

/-- **The protocol.** Java reads what the server packed, and the server what Java stored. -/
theorem protocol_agrees_iff (args : List Value) (result : Value) (h : (buildArgBlockForInvoker args).2 = false)
    (hfits : (buildArgBlockForInvoker args).1.bytes.length ≤ (buildArgBlockForInvoker args).1.capacity) :
    Agrees args result ↔ Aligned 4 args ∧ result.width ≠ 8 ∧
      (result.kind ≠ .javaObject ∨ result.data ≠ []) := by
  have hwidth : 12 % result.width = 0 ↔ result.width ≠ 8 := by
    cases result <;> simp [Value.width]
  rw [← parseArguments_iff h hfits, ← hwidth]
  constructor
  · rintro ⟨hargs, block, hblock, hresult⟩
    rw [writeResult_eq] at hblock
    split at hblock
    · next haligned =>
      cases hblock
      exact ⟨hargs, haligned, (parseInvokerResult_block haligned).mp hresult⟩
    · nomatch hblock
  · rintro ⟨hargs, haligned, hresult⟩
    refine ⟨hargs, _, ?_, (parseInvokerResult_block haligned).mpr hresult⟩
    rw [writeResult_eq, if_pos haligned]

theorem protocol_agrees_iff_int4 : Agrees [.int4 7, .int8 9, .null, .bool true] (.int4 8) :=
  (protocol_agrees_iff [.int4 7, .int8 9, .null, .bool true] (.int4 8) (by decide) (by decide)).mpr
    ⟨⟨rfl, rfl, rfl, rfl, rfl, rfl, rfl, rfl, trivial⟩, by decide, .inl (by decide)⟩

/-- An `int8` argument stands at the offset 12. -/
theorem int8_argument_not_read : parseArguments (buildArgBlockForInvoker [.int8 7]).1.bytes
      (buildArgBlockForInvoker [.int8 7]).1.bytes.length = none ∧ ¬ Agrees [.int8 7] .null := by
  have hread : parseArguments (buildArgBlockForInvoker [.int8 7]).1.bytes
      (buildArgBlockForInvoker [.int8 7]).1.bytes.length = none := by decide
  refine ⟨hread, fun h => ?_⟩
  rw [h.arguments] at hread
  nomatch hread

end WeaverDB.Java
