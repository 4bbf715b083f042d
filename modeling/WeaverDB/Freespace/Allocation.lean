import WeaverDB.Foundations.Runs

/-! # Allocating index blocks (`freespace.c`)

`AllocateMoreSpace` hands out the blocks that the entry of the index remembers. When none is left,
`PerformAllocation` returns the first of the new ones, but remembers all from the first on, so the next
call returns it again.
-/

namespace WeaverDB.Freespace
open Foundations Option

/-- `blocks` are the `tryblock` of each run, `extender` is the thread that allocates. -/
structure FreeSpace where
  blocks : List Nat
  pointer : Nat
  extender : Option (Nat × Nat)
  endScanned : Bool

/-- `returned` are the block numbers returned so far. -/
structure Index where
  freespace : Option FreeSpace
  nblocks : Nat
  returned : List Nat

def findFreespace (myxactonly : Bool) (nblocks : Nat) : Index where
  freespace := if myxactonly then none else some ⟨[], 0, none, false⟩
  nblocks := nblocks
  returned := []

/-- The empty blocks at the end of the first `count`; `free` others were found behind them. A block that
cannot be read is passed over. -/
def findEndSpace (empty : Nat → Option Bool) (nextExtent free : Nat) : Nat → Nat
  | 0 => free
  | count + 1 =>
    match empty count with
    | some false => free
    | some true =>
      if nextExtent * 10 < free + 1 then free + 1
      else findEndSpace empty nextExtent (free+1) count
    | none => findEndSpace empty nextExtent free count

def performAllocation (s : Index) (endScanned : Bool) (empty : Nat → Option Bool) (size : Nat) : Index :=
  let scan : Bool := decide (0 < s.nblocks) && !endScanned
  let found := if scan then findEndSpace empty size 0 s.nblocks else 0
  let nblock := s.nblocks-found
  let allocated := if 0 < found then 0 else size
  { freespace := some ⟨List.range' nblock (found+allocated), 0, none, endScanned || scan⟩
    nblocks := s.nblocks+allocated
    returned := s.returned ++ [nblock] }

/-- `allocateMoreSpace` is up to the release of `accessor`, `performAllocation` the rest. -/
inductive Call where
  | allocateMoreSpace (thread recommend : Nat)
  | performAllocation (thread : Nat) (empty : Nat → Option Bool)

/-- A thread that finds another one extending the relation waits. -/
def next (s : Index) : Call → Option Index
  | .allocateMoreSpace thread recommend =>
    match s.freespace with
    | none => some { s with nblocks := s.nblocks+1, returned := s.returned ++ [s.nblocks] }
    | some ⟨blocks, pointer, none, scanned⟩ =>
      match blocks[pointer]? with
      | some nb => some
          { s with
            freespace := some ⟨blocks, pointer+1, none, scanned⟩
            returned := s.returned ++ [nb] }
      | none =>
        if 0 < recommend then
          some { s with freespace := some ⟨blocks, pointer, some (thread, recommend), scanned⟩ }
        else none
    | _ => none
  | .performAllocation thread empty =>
    match s.freespace with
    | some ⟨_, _, some (extender, size), scanned⟩ =>
      if extender = thread then some (performAllocation s scanned empty size) else none
    | _ => none

variable {s t : Index} {c : Call}

/-- Without an entry every call makes a block of its own. -/
def Extended (s : Index) : Prop := s.freespace = none ∧ s.returned.Nodup ∧ ∀ b ∈ s.returned, b < s.nblocks

theorem Extended.step (h : Extended s) (hstep : next s c = some t) : Extended t := by
  obtain ⟨hnone, hnodup, hlt⟩ := h
  cases c with
  | allocateMoreSpace thread recommend =>
    rw [next, hnone] at hstep
    cases hstep
    refine ⟨rfl, ?_, ?_⟩
    · exact List.nodup_append.mpr ⟨hnodup, by simp, by grind⟩
    · intro b hb
      obtain hb | hb := List.mem_append.mp hb
      · exact Nat.lt_succ_of_lt (hlt b hb)
      · exact List.mem_singleton.mp hb ▸ Nat.lt_succ_self _
  | performAllocation thread empty =>
    rw [next, hnone] at hstep
    nomatch hstep

theorem performAllocation_spec (s : Index) (endScanned : Bool) (empty : Nat → Option Bool) {size : Nat}
    (hsize : 0 < size) : ∃ b bs scanned n, performAllocation s endScanned empty size =
      ⟨some ⟨b :: bs, 0, none, scanned⟩, n, s.returned ++ [b]⟩ := by
  unfold performAllocation
  extract_lets scan found nblock allocated
  obtain ⟨n, hn⟩ : ∃ n, found+allocated = n+1 :=
    Nat.exists_eq_succ_of_ne_zero (by dsimp only [allocated]; split <;> omega)
  rw [hn]
  exact ⟨_, _, _, _, rfl⟩

/-- The first block of the first allocation is the next to be handed out. -/
def Repeats (s : Index) : Prop :=
  ∃ f, s.freespace = some f ∧ (∀ e, f.extender = some e → 0 < e.2) ∧ (s.returned = [] ∧ f.blocks = [] ∨
      (∃ b bs, s.returned = [b] ∧ f.blocks = b :: bs ∧ f.pointer = 0 ∧ f.extender = none) ∨
      ∃ b bs, s.returned = b :: b :: bs)

theorem Repeats.step (h : Repeats s) (hstep : next s c = some t) : Repeats t := by
  obtain ⟨⟨blocks, pointer, extender, scanned⟩, hf, hpos, h⟩ := h
  rw [next.eq_def, hf] at hstep
  cases c with
  | allocateMoreSpace thread recommend =>
    cases extender with
    | some e => nomatch hstep
    | none =>
      dsimp only at hstep
      cases hnext : blocks[pointer]? with
      | some nb =>
        rw [hnext] at hstep
        cases hstep
        refine ⟨_, rfl, nofun, .inr (.inr ?_)⟩
        obtain ⟨-, rfl⟩ | ⟨b, bs, hs, rfl, rfl, -⟩ | ⟨b, bs, hs⟩ := h
        · nomatch hnext
        · exact ⟨b, [], by rw [hs, ← some.inj hnext]; rfl⟩
        · exact ⟨b, bs ++ [nb], by rw [hs]; rfl⟩
      | none =>
        rw [hnext] at hstep
        obtain ⟨hrecommend, rfl⟩ := of_guard hstep
        refine ⟨_, rfl, fun e he => some.inj he ▸ hrecommend, ?_⟩
        obtain h | ⟨b, bs, -, rfl, rfl, -⟩ | h := h
        · exact .inl h
        · nomatch hnext
        · exact .inr (.inr h)
  | performAllocation thread empty =>
    cases extender with
    | none => nomatch hstep
    | some e =>
      obtain ⟨-, rfl⟩ := of_guard hstep
      obtain ⟨b, bs, scanned', n, hspec⟩ := performAllocation_spec s _ empty (hpos e rfl)
      rw [hspec]
      refine ⟨_, rfl, nofun, .inr ?_⟩
      obtain ⟨hs, -⟩ | ⟨-, -, -, -, -, hnone⟩ | ⟨b', bs', hs⟩ := h
      · exact .inl ⟨b, bs, by rw [hs]; rfl, rfl, rfl, rfl⟩
      · nomatch hnone
      · exact .inr ⟨b', bs' ++ [b], by rw [hs]; rfl⟩

/-- **Index blocks.** No block is returned twice exactly if there is no entry, or only one call. -/
theorem allocated_distinct_iff {myxactonly : Bool} {nblocks : Nat} {cs : List Call}
    (r : Run (fun s c t => next s c = some t) (findFreespace myxactonly nblocks) cs t) :
    t.returned.Nodup ↔ myxactonly ∨ t.returned.length ≤ 1 := by
  cases myxactonly with
  | true =>
    have h := r.preserves Extended (fun _ _ _ h => h.step) ⟨rfl, List.nodup_nil, nofun⟩
    exact iff_of_true h.2.1 (.inl rfl)
  | false =>
    have h := r.preserves Repeats (fun _ _ _ h => h.step) ⟨_, rfl, nofun, .inl ⟨rfl, rfl⟩⟩
    obtain ⟨f, -, -, ⟨hs, -⟩ | ⟨b, bs, hs, -⟩ | ⟨b, bs, hs⟩⟩ := h
    · simp [hs]
    · simp [hs]
    · simp [hs]

theorem allocated_distinct_iff_private :
    ∃ t, perform next (findFreespace true 4) [.allocateMoreSpace 1 3, .allocateMoreSpace 2 3] = some t ∧
      t.returned = [4, 5] ∧ t.returned.Nodup := by
  refine ⟨_, rfl, rfl, (@allocated_distinct_iff _ true 4 [.allocateMoreSpace 1 3, .allocateMoreSpace 2 3]
    (.cons rfl (.single rfl))).mpr (.inl rfl)⟩

theorem block_returned_twice :
    (perform next (findFreespace false 4) [.allocateMoreSpace 1 3, .performAllocation 1 fun _ => some false,
      .allocateMoreSpace 2 3]).map (·.returned) = some [4, 4] :=
  rfl

end WeaverDB.Freespace
