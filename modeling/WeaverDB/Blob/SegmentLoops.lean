import WeaverDB.Blob.Spilled

/-! # Loops over segments that need not end

`delete_segment` and `get_segment` leave a pointer whose line pointer is not in use as it is, and the
loops around them stay there. Those that delete end on unbroken chains only. `index_blob` ends with an
error there, since `repalloc` refuses its array.
-/

namespace WeaverDB.Blob
open Foundations Option

/-! ## Broken chains -/

def deleteSegment (relid xid : Nat) (pointer : ItemPointerData) (w : Stores) : Nat × ItemPointerData × Stores :=
  match (w.rels relid).items pointer with
  | none => (0, pointer, w)
  | some segment => (1, segment.forward, w.mark relid pointer xid)

/-- The loop of `delete_blob_segments` and `delete_indirect_blob`, turn by turn. -/
def deleteSegments (relid xid : Nat) : Nat → Nat → ItemPointerData → Stores → Option (Nat × Stores)
  | 0, _, _, _ => none
  | fuel + 1, pos, link, w =>
    if itemPointerIsValid link then
      let (n, link, w) := deleteSegment relid xid link w
      deleteSegments relid xid fuel (pos+n) link w
    else some (pos, w)

def deleteIndirectBlob (xid fuel : Nat) (item : List UInt8) (w : Stores) : Option (Nat × Stores) :=
  let header := readBlobHeader item
  deleteSegments header.relid xid fuel 0 header.forwardPointer w

def sizeofBlobIndex : Nat := 16

/-- The loop of `index_blob` with `segs.length` of `size` entries written; `get` is `get_segment`. -/
def indexSegments (context : String) (get : ItemPointerData → Got) :
    Nat → Nat → List (ItemPointerData × Int) → ItemPointerData →
      Option (Except BlobError (List (ItemPointerData × Int)))
  | 0, _, _, _ => none
  | fuel + 1, size, segs, link =>
    if itemPointerIsValid link then
      let segs := segs ++ [(link, (get link).len)]
      if segs.length = size then
        let request := varhdrsz + sizeofBlobIndex * (2*size)
        if maxAllocSize < request then
          some (.error (.elog ("repalloc:" ++ context ++ " invalid request size " ++ toString request)))
        else indexSegments context get fuel (2*size) segs (get link).pointer
      else indexSegments context get fuel size segs (get link).pointer
    else some (.ok segs)

def indexBlob (cfg : Config) (blcksz : Nat) (context : String) (seen : Nat → ItemPointerData → Bool)
    (fuel : Nat) (item : List UInt8) (w : Stores) : Option (Except BlobError (List (ItemPointerData × Int))) :=
  let header := readBlobHeader item
  indexSegments context (getSegment cfg (w.rels header.relid) (seen header.relid) · false blcksz)
    fuel 2 [] header.forwardPointer

theorem deleteSegments_eq (relid xid fuel pos : Nat) (link : ItemPointerData) (w : Stores) :
    deleteSegments relid xid fuel pos link w = (walk (w.rels relid).cell itemPointerIsValid fuel link).map fun nodes =>
        (pos+nodes.length, w.marked relid xid nodes) := by
  induction fuel generalizing pos link w with
  | zero => rfl
  | succ fuel ih =>
    by_cases hvalid : itemPointerIsValid link
    · rw [deleteSegments, if_pos hvalid, deleteSegment]
      cases hitem : (w.rels relid).items link with
      | none =>
        have hcell : (w.rels relid).cell link = none := congrArg (Option.map _) hitem
        dsimp only
        rw [ih, walk_stuck hvalid hcell, walk_stuck hvalid hcell]
        rfl
      | some segment =>
        have hcell : (w.rels relid).cell link = some (segment.data, segment.forward) := congrArg (Option.map _) hitem
        rw [walk, if_pos hvalid, hcell]
        dsimp only
        rw [ih, map_map]
        refine congrArg (Option.map · _) (funext fun nodes => Prod.ext ?_ rfl)
        exact (add_assoc pos 1 _).trans (congrArg _ (add_comm 1 _))
    · rw [deleteSegments, walk, if_neg hvalid, if_neg hvalid]
      rfl

def Unbroken {A : Type} (cell : ItemPointerData → Option (A × ItemPointerData))
    (start : ItemPointerData) (nodes : List (ItemPointerData × A)) : Prop :=
  ∃ q, Chain cell start nodes q ∧ (∀ n ∈ nodes, itemPointerIsValid n.1) ∧ itemPointerIsValid q = false

theorem walk_ends_iff {A : Type} {cell : ItemPointerData → Option (A × ItemPointerData)}
    {start : ItemPointerData} {nodes : List (ItemPointerData × A)} :
    (∃ fuel, walk cell itemPointerIsValid fuel start = some nodes) ↔ Unbroken cell start nodes :=
  ⟨fun ⟨fuel, h⟩ => ((walk_iff fuel).mp h).2, fun h => ⟨nodes.length+1, (walk_iff _).mpr ⟨Nat.lt_succ_self _, h⟩⟩⟩

theorem deleteSegments_iff (relid xid : Nat) (first : ItemPointerData) (w : Stores) (r : Nat × Stores) :
    (∃ fuel, deleteSegments relid xid fuel 0 first w = some r) ↔
      ∃ nodes, Unbroken (w.rels relid).cell first nodes ∧ r = (nodes.length, w.marked relid xid nodes) := by
  simp only [deleteSegments_eq, map_eq_some_iff, zero_add, ← walk_ends_iff]
  constructor
  · rintro ⟨fuel, nodes, hwalk, rfl⟩
    exact ⟨nodes, ⟨fuel, hwalk⟩, rfl⟩
  · rintro ⟨nodes, ⟨fuel, hwalk⟩, rfl⟩
    exact ⟨fuel, nodes, hwalk, rfl⟩

/-! ## The index -/

/-- The entry of a segment. One that the reader does not see, or that is too long, is the last. -/
def indexCell (cfg : Config) (rel : BlobRelation) (satisfies : ItemPointerData → Bool) (p : ItemPointerData) :
    Option (Int × ItemPointerData) :=
  (rel.cell p).map fun (data, forward) =>
    if satisfies p ∧ data.length ≤ cfg.layout.maxAttrSize then (data.length, forward) else (-1, itemPointerInvalid)

section

variable {context : String} {get : ItemPointerData → Got} {cell : ItemPointerData → Option (Int × ItemPointerData)}
  {link : ItemPointerData} {segs out : List (ItemPointerData × Int)} {j fuel : Nat}

/-- `get` leaves the pointer as it is where there is no cell, and otherwise follows the cell. -/
def Reads (get : ItemPointerData → Got) (cell : ItemPointerData → Option (Int × ItemPointerData)) : Prop :=
  ∀ p, cell p = none ∧ (get p).pointer = p ∨ cell p = some ((get p).len, (get p).pointer)

theorem reads_indexCell (cfg : Config) (blcksz : Nat) (rel : BlobRelation) (satisfies : ItemPointerData → Bool) :
    Reads (getSegment cfg rel satisfies · false blcksz) (indexCell cfg rel satisfies) := by
  intro p
  unfold getSegment indexCell BlobRelation.cell
  dsimp only
  cases rel.items p with
  | none => exact .inl ⟨rfl, rfl⟩
  | some segment =>
    right
    by_cases hseen : satisfies p ∧ segment.data.length ≤ cfg.layout.maxAttrSize
    · simp [hseen, not_lt.mpr hseen.2]
    · have hwhy : satisfies p = false ∨ cfg.layout.maxAttrSize < segment.data.length := by
        rwa [not_and_or, Bool.not_eq_true, not_le] at hseen
      simp [hseen, hwhy]

section

variable (hj : j ≤ 25) (hsegs : segs.length < 2^j)
include hj hsegs

/-- The array of 2^25 entries is the last that `repalloc` gives. -/
theorem indexSegments_turn (hvalid : itemPointerIsValid link) :
    (segs.length + 1 = 2^25 ∧ ∃ e, ∀ fuel, indexSegments context get (fuel+1) (2^j) segs link = some (.error e)) ∨
      ∃ j' ≤ 25, segs.length + 1 < 2^j' ∧ ∀ fuel, indexSegments context get (fuel+1) (2^j) segs link =
        indexSegments context get fuel (2^j') (segs ++ [(link, (get link).len)]) (get link).pointer := by
  simp only [indexSegments, if_pos hvalid, List.length_append, List.length_singleton]
  by_cases hfull : segs.length + 1 = 2^j
  · simp only [if_pos hfull]
    obtain rfl | hlt := hj.eq_or_lt
    · exact .inl ⟨hfull, _, fun _ => if_pos (by decide)⟩
    · have hsmall : 2^(j+1) ≤ 2^25 := Nat.pow_le_pow_right two_pos hlt
      refine .inr ⟨j+1, hlt, by omega, fun fuel => ?_⟩
      rw [if_neg, Nat.pow_succ']
      unfold maxAllocSize varhdrsz sizeofBlobIndex
      omega
  · exact .inr ⟨j, hj, by omega, fun fuel => if_neg hfull⟩

theorem indexSegments_ends (hfuel : 2^25 ≤ segs.length + fuel) :
    ∃ r, indexSegments context get fuel (2^j) segs link = some r := by
  induction fuel generalizing j segs link with
  | zero =>
    have hsmall : 2^j ≤ 2^25 := Nat.pow_le_pow_right two_pos hj
    omega
  | succ fuel ih =>
    by_cases hvalid : itemPointerIsValid link
    · obtain ⟨_, e, herror⟩ | ⟨j', hj', hsegs', hturn⟩ := indexSegments_turn hj hsegs hvalid
      · exact ⟨_, herror fuel⟩
      · rw [hturn]
        refine ih hj' ?_ ?_
        · rwa [List.length_append]
        · rw [List.length_append, List.length_singleton]
          omega
    · exact ⟨_, if_neg hvalid⟩

theorem walk_of_indexed (hget : Reads get cell)
    (hok : indexSegments context get fuel (2^j) segs link = some (.ok out)) :
    out.length < 2^25 ∧ ∃ more n, out = segs ++ more ∧ walk cell itemPointerIsValid n link = some more := by
  induction fuel generalizing j segs link with
  | zero => cases hok
  | succ fuel ih =>
    by_cases hvalid : itemPointerIsValid link
    · obtain ⟨_, e, herror⟩ | ⟨j', hj', hsegs', hturn⟩ := indexSegments_turn hj hsegs hvalid
      · cases (herror fuel).symm.trans hok
      · rw [hturn] at hok
        obtain ⟨hlen, more, n, rfl, hmore⟩ := ih hj' (by rwa [List.length_append]) hok
        obtain ⟨hnone, hstays⟩ | hsome := hget link
        · rw [hstays, walk_stuck hvalid hnone] at hmore
          cases hmore
        · refine ⟨hlen, _, n+1, by rw [List.append_assoc, List.singleton_append], ?_⟩
          rw [walk, if_pos hvalid, hsome]
          exact congrArg (Option.map _) hmore
    · rw [indexSegments, if_neg hvalid] at hok
      cases hok
      refine ⟨hsegs.trans_le (Nat.pow_le_pow_right two_pos hj), [], 1, (List.append_nil _).symm, ?_⟩
      rw [walk, if_neg hvalid]

theorem indexed_of_walk {n : Nat} (hget : Reads get cell) (h : walk cell itemPointerIsValid n link = some out)
    (hlen : segs.length + out.length < 2^25) :
    ∃ fuel, indexSegments context get fuel (2^j) segs link = some (.ok (segs ++ out)) := by
  induction n generalizing j segs link out with
  | zero => cases h
  | succ n ih =>
    by_cases hvalid : itemPointerIsValid link
    · obtain ⟨hnone, _⟩ | hsome := hget link
      · cases (walk_stuck hvalid hnone _).symm.trans h
      · rw [walk, if_pos hvalid, hsome] at h
        obtain ⟨more, hmore, rfl⟩ := map_eq_some_iff.mp h
        rw [List.length_cons] at hlen
        obtain ⟨hlast, _⟩ | ⟨j', hj', hsegs', hturn⟩ := indexSegments_turn hj hsegs hvalid
        · omega
        · have hlonger : (segs ++ [(link, (get link).len)]).length = segs.length + 1 := List.length_append
          obtain ⟨fuel, hrun⟩ := ih hj' (hlonger.trans_lt hsegs') hmore (by omega)
          refine ⟨fuel+1, ?_⟩
          rw [hturn, hrun, List.append_assoc, List.singleton_append]
    · rw [walk, if_neg hvalid] at h
      cases h
      exact ⟨1, by rw [indexSegments, if_neg hvalid, List.append_nil]⟩

end

end

/-- **Broken chains.** The loops that delete end exactly on chains without a break, with every segment
marked. The index always ends, and with a list exactly for such chains of less than 2^25 entries. -/
theorem segment_loops_iff (cfg : Config) (blcksz xid : Nat) (context : String)
    (seen : Nat → ItemPointerData → Bool) (w : Stores) :
    (∀ relid first r, (∃ fuel, deleteSegments relid xid fuel 0 first w = some r) ↔
      ∃ nodes, Unbroken (w.rels relid).cell first nodes ∧ r = (nodes.length, w.marked relid xid nodes)) ∧
    (∀ item r, (∃ fuel, deleteIndirectBlob xid fuel item w = some r) ↔
      ∃ nodes, Unbroken (w.rels (readBlobHeader item).relid).cell (readBlobHeader item).forwardPointer nodes ∧
        r = (nodes.length, w.marked (readBlobHeader item).relid xid nodes)) ∧
    ∀ item, (∃ fuel r, indexBlob cfg blcksz context seen fuel item w = some r) ∧
      ∀ segs, (∃ fuel, indexBlob cfg blcksz context seen fuel item w = some (.ok segs)) ↔
        Unbroken (indexCell cfg (w.rels (readBlobHeader item).relid) (seen (readBlobHeader item).relid))
          (readBlobHeader item).forwardPointer segs ∧ segs.length < 2^25 := by
  refine ⟨fun relid first r => deleteSegments_iff .., fun item r => deleteSegments_iff .., fun item => ⟨?_, ?_⟩⟩
  · exact ⟨2^25, indexSegments_ends (j := 1) (by decide) (by decide) (Nat.le_add_left ..)⟩
  · intro segs
    have hreads := reads_indexCell cfg blcksz (w.rels (readBlobHeader item).relid) (seen (readBlobHeader item).relid)
    rw [← walk_ends_iff]
    constructor
    · rintro ⟨fuel, hok⟩
      obtain ⟨hlen, more, n, rfl, h⟩ := walk_of_indexed (j := 1) (by decide) (by decide) hreads hok
      exact ⟨⟨n, h⟩, hlen⟩
    · rintro ⟨⟨n, h⟩, hlen⟩
      exact indexed_of_walk (j := 1) (by decide) (by decide) hreads h ((Nat.zero_add _).trans_lt hlen)

def brokenStores : Stores where
  rels _ := { items := fun p => if p = ⟨0, 1⟩ then some ⟨⟨0, 2⟩, [1, 2, 3]⟩ else none, room := [] }
  xmax _ _ := none

def brokenBlob : StoredBlob := ⟨10, ⟨0, 1⟩, 7⟩

/-- The deletion stays at the pointer to no segment; the index ends with an error. -/
theorem broken_chain_endless : (∀ fuel, deleteIndirectBlob 600 fuel brokenBlob.bytes brokenStores = none) ∧
      ∃ fuel e, indexBlob segmentsOfFour 8192 "QueryContext" (fun _ _ => true) fuel brokenBlob.bytes brokenStores =
        some (.error e) := by
  constructor
  · intro fuel
    rw [deleteIndirectBlob, deleteSegments_eq]
    cases fuel with
    | zero => rfl
    | succ fuel =>
      have hmarks : walk (brokenStores.rels 7).cell itemPointerIsValid fuel ⟨0, 2⟩ = none :=
        walk_stuck rfl rfl fuel
      exact congrArg (fun o => Option.map _ (Option.map _ o)) hmarks
  · obtain ⟨r, hr⟩ : ∃ r, indexBlob segmentsOfFour 8192 "QueryContext" (fun _ _ => true) (2^25)
        brokenBlob.bytes brokenStores = some r :=
      indexSegments_ends (j := 1) (by decide) (by decide) (Nat.le_add_left ..)
    cases r with
    | error e => exact ⟨_, e, hr⟩
    | ok segs =>
      have hreads := reads_indexCell segmentsOfFour 8192 (brokenStores.rels 7) fun _ => true
      obtain ⟨_, more, n, _, h⟩ := walk_of_indexed (j := 1) (by decide) (by decide) hreads hr
      cases n with
      | zero => cases h
      | succ n =>
        have hstuck : walk (indexCell segmentsOfFour (brokenStores.rels 7) fun _ => true)
            itemPointerIsValid n ⟨0, 2⟩ = none := walk_stuck rfl rfl n
        cases (congrArg (Option.map _) hstuck).symm.trans h

end WeaverDB.Blob
