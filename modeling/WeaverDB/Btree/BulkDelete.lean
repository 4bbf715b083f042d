import WeaverDB.Btree.Leaves

/-! # Bulk deletion

`btbulkdelete` deletes the entries whose heap tuple is in the array, and stops when it has deleted as
many as the array has members.
-/

namespace WeaverDB.Btree
open List

variable {K : Type} {s s' : Scan K} {deletes : List ItemPointerData}

def cmpItemptr (left right : ItemPointerData) : Int :=
  if left.ipBlkid < right.ipBlkid then -1
  else if right.ipBlkid < left.ipBlkid then 1
  else if left.ipPosid < right.ipPosid then -1
  else if right.ipPosid < left.ipPosid then 1
  else 0

/-- `bsearch` in the sorted array, by what it promises: whether a member compares equal. -/
def bsearch (htup : ItemPointerData) (deletes : List ItemPointerData) : Bool :=
  deletes.any fun d => decide (cmpItemptr htup d = 0)

def Scan.itemdel (s : Scan K) : Scan K := { s with page := s.page.eraseIdx (s.offnum-1), offnum := s.offnum-1 }

/-- The loop is over when the count is reached. -/
def endTurn (delcount : Nat) (loop : Scan K → Nat → Option (List (Page K) × Nat)) (s : Scan K)
    (removed : Nat) : Option (List (Page K) × Nat) :=
  if removed = delcount then some (s.pages, removed)
  else
    match btStep s with
    | (s, true) => loop s removed
    | (s, false) => some (s.pages, removed)

def deleteLoop (deletes : List ItemPointerData) : Nat → Scan K → Nat → Option (List (Page K) × Nat)
  | 0, _, _ => none
  | fuel+1, s, removed =>
    match s.page[s.offnum-1]? with
    | none => none
    | some item =>
      if bsearch item.tTid deletes then
        endTurn deletes.length (deleteLoop deletes fuel) s.itemdel (removed+1)
      else endTurn deletes.length (deleteLoop deletes fuel) s removed

def btbulkdelete (pages : List (Page K)) (deletes : List ItemPointerData) : Option (List (Page K) × Nat) :=
  match pages with
  | [] => some ([], 0)
  | page :: rest =>
    match btEndpoint page rest with
    | (s, true) => deleteLoop deletes (dataOf pages).length s 0
    | (s, false) => some (s.pages, 0)

theorem cmpItemptr_eq_zero {left right : ItemPointerData} : cmpItemptr left right = 0 ↔ left = right := by
  obtain ⟨lblk, loff⟩ := left
  obtain ⟨rblk, roff⟩ := right
  unfold cmpItemptr
  split_ifs <;> grind

theorem bsearch_eq (htup : ItemPointerData) : bsearch htup deletes = decide (htup ∈ deletes) := by
  rw [Bool.eq_iff_iff]
  simp [bsearch, cmpItemptr_eq_zero]

def listed (deletes : List ItemPointerData) (item : BTItem K) : Bool := decide (item.tTid ∈ deletes)

/-- If the array allows for all listed entries ahead, they are gone and nothing else is. -/
def Purged (deletes : List ItemPointerData) (pages : List (Page K)) (ahead : List (BTItem K))
    (purged : List (Page K)) (removed : Nat) : Option (List (Page K) × Nat) → Prop
  | none => False
  | some (pages', total) => pages'.flatten.length + total = pages.flatten.length + removed ∧
      total ≤ deletes.length ∧
      (removed + ahead.countP (listed deletes) ≤ deletes.length → pages' = purged)

def purge (deletes : List ItemPointerData) (item : BTItem K) : Bool := !listed deletes item

theorem purge_of_countP {l : List (BTItem K)} (h : l.countP (listed deletes) = 0) : ∀ item ∈ l, purge deletes item := by
  simpa [purge] using countP_eq_zero.mp h

theorem endTurn_purged (removed : Nat) {loop : Scan K → Nat → Option (List (Page K) × Nat)}
    (hfirst : firstDataKey s.right ≤ s.offnum+1) (hremoved : removed ≤ deletes.length)
    (hrest : ∀ s' : Scan K, removed ≠ deletes.length → firstDataKey s'.right ≤ s'.offnum →
      s'.offnum ≤ s'.page.length → s'.dataFrom (s'.offnum-1) = s.dataFrom s.offnum →
      Purged deletes s'.pages (s'.dataFrom (s'.offnum-1)) (s'.filterFrom (purge deletes) (s'.offnum-1))
        removed (loop s' removed)) :
    Purged deletes s.pages (s.dataFrom s.offnum) (s.filterFrom (purge deletes) s.offnum) removed
      (endTurn deletes.length loop s removed) := by
  unfold endTurn
  split
  · next hall =>
    refine ⟨rfl, hremoved, fun hle => (Scan.filterFrom_eq (purge_of_countP ?_)).symm⟩
    omega
  · next hmore =>
    have hstep := btStep_reaches hfirst
    generalize btStep s = answer at hstep ⊢
    obtain ⟨s', _ | _⟩ := answer
    · obtain ⟨hpages, hnone⟩ := hstep
      refine ⟨by rw [hpages], hremoved, fun _ => ?_⟩
      rw [hpages, Scan.filterFrom_eq]
      simp [hnone]
    · obtain ⟨hpages, hfirst', hvalid, hdata, hfilter⟩ := hstep
      have hloop := hrest s' hmore hfirst' hvalid hdata
      rw [hpages, hdata, hfilter] at hloop
      exact hloop

theorem exists_item {page : Page K} {offnum : Nat} (hpos : 0 < offnum) (hvalid : offnum ≤ page.length) :
    ∃ before item after, page = before ++ item :: after ∧ offnum = before.length+1 := by
  have hlt : offnum-1 < page.length := by omega
  refine ⟨page.take (offnum-1), page[offnum-1], page.drop (offnum-1+1), ?_, ?_⟩
  · rw [← drop_eq_getElem_cons hlt, take_append_drop]
  · rw [length_take_of_le (Nat.le_of_lt hlt)]
    omega

theorem deleteLoop_purged (deletes : List ItemPointerData) (fuel : Nat) (s : Scan K) (removed : Nat)
    (hfirst : firstDataKey s.right ≤ s.offnum) (hvalid : s.offnum ≤ s.page.length)
    (hfuel : (s.dataFrom (s.offnum-1)).length ≤ fuel)
    (hremoved : removed < deletes.length ∨ removed = 0 ∧ deletes = []) :
    Purged deletes s.pages (s.dataFrom (s.offnum-1)) (s.filterFrom (purge deletes) (s.offnum-1))
      removed (deleteLoop deletes fuel s removed) := by
  induction fuel generalizing s removed with
  | zero =>
    have hpos := firstDataKey_pos s.right
    simp only [Scan.dataFrom, length_append, length_drop] at hfuel
    omega
  | succ fuel ih =>
    obtain ⟨left, page, right, offnum⟩ := s
    obtain ⟨before, item, after, rfl, rfl⟩ := exists_item (Nat.lt_of_lt_of_le (firstDataKey_pos right) hfirst) hvalid
    simp only [Scan.dataFrom, Nat.add_sub_cancel, drop_left, length_append, length_cons] at hfuel
    have hturn : deleteLoop deletes (fuel+1) ⟨left, before ++ item :: after, right, before.length+1⟩
        removed = if item.tTid ∈ deletes then
          endTurn deletes.length (deleteLoop deletes fuel) ⟨left, before ++ after, right, before.length⟩ (removed+1)
        else endTurn deletes.length (deleteLoop deletes fuel)
          ⟨left, before ++ item :: after, right, before.length+1⟩ removed := by
      simp [deleteLoop, bsearch_eq, Scan.itemdel, eraseIdx_append_of_length_le]
    rw [hturn]
    split
    · next hitem =>
      have hsome : removed < deletes.length := hremoved.resolve_right fun h => by simp [h.2] at hitem
      have hrest := endTurn_purged _ (s := ⟨left, before ++ after, right, before.length⟩) hfirst hsome
        fun s' hne hf hv hdata => ih s' _ hf hv (by rw [hdata]; simp [Scan.dataFrom]; omega) (.inl (by omega))
      generalize endTurn _ _ _ _ = result at hrest ⊢
      obtain _ | ⟨pages, total⟩ := result
      · exact hrest
      · obtain ⟨hlength, hbound, hexact⟩ := hrest
        refine ⟨?_, hbound, fun hle => ?_⟩
        · simp only [Scan.pages, flatten_append, flatten_cons, length_append, length_cons] at hlength ⊢
          omega
        · have hless : removed+1 + (after ++ dataOf right).countP (listed deletes) ≤ deletes.length := by
            simpa [Scan.dataFrom, listed, hitem, Nat.add_assoc, Nat.add_comm] using hle
          simpa [Scan.filterFrom, purge, listed, hitem] using hexact (by simpa [Scan.dataFrom] using hless)
    · next hitem =>
      have hrest := endTurn_purged removed (s := ⟨left, before ++ item :: after, right, before.length+1⟩)
        (Nat.le_succ_of_le hfirst) (by omega)
        fun s' hne hf hv hdata => ih s' _ hf hv (by rw [hdata]; simp [Scan.dataFrom]; omega) hremoved
      simpa [Scan.filterFrom, Scan.dataFrom, purge, listed, hitem, Purged, take_length_add_append] using hrest

theorem length_filterData (deletes : List ItemPointerData) (pages : List (Page K)) :
    (filterData (purge deletes) pages).flatten.length + (dataOf pages).countP (listed deletes) =
      pages.flatten.length := by
  induction pages with
  | nil => rfl
  | cons page rest ih =>
    have hpage := length_eq_countP_add_countP (listed deletes) (l := page.drop (firstDataKey rest - 1))
    have hsplit := congrArg length (take_append_drop (firstDataKey rest - 1) page)
    simp only [filterData, dataOf, flatten_cons, length_append, countP_append, ← countP_eq_length_filter,
      show purge deletes = fun a => !listed deletes a from rfl, Bool.not_eq_true, Bool.decide_eq_false]
      at ih hpage hsplit ⊢
    omega

/-- The listed entries go, and no others, exactly if they are not more than the array has. -/
theorem btbulkdelete_exact_iff (pages : List (Page K)) (deletes : List ItemPointerData) :
    ∃ pages' total, btbulkdelete pages deletes = some (pages', total) ∧
      (pages' = filterData (purge deletes) pages ↔
        (dataOf pages).countP (listed deletes) ≤ deletes.length) := by
  cases pages with
  | nil => exact ⟨[], 0, rfl, iff_of_true rfl (Nat.zero_le _)⟩
  | cons page rest =>
    have hpurged : Purged deletes (page :: rest) (dataOf (page :: rest))
        (filterData (purge deletes) (page :: rest)) 0 (btbulkdelete (page :: rest) deletes) := by
      have hfound := btEndpoint_reaches page rest
      unfold btbulkdelete
      dsimp only
      generalize btEndpoint page rest = answer at hfound ⊢
      obtain ⟨s, _ | _⟩ := answer
      · obtain ⟨hpages, hnone⟩ := hfound
        refine ⟨by rw [hpages], Nat.zero_le _, fun _ => ?_⟩
        rw [hpages, filterData_eq]
        simp [hnone]
      · obtain ⟨hpages, hfirst, hvalid, hdata, hfilter⟩ := hfound
        have hloop := deleteLoop_purged deletes _ s 0 hfirst hvalid (Nat.le_of_eq
          (congrArg length hdata)) (by cases deletes <;> simp)
        rw [hpages, hdata, hfilter] at hloop
        exact hloop
    have hlength := length_filterData deletes (page :: rest)
    generalize btbulkdelete (page :: rest) deletes = result at hpurged ⊢
    obtain _ | ⟨pages', total⟩ := result
    · exact hpurged.elim
    · obtain ⟨htotal, hbound, hexact⟩ := hpurged
      refine ⟨pages', total, rfl, ?_, fun hle => hexact (by omega)⟩
      rintro rfl
      omega

/-- Two entries of one heap tuple count as two members of the array. -/
theorem btbulkdelete_stops_early :
    btbulkdelete [[entry 1, entry 1, entry 2]] [⟨0, 1⟩, ⟨0, 2⟩] = some ([[entry 2]], 2) := by
  decide

end WeaverDB.Btree
