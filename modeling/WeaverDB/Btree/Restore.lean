import Mathlib.Logic.Relation
import WeaverDB.Btree.Leaves

/-! # Going on with a scan

Between two steps others may insert entries and split pages. `_bt_restscan` looks for the entry by its
heap tuple, from the old line pointer on. It finds the entry unless the page was the rightmost one and
that line pointer is now a high key.
-/

namespace WeaverDB.Btree
open List Relation

variable {K : Type} {item : BTItem K} {page : Page K} {right : List (Page K)}

/-- An insertion, or `_bt_split`, which makes the first entry of the new page the high key. -/
inductive Changed : List (Page K) → List (Page K) → Prop where
  | insert (before rest : List (Page K)) (hikey data moved : Page K) (item : BTItem K)
      (hkey : hikey.length = firstDataKey rest - 1) :
      Changed (before ++ (hikey ++ data ++ moved) :: rest) (before ++ (hikey ++ data ++ item :: moved) :: rest)
  | split (before rest : List (Page K)) (hikey data moved : Page K) (first : BTItem K)
      (hkey : hikey.length = firstDataKey rest - 1) :
      Changed (before ++ (hikey ++ data ++ first :: moved) :: rest)
        (before ++ (first :: data) :: (hikey ++ first :: moved) :: rest)

def findItem (target : ItemPointerData) (page : Page K) (offnum : Nat) : Option Nat :=
  ((page.drop (offnum-1)).findIdx? fun item => decide (item.tTid = target)).map (offnum + ·)

/-- `_bt_restscan`; `none` if the entry has moved off the end of the world. -/
def btRestscan (target : ItemPointerData) (left : List (Page K)) (page : Page K) (offnum : Nat) :
    List (Page K) → Option (Scan K)
  | [] => (findItem target page offnum).map fun n => ⟨left, page, [], n⟩
  | next :: rest =>
    match findItem target page offnum with
    | some n => some ⟨left, page, next :: rest, n⟩
    | none => btRestscan target (left ++ [page]) next (firstDataKey rest) rest

/-- What the scan then goes through is what follows the entry, with all that was ahead before. -/
def Restored (s : Scan K) (item : BTItem K) (pages : List (Page K)) (t : Scan K) : Prop :=
  ∃ before, dataOf pages = before ++ item :: t.dataFrom t.offnum ∧ s.dataFrom s.offnum <+ t.dataFrom t.offnum

theorem dataOf_append (before : List (Page K)) :
    dataOf (before ++ page :: right) = before.flatMap (drop 1) ++ dataOf (page :: right) := by
  induction before with
  | nil => rfl
  | cons first before ih =>
    have hnext : firstDataKey (before ++ page :: right) = 2 := if_neg (by simp)
    rw [cons_append, dataOf, ih, hnext, flatMap_cons, append_assoc]

theorem Changed.grows {pages pages' : List (Page K)} (h : Changed pages pages') :
    pages.length ≤ pages'.length ∧ dataOf pages <+ dataOf pages' := by
  cases h with
  | insert before rest hikey data moved item hkey =>
    refine ⟨by simp, ?_⟩
    rw [dataOf_append, dataOf_append, dataOf, dataOf, append_assoc, append_assoc, drop_left' hkey, drop_left' hkey]
    exact ((sublist_cons_self item moved).append_left data).append_right _ |>.append_left _
  | split before rest hikey data moved first hkey =>
    refine ⟨by simp, ?_⟩
    rw [dataOf_append, dataOf_append, dataOf, dataOf, dataOf, append_assoc, drop_left' hkey, drop_left' hkey]
    simp [firstDataKey]

theorem grows_changes {pages pages' : List (Page K)} (h : ReflTransGen Changed pages pages') :
    pages.length ≤ pages'.length ∧ dataOf pages <+ dataOf pages' := by
  induction h with
  | refl => exact ⟨le_rfl, .refl _⟩
  | tail _ hstep ih => exact ⟨Nat.le_trans ih.1 hstep.grows.1, ih.2.trans hstep.grows.2⟩

theorem split_of_sublist {before after l : List (BTItem K)} (h : before ++ item :: after <+ l) :
    ∃ before' after', l = before' ++ item :: after' ∧ before.length ≤ before'.length ∧ after <+ after' := by
  obtain ⟨l₁, l₂, rfl, hbefore, hcons⟩ := append_sublist_iff.mp h
  obtain ⟨l₃, l₄, rfl, hmem, hafter⟩ := cons_sublist_iff.mp hcons
  obtain ⟨a, b, rfl⟩ := append_of_mem hmem
  refine ⟨l₁ ++ a, b ++ l₄, by simp, ?_, hafter.trans (sublist_append_right ..)⟩
  rw [length_append]
  exact Nat.le_add_right_of_le hbefore.length_le

theorem append_eq_append_cons {a b c d : List (BTItem K)} (h : a ++ b = c ++ item :: d) :
    (∃ tail, a = c ++ item :: tail ∧ d = tail ++ b) ∨ ∃ more, c = a ++ more ∧ b = more ++ item :: d := by
  obtain ⟨more, hc, hb⟩ | ⟨_ | ⟨first, tail⟩, ha, hb⟩ := append_eq_append_iff.mp h
  · exact .inr ⟨more, hc, hb⟩
  · exact .inr ⟨[], by simpa using ha.symm, hb.symm⟩
  · obtain ⟨rfl, hd⟩ := cons.inj hb
    exact .inl ⟨tail, ha, hd⟩

/-- The search stops at the first line pointer with the heap tuple. -/
theorem btRestscan_first {before after : List (BTItem K)} (left : List (Page K)) (page : Page K)
    (offnum : Nat) (right : List (Page K)) (hpos : 0 < offnum)
    (hahead : page.drop (offnum-1) ++ dataOf right = before ++ item :: after)
    (hnew : ∀ other ∈ before, other.tTid ≠ item.tTid) :
    ∃ t, btRestscan item.tTid left page offnum right = some t ∧ t.dataFrom t.offnum = after := by
  obtain ⟨tail, hpage, rfl⟩ | ⟨more, rfl, hrest⟩ := append_eq_append_cons hahead
  · have hnone : before.findIdx? (fun other => decide (other.tTid = item.tTid)) = none := by simpa using hnew
    have hfound : findItem item.tTid page offnum = some (offnum + before.length) := by
      simp [findItem, hpage, findIdx?_append, hnone, findIdx?_cons]
    refine ⟨⟨left, page, right, offnum + before.length⟩, by cases right <;> simp [btRestscan, hfound], ?_⟩
    have hend := congrArg (drop (before.length + 1)) hpage
    rw [drop_drop, drop_length_add_append, drop_one, tail_cons] at hend
    rw [← hend, Scan.dataFrom]
    congr 2
    dsimp only
    omega
  · have hnone : findItem item.tTid page offnum = none := by
      simpa [findItem] using fun other h => hnew other (mem_append_left _ h)
    cases right with
    | nil => simp [dataOf] at hrest
    | cons next rest =>
      rw [btRestscan, hnone]
      exact btRestscan_first _ next _ rest (firstDataKey_pos rest) hrest fun other h => hnew other (mem_append_right _ h)

theorem dataOf_split (page : Page K) {offnum : Nat} (h : firstDataKey right ≤ offnum) : dataOf (page :: right) =
    (page.drop (firstDataKey right - 1)).take (offnum - firstDataKey right) ++
      (page.drop (offnum-1) ++ dataOf right) := by
  have hpos := firstDataKey_pos right
  have hsplit := take_append_drop (offnum - firstDataKey right) (page.drop (firstDataKey right - 1))
  rw [drop_drop, show firstDataKey right - 1 + (offnum - firstDataKey right) = offnum-1 by omega] at hsplit
  rw [← append_assoc, hsplit, dataOf]

theorem firstDataKey_lt {n : Nat} (hpos : 0 < n) (h : n < firstDataKey right) : n = 1 ∧ firstDataKey right = 2 := by
  unfold firstDataKey at h ⊢
  split_ifs at h ⊢ <;> omega

theorem firstDataKey_le {right right' : List (Page K)} (h : right.length ≤ right'.length) :
    firstDataKey right ≤ firstDataKey right' := by
  cases right' with
  | nil => rw [length_eq_zero_iff.mp (Nat.le_zero.mp h)]
  | cons => unfold firstDataKey; split <;> simp

theorem ahead_of_dataOf {before after : List (BTItem K)} {offnum : Nat} (hpos : 0 < offnum)
    (hdata : dataOf (page :: right) = before ++ item :: after)
    (hlength : offnum - firstDataKey right ≤ before.length) (hnew : ∀ other ∈ before, other.tTid ≠ item.tTid)
    (hgood : ¬ (offnum < firstDataKey right ∧ ∃ hikey ∈ page.head?, hikey.tTid = item.tTid)) :
    ∃ more, page.drop (offnum-1) ++ dataOf right = more ++ item :: after ∧ ∀ other ∈ more, other.tTid ≠ item.tTid := by
  obtain hlt | hle := Nat.lt_or_ge offnum (firstDataKey right)
  · obtain ⟨hone, htwo⟩ := firstDataKey_lt hpos hlt
    refine ⟨page.take 1 ++ before, ?_, fun other h => ?_⟩
    · rw [hone, append_assoc, ← hdata, dataOf, htwo, ← append_assoc, take_append_drop, drop_zero]
    · obtain h | h := mem_append.mp h
      · exact fun heq => hgood ⟨hlt, other, by cases page <;> simp_all, heq⟩
      · exact hnew other h
  · have hsplit := dataOf_split page hle
    obtain ⟨more, rfl⟩ := prefix_of_prefix_length_le ⟨_, hsplit.symm⟩ ⟨_, hdata.symm⟩
      (Nat.le_trans (length_take_le ..) hlength)
    rw [hsplit, append_assoc] at hdata
    exact ⟨more, append_cancel_left hdata, fun other h => hnew other (mem_append_right _ h)⟩

/-- **Going on.** The scan is restored if and only if it does not begin at a high key with the heap
tuple of the entry. -/
theorem btRestscan_restores_iff (s : Scan K) (item : BTItem K) (page : Page K) (right : List (Page K))
    (hfirst : firstDataKey s.right ≤ s.offnum) (hitem : s.page[s.offnum-1]? = some item)
    (hchanged : ReflTransGen Changed (s.page :: s.right) (page :: right))
    (honce : ((dataOf (page :: right)).map BTItem.tTid).count item.tTid ≤ 1) :
    (∃ t, btRestscan item.tTid s.left page s.offnum right = some t ∧ Restored s item (page :: right) t) ↔
      ¬ (s.offnum < firstDataKey right ∧ ∃ hikey ∈ page.head?, hikey.tTid = item.tTid) := by
  have hpos := Nat.lt_of_lt_of_le (firstDataKey_pos s.right) hfirst
  constructor
  · rintro ⟨t, ht, before, hdata, -⟩ ⟨hlt, hikey, hhead, htid⟩
    obtain ⟨data, rfl⟩ := head?_eq_some_iff.mp hhead
    have hkeys := firstDataKey_lt hpos hlt
    have hstart : (hikey :: data).drop (s.offnum-1) ++ dataOf right = [] ++ hikey :: (data ++ dataOf right) := by
      rw [hkeys.1]
      rfl
    obtain ⟨t', ht', hahead⟩ := btRestscan_first s.left _ s.offnum right hpos hstart (by simp)
    obtain rfl := Option.some.inj (ht'.symm.trans (htid ▸ ht))
    have hlength := congrArg length hdata
    simp [hahead, dataOf, hkeys.2] at hlength
    omega
  · intro hgood
    obtain ⟨hlonger, hsublist⟩ := grows_changes hchanged
    have hkeys := firstDataKey_le (Nat.le_of_succ_le_succ hlonger)
    obtain ⟨hvalid, hget⟩ := List.getElem?_eq_some_iff.mp hitem
    have hold := dataOf_split s.page hfirst
    rw [drop_eq_getElem_cons hvalid, hget, Nat.sub_add_cancel hpos] at hold
    obtain ⟨before, after, hdata, hlength, hafter⟩ := split_of_sublist (hold ▸ hsublist)
    rw [length_take, length_drop] at hlength
    have hnew : ∀ other ∈ before, other.tTid ≠ item.tTid := by
      intro other h heq
      have hcount := count_pos_iff.mpr (heq ▸ mem_map_of_mem h : item.tTid ∈ before.map BTItem.tTid)
      rw [hdata, map_append, count_append, map_cons, count_cons_self] at honce
      omega
    obtain ⟨more, hmore, hother⟩ := ahead_of_dataOf hpos hdata (by omega) hnew hgood
    obtain ⟨t, ht, hrest⟩ := btRestscan_first s.left page s.offnum right hpos hmore hother
    exact ⟨t, ht, before, hrest ▸ hdata, hrest ▸ hafter⟩

theorem btRestscan_restores_iff_insert : ∃ t, btRestscan ⟨0, 5⟩ [] [entry 3, entry 4, entry 5] 2 [] = some t ∧
    Restored ⟨[], [entry 3, entry 5], [], 2⟩ (entry 5) [[entry 3, entry 4, entry 5]] t :=
  (btRestscan_restores_iff ⟨[], [entry 3, entry 5], [], 2⟩ (entry 5) _ _ (by decide) rfl
    (.single (.insert [] [] [] [entry 3] [entry 5] (entry 4) rfl)) (by decide)).mpr (by decide)

/-- The page is split before the entry of the scan, which stops at the copy in the high key. -/
theorem btRestscan_stops_at_hikey : ReflTransGen Changed [[entry 5]] [[entry 5, entry 3], [entry 5]] ∧
    (btRestscan ⟨0, 5⟩ [] [entry 5, entry 3] 1 [[entry 5]]).map (fun t => t.dataFrom t.offnum) =
      some [entry 3, entry 5] :=
  ⟨.tail (.single (.insert [] [] [] [] [entry 5] (entry 3) rfl))
    (.split [] [] [] [entry 3] [] (entry 5) rfl), by decide⟩

end WeaverDB.Btree
