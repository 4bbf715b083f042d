import WeaverDB.SharedInval.Segment

/-! # Scans of the leaf pages

The leaf pages of a btree are chained by `btpo_next`. A page is its line pointers, first the high key
except on the rightmost page. A scan is on one page of the chain.
-/

namespace WeaverDB.Btree
open List

structure BTItem (K : Type) where
  tTid : ItemPointerData
  key : K
  deriving DecidableEq, Repr

abbrev Page (K : Type) := List (BTItem K)

structure Scan (K : Type) where
  left : List (Page K)
  page : Page K
  right : List (Page K)
  offnum : Nat
  deriving DecidableEq, Repr

variable {K : Type} {s : Scan K} {keep : BTItem K → Bool}

def Scan.pages (s : Scan K) : List (Page K) := s.left ++ s.page :: s.right

def firstDataKey (right : List (Page K)) : Nat := if right = [] then 1 else 2

/-- The loop of `_bt_step` to the next page with data; `false` at the end of the scan. -/
def walkRight (left : List (Page K)) (page : Page K) (offnum : Nat) : List (Page K) → Scan K × Bool
  | [] => (⟨left, page, [], offnum⟩, false)
  | next :: rest =>
    if next ≠ [] ∧ firstDataKey rest ≤ next.length then
      (⟨left ++ [page], next, rest, firstDataKey rest⟩, true)
    else walkRight (left ++ [page]) next (firstDataKey rest) rest

def btStep (s : Scan K) : Scan K × Bool :=
  if s.page ≠ [] ∧ s.offnum < s.page.length then ({ s with offnum := s.offnum+1 }, true)
  else walkRight s.left s.page s.offnum s.right

def btEndpoint (page : Page K) (rest : List (Page K)) : Scan K × Bool :=
  let s : Scan K := ⟨[], page, rest, firstDataKey rest⟩
  if page.length < s.offnum then btStep s else (s, true)

/-! ## Data -/

def dataOf : List (Page K) → List (BTItem K)
  | [] => []
  | page :: rest => page.drop (firstDataKey rest - 1) ++ dataOf rest

def Scan.dataFrom (s : Scan K) (n : Nat) : List (BTItem K) := s.page.drop n ++ dataOf s.right

def filterData (keep : BTItem K → Bool) : List (Page K) → List (Page K)
  | [] => []
  | page :: rest =>
    (page.take (firstDataKey rest - 1) ++ (page.drop (firstDataKey rest - 1)).filter keep) ::
      filterData keep rest

def Scan.filterFrom (keep : BTItem K → Bool) (s : Scan K) (n : Nat) : List (Page K) :=
  s.left ++ (s.page.take n ++ (s.page.drop n).filter keep) :: filterData keep s.right

theorem filterData_eq (pages : List (Page K)) (h : ∀ item ∈ dataOf pages, keep item) :
    filterData keep pages = pages := by
  induction pages with
  | nil => rfl
  | cons page rest ih =>
    obtain ⟨hpage, hrest⟩ := forall_mem_append.mp h
    rw [filterData, ih hrest, filter_eq_self.mpr hpage, take_append_drop]

theorem Scan.filterFrom_eq {n : Nat} (h : ∀ item ∈ s.dataFrom n, keep item) : s.filterFrom keep n = s.pages := by
  obtain ⟨hpage, hrest⟩ := forall_mem_append.mp h
  rw [Scan.filterFrom, filterData_eq _ hrest, filter_eq_self.mpr hpage, take_append_drop, Scan.pages]

/-- What a step answers: the pages stay, and the scan is on the first of the entries ahead. -/
def Reaches (pages : List (Page K)) (ahead : List (BTItem K))
    (filtered : (BTItem K → Bool) → List (Page K)) : Scan K × Bool → Prop
  | (s, true) => s.pages = pages ∧ firstDataKey s.right ≤ s.offnum ∧ s.offnum ≤ s.page.length ∧
      s.dataFrom (s.offnum-1) = ahead ∧ ∀ keep, s.filterFrom keep (s.offnum-1) = filtered keep
  | (s, false) => s.pages = pages ∧ ahead = []

theorem firstDataKey_pos (right : List (Page K)) : 0 < firstDataKey right := by
  unfold firstDataKey
  split <;> decide

theorem walkRight_reaches (left : List (Page K)) (page : Page K) (offnum : Nat)
    (right : List (Page K)) : Reaches (left ++ page :: right) (dataOf right)
      (fun keep => left ++ page :: filterData keep right) (walkRight left page offnum right) := by
  induction right generalizing left page offnum with
  | nil => exact ⟨rfl, rfl⟩
  | cons next rest ih =>
    have hpos := firstDataKey_pos rest
    unfold walkRight
    split
    · next hdata =>
      exact ⟨append_assoc .., le_refl _, hdata.2, rfl, fun _ => append_assoc ..⟩
    · next hnone =>
      have hempty : next.length ≤ firstDataKey rest - 1 := by
        by_contra hlong
        exact hnone ⟨ne_nil_of_length_pos (by omega), by omega⟩
      simpa [dataOf, filterData, drop_eq_nil_of_le hempty, take_of_length_le hempty] using
        ih (left ++ [page]) next (firstDataKey rest)

theorem btStep_reaches (hfirst : firstDataKey s.right ≤ s.offnum+1) :
    Reaches s.pages (s.dataFrom s.offnum) (s.filterFrom · s.offnum) (btStep s) := by
  unfold btStep
  split
  · next hmore => exact ⟨rfl, hfirst, hmore.2, rfl, fun _ => rfl⟩
  · next hlast =>
    have hgone : s.page.length ≤ s.offnum := by
      by_contra hlong
      exact hlast ⟨ne_nil_of_length_pos (by omega), by omega⟩
    simpa [Scan.pages, Scan.dataFrom, Scan.filterFrom, drop_eq_nil_of_le hgone, take_of_length_le hgone]
      using walkRight_reaches s.left s.page s.offnum s.right

theorem btEndpoint_reaches (page : Page K) (rest : List (Page K)) :
    Reaches (page :: rest) (dataOf (page :: rest)) (filterData · (page :: rest)) (btEndpoint page rest) := by
  unfold btEndpoint
  dsimp only
  split
  · next hshort =>
    have hempty : page.length ≤ firstDataKey rest - 1 := by omega
    have hlast : page.length ≤ firstDataKey rest := by omega
    simpa [Scan.pages, Scan.dataFrom, Scan.filterFrom, dataOf, filterData, drop_eq_nil_of_le hempty,
      take_of_length_le hempty, drop_eq_nil_of_le hlast, take_of_length_le hlast] using
      btStep_reaches (s := ⟨[], page, rest, firstDataKey rest⟩) (Nat.le_succ _)
  · next hlong => exact ⟨rfl, le_refl _, Nat.le_of_not_lt hlong, rfl, fun _ => rfl⟩

def entry (offset : Nat) : BTItem Nat := ⟨⟨0, offset⟩, offset⟩

end WeaverDB.Btree
