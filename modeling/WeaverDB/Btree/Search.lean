import Mathlib.Data.Fintype.Order
import Mathlib.Order.PiLex

/-! # Binary search on a page

`_bt_binsrch` with `_bt_compare`. The order of attribute `a` is that of `rank a`, and a null is above all
values. A page is in the order of its `natts` columns, and searched by the first `keysz` of them.
-/

namespace WeaverDB.Btree

/-- An entry of the scan key; without an argument it has `SK_ISNULL`. -/
structure ScanKeyData (V : Type) where
  skAttno : Nat
  skArgument : Option V
  skFunc : V → V → Int

/-- The items, with the high key if there is one, by attribute numbers. -/
structure SearchPage (V : Type) where
  isLeaf : Bool
  rightmost : Bool
  items : List (Nat → Option V)

section

variable {V : Type} (p : SearchPage V) (keysz : Nat) (scankey : Nat → ScanKeyData V)

def SearchPage.first : Nat := if p.rightmost then 1 else 2

def SearchPage.item (offnum : Nat) : Nat → Option V := p.items.getD (offnum-1) fun _ => none

def compareAttr (entry : ScanKeyData V) (datum : Option V) : Int :=
  match entry.skArgument, datum with
  | none, none => 0
  | none, some _ => 1
  | some _, none => -1
  | some argument, some datum => entry.skFunc argument datum

def compareLoop (itup : Nat → Option V) : Nat → Nat → Int
  | 0, _ => 0
  | n+1, i =>
    let result := compareAttr (scankey i) (itup (scankey i).skAttno)
    if result ≠ 0 then result else compareLoop itup n (i+1)

def btCompare (offnum : Nat) : Int :=
  if p.isLeaf = false ∧ offnum = p.first then 1 else compareLoop scankey (p.item offnum) keysz 0

def binsrchLoop (compare : Nat → Int) (low high : Nat) : Nat :=
  if high > low then
    let mid := low + (high-low)/2
    if compare mid > 0 then binsrchLoop compare (mid+1) high else binsrchLoop compare low mid
  else low
termination_by high - low

theorem binsrchLoop_spec (compare : Nat → Int) (low high : Nat) (hle : low ≤ high)
    (hmono : ∀ i j, low ≤ i → i ≤ j → j < high → 0 < compare j → 0 < compare i) :
    low ≤ binsrchLoop compare low high ∧ binsrchLoop compare low high ≤ high ∧
    ∀ i, low ≤ i → i < high → (0 < compare i ↔ i < binsrchLoop compare low high) := by
  fun_induction binsrchLoop compare low high with
  | case1 low high hgt mid hmid ih =>
    obtain ⟨h1, h2, hiff⟩ := ih (by omega) fun i j hi => hmono i j (by omega)
    refine ⟨by omega, h2, fun i hi hhigh => ?_⟩
    obtain him | him := Nat.lt_or_ge mid i
    · exact hiff i him hhigh
    · exact iff_of_true (hmono i mid hi him (by omega) hmid) (by omega)
  | case2 low high hgt mid hmid ih =>
    obtain ⟨h1, h2, hiff⟩ := ih (by omega) fun i j hi hij hj => hmono i j hi hij (by omega)
    refine ⟨h1, by omega, fun i hi hhigh => ?_⟩
    obtain him | him := Nat.lt_or_ge i mid
    · exact hiff i hi him
    · exact iff_of_false (fun hpos => hmid (hmono mid i (by omega) him hhigh hpos)) (by omega)
  | case3 low high hgt => exact ⟨le_rfl, hle, fun i hi hhigh => absurd hi (by omega)⟩

def btBinsrch : Nat :=
  if p.items.length < p.first then p.first
  else
    let low := binsrchLoop (btCompare p keysz scankey) p.first (p.items.length + 1)
    if p.isLeaf then low else low-1

end

/-! ## The order of the keys -/

section

variable {V L : Type} [LinearOrder L] (rank : Nat → V → L) (p : SearchPage V) (natts keysz : Nat)
  (scankey : Nat → ScanKeyData V)

def place (order : V → L) (value : Option V) : WithTop L := value.elim ⊤ fun v => order v

def itemKey (itup : Nat → Option V) (i : Nat) : WithTop L := place (rank (i+1)) (itup (i+1))

def scanKey (i : Nat) : WithTop L := place (rank (i+1)) (scankey i).skArgument

def columns (key : Nat → WithTop L) : Lex (Fin keysz → WithTop L) := toLex fun i => key i

theorem columns_le {k n : Nat} (hk : k ≤ n) {f g : Nat → WithTop L} (h : columns n f ≤ columns n g) :
    columns k f ≤ columns k g := by
  by_contra hno
  obtain ⟨i, heq, hlt⟩ := not_le.mp hno
  exact not_lt.mpr h ⟨i.castLE hk, fun j hj => heq ⟨j, Nat.lt_trans hj i.2⟩ hj, hlt⟩

structure Searchable : Prop where
  hikey : p.rightmost = false → p.items ≠ []
  sorted : ∀ i j, p.first ≤ i → i ≤ j → j ≤ p.items.length → ¬ (p.isLeaf = false ∧ i = p.first) →
    columns natts (itemKey rank (p.item i)) ≤ columns natts (itemKey rank (p.item j))
  keysz_le : keysz ≤ natts
  attno : ∀ i < keysz, (scankey i).skAttno = i+1
  func : ∀ i < keysz, ∀ a d, (0 < (scankey i).skFunc a d ↔ rank (i+1) d < rank (i+1) a) ∧
    ((scankey i).skFunc a d = 0 ↔ rank (i+1) d = rank (i+1) a)

/-- The first data item of an internal page is less than every key. -/
def Less (n : Nat) : Prop :=
  p.isLeaf = false ∧ n = p.first ∨ columns keysz (itemKey rank (p.item n)) < columns keysz (scanKey rank scankey)

variable {rank p natts keysz scankey} (h : Searchable rank p natts keysz scankey)
include h

theorem compareAttr_sign {i : Nat} (hi : i < keysz) (itup : Nat → Option V) :
    (0 < compareAttr (scankey i) (itup (scankey i).skAttno) ↔ itemKey rank itup i < scanKey rank scankey i) ∧
    (compareAttr (scankey i) (itup (scankey i).skAttno) = 0 ↔ itemKey rank itup i = scanKey rank scankey i) := by
  have hfunc := h.func i hi
  rw [h.attno i hi]
  unfold compareAttr itemKey scanKey place
  cases (scankey i).skArgument <;> cases itup (i+1) <;> simp [hfunc]

theorem compareLoop_pos_iff (itup : Nat → Option V) (n i : Nat) (hn : i+n = keysz)
    (heq : ∀ j < i, itemKey rank itup j = scanKey rank scankey j) :
    0 < compareLoop scankey itup n i ↔ columns keysz (itemKey rank itup) < columns keysz (scanKey rank scankey) := by
  induction n generalizing i with
  | zero =>
    have hall : columns keysz (itemKey rank itup) = columns keysz (scanKey rank scankey) :=
      funext fun j => heq j (hn ▸ j.2)
    rw [hall]
    exact iff_of_false (lt_irrefl 0) (lt_irrefl _)
  | succ n ih =>
    have hi : i < keysz := by omega
    obtain ⟨hpos, hzero⟩ := compareAttr_sign h hi itup
    rw [compareLoop]
    split_ifs with hne
    · rw [hpos]
      refine ⟨fun hlt => ⟨⟨i, hi⟩, fun j hj => heq j hj, hlt⟩, fun hlt => ?_⟩
      by_contra hno
      have hgt := lt_of_le_of_ne (not_lt.mp hno) fun he => hne (hzero.mpr he.symm)
      exact lt_asymm hlt ⟨⟨i, hi⟩, fun j hj => (heq j hj).symm, hgt⟩
    · refine ih (i+1) (by omega) fun j hj => ?_
      obtain hlt | rfl := Nat.lt_succ_iff_lt_or_eq.mp hj
      · exact heq j hlt
      · exact hzero.mp (not_not.mp hne)

theorem btCompare_pos_iff (n : Nat) : 0 < btCompare p keysz scankey n ↔ Less rank p keysz scankey n := by
  unfold btCompare Less
  split_ifs with hfirst
  · exact iff_of_true Int.one_pos (.inl hfirst)
  · rw [compareLoop_pos_iff h _ keysz 0 (Nat.zero_add keysz) (by simp), or_iff_right hfirst]

theorem less_mono (i j : Nat) (hi : p.first ≤ i) (hij : i ≤ j) (hj : j < p.items.length + 1)
    (hless : Less rank p keysz scankey j) : Less rank p keysz scankey i := by
  by_cases hfirst : p.isLeaf = false ∧ i = p.first
  · exact .inl hfirst
  · obtain ⟨hno, rfl⟩ | hlt := hless
    · exact absurd ⟨hno, le_antisymm hij hi⟩ hfirst
    · have hle := h.sorted i j hi hij (Nat.le_of_lt_succ hj) hfirst
      exact .inr ((columns_le h.keysz_le hle).trans_lt hlt)

/-- **Binary search.** A leaf gives the first item not less than the key, other pages the last one less. -/
theorem btBinsrch_spec :
    (p.isLeaf = true → IsLeast {n | p.first ≤ n ∧ (n ≤ p.items.length → ¬ Less rank p keysz scankey n)}
      (btBinsrch p keysz scankey)) ∧
    (p.isLeaf = false → IsGreatest {n | n = p.first ∨ p.first ≤ n ∧ n ≤ p.items.length ∧
        Less rank p keysz scankey n} (btBinsrch p keysz scankey)) := by
  have hhigh : p.first ≤ p.items.length + 1 := by
    cases hright : p.rightmost with
    | true => simp [SearchPage.first, hright]
    | false =>
      have hpos := List.length_pos_iff.mpr (h.hikey hright)
      simp only [SearchPage.first, hright, Bool.false_eq_true, if_false]
      omega
  have hloop := binsrchLoop_spec (btCompare p keysz scankey) p.first (p.items.length + 1) hhigh
  simp only [btCompare_pos_iff h] at hloop
  obtain ⟨h1, h2, hiff⟩ := hloop (less_mono h)
  unfold btBinsrch
  generalize binsrchLoop (btCompare p keysz scankey) p.first (p.items.length + 1) = r at h1 h2 hiff ⊢
  constructor
  · intro hleaf
    have hend : (if p.items.length < p.first then p.first else r) = r := by split_ifs <;> omega
    simp only [if_pos hleaf, hend]
    refine ⟨⟨h1, fun hle => (hiff r h1 (by omega)).not.mpr (lt_irrefl r)⟩, fun n hn => ?_⟩
    by_contra hlt
    exact hn.2 (by omega) ((hiff n hn.1 (by omega)).mpr (by omega))
  · intro hno
    simp only [hno, Bool.false_eq_true, if_false]
    split_ifs with hempty
    · refine ⟨.inl rfl, ?_⟩
      rintro n (rfl | ⟨-, hle, -⟩) <;> omega
    · have hpast : p.first < r := (hiff p.first le_rfl (by omega)).mp (.inl ⟨hno, rfl⟩)
      refine ⟨.inr ⟨by omega, by omega, (hiff _ (by omega) (by omega)).mpr (by omega)⟩, ?_⟩
      rintro n (rfl | ⟨hn, hle, hless⟩)
      · omega
      · have hlt := (hiff n hn (by omega)).mp hless
        omega

end

/-- A leaf with a high key, the keys 5, 5 and 8 and a null. -/
def leafPage : SearchPage Nat := ⟨true, false, [none, some 5, some 5, some 8, none].map fun v _ => v⟩

def scanFor (v : Nat) (_ : Nat) : ScanKeyData Nat := ⟨1, some v, fun a d => a - d⟩

theorem btBinsrch_past_five : IsLeast {n | 2 ≤ n ∧ (n ≤ 5 → ¬ Less (fun _ v => v) leafPage 1 (scanFor 7) n)}
    (btBinsrch leafPage 1 (scanFor 7)) := by
  have h : Searchable (fun _ v => v) leafPage 1 1 (scanFor 7) := by
    refine ⟨fun _ => nofun, fun i j hi hij hj _ => ?_, le_rfl, fun i hi => ?_, fun i hi a d => ?_⟩
    · have hkeys : ∀ j ≤ 5, ∀ i ≤ j, 2 ≤ i →
          itemKey (fun _ v => v) (leafPage.item i) 0 ≤ itemKey (fun _ v => v) (leafPage.item j) 0 := by decide
      exact Pi.toLex_monotone fun k => (Fin.fin_one_eq_zero k) ▸ hkeys j hj i hij hi
    · exact congrArg (· + 1) (Nat.lt_one_iff.mp hi).symm
    · change (0 < (a : Int) - d ↔ d < a) ∧ ((a : Int) - d = 0 ↔ d = a)
      omega
  exact (btBinsrch_spec h).1 rfl

end WeaverDB.Btree
