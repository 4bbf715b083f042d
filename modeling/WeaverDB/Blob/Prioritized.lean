import WeaverDB.Blob.Spanning
import WeaverDB.Tuples.CachedOffsets

/-! # Which blobs are moved

`prioritize_blobs` reaches the external attributes one after the other until its estimate of the length
fits (`reached`), and gets through if none of them is as large as the first.
-/

namespace WeaverDB.Blob
open Foundations List Option Tuples

variable {n i : Nat} {p : Prior} {cache : OffsetCache} {list : List BlobItem} {item : BlobItem}

/-! ## Insertion -/

def Descending (list : List BlobItem) : Prop := list.Pairwise fun a b => b.size ≤ a.size

theorem insertBehind_perm (item : BlobItem) (list : List BlobItem) : (insertBehind item list).Perm (item :: list) := by
  induction list with
  | nil => exact List.Perm.refl _
  | cons pointer rest ih =>
    rw [insertBehind]
    split
    · exact (ih.cons pointer).trans (List.Perm.swap item pointer rest)
    · exact List.Perm.refl _

theorem Descending.insertBehind (h : Descending list) : Descending (insertBehind item list) := by
  induction list with
  | nil => exact pairwise_singleton _ _
  | cons pointer rest ih =>
    obtain ⟨hhead, hrest⟩ := pairwise_cons.mp h
    rw [Blob.insertBehind]
    split
    · next hlt =>
      refine pairwise_cons.mpr ⟨fun b hb => ?_, ih hrest⟩
      obtain rfl | hb := mem_cons.mp ((insertBehind_perm item rest).mem_iff.mp hb)
      · exact hlt.le
      · exact hhead b hb
    · next hge =>
      refine pairwise_cons.mpr ⟨fun b hb => ?_, h⟩
      obtain rfl | hb := mem_cons.mp hb
      · omega
      · have hle := hhead b hb
        omega

/-! ## The attributes in reach -/

section

variable {desc : TupleDesc} (cfg : Config) (row : Row desc)

def rowExternal (i : Nat) : Bool := decide ((desc.attrs i).attstorage = .external) && !row.nulls i

def rowSize (i : Nat) : Nat := (row.bytes i).length

def rowLength : Nat := headerSize desc.natts (row.hasNull desc.natts) + computeDataSize desc row.value row.nulls

def reachStep (s : List Nat × Int) (i : Nat) : List Nat × Int :=
  if rowExternal row i && !fitsTuple cfg s.2 then
    (s.1 ++ [i], if s.1.isEmpty then s.2 else s.2 - (rowSize row i - sizeofBlobHeader))
  else s

/-- As long as the aligned length less what all but the first save does not fit. -/
def reachedUpTo (n : Nat) : List Nat × Int :=
  (List.range n).foldl (reachStep cfg row) ([], maxAlign (rowLength row))

def reached : List Nat := (reachedUpTo cfg row desc.natts).1

def FirstLargest (list : List Nat) : Prop :=
  ∀ first rest, list = first :: rest → ∀ i ∈ rest, rowSize row i < rowSize row first

variable {cfg row}

theorem reachedUpTo_succ (n : Nat) : reachedUpTo cfg row (n+1) = reachStep cfg row (reachedUpTo cfg row n) n := by
  rw [reachedUpTo, range_succ, foldl_append]
  rfl

theorem mem_reachedUpTo (h : i ∈ (reachedUpTo cfg row n).1) : i < n ∧ rowExternal row i := by
  induction n with
  | zero => exact absurd h not_mem_nil
  | succ n ih =>
    rw [reachedUpTo_succ, reachStep] at h
    split at h
    · next hstep =>
      rw [Bool.and_eq_true] at hstep
      obtain hold | hnew := mem_append.mp h
      · exact ⟨Nat.lt_succ_of_lt (ih hold).1, (ih hold).2⟩
      · obtain rfl := mem_singleton.mp hnew
        exact ⟨Nat.lt_succ_self _, hstep.1⟩
    · exact ⟨Nat.lt_succ_of_lt (ih h).1, (ih h).2⟩

theorem nodup_reachedUpTo (n : Nat) : (reachedUpTo cfg row n).1.Nodup := by
  induction n with
  | zero => exact nodup_nil
  | succ n ih =>
    rw [reachedUpTo_succ, reachStep]
    split
    · refine nodup_append.mpr ⟨ih, nodup_singleton n, fun i hi j hj => ?_⟩
      have hlt := (mem_reachedUpTo hi).1
      rw [mem_singleton.mp hj]
      omega
    · exact ih

end

/-! ## The loop -/

section

variable {c : SpanContext} {row : Row c.desc} {t : HeapTuple}

def itemOf (row : Row c.desc) (t : HeapTuple) (i : Nat) : BlobItem := ⟨i+1, t.data.drop (row.attOffset i)⟩

theorem rowExternal_iff : rowExternal row i ↔ (c.desc.attrs i).attstorage = .external ∧ row.nulls i = false := by
  simp [rowExternal]

theorem size_itemOf (ht : Formed row t) (hi : i < c.desc.natts)
    (hext : rowExternal row i) : (itemOf row t i).size = rowSize row i := by
  obtain ⟨hstorage, hval⟩ := rowExternal_iff.mp hext
  have hlen := (c.external i hi hstorage).1
  have hadd := (sameValue_fetch (c.desc.valid i hi) (row.fits i hi hval) (ht.value i hi hval)).2 0
  simp only [attAddlength, hlen, ne_eq, not_true_eq_false, if_false, zero_add] at hadd
  exact hadd

theorem heapGetAttr_external (ht : Formed row t) (hs : Sound c.desc cache)
    (hi : i < c.desc.natts) (hstorage : (c.desc.attrs i).attstorage = .external) :
    ∃ cache', heapGetAttr c.desc t (i+1) cache = (if row.nulls i then none
      else some (.pointer (t.data.drop (row.attOffset i))), cache') ∧ Sound c.desc cache' := by
  obtain ⟨hsound, hnull, hval⟩ := ht.heapGetAttr hs hi
  refine ⟨_, Prod.ext ?_ rfl, hsound⟩
  dsimp only
  have hword : (c.desc.attrs i).inWord = false := by
    simp [FormPgAttribute.inWord, (c.external i hi hstorage).1]
  cases hn : row.nulls i with
  | true => exact hnull hn
  | false =>
    rw [hval hn, heapFetchAtt, if_neg (by simp [hword])]
    rfl

structure Listed (row : Row c.desc) (t : HeapTuple) (p : Prior) (n : Nat) : Prop where
  tLength : p.tLength = (reachedUpTo c.cfg row n).2
  perm : p.list.Perm ((reachedUpTo c.cfg row n).1.map (itemOf row t))
  head : p.list.head? = (reachedUpTo c.cfg row n).1.head?.map (itemOf row t)
  descending : Descending p.list
  sound : Sound c.desc p.cache

theorem reachStep_skip {s : List Nat × Int}
    (h : rowExternal row n = false ∨ fitsTuple c.cfg s.2) : reachStep c.cfg row s n = s := by
  unfold reachStep
  cases h with
  | inl hext => simp [hext]
  | inr hfits => simp [hfits]

theorem Listed.skip (h : Listed row t p n) (hcache : Sound c.desc cache)
    (hskip : rowExternal row n = false ∨ fitsTuple c.cfg p.tLength) :
    Listed row t { p with cache := cache } (n+1) := by
  have hsame : reachedUpTo c.cfg row (n+1) = reachedUpTo c.cfg row n := by
    rw [reachedUpTo_succ, reachStep_skip (h.tLength ▸ hskip)]
  exact ⟨hsame ▸ h.tLength, hsame ▸ h.perm, hsame ▸ h.head, h.descending, hcache⟩

theorem insertBlob_spec (hd : Descending list) :
    (∀ list', insertBlob item list = some list' → list'.Perm (list ++ [item]) ∧ Descending list' ∧
      list'.head? = some (list.head?.getD item) ∧ ∀ head ∈ list.head?, item.size < head.size) ∧
    (insertBlob item list = none → ∃ head ∈ list.head?, head.size ≤ item.size) := by
  cases list with
  | nil =>
    refine ⟨fun list' h => ?_, nofun⟩
    cases h
    exact ⟨List.Perm.refl _, pairwise_singleton _ _, rfl, nofun⟩
  | cons head rest =>
    rw [insertBlob]
    split
    · next hlt =>
      refine ⟨fun list' h => ?_, nofun⟩
      cases h
      obtain ⟨hhead, hrest⟩ := pairwise_cons.mp hd
      have hperm := insertBehind_perm item rest
      refine ⟨(hperm.cons head).trans ?_, ?_, rfl, ?_⟩
      · rw [cons_append]
        exact (perm_append_singleton item rest).symm.cons head
      · refine pairwise_cons.mpr ⟨fun b hb => ?_, Descending.insertBehind hrest⟩
        obtain rfl | hb := mem_cons.mp (hperm.mem_iff.mp hb)
        · exact hlt.le
        · exact hhead b hb
      · intro head' hhead'
        obtain rfl := Option.some.inj hhead'
        exact hlt
    · next hge => exact ⟨nofun, fun _ => ⟨head, rfl, not_lt.mp hge⟩⟩

theorem FirstLargest.of_append {list more : List Nat} (h : FirstLargest row (list ++ more)) :
    FirstLargest row list := by
  intro first rest heq i hi
  exact h first (rest ++ more) (by rw [heq, cons_append]) i (mem_append_left _ hi)

theorem firstLargest_append {list : List Nat} (h : FirstLargest row list)
    (hi : ∀ first ∈ list.head?, rowSize row i < rowSize row first) :
    FirstLargest row (list ++ [i]) := by
  intro first rest heq j hj
  cases list with
  | nil =>
    obtain ⟨rfl, rfl⟩ := List.cons.inj heq
    exact absurd hj not_mem_nil
  | cons head tail =>
    obtain ⟨rfl, rfl⟩ := List.cons.inj heq
    obtain hold | hnew := mem_append.mp hj
    · exact h head tail rfl j hold
    · rw [mem_singleton.mp hnew]
      exact hi head rfl

theorem Listed.isEmpty_eq (h : Listed row t p n) : p.list.isEmpty = (reachedUpTo c.cfg row n).1.isEmpty := by
  rw [Bool.eq_iff_iff, List.isEmpty_iff, List.isEmpty_iff]
  constructor
  · intro hnil
    exact map_eq_nil_iff.mp (hnil ▸ h.perm).nil_eq.symm
  · intro hnil
    have hperm := h.perm
    rw [hnil] at hperm
    exact hperm.eq_nil

theorem reachedUpTo_reach (hext : rowExternal row n) (hfits : ¬ fitsTuple c.cfg (reachedUpTo c.cfg row n).2) :
    reachedUpTo c.cfg row (n+1) = ((reachedUpTo c.cfg row n).1 ++ [n],
      if (reachedUpTo c.cfg row n).1.isEmpty then (reachedUpTo c.cfg row n).2
      else (reachedUpTo c.cfg row n).2 - (rowSize row n - sizeofBlobHeader)) := by
  rw [reachedUpTo_succ, reachStep, if_pos]
  rw [hext, Bool.true_and]
  simpa using hfits

theorem Listed.head_size (ht : Formed row t) (h : Listed row t p n)
    (hn : n ≤ c.desc.natts) {first : Nat} (hfirst : first ∈ (reachedUpTo c.cfg row n).1.head?) :
    ∃ head ∈ p.list.head?, head.size = rowSize row first := by
  have hmem := mem_reachedUpTo (List.mem_of_mem_head? hfirst)
  refine ⟨itemOf row t first, ?_, size_itemOf ht (by omega) hmem.2⟩
  rw [h.head, mem_def.mp hfirst]
  rfl

section

variable (ht : Formed row t) (h : Listed row t p n) (hn : n < c.desc.natts)
include ht h hn

theorem Listed.insert (hext : rowExternal row n) (hfits : ¬ fitsTuple c.cfg p.tLength)
    (hlist : insertBlob (itemOf row t n) p.list = some list) (hcache : Sound c.desc cache) :
    Listed row t
      { list := list
        tLength := if p.list.isEmpty then p.tLength else p.tLength - ((itemOf row t n).size - sizeofBlobHeader)
        cache := cache } (n+1) ∧
      (FirstLargest row (reachedUpTo c.cfg row n).1 → FirstLargest row (reachedUpTo c.cfg row (n+1)).1) := by
  obtain ⟨hperm, hdesc, hhead, hlt⟩ := (insertBlob_spec h.descending).1 list hlist
  have hstep := reachedUpTo_reach hext (h.tLength ▸ hfits)
  have hsize := size_itemOf ht hn hext
  refine ⟨⟨?_, ?_, ?_, hdesc, hcache⟩, fun hfirst => ?_⟩
  · dsimp only
    rw [hstep, h.isEmpty_eq, h.tLength, hsize]
  · rw [hstep, map_append]
    exact hperm.trans (h.perm.append_right _)
  · rw [hstep]
    dsimp only
    rw [hhead, h.head]
    cases (reachedUpTo c.cfg row n).1 <;> rfl
  · rw [hstep]
    refine firstLargest_append hfirst fun first hmem => ?_
    obtain ⟨head, hhead', heq⟩ := h.head_size ht hn.le hmem
    rw [← heq, ← hsize]
    exact hlt head hhead'

theorem Listed.insert_fails (hext : rowExternal row n) (hfits : ¬ fitsTuple c.cfg p.tLength)
    (hlist : insertBlob (itemOf row t n) p.list = none) :
    ¬ FirstLargest row (reachedUpTo c.cfg row (n+1)).1 := by
  obtain ⟨head, hhead, hle⟩ := (insertBlob_spec h.descending).2 hlist
  rw [reachedUpTo_reach hext (h.tLength ▸ hfits)]
  rw [h.head] at hhead
  obtain ⟨first, hfirst, rfl⟩ := map_eq_some_iff.mp hhead
  obtain ⟨rest, hrest⟩ := List.head?_eq_some_iff.mp hfirst
  intro hlargest
  have hmem := mem_reachedUpTo (List.mem_of_mem_head? hfirst)
  have hlt := hlargest first (rest ++ [n]) (by rw [hrest, cons_append]) n (by simp)
  rw [size_itemOf ht (by omega) hmem.2, size_itemOf ht hn hext] at hle
  omega

theorem prioritizeAttribute_spec : (∀ p', prioritizeAttribute c t .size p n = some p' → Listed row t p' (n+1) ∧
      (FirstLargest row (reachedUpTo c.cfg row n).1 → FirstLargest row (reachedUpTo c.cfg row (n+1)).1)) ∧
    (prioritizeAttribute c t .size p n = none → ¬ FirstLargest row (reachedUpTo c.cfg row (n+1)).1) := by
  have hskipped : ∀ p' cache, Sound c.desc cache →
      rowExternal row n = false ∨ fitsTuple c.cfg p.tLength →
      some { p with cache := cache } = some p' → Listed row t p' (n+1) ∧
      (FirstLargest row (reachedUpTo c.cfg row n).1 → FirstLargest row (reachedUpTo c.cfg row (n+1)).1) := by
    intro p' cache hcache hskip hp
    cases hp
    refine ⟨h.skip hcache hskip, fun hfirst => ?_⟩
    rw [reachedUpTo_succ, reachStep_skip (h.tLength ▸ hskip)]
    exact hfirst
  unfold prioritizeAttribute
  by_cases hstorage : (c.desc.attrs n).attstorage = .external
  · rw [if_neg fun hne => hne hstorage]
    by_cases hfits : fitsTuple c.cfg p.tLength
    · rw [if_pos ⟨rfl, hfits⟩]
      exact ⟨fun p' hp => hskipped p' p.cache h.sound (.inr hfits) hp, nofun⟩
    · rw [if_neg fun hand => hfits hand.2]
      obtain ⟨cache, hget, hsound⟩ := heapGetAttr_external ht h.sound hn hstorage
      rw [hget]
      cases hnull : row.nulls n with
      | true =>
        have hinner : rowExternal row n = false := by simp [rowExternal, hnull]
        exact ⟨fun p' hp => hskipped p' cache hsound (.inl hinner) hp, nofun⟩
      | false =>
        have hext : rowExternal row n := rowExternal_iff.mpr ⟨hstorage, hnull⟩
        refine ⟨fun p' hp => ?_, fun hp => ?_⟩
        · obtain ⟨list, hlist, rfl⟩ := map_eq_some_iff.mp hp
          exact h.insert ht hn hext hfits hlist hsound
        · exact h.insert_fails ht hn hext hfits (map_eq_none_iff.mp hp)
  · rw [if_pos hstorage]
    have hinner : rowExternal row n = false := by simp [rowExternal, hstorage]
    exact ⟨fun p' hp => hskipped p' p.cache h.sound (.inl hinner) hp, nofun⟩

end

theorem reachedUpTo_append (n m : Nat) :
    ∃ more, (reachedUpTo c.cfg row (n+m)).1 = (reachedUpTo c.cfg row n).1 ++ more := by
  induction m with
  | zero => exact ⟨[], (append_nil _).symm⟩
  | succ m ih =>
    obtain ⟨more, hmore⟩ := ih
    rw [← add_assoc, reachedUpTo_succ, reachStep]
    split
    · exact ⟨more ++ [n+m], by rw [hmore, append_assoc]⟩
    · exact ⟨more, hmore⟩

theorem prioritize_upTo (ht : Formed row t) (hs : Sound c.desc cache) (hn : n ≤ c.desc.natts) :
    match (List.range n).foldlM (prioritizeAttribute c t .size)
        { list := [], tLength := maxAlign t.tLen, cache := cache } with
    | some p => Listed row t p n ∧ FirstLargest row (reachedUpTo c.cfg row n).1
    | none => ¬ FirstLargest row (reachedUpTo c.cfg row n).1 := by
  induction n with
  | zero =>
    refine ⟨⟨?_, List.Perm.refl _, rfl, List.Pairwise.nil, hs⟩, fun first rest heq => absurd heq nofun⟩
    change ((maxAlign t.tLen : Nat) : Int) = maxAlign (rowLength row)
    rw [ht.len]
    rfl
  | succ n ih =>
    have hprev := ih (by omega)
    rw [range_succ, foldlM_append]
    cases hfold : (List.range n).foldlM (prioritizeAttribute c t .size)
        { list := [], tLength := maxAlign t.tLen, cache := cache } with
    | none =>
      rw [hfold] at hprev
      obtain ⟨more, hmore⟩ : ∃ more, (reachedUpTo c.cfg row (n+1)).1 =
          (reachedUpTo c.cfg row n).1 ++ more := reachedUpTo_append n 1
      intro hfirst
      rw [hmore] at hfirst
      exact hprev hfirst.of_append
    | some p =>
      rw [hfold] at hprev
      obtain ⟨hlisted, hfirst⟩ := hprev
      obtain ⟨hsome, hnone⟩ := prioritizeAttribute_spec ht hlisted hn
      change match (prioritizeAttribute c t .size p n).bind some with
        | some p => _
        | none => _
      cases hstep : prioritizeAttribute c t .size p n with
      | none => exact hnone hstep
      | some p' => exact ⟨(hsome p' hstep).1, (hsome p' hstep).2 hfirst⟩

end

end WeaverDB.Blob
