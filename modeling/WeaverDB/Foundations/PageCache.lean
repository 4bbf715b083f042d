import Mathlib.Data.List.AList
import Mathlib.Data.List.GetD

/-! # A write-back page cache over a growable file

A page number has at most one frame, clean or dirty; the file grows when a page past its end is written,
and the gap reads as `blank`. A clean frame that agrees with the file can be dropped unseen
(`Coherent`), but truncating the file leaves the frames alone.
-/

namespace WeaverDB
open List

/-- A page in the pool. -/
structure Frame (α : Type) where
  page : α
  dirty : Bool
  deriving DecidableEq

/-- The file, and the frames by page number. -/
structure PageCache (α : Type) where
  file : List α
  frames : AList (fun _ : Nat => Frame α)

namespace PageCache
variable {α : Type}

/-! ## Operations -/

def cached (c : PageCache α) (q : Nat) : Option α := (c.frames.lookup q).map Frame.page

/-- What a read finds in the pool or the file. -/
def contents (c : PageCache α) (q : Nat) : Option α :=
  match c.cached q with
  | some p => some p
  | none => c.file[q]?

/-- The page that a reader of any block sees. -/
def view (blank : α) (c : PageCache α) (q : Nat) : α := (c.cached q).getD (c.file.getD q blank)

/-- A page read from the file enters clean. -/
def load (c : PageCache α) (q : Nat) (p : α) : PageCache α := { c with frames := c.frames.insert q ⟨p, false⟩ }

/-- A page that was changed is dirty. -/
def put (c : PageCache α) (q : Nat) (p : α) : PageCache α := { c with frames := c.frames.insert q ⟨p, true⟩ }

/-- A write behind the end fills the gap. -/
def writeBlock (blank : α) (file : List α) (q : Nat) (p : α) : List α :=
  if q < file.length then file.set q p
  else file ++ List.replicate (q-file.length) blank ++ [p]

/-- The frame is written and is clean then. -/
def flush (blank : α) (c : PageCache α) (q : Nat) : PageCache α :=
  match c.frames.lookup q with
  | some f =>
    { file := writeBlock blank c.file q f.page
      frames := c.frames.insert q { f with dirty := false } }
  | none => c

/-- There is no dirty frame. -/
def clean (c : PageCache α) (q : Nat) : Bool :=
  match c.frames.lookup q with
  | some f => !f.dirty
  | none => true

/-- Only a frame that is not clean is written. -/
def writeBack (blank : α) (c : PageCache α) (q : Nat) : PageCache α := if c.clean q then c else c.flush blank q

def flushAll (blank : α) (c : PageCache α) : PageCache α := c.frames.keys.foldl (writeBack blank) c

/-- Only a clean frame is dropped. -/
def evict (c : PageCache α) (q : Nat) : PageCache α :=
  if c.clean q then { c with frames := c.frames.erase q } else c

/-- The frames stay, also those of pages that are cut off. -/
def truncate (c : PageCache α) (n : Nat) : PageCache α := { c with file := c.file.take n }

/-- A new page goes to the file without a frame. -/
def extend (c : PageCache α) (p : α) : PageCache α := { c with file := c.file ++ [p] }

/-- Clean frames agree with the file. -/
def Coherent (blank : α) (c : PageCache α) : Prop :=
  ∀ q f, c.frames.lookup q = some f → f.dirty = false → f.page = c.file.getD q blank

/-- The page is not lost when its frame is dropped. -/
def Kept (c : PageCache α) (q : Nat) : Prop := c.clean q = false ∨ q < c.file.length

/-! ## The file -/

section

variable (blank : α) (file : List α) (q : Nat) (p : α)

theorem writeBlock_length : (writeBlock blank file q p).length = max file.length (q+1) := by
  unfold writeBlock
  split
  · rw [length_set]
    omega
  · simp only [length_append, length_replicate, length_singleton]
    omega

theorem writeBlock_self : (writeBlock blank file q p)[q]? = some p := by
  unfold writeBlock
  split_ifs with h
  · rw [List.getElem?_set_self h]
  · rw [List.getElem?_append_right (by simp; omega)]
    simp only [length_append, length_replicate]
    rw [show q - (file.length + (q-file.length)) = 0 by omega]
    rfl

theorem writeBlock_getD (r : Nat) :
    (writeBlock blank file q p).getD r blank = if r = q then p else file.getD r blank := by
  by_cases hr : r = q
  · subst hr
    rw [getD_eq_getElem?_getD, writeBlock_self, if_pos rfl]
    rfl
  unfold writeBlock
  split_ifs with h
  · rw [getD_eq_getElem?_getD, List.getElem?_set_ne (Ne.symm hr), getD_eq_getElem?_getD]
  · by_cases hf : r < file.length
    · rw [append_assoc, getD_append _ _ _ _ hf]
    · have hout : file.getD r blank = blank := getD_eq_default _ _ (by omega)
      rw [hout, append_assoc, getD_append_right _ _ _ _ (by omega)]
      by_cases hq : r < q
      · rw [getD_append _ _ _ _ (by simp; omega), getD_replicate _ (by omega)]
      · exact getD_eq_default _ _ (by simp; omega)

end

/-! ## Frames after each operation -/

@[simp] theorem cached_load (c : PageCache α) (q : Nat) (p : α) (r : Nat) :
    (c.load q p).cached r = if r = q then some p else c.cached r := by
  unfold cached load
  by_cases h : r = q
  · subst h
    simp
  · simp [h, AList.lookup_insert_ne h]

@[simp] theorem cached_put (c : PageCache α) (q : Nat) (p : α) (r : Nat) :
    (c.put q p).cached r = if r = q then some p else c.cached r := by
  unfold cached put
  by_cases h : r = q
  · subst h
    simp
  · simp [h, AList.lookup_insert_ne h]

@[simp] theorem cached_flush (blank : α) (c : PageCache α) (q r : Nat) : (c.flush blank q).cached r = c.cached r := by
  unfold cached flush
  cases hf : c.frames.lookup q with
  | none => rfl
  | some f =>
    by_cases h : r = q
    · subst h
      simp [hf]
    · simp [AList.lookup_insert_ne h]

@[simp] theorem cached_writeBack (blank : α) (c : PageCache α) (q r : Nat) :
    (c.writeBack blank q).cached r = c.cached r := by
  unfold writeBack
  split
  · rfl
  · exact cached_flush blank c q r

theorem cached_writeBacks (blank : α) (qs : List Nat) (c : PageCache α) (r : Nat) :
    (qs.foldl (writeBack blank) c).cached r = c.cached r := by
  induction qs generalizing c with
  | nil => rfl
  | cons q qs ih => rw [foldl_cons, ih, cached_writeBack]

@[simp] theorem cached_flushAll (blank : α) (c : PageCache α) (r : Nat) : (c.flushAll blank).cached r = c.cached r :=
  cached_writeBacks blank _ c r

@[simp] theorem cached_truncate (c : PageCache α) (n r : Nat) : (c.truncate n).cached r = c.cached r := rfl

variable {q r : Nat} {c : PageCache α}

theorem cached_evict (c : PageCache α) (hr : r ≠ q) : (c.evict q).cached r = c.cached r := by
  unfold evict
  split
  · simp [cached, AList.lookup_erase_ne hr]
  · rfl

/-! ## The view -/

section

variable (blank : α) (c : PageCache α) (q : Nat)

theorem view_of_cached (p : α) (h : c.cached q = some p) : c.view blank q = p := by
  rw [view, h]
  rfl

theorem view_of_uncached (h : c.cached q = none) : c.view blank q = c.file.getD q blank := by
  rw [view, h]
  rfl

theorem view_of_contents (p : α) (h : c.contents q = some p) : c.view blank q = p := by
  unfold contents at h
  cases hc : c.cached q with
  | some p' =>
    simp only [hc] at h
    rw [view_of_cached blank c q p' hc]
    exact Option.some.inj h
  | none =>
    simp only [hc] at h
    rw [view_of_uncached blank c q hc, getD_eq_getElem?_getD, h]
    rfl

theorem view_load (h : c.cached q = none) (r : Nat) :
    (c.load q (c.file.getD q blank)).view blank r = c.view blank r := by
  by_cases hr : r = q
  · subst hr
    rw [view_of_cached blank _ r _ (by rw [cached_load, if_pos rfl]), view_of_uncached blank c r h]
  · rw [view, cached_load, if_neg hr]
    rfl

theorem view_put (p : α) (r : Nat) : (c.put q p).view blank r = if r = q then p else c.view blank r := by
  by_cases hr : r = q
  · subst hr
    rw [view_of_cached blank _ r p (by rw [cached_put, if_pos rfl]), if_pos rfl]
  · rw [view, cached_put, if_neg hr, if_neg hr]
    rfl

theorem file_flush (f : Frame α) (h : c.frames.lookup q = some f) :
    (c.flush blank q).file = writeBlock blank c.file q f.page := by
  rw [flush, h]

end

theorem lookup_of_cached {p : α} (h : c.cached q = some p) : ∃ f, c.frames.lookup q = some f ∧ f.page = p := by
  rw [cached, Option.map_eq_some_iff] at h
  exact h

section

variable (blank : α)

theorem lt_length_flush (c : PageCache α) (q : Nat) (p : α)
    (h : c.cached q = some p) : q < (c.flush blank q).file.length := by
  obtain ⟨f, hf, -⟩ := lookup_of_cached h
  rw [file_flush blank c q f hf, writeBlock_length]
  omega

theorem length_le_flush (c : PageCache α) (q : Nat) : c.file.length ≤ (c.flush blank q).file.length := by
  cases hf : c.frames.lookup q with
  | none => rw [flush, hf]
  | some f =>
    rw [file_flush blank c q f hf, writeBlock_length]
    omega

theorem length_le_writeBacks (qs : List Nat) (c : PageCache α) :
    c.file.length ≤ (qs.foldl (writeBack blank) c).file.length := by
  induction qs generalizing c with
  | nil => exact le_refl _
  | cons q qs ih =>
    have hq : c.file.length ≤ (c.writeBack blank q).file.length := by
      unfold writeBack
      split
      · exact le_refl _
      · exact length_le_flush blank c q
    exact le_trans hq (ih (c.writeBack blank q))

theorem length_le_flushAll (c : PageCache α) : c.file.length ≤ (c.flushAll blank).file.length :=
  length_le_writeBacks blank _ c

theorem view_flush (c : PageCache α) (q r : Nat) : (c.flush blank q).view blank r = c.view blank r := by
  cases hf : c.frames.lookup q with
  | none => rw [flush, hf]
  | some f =>
    rw [view, view, cached_flush]
    cases hr : c.cached r with
    | some p => rfl
    | none =>
      have hne : r ≠ q := by
        rintro rfl
        simp [cached, hf] at hr
      rw [file_flush blank c q f hf, writeBlock_getD, if_neg hne]

theorem view_writeBack (c : PageCache α) (q r : Nat) : (c.writeBack blank q).view blank r = c.view blank r := by
  unfold writeBack
  split
  · rfl
  · exact view_flush blank c q r

theorem view_writeBacks (qs : List Nat) (c : PageCache α) (r : Nat) :
    (qs.foldl (writeBack blank) c).view blank r = c.view blank r := by
  induction qs generalizing c with
  | nil => rfl
  | cons q qs ih => rw [foldl_cons, ih, view_writeBack]

theorem view_flushAll (c : PageCache α) (r : Nat) : (c.flushAll blank).view blank r = c.view blank r :=
  view_writeBacks blank _ c r

end

section

variable (blank : α) (c : PageCache α) (hc : c.Coherent blank)
include hc

theorem view_evict (q r : Nat) : (c.evict q).view blank r = c.view blank r := by
  by_cases hr : r = q
  · subst hr
    unfold evict
    split_ifs with hclean
    · rw [view_of_uncached blank _ r (by simp [cached])]
      cases hf : c.frames.lookup r with
      | none => rw [view_of_uncached blank c r (by simp [cached, hf])]
      | some f =>
        have hd : f.dirty = false := by simpa [clean, hf] using hclean
        rw [view_of_cached blank c r f.page (by simp [cached, hf]), hc r f hf hd]
    · rfl
  · rw [view, cached_evict c hr]
    unfold evict
    split <;> rfl

/-! ## Coherence -/

theorem coherent_load (q : Nat) : (c.load q (c.file.getD q blank)).Coherent blank := by
  intro r f hf hd
  by_cases hr : r = q
  · subst hr
    simp only [load, AList.lookup_insert, Option.some.injEq] at hf
    rw [← hf]
    rfl
  · rw [load, AList.lookup_insert_ne hr] at hf
    exact hc r f hf hd

theorem coherent_put (q : Nat) (p : α) : (c.put q p).Coherent blank := by
  intro r f hf hd
  by_cases hr : r = q
  · subst hr
    simp only [put, AList.lookup_insert, Option.some.injEq] at hf
    rw [← hf] at hd
    cases hd
  · rw [put, AList.lookup_insert_ne hr] at hf
    exact hc r f hf hd

theorem coherent_flush (q : Nat) : (c.flush blank q).Coherent blank := by
  cases hq : c.frames.lookup q with
  | none =>
    rw [flush, hq]
    exact hc
  | some g =>
    intro r f hf hd
    rw [file_flush blank c q g hq, writeBlock_getD]
    simp only [flush, hq] at hf
    by_cases hr : r = q
    · subst hr
      rw [AList.lookup_insert, Option.some.injEq] at hf
      rw [if_pos rfl, ← hf]
    · rw [AList.lookup_insert_ne hr] at hf
      rw [if_neg hr]
      exact hc r f hf hd

theorem coherent_writeBack (q : Nat) : (c.writeBack blank q).Coherent blank := by
  unfold writeBack
  split
  · exact hc
  · exact coherent_flush blank c hc q

theorem coherent_evict (q : Nat) : (c.evict q).Coherent blank := by
  unfold evict
  split
  · intro r f hf hd
    by_cases hr : r = q
    · subst hr
      simp at hf
    · rw [AList.lookup_erase_ne hr] at hf
      exact hc r f hf hd
  · exact hc

end

/-! ## Kept pages -/

theorem clean_of_lookup_eq {d : PageCache α} (h : d.frames.lookup q = c.frames.lookup q) : d.clean q = c.clean q := by
  rw [clean, clean, h]

section

variable (c : PageCache α) (q : Nat) (p : α)

theorem kept_load (h : c.cached q = none) (r : Nat) (hr : c.Kept r) : (c.load q p).Kept r := by
  cases hr with
  | inr hlt => exact .inr hlt
  | inl hclean =>
    have hne : r ≠ q := by
      rintro rfl
      rw [cached, Option.map_eq_none_iff] at h
      simp [clean, h] at hclean
    left
    rw [clean_of_lookup_eq (AList.lookup_insert_ne hne)]
    exact hclean

theorem kept_put_self : (c.put q p).Kept q := by
  left
  simp [clean, put]

theorem kept_put (r : Nat) (hr : c.Kept r) : (c.put q p).Kept r := by
  by_cases h : r = q
  · subst h
    exact kept_put_self c r p
  · cases hr with
    | inr hlt => exact .inr hlt
    | inl hclean =>
      left
      rw [clean_of_lookup_eq (AList.lookup_insert_ne h)]
      exact hclean

end

theorem kept_flush (blank : α) (q : Nat) (hr : c.Kept r) : (c.flush blank q).Kept r := by
  cases hf : c.frames.lookup q with
  | none =>
    rw [flush, hf]
    exact hr
  | some f =>
    have hlen : (c.flush blank q).file.length = max c.file.length (q+1) := by
      rw [file_flush blank c q f hf, writeBlock_length]
    by_cases h : r = q
    · right
      omega
    · cases hr with
      | inr hlt =>
        right
        omega
      | inl hclean =>
        left
        rw [clean_of_lookup_eq (by simp only [flush, hf]; exact AList.lookup_insert_ne h)]
        exact hclean

theorem kept_writeBack (blank : α) (q : Nat) (hr : c.Kept r) : (c.writeBack blank q).Kept r := by
  unfold writeBack
  split
  · exact hr
  · exact kept_flush blank q hr

theorem kept_evict (q : Nat) (hr : c.Kept r) : (c.evict q).Kept r := by
  unfold evict
  split_ifs with hq
  · cases hr with
    | inr hlt => exact .inr hlt
    | inl hclean =>
      have hne : r ≠ q := by
        rintro rfl
        rw [hq] at hclean
        cases hclean
      left
      rw [clean_of_lookup_eq (AList.lookup_erase_ne hne)]
      exact hclean
  · exact hr

theorem cached_isSome_of_dirty (h : c.clean q = false) : (c.cached q).isSome := by
  unfold clean at h
  cases hf : c.frames.lookup q with
  | none => simp [hf] at h
  | some f => simp [cached, hf]

end PageCache
end WeaverDB
