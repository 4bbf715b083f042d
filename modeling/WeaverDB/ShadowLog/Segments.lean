import WeaverDB.ShadowLog.Log

/-! # Replaying one segment

The replay of a segment is a walk of the cursor `fd`, `cdb`, `crel` over the images. A relation whose
file does not open closes `fd` and leaves `cdb` and `crel` in place: the next image of the relation
named there finds itself already open, and is dropped.
-/

namespace WeaverDB.ShadowLog
open Foundations List

variable {opens : Oid → Oid → Bool} {cur : Cursor} {c : Config} {images : List (Image c)}

/-! ## Reading back what was stored -/

theorem blcksz_lt_int32 (c : Config) : c.blcksz < 256^4 := Nat.lt_of_le_of_lt c.bounded (by decide)

theorem leValue_get {n m : Nat} (hn : n < 256^4) (tail : Bytes) : leValue ((leBytes 4 n ++ tail).take 4 ++
      (leBytes 4 m).drop ((leBytes 4 n ++ tail).take 4).length) = n := by
  rw [take_left' (length_leBytes 4 n), length_leBytes,
    drop_of_length_le (Nat.le_of_eq (length_leBytes 4 m)), append_nil, leValue_leBytes,
    Nat.mod_eq_of_lt hn]

theorem readImage_stored (page : { page : Bytes // page.length = c.blcksz }) (tail : Bytes) :
    readImage c c.compressLog (stored c page ++ tail) = (c.blcksz, page.val, tail) := by
  have hpage := page.property
  unfold readImage stored
  cases c.compressLog with
  | false =>
    simp only [Bool.false_eq_true, if_false, take_left' hpage, drop_left' hpage, hpage]
  | true =>
    have hfits := c.lzf.compress_fits page.val (c.blcksz-1)
    have hpos := c.blcksz_pos
    simp only [if_true]
    split
    · -- the raw block follows its length
      rw [append_assoc, leValue_get (blcksz_lt_int32 c), if_neg fun h => h rfl,
        drop_left' (length_leBytes 4 _), take_left' hpage, drop_left' hpage]
    · next hput =>
      have hlt : (c.lzf.compress page.val (c.blcksz-1)).length < c.blcksz := by omega
      have hback := c.lzf.decompress_compress page.val (c.blcksz-1) hput
      rw [hpage] at hback
      rw [append_assoc, leValue_get (Nat.lt_trans hlt (blcksz_lt_int32 c)),
        if_pos (Nat.ne_of_lt hlt), drop_left' (length_leBytes 4 _), take_left,
        drop_left, hback, hpage]

def storedImages (images : List (Image c)) : Bytes := images.flatMap fun image => stored c image.buffer

def replayImages (images : List (Image c)) (start : Cursor × Recovery) : Cursor × Recovery :=
  images.foldl (fun p image => replayBlock image.entry image.buffer p.1 p.2) start

theorem replayEntry_stored (image : Image c) (tail : Bytes) (total : Nat) (cur : Cursor) (r : Recovery) :
    replayEntry c false c.compressLog ⟨stored c image.buffer ++ tail, total, cur, r⟩ image.entry =
      ⟨tail, total+c.blcksz, (replayBlock image.entry image.buffer cur r).1,
        (replayBlock image.entry image.buffer cur r).2⟩ := by
  unfold replayEntry
  rw [readImage_stored]
  simp only [Bool.false_eq_true, if_false, if_true]

theorem foldl_replayEntry (images : List (Image c)) (tail : Bytes) (total : Nat) (cur : Cursor) (r : Recovery) :
    (images.map Image.entry).foldl (replayEntry c false c.compressLog) ⟨storedImages images ++ tail, total, cur, r⟩ =
      ⟨tail, total + c.blcksz * images.length, (replayImages images (cur, r)).1, (replayImages images (cur, r)).2⟩ := by
  induction images generalizing total cur r with
  | nil => rfl
  | cons image images ih =>
    have hstored : storedImages (image :: images) ++ tail = stored c image.buffer ++ (storedImages images ++ tail) := by
      rw [storedImages, flatMap_cons, append_assoc, storedImages]
    have htotal : total + c.blcksz + c.blcksz * images.length = total + c.blcksz * (image :: images).length := by
      rw [length_cons, Nat.mul_succ, add_assoc, add_comm c.blcksz]
    rw [map_cons, foldl_cons, hstored, replayEntry_stored, ih, htotal]
    rfl

def segmentOf (segId : Int64) (images : List (Image c)) : LogSegment where
  segmentMagic := segmentMagic
  segId := segId
  count := Int16.ofNat (images.map Image.entry).length
  blocks := images.map Image.entry

def segmentBytes (segId : Int64) (images : List (Image c)) : Bytes :=
  (segmentOf segId images).data c ++ storedImages images

section

variable (segId : Int64) {images : List (Image c)} (hfit : images.length ≤ c.maxBlocks)
include hfit

theorem length_segmentOf : ((segmentOf segId images).data c).length = c.blcksz :=
  LogSegment.length_data (by rwa [segmentOf, length_map])

theorem ofData_segmentOf : LogSegment.ofData ((segmentOf segId images).data c) = segmentOf segId images := by
  have hshort : (images.map Image.entry).length < 2^15 := by
    rw [length_map]
    exact Nat.lt_of_le_of_lt hfit c.maxBlocks_lt
  exact LogSegment.ofData_data c hshort rfl

theorem vfdreplaysegment_segmentBytes (tail : Bytes) (r : Recovery) :
    vfdreplaysegment c false c.compressLog (segmentBytes segId images ++ tail) r =
      (some (c.blcksz * (1+images.length)), tail, (replayImages images (⟨none, 0, 0⟩, r)).2) := by
  have hlength := length_segmentOf segId hfit
  have htake : (segmentBytes segId images ++ tail).take c.blcksz = (segmentOf segId images).data c := by
    rw [segmentBytes, append_assoc, take_left' hlength]
  have hdrop : (segmentBytes segId images ++ tail).drop c.blcksz = storedImages images ++ tail := by
    rw [segmentBytes, append_assoc, drop_left' hlength]
  have hblocks : (segmentOf segId images).blocks = images.map Image.entry := rfl
  unfold vfdreplaysegment
  dsimp only
  rw [htake, hdrop, ofData_segmentOf segId hfit, if_neg fun h => h hlength,
    if_neg fun h => h rfl, hblocks, foldl_replayEntry, Nat.mul_add, Nat.mul_one]

end

/-! ## The walk of the cursor -/

def blockWrite (image : Image c) : BlockWrite := ⟨image.info.dbid, image.info.relid, image.block, image.buffer⟩

def Opens (opens : Oid → Oid → Bool) (image : Image c) : Bool := opens image.info.dbid image.info.relid

def SameRelation (a b : Image c) : Prop := a.info.dbid = b.info.dbid ∧ a.info.relid = b.info.relid

def walkCursor (opens : Oid → Oid → Bool) (cur : Cursor) (images : List (Image c)) : Cursor :=
  images.foldl (fun cur image => openRelation opens image.entry cur) cur

def emittedAt (cur : Cursor) (image : Image c) : List BlockWrite :=
  match cur.fd with
  | none => []
  | some (dbid, relid) => [⟨dbid, relid, image.block, image.buffer⟩]

def emitted (opens : Oid → Oid → Bool) : Cursor → List (Image c) → List BlockWrite
  | _, [] => []
  | cur, image :: images =>
    emittedAt (openRelation opens image.entry cur) image ++
      emitted opens (openRelation opens image.entry cur) images

theorem emitted_append (opens : Oid → Oid → Bool) (cur : Cursor) (a b : List (Image c)) :
    emitted opens cur (a ++ b) = emitted opens cur a ++ emitted opens (walkCursor opens cur a) b := by
  induction a generalizing cur with
  | nil => rfl
  | cons image a ih =>
    rw [cons_append, emitted, ih, emitted, append_assoc]
    rfl

theorem opens_writeBlock (w : BlockWrite) (r : Recovery) : (writeBlock w r).opens = r.opens := by
  funext dbid relid
  simp only [Recovery.opens, writeBlock, applyWrite]
  split
  · exact Option.isSome_map
  · rfl

structure Wrote (r : Recovery) (ws : List BlockWrite) (r' : Recovery) : Prop where
  writes : r'.writes = r.writes ++ ws
  files : r'.files = ws.foldl applyWrite r.files
  opens : r'.opens = r.opens

namespace Wrote

theorem refl (r : Recovery) : Wrote r [] r := ⟨(append_nil _).symm, rfl, rfl⟩

theorem trans {r₁ r₂ r₃ : Recovery} {ws ws' : List BlockWrite} (h : Wrote r₁ ws r₂)
    (h' : Wrote r₂ ws' r₃) : Wrote r₁ (ws ++ ws') r₃ where
  writes := by rw [h'.writes, h.writes, append_assoc]
  files := by rw [h'.files, h.files, foldl_append]
  opens := h'.opens.trans h.opens

theorem silent {r₁ r₂ r₃ : Recovery} {ws : List BlockWrite} (h : Wrote r₁ ws r₂)
    (h' : Wrote r₂ [] r₃) : Wrote r₁ ws r₃ := by
  rw [← append_nil ws]
  exact h.trans h'

end Wrote

theorem wrote_replayBlock (image : Image c) (cur : Cursor) (r : Recovery) :
    (replayBlock image.entry image.buffer cur r).1 = openRelation r.opens image.entry cur ∧
      Wrote r (emittedAt (openRelation r.opens image.entry cur) image)
        (replayBlock image.entry image.buffer cur r).2 := by
  unfold replayBlock emittedAt
  dsimp only
  cases (openRelation r.opens image.entry cur).fd with
  | none => exact ⟨rfl, .refl r⟩
  | some rel =>
    have hopens := opens_writeBlock ⟨rel.1, rel.2, image.block, image.buffer⟩ r
    dsimp only
    split
    · exact ⟨rfl, rfl, rfl, hopens⟩
    · exact ⟨rfl, rfl, rfl, hopens⟩

theorem wrote_replayImages (images : List (Image c)) (cur : Cursor) (r : Recovery) :
    Wrote r (emitted r.opens cur images) (replayImages images (cur, r)).2 := by
  induction images generalizing cur r with
  | nil => exact .refl r
  | cons image images ih =>
    obtain ⟨hcur, hwrote⟩ := wrote_replayBlock image cur r
    have hrest := ih (openRelation r.opens image.entry cur) (replayBlock image.entry image.buffer cur r).2
    have hstep : replayImages (image :: images) (cur, r) = replayImages images (openRelation r.opens image.entry cur,
          (replayBlock image.entry image.buffer cur r).2) := by
      rw [← hcur]
      rfl
    rw [hwrote.opens] at hrest
    rw [hstep]
    exact hwrote.trans hrest

/-! ## Missing relations -/

/-- An open descriptor belongs to the relation in `cdb` and `crel`, whose file opens. -/
def Cursor.Tied (opens : Oid → Oid → Bool) (cur : Cursor) : Prop :=
  cur.fd = none ∨ cur.fd = some (cur.cdb, cur.crel) ∧ opens cur.cdb cur.crel = true

def Cursor.On (cur : Cursor) (image : Image c) : Prop := cur.cdb = image.info.dbid ∧ cur.crel = image.info.relid

section

variable {image : Image c}

theorem openRelation_same (hon : cur.On image) : openRelation opens image.entry cur = cur :=
  if_neg fun h => h.elim (fun h => h hon.1) (fun h => h hon.2)

theorem ne_of_not_on (hon : ¬ cur.On image) : cur.cdb ≠ image.info.dbid ∨ cur.crel ≠ image.info.relid :=
  Decidable.not_and_iff_or_not.mp hon

theorem openRelation_opens (hon : ¬ cur.On image) (hopens : Opens opens image) : openRelation opens image.entry cur =
      ⟨some (image.info.dbid, image.info.relid), image.info.dbid, image.info.relid⟩ :=
  (if_pos (ne_of_not_on hon)).trans (if_pos hopens)

theorem openRelation_missing (hon : ¬ cur.On image) (hopens : Opens opens image = false) :
    openRelation opens image.entry cur = { cur with fd := none } :=
  (if_pos (ne_of_not_on hon)).trans (if_neg (ne_true_of_eq_false hopens))

theorem tied_openRelation (image : Image c) (htied : cur.Tied opens) :
    (openRelation opens image.entry cur).Tied opens := by
  obtain hon | hon := Classical.em (cur.On image)
  · rwa [openRelation_same hon]
  · cases hopens : Opens opens image with
    | true =>
      rw [openRelation_opens hon hopens]
      exact .inr ⟨rfl, hopens⟩
    | false =>
      rw [openRelation_missing hon hopens]
      exact .inl rfl

theorem on_openRelation (hopens : Opens opens image) : (openRelation opens image.entry cur).On image := by
  obtain hon | hon := Classical.em (cur.On image)
  · rwa [openRelation_same hon]
  · rw [openRelation_opens hon hopens]
    exact ⟨rfl, rfl⟩

theorem fd_of_missing (htied : cur.Tied opens) (hopens : Opens opens image = false) :
    (openRelation opens image.entry cur).fd = none := by
  obtain hon | hon := Classical.em (cur.On image)
  · rw [openRelation_same hon]
    refine htied.resolve_right fun h => ?_
    have hcur : opens image.info.dbid image.info.relid := by rw [← hon.1, ← hon.2]; exact h.2
    exact Bool.false_ne_true (hopens.symm.trans hcur)
  · rw [openRelation_missing hon hopens]

end

theorem tied_walkCursor (images : List (Image c))
    (htied : cur.Tied opens) : (walkCursor opens cur images).Tied opens := by
  induction images generalizing cur with
  | nil => exact htied
  | cons image images ih => exact ih (tied_openRelation image htied)

theorem length_emitted_le (images : List (Image c)) (htied : cur.Tied opens) :
    (emitted opens cur images).length ≤ (images.filter (Opens opens)).length := by
  induction images generalizing cur with
  | nil => exact Nat.le_refl _
  | cons image images ih =>
    have hrest := ih (tied_openRelation image htied)
    rw [emitted, length_append]
    cases hopens : Opens opens image with
    | true =>
      have hone : (emittedAt (openRelation opens image.entry cur) image).length ≤ 1 := by
        unfold emittedAt
        split
        · exact Nat.zero_le 1
        · exact Nat.le_refl 1
      rw [filter_cons_of_pos hopens, length_cons]
      omega
    | false =>
      rw [filter_cons_of_neg (by rw [hopens]; exact nofun), emittedAt, fd_of_missing htied hopens]
      simpa using hrest

/-- Only images of relations whose files do not open come between two of one that does. -/
def Interrupted (opens : Oid → Oid → Bool) (images : List (Image c)) : Prop :=
  ∃ before x missing y after, images = before ++ x :: missing ++ y :: after ∧
    Opens opens x ∧ missing ≠ [] ∧ (∀ m ∈ missing, Opens opens m = false) ∧ SameRelation x y

/-! ### An interrupted relation loses an image -/

theorem not_on_of_missing {x m : Image c}
    (hon : cur.On x) (hx : Opens opens x) (hm : Opens opens m = false) : ¬ cur.On m := by
  intro honm
  have hsame : Opens opens m = Opens opens x := by
    rw [Opens, Opens, ← honm.1, ← honm.2, hon.1, hon.2]
  exact Bool.false_ne_true (hm.symm.trans (hsame.trans hx))

theorem walk_missing {x : Image c} (hx : Opens opens x) {missing : List (Image c)}
    (hmissing : ∀ m ∈ missing, Opens opens m = false) (hon : cur.On x) (hfd : cur.fd = none) :
    (walkCursor opens cur missing).On x ∧ (walkCursor opens cur missing).fd = none := by
  induction missing generalizing cur with
  | nil => exact ⟨hon, hfd⟩
  | cons m missing ih =>
    have hm : Opens opens m = false := hmissing m (.head _)
    have hstep := openRelation_missing (not_on_of_missing hon hx hm) hm
    rw [walkCursor, foldl_cons, hstep]
    exact ih (fun m' hm' => hmissing m' (.tail _ hm')) hon rfl

theorem walk_interrupted {x : Image c} (hx : Opens opens x) {missing : List (Image c)} (hne : missing ≠ [])
    (hmissing : ∀ m ∈ missing, Opens opens m = false) (before : List (Image c)) (cur : Cursor) :
    (walkCursor opens cur (before ++ x :: missing)).On x ∧
      (walkCursor opens cur (before ++ x :: missing)).fd = none := by
  cases missing with
  | nil => exact absurd rfl hne
  | cons m missing =>
    have hm : Opens opens m = false := hmissing m (.head _)
    have hon : (openRelation opens x.entry (walkCursor opens cur before)).On x := on_openRelation hx
    have hstep := openRelation_missing (not_on_of_missing hon hx hm) hm
    rw [walkCursor, foldl_append]
    change (walkCursor opens (openRelation opens m.entry (openRelation opens x.entry
      (walkCursor opens cur before))) missing).On x ∧ (walkCursor opens (openRelation opens m.entry
      (openRelation opens x.entry (walkCursor opens cur before))) missing).fd = none
    rw [hstep]
    exact walk_missing hx (fun m' hm' => hmissing m' (.tail _ hm')) hon rfl

theorem emitted_stale {y : Image c} (hon : cur.On y) (hfd : cur.fd = none)
    (after : List (Image c)) : emitted opens cur (y :: after) = emitted opens cur after := by
  rw [emitted, openRelation_same hon, emittedAt, hfd]
  rfl

theorem Interrupted.length_emitted_lt (h : Interrupted opens images) (htied : cur.Tied opens) :
    (emitted opens cur images).length < (images.filter (Opens opens)).length := by
  obtain ⟨before, x, missing, y, after, rfl, hx, hne, hmissing, hsame⟩ := h
  obtain ⟨hon, hfd⟩ := walk_interrupted hx hne hmissing before cur
  have hony : (walkCursor opens cur (before ++ x :: missing)).On y := ⟨hon.1.trans hsame.1, hon.2.trans hsame.2⟩
  have hy : Opens opens y := by rwa [Opens, ← hsame.1, ← hsame.2]
  have hfirst := length_emitted_le (before ++ x :: missing) htied
  have hafter := length_emitted_le after (tied_walkCursor (before ++ x :: missing) htied)
  rw [emitted_append, emitted_stale hony hfd, length_append, filter_append,
    length_append, filter_cons_of_pos hy, length_cons]
  omega

/-! ### Otherwise every image is written -/

/-- On the last relation that opened, with its file open if no missing one followed. -/
def Cursor.After (opens : Oid → Oid → Bool) (before : List (Image c)) (cur : Cursor) : Prop :=
  (∃ b x missing, before = b ++ x :: missing ∧ Opens opens x ∧
    (∀ m ∈ missing, Opens opens m = false) ∧ cur.On x ∧ (missing = [] → cur.fd ≠ none)) ∨
  (cur = ⟨none, 0, 0⟩)

section

variable {before : List (Image c)} {y : Image c}

theorem Cursor.After.missing (h : cur.After opens before) (hvalid : y.info.relid ≠ 0) (hy : Opens opens y = false) :
    (openRelation opens y.entry cur).After opens (before ++ [y]) := by
  obtain ⟨b, x, missing, rfl, hx, hmissing, hon, _⟩ | rfl := h
  · rw [openRelation_missing (not_on_of_missing hon hx hy) hy]
    refine .inl ⟨b, x, missing ++ [y], by rw [append_assoc, cons_append], hx, ?_, hon, fun h => absurd h (by simp)⟩
    intro m hm
    obtain hm | hm := mem_append.mp hm
    · exact hmissing m hm
    · rwa [mem_singleton.mp hm]
  · rw [openRelation_missing (fun hon => hvalid hon.2.symm) hy]
    exact .inr rfl

theorem Cursor.After.opened (h : cur.After opens before) (htied : cur.Tied opens)
    (hvalid : y.info.relid ≠ 0) (hy : Opens opens y) {after : List (Image c)}
    (hnever : ¬ Interrupted opens (before ++ y :: after)) :
    (openRelation opens y.entry cur).fd = some (y.info.dbid, y.info.relid) := by
  obtain hony | hony := Classical.em (cur.On y)
  · rw [openRelation_same hony]
    obtain ⟨b, x, missing, rfl, hx, hmissing, honx, hfd⟩ | rfl := h
    · -- the relation is still open: an interruption is excluded
      have hnil : missing = [] := by
        refine Classical.byContradiction fun hne => hnever ⟨b, x, missing, y, after, rfl, hx, hne, hmissing, ?_⟩
        exact ⟨honx.1.symm.trans hony.1, honx.2.symm.trans hony.2⟩
      obtain ⟨hopen, _⟩ := htied.resolve_left (hfd hnil)
      rw [hopen, hony.1, hony.2]
    · exact absurd hony.2.symm hvalid
  · rw [openRelation_opens hony hy]

theorem emitted_uninterrupted (images before : List (Image c))
    (hvalid : ∀ image ∈ images, image.info.relid ≠ 0) (htied : cur.Tied opens)
    (hafter : cur.After opens before) (hnever : ¬ Interrupted opens (before ++ images)) :
    emitted opens cur images = (images.filter (Opens opens)).map blockWrite := by
  induction images generalizing before cur with
  | nil => rfl
  | cons y images ih =>
    have hy0 : y.info.relid ≠ 0 := hvalid y (.head _)
    have hvalid' : ∀ image ∈ images, image.info.relid ≠ 0 := fun image h => hvalid image (.tail _ h)
    have hnever' : ¬ Interrupted opens (before ++ [y] ++ images) := by
      rwa [append_assoc]
    have htied' := tied_openRelation y htied
    rw [emitted]
    cases hy : Opens opens y with
    | true =>
      have hfd := hafter.opened htied hy0 hy hnever
      have hafter' : (openRelation opens y.entry cur).After opens (before ++ [y]) :=
        .inl ⟨before, y, [], rfl, hy, fun _ h => (nomatch h), on_openRelation hy, fun _ h => (nomatch hfd.symm.trans h)⟩
      rw [ih (before ++ [y]) hvalid' htied' hafter' hnever', filter_cons_of_pos hy, emittedAt, hfd]
      rfl
    | false =>
      have hafter' := hafter.missing hy0 hy
      rw [ih (before ++ [y]) hvalid' htied' hafter' hnever',
        filter_cons_of_neg (ne_true_of_eq_false hy), emittedAt, fd_of_missing htied hy]
      rfl

end

theorem emitted_iff (hvalid : ∀ image ∈ images, image.info.relid ≠ 0) :
    emitted opens ⟨none, 0, 0⟩ images = (images.filter (Opens opens)).map blockWrite ↔ ¬ Interrupted opens images := by
  constructor
  · intro hall hinterrupted
    have hclosed : Cursor.Tied opens ⟨none, 0, 0⟩ := .inl rfl
    have hlt := hinterrupted.length_emitted_lt hclosed
    rw [hall, length_map] at hlt
    exact Nat.lt_irrefl _ hlt
  · intro hnever
    exact emitted_uninterrupted images [] hvalid (.inl rfl) (.inr rfl) hnever

/-! ## Segments with missing relations -/

theorem vfdreplaysegment_writes (segId : Int64) (hfit : images.length ≤ c.maxBlocks) (tail : Bytes) (r : Recovery) :
    (vfdreplaysegment c false c.compressLog (segmentBytes segId images ++ tail) r).2.2.writes =
      r.writes ++ emitted r.opens ⟨none, 0, 0⟩ images := by
  rw [vfdreplaysegment_segmentBytes segId hfit]
  exact (wrote_replayImages images ⟨none, 0, 0⟩ r).writes

/-- Every image of a relation whose file opens is written, unless missing ones interrupt it. -/
theorem segment_images_written_iff (c : Config) (segId : Int64) (images : List (Image c))
    (hfit : images.length ≤ c.maxBlocks) (hvalid : ∀ image ∈ images, image.info.relid ≠ 0)
    (tail : Bytes) (r : Recovery) :
    (vfdreplaysegment c false c.compressLog (segmentBytes segId images ++ tail) r).2.2.writes =
        r.writes ++ (images.filter (Opens r.opens)).map blockWrite ↔
      ¬ Interrupted r.opens images := by
  rw [vfdreplaysegment_writes segId hfit, append_right_inj]
  exact emitted_iff hvalid

def oneRelation : Recovery where
  files := fun dbid relid => if dbid = 1 ∧ relid = 1 then some fun _ => none else none
  writes := []
  recovered := []

/-- Block 0 of relation 1, block 0 of the dropped relation 2, block 1 of relation 1. -/
def aroundDropped : List (Image .standard) := [.filled _ 1 1 0 7, .filled _ 1 2 0 8, .filled _ 1 1 1 9]

def afterDropped : List (Image .standard) := [.filled _ 1 2 0 8, .filled _ 1 1 0 7]

theorem replayed_of_nil {segment tail : Bytes} {ws : List BlockWrite} (htail : tail = [])
    (h : (vfdreplaysegment .standard false Config.standard.compressLog (segment ++ tail) oneRelation).2.2.writes = ws) :
    (vfdreplaysegment .standard false false segment oneRelation).2.2.writes = ws := by
  rw [htail, append_nil] at h
  exact h

theorem segment_images_written_iff_after_dropped :
    (vfdreplaysegment .standard false false (segmentBytes 0 afterDropped) oneRelation).2.2.writes =
      [blockWrite (Image.filled .standard 1 1 0 7)] := by
  have hvalid : ∀ image ∈ afterDropped, image.info.relid ≠ 0 := by
    intro image himage
    rcases mem_pair.mp himage with rfl | rfl <;> decide
  have hnever : ¬ Interrupted oneRelation.opens afterDropped := by
    rintro ⟨before, x, missing, y, after, himages, _, hne, _, _⟩
    have hlength := congrArg List.length himages
    have hpos := length_pos_iff.mpr hne
    simp only [afterDropped, length_append, length_cons, length_nil] at hlength
    omega
  have hfit : afterDropped.length ≤ Config.standard.maxBlocks := by decide
  have hwritten := (segment_images_written_iff .standard 0 _ hfit hvalid [] oneRelation).mpr hnever
  have hlist : oneRelation.writes ++ (afterDropped.filter (Opens oneRelation.opens)).map blockWrite =
      [blockWrite (Image.filled .standard 1 1 0 7)] := rfl
  exact replayed_of_nil rfl (hwritten.trans hlist)

/-- The dropped relation closes the file of relation 1. -/
theorem image_after_dropped_relation_lost :
    (vfdreplaysegment .standard false false (segmentBytes 0 aroundDropped) oneRelation).2.2.writes =
        [blockWrite (Image.filled .standard 1 1 0 7)] ∧
      Opens oneRelation.opens (Image.filled .standard 1 1 1 9) ∧
      Image.filled .standard 1 1 1 9 ∈ aroundDropped := by
  refine ⟨?_, rfl, .tail _ (.tail _ (.head _))⟩
  have hfit : aroundDropped.length ≤ Config.standard.maxBlocks := by decide
  have hwrites := vfdreplaysegment_writes 0 hfit [] oneRelation
  have hlist : oneRelation.writes ++ emitted oneRelation.opens ⟨none, 0, 0⟩ aroundDropped =
      [blockWrite (Image.filled .standard 1 1 0 7)] := rfl
  exact replayed_of_nil rfl (hwrites.trans hlist)

end WeaverDB.ShadowLog
