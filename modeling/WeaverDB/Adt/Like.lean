import Mathlib.Data.List.Infix
import Mathlib.Data.List.TakeWhile

/-! # LIKE

`DoMatch` of `like.c` calls itself wherever the rest of the pattern after a `%` may start. `LIKE_ABORT`
says that no end of the text matches either, and every enclosing `%` gives up. `Likes` is the rule of
the SQL standard. A `pg_wchar` is a byte in this build; the model takes any character, as `DoMatch` only
compares.
-/

namespace WeaverDB.Like
open List

abbrev PgWchar := Char

inductive LikeResult where
  | likeTrue
  | likeFalse
  | likeAbort
deriving DecidableEq

variable {p s text rest : List PgWchar} {c a : PgWchar} {r : LikeResult}

/-- The search for a place in the text where the rest of the pattern, from `first` on, matches. -/
def scanText (doMatch : List PgWchar → LikeResult) (first : PgWchar) : List PgWchar → LikeResult
  | [] => .likeAbort
  | t :: text =>
    if t = first ∨ first = '\\' ∨ first = '_' then
      match doMatch (t :: text) with
      | .likeFalse => scanText doMatch first text
      | matched => matched
    else scanText doMatch first text

theorem length_of_dropWhile {q : PgWchar → Bool} (h : p.dropWhile q = c :: rest) : rest.length < p.length := by
  have hle := (dropWhile_sublist q (l := p)).length_le
  rw [h, length_cons] at hle
  omega

/-- `DoMatch`; the end of a list is the character `'\0'` behind the string. -/
def doMatch (text p : List PgWchar) : LikeResult :=
  match text, p with
  | [], p => if p.dropWhile (· = '%') = [] then .likeTrue else .likeAbort
  | _ :: _, [] => .likeFalse
  | t :: text, '\\' :: p =>
    match p with
    -- the pattern ends here, but the text does not
    | [] => .likeFalse
    | c :: p => if t ≠ c then .likeFalse else doMatch text p
  | _ :: text, '_' :: p => doMatch text p
  | t :: text, '%' :: p =>
    match _h : p.dropWhile (· = '%') with
    | [] => .likeTrue
    | c :: p => scanText (fun text => doMatch text (c :: p)) c (t :: text)
  | t :: text, c :: p => if t ≠ c then .likeFalse else doMatch text p
termination_by p.length
decreasing_by
  all_goals simp only [length_cons]
  all_goals try omega
  exact Nat.succ_lt_succ (length_of_dropWhile (by assumption))

def like (text p : List PgWchar) : Bool := if p = ['%'] then true else doMatch text p = .likeTrue

def cString (s : List PgWchar) : List PgWchar := s.takeWhile (· ≠ '\x00')

/-- `s` is the string, `p` the data of the pattern; `none` is the null pointer. -/
def fixedlenLike (s p : Option (List PgWchar)) : Bool :=
  match s, p with
  | some s, some p => like (cString s) (cString p)
  | _, _ => false

def nameDataLen : Nat := 64

def namelike (n p : Option (List PgWchar)) : Bool :=
  match n with
  | none => false
  | some n => fixedlenLike (some (n.take nameDataLen)) p

def textlike (s p : Option (List PgWchar)) : Bool :=
  match s with
  | none => false
  | some s => fixedlenLike (some s) p

def textnlike (s p : Option (List PgWchar)) : Bool := !textlike s p

def Likes : List PgWchar → List PgWchar → Prop
  | [], s => s = []
  | '%' :: p, s => ∃ t, t <:+ s ∧ Likes p t
  | '_' :: p, s => ∃ a t, s = a :: t ∧ Likes p t
  | ['\\'], _ => False
  | '\\' :: c :: p, s => ∃ t, s = c :: t ∧ Likes p t
  | c :: p, s => ∃ t, s = c :: t ∧ Likes p t

theorem likes_nil : Likes [] s ↔ s = [] := .rfl

theorem likes_percent : Likes ('%' :: p) s ↔ ∃ t, t <:+ s ∧ Likes p t := .rfl

theorem likes_underscore : Likes ('_' :: p) s ↔ ∃ a t, s = a :: t ∧ Likes p t := .rfl

theorem likes_backslash : Likes ('\\' :: c :: p) s ↔ ∃ t, s = c :: t ∧ Likes p t := .rfl

theorem not_likes_backslash : ¬ Likes ['\\'] s := id

def Plain (c : PgWchar) : Prop := c ≠ '%' ∧ c ≠ '_' ∧ c ≠ '\\'

theorem likes_plain (h : Plain c) : Likes (c :: p) s ↔ ∃ t, s = c :: t ∧ Likes p t := by
  rw [Likes]
  all_goals simp_all [Plain]

theorem likes_percents : Likes ('%' :: p) s ↔ ∃ t, t <:+ s ∧ Likes (p.dropWhile (· = '%')) t := by
  induction p generalizing s with
  | nil => simp only [dropWhile_nil, likes_percent]
  | cons c p ih =>
    rw [dropWhile_cons]
    split
    · next hc =>
      have hc : c = '%' := of_decide_eq_true hc
      subst hc
      constructor
      · rintro ⟨t, ht, h⟩
        obtain ⟨u, hu, h⟩ := ih.mp h
        exact ⟨u, hu.trans ht, h⟩
      · rintro ⟨t, ht, h⟩
        exact ⟨t, ht, ih.mpr ⟨t, suffix_rfl, h⟩⟩
    · exact likes_percent

theorem likes_cons (hc : c ≠ '%') (h : Likes (c :: p) s) : ∃ a t, s = a :: t ∧ (a = c ∨ c = '\\' ∨ c = '_') := by
  by_cases hline : c = '_'
  · subst hline
    obtain ⟨a, t, hs, -⟩ := likes_underscore.mp h
    exact ⟨a, t, hs, .inr (.inr rfl)⟩
  by_cases hback : c = '\\'
  · subst hback
    cases p with
    | nil => exact absurd h not_likes_backslash
    | cons d p =>
      obtain ⟨t, hs, -⟩ := likes_backslash.mp h
      exact ⟨d, t, hs, .inr (.inl rfl)⟩
  · obtain ⟨t, hs, -⟩ := (likes_plain ⟨hc, hline, hback⟩).mp h
    exact ⟨c, t, hs, .inl rfl⟩

def Right (p text : List PgWchar) : LikeResult → Prop
  | .likeTrue => Likes p text
  | .likeFalse => ¬ Likes p text
  | .likeAbort => ∀ t, t <:+ text → ¬ Likes p t

theorem Right.iff (h : Right p text r) : r = .likeTrue ↔ Likes p text := by
  cases r with
  | likeTrue => exact ⟨fun _ => h, fun _ => rfl⟩
  | likeFalse => exact ⟨nofun, fun hl => absurd hl h⟩
  | likeAbort => exact ⟨nofun, fun hl => absurd hl (h text suffix_rfl)⟩

theorem suffix_of_cons_suffix {b : PgWchar} {t : List PgWchar} (h : a :: t <:+ b :: text) : t <:+ text := by
  obtain heq | h := suffix_cons_iff.mp h
  · cases heq
    exact suffix_rfl
  · exact (suffix_cons a t).trans h

theorem Right.step {head : List PgWchar} {accepts : PgWchar → Prop}
    (hhead : ∀ s, Likes (head ++ p) s ↔ ∃ a t, s = a :: t ∧ accepts a ∧ Likes p t) (ha : accepts a)
    (h : Right p text r) : Right (head ++ p) (a :: text) r := by
  have hiff : Likes (head ++ p) (a :: text) ↔ Likes p text := by
    rw [hhead]
    constructor
    · rintro ⟨b, t, heq, -, hl⟩
      cases heq
      exact hl
    · intro hl
      exact ⟨a, text, rfl, ha, hl⟩
  cases r with
  | likeTrue => exact hiff.mpr h
  | likeFalse => exact fun hl => h (hiff.mp hl)
  | likeAbort =>
    intro s hs hl
    obtain ⟨b, t, rfl, -, hl⟩ := (hhead s).mp hl
    exact h t (suffix_of_cons_suffix hs) hl

theorem scanText_right {f : List PgWchar → LikeResult} (hc : c ≠ '%') (hf : ∀ text, Right (c :: p) text (f text)) :
    Right ('%' :: c :: p) text (scanText f c text) ∧ scanText f c text ≠ .likeFalse := by
  induction text with
  | nil =>
    refine ⟨fun t ht hl => ?_, nofun⟩
    obtain ⟨u, hu, hl⟩ := likes_percent.mp hl
    obtain ⟨a, v, rfl, -⟩ := likes_cons hc hl
    exact cons_ne_nil _ _ (suffix_nil.mp (hu.trans ht))
  | cons a text ih =>
    -- a position at which the rest does not match is passed over
    have hskip (hnot : ¬ Likes (c :: p) (a :: text)) : Right ('%' :: c :: p) (a :: text) (scanText f c text) := by
      obtain ⟨hright, hne⟩ := ih
      cases hr : scanText f c text with rw [hr] at hright
      | likeTrue =>
        obtain ⟨u, hu, hl⟩ := likes_percent.mp hright
        exact likes_percent.mpr ⟨u, hu.trans (suffix_cons a text), hl⟩
      | likeFalse => exact absurd hr hne
      | likeAbort =>
        intro s hs hl
        obtain ⟨u, hu, hl⟩ := likes_percent.mp hl
        obtain heq | hu := suffix_cons_iff.mp (hu.trans hs)
        · exact hnot (heq ▸ hl)
        · exact hright u hu (likes_percent.mpr ⟨u, suffix_rfl, hl⟩)
    rw [scanText]
    split
    · have hhere := hf (a :: text)
      split
      · next hr =>
        rw [hr] at hhere
        exact ⟨hskip hhere, ih.2⟩
      · next r hne =>
        refine ⟨?_, hne⟩
        cases hr : f (a :: text) with rw [hr] at hhere
        | likeTrue => exact likes_percent.mpr ⟨a :: text, suffix_rfl, hhere⟩
        | likeFalse => exact absurd hr hne
        | likeAbort =>
          intro s hs hl
          obtain ⟨u, hu, hl⟩ := likes_percent.mp hl
          exact hhere u (hu.trans hs) hl
    · next hgate =>
      refine ⟨hskip fun hl => ?_, ih.2⟩
      obtain ⟨b, t, heq, hb⟩ := likes_cons hc hl
      cases heq
      exact hgate hb

theorem Right.congr {q : List PgWchar} (hpq : ∀ s, Likes p s ↔ Likes q s) (h : Right p text r) : Right q text r := by
  cases r with
  | likeTrue => exact (hpq text).mp h
  | likeFalse => exact fun hl => h ((hpq text).mpr hl)
  | likeAbort => exact fun t ht hl => h t ht ((hpq t).mpr hl)

theorem head_dropWhile_percent (h : p.dropWhile (· = '%') = c :: rest) : c ≠ '%' := by
  have hne : p.dropWhile (· = '%') ≠ [] := h ▸ cons_ne_nil c rest
  have hnot := head_dropWhile_not (· = '%') hne
  simpa only [h, head_cons, decide_eq_false_iff_not] using hnot

theorem likes_empty : Likes p [] ↔ p.dropWhile (· = '%') = [] := by
  cases p with
  | nil => simp only [likes_nil, dropWhile_nil]
  | cons c p =>
    by_cases hc : c = '%'
    · subst hc
      rw [likes_percents, dropWhile_cons, if_pos (decide_eq_true rfl)]
      constructor
      · rintro ⟨t, ht, hl⟩
        rw [suffix_nil] at ht
        subst ht
        by_contra hne
        obtain ⟨d, rest, hrest⟩ := exists_cons_of_ne_nil hne
        rw [hrest] at hl
        obtain ⟨a, t, heq, -⟩ := likes_cons (head_dropWhile_percent hrest) hl
        cases heq
      · intro h
        exact ⟨[], suffix_rfl, h ▸ likes_nil.mpr rfl⟩
    · rw [dropWhile_cons, if_neg (by simpa using hc)]
      refine ⟨fun hl => ?_, nofun⟩
      obtain ⟨a, t, heq, -⟩ := likes_cons hc hl
      cases heq

theorem doMatch_right (text p : List PgWchar) : Right p text (doMatch text p) := by
  fun_induction doMatch text p with
  | case1 p h => exact likes_empty.mpr h
  | case2 p h =>
    intro t ht hl
    rw [suffix_nil.mp ht] at hl
    exact h (likes_empty.mp hl)
  | case3 a text => exact fun hl => cons_ne_nil a text (likes_nil.mp hl)
  | case4 a text => exact not_likes_backslash
  | case5 a text c p hne =>
    intro hl
    obtain ⟨t, heq, -⟩ := likes_backslash.mp hl
    exact hne (List.cons.inj heq).1
  | case6 a text c p heq ih =>
    have hhead (s : List PgWchar) : Likes (['\\', c] ++ p) s ↔ ∃ a t, s = a :: t ∧ a = c ∧ Likes p t := by
      simp [likes_backslash]
    exact ih.step hhead (Decidable.not_not.mp heq)
  | case7 a text p ih =>
    have hhead (s : List PgWchar) : Likes (['_'] ++ p) s ↔ ∃ a t, s = a :: t ∧ True ∧ Likes p t := by
      simp [likes_underscore]
    exact ih.step hhead trivial
  | case8 a text p h =>
    rw [Right, likes_percents, h]
    exact ⟨[], nil_suffix, likes_nil.mpr rfl⟩
  | case9 a text p c rest h ih =>
    have hsame (s : List PgWchar) : Likes ('%' :: c :: rest) s ↔ Likes ('%' :: p) s := by
      rw [likes_percent, likes_percents, h]
    exact (scanText_right (head_dropWhile_percent h) ih).1.congr hsame
  | case10 a text c p hback hline hpercent hne =>
    intro hl
    obtain ⟨t, heq, -⟩ := (likes_plain ⟨hpercent, hline, hback⟩).mp hl
    exact hne (List.cons.inj heq).1
  | case11 a text c p hback hline hpercent heq ih =>
    have hhead (s : List PgWchar) : Likes ([c] ++ p) s ↔ ∃ a t, s = a :: t ∧ a = c ∧ Likes p t := by
      simp [likes_plain (p := p) (s := s) ⟨hpercent, hline, hback⟩]
    exact ih.step hhead (Decidable.not_not.mp heq)

theorem like_iff (text p : List PgWchar) : like text p ↔ Likes p text := by
  unfold like
  split
  · next h =>
    rw [h]
    exact ⟨fun _ => ⟨[], nil_suffix, likes_nil.mpr rfl⟩, fun _ => rfl⟩
  · rw [decide_eq_true_iff]
    exact (doMatch_right text p).iff

theorem cString_eq (h : '\x00' ∉ s) : cString s = s := by
  rw [cString, takeWhile_eq_self_iff]
  intro c hc
  exact decide_eq_true fun heq => h (heq ▸ hc)

/-- **LIKE.** `textlike` is the rule of the standard, and `textnlike` its negation. -/
theorem textlike_iff_likes (s p : List PgWchar) (hs : '\x00' ∉ s) (hp : '\x00' ∉ p) :
    (textlike (some s) (some p) ↔ Likes p s) ∧ textnlike (some s) (some p) = !textlike (some s) (some p) := by
  refine ⟨?_, rfl⟩
  change like (cString s) (cString p) ↔ _
  rw [cString_eq hs, cString_eq hp, like_iff]

/-- Both signs at the end of the pattern are escaped. -/
theorem textlike_iff_likes_escaped :
    textlike (some ['a', 'b', '_', '%']) (some ['%', '\\', '_', '\\', '%']) := by
  have hlikes : Likes ['%', '\\', '_', '\\', '%'] ['a', 'b', '_', '%'] := by
    refine likes_percent.mpr ⟨['_', '%'], by decide, ?_⟩
    exact likes_backslash.mpr ⟨['%'], rfl, likes_backslash.mpr ⟨[], rfl, likes_nil.mpr rfl⟩⟩
  exact (textlike_iff_likes _ _ (by decide) (by decide)).1.mpr hlikes

theorem namelike_iff_likes (n p : List PgWchar) (hn : '\x00' ∉ n) (hp : '\x00' ∉ p)
    (hlen : n.length ≤ nameDataLen) : namelike (some n) (some p) ↔ Likes p n := by
  change like (cString (n.take nameDataLen)) (cString p) ↔ _
  rw [take_of_length_le hlen, cString_eq hn, cString_eq hp, like_iff]

end WeaverDB.Like
