import Mathlib.Data.List.Basic

/-! # Numbers from reserved ranges

A counter that survives restarts is advanced by a whole range at a time, and numbers are handed out from
the range in memory. `Ledger` is the counter with what is left and what was handed out. In a `Desk`
threads share the range, and one at a time goes for the next one without the lock, with the count at -1
to keep the others out.
-/

namespace WeaverDB.Foundations
open Function

/-- The numbers from `next` to before `limit` are reserved and not handed out. -/
structure Ledger where
  durable : Nat
  next : Nat
  limit : Nat
  issued : List Nat

namespace Ledger

def reserve (n : Nat) (l : Ledger) : Ledger :=
  { l with durable := l.durable+n, next := l.durable+1, limit := l.durable + 1 + n }

def issue (l : Ledger) : Ledger := { l with next := l.next+1, issued := l.next :: l.issued }

structure Sound (l : Ledger) : Prop where
  next_le : l.next ≤ l.limit
  limit_le : l.limit ≤ l.durable+1
  issued_lt : ∀ x ∈ l.issued, x < l.next ∧ x ≤ l.durable
  decreasing : l.issued.Pairwise (· > ·)

variable {l : Ledger}

theorem Sound.reserve (h : l.Sound) (n : Nat) : (l.reserve n).Sound := by
  refine ⟨Nat.le_add_right _ _, ?_, fun x hx => ?_, h.decreasing⟩
  · change l.durable + 1 + n ≤ l.durable + n + 1
    omega
  · have hx := (h.issued_lt x hx).2
    change x < l.durable+1 ∧ x ≤ l.durable+n
    omega

theorem Sound.issue (h : l.Sound) (hleft : l.next < l.limit) : l.issue.Sound := by
  have hlimit := h.limit_le
  refine ⟨hleft, hlimit, fun x hx => ?_, ?_⟩
  · change x < l.next+1 ∧ x ≤ l.durable
    obtain rfl | hx := List.mem_cons.mp hx
    · omega
    · have hx := h.issued_lt x hx
      omega
  · exact List.pairwise_cons.mpr ⟨fun x hx => (h.issued_lt x hx).1, h.decreasing⟩

theorem sound_start (durable : Nat) : Sound ⟨durable, durable+1, durable+1, []⟩ :=
  ⟨Nat.le_refl _, Nat.le_refl _, nofun, List.Pairwise.nil⟩

end Ledger

/-! ## Sharing a range -/

/-- `clerk`: the threads on the way for a new range, with its first number once they have it. -/
structure Desk (T : Type) where
  prefetch : Int
  count : Int
  next : Nat
  clerk : T → Option (Option Nat)

namespace Desk

variable {T : Type} [DecidableEq T] {d : Desk T} {l : Ledger} {t : T}

structure Sound (d : Desk T) (l : Ledger) : Prop where
  ledger : l.Sound
  prefetch : 0 < d.prefetch
  alone : ∀ t t', d.clerk t ≠ none → d.clerk t' ≠ none → t = t'
  free : 0 ≤ d.count → ∀ t, d.clerk t = none
  cached : 0 < d.count → d.next = l.next ∧ l.next + d.count = l.limit
  fetched : ∀ t n, d.clerk t = some (some n) → n = l.next ∧ l.next + d.prefetch = l.limit

omit [DecidableEq T] in
theorem sound_idle (hl : l.Sound) {prefetch : Int} (hprefetch : 0 < prefetch) (next : Nat) :
    Sound (⟨prefetch, 0, next, fun _ => none⟩ : Desk T) l where
  ledger := hl
  prefetch := hprefetch
  alone := fun _ _ hne => absurd rfl hne
  free := fun _ _ => rfl
  cached := fun hpos => absurd hpos (Int.lt_irrefl 0)
  fetched := nofun

omit [DecidableEq T] in
theorem Sound.resize (h : d.Sound l) (hidle : ∀ t, d.clerk t = none) {prefetch : Int}
    (hprefetch : 0 < prefetch) : Sound { d with prefetch := prefetch } l :=
  { h with
    prefetch := hprefetch
    fetched := fun t _ ht => absurd ((hidle t).symm.trans ht) nofun }

omit [DecidableEq T] in
theorem Sound.setNext (h : d.Sound l) (hcount : ¬ 0 < d.count) (next : Nat) : Sound { d with next := next } l :=
  { h with cached := fun hpos => absurd hpos hcount }

omit [DecidableEq T] in
/-- The counter in memory need not be right any more after the last number. -/
theorem Sound.handOut (h : d.Sound l) (hcount : 0 < d.count) {next : Nat} (hnext : 1 < d.count → next = d.next+1) :
    Sound { d with count := d.count-1, next := next } l.issue := by
  obtain ⟨hfirst, hlimit⟩ := h.cached hcount
  refine ⟨h.ledger.issue (by omega), h.prefetch, h.alone, fun _ => h.free (Int.le_of_lt hcount),
    fun hmore => ?_, fun t n ht => ?_⟩
  · change 0 < d.count - 1 at hmore
    change next = l.next+1 ∧ ((l.next+1 : Nat) : Int) + (d.count-1) = l.limit
    have hnext := hnext (by omega)
    omega
  · exact absurd ((h.free (Int.le_of_lt hcount) t).symm.trans ht) nofun

theorem Sound.begin_ (h : d.Sound l) (hcount : d.count = 0) (t : T) :
    Sound { d with count := -1, clerk := update d.clerk t (some none) } l := by
  have hidle := h.free (Int.le_of_eq hcount.symm)
  have hmine (t' : T) (ht' : update d.clerk t (some none) t' ≠ none) : t' = t := by
    by_contra hne
    rw [update_of_ne hne] at ht'
    exact ht' (hidle t')
  refine ⟨h.ledger, h.prefetch, fun t₁ t₂ h₁ h₂ => (hmine t₁ h₁).trans (hmine t₂ h₂).symm,
    fun hneg => absurd hneg (show ¬ (0 : Int) ≤ -1 by decide),
    fun hpos => absurd hpos (show ¬ (0 : Int) < -1 by decide), fun t' n ht' => ?_⟩
  change update d.clerk t (some none) t' = some (some n) at ht'
  rw [hmine t' (by rw [ht']; nofun), update_self] at ht'
  nomatch ht'

theorem Sound.fetch (h : d.Sound l) (ht : d.clerk t = some none) :
    Sound { d with clerk := update d.clerk t (some (some (l.durable+1))) } (l.reserve d.prefetch.toNat) := by
  have hprefetch := h.prefetch
  have hneg : ¬ 0 ≤ d.count := fun hfree => absurd ((h.free hfree t).symm.trans ht) nofun
  have hmine (t' : T) (ht' : update d.clerk t (some (some (l.durable+1))) t' ≠ none) : t' = t := by
    by_contra hne
    rw [update_of_ne hne] at ht'
    exact hne (h.alone t' t ht' (ht ▸ nofun))
  refine ⟨h.ledger.reserve _, hprefetch, fun t₁ t₂ h₁ h₂ => (hmine t₁ h₁).trans (hmine t₂ h₂).symm,
    fun hfree => absurd hfree hneg, fun hpos => absurd (Int.le_of_lt hpos) hneg, fun t' n ht' => ?_⟩
  change update d.clerk t (some (some (l.durable+1))) t' = some (some n) at ht'
  rw [hmine t' (by rw [ht']; nofun), update_self] at ht'
  cases ht'
  refine ⟨rfl, ?_⟩
  change ((l.durable+1 : Nat) : Int) + d.prefetch = ((l.durable + 1 + d.prefetch.toNat : Nat) : Int)
  omega

theorem Sound.quit (h : d.Sound l) (t : T) : Sound { d with clerk := update d.clerk t none } l := by
  have hold (t' : T) (ht' : update d.clerk t none t' ≠ none) : update d.clerk t none t' = d.clerk t' := by
    refine update_of_ne (fun heq => ht' ?_) ..
    rw [heq, update_self]
  refine ⟨h.ledger, h.prefetch, fun t₁ t₂ h₁ h₂ => h.alone t₁ t₂ (hold t₁ h₁ ▸ h₁) (hold t₂ h₂ ▸ h₂),
    fun hfree t' => ?_, h.cached, fun t' n ht' => ?_⟩
  · by_contra hne
    exact hne ((hold t' hne).trans (h.free hfree t'))
  · change update d.clerk t none t' = some (some n) at ht'
    exact h.fetched t' n ((hold t' (by rw [ht']; nofun)).symm.trans ht')

theorem Sound.refill (h : d.Sound l) {n : Nat} (ht : d.clerk t = some (some n)) :
    Sound { d with count := d.prefetch, next := n, clerk := update d.clerk t none } l := by
  have hidle (t' : T) : update d.clerk t none t' = none := by
    obtain rfl | hne := eq_or_ne t' t
    · exact update_self ..
    · rw [update_of_ne hne]
      by_contra hbusy
      exact hne (h.alone t' t hbusy (ht ▸ nofun))
  refine ⟨h.ledger, h.prefetch, fun t₁ _ h₁ => absurd (hidle t₁) h₁, fun _ => hidle,
    fun _ => h.fetched t n ht, fun t' n ht' => absurd ((hidle t').symm.trans ht') nofun⟩

end Desk

end WeaverDB.Foundations
