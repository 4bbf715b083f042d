import WeaverDB.Foundations.Runs
import Mathlib.Logic.Function.Iterate

/-! # The rows of a fetch set

`FetchSet.iterator` against `tryAdvance`. Both move the cursor of the statement by `fetch`: `hasNext`
at every call, and `next` only reads the outputs.
-/

namespace WeaverDB.Java
open Foundations List

variable {α : Type}

/-- An executed statement: `position` is 0 before the first row and `rows.length + 1` after the last. -/
structure FetchSet (α : Type) where
  rows : List α
  position : Nat

namespace FetchSet

def fetch (s : FetchSet α) : Bool × FetchSet α :=
  if s.position < s.rows.length then (true, { s with position := s.position+1 })
  else (false, { s with position := s.rows.length + 1 })

def outputs (s : FetchSet α) : Option α := if s.position = 0 then none else s.rows[s.position-1]?

/-- `tryAdvance`, with the row that it hands to the action. -/
def tryAdvance (s : FetchSet α) : Option α × FetchSet α :=
  if s.fetch.1 then (s.fetch.2.outputs, s.fetch.2) else (none, s.fetch.2)

def reached (rows : List α) (fetches : Nat) : FetchSet α := ⟨rows, min fetches (rows.length + 1)⟩

end FetchSet

inductive IteratorCall where
  | hasNext
  | next
  deriving DecidableEq

open FetchSet

/-- What the contract of the iterator asks of each call, after `taken` rows. -/
def iterator : Monitor (FetchSet α × Nat) IteratorCall where
  update := fun (s, taken) call => match call with
    | .hasNext => (s.fetch.2, taken)
    | .next => (s, taken+1)
  good := fun (s, taken) call => match call with
    | .hasNext => s.fetch.1 = true ↔ taken < s.rows.length
    | .next => taken < s.rows.length → s.position = taken+1 ∧
        s.outputs = (tryAdvance ((fun s => (tryAdvance s).2)^[taken] ⟨s.rows, 0⟩)).1

def Fits (n fetches taken : Nat) : IteratorCall → Prop
  | .hasNext => fetches < n ↔ taken < n
  | .next => taken < n → fetches = taken+1

section

variable (rows : List α)

theorem fetch_reached (a : Nat) : (reached rows a).fetch = (decide (a < rows.length), reached rows (a+1)) := by
  have hlt : min a (rows.length + 1) < rows.length ↔ a < rows.length := by omega
  by_cases h : a < rows.length
  · simp [FetchSet.fetch, reached, hlt, h]
    omega
  · simp [FetchSet.fetch, reached, hlt, h]
    omega

theorem tryAdvance_reached (k : Nat) : (tryAdvance (reached rows k)).2 = reached rows (k+1) := by
  unfold tryAdvance
  split_ifs <;> rw [fetch_reached]

theorem tryAdvance_iterate (k : Nat) : (fun s => (tryAdvance s).2)^[k] ⟨rows, 0⟩ = reached rows k := by
  induction k with
  | zero => simp [reached]
  | succ k ih => rw [Function.iterate_succ_apply', ih, tryAdvance_reached]

variable (calls : List IteratorCall)

theorem iterator_after (a k : Nat) : iterator.after (reached rows a, k) calls =
    (reached rows (a + count .hasNext calls), k + count .next calls) := by
  induction calls generalizing a k with
  | nil => rfl
  | cons c calls ih =>
    cases c with
    | hasNext =>
      change iterator.after ((reached rows a).fetch.2, k) calls = _
      rw [fetch_reached, ih]
      simp [Nat.add_assoc, Nat.add_comm 1]
    | next =>
      change iterator.after (reached rows a, k+1) calls = _
      rw [ih]
      simp [Nat.add_assoc, Nat.add_comm 1]

theorem iterator_good_iff (a k : Nat) (c : IteratorCall) :
    iterator.good (reached rows a, k) c ↔ Fits rows.length a k c := by
  cases c with
  | hasNext =>
    simp only [iterator, Fits, fetch_reached, decide_eq_true_eq]
    rfl
  | next =>
    apply forall_congr'
    intro hk
    have hk' : k < rows.length := hk
    have hrow : (tryAdvance (reached rows k)).1 = (reached rows (k+1)).outputs := by
      rw [tryAdvance, fetch_reached, if_pos (decide_eq_true hk')]
    change min a (rows.length + 1) = k+1 ∧ (reached rows a).outputs = _ ↔ a = k+1
    constructor
    · omega
    · rintro rfl
      refine ⟨by omega, ?_⟩
      rw [← hrow, ← tryAdvance_iterate]
      rfl

/-- Each `next` finds its row exactly if one `hasNext` more than `next` has come before it. -/
theorem iterator_accepts_iff : iterator.Accepts (⟨rows, 0⟩, 0) calls ↔
    ∀ pre c post, calls = pre ++ c :: post → Fits rows.length (count .hasNext pre) (count .next pre) c := by
  have hstart : (⟨rows, 0⟩ : FetchSet α) = reached rows 0 := by simp [reached]
  simp only [Monitor.Accepts, hstart, iterator_after, iterator_good_iff, Nat.zero_add]

end

theorem second_hasNext_skips :
    count IteratorCall.next [.hasNext, .hasNext, .next] ≤ 2 ∧
      ¬ iterator.Accepts (⟨[10, 20], 0⟩, 0) [.hasNext, .hasNext, .next] := by
  refine ⟨by decide, ?_⟩
  intro h
  have hlast := h [.hasNext, .hasNext] .next [] rfl (by decide)
  exact absurd hlast.1 (by decide)

end WeaverDB.Java
