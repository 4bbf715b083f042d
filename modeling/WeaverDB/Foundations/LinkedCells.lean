import Mathlib.Data.List.Nodup

/-! # Chains of linked cells

`Chain cell p nodes q` follows the links from `p` through the cells of `nodes` and ends at `q`, which
need not be a cell. `walk` is a loop that follows the links while the pointer is valid and stays where
there is no cell; it ends on whole chains only (`walk_iff`).
-/

namespace WeaverDB.Foundations
open List Nat

variable {P A : Type}

inductive Chain (cell : P → Option (A × P)) : P → List (P × A) → P → Prop where
  | nil (p : P) : Chain cell p [] p
  | cons {p q r : P} {a : A} {nodes : List (P × A)} (h : cell p = some (a, q))
      (rest : Chain cell q nodes r) : Chain cell p ((p, a) :: nodes) r

variable {cell cell' : P → Option (A × P)} {p q r : P} {a : A} {nodes more : List (P × A)}

theorem Chain.append (h : Chain cell p nodes q) (h' : Chain cell q more r) : Chain cell p (nodes ++ more) r := by
  induction h with
  | nil => exact h'
  | cons hc _ ih => exact .cons hc (ih h')

theorem Chain.split (h : Chain cell p (nodes ++ more) r) : ∃ q, Chain cell p nodes q ∧ Chain cell q more r := by
  induction nodes generalizing p with
  | nil => exact ⟨p, .nil p, h⟩
  | cons n nodes ih =>
    cases h with
    | cons hc hrest =>
      obtain ⟨q, hfirst, hsecond⟩ := ih hrest
      exact ⟨q, .cons hc hfirst, hsecond⟩

theorem Chain.congr (h : Chain cell p nodes q) (hsame : ∀ n ∈ nodes, cell' n.1 = cell n.1) : Chain cell' p nodes q := by
  induction h with
  | nil => exact .nil _
  | cons hc _ ih =>
    refine .cons ((hsame _ (.head _)).trans hc) (ih fun n hn => ?_)
    exact hsame n (.tail _ hn)

theorem Chain.isSome (h : Chain cell p nodes q) {n : P × A} (hn : n ∈ nodes) : (cell n.1).isSome := by
  induction h with
  | nil => cases hn
  | cons hc _ ih =>
    obtain rfl | hn := mem_cons.mp hn
    · rw [hc]
      rfl
    · exact ih hn

section

variable {valid : P → Bool}

def walk (cell : P → Option (A × P)) (valid : P → Bool) : Nat → P → Option (List (P × A))
  | 0, _ => none
  | fuel + 1, p =>
    if valid p then
      match cell p with
      | none => walk cell valid fuel p
      | some (a, q) => (walk cell valid fuel q).map ((p, a) :: ·)
    else some []

theorem walk_stuck (hp : valid p) (h : cell p = none) (fuel : Nat) : walk cell valid fuel p = none := by
  induction fuel with
  | zero => rfl
  | succ fuel ih => rw [walk, if_pos hp, h, ih]

theorem walk_iff (fuel : Nat) : walk cell valid fuel p = some nodes ↔ nodes.length < fuel ∧
    ∃ q, Chain cell p nodes q ∧ (∀ n ∈ nodes, valid n.1) ∧ valid q = false := by
  constructor
  · intro h
    induction fuel generalizing p nodes with
    | zero => cases h
    | succ fuel ih =>
      cases hp : valid p with
      | false =>
        rw [walk, if_neg (hp ▸ nofun)] at h
        cases h
        exact ⟨succ_pos _, p, .nil p, fun _ hn => absurd hn not_mem_nil, hp⟩
      | true =>
        cases hc : cell p with
        | none => cases (walk_stuck hp hc _).symm.trans h
        | some c =>
          rw [walk, if_pos hp, hc] at h
          obtain ⟨rest, hrest, rfl⟩ := Option.map_eq_some_iff.mp h
          obtain ⟨hfuel, q, hchain, hvalid, hq⟩ := ih hrest
          exact ⟨succ_lt_succ hfuel, q, .cons hc hchain, forall_mem_cons.mpr ⟨hp, hvalid⟩, hq⟩
  · rintro ⟨hfuel, q, hchain, hvalid, hq⟩
    induction hchain generalizing fuel with
    | nil p =>
      obtain ⟨fuel, rfl⟩ := exists_eq_succ_of_ne_zero (Nat.ne_of_gt hfuel)
      rw [walk, if_neg (hq ▸ nofun)]
    | cons hc _ ih =>
      obtain ⟨hp, hvalid⟩ := forall_mem_cons.mp hvalid
      obtain ⟨fuel, rfl⟩ := exists_eq_succ_of_ne_zero (Nat.ne_zero_of_lt hfuel)
      rw [walk, if_pos hp, hc]
      dsimp only
      rw [ih fuel (lt_of_succ_lt_succ hfuel) hvalid hq, Option.map_some]

end

section

variable [DecidableEq P]

theorem Chain.update {x : P} {v : Option (A × P)} (h : Chain cell p nodes q)
    (hx : x ∉ nodes.map Prod.fst) : Chain (Function.update cell x v) p nodes q := by
  refine h.congr fun n hn => Function.update_of_ne ?_ ..
  rintro rfl
  exact hx (mem_map_of_mem hn)

theorem Chain.push (h : Chain cell q nodes r) (hp : p ∉ nodes.map Prod.fst) :
    Chain (Function.update cell p (some (a, q))) p ((p, a) :: nodes) r :=
  .cons (Function.update_self ..) (h.update hp)

theorem Chain.relink {e s t : P} (h : Chain cell p (nodes ++ [(t, a)]) e) (h' : Chain cell s more r)
    (hnodes : t ∉ nodes.map Prod.fst) (hmore : t ∉ more.map Prod.fst) :
    Chain (Function.update cell t (some (a, s))) p (nodes ++ [(t, a)] ++ more) r := by
  obtain ⟨q, hfirst, hlast⟩ := h.split
  have hq : q = t := by
    cases hlast with
    | cons => rfl
  subst hq
  have htail : Chain (Function.update cell q (some (a, s))) q ((q, a) :: more) r := h'.push hmore
  rw [append_assoc]
  exact (hfirst.update hnodes).append htail

end

end WeaverDB.Foundations
