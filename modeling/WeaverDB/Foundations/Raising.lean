import Mathlib.Control.Monad.Basic
import Mathlib.Tactic.Basic

/-! # Programs that raise and keep their state

`Raising σ ε` is the monad of code that may leave by a non-local jump: the handler sees the state at the
jump. `Triple P x Q E`: from `P` the program `x` returns in `Q` or raises in `E`.
-/

namespace WeaverDB.Foundations

abbrev Raising (σ ε : Type) := ExceptT ε (StateM σ)

def exec {σ ε α : Type} (x : Raising σ ε α) (s : σ) : Except ε α × σ := Id.run (StateT.run x.run s)

section
variable {σ ε α β : Type}

theorem exec_bind (x : Raising σ ε α) (f : α → Raising σ ε β) (s : σ) : exec (x >>= f) s =
      match exec x s with
      | (.ok a, s') => exec (f a) s'
      | (.error e, s') => (.error e, s') := by
  have e : exec (x >>= f) s = Id.run (StateT.run (x.run >>= fun r =>
      match r with
      | .ok a => (f a).run
      | .error e => pure (.error e)) s) := rfl
  rw [e, StateT.run_bind, Id.run_bind]
  have hx : Id.run (StateT.run x.run s) = exec x s := rfl
  rw [hx]
  cases exec x s with
  | mk r s' => cases r <;> rfl

@[simp] theorem exec_get (s : σ) : exec (get : Raising σ ε σ) s = (.ok s, s) := rfl

theorem exec_tryCatch (x : Raising σ ε α) (h : ε → Raising σ ε α) (s : σ) : exec (tryCatch x h) s =
      match exec x s with
      | (.ok a, s') => (.ok a, s')
      | (.error e, s') => exec (h e) s' := by
  have e : exec (tryCatch x h) s = Id.run (StateT.run (x.run >>= fun r =>
      match r with
      | .ok a => pure (.ok a)
      | .error e => (h e).run) s) := rfl
  rw [e, StateT.run_bind, Id.run_bind]
  have hx : Id.run (StateT.run x.run s) = exec x s := rfl
  rw [hx]
  cases exec x s with
  | mk r s' => cases r <;> rfl

end

section
variable {σ ε α β : Type}

def Post (Q : α → σ → Prop) (E : σ → Prop) : Except ε α × σ → Prop
  | (.ok a, s) => Q a s
  | (.error _, s) => E s

def Triple (P : σ → Prop) (x : Raising σ ε α) (Q : α → σ → Prop) (E : σ → Prop) : Prop :=
  ∀ s, P s → Post Q E (exec x s)

variable {P P' E E' : σ → Prop} {x : Raising σ ε α} {Q Q' : α → σ → Prop} {R : Unit → σ → Prop} {f : σ → σ}

theorem Post.mono {r : Except ε α × σ} (h : Post Q E r) (hQ : ∀ a s, Q a s → Q' a s)
    (hE : ∀ s, E s → E' s) : Post Q' E' r := by
  obtain ⟨r, s⟩ := r
  cases r with
  | ok a => exact hQ a s h
  | error e => exact hE s h

theorem Triple.conseq (h : Triple P x Q E) (hP : ∀ s, P' s → P s) (hQ : ∀ a s, Q a s → Q' a s)
    (hE : ∀ s, E s → E' s) : Triple P' x Q' E' :=
  fun s hs => (h s (hP s hs)).mono hQ hE

theorem Triple.strengthen (h : Triple P x Q E) (hP : ∀ s, P' s → P s) : Triple P' x Q E :=
  h.conseq hP (fun _ _ hq => hq) (fun _ he => he)

theorem Triple.weaken (h : Triple P x Q E) (hQ : ∀ a s, Q a s → Q' a s) : Triple P x Q' E :=
  h.conseq (fun _ hp => hp) hQ (fun _ he => he)

theorem Triple.pure {a : α} (h : ∀ s, P s → Q a s) : Triple P (pure a : Raising σ ε α) Q E := fun s hs => h s hs

theorem Triple.skip {a : α} : Triple P (Pure.pure a : Raising σ ε α) (fun _ => P) E := .pure (fun _ hs => hs)

theorem Triple.bind {f : α → Raising σ ε β} {R : β → σ → Prop} (hx : Triple P x Q E)
    (hf : ∀ a, Triple (Q a) (f a) R E) : Triple P (x >>= f) R E := by
  intro s hs
  have h1 := hx s hs
  rw [exec_bind]
  cases hr : exec x s with
  | mk r t =>
    rw [hr] at h1
    cases r with
    | ok a => exact hf a t h1
    | error e => exact h1

theorem Triple.andThen {y : Raising σ ε β} {S : σ → Prop} {R : β → σ → Prop}
    (hx : Triple P x (fun _ => S) E) (hy : Triple S y R E) : Triple P (x >>= fun _ => y) R E :=
  hx.bind (fun _ => hy)

theorem Triple.returning {a : β} {S : σ → Prop} (hx : Triple P x (fun _ => S) E) :
    Triple P (x >>= fun _ => Pure.pure a) (fun _ => S) E :=
  hx.andThen .skip

theorem Triple.modify (h : ∀ s, P s → R () (f s)) : Triple P (modify f : Raising σ ε Unit) R E := fun s hs => h s hs

theorem Triple.throw {e : ε} (h : ∀ s, P s → E s) : Triple P (throw e : Raising σ ε α) Q E := fun s hs => h s hs

theorem Triple.get {f : σ → Raising σ ε α} (h : ∀ t, P t → Triple (fun s => s = t) (f t) Q E) :
    Triple P (get >>= f) Q E := by
  intro s hs
  exact h s hs s rfl

theorem Triple.ite {c : Prop} [Decidable c] {y : Raising σ ε α} (hx : c → Triple P x Q E)
    (hy : ¬ c → Triple P y Q E) : Triple P (if c then x else y) Q E := by
  by_cases hc : c
  · rw [if_pos hc]
    exact hx hc
  · rw [if_neg hc]
    exact hy hc

theorem Triple.tryCatch {D : σ → Prop} {h : ε → Raising σ ε α} (hx : Triple P x Q D)
    (hh : ∀ e, Triple D (h e) Q E) : Triple P (tryCatch x h) Q E := by
  intro s hs
  have h1 := hx s hs
  rw [exec_tryCatch]
  cases hr : exec x s with
  | mk r t =>
    rw [hr] at h1
    cases r with
    | ok a => exact h1
    | error e => exact hh e t h1

/-- The loop rule: an invariant of every round is an invariant of the loop. -/
theorem Triple.forM {γ : Type} {I : σ → Prop} {f : γ → Raising σ ε PUnit} (l : List γ)
    (h : ∀ a ∈ l, Triple I (f a) (fun _ => I) E) : Triple I (l.forM f) (fun _ => I) E := by
  induction l with
  | nil => exact .skip
  | cons a l ih =>
    refine .bind (h a (.head _)) fun _ => ?_
    exact ih (fun b hb => h b (List.mem_cons_of_mem a hb))

theorem Triple.of_eq {t : σ} (h : Triple P x Q E) (ht : P t) : Triple (fun s => s = t) x Q E :=
  h.strengthen (fun s hs => by rw [hs]; exact ht)

theorem pure_at {t : σ} {a : α} (h : Q a t) : Triple (fun s => s = t) (pure a : Raising σ ε α) Q E :=
  Triple.pure (fun s hs => by rw [hs]; exact h)

theorem modify_at {t : σ} (h : R () (f t)) : Triple (fun s => s = t) (modify f : Raising σ ε Unit) R E :=
  Triple.modify (fun s hs => by rw [hs]; exact h)

end

end WeaverDB.Foundations
