import Mathlib.Data.List.Basic

/-! # Runs of a labelled step relation, and monitors over their labels

`Run Step s ls t`: the labels `ls`, taken one after another from `s`, end in `t`. What one step keeps, a
run keeps (`Run.preserves`); `perform` computes a run. A `Monitor` is a safety property of label
sequences, and `Run.accepts` the simulation rule from system states to its states.
-/

namespace WeaverDB.Foundations
open Option List

variable {S L A : Type} {s t : S} {ls : List L} {Step : S → L → S → Prop}

inductive Run (Step : S → L → S → Prop) : S → List L → S → Prop where
  | nil (s : S) : Run Step s [] s
  | cons {s t u : S} {l : L} {ls : List L} (h : Step s l t) (r : Run Step t ls u) : Run Step s (l :: ls) u

theorem Run.single {l : L} (h : Step s l t) : Run Step s [l] t := .cons h (.nil t)

theorem Run.trans {u : S} {ms : List L} (r : Run Step s ls t) (r' : Run Step t ms u) : Run Step s (ls ++ ms) u := by
  induction r with
  | nil => exact r'
  | cons h _ ih => exact .cons h (ih r')

theorem Run.preserves (P : S → Prop)
    (hstep : ∀ s l t, P s → Step s l t → P t) (r : Run Step s ls t) (hs : P s) : P t := by
  induction r with
  | nil => exact hs
  | cons h _ ih => exact ih (hstep _ _ _ hs h)

/-- A run of one system is a run of another, if each of its steps is one. -/
theorem Run.project {T M : Type} {Step' : T → M → T → Prop} (f : S → T)
    (g : L → List M) (hstep : ∀ s l t, Step s l t → Run Step' (f s) (g l) (f t))
    (r : Run Step s ls t) : Run Step' (f s) (ls.flatMap g) (f t) := by
  induction r with
  | nil => exact .nil _
  | cons h _ ih => exact (hstep _ _ _ h).trans ih

/-- The steps of `Step` whose label the guard admits in the state it is taken from. -/
def Guarded (Step : S → L → S → Prop) (Ok : S → L → Prop) : S → L → S → Prop := fun s l t => Ok s l ∧ Step s l t

theorem of_guard {c : Prop} [Decidable c] (h : (if c then some s else none) = some t) : c ∧ s = t := by
  obtain ⟨hc, hs⟩ := ite_none_right_eq_some.mp h
  exact ⟨hc, Option.some.inj hs⟩

theorem Run.guarded_cons {Ok : S → L → Prop} {u : S} {l : L}
    (h : Step s l t) (hok : Ok s l) (r : Run (Guarded Step Ok) t ls u) :
    Run (Guarded Step Ok) s (l :: ls) u :=
  .cons ⟨hok, h⟩ r

/-- Takes the labels one after another; `none` if one of them has no step. -/
def perform (next : S → L → Option S) : S → List L → Option S
  | s, [] => some s
  | s, l :: ls => (next s l).bind (perform next · ls)

theorem perform_append (next : S → L → Option S) (s : S) (ls ms : List L) :
    perform next s (ls ++ ms) = (perform next s ls).bind (perform next · ms) := by
  induction ls generalizing s with
  | nil => rfl
  | cons l ls ih =>
    rw [cons_append, perform, perform, bind_assoc]
    exact congrArg _ (funext ih)

theorem exists_of_map {A B : Type} {o : Option A} {P : A → Prop} (f : A → B) (v : B)
    (h : o.map f = some v) (hP : ∀ s, o = some s → f s = v → P s) : ∃ s, o = some s ∧ P s := by
  obtain ⟨s, hs, hv⟩ := map_eq_some_iff.mp h
  exact ⟨s, hs, hP s hs hv⟩

theorem perform_run {next : S → L → Option S}
    (hstep : ∀ s l t, next s l = some t → Step s l t) (h : perform next s ls = some t) :
    Run Step s ls t := by
  induction ls generalizing s with
  | nil =>
    cases h
    exact .nil _
  | cons l ls ih =>
    obtain ⟨u, hnext, hrest⟩ := bind_eq_some_iff.mp h
    exact .cons (hstep s l u hnext) (ih hrest)

theorem Run.of_perform {next : S → L → Option S} {ok : S → L → Bool}
    (h : perform (fun s l => if ok s l then next s l else none) s ls = some t) :
    Run (Guarded (fun s l t => next s l = some t) fun s l => ok s l) s ls t :=
  perform_run (fun _ _ _ => ite_none_right_eq_some.mp) h

structure Monitor (A L : Type) where
  update : A → L → A
  good : A → L → Prop

def Monitor.after (m : Monitor A L) (a : A) (ls : List L) : A := ls.foldl m.update a

/-- Every label of the sequence is good in the state its predecessors lead to. -/
def Monitor.Accepts (m : Monitor A L) (a : A) (ls : List L) : Prop :=
  ∀ pre l post, ls = pre ++ l :: post → m.good (m.after a pre) l

section

variable (m : Monitor A L) (a : A)

@[simp] theorem Monitor.after_nil : m.after a [] = a := rfl

@[simp] theorem Monitor.after_cons (l : L) (ls : List L) : m.after a (l :: ls) = m.after (m.update a l) ls := rfl

theorem Monitor.after_append (ls ms : List L) : m.after a (ls ++ ms) = m.after (m.after a ls) ms := foldl_append

theorem Monitor.accepts_nil : m.Accepts a [] := by
  intro pre l post h
  simp at h

theorem Monitor.accepts_cons (l : L) (ls : List L) :
    m.Accepts a (l :: ls) ↔ m.good a l ∧ m.Accepts (m.update a l) ls := by
  constructor
  · intro h
    refine ⟨h [] l ls rfl, ?_⟩
    intro pre x post e
    exact h (l :: pre) x post (by rw [e, cons_append])
  · rintro ⟨hl, hls⟩ pre x post e
    cases pre with
    | nil =>
      obtain ⟨rfl, -⟩ := List.cons.inj e
      exact hl
    | cons p pre =>
      obtain ⟨rfl, e'⟩ := List.cons.inj e
      exact hls pre x post e'

theorem Monitor.accepts_append (ls ms : List L) :
    m.Accepts a (ls ++ ms) ↔ m.Accepts a ls ∧ m.Accepts (m.after a ls) ms := by
  induction ls generalizing a with
  | nil => simp [m.accepts_nil]
  | cons l ls ih =>
    rw [cons_append, m.accepts_cons, m.accepts_cons, ih, m.after_cons, and_assoc]

end

/-- **The simulation rule.** A relation that every step keeps makes the labels of a run acceptable. -/
theorem Run.accepts (m : Monitor A L) (R : S → A → Prop)
    (hstep : ∀ s a l t, R s a → Step s l t → m.good a l ∧ R t (m.update a l)) {a : A}
    (r : Run Step s ls t) (h : R s a) : m.Accepts a ls ∧ R t (m.after a ls) := by
  induction r generalizing a with
  | nil => exact ⟨m.accepts_nil a, h⟩
  | cons hs _ ih =>
    obtain ⟨hgood, hR⟩ := hstep _ _ _ _ h hs
    obtain ⟨hacc, hR'⟩ := ih hR
    exact ⟨(m.accepts_cons _ _ _).mpr ⟨hgood, hacc⟩, hR'⟩

end WeaverDB.Foundations
