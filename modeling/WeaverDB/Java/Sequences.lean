import Mathlib.Logic.Basic

/-! # Transactions as resources (`TransactionSequence.java`, `BaseWeaverConnection.java`)

A `TransactionSequence` begins a transaction when it is made and commits it when it is closed. No
statement changes the connection's transaction id, so `close` always commits, and if that raises it
rolls back and returns normally.
-/

namespace WeaverDB.Java

variable {σ : Type}

/-- The native methods; `committed` is about the transaction that was begun last. -/
structure NativeCalls (σ : Type) where
  beginTransaction : σ → Except String Int × σ
  commitTransaction : σ → Option String × σ
  abortTransaction : σ → Option String × σ
  getTransactionId : σ → Int
  committed : σ → Bool
  raises : ∀ s, (commitTransaction s).1 = none → committed (commitTransaction s).2 = true

structure WeaverConnection (σ : Type) where
  transactionId : Int
  server : σ

variable (N : NativeCalls σ)

def beginOn (c : WeaverConnection σ) : Except String Int × WeaverConnection σ :=
  if c.transactionId = 0 then
    match N.beginTransaction c.server with
    | (.ok x, server) => (.ok x, ⟨x, server⟩)
    | (.error text, server) => (.error text, { c with server := server })
  else (.error "transaction already active", c)

def commitOn (c : WeaverConnection σ) : Option String × WeaverConnection σ :=
  let (raised, server) := N.commitTransaction c.server
  (raised, ⟨0, server⟩)

def abortOn (c : WeaverConnection σ) : Option String × WeaverConnection σ :=
  let (raised, server) := N.abortTransaction c.server
  (raised, ⟨0, server⟩)

def transactionOf (c : WeaverConnection σ) : Int :=
  if c.transactionId = 0 then N.getTransactionId c.server else c.transactionId

def newSequence (c : WeaverConnection σ) : Except String Int × WeaverConnection σ :=
  match beginOn N c with
  | (.ok current, c) =>
    if current ≤ 0 then (.error "transaction not started", c) else (.ok current, c)
  | (.error text, c) => (.error text, c)

def closeSequence (current : Int) (c : WeaverConnection σ) : Option String × WeaverConnection σ :=
  if transactionOf N c = current then
    match commitOn N c with
    | (none, c) => (none, c)
    | (some _, c) => abortOn N c
  else (none, c)

/-- What is called while the sequence is open. -/
inductive SequenceCall (σ : Type) where
  | native (call : σ → σ)
  | begin_

def SequenceCall.run (c : WeaverConnection σ) : SequenceCall σ → WeaverConnection σ
  | .native call => { c with server := call c.server }
  | .begin_ => (beginOn N c).2

variable {N} {c c₁ : WeaverConnection σ} {current : Int}

theorem newSequence_current (h : newSequence N c = (.ok current, c₁)) : c₁.transactionId = current ∧ current ≠ 0 := by
  unfold newSequence beginOn at h
  split at h
  · all_goals grind
  · grind

theorem inside_transactionId (calls : List (SequenceCall σ)) (h : c₁.transactionId = current)
    (hcurrent : current ≠ 0) : (calls.foldl (SequenceCall.run N) c₁).transactionId = current := by
  induction calls generalizing c₁ with
  | nil => exact h
  | cons call calls ih =>
    refine ih ?_
    cases call with
    | native call => exact h
    | begin_ => rw [SequenceCall.run, beginOn, if_neg (h.symm ▸ hcurrent), h]

/-- **Silent rollback.** A `close` returns with a commit exactly if it did not fail or the rollback
did. -/
theorem close_commits_iff {c₂ : WeaverConnection σ} (h : newSequence N c = (.ok current, c₁))
    (calls : List (SequenceCall σ)) (hcalls : calls.foldl (SequenceCall.run N) c₁ = c₂) :
    ((closeSequence N current c₂).1 = none → N.committed (closeSequence N current c₂).2.server) ↔
    (N.commitTransaction c₂.server).1 = none ∨
      (N.abortTransaction (N.commitTransaction c₂.server).2).1 ≠ none ∨
      N.committed (N.abortTransaction (N.commitTransaction c₂.server).2).2 := by
  obtain ⟨hid, hcurrent⟩ := newSequence_current h
  have hinside := inside_transactionId (N := N) calls hid hcurrent
  rw [hcalls] at hinside
  have htransaction : transactionOf N c₂ = current := by
    rw [transactionOf, if_neg (hinside.symm ▸ hcurrent), hinside]
  have hraises := N.raises c₂.server
  rw [closeSequence, if_pos htransaction, commitOn]
  generalize N.commitTransaction c₂.server = r at hraises ⊢
  obtain ⟨raised, server⟩ := r
  cases raised with
  | none => exact iff_of_true (fun _ => hraises rfl) (.inl rfl)
  | some text =>
    rw [or_iff_right (Option.some_ne_none text)]
    exact imp_iff_not_or

def oneTransaction (raised : Option String) : NativeCalls Bool where
  beginTransaction _ := (.ok 601, false)
  commitTransaction s := (raised, s || raised.isNone)
  abortTransaction s := (none, s)
  getTransactionId _ := 0
  committed s := s
  raises s h := by
    rw [show raised = none from h]
    exact Bool.or_true s

theorem close_commits_iff_statement : (closeSequence (oneTransaction none) 601 ⟨601, false⟩).1 = none ∧
      (closeSequence (oneTransaction none) 601 ⟨601, false⟩).2.server :=
  ⟨rfl, (close_commits_iff (N := oneTransaction none) (c := ⟨0, false⟩) rfl [.native id, .begin_]
    rfl).mpr (.inl rfl) rfl⟩

/-- `close` returns, and nothing is committed. -/
theorem failed_commit_silent :
    newSequence (oneTransaction (some "commit failed")) ⟨0, false⟩ = (.ok 601, ⟨601, false⟩) ∧
      closeSequence (oneTransaction (some "commit failed")) 601 ⟨601, false⟩ = (none, ⟨0, false⟩) ∧
      (oneTransaction (some "commit failed")).committed false = false :=
  ⟨rfl, rfl, rfl⟩

end WeaverDB.Java
