import WeaverDB.Visibility.SnapshotRule

/-! # Hint bits are a cache

`Earned m g b`: what makes the bit `b` of the header `g` superfluous at the moment `m`. A call earns the
bits it sets, later moments and calls keep them earned, and no call can tell an earned bit from its
absence. A soft commit earns nothing, since a crash can undo it.
-/

namespace WeaverDB.Visibility
open Foundations TransLog Snapshot Bool

variable {m m' : Moment} {g t t' : HeapTupleHeader} {x : TransactionId} {v : View}
  {scan : CommandId} {b : HintBit}

/-- The id can no longer commit: it is the invalid id or its transaction is gone. -/
def Moment.Void (m : Moment) (x : TransactionId) : Prop := x = 0 ∨ m.Gone x

/-- If `TransactionIdDidCrash` holds of the id, its transaction is no longer running. -/
def Moment.Sound (m : Moment) (x : TransactionId) : Prop := m.didCrash x → x < m.next ∧ ¬ m.running x

def Reason (m : Moment) (g : HeapTupleHeader) : HintBit → Prop
  | .xminCommitted => g.has .xminInvalid = false ∧ g.xmin ≠ 0 ∧ m.log g.xmin = .commit
  | .xminInvalid => m.Void g.xmin
  | .xmaxCommitted => g.xmax ≠ 0 ∧ m.log g.xmax = .commit
  | .xmaxInvalid =>
    (g.has .xminCommitted ∨ g.xmin < m.next ∧ ¬ m.running g.xmin) ∧
      (g.xmax = 0 ∨ g.has .xmaxCommitted = false ∧ m.Void g.xmax)

structure Earned (m : Moment) (g : HeapTupleHeader) (b : HintBit) : Prop where
  set : g.has b
  reason : Reason m g b

theorem Moment.void_of_isVoid (m : Moment) (current : TransactionId) (scan : CommandId)
    (x : TransactionId) (hsound : m.Sound x) (h : (m.view current scan).isVoid x) : m.Void x := by
  rw [View.isVoid, and_eq_true, or_eq_true] at h
  obtain habort | hcrash := h.2
  · obtain h0 | hlog := (didAbort_iff m.log x).mp habort
    · exact .inl h0
    · refine .inr ⟨m.known_of_final x (by rw [hlog]; decide), fun hr => ?_, .inl hlog⟩
      rw [(m.open_of_running x hr).2.2] at hlog
      cases hlog
  · obtain ⟨hknown, hgone⟩ := hsound hcrash
    exact .inr ⟨hknown, hgone, .inr (m.open_of_didCrash x hcrash).2⟩

theorem Moment.isVoid_of_void (m : Moment) (current : TransactionId) (scan : CommandId)
    (x : TransactionId) (h : m.Void x) : (m.view current scan).isVoid x := by
  have hcommit : transactionIdDidCommit m.log x = false := by
    rw [← not_eq_true, didCommit_iff]
    rintro ⟨h0, hlog⟩
    obtain h | h := h
    · exact h0 h
    · rcases h.lost with e | e <;> simp [e] at hlog
  have hlost : transactionIdDidAbort m.log x ∨ m.didCrash x := by
    rw [didAbort_iff]
    by_cases h0 : x = 0
    · exact .inl (.inl h0)
    · have hgone := h.resolve_left h0
      obtain e | e := hgone.lost
      · exact .inl (.inr e)
      · exact .inr (m.didCrash_of_gone x h0 e hgone.ended)
  rw [View.isVoid, and_eq_true, or_eq_true, not_eq_true']
  exact ⟨hcommit, hlost⟩

theorem Moment.Void.not_running (h : m.Void x) : ¬ m.running x := by
  intro hr
  obtain h | h := h
  · exact (m.open_of_running x hr).1 h
  · exact h.ended hr

theorem earned_of_justified {current : TransactionId} (hxmin : m.Sound g.xmin)
    (hxmax : m.Sound g.xmax) (hb : Justified (m.view current scan) g b) :
    Earned m (g.hint b) b := by
  refine ⟨by cases b <;> rfl, ?_⟩
  cases b with
  | xminCommitted => exact ⟨hb.1, (didHardCommit_iff _ _).mp hb.2⟩
  | xminInvalid => exact m.void_of_isVoid current scan _ hxmin hb.2
  | xmaxCommitted => exact (didHardCommit_iff _ _).mp hb.2
  | xmaxInvalid =>
    refine ⟨hb.1.imp_right fun hc => ⟨?_, m.not_running_of_didCommit _ hc⟩,
      hb.2.imp_right fun hx => ⟨hx.1, m.void_of_isVoid current scan _ hxmax hx.2⟩⟩
    refine m.known_of_final _ ?_
    obtain e | e := ((didCommit_iff _ _).mp hc).2
    all_goals
      intro hopen
      cases e.symm.trans hopen

theorem Earned.hint (h : Earned m g b) (c : HintBit) (hc : Justified v g c) : Earned m (g.hint c) b := by
  refine ⟨by rw [has_hint, h.set, Bool.or_true], ?_⟩
  have hreason := h.reason
  have hset := h.set
  cases b with
  | xminCommitted =>
    refine ⟨?_, by cases c <;> exact hreason.2⟩
    cases c with
    | xminInvalid => cases hset.symm.trans hc.1
    | xminCommitted => exact hreason.1
    | xmaxCommitted => exact hreason.1
    | xmaxInvalid => exact hreason.1
  | xminInvalid => cases c <;> exact hreason
  | xmaxCommitted => cases c <;> exact hreason
  | xmaxInvalid =>
    cases c with
    | xminCommitted => exact ⟨.inl rfl, hreason.2⟩
    | xminInvalid => exact hreason
    | xmaxCommitted => cases hset.symm.trans hc.1
    | xmaxInvalid => exact hreason

theorem hints_earned {current : TransactionId} (hxmin : m.Sound t.xmin) (hxmax : m.Sound t.xmax)
    (h : Hints (m.view current scan) t t') (hold : t.has b = false) (hnew : t'.has b) :
    Earned m t' b := by
  induction h with
  | none =>
    rw [hold] at hnew
    cases hnew
  | more c hh hc ih =>
    rw [has_hint, or_eq_true, decide_eq_true_eq] at hnew
    obtain rfl | hnew := hnew
    · exact earned_of_justified (hh.sameTuple.xmin ▸ hxmin) (hh.sameTuple.xmax ▸ hxmax) hc
    · exact (ih hnew).hint c hc

theorem Earned.hints (h : Earned m t b) (hh : Hints v t t') : Earned m t' b := by
  induction hh with
  | none => exact h
  | more c _ hc ih => exact ih.hint c hc

theorem Moves.void (hm : Moves m m') (h : m.Void x) : m'.Void x := h.imp_right hm.gone

theorem Earned.later (h : Earned m g b) (hm : Moves m m') : Earned m' g b := by
  refine ⟨h.set, ?_⟩
  have hreason := h.reason
  cases b with
  | xminCommitted => exact ⟨hreason.1, hreason.2.1, hm.commit _ hreason.2.2⟩
  | xminInvalid => exact hm.void hreason
  | xmaxCommitted => exact ⟨hreason.1, hm.commit _ hreason.2⟩
  | xmaxInvalid =>
    refine ⟨hreason.1.imp_right fun hx => ?_, hreason.2.imp_right fun hx => ⟨hx.1, hm.void hx.2⟩⟩
    exact ⟨Nat.lt_of_lt_of_le hx.1 hm.next, fun hr => hx.2 (hm.ended _ hx.1 hr)⟩

inductive Passes : Moment × HeapTupleHeader → Option Call → Moment × HeapTupleHeader → Prop where
  | moves {m m' : Moment} (h : Moves m m') (g : HeapTupleHeader) : Passes (m, g) none (m', g)
  | calls (m : Moment) (g : HeapTupleHeader) (current : TransactionId) (scan : CommandId)
      (c : Call) : Passes (m, g) (some c) (m, (c.exec (m.view current scan) g).2)

theorem passes_earned {g' : HeapTupleHeader} {events : List (Option Call)}
    (r : Run Passes (m, g) events (m', g')) (h : Earned m g b) : Earned m' g' b := by
  refine r.preserves (fun p => Earned p.1 p.2 b) ?_ h
  intro p e p' hp hs
  cases hs with
  | moves hm g => exact hp.later hm
  | calls m g current scan c => exact hp.hints (exec_hints _ g c)

/-- **Histories.** Every run of the threads is a history of the moments. -/
theorem steps_pass {s s' : Server} {events : List Event} (r : Run (Guarded Step Roomy) s events s') (h : Lawful s)
    (g : HeapTupleHeader) :
    ∃ (h' : Lawful s') (passed : List (Option Call)), Run Passes (momentOf s h, g) passed (momentOf s' h', g) := by
  induction r with
  | nil => exact ⟨h, [], .nil _⟩
  | cons hs _ ih =>
    obtain ⟨h', passed, hp⟩ := ih (step_lawful h hs)
    exact ⟨h', none :: passed, .cons (.moves (step_moves h hs) g) hp⟩

/-- Two threads run, and transaction 602 commits. -/
theorem steps_pass_both_running : ∃ (s : Server) (h : Lawful bothRunning) (h' : Lawful s) (passed : List (Option Call)),
    transactionIdDidCommit s.log 602 ∧
      Run Passes (momentOf bothRunning h, freshTuple) passed (momentOf s h', freshTuple) := by
  have h : Lawful bothRunning := bothRunning_run.preserves Lawful (fun _ _ _ => step_lawful)
    (Started.lawful twoThreads_started fun _ _ => rfl)
  obtain ⟨h', passed, hp⟩ := steps_pass (.guarded_cons (.finish _ 0 602 rfl) trivial
    (.guarded_cons (.softCommit _ 0 602 rfl) trivial (.nil _))) h freshTuple
  exact ⟨_, h, h', passed, by decide, hp⟩

theorem askLog_committed (h0 : x ≠ 0)
    (hlog : v.log x = .commit) (c i : HintBit) : (askLog v g x c i).1 = .committed := by
  have hcommit : transactionIdDidCommit v.log x := (didCommit_iff _ _).mpr ⟨h0, .inr hlog⟩
  rw [askLog, if_pos hcommit]

theorem askLog_void (h : v.isVoid x) (c i : HintBit) : (askLog v g x c i).1 = .void := by
  rw [View.isVoid, and_eq_true, or_eq_true, not_eq_true'] at h
  unfold askLog
  rw [h.1, if_neg Bool.false_ne_true]
  obtain e | e := h.2
  · rw [if_pos e]
  · split_ifs <;> rfl

section

variable {current : TransactionId} (scan : CommandId) {b : HintBit} (hrun : m.running current) (asksOwn : Bool)
include hrun

theorem not_current (h : ¬ m.running x) : ¬ (asksOwn && (m.view current scan).isCurrent x) := by
  rw [and_eq_true]
  rintro ⟨-, hcur⟩
  exact h (eq_of_beq hcur ▸ hrun)

theorem Earned.inserter (h : Earned m g b) : (inserter (m.view current scan) asksOwn (g.clear b)).1 =
      (inserter (m.view current scan) asksOwn g).1 := by
  have hreason := h.reason
  cases b with
  | xminCommitted =>
    obtain ⟨hinv, h0, hlog⟩ := hreason
    have hother := not_current scan hrun asksOwn (m.not_running_of_commit _ hlog)
    rw [inserter_of_committed h.set, inserter_of_other (t := g.clear .xminCommitted) rfl hinv hother]
    exact askLog_committed h0 hlog _ _
  | xminInvalid =>
    have hother := not_current scan hrun asksOwn (Moment.Void.not_running hreason)
    cases hcom : g.has .xminCommitted with
    | true => rw [inserter_of_committed hcom, inserter_of_committed (t := g.clear .xminInvalid) hcom]
    | false =>
      rw [inserter_of_invalid hcom h.set, inserter_of_other (t := g.clear .xminInvalid) hcom rfl hother]
      exact askLog_void (m.isVoid_of_void current scan _ hreason) _ _
  | xmaxCommitted => exact inserter_congr _ _ rfl rfl rfl
  | xmaxInvalid => exact inserter_congr _ _ rfl rfl rfl

theorem Earned.deleter (h : Earned m g b) : (deleter (m.view current scan) asksOwn (g.clear b)).1 =
      (deleter (m.view current scan) asksOwn g).1 := by
  have hreason := h.reason
  cases b with
  | xminCommitted => exact deleter_congr _ _ rfl rfl rfl
  | xminInvalid => exact deleter_congr _ _ rfl rfl rfl
  | xmaxCommitted =>
    obtain ⟨h0, hlog⟩ := hreason
    have hother := not_current scan hrun asksOwn (m.not_running_of_commit _ hlog)
    cases hinv : g.has .xmaxInvalid with
    | true => rw [deleter_of_invalid hinv, deleter_of_invalid (t := g.clear .xmaxCommitted) hinv]
    | false =>
      rw [deleter_of_committed hinv h0 h.set, deleter_of_other (t := g.clear .xmaxCommitted) hinv h0 rfl hother]
      exact askLog_committed h0 hlog _ _
  | xmaxInvalid =>
    rw [deleter_of_invalid h.set]
    by_cases h0 : g.xmax = 0
    · rw [deleter_of_zero (t := g.clear .xmaxInvalid) rfl h0]
    · obtain ⟨hcom, hvoid⟩ := hreason.2.resolve_left h0
      have hother := not_current scan hrun asksOwn hvoid.not_running
      rw [deleter_of_other (t := g.clear .xmaxInvalid) rfl h0 hcom hother]
      exact askLog_void (m.isVoid_of_void current scan _ hvoid) _ _

theorem Earned.alike (h : Earned m g b) : Alike (m.view current scan) g (g.clear b) where
  same := sameTuple_clear g b
  ins := fun asksOwn => h.inserter scan hrun asksOwn
  del := fun asksOwn => h.deleter scan hrun asksOwn
  own := by
    intro hown
    obtain ⟨-, hcur, -, hcom, -⟩ := inserter_own _ _ _ hown
    cases b with
    | xmaxInvalid =>
      -- the deleter's bit was set behind an inserter that is not the current transaction
      obtain hset | ⟨-, hgone⟩ := h.reason.1
      · cases hset.symm.trans hcom
      · have hxmin : current = g.xmin := eq_of_beq hcur
        exact absurd hrun (hxmin ▸ hgone)
    | xminCommitted => rfl
    | xminInvalid => rfl
    | xmaxCommitted => rfl

end

/-- **Hint bits are a cache.** A bit that a call has set makes no difference to any later call, also
after crashes. -/
theorem hint_bit_is_cache (m : Moment) (t : HeapTupleHeader) (setter : TransactionId)
    (scan : CommandId) (c : Call) (b : HintBit) (hxmin : m.Sound t.xmin) (hxmax : m.Sound t.xmax)
    (hold : t.has b = false) (hnew : (c.exec (m.view setter scan) t).2.has b)
    (m' : Moment) (g : HeapTupleHeader) (events : List (Option Call))
    (hlater : Run Passes (m, (c.exec (m.view setter scan) t).2) events (m', g))
    (current : TransactionId) (scan' : CommandId) (hrun : m'.running current) (c' : Call) :
    g.has b ∧ (c'.exec (m'.view current scan') g).1 = (c'.exec (m'.view current scan') (g.clear b)).1 := by
  have hset : Earned m (c.exec (m.view setter scan) t).2 b :=
    hints_earned hxmin hxmax (exec_hints _ t c) hold hnew
  have hkept := passes_earned hlater hset
  exact ⟨hkept.set, ((hkept.alike scan' hrun).exec c').symm⟩

def afterCrash : Moment where
  log := fun x => if x = 600 then .commit else .inprogress
  running := fun x => x = 800
  shown := fun x => x == 800
  checkpoint := 750
  next := 801
  open_of_running := by
    rintro x rfl
    exact ⟨by decide, by decide, rfl⟩
  running_of_shown := fun x _ hs _ => eq_of_beq hs
  known_of_final := by
    intro x h
    by_cases hx : x = 600
    · rw [hx]
      decide
    · rw [if_neg hx] at h
      exact absurd rfl h

theorem crash_moves : Moves afterCommit afterCrash where
  next := by decide
  ended := by
    rintro x hlt rfl
    exact absurd hlt (by decide)
  status := fun x => .stay _

theorem hint_bit_is_cache_after_crash : (Call.dirty.exec (afterCrash.view 800 1)
        (Call.now.exec (afterCommit.view 700 2) (heapInsert freshTuple 600 1)).2).1 =
      (Call.dirty.exec (afterCrash.view 800 1)
        ((Call.now.exec (afterCommit.view 700 2) (heapInsert freshTuple 600 1)).2.clear .xminCommitted)).1 :=
  (hint_bit_is_cache afterCommit (heapInsert freshTuple 600 1) 700 2 .now .xminCommitted
    (fun h => absurd h (by decide)) (fun h => absurd h (by decide)) rfl (by decide) afterCrash _ _
    (.single (.moves crash_moves _)) 800 1 rfl .dirty).2

end WeaverDB.Visibility
