import WeaverDB.SharedInval.Delivery

/-! # The ring of messages

Beside the segment stands the list of all messages stored so far. The cells of the live numbers hold the
last of them, and no number comes near the end of an `int`.
-/

namespace WeaverDB.SharedInval
open Foundations List

variable {seg : SISeg} {sent : List SharedInvalidData} {e : Event}

def storedBy (seg : SISeg) : Event → List SharedInvalidData
  | .insertDataEntry data => if (siInsertDataEntry seg data).1 then [data] else []
  | _ => []

def Records (s : SISeg × List SharedInvalidData) (e : Event) (t : SISeg × List SharedInvalidData) : Prop :=
  Step s.1 e t.1 ∧ t.2 = s.2 ++ storedBy s.1 e

def live (seg : SISeg) : List SharedInvalidData :=
  window seg.buffer maxNumMessages seg.minMsgNum seg.maxMsgNum

def LoweredBy (k : Int) (seg t : SISeg) : Prop :=
  t.minMsgNum = minNextMsgNum seg - k ∧ t.maxMsgNum = seg.maxMsgNum-k ∧
    ∀ b, Active seg b → (t.procState (b-1)).nextMsgNum = (seg.procState (b-1)).nextMsgNum - k

structure Ringed (seg : SISeg) (sent : List SharedInvalidData) : Prop where
  next : ∀ b, Active seg b → seg.minMsgNum ≤ (seg.procState (b-1)).nextMsgNum ∧
    (seg.procState (b-1)).nextMsgNum ≤ seg.maxMsgNum
  span : seg.minMsgNum ≤ seg.maxMsgNum ∧ seg.maxMsgNum ≤ seg.minMsgNum + maxNumMessages
  bounded : 0 ≤ seg.minMsgNum ∧ seg.maxMsgNum ≤ msgNumWrapAround + maxNumMessages
  rebased : ∃ k, (k = 0 ∨ k = msgNumWrapAround) ∧ LoweredBy k seg (siDelExpiredDataEntries seg).2
  slots : live seg <:+ sent

section

variable (h : Invariant seg)
include h

theorem delExpired_rebased : ∃ k, (k = 0 ∨ k = msgNumWrapAround) ∧ LoweredBy k seg (siDelExpiredDataEntries seg).2 := by
  have hmin := h.minNextMsgNum_bounds
  simp only [siDelExpiredDataEntries]
  split_ifs with hempty hwrap
  · have hall : minNextMsgNum seg = seg.minMsgNum := by omega
    exact ⟨0, .inl rfl, by simp [LoweredBy, hall]⟩
  · exact ⟨msgNumWrapAround, .inr rfl, rfl, rfl, fun b hb => next_rebase hb⟩
  · exact ⟨0, .inl rfl, by simp [LoweredBy]⟩

theorem live_delExpired : live (siDelExpiredDataEntries seg).2 <:+ live seg := by
  have hsuffix := window_suffix seg.buffer maxNumMessages _ seg.maxMsgNum h.minNextMsgNum_bounds.1
  simp only [siDelExpiredDataEntries]
  split_ifs with hempty hwrap
  · exact suffix_rfl
  · rw [← window_rebase _ _ msgNumWrapAround _ _ (Dvd.intro _ rfl) (by decide) hwrap] at hsuffix
    exact hsuffix
  · exact hsuffix

variable (data : SharedInvalidData)

theorem live_storeMessage (hroom : ¬ seg.maxMsgNum - seg.minMsgNum ≥ maxNumMessages) :
    live (storeMessage seg data) = live seg ++ [data] :=
  window_push seg.buffer _ seg.minMsgNum _ data h.min_nonneg h.min_le_max (by omega)

theorem live_insert (hsent : live seg <:+ sent) :
    live (siInsertDataEntry seg data).2 <:+ sent ++ storedBy seg (.insertDataEntry data) := by
  by_cases hfull : seg.maxMsgNum - seg.minMsgNum ≥ maxNumMessages
  · simp only [storedBy, siInsertDataEntry, if_pos hfull]
    split
    · exact nil_suffix
    · next hroom =>
      rw [live_storeMessage (delExpired_invariant h) data hroom]
      exact suffix_append_self_iff.mpr ((live_delExpired h).trans hsent)
  · simp only [storedBy, siInsertDataEntry, if_neg hfull]
    rw [live_storeMessage h data hfull]
    exact suffix_append_self_iff.mpr hsent

theorem live_step (hsent : live seg <:+ sent) {seg' : SISeg} (hs : Step seg e seg') :
    live seg' <:+ sent ++ storedBy seg e := by
  cases hs with
  | insertDataEntry data => exact live_insert h data hsent
  | resetProcState => exact nil_suffix
  | _ => ?_
  all_goals simp only [storedBy, append_nil]
  case backendInit thread =>
    unfold siBackendInit
    cases freeEntry seg <;> exact hsent
  case getDataEntry b hb =>
    obtain hc | hc := getDataEntry_cases h hb
    · exact hc.2 ▸ hsent
    · exact hc.2 ▸ hsent
  case delExpiredDataEntries => exact (live_delExpired h).trans hsent
  case cleanup b hb => exact hsent

end

/-- **The ring.** The live cells hold the last messages in order. -/
theorem ring_of_run (raw : SISeg) (n : Nat) {es : List Event}
    (r : Run Records (siSegInit raw n, []) es (seg, sent)) : Ringed seg sent := by
  have hstart : live (siSegInit raw n) <:+ [] := nil_suffix
  have hrun := r.preserves (fun s => Invariant s.1 ∧ live s.1 <:+ s.2)
    (fun _ _ _ h hs => ⟨step_invariant h.1 hs.1, hs.2 ▸ live_step h.1 h.2 hs.1⟩) ⟨segInit_invariant raw n, hstart⟩
  obtain ⟨h, hslots⟩ : Invariant seg ∧ live seg <:+ sent := hrun
  have hwrap := h.below_wrap
  have hspan := h.span
  exact ⟨fun b => h.active_next, ⟨h.min_le_max, hspan⟩, ⟨h.min_nonneg, by omega⟩, delExpired_rebased h, hslots⟩

/-- Thread 7 becomes backend 1 before two messages are inserted. -/
theorem ring_of_two_messages : ∃ seg, Active seg 1 ∧ Ringed seg [catalogMessage, ⟨5, 18, ⟨3, 2⟩⟩] := by
  let seg := (siBackendInit (siSegInit blankSeg 1) 7).2
  have s1 : Records (siSegInit blankSeg 1, []) _ (seg, []) := ⟨.backendInit _ 7, rfl⟩
  have s2 : Records (seg, []) _ (_, [catalogMessage]) := ⟨.insertDataEntry seg catalogMessage, rfl⟩
  have s3 : Records (_, [catalogMessage]) _ (_, [catalogMessage, ⟨5, 18, ⟨3, 2⟩⟩]) :=
    ⟨.insertDataEntry (siInsertDataEntry seg catalogMessage).2 ⟨5, 18, ⟨3, 2⟩⟩, rfl⟩
  refine ⟨_, ?_, ring_of_run blankSeg 1 (.cons s1 (.cons s2 (.single s3)))⟩
  decide

end WeaverDB.SharedInval
