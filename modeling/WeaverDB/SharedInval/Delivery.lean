import WeaverDB.Foundations.Runs
import WeaverDB.Foundations.RingWindow
import WeaverDB.SharedInval.Segment

/-! # Delivery of invalidation messages to active backends

`delivery` is the monitor of one mailbox per active backend, and `boxes` reads the mailboxes off the
segment. Every routine acts on them as the monitor does, but `SISetProcStateInvalid` rewinds the
counters of the active backends and never raises a reset flag, because it only lowers `resetState` and
the flags are always 0.
-/

namespace WeaverDB.SharedInval
open Foundations List Function

variable {seg seg' : SISeg} {b : Nat} {e : Event}

/-! ## What delivery means -/

abbrev Mailboxes := Nat → Option (List SharedInvalidData)

def deliver (boxes : Mailboxes) : Event → Mailboxes
  | .backendInit _ (some b) => update boxes b (some [])
  | .backendInit _ none => boxes
  | .insertDataEntry data => fun b => (boxes b).map (· ++ [data])
  | .getDataEntry b code _ =>
    if code < 0 then update boxes b (some [])
    else if code = 0 then boxes
    else update boxes b ((boxes b).map List.tail)
  | .cleanup b => update boxes b none
  | .delExpiredDataEntries => boxes
  | .resetProcState => boxes

/-- 0 is answered only with nothing left to see, and a message only if it is the oldest. -/
def Accounted (boxes : Mailboxes) : Event → Prop
  | .getDataEntry b code data =>
    if code < 0 then True
    else if code = 0 then boxes b = some []
    else ∃ m rest, data = some m ∧ boxes b = some (m :: rest)
  | .backendInit _ (some b) => boxes b = none
  | _ => True

/-- A message is returned once, in order, or covered by a reset, before nothing is pending. -/
def delivery : Monitor Mailboxes Event where
  update := deliver
  good := Accounted

/-! ## The invariant of every run -/

/-- After any calls: ordered counters, at most a buffer full of live numbers, and reset flags that are
down. -/
structure Invariant (seg : SISeg) : Prop where
  min_nonneg : 0 ≤ seg.minMsgNum
  min_le_max : seg.minMsgNum ≤ seg.maxMsgNum
  span : seg.maxMsgNum ≤ seg.minMsgNum+maxNumMessages
  below_wrap : seg.minMsgNum < msgNumWrapAround
  next : ∀ i < seg.maxBackends, (seg.procState i).nextMsgNum = -1 ∨
    seg.minMsgNum ≤ (seg.procState i).nextMsgNum ∧ (seg.procState i).nextMsgNum ≤ seg.maxMsgNum
  reset : ∀ i < seg.maxBackends, (seg.procState i).resetState = 0

def Tagged (seg : SISeg) : Prop :=
  ∀ i < seg.maxBackends, (seg.procState i).tag = invalidBackendTag ↔ (seg.procState i).nextMsgNum = -1

theorem active_slot (h : Active seg b) : b - 1 < seg.maxBackends := by
  have h1 := h.1
  have h2 := h.2.1
  omega

theorem Invariant.active_next (h : Invariant seg) (hb : Active seg b) :
    seg.minMsgNum ≤ (seg.procState (b-1)).nextMsgNum ∧ (seg.procState (b-1)).nextMsgNum ≤ seg.maxMsgNum := by
  have hpos := hb.2.2
  cases h.next (b-1) (active_slot hb) with
  | inl hn => omega
  | inr hn => exact hn

variable (raw : SISeg) (n : Nat)

theorem segInit_invariant : Invariant (siSegInit raw n) where
  min_nonneg := by simp [siSegInit]
  min_le_max := by simp [siSegInit]
  span := by simp [siSegInit, maxNumMessages]
  below_wrap := by simp [siSegInit, msgNumWrapAround, maxNumMessages]
  next := by
    intro i hi
    have hi' : i < n := hi
    simp [siSegInit, hi', ProcState.inactive]
  reset := by
    intro i hi
    have hi' : i < n := hi
    simp [siSegInit, hi', ProcState.inactive]

theorem segInit_tagged : Tagged (siSegInit raw n) := by
  intro i hi
  have hi' : i < n := hi
  simp [siSegInit, hi', ProcState.inactive]

theorem Invariant.setProcState (h : Invariant seg) (i : Nat) (p : ProcState)
    (hreset : p.resetState = 0) (hnext : p.nextMsgNum = -1 ∨
      seg.minMsgNum ≤ p.nextMsgNum ∧ p.nextMsgNum ≤ seg.maxMsgNum) :
    Invariant (seg.setProcState i p) where
  min_nonneg := h.min_nonneg
  min_le_max := h.min_le_max
  span := h.span
  below_wrap := h.below_wrap
  next := by
    intro j hj
    by_cases e : j = i
    · subst e; simpa [SISeg.setProcState] using hnext
    · simpa [SISeg.setProcState, update_of_ne e] using h.next j hj
  reset := by
    intro j hj
    by_cases e : j = i
    · subst e; simpa [SISeg.setProcState] using hreset
    · simpa [SISeg.setProcState, update_of_ne e] using h.reset j hj

theorem freeEntry_some {i : Nat} (h : freeEntry seg = some i) :
    i < seg.maxBackends ∧ (seg.procState i).tag = invalidBackendTag := by
  have h1 := List.find?_some h
  have h2 := List.mem_of_find?_eq_some h
  exact ⟨mem_range.mp h2, by simpa using h1⟩

theorem backendInit_invariant (h : Invariant seg) (thread : Nat) : Invariant (siBackendInit seg thread).2 := by
  have h' : Invariant { seg with nextBackendTag := seg.nextBackendTag + 1 } :=
    ⟨h.min_nonneg, h.min_le_max, h.span, h.below_wrap, h.next, h.reset⟩
  unfold siBackendInit
  cases freeEntry seg with
  | none => exact h'
  | some i => exact h'.setProcState i _ rfl (.inr ⟨h.min_le_max, le_refl _⟩)

theorem cleanup_invariant (h : Invariant seg) (b : Nat) : Invariant (cleanupInvalidationState seg b) :=
  h.setProcState (b-1) .inactive rfl (.inl rfl)

theorem lowerMin_le (min h : Int) : lowerMin min h ≤ min := by
  unfold lowerMin
  split_ifs <;> omega

theorem lowerMin_le_active (min h : Int) (hh : 0 ≤ h) : lowerMin min h ≤ h := by
  unfold lowerMin
  split_ifs <;> omega

theorem le_lowerMin (lo min h : Int) (hmin : lo ≤ min) (hh : 0 ≤ h → lo ≤ h) : lo ≤ lowerMin min h := by
  unfold lowerMin
  split_ifs <;> omega

theorem minNextMsgNum_spec (seg : SISeg) : minNextMsgNum seg ≤ seg.maxMsgNum ∧
    (∀ i < seg.maxBackends, 0 ≤ (seg.procState i).nextMsgNum → minNextMsgNum seg ≤ (seg.procState i).nextMsgNum) ∧
    ∀ lo, lo ≤ seg.maxMsgNum →
      (∀ i < seg.maxBackends, 0 ≤ (seg.procState i).nextMsgNum → lo ≤ (seg.procState i).nextMsgNum) →
      lo ≤ minNextMsgNum seg := by
  unfold minNextMsgNum
  induction seg.maxBackends with
  | zero => simp
  | succ n ih =>
    rw [range_succ, foldl_append, foldl_cons, foldl_nil]
    obtain ⟨ih1, ih2, ih3⟩ := ih
    refine ⟨(lowerMin_le _ _).trans ih1, ?_, ?_⟩
    · intro i hi hact
      cases Nat.lt_succ_iff_lt_or_eq.mp hi with
      | inl hlt => exact (lowerMin_le _ _).trans (ih2 i hlt hact)
      | inr heq =>
        rw [heq] at hact ⊢
        exact lowerMin_le_active _ _ hact
    · intro lo hlo hall
      exact le_lowerMin _ _ _ (ih3 lo hlo fun i hi => hall i (by omega)) (hall n (by omega))

section

variable (h : Invariant seg)
include h

theorem Invariant.minNextMsgNum_bounds : seg.minMsgNum ≤ minNextMsgNum seg ∧ minNextMsgNum seg ≤ seg.maxMsgNum := by
  obtain ⟨h1, -, h3⟩ := minNextMsgNum_spec seg
  refine ⟨h3 _ h.min_le_max ?_, h1⟩
  intro i hi hact
  have hn := h.next i hi
  omega

theorem delExpired_invariant : Invariant (siDelExpiredDataEntries seg).2 := by
  have hmin := h.min_nonneg
  have hspan := h.span
  have hwrap := h.below_wrap
  obtain ⟨hlo, hhi⟩ := h.minNextMsgNum_bounds
  obtain ⟨-, hnext, -⟩ := minNextMsgNum_spec seg
  simp only [siDelExpiredDataEntries]
  split_ifs with he hw
  · exact h
  · refine ⟨?_, ?_, ?_, ?_, ?_, ?_⟩
    · simp only [rebase]; omega
    · simp only [rebase]; omega
    · simp only [rebase]; omega
    · simp only [rebase, msgNumWrapAround, maxNumMessages] at *; omega
    · intro i hi
      have hi' : i < seg.maxBackends := hi
      have hn := hnext i hi'
      have hi2 := h.next i hi'
      simp only [rebase]
      split_ifs with hc
      · right
        have := hc.2
        constructor <;> simp only <;> omega
      · cases hi2 with
        | inl hn' => exact .inl hn'
        | inr hn' => exact absurd (And.intro hi' (by omega)) hc
    · intro i hi
      have hr := h.reset i hi
      simp only [rebase]
      split_ifs <;> exact hr
  · refine ⟨by simp only; omega, hhi, by simp only; omega, by simp only; omega, ?_, h.reset⟩
    intro i hi
    have hn := hnext i hi
    cases h.next i hi with
    | inl hn' => exact .inl hn'
    | inr hn' => exact .inr ⟨hn (by omega), hn'.2⟩

theorem setProcStateInvalid_invariant (state : Int) (hs : 0 < state) : Invariant (siSetProcStateInvalid seg state) := by
  refine ⟨le_refl _, le_refl _, ?_, ?_, ?_, ?_⟩
  · simp [siSetProcStateInvalid, maxNumMessages]
  · simp [siSetProcStateInvalid, msgNumWrapAround, maxNumMessages]
  · intro i hi
    simp only [siSetProcStateInvalid]
    split_ifs with hc
    · exact .inr ⟨le_refl _, le_refl _⟩
    · have hi' : i < seg.maxBackends := hi
      have hmin := h.min_nonneg
      cases h.next i hi' with
      | inl hn => exact .inl hn
      | inr hn => exact absurd (And.intro hi' (by omega)) hc
  · intro i hi
    have hr := h.reset i hi
    simp only [siSetProcStateInvalid]
    split_ifs with hc
    · -- `state < resetState` is the test that keeps the flag down
      simp only [ProcState.invalidate, hr]
      rw [if_neg (by omega)]
    · exact hr

variable (data : SharedInvalidData)

theorem storeMessage_invariant (hroom : seg.maxMsgNum - seg.minMsgNum < maxNumMessages) :
    Invariant (storeMessage seg data) := by
  have h1 := h.min_nonneg
  have h2 := h.min_le_max
  refine ⟨h1, ?_, ?_, h.below_wrap, ?_, h.reset⟩
  · simp only [storeMessage]; omega
  · simp only [storeMessage]; omega
  · intro i hi
    simp only [storeMessage]
    cases h.next i hi with
    | inl hn => exact .inl hn
    | inr hn => exact .inr ⟨hn.1, by omega⟩

theorem insert_invariant : Invariant (siInsertDataEntry seg data).2 := by
  simp only [siInsertDataEntry]
  split_ifs with hfull hfull'
  · exact setProcStateInvalid_invariant (delExpired_invariant h) 1 (by norm_num)
  · exact storeMessage_invariant (delExpired_invariant h) data (by omega)
  · exact storeMessage_invariant h data (by omega)

theorem getDataEntry_cases (hb : Active seg b) :
    (seg.maxMsgNum ≤ (seg.procState (b-1)).nextMsgNum ∧ siGetDataEntry seg b = (0, none, seg)) ∨
    ((seg.procState (b-1)).nextMsgNum < seg.maxMsgNum ∧ siGetDataEntry seg b =
        (1, some (seg.buffer ((seg.procState (b-1)).nextMsgNum.tmod maxNumMessages)),
          seg.setProcState (b-1) { seg.procState (b-1) with
            nextMsgNum := (seg.procState (b-1)).nextMsgNum + 1 })) := by
  obtain ⟨hb1, hb2, hb3⟩ := hb
  have hr := h.reset (b-1) (by omega)
  unfold siGetDataEntry
  simp only [hr]
  by_cases hc : (seg.procState (b-1)).nextMsgNum ≥ seg.maxMsgNum
  · exact .inl ⟨hc, by simp [hc]⟩
  · exact .inr ⟨by omega, by simp [hc]⟩

theorem getDataEntry_invariant (hb : Active seg b) : Invariant (siGetDataEntry seg b).2.2 := by
  cases getDataEntry_cases h hb with
  | inl hc =>
    rw [hc.2]
    exact h
  | inr hc =>
    obtain ⟨hlt, e⟩ := hc
    obtain ⟨hlo, -⟩ := h.active_next hb
    rw [e]
    refine h.setProcState (b-1) _ (h.reset _ (active_slot hb)) (.inr ?_)
    constructor <;> simp only <;> omega

theorem step_invariant (hs : Step seg e seg') : Invariant seg' := by
  cases hs with
  | backendInit thread => exact backendInit_invariant h thread
  | insertDataEntry data => exact insert_invariant h data
  | getDataEntry b hb => exact getDataEntry_invariant h hb
  | delExpiredDataEntries => exact delExpired_invariant h
  | resetProcState => exact setProcStateInvalid_invariant h 2 (by norm_num)
  | cleanup b _ => exact cleanup_invariant h b

end

theorem run_invariant {es : List Event} (r : Run Step (siSegInit raw n) es seg) : Invariant seg :=
  r.preserves Invariant (fun _ _ _ h hs => step_invariant h hs) (segInit_invariant raw n)

/-! ## The mailboxes of a segment -/

def unread (seg : SISeg) (b : Nat) : List SharedInvalidData :=
  window seg.buffer maxNumMessages (seg.procState (b-1)).nextMsgNum seg.maxMsgNum

def boxes (seg : SISeg) : Mailboxes := fun b => if Active seg b then some (unread seg b) else none

theorem boxes_active (h : Active seg b) : boxes seg b = some (unread seg b) := if_pos h

theorem boxes_inactive (h : ¬ Active seg b) : boxes seg b = none := if_neg h

theorem boxes_congr (hact : ∀ b, Active seg' b ↔ Active seg b)
    (hunread : ∀ b, Active seg b → unread seg' b = unread seg b) : boxes seg' = boxes seg := by
  funext b
  by_cases h : Active seg b
  · rw [boxes_active h, boxes_active ((hact b).mpr h), hunread b h]
  · rw [boxes_inactive h, boxes_inactive fun h' => h ((hact b).mp h')]

theorem boxes_setProcState (seg : SISeg) (b : Nat) (p : ProcState) (hb : 1 ≤ b) (hb' : b ≤ seg.maxBackends) :
    boxes (seg.setProcState (b-1) p) = update (boxes seg) b
      (if 0 ≤ p.nextMsgNum then
        some (window seg.buffer maxNumMessages p.nextMsgNum seg.maxMsgNum) else none) := by
  funext c
  by_cases hc : c = b
  · subst hc
    simp [boxes, Active, unread, SISeg.setProcState, hb, hb']
  · rw [update_of_ne hc]
    cases c with
    | zero => simp [boxes, Active]
    | succ i =>
      have hne : i ≠ b-1 := by omega
      have e : (seg.setProcState (b-1) p).procState i = seg.procState i := by
        exact update_of_ne hne _ _
      apply if_congr
      · rw [Active, Active, Nat.add_sub_cancel, e]
        rfl
      · rw [unread, unread, Nat.add_sub_cancel, e]
        rfl
      · rfl

theorem next_rebase (hb : Active seg b) :
    ((rebase seg).procState (b-1)).nextMsgNum = (seg.procState (b-1)).nextMsgNum - msgNumWrapAround := by
  simp [rebase, active_slot hb, hb.2.2]

theorem boxes_rebase (hmin : ∀ b, Active seg b →
    msgNumWrapAround ≤ (seg.procState (b-1)).nextMsgNum) : boxes (rebase seg) = boxes seg := by
  have hw : (0 : Int) ≤ msgNumWrapAround := by decide
  apply boxes_congr
  · intro b
    constructor
    · rintro ⟨h1, h2, h3⟩
      refine ⟨h1, h2, ?_⟩
      by_contra hneg
      have hlt : (b-1) < seg.maxBackends ∧ (seg.procState (b-1)).nextMsgNum ≥ 0 → False := fun h => hneg h.2
      simp only [rebase, if_neg hlt] at h3
      exact hneg h3
    · intro hb
      refine ⟨hb.1, hb.2.1, ?_⟩
      rw [next_rebase hb]
      have := hmin b hb
      omega
  · intro b hb
    unfold unread
    rw [next_rebase hb]
    exact window_rebase _ _ _ _ _ (Dvd.intro _ rfl) hw (hmin b hb)

theorem boxes_delExpired (seg : SISeg) : boxes (siDelExpiredDataEntries seg).2 = boxes seg := by
  simp only [siDelExpiredDataEntries]
  split_ifs with he hw
  · rfl
  · rw [boxes_rebase]
    · rfl
    · intro b hb
      obtain ⟨-, hnext, -⟩ := minNextMsgNum_spec seg
      exact le_trans hw (hnext (b-1) (active_slot hb) hb.2.2)
  · rfl

theorem delExpired_active : Active (siDelExpiredDataEntries seg).2 b ↔ Active seg b := by
  have h := congrFun (boxes_delExpired seg) b
  by_cases h1 : Active seg b
  · by_cases h2 : Active (siDelExpiredDataEntries seg).2 b
    · exact iff_of_true h2 h1
    · rw [boxes_active h1, boxes_inactive h2] at h
      cases h
  · by_cases h2 : Active (siDelExpiredDataEntries seg).2 b
    · rw [boxes_inactive h1, boxes_active h2] at h
      cases h
    · exact iff_of_false h2 h1

theorem delExpired_lag (hb : Active seg b) : (siDelExpiredDataEntries seg).2.maxMsgNum -
        ((siDelExpiredDataEntries seg).2.procState (b-1)).nextMsgNum =
      seg.maxMsgNum - (seg.procState (b-1)).nextMsgNum := by
  simp only [siDelExpiredDataEntries]
  split_ifs with he hw
  · rfl
  · have hc := And.intro (active_slot hb) hb.2.2
    simp only [rebase, if_pos hc]
    omega
  · rfl

theorem boxes_storeMessage (h : Invariant seg) (data : SharedInvalidData) (hroom : ∀ b, Active seg b →
      seg.maxMsgNum - (seg.procState (b-1)).nextMsgNum < maxNumMessages) :
    boxes (storeMessage seg data) = deliver (boxes seg) (.insertDataEntry data) := by
  funext b
  change boxes (storeMessage seg data) b = (boxes seg b).map (· ++ [data])
  by_cases hb : Active seg b
  · have hb' : Active (storeMessage seg data) b := hb
    obtain ⟨h1, h2⟩ := h.active_next hb
    have h3 := hroom b hb
    rw [boxes_active hb, boxes_active hb']
    have hhi : seg.maxMsgNum < (seg.procState (b-1)).nextMsgNum + maxNumMessages := by omega
    congr 1
    exact window_push _ _ _ _ _ hb.2.2 h2 hhi
  · have hb' : ¬ Active (storeMessage seg data) b := hb
    rw [boxes_inactive hb, boxes_inactive hb', Option.map_none]

/-! ## The runs that deliver -/

/-- Insertions find room, resets find all up to date, and new backends get new tags. -/
def Ok (seg : SISeg) : Event → Prop
  | .insertDataEntry _ => ∀ b, Active seg b → seg.maxMsgNum - (seg.procState (b-1)).nextMsgNum < maxNumMessages
  | .resetProcState => ∀ b, Active seg b → (seg.procState (b-1)).nextMsgNum = seg.maxMsgNum
  | .backendInit _ _ => seg.nextBackendTag ≠ invalidBackendTag
  | _ => True

theorem delExpired_notFull (hfull : seg.maxMsgNum - seg.minMsgNum ≥ maxNumMessages)
    (hlag : ∀ b, Active seg b → seg.maxMsgNum - (seg.procState (b-1)).nextMsgNum < maxNumMessages) :
    (siDelExpiredDataEntries seg).2.maxMsgNum - (siDelExpiredDataEntries seg).2.minMsgNum <
      maxNumMessages := by
  obtain ⟨-, -, hlo⟩ := minNextMsgNum_spec seg
  have hmin : seg.maxMsgNum - minNextMsgNum seg < maxNumMessages := by
    have hm : (0 : Int) < maxNumMessages := by decide
    have := hlo (seg.maxMsgNum - maxNumMessages + 1) (by omega) fun i hi hact => by
      have := hlag (i+1) ⟨by omega, by omega, hact⟩
      rw [Nat.add_sub_cancel] at this
      omega
    omega
  have hm : (0 : Int) < maxNumMessages := by decide
  simp only [siDelExpiredDataEntries]
  split_ifs with he hw
  · omega
  · simp only [rebase]; omega
  · exact hmin

theorem insert_step (h : Invariant seg) (data : SharedInvalidData) (hok : Ok seg (.insertDataEntry data)) :
    boxes (siInsertDataEntry seg data).2 = deliver (boxes seg) (.insertDataEntry data) := by
  have hlag : ∀ b, Active seg b → seg.maxMsgNum - (seg.procState (b-1)).nextMsgNum < maxNumMessages := hok
  simp only [siInsertDataEntry]
  split_ifs with hfull hfull'
  · exact absurd hfull' (by have := delExpired_notFull hfull hlag; omega)
  · rw [boxes_storeMessage (delExpired_invariant h), boxes_delExpired]
    intro b hb
    have hb' := delExpired_active.mp hb
    rw [delExpired_lag hb']
    exact hlag b hb'
  · exact boxes_storeMessage h data hlag

theorem get_step (h : Invariant seg) (hb : Active seg b) :
    Accounted (boxes seg) (.getDataEntry b (siGetDataEntry seg b).1 (siGetDataEntry seg b).2.1) ∧
    boxes (siGetDataEntry seg b).2.2 =
      deliver (boxes seg) (.getDataEntry b (siGetDataEntry seg b).1 (siGetDataEntry seg b).2.1) := by
  cases getDataEntry_cases h hb with
  | inl hc =>
    obtain ⟨hle, e⟩ := hc
    have hempty : boxes seg b = some [] := by
      rw [boxes_active hb, unread, window_empty _ _ _ _ hle]
    rw [e]
    exact ⟨hempty, rfl⟩
  | inr hc =>
    obtain ⟨hlt, e⟩ := hc
    have hbox : boxes seg b = some (seg.buffer ((seg.procState (b-1)).nextMsgNum.tmod maxNumMessages) ::
          window seg.buffer maxNumMessages ((seg.procState (b-1)).nextMsgNum + 1) seg.maxMsgNum) := by
      rw [boxes_active hb, unread, window_cons _ _ _ _ hlt]
    have hpos : 0 ≤ (seg.procState (b-1)).nextMsgNum + 1 := by have := hb.2.2; omega
    rw [e]
    refine ⟨⟨_, _, rfl, hbox⟩, ?_⟩
    rw [boxes_setProcState _ _ _ hb.1 hb.2.1]
    simp only [if_pos hpos, deliver, hbox]
    rfl

theorem reset_step (hok : Ok seg .resetProcState) : boxes (siResetProcState seg).2 = boxes seg := by
  have hread : ∀ b, Active seg b → (seg.procState (b-1)).nextMsgNum = seg.maxMsgNum := hok
  have hnext : ∀ b, Active seg b → ((siSetProcStateInvalid seg 2).procState (b-1)).nextMsgNum = 0 := by
    intro b hb
    simp [siSetProcStateInvalid, active_slot hb, hb.2.2, ProcState.invalidate]
  apply boxes_congr
  · intro b
    constructor
    · rintro ⟨h1, h2, h3⟩
      refine ⟨h1, h2, ?_⟩
      by_contra hneg
      have hlt : ¬ ((b-1) < seg.maxBackends ∧ (seg.procState (b-1)).nextMsgNum ≥ 0) := fun hc => hneg hc.2
      simp only [siResetProcState, siSetProcStateInvalid, if_neg hlt] at h3
      exact hneg h3
    · intro hb
      exact ⟨hb.1, hb.2.1, le_of_eq (hnext b hb).symm⟩
  · intro b hb
    have e : unread seg b = [] := window_empty _ _ _ _ (le_of_eq (hread b hb).symm)
    rw [e]
    exact window_empty _ _ _ _ (le_of_eq (hnext b hb).symm)

theorem backendInit_step (h : Invariant seg) (ht : Tagged seg) (thread : Nat) :
    Accounted (boxes seg) (.backendInit thread (siBackendInit seg thread).1) ∧
    boxes (siBackendInit seg thread).2 = deliver (boxes seg) (.backendInit thread (siBackendInit seg thread).1) := by
  unfold siBackendInit
  cases hf : freeEntry seg with
  | none => exact ⟨trivial, rfl⟩
  | some i =>
    obtain ⟨hi, htag⟩ := freeEntry_some hf
    have hinactive : ¬ Active seg (i+1) := by
      rintro ⟨-, -, h3⟩
      have := (ht i hi).mp htag
      rw [Nat.add_sub_cancel] at h3
      omega
    have hmax : 0 ≤ seg.maxMsgNum := le_trans h.min_nonneg h.min_le_max
    refine ⟨boxes_inactive hinactive, ?_⟩
    have e := boxes_setProcState { seg with nextBackendTag := seg.nextBackendTag + 1 } (i+1)
      { nextMsgNum := seg.maxMsgNum
        resetState := 0
        tag := seg.nextBackendTag
        procStruct := some thread } (by omega) hi
    rw [Nat.add_sub_cancel] at e
    change boxes _ = update (boxes seg) (i+1) (some [])
    rw [e]
    simp only [if_pos hmax]
    rw [window_empty _ _ _ _ (le_refl _)]
    rfl

theorem Tagged.setProcState (h : Tagged seg) (i : Nat) (p : ProcState)
    (hp : p.tag = invalidBackendTag ↔ p.nextMsgNum = -1) : Tagged (seg.setProcState i p) := by
  intro j hj
  by_cases e : j = i
  · subst e
    simpa [SISeg.setProcState] using hp
  · simpa [SISeg.setProcState, update_of_ne e] using h j hj

theorem Tagged.of_next (h : Tagged seg) (hn : seg'.maxBackends = seg.maxBackends)
    (htag : ∀ i, (seg'.procState i).tag = (seg.procState i).tag) (hnext : ∀ i < seg.maxBackends,
      (seg'.procState i).nextMsgNum = -1 ↔ (seg.procState i).nextMsgNum = -1) : Tagged seg' := by
  intro i hi
  rw [hn] at hi
  rw [htag i, hnext i hi]
  exact h i hi

theorem delExpired_tagged (h : Invariant seg) (ht : Tagged seg) : Tagged (siDelExpiredDataEntries seg).2 := by
  obtain ⟨-, hnext, -⟩ := minNextMsgNum_spec seg
  simp only [siDelExpiredDataEntries]
  split_ifs with he hw
  · exact ht
  · refine ht.of_next rfl (fun i => ?_) fun i hi => ?_
    · simp only [rebase]
      split_ifs <;> rfl
    · have h1 := hnext i hi
      have h2 := h.min_nonneg
      simp only [rebase]
      split_ifs with hc
      · simp only
        omega
      · rfl
  · exact ht

theorem setProcStateInvalid_tagged (ht : Tagged seg) (state : Int) : Tagged (siSetProcStateInvalid seg state) := by
  refine ht.of_next rfl (fun i => ?_) fun i hi => ?_
  · simp only [siSetProcStateInvalid]
    split_ifs <;> rfl
  · simp only [siSetProcStateInvalid]
    split_ifs with hc
    · simp only [ProcState.invalidate]
      omega
    · rfl

theorem step_tagged (h : Invariant seg) (ht : Tagged seg) (hok : Ok seg e) (hs : Step seg e seg') : Tagged seg' := by
  cases hs with
  | backendInit thread =>
    have hmax : 0 ≤ seg.maxMsgNum := le_trans h.min_nonneg h.min_le_max
    have ht' : Tagged { seg with nextBackendTag := seg.nextBackendTag + 1 } := ht
    unfold siBackendInit
    cases freeEntry seg with
    | none => exact ht'
    | some i => exact ht'.setProcState i _ (iff_of_false hok (by simp only; omega))
  | insertDataEntry data =>
    simp only [siInsertDataEntry]
    split_ifs
    · exact setProcStateInvalid_tagged (delExpired_tagged h ht) 1
    · exact delExpired_tagged h ht
    · exact ht
  | getDataEntry b hb =>
    cases getDataEntry_cases h hb with
    | inl hc => rw [hc.2]; exact ht
    | inr hc =>
      rw [hc.2]
      have hpos := hb.2.2
      refine ht.setProcState _ _ ?_
      rw [ht _ (active_slot hb)]
      simp only
      omega
  | delExpiredDataEntries => exact delExpired_tagged h ht
  | resetProcState => exact setProcStateInvalid_tagged ht 2
  | cleanup b hb => exact ht.setProcState _ _ (iff_of_true rfl rfl)

theorem step_delivers (h : Invariant seg) (ht : Tagged seg) (hok : Ok seg e)
    (hs : Step seg e seg') : Accounted (boxes seg) e ∧ boxes seg' = deliver (boxes seg) e := by
  cases hs with
  | backendInit thread => exact backendInit_step h ht thread
  | insertDataEntry data => exact ⟨trivial, insert_step h data hok⟩
  | getDataEntry b hb => exact get_step h hb
  | delExpiredDataEntries => exact ⟨trivial, boxes_delExpired seg⟩
  | resetProcState => exact ⟨trivial, reset_step hok⟩
  | cleanup b hb =>
    refine ⟨trivial, ?_⟩
    rw [cleanupInvalidationState, boxes_setProcState _ _ _ hb.1 hb.2.1]
    rfl

theorem boxes_segInit : boxes (siSegInit raw n) = fun _ => none := by
  funext b
  apply boxes_inactive
  rintro ⟨h1, h2, h3⟩
  have hb : b - 1 < n := by
    have : b ≤ n := h2
    omega
  simp [siSegInit, hb, ProcState.inactive] at h3

/-- **Delivery.** In every run of admitted calls, messages inserted while a backend is active are
accounted for. -/
theorem guarded_run_delivers (raw : SISeg) (n : Nat) {seg : SISeg} {es : List Event}
    (r : Run (Guarded Step Ok) (siSegInit raw n) es seg) : delivery.Accepts (fun _ => none) es := by
  have hsim := r.accepts delivery (fun s a => Invariant s ∧ Tagged s ∧ boxes s = a) (fun s a e t hR hs => by
      obtain ⟨hinv, htag, rfl⟩ := hR
      obtain ⟨hok, hstep⟩ := hs
      obtain ⟨hgood, hbox⟩ := step_delivers hinv htag hok hstep
      exact ⟨hgood, step_invariant hinv hstep, step_tagged hinv htag hok hstep, hbox⟩)
    ⟨segInit_invariant raw n, segInit_tagged raw n, boxes_segInit raw n⟩
  exact hsim.1

def blankSeg : SISeg where
  minMsgNum := 0
  maxMsgNum := 0
  maxBackends := 0
  nextBackendTag := 0
  buffer := fun _ => ⟨0, 0, ⟨0, 0⟩⟩
  procState := fun _ => .inactive

def catalogMessage : SharedInvalidData := ⟨5, 17, ⟨3, 2⟩⟩

/-- Thread 7 becomes backend 1, a message is inserted, and the backend reads it. -/
theorem guarded_run_delivers_one : delivery.Accepts (fun _ => none)
      [.backendInit 7 (some 1), .insertDataEntry catalogMessage,
        .getDataEntry 1 1 (some catalogMessage), .getDataEntry 1 0 none] := by
  have hlag : Ok (siBackendInit (siSegInit blankSeg 1) 7).2 (.insertDataEntry catalogMessage) := by
    intro b hb
    have hpos := hb.2.2
    change (0 : Int) - _ < 4096
    omega
  have htag : (siSegInit blankSeg 1).nextBackendTag ≠ invalidBackendTag := by decide
  have s1 := Step.backendInit (siSegInit blankSeg 1) 7
  have s2 := Step.insertDataEntry (siBackendInit (siSegInit blankSeg 1) 7).2 catalogMessage
  have s3 := Step.getDataEntry _ 1
    (show Active (siInsertDataEntry (siBackendInit (siSegInit blankSeg 1) 7).2 catalogMessage).2 1 by decide)
  have s4 := Step.getDataEntry _ 1 (show Active (siGetDataEntry
      (siInsertDataEntry (siBackendInit (siSegInit blankSeg 1) 7).2 catalogMessage).2 1).2.2 1
      by decide)
  exact guarded_run_delivers blankSeg 1
    (.cons ⟨htag, s1⟩ (.cons ⟨hlag, s2⟩ (.cons ⟨trivial, s3⟩ (.cons ⟨trivial, s4⟩ (.nil _)))))

theorem get_after_rewind (h : Invariant seg) (hb : Active seg b) (state : Int) (hs : 0 < state) :
    Active (siSetProcStateInvalid seg state) b ∧
    siGetDataEntry (siSetProcStateInvalid seg state) b = (0, none, siSetProcStateInvalid seg state) := by
  have hnext : ((siSetProcStateInvalid seg state).procState (b-1)).nextMsgNum = 0 := by
    simp [siSetProcStateInvalid, active_slot hb, hb.2.2, ProcState.invalidate]
  have hb' : Active (siSetProcStateInvalid seg state) b := ⟨hb.1, hb.2.1, le_of_eq hnext.symm⟩
  refine ⟨hb', ?_⟩
  cases getDataEntry_cases (setProcStateInvalid_invariant h state hs) hb' with
  | inl hc => exact hc.2
  | inr hc =>
    have hlt : (0 : Int) < 0 := by
      rw [hnext] at hc
      exact hc.1
    exact absurd hlt (lt_irrefl 0)

/-- A reset between an insertion and its read loses the message. -/
theorem not_all_runs_deliver : ¬ ∀ (raw : SISeg) (n : Nat) (seg : SISeg) (es : List Event),
      Run Step (siSegInit raw n) es seg → delivery.Accepts (fun _ => none) es := by
  intro hall
  have r : Run Step (siSegInit blankSeg 1) [.backendInit 7 (some 1), .insertDataEntry catalogMessage] _ :=
    .cons (Step.backendInit (siSegInit blankSeg 1) 7)
      (.cons (Step.insertDataEntry (siBackendInit (siSegInit blankSeg 1) 7).2 catalogMessage) (.nil _))
  obtain ⟨hb, hget⟩ := get_after_rewind (run_invariant blankSeg 1 r) (b := 1) (by decide) 2 (by decide)
  have s3 := Step.resetProcState (siInsertDataEntry (siBackendInit (siSegInit blankSeg 1) 7).2 catalogMessage).2
  have s4 := Step.getDataEntry _ 1 hb
  rw [hget] at s4
  have hacc := hall blankSeg 1 _ _ (r.trans (.cons s3 (Run.single s4)))
  have hlast : Accounted _ (.getDataEntry 1 0 none) :=
    hacc [.backendInit 7 (some 1), .insertDataEntry catalogMessage, .resetProcState]
      (.getDataEntry 1 0 none) [] rfl
  have hbox : (some [catalogMessage] : Option (List SharedInvalidData)) = some [] := hlast
  cases hbox

end WeaverDB.SharedInval
