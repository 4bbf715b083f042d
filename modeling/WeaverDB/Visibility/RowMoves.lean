import WeaverDB.Visibility.RowCopies

/-! # The copies of a row that vacuum moves

`repair_page_fragmentation` marks a tuple `HEAP_MOVED_OUT` and puts a `HEAP_MOVED_IN` copy on an earlier
page; the outcome of its transaction decides which of them counts. `Row` is one row with all its copies.
One of them is the row, the others are dead for every snapshot (`Shape`). A rolled-back move leaves
`HEAP_MOVED_OUT` on the copy that stays, and the snapshot test takes the bit for a move even when the
deleter is another transaction.
-/

namespace WeaverDB.Visibility
open Foundations TransLog Snapshot List Function

/-! ## The row -/

inductive RowPhase where
  | quiet
  /-- The copy at `index` is marked, and `source` is what it was before. -/
  | moving (index : Nat) (xid : TransactionId) (source : HeapTupleHeader)
  | placed (xid : TransactionId)
  | backed (xid : TransactionId)
  | deleting (xid : TransactionId)
  | deleted (xid : TransactionId)

def RowPhase.working : RowPhase → Option TransactionId
  | .quiet | .deleted _ => none
  | .moving _ x _ | .placed x | .backed x | .deleting x => some x

/-- The copies on the pages, the new tuple of an update, the statuses, and the ids that have ended. -/
structure Row where
  copies : List HeapTupleHeader
  updated : Option HeapTupleHeader
  log : StatusLog
  ended : List TransactionId
  phase : RowPhase

variable {t source : HeapTupleHeader} {k n j : Nat} {v : View} {roles : Nat → Role}
  {log : StatusLog} {xstatus : XidStatus} {copies : List HeapTupleHeader} {phase : RowPhase}
  {ended : List TransactionId} {row' : Row} {origin : TransactionId} {row : Row} {x : TransactionId}

inductive RowEvent where
  | call
  | moveOff
  | place
  | noRoom
  | settle (committed : Bool)
  | harden
  | delete
  | commit
  deriving DecidableEq

/-- A transaction that looks at the row does not take the one at work for crashed. -/
structure ViewOf (row : Row) (v : View) : Prop where
  log : v.log = row.log
  alive : ∀ x, row.phase.working = some x → v.didCrash x = false

structure OpenXid (row : Row) (x : TransactionId) : Prop where
  valid : x ≠ 0
  unended : x ∉ row.ended
  running : row.log x = .inprogress

theorem OpenXid.same (h : OpenXid row x)
    (hlog : row'.log x = row.log x) (hended : row'.ended = row.ended) : OpenXid row' x where
  valid := h.valid
  unended := hended ▸ h.unended
  running := hlog.trans h.running

def Row.close (row : Row) (x : TransactionId) (xstatus : XidStatus) (phase : RowPhase) : Row :=
  { row with log := statusWrite row.log x xstatus, ended := x :: row.ended, phase := phase }

def RowPhase.MaySettle (phase : RowPhase) (x : TransactionId) (xstatus : XidStatus) : Prop :=
  phase = .placed x ∨ phase = .backed x ∨
    (∃ k source, phase = .moving k x source) ∧ xstatus ≠ .softCommit ∧ xstatus ≠ .commit

inductive RowStep : Row → RowEvent → Row → Prop where
  | call (row : Row) (v : View) (c : Call) (j : Nat) (t : HeapTupleHeader) (hv : ViewOf row v)
      (hj : row.copies[j]? = some t) :
      RowStep row .call { row with copies := row.copies.set j (c.exec v t).2 }
  | callUpdated (row : Row) (v : View) (c : Call) (hv : ViewOf row v) :
      RowStep row .call { row with updated := row.updated.map fun t => (c.exec v t).2 }
  | moveOff (row : Row) (v : View) (oldestXmin : TransactionId) (k : Nat) (t : HeapTupleHeader)
      (hv : ViewOf row v) (hphase : row.phase = .quiet ∨ row.phase = .backed v.current)
      (hopen : OpenXid row v.current) (hk : row.copies[k]? = some t)
      (hlive : (heapTupleSatisfiesVacuum v oldestXmin t).1 = .live) :
      RowStep row .moveOff
        { row with
          copies := row.copies.set k (movedOff (heapTupleSatisfiesVacuum v oldestXmin t).2 v.current)
          phase := .moving k v.current (heapTupleSatisfiesVacuum v oldestXmin t).2 }
  | place (row : Row) (x : TransactionId) (k : Nat) (source t : HeapTupleHeader)
      (self : ItemPointerData) (hphase : row.phase = .moving k x source)
      (hk : row.copies[k]? = some t) :
      RowStep row .place
        { row with
          copies := row.copies.set k { t with ctid := self } ++ [movedCopy source x self]
          phase := .placed x }
  | noRoom (row : Row) (x : TransactionId) (k : Nat) (source t : HeapTupleHeader)
      (hphase : row.phase = .moving k x source) (hk : row.copies[k]? = some t) :
      RowStep row .noRoom { row with copies := row.copies.set k (movedBack t), phase := .backed x }
  /- A crash leaves the transaction without a status or aborts it at the next start. -/
  | settle (row : Row) (x : TransactionId) (xstatus : XidStatus) (hphase : row.phase.MaySettle x xstatus) :
      RowStep row (.settle (xstatus == .softCommit || xstatus == .commit)) (row.close x xstatus .quiet)
  | harden (row : Row) (x : TransactionId) (hsoft : row.log x = .softCommit) :
      RowStep row .harden { row with log := statusWrite row.log x .commit }
  /- `heap_delete`, or `heap_update` with the tuple it is given. -/
  | delete (row : Row) (v : View) (cid : CommandId) (ctid : ItemPointerData)
      (newtup : Option HeapTupleHeader) (k : Nat) (t : HeapTupleHeader) (hv : ViewOf row v)
      (hphase : row.phase = .quiet) (hopen : OpenXid row v.current) (hk : row.copies[k]? = some t)
      (hfree : (heapTupleSatisfiesUpdate v t).1 = .mayBeUpdated) :
      RowStep row .delete
        { row with
          copies := row.copies.set k (heapDelete (heapTupleSatisfiesUpdate v t).2 v.current cid ctid)
          updated := newtup.map fun tup => heapInsert tup v.current cid
          phase := .deleting v.current }
  | commit (row : Row) (x : TransactionId) (xstatus : XidStatus) (hphase : row.phase = .deleting x)
      (hcommit : xstatus = .softCommit ∨ xstatus = .commit) :
      RowStep row .commit (row.close x xstatus (.deleted x))

/-- The tuple has neither bit of a move. -/
structure InsertedRow (row : Row) (x : TransactionId) : Prop where
  formed : ∃ tup cid, row.copies = [heapInsert tup x cid] ∧ tup.infomask.movedIn = false ∧
    tup.infomask.movedOut = false
  updated : row.updated = none
  committed : transactionIdDidCommit row.log x
  ended : row.ended = [x]
  phase : row.phase = .quiet

/-- Whether the copy that counts was moved out before, and marked since. -/
structure MoveRecord where
  stale : Bool
  marked : Bool
  deriving DecidableEq

def MoveRecord.update (r : MoveRecord) : RowEvent → MoveRecord
  | .moveOff => { r with marked := true }
  | .noRoom => { stale := false, marked := false }
  | .settle committed => { stale := r.stale || r.marked && !committed, marked := false }
  | _ => r

/-- A move was rolled back, and no later attempt to move the row has found no room. -/
def rolledBack (events : List RowEvent) : Bool :=
  (events.foldl MoveRecord.update { stale := false, marked := false }).stale

/-! ## Shapes -/

def Cast (log : StatusLog) (ended : List TransactionId) (origin : TransactionId)
    (copies : List HeapTupleHeader) (roles : Nat → Role) : Prop :=
  ∀ j t, copies[j]? = some t → Plays log ended origin (roles j) t

def only (k : Nat) (role : Role) : Nat → Role := update (fun _ => .dead) k role

inductive Pattern (n : Nat) : RowPhase → MoveRecord → (Nat → Role) → Prop where
  | quiet (k : Nat) (stale : Bool) (hk : k < n) : Pattern n .quiet ⟨stale, false⟩ (only k (.live stale))
  | moving (k : Nat) (x : TransactionId) (source : HeapTupleHeader) (stale : Bool) (hk : k < n) :
      Pattern n (.moving k x source) ⟨stale, true⟩ (only k (.departing x true))
  | placed (k m : Nat) (x : TransactionId) (stale : Bool) (hk : k < n) (hm : m < n) (hne : k ≠ m) :
      Pattern n (.placed x) ⟨stale, true⟩ (update (only k (.departing x true)) m (.arriving x stale))
  | backed (k : Nat) (x : TransactionId) (stale : Bool) (hk : k < n) :
      Pattern n (.backed x) ⟨stale, false⟩ (only k (.live stale))
  | deleting (k : Nat) (x : TransactionId) (stale : Bool) (hk : k < n) :
      Pattern n (.deleting x) ⟨stale, false⟩ (only k (.departing x stale))
  | deleted (k : Nat) (x : TransactionId) (stale : Bool) (hk : k < n) :
      Pattern n (.deleted x) ⟨stale, false⟩ (only k (if stale then .dead else .gone x))

theorem Cast.set (h : Cast log ended origin copies roles) (k : Nat) (role : Role) (ht : Plays log ended origin role t) :
    Cast log ended origin (copies.set k t) (update roles k role) := by
  intro j u hu
  by_cases hj : j = k
  · subst hj
    rw [List.getElem?_set_self'] at hu
    rw [update_self]
    cases hc : copies[j]? with
    | none =>
      rw [hc] at hu
      cases hu
    | some _ =>
      rw [hc] at hu
      cases hu
      exact ht
  · rw [List.getElem?_set_ne (Ne.symm hj)] at hu
    rw [update_of_ne hj]
    exact h j u hu

theorem Cast.append (h : Cast log ended origin copies roles) {role : Role} (ht : Plays log ended origin role t) :
    Cast log ended origin (copies ++ [t]) (update roles copies.length role) := by
  intro j u hu
  rw [List.getElem?_append] at hu
  split_ifs at hu with hj
  · rw [update_of_ne hj.ne]
    exact h j u hu
  · cases hs : j - copies.length with
    | succ i =>
      rw [hs] at hu
      cases hu
    | zero =>
      rw [hs] at hu
      cases hu
      obtain rfl : j = copies.length := by omega
      rw [update_self]
      exact ht

theorem update_only (k : Nat) (role role' : Role) : update (only k role) k role' = only k role' := update_idem ..

theorem only_self (k : Nat) (role : Role) : only k role k = role := update_self ..

theorem only_other (h : j ≠ k) (role : Role) : only k role j = .dead := update_of_ne h ..

theorem settle_only (committed : Bool) (k : Nat) (role : Role) :
    (fun j => (only k role j).settle committed) = only k (role.settle committed) := by
  funext j
  by_cases h : j = k
  · rw [h, only_self, only_self]
  · rw [only_other h, only_other h]
    rfl

theorem Pattern.awaits {r : MoveRecord} (h : Pattern n phase r roles)
    (hx : (roles j).awaits = some x) : phase.working = some x := by
  have key : ∀ k role, (only k role j).awaits = some x → role.awaits = some x := by
    intro k role hrole
    by_cases hj : j = k
    · rw [hj, only_self] at hrole
      exact hrole
    · rw [only_other hj] at hrole
      cases hrole
  cases h with
  | quiet k stale => cases key _ _ hx
  | moving k y source stale => exact key _ _ hx
  | placed k m y stale =>
    by_cases hj : j = m
    · rw [hj, update_self] at hx
      exact hx
    · rw [update_of_ne hj] at hx
      exact key _ _ hx
  | backed k y stale => cases key _ _ hx
  | deleting k y stale => exact key _ _ hx
  | deleted k y stale =>
    have hwait := key _ _ hx
    cases stale <;> cases hwait

/-! ## Steps -/

structure RowInvariant (origin : TransactionId) (row : Row) (r : MoveRecord) : Prop where
  committed : transactionIdDidCommit row.log origin
  ended : origin ∈ row.ended
  working : ∀ x, row.phase.working = some x → OpenXid row x
  source : ∀ k x source, row.phase = .moving k x source →
    source.snapshotXmin = origin ∧ source.infomask.movedOut = r.stale
  shape : ∃ roles, Pattern row.copies.length row.phase r roles ∧ Cast row.log row.ended origin row.copies roles
  updated : ∀ n ∈ row.updated, ∃ x out, row.phase = .deleting x ∧ Arriving n.snapshotXmin x out n ∨
      row.phase = .deleted x ∧ Live row.log row.ended n.snapshotXmin out n

theorem Hints.snapshotXmin {t' : HeapTupleHeader} (h : Hints v t t') : t'.snapshotXmin = t.snapshotXmin := by
  induction h with
  | none => rfl
  | more b _ _ ih => exact snapshotXmin_hint.trans ih

section

variable {origin x : TransactionId} {row : Row} {r : MoveRecord}

section

variable (h : RowInvariant origin row r)
include h

theorem RowInvariant.seesOpen (hv : ViewOf row v) (hx : row.phase.working = some x) : v.SeesOpen x where
  valid := (h.working x hx).valid
  running := hv.log ▸ (h.working x hx).running
  alive := hv.alive x hx

theorem call_invariant (hv : ViewOf row v) (c : Call) (j : Nat) (hj : row.copies[j]? = some t) :
    RowInvariant origin { row with copies := row.copies.set j (c.exec v t).2 } r := by
  obtain ⟨roles, hpat, hcast⟩ := h.shape
  have hplays : Plays row.log row.ended origin (roles j) (c.exec v t).2 := by
    rw [← hv.log]
    exact Plays.hints (hv.log ▸ hcast j t hj) (fun y hy => h.seesOpen hv (hpat.awaits hy)) (exec_hints v t c)
  refine { h with working := fun x hx => (h.working x hx).same rfl rfl, shape := ⟨roles, ?_, ?_⟩ }
  · rw [length_set]
    exact hpat
  · have hset := hcast.set j (roles j) hplays
    rw [update_eq_self] at hset
    exact hset

theorem callUpdated_invariant (hv : ViewOf row v) (c : Call) :
    RowInvariant origin { row with updated := row.updated.map fun t => (c.exec v t).2 } r := by
  refine { h with
    working := fun x hx => (h.working x hx).same rfl rfl
    updated := fun n hn => ?_ }
  obtain ⟨t, ht, rfl⟩ := Option.map_eq_some_iff.mp hn
  have hh := exec_hints v t c
  obtain ⟨x, out, hcase⟩ := h.updated t ht
  refine ⟨x, out, hcase.imp (fun ⟨hp, ha⟩ => ⟨hp, ?_⟩) fun ⟨hp, hl⟩ => ⟨hp, ?_⟩⟩
  · have ha' : Plays v.log row.ended t.snapshotXmin (.arriving x out) t := ha
    rw [hh.snapshotXmin]
    exact ha'.hints (fun y hy => h.seesOpen hv (hp.symm ▸ hy)) hh
  · have hl' : Plays v.log row.ended t.snapshotXmin (.live out) t := hv.log.symm ▸ hl
    rw [hh.snapshotXmin]
    exact hv.log ▸ hl'.hints (fun y hy => nomatch hy) hh

theorem RowInvariant.here (hphase : row.phase = .quiet ∨ ∃ x, row.phase = .backed x) :
    r.marked = false ∧ ∃ k, k < row.copies.length ∧
      Cast row.log row.ended origin row.copies (only k (.live r.stale)) := by
  obtain ⟨roles, hpat, hcast⟩ := h.shape
  obtain hp | ⟨x, hp⟩ := hphase
  all_goals
    rw [hp] at hpat
    cases hpat
    exact ⟨rfl, _, ‹_›, hcast⟩

theorem moveOff_invariant (hv : ViewOf row v)
    (hphase : row.phase = .quiet ∨ row.phase = .backed v.current) (hopen : OpenXid row v.current)
    (c : TransactionId) (hk : row.copies[k]? = some t)
    (hlive : (heapTupleSatisfiesVacuum v c t).1 = .live) :
    RowInvariant origin
      { row with
        copies := row.copies.set k (movedOff (heapTupleSatisfiesVacuum v c t).2 v.current)
        phase := .moving k v.current (heapTupleSatisfiesVacuum v c t).2 }
      (r.update .moveOff) := by
  obtain ⟨hm, k₀, hk₀, hcast⟩ := h.here (hphase.imp_right fun hp => ⟨_, hp⟩)
  have hplays : Plays v.log row.ended origin (only k₀ (.live r.stale) k) t := hv.log ▸ hcast k t hk
  by_cases hkk : k = k₀
  case neg =>
    rw [only_other hkk] at hplays
    exact absurd hlive (dead_not_live hplays)
  subst hkk
  rw [only_self] at hplays
  have hleft := hplays.hints (fun y hy => nomatch hy) (vacuum_leaves v c t).hints
  rw [hv.log] at hleft
  have hleft' : Live row.log row.ended origin r.stale (heapTupleSatisfiesVacuum v c t).2 := hleft
  obtain ⟨stale, marked⟩ := r
  refine { committed := h.committed, ended := h.ended, working := ?_, source := ?_, shape := ?_,
           updated := fun n hn => ?_ }
  · intro x hx
    cases hx
    exact hopen.same rfl rfl
  · intro k' x source hp
    cases hp
    exact ⟨hleft'.origin, hleft'.movedOut⟩
  · refine ⟨only k (.departing v.current true), ?_, ?_⟩
    · exact .moving k v.current _ stale (by rw [length_set]; exact hk₀)
    · have hset := hcast.set k (.departing v.current true) hleft'.movedOff
      rw [update_only] at hset
      exact hset
  · obtain ⟨x, out, ⟨hp, -⟩ | ⟨hp, -⟩⟩ := h.updated n hn
    all_goals rcases hphase with e | e <;> cases e.symm.trans hp

theorem place_invariant (self : ItemPointerData) (hphase : row.phase = .moving k x source)
    (hk : row.copies[k]? = some t) :
    RowInvariant origin
      { row with
        copies := row.copies.set k { t with ctid := self } ++ [movedCopy source x self]
        phase := .placed x }
      (r.update .place) := by
  obtain ⟨roles, hpat, hcast⟩ := h.shape
  obtain ⟨horigin, hout⟩ := h.source k x source hphase
  rw [hphase] at hpat
  cases hpat with
  | moving _ _ _ stale hlt =>
  have hold : Departing row.log row.ended origin x true t := by
    have hplays := hcast k t hk
    rw [only_self] at hplays
    exact hplays
  have hold' : Plays row.log row.ended origin (.departing x true) { t with ctid := self } := { hold with }
  have hnew : Plays row.log row.ended origin (.arriving x stale) (movedCopy source x self) := by
    have harr := arriving_movedCopy source x self
    rw [horigin, hout] at harr
    exact harr
  refine { committed := h.committed, ended := h.ended, working := ?_, source := ?_, shape := ?_,
           updated := fun n hn => ?_ }
  · intro y hy
    exact (h.working y (hphase.symm ▸ hy)).same rfl rfl
  · intro k' y source' hp
    cases hp
  · have happend := (hcast.set k _ hold').append hnew
    rw [update_only, length_set] at happend
    refine ⟨_, .placed k row.copies.length x stale ?_ ?_ hlt.ne, happend⟩
    all_goals
      rw [length_append, length_set, length_singleton]
      omega
  · obtain ⟨y, out, ⟨hp, -⟩ | ⟨hp, -⟩⟩ := h.updated n hn
    all_goals cases hphase.symm.trans hp

theorem noRoom_invariant (hphase : row.phase = .moving k x source) (hk : row.copies[k]? = some t) :
    RowInvariant origin { row with copies := row.copies.set k (movedBack t), phase := .backed x }
      (r.update .noRoom) := by
  obtain ⟨roles, hpat, hcast⟩ := h.shape
  rw [hphase] at hpat
  cases hpat with
  | moving _ _ _ stale hlt =>
  have hold : Departing row.log row.ended origin x true t := by
    have hplays := hcast k t hk
    rw [only_self] at hplays
    exact hplays
  refine { committed := h.committed, ended := h.ended, working := ?_, source := ?_, shape := ?_,
           updated := fun n hn => ?_ }
  · intro y hy
    exact (h.working y (hphase.symm ▸ hy)).same rfl rfl
  · intro k' y source' hp
    cases hp
  · have hset := hcast.set k (.live false) hold.movedBack
    rw [update_only] at hset
    exact ⟨_, .backed k x false (by rw [length_set]; exact hlt), hset⟩
  · obtain ⟨y, out, ⟨hp, -⟩ | ⟨hp, -⟩⟩ := h.updated n hn
    all_goals cases hphase.symm.trans hp

end

theorem write_extends (hopen : OpenXid row x) (xstatus : XidStatus) :
    Extends row.log (statusWrite row.log x xstatus) row.ended (x :: row.ended) where
  same := by
    intro y hy
    have hne : y ≠ x := fun e => hopen.unended (e ▸ hy)
    rw [transactionIdDidCommit, statusTest, statusWrite, update_of_ne hne]
    rfl
  more := subset_cons_self ..

theorem write_didCommit (hopen : OpenXid row x) (xstatus : XidStatus) :
    transactionIdDidCommit (statusWrite row.log x xstatus) x = (xstatus == .softCommit || xstatus == .commit) := by
  rw [transactionIdDidCommit, statusTest, if_neg hopen.valid, statusWrite, update_self, hopen.running]
  cases xstatus <;> rfl

theorem harden_extends (hsoft : log x = .softCommit) (ended : List TransactionId) :
    Extends log (statusWrite log x .commit) ended ended where
  same := by
    intro y _
    rw [transactionIdDidCommit, statusTest, statusWrite, transactionIdDidCommit, statusTest]
    by_cases hy : y = x
    · rw [hy, update_self, hsoft]
      rfl
    · rw [update_of_ne hy]
  more := List.Subset.refl _

theorem Cast.mono {log' : StatusLog} {ended' : List TransactionId} (h : Cast log ended origin copies roles)
    (he : Extends log log' ended ended') : Cast log' ended' origin copies roles :=
  fun j t hj => (h j t hj).mono he

theorem RowInvariant.settle (h : RowInvariant origin row r) (hx : row.phase.working = some x)
    (xstatus : XidStatus) (hpat : Pattern row.copies.length row.phase r roles)
    (hcast : Cast row.log row.ended origin row.copies roles) :
    Cast (statusWrite row.log x xstatus) (x :: row.ended) origin row.copies
      fun j => (roles j).settle (xstatus == .softCommit || xstatus == .commit) := by
  have hopen := h.working x hx
  intro j t hj
  refine (hcast j t hj).settle (fun y hy => ?_) (write_extends hopen xstatus) (write_didCommit hopen xstatus) (.head _)
  exact Option.some.inj ((hpat.awaits hy).symm.trans hx)

theorem RowPhase.MaySettle.working (h : phase.MaySettle x xstatus) : phase.working = some x := by
  rcases h with rfl | rfl | ⟨⟨k, source, rfl⟩, -⟩ <;> rfl

theorem settle_placed {m : Nat} (hne : k ≠ m) (x : TransactionId) (stale c : Bool) :
    (fun j => (update (only k (.departing x true)) m (.arriving x stale) j).settle c) =
      only (if c then m else k) (.live (stale || !c)) := by
  have hpair : ∀ j ≠ m, j ≠ k → update (only k (.departing x true)) m (.arriving x stale) j = .dead :=
    fun j hm hk => (update_of_ne hm ..).trans (only_other hk _)
  have hmoved : update (only k (.departing x true)) m (.arriving x stale) k =
      .departing x true := (update_of_ne hne ..).trans (only_self k _)
  funext j
  by_cases hm : j = m
  · subst hm
    rw [update_self]
    cases c with
    | true => exact (only_self j _).symm ▸ by rw [Bool.not_true, Bool.or_false]; rfl
    | false => exact (only_other (Ne.symm hne) _).symm
  by_cases hk : j = k
  · subst hk
    rw [hmoved]
    cases c with
    | true => exact (only_other hm _).symm
    | false => exact (only_self j _).symm ▸ by rw [Bool.not_false, Bool.or_true]; rfl
  rw [hpair j hm hk]
  cases c with
  | true => exact (only_other hm _).symm
  | false => exact (only_other hk _).symm

theorem Pattern.settle (hpat : Pattern n phase r roles) (h : phase.MaySettle x xstatus) :
    Pattern n .quiet (r.update (.settle (xstatus == .softCommit || xstatus == .commit)))
      fun j => (roles j).settle (xstatus == .softCommit || xstatus == .commit) := by
  obtain rfl | rfl | ⟨⟨k, source, rfl⟩, hsoft, hhard⟩ := h
  · cases hpat with
    | placed k m _ stale hk hm hne =>
    rw [settle_placed hne]
    refine .quiet _ _ ?_
    split_ifs
    · exact hm
    · exact hk
  · cases hpat with
    | backed k _ stale hk =>
    rw [settle_only, MoveRecord.update, Bool.false_and, Bool.or_false]
    exact .quiet k stale hk
  · cases hpat with
    | moving _ _ _ stale hk =>
    rw [settle_only]
    cases xstatus with
    | softCommit => exact absurd rfl hsoft
    | commit => exact absurd rfl hhard
    | inprogress =>
      rw [MoveRecord.update]
      exact (Bool.or_true stale).symm ▸ .quiet k true hk
    | abort =>
      rw [MoveRecord.update]
      exact (Bool.or_true stale).symm ▸ .quiet k true hk

section

variable (h : RowInvariant origin row r)
include h

theorem settle_invariant (hphase : row.phase.MaySettle x xstatus) : RowInvariant origin (row.close x xstatus .quiet)
      (r.update (.settle (xstatus == .softCommit || xstatus == .commit))) := by
  obtain ⟨roles, hpat, hcast⟩ := h.shape
  have hext := write_extends (h.working x hphase.working) xstatus
  refine { committed := (hext.same _ h.ended).trans h.committed, ended := hext.more h.ended,
           working := fun _ hy => (nomatch hy), source := fun _ _ _ hp => (nomatch hp),
           shape := ⟨_, hpat.settle hphase, h.settle hphase.working xstatus hpat hcast⟩,
           updated := fun n hn => ?_ }
  obtain ⟨y, out, ⟨hp, -⟩ | ⟨hp, -⟩⟩ := h.updated n hn
  all_goals
    rw [hp] at hphase
    rcases hphase with e | e | ⟨⟨k, source, e⟩, -⟩ <;> cases e

theorem harden_invariant (hsoft : row.log x = .softCommit) :
    RowInvariant origin { row with log := statusWrite row.log x .commit } r := by
  obtain ⟨roles, hpat, hcast⟩ := h.shape
  have hext := harden_extends hsoft row.ended
  refine { committed := (hext.same _ h.ended).trans h.committed, ended := h.ended,
           working := fun y hy => (h.working y hy).same ?_ rfl, source := h.source,
           shape := ⟨roles, hpat, hcast.mono hext⟩, updated := fun n hn => ?_ }
  · refine update_of_ne ?_ ..
    rintro rfl
    cases hsoft.symm.trans (h.working y hy).running
  · obtain ⟨y, out, hcase⟩ := h.updated n hn
    exact ⟨y, out, hcase.imp_right fun ⟨hp, hl⟩ => ⟨hp, hl.mono hext⟩⟩

theorem delete_invariant (hv : ViewOf row v) (cid : CommandId) (ctid : ItemPointerData)
    (newtup : Option HeapTupleHeader) (hphase : row.phase = .quiet) (hopen : OpenXid row v.current)
    (hk : row.copies[k]? = some t) (hfree : (heapTupleSatisfiesUpdate v t).1 = .mayBeUpdated) :
    RowInvariant origin
      { row with
        copies := row.copies.set k (heapDelete (heapTupleSatisfiesUpdate v t).2 v.current cid ctid)
        updated := newtup.map fun tup => heapInsert tup v.current cid
        phase := .deleting v.current }
      (r.update .delete) := by
  obtain ⟨hm, k₀, hk₀, hcast⟩ := h.here (.inl hphase)
  have hplays : Plays v.log row.ended origin (only k₀ (.live r.stale) k) t := hv.log ▸ hcast k t hk
  by_cases hkk : k = k₀
  case neg =>
    rw [only_other hkk] at hplays
    exact absurd hfree (dead_not_free hplays hopen.unended)
  subst hkk
  rw [only_self] at hplays
  have hleft := hplays.hints (fun y hy => nomatch hy) (update_leaves v t).hints
  rw [hv.log] at hleft
  have hleft' : Live row.log row.ended origin r.stale (heapTupleSatisfiesUpdate v t).2 := hleft
  obtain ⟨stale, marked⟩ := r
  cases hm
  refine { committed := h.committed, ended := h.ended, working := ?_,
           source := fun _ _ _ hp => (nomatch hp), shape := ?_, updated := fun n hn => ?_ }
  · intro x hx
    cases hx
    exact hopen.same rfl rfl
  · have hset := hcast.set k (.departing v.current stale) (hleft'.heapDelete h.committed h.ended cid ctid)
    rw [update_only] at hset
    exact ⟨_, .deleting k v.current stale (by rw [length_set]; exact hk₀), hset⟩
  · obtain ⟨tup, -, rfl⟩ := Option.map_eq_some_iff.mp hn
    exact ⟨v.current, _, .inl ⟨rfl, arriving_heapInsert tup v.current cid⟩⟩

theorem commit_invariant (hphase : row.phase = .deleting x) (hcommit : xstatus = .softCommit ∨ xstatus = .commit) :
    RowInvariant origin (row.close x xstatus (.deleted x)) (r.update .commit) := by
  obtain ⟨roles, hpat, hcast⟩ := h.shape
  have hwork : row.phase.working = some x := hphase ▸ rfl
  have hopen := h.working x hwork
  have hext := write_extends hopen xstatus
  have hc : (xstatus == .softCommit || xstatus == .commit) := by
    rcases hcommit with rfl | rfl <;> rfl
  have hdid := (write_didCommit hopen xstatus).trans hc
  have hcast' := h.settle hwork xstatus hpat hcast
  rw [hc] at hcast'
  rw [hphase] at hpat
  cases hpat with
  | deleting k _ stale hk =>
  rw [settle_only] at hcast'
  refine { committed := (hext.same _ h.ended).trans h.committed, ended := hext.more h.ended,
           working := fun _ hy => (nomatch hy), source := fun _ _ _ hp => (nomatch hp),
           shape := ⟨_, .deleted k x stale hk, hcast'⟩, updated := fun n hn => ?_ }
  obtain ⟨y, out, ⟨hp, ha⟩ | ⟨hp, -⟩⟩ := h.updated n hn
  · cases hphase.symm.trans hp
    exact ⟨x, out, .inr ⟨rfl, ha.settle hdid (.head _)⟩⟩
  · cases hphase.symm.trans hp

end

end

theorem step_invariant (row : Row) (r : MoveRecord) (e : RowEvent)
    (row' : Row) (h : RowInvariant origin row r) (hstep : RowStep row e row') :
    RowInvariant origin row' (r.update e) := by
  cases hstep with
  | call v c j t hv hj => exact call_invariant h hv c j hj
  | callUpdated v c hv => exact callUpdated_invariant h hv c
  | moveOff v oldestXmin k t hv hphase hopen hk hlive =>
    exact moveOff_invariant h hv hphase hopen oldestXmin hk hlive
  | place x k source t self hphase hk => exact place_invariant h self hphase hk
  | noRoom x k source t hphase hk => exact noRoom_invariant h hphase hk
  | settle x xstatus hphase => exact settle_invariant h hphase
  | harden x hsoft => exact harden_invariant h hsoft
  | delete v cid ctid newtup k t hv hphase hopen hk hfree =>
    exact delete_invariant h hv cid ctid newtup hphase hopen hk hfree
  | commit x xstatus hphase hcommit => exact commit_invariant h hphase hcommit

theorem run_invariant {events : List RowEvent}
    (hrun : Run RowStep row events row') {r : MoveRecord} (h : RowInvariant origin row r) :
    RowInvariant origin row' (events.foldl MoveRecord.update r) := by
  induction hrun generalizing r with
  | nil => exact h
  | cons hs _ ih => exact ih (step_invariant _ _ _ _ h hs)

theorem InsertedRow.invariant (h : InsertedRow row x) : RowInvariant x row { stale := false, marked := false } := by
  obtain ⟨tup, cid, hcopies, hin, hout⟩ := h.formed
  have hmem : x ∈ row.ended := h.ended ▸ mem_singleton_self x
  have hlive : Live row.log row.ended x false (heapInsert tup x cid) :=
    { committed := .inr ⟨rfl, h.committed⟩
      inserterEnded := hmem
      origin := if_neg (Bool.eq_false_iff.mp hin)
      movedOut := hout
      free := .inl rfl }
  refine { committed := h.committed, ended := hmem, working := ?_, source := ?_, shape := ?_,
           updated := fun n hn => ?_ }
  · rw [h.phase]
    exact fun y hy => nomatch hy
  · rw [h.phase]
    exact fun k y source hp => nomatch hp
  · rw [h.phase, hcopies]
    refine ⟨_, .quiet 0 false one_pos, ?_⟩
    intro j t hj
    cases j with
    | zero =>
      cases hj
      exact hlive
    | succ j => cases hj
  · rw [h.updated] at hn
    cases hn

/-! ## The copies a snapshot shows -/

theorem countP_of_only {α : Type} {p : α → Bool} {b : Bool} (l : List α) (k : Nat)
    (hk : k < l.length) (h : ∀ j a, l[j]? = some a → p a = (decide (j = k) && b)) :
    l.countP p = b.toNat := by
  induction l generalizing k with
  | nil => cases hk
  | cons a l ih =>
    have ha := h 0 a rfl
    cases k with
    | zero =>
      have hrest : l.countP p = 0 := by
        rw [countP_eq_zero]
        intro c hc
        obtain ⟨j, hj⟩ := mem_iff_getElem?.mp hc
        rw [h (j+1) c hj]
        exact nofun
      rw [countP_cons, hrest, ha]
      cases b <;> rfl
    | succ k =>
      rw [countP_cons_of_neg (by rw [ha]; exact nofun)]
      refine ih k (Nat.lt_of_succ_lt_succ hk) fun j c hj => ?_
      rw [h (j+1) c hj]
      simp

def shownCopies (row : Row) (v : View) (snapshot : SnapshotData) : Nat :=
  row.copies.countP fun t => (heapTupleSatisfiesSnapshot v false snapshot t).1

theorem shownCopies_eq {r : MoveRecord} (h : RowInvariant origin row r) (hphase : row.phase = .deleted x)
    (hlog : v.log = row.log) (hcur : v.current ∉ row.ended) {snapshot : SnapshotData}
    (hactive : transactionIdActiveDuringSnapshot snapshot x)
    (hseen : transactionIdActiveDuringSnapshot snapshot origin = false) :
    shownCopies row v snapshot = (!r.stale).toNat := by
  obtain ⟨roles, hpat, hcast⟩ := h.shape
  rw [hphase] at hpat
  cases hpat with
  | deleted k _ stale hk =>
  refine countP_of_only row.copies k hk fun j t hj => ?_
  have hplays := hcast j t hj
  rw [← hlog] at hplays
  by_cases hjk : j = k
  · subst hjk
    rw [only_self] at hplays
    rw [decide_eq_true rfl]
    cases stale with
    | true => exact dead_unshown hplays hcur snapshot
    | false =>
      rw [gone_shown hplays hcur, hseen, hactive]
      rfl
  · rw [only_other hjk] at hplays
    rw [decide_eq_false hjk]
    exact dead_unshown hplays hcur snapshot

/-- **Moves and snapshots.** One copy is shown exactly if no rolled-back move has left its mark and
the new tuple was not moved. -/
theorem moved_row_shown_iff (row₀ row : Row) (events : List RowEvent) (i d : TransactionId)
    (h₀ : InsertedRow row₀ i) (hrun : Run RowStep row₀ events row) (hd : row.phase = .deleted d)
    (v : View) (hlog : v.log = row.log) (hcur : v.current ∉ row.ended) (snapshot : SnapshotData)
    (hactive : transactionIdActiveDuringSnapshot snapshot d)
    (hseen : transactionIdActiveDuringSnapshot snapshot i = false) :
    (shownCopies row v snapshot = 1 ∧
        ∀ n ∈ row.updated, (heapTupleSatisfiesSnapshot v false snapshot n).1 = false) ↔
      rolledBack events = false ∧
        ∀ n ∈ row.updated, transactionIdActiveDuringSnapshot snapshot n.snapshotXmin := by
  have h := run_invariant hrun h₀.invariant
  have hcount : shownCopies row v snapshot = (!rolledBack events).toNat :=
    shownCopies_eq h hd hlog hcur hactive hseen
  have hnew : ∀ n ∈ row.updated, (heapTupleSatisfiesSnapshot v false snapshot n).1 =
      !transactionIdActiveDuringSnapshot snapshot n.snapshotXmin := by
    intro n hn
    obtain ⟨y, out, ⟨hp, -⟩ | ⟨-, hlive⟩⟩ := h.updated n hn
    · cases hd.symm.trans hp
    · rw [← hlog] at hlive
      exact live_shown hlive hcur snapshot
  rw [hcount]
  refine and_congr ?_ (forall₂_congr fun n hn => ?_)
  · cases rolledBack events <;> decide
  · rw [hnew n hn, Bool.not_eq_false']

/-! ## A row that is moved by 650 and deleted by 700 -/

def insertedRow : Row where
  copies := [heapInsert freshTuple 600 1]
  updated := none
  log x := if x = 600 then .commit else .inprogress
  ended := [600]
  phase := .quiet

theorem insertedRow_inserted : InsertedRow insertedRow 600 := ⟨⟨freshTuple, 1, rfl, rfl, rfl⟩, rfl, by decide, rfl, rfl⟩

def Row.viewOf (row : Row) (x : TransactionId) : View where
  log := row.log
  didCrash _ := false
  current := x
  scanCommandId := 1

theorem viewOf_viewOf (row : Row) (x : TransactionId) : ViewOf row (row.viewOf x) := ⟨rfl, fun _ _ => rfl⟩

def markedRow : Row :=
  { insertedRow with
    copies := [movedOff (heapInsert freshTuple 600 1 |>.hint .xminCommitted) 650]
    phase := .moving 0 650 (heapInsert freshTuple 600 1 |>.hint .xminCommitted) }

theorem marks_row : RowStep insertedRow .moveOff markedRow :=
  .moveOff insertedRow (insertedRow.viewOf 650) 650 0 (heapInsert freshTuple 600 1)
    (viewOf_viewOf ..) (.inl rfl) ⟨by decide, by decide, by decide⟩ rfl (by decide)

def placedRow : Row :=
  { markedRow with
    copies := markedRow.copies.set 0
      { movedOff (heapInsert freshTuple 600 1 |>.hint .xminCommitted) 650 with ctid := ⟨0, 2⟩ } ++
      [movedCopy (heapInsert freshTuple 600 1 |>.hint .xminCommitted) 650 ⟨0, 2⟩]
    phase := .placed 650 }

def Row.deletedBy (row : Row) (k : Nat) (t : HeapTupleHeader) : Row :=
  Row.close
    { row with
      copies := row.copies.set k (heapDelete (heapTupleSatisfiesUpdate (row.viewOf 700) t).2 700 1 ⟨0, 1⟩)
      updated := none
      phase := .deleting 700 }
    700 .commit (.deleted 700)

theorem deletes_row (hk : row.copies[k]? = some t) (hphase : row.phase = .quiet) (hopen : OpenXid row 700)
    (hfree : (heapTupleSatisfiesUpdate (row.viewOf 700) t).1 = .mayBeUpdated) :
    Run RowStep row [.delete, .commit] (row.deletedBy k t) :=
  .cons (.delete row (row.viewOf 700) 1 ⟨0, 1⟩ none k t (viewOf_viewOf ..) hphase hopen hk hfree)
    (.single (.commit _ 700 .commit rfl (.inr rfl)))

/-- The move commits: the copy that 700 has deleted is shown to 701, and only that one. -/
theorem moved_row_shown_iff_committed :
    let row := (placedRow.close 650 .commit .quiet).deletedBy 1
      (movedCopy (heapInsert freshTuple 600 1 |>.hint .xminCommitted) 650 ⟨0, 2⟩)
    row.copies.length = 2 ∧ shownCopies row (row.viewOf 701) (activeFrom 700) = 1 := by
  intro row
  have hplace : RowStep markedRow .place placedRow := .place markedRow 650 0 _ _ ⟨0, 2⟩ rfl rfl
  have hsettle : RowStep placedRow (.settle true) (placedRow.close 650 .commit .quiet) :=
    .settle placedRow 650 .commit (.inl rfl)
  have hdelete : Run RowStep (placedRow.close 650 .commit .quiet) [.delete, .commit] row :=
    deletes_row rfl rfl ⟨by decide, by decide, by decide⟩ (by decide)
  have hiff := moved_row_shown_iff insertedRow row _ 600 700 insertedRow_inserted
    (.cons marks_row (.cons hplace (.cons hsettle hdelete))) rfl (row.viewOf 701) rfl (by decide)
    (activeFrom 700) (by decide) (by decide)
  exact ⟨rfl, (hiff.mpr ⟨by decide, fun n hn => nomatch hn⟩).1⟩

/-- The move aborts before its copy is on a page, and 700 deletes the row with the mark. No copy is
shown to 701. -/
theorem not_all_moved_rows_shown :
    ¬ ∀ row₀ row events i d v snapshot, InsertedRow row₀ i → Run RowStep row₀ events row →
      row.phase = .deleted d → v.log = row.log → v.current ∉ row.ended →
      transactionIdActiveDuringSnapshot snapshot d →
      transactionIdActiveDuringSnapshot snapshot i = false → shownCopies row v snapshot = 1 := by
  intro h
  have hsettle : RowStep markedRow (.settle false) (markedRow.close 650 .abort .quiet) :=
    .settle markedRow 650 .abort (.inr (.inr ⟨⟨0, _, rfl⟩, by decide, by decide⟩))
  let row := (markedRow.close 650 .abort .quiet).deletedBy 0
    (movedOff (heapInsert freshTuple 600 1 |>.hint .xminCommitted) 650)
  have hdelete : Run RowStep (markedRow.close 650 .abort .quiet) [.delete, .commit] row :=
    deletes_row rfl rfl ⟨by decide, by decide, by decide⟩ (by decide)
  have hshown := h insertedRow row _ 600 700 (row.viewOf 701) (activeFrom 700) insertedRow_inserted
    (.cons marks_row (.cons hsettle hdelete)) rfl rfl (by decide) (by decide) (by decide)
  exact absurd hshown (by decide)

end WeaverDB.Visibility
