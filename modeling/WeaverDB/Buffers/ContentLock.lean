import WeaverDB.Foundations.Counting
import WeaverDB.Foundations.Runs

/-! # The content lock of a buffer

`storage/buffer/bufmgr.c` and `freelist.c`: readers, writers, lockers by reference and threads that wait
to pin the buffer all sleep on one condition, and an unlock chooses by counters whether it wakes all or
one. A waiting writer is not forgotten as long as no unlock wakes one of several sleepers among which
are both writers and lockers.
-/

namespace WeaverDB.Buffers
open Foundations List Option Function

/-! ## The buffer -/

abbrev ThreadId := Nat

inductive Held where
  | read
  | write
deriving DecidableEq

/-- The loops that wait on the condition. Only a pin with access waits. -/
inductive Mode where
  | pin
  | share
  | exclusive
  | refExclusive
deriving DecidableEq

/-- `pin`: whether the thread has a pin, and access to the page by it. -/
structure Thread where
  pin : Option Bool
  lock : Option Held
  wait : Option Mode

/-- A waiting thread not in `gate` has been woken and has not got the guard yet. -/
structure BufferDesc where
  valid : Bool
  retired : Bool
  writelock : Bool
  exclusive : Bool
  rLocks : Int
  rWaiting : Int
  wWaiting : Int
  eWaiting : Int
  pWaiting : Int
  pageaccess : Int
  refCount : Int
  gate : List ThreadId
  thread : ThreadId → Thread

variable {b' : BufferDesc} {chosen : ThreadId} {mode : Mode}

def BufferDesc.init (valid retired : Bool) : BufferDesc where
  valid := valid
  retired := retired
  writelock := false
  exclusive := false
  rLocks := 0
  rWaiting := 0
  wWaiting := 0
  eWaiting := 0
  pWaiting := 0
  pageaccess := 0
  refCount := 0
  gate := []
  thread := fun _ => ⟨none, none, none⟩

/-- An unlock or an unpin names the thread that a signal wakes, if it makes one. -/
inductive Event where
  | pin (t : ThreadId) (pageaccess : Bool)
  | unpin (t : ThreadId) (chosen : ThreadId)
  | lock (t : ThreadId) (mode : Mode)
  | unlock (t : ThreadId) (rel : Bool) (chosen : ThreadId)
  | spurious (t : ThreadId)
  | run (t : ThreadId)

namespace BufferDesc

variable (b : BufferDesc)

def setThread (t : ThreadId) (thread : Thread) : BufferDesc := { b with thread := update b.thread t thread }

def waiting : Mode → Int
  | .pin => b.pWaiting
  | .share => b.rWaiting
  | .exclusive => b.wWaiting
  | .refExclusive => b.eWaiting

def addWaiting (n : Int) : Mode → BufferDesc
  | .pin => { b with pWaiting := b.pWaiting + n }
  | .share => { b with rWaiting := b.rWaiting + n }
  | .exclusive => { b with wWaiting := b.wWaiting + n }
  | .refExclusive => { b with eWaiting := b.eWaiting + n }

def sleep (t : ThreadId) (mode : Mode) : BufferDesc :=
  { (b.addWaiting 1 mode).setThread t { b.thread t with wait := some mode } with gate := t :: b.gate }

def wake (t : ThreadId) (mode : Mode) : BufferDesc :=
  (b.addWaiting (-1) mode).setThread t { b.thread t with wait := none }

def grant (t : ThreadId) (held : Held) : BufferDesc := b.setThread t { b.thread t with lock := some held }

def broadcast : BufferDesc := { b with gate := [] }

def signal (chosen : ThreadId) : Option BufferDesc :=
  if b.gate = [] then some b
  else if chosen ∈ b.gate then some { b with gate := b.gate.erase chosen }
  else none

end BufferDesc

/-! ## Locking -/

variable (t : ThreadId) (b : BufferDesc)

def pinLoop (pageaccess : Bool) : BufferDesc :=
  if pageaccess ∧ b.exclusive then b.sleep t .pin
  else if b.valid then
    { b.setThread t { b.thread t with pin := some pageaccess } with
      pageaccess := if pageaccess then b.pageaccess + 1 else b.pageaccess
      refCount := b.refCount + 1 }
  else b

def shareGrant : BufferDesc := { b.grant t .read with rLocks := b.rLocks + 1 }

def shareLoop : BufferDesc := if b.writelock ∨ 0 < b.wWaiting then b.sleep t .share else shareGrant t b

def exclusiveLoop : BufferDesc :=
  if 0 < b.rLocks ∨ b.writelock then b.sleep t .exclusive
  else { b.grant t .write with writelock := true }

def refExclusiveLoop : BufferDesc :=
  if b.eWaiting + 1 < b.pageaccess then b.sleep t .refExclusive
  else { b.grant t .write with writelock := true, exclusive := true }

/-- What follows the wait. A reader that finds no writer goes ahead even if writers wait. -/
def resume : Mode → BufferDesc
  | .pin => pinLoop t b true
  | .share => if b.writelock then shareLoop t b else shareGrant t b
  | .exclusive => exclusiveLoop t b
  | .refExclusive => refExclusiveLoop t b

/-! ## Unlocking -/

def wakeWaiters (chosen : ThreadId) : Option BufferDesc :=
  if 0 < b.rWaiting + b.pWaiting then some b.broadcast
  else if 0 < b.wWaiting + b.eWaiting then b.signal chosen
  else some b

def dropRead : BufferDesc := { b.setThread t { b.thread t with lock := none } with rLocks := b.rLocks - 1 }

def dropWrite : BufferDesc :=
  { b.setThread t { b.thread t with lock := none } with writelock := false, exclusive := false }

def unlockIndividualBuffer (chosen : ThreadId) : Held → Option BufferDesc
  | .read =>
    if (dropRead t b).rLocks = 0 then wakeWaiters (dropRead t b) chosen else some (dropRead t b)
  | .write => wakeWaiters (dropWrite t b) chosen

/-- `BUFFER_LOCK_UNLOCK`. Without a relation the lock is a read lock. -/
def unlockBuffer (rel : Bool) (chosen : ThreadId) : Option BufferDesc :=
  match (b.thread t).lock with
  | none => if rel then some b else none
  | some .read =>
    unlockIndividualBuffer t (if rel = false ∧ b.rWaiting ≠ 0 then b.broadcast else b) chosen .read
  | some .write => if rel then unlockIndividualBuffer t b chosen .write else none

def dropPin (pageaccess : Bool) : BufferDesc :=
  { b.setThread t { b.thread t with pin := none } with
    refCount := b.refCount-1
    pageaccess := if pageaccess then b.pageaccess - 1 else b.pageaccess }

def wakeRefExclusive (chosen : ThreadId) : Option BufferDesc :=
  if 0 < b.eWaiting ∧ b.pageaccess = b.eWaiting then b.signal chosen else some b

def manualUnpin (pageaccess : Bool) (chosen : ThreadId) : Option BufferDesc :=
  wakeRefExclusive (dropPin t b pageaccess) chosen

/-! ## The system -/

/-- A thread acts when it does not wait, and locks what it has pinned and not locked. -/
def next (b : BufferDesc) : Event → Option BufferDesc
  | .pin t pageaccess =>
    if (b.thread t).wait = none ∧ (b.thread t).pin = none ∧ b.retired = false then
      some (pinLoop t b pageaccess)
    else none
  | .unpin t chosen =>
    if (b.thread t).wait = none then
      match (b.thread t).pin with
      | some pageaccess => manualUnpin t b pageaccess chosen
      | none => none
    else none
  | .lock t mode =>
    if (b.thread t).wait = none ∧ (b.thread t).pin ≠ none ∧ (b.thread t).lock = none then
      match mode with
      | .pin => none
      | .share => some (shareLoop t b)
      | .exclusive => some (exclusiveLoop t b)
      | .refExclusive => some (refExclusiveLoop t b)
    else none
  | .unlock t rel chosen =>
    if (b.thread t).wait = none then unlockBuffer t b rel chosen else none
  | .spurious t => if t ∈ b.gate then some { b with gate := b.gate.erase t } else none
  | .run t =>
    match (b.thread t).wait with
    | some mode => if t ∈ b.gate then none else some (resume t (b.wake t mode) mode)
    | none => none

/-! ## What the counters count -/

structure Booked (b : BufferDesc) : Prop where
  waiting : ∀ mode, Counted {u | (b.thread u).wait = some mode} (b.waiting mode)
  readers : Counted {u | (b.thread u).lock = some .read} b.rLocks
  writer : b.writelock → ∃ u, (b.thread u).lock = some .write
  unlocked : ∀ u mode, (b.thread u).wait = some mode → mode = .pin ∨ (b.thread u).lock = none
  asleep : ∀ u ∈ b.gate, (b.thread u).wait ≠ none
  nodup : b.gate.Nodup

variable (valid retired : Bool)

theorem booked_init : Booked (BufferDesc.init valid retired) where
  waiting mode := by
    have hempty : {u : ThreadId | ((BufferDesc.init valid retired).thread u).wait = some mode} = ∅ := by
      simp [BufferDesc.init]
    rw [hempty]
    exact ⟨Set.finite_empty, by cases mode <;> simp [BufferDesc.waiting, BufferDesc.init]⟩
  readers := by
    have hempty : {u : ThreadId | ((BufferDesc.init valid retired).thread u).lock = some .read} = ∅ := by
      simp [BufferDesc.init]
    rw [hempty]
    exact ⟨Set.finite_empty, by simp [BufferDesc.init]⟩
  writer h := absurd h (by simp [BufferDesc.init])
  unlocked _ _ _ := .inr rfl
  asleep u hu := absurd hu (by simp [BufferDesc.init])
  nodup := by simp [BufferDesc.init]

variable {t b}

theorem thread_setThread (x : Thread) (u : ThreadId) : (b.setThread t x).thread u = if u = t then x else b.thread u :=
  update_apply b.thread t x u

section

variable (n : Int) (mode : Mode)

@[simp] theorem thread_addWaiting : (b.addWaiting n mode).thread = b.thread := by
  cases mode <;> rfl

@[simp] theorem gate_addWaiting : (b.addWaiting n mode).gate = b.gate := by
  cases mode <;> rfl

@[simp] theorem rLocks_addWaiting : (b.addWaiting n mode).rLocks = b.rLocks := by
  cases mode <;> rfl

@[simp] theorem writelock_addWaiting : (b.addWaiting n mode).writelock = b.writelock := by
  cases mode <;> rfl

end

theorem waiting_addWaiting (n : Int) (mode m : Mode) :
    (b.addWaiting n mode).waiting m = if m = mode then b.waiting m + n else b.waiting m := by
  cases mode <;> cases m <;> rfl

/-- A step that leaves waits and locks as they are, and at most wakes threads. -/
theorem Booked.frame (h : Booked b) (hwait : ∀ u, (b'.thread u).wait = (b.thread u).wait)
    (hlock : ∀ u, (b'.thread u).lock = (b.thread u).lock)
    (hwaiting : ∀ mode, b'.waiting mode = b.waiting mode) (hr : b'.rLocks = b.rLocks)
    (hw : b'.writelock = b.writelock) (hgate : b'.gate.Sublist b.gate) : Booked b' where
  waiting mode := by
    simpa only [hwait, hwaiting] using h.waiting mode
  readers := by
    simpa only [hlock, hr] using h.readers
  writer hb := by
    simpa only [hlock] using h.writer (hw ▸ hb)
  unlocked u mode hu := by
    rw [hlock]
    exact h.unlocked u mode (hwait u ▸ hu)
  asleep u hu := by
    simpa only [hwait] using h.asleep u (hgate.subset hu)
  nodup := h.nodup.sublist hgate

theorem Booked.move {x : Thread} (h : Booked b) (hthread : b'.thread = update b.thread t x)
    (hwaiting : ∀ mode, b'.waiting mode = b.waiting mode + (if x.wait = some mode then 1 else 0)
      - (if (b.thread t).wait = some mode then 1 else 0))
    (hr : b'.rLocks = b.rLocks + (if x.lock = some .read then 1 else 0)
      - (if (b.thread t).lock = some .read then 1 else 0)) (hw : b'.writelock →
      x.lock = some .write ∨ b.writelock ∧ (b.thread t).lock ≠ some .write)
    (hx : ∀ mode, x.wait = some mode → mode = .pin ∨ x.lock = none)
    (hasleep : ∀ u ∈ b'.gate, u = t ∧ x.wait ≠ none ∨ u ≠ t ∧ u ∈ b.gate)
    (hnodup : b'.gate.Nodup) : Booked b' where
  waiting mode := by
    have hcount := (h.waiting mode).update t x.wait
    rw [← hwaiting] at hcount
    refine hcount.of_iff fun u => ?_
    by_cases hu : u = t <;> simp [hthread, update_apply, hu]
  readers := by
    have hcount := h.readers.update t x.lock
    rw [← hr] at hcount
    refine hcount.of_iff fun u => ?_
    by_cases hu : u = t <;> simp [hthread, update_apply, hu]
  writer hb := by
    cases hw hb with
    | inl hx => exact ⟨t, by simp [hthread, hx]⟩
    | inr hold =>
      obtain ⟨u, hu⟩ := h.writer hold.1
      refine ⟨u, ?_⟩
      have hut : u ≠ t := fun hut => hold.2 (hut ▸ hu)
      rw [hthread, update_of_ne hut, hu]
  unlocked u mode hu := by
    rw [hthread] at hu ⊢
    by_cases hut : u = t
    · subst hut
      rw [update_self] at hu ⊢
      exact hx mode hu
    · rw [update_of_ne hut] at hu ⊢
      exact h.unlocked u mode hu
  asleep u hu := by
    cases hasleep u hu with
    | inl hself => simpa [hthread, hself.1] using hself.2
    | inr hother => simpa [hthread, hother.1] using h.asleep u hother.2
  nodup := hnodup

theorem Booked.keep_writer {held : Option Held} {writelock : Bool} (hb : b.writelock = writelock)
    (hheld : (b.thread t).lock = held) (hw : writelock) :
    held = some .write ∨ b.writelock ∧ (b.thread t).lock ≠ some .write := by
  by_cases hwrite : held = some .write
  · exact .inl hwrite
  · exact .inr ⟨hb.trans hw, hheld ▸ hwrite⟩

theorem Booked.awake_of_wait (h : Booked b) (ht : (b.thread t).wait = none) : t ∉ b.gate :=
  fun hgate => h.asleep t hgate ht

theorem Booked.sleep (h : Booked b) (ht : (b.thread t).wait = none)
    (hl : mode = .pin ∨ (b.thread t).lock = none) : Booked (b.sleep t mode) := by
  have hnew : t ∉ b.gate := h.awake_of_wait ht
  apply h.move (t := t) (x := { b.thread t with wait := some mode })
  · simp [BufferDesc.sleep, BufferDesc.setThread]
  · intro m
    have hn : (b.sleep t mode).waiting m = (b.addWaiting 1 mode).waiting m := by cases m <;> rfl
    rw [hn, waiting_addWaiting]
    by_cases hm : m = mode
    · simp [hm, ht]
    · simp [hm, ht, Ne.symm hm]
  · simp [BufferDesc.sleep, BufferDesc.setThread]
  · exact Booked.keep_writer (writelock_addWaiting 1 mode).symm rfl
  · intro m hm
    cases hm
    exact hl
  · intro u hu
    by_cases hut : u = t
    · exact .inl ⟨hut, nofun⟩
    · exact .inr ⟨hut, (mem_cons.mp hu).resolve_left hut⟩
  · exact nodup_cons.mpr ⟨hnew, h.nodup⟩

theorem Booked.wake (h : Booked b) (ht : (b.thread t).wait = some mode)
    (hgate : t ∉ b.gate) : Booked (b.wake t mode) := by
  apply h.move (t := t) (x := { b.thread t with wait := none })
  · simp [BufferDesc.wake, BufferDesc.setThread]
  · intro m
    have hn : (b.wake t mode).waiting m = (b.addWaiting (-1) mode).waiting m := by cases m <;> rfl
    rw [hn, waiting_addWaiting]
    by_cases hm : m = mode
    · simp [hm, ht, sub_eq_add_neg]
    · simp [hm, ht, Ne.symm hm]
  · simp [BufferDesc.wake, BufferDesc.setThread]
  · exact Booked.keep_writer (writelock_addWaiting (-1) mode).symm rfl
  · exact fun _ => nofun
  · intro u hu
    have hu' : u ∈ b.gate := (gate_addWaiting (-1) mode) ▸ hu
    exact .inr ⟨fun hut => hgate (hut ▸ hu'), hu'⟩
  · exact (gate_addWaiting (-1) mode).symm ▸ h.nodup

theorem Booked.others_asleep (h : Booked b) (ht : (b.thread t).wait = none) (x : Thread) :
    ∀ u ∈ b.gate, u = t ∧ x.wait ≠ none ∨ u ≠ t ∧ u ∈ b.gate :=
  fun _ hu => .inr ⟨fun hut => h.awake_of_wait ht (hut ▸ hu), hu⟩

theorem running_unlocked {lock : Option Held} (ht : (b.thread t).wait = none) (mode : Mode)
    (hmode : (b.thread t).wait = some mode) : mode = .pin ∨ lock = none :=
  absurd (ht.symm.trans hmode) nofun

section

variable (h : Booked b) (ht : (b.thread t).wait = none)
include h ht

theorem Booked.shareGrant (hl : (b.thread t).lock = none) : Booked (shareGrant t b) := by
  apply h.move (t := t) (x := { b.thread t with lock := some .read })
  · rfl
  · intro mode
    cases mode <;> simp [Buffers.shareGrant, BufferDesc.grant, BufferDesc.setThread, BufferDesc.waiting, ht]
  · simp [Buffers.shareGrant, hl]
  · intro hw
    exact .inr ⟨hw, by simp [hl]⟩
  · exact running_unlocked ht
  · exact h.others_asleep ht _
  · exact h.nodup

theorem Booked.writeGrant (hl : (b.thread t).lock = none) (hthread : b'.thread = (b.grant t .write).thread)
    (hwaiting : ∀ mode, b'.waiting mode = b.waiting mode) (hr : b'.rLocks = b.rLocks)
    (hgate : b'.gate = b.gate) : Booked b' := by
  apply h.move (t := t) (x := { b.thread t with lock := some .write })
  · exact hthread
  · simp [hwaiting, ht]
  · simp [hr, hl]
  · intro _
    exact .inl rfl
  · exact running_unlocked ht
  · exact hgate ▸ h.others_asleep ht _
  · exact hgate ▸ h.nodup

theorem Booked.dropRead (hl : (b.thread t).lock = some .read) : Booked (Buffers.dropRead t b) := by
  apply h.move (t := t) (x := { b.thread t with lock := none })
  · rfl
  · intro mode
    cases mode <;> simp [Buffers.dropRead, BufferDesc.setThread, BufferDesc.waiting, ht]
  · simp [Buffers.dropRead, hl]
  · intro hw
    exact .inr ⟨hw, by simp [hl]⟩
  · exact running_unlocked ht
  · exact h.others_asleep ht _
  · exact h.nodup

theorem Booked.dropWrite (hl : (b.thread t).lock = some .write) : Booked (Buffers.dropWrite t b) := by
  apply h.move (t := t) (x := { b.thread t with lock := none })
  · rfl
  · intro mode
    cases mode <;> simp [Buffers.dropWrite, BufferDesc.setThread, BufferDesc.waiting, ht]
  · simp [Buffers.dropWrite, hl, BufferDesc.setThread]
  · nofun
  · exact running_unlocked ht
  · exact h.others_asleep ht _
  · exact h.nodup

end

/-! ## Waiting writers -/

def Attended (b : BufferDesc) : Prop :=
  0 < b.rLocks ∨ b.writelock ∨
    ∃ u, u ∉ b.gate ∧ ((b.thread u).wait = some .share ∨ (b.thread u).wait = some .exclusive)

def Prompt (b : BufferDesc) : Prop := (∃ u ∈ b.gate, (b.thread u).wait = some .exclusive) → Attended b

theorem Prompt.of_locked (h : 0 < b.rLocks ∨ b.writelock) : Prompt b := fun _ => h.elim .inl (fun hw => .inr (.inl hw))

section

variable (h : Prompt b)
include h

/-- A step that puts no writer to sleep and keeps the thread that looks after them. -/
theorem Prompt.frame (hr : b'.rLocks = b.rLocks) (hw : b'.writelock = b.writelock)
    (hsleep : ∀ u ∈ b'.gate, (b'.thread u).wait = some .exclusive →
      u ∈ b.gate ∧ (b.thread u).wait = some .exclusive) (hawake : ∀ u, u ∉ b.gate →
      (b.thread u).wait = some .share ∨ (b.thread u).wait = some .exclusive →
      u ∉ b'.gate ∧ (b'.thread u).wait = (b.thread u).wait) : Prompt b' := by
  rintro ⟨u, hu, hwait⟩
  obtain ⟨hu', hwait'⟩ := hsleep u hu hwait
  cases h ⟨u, hu', hwait'⟩ with
  | inl hread => exact .inl (hr ▸ hread)
  | inr hrest =>
    cases hrest with
    | inl hwrite => exact .inr (.inl (hw.trans hwrite))
    | inr hex =>
      obtain ⟨v, hv, hvwait⟩ := hex
      obtain ⟨hv', hveq⟩ := hawake v hv hvwait
      exact .inr (.inr ⟨v, hv', hveq ▸ hvwait⟩)

theorem Prompt.sleep (ht : (b.thread t).wait = none) (hmode : mode ≠ .exclusive) : Prompt (b.sleep t mode) := by
  refine h.frame (rLocks_addWaiting 1 mode) (writelock_addWaiting 1 mode) ?_ ?_
  · intro u hu hwait
    by_cases hut : u = t
    · simp [BufferDesc.sleep, thread_setThread, hut, hmode] at hwait
    · refine ⟨(mem_cons.mp hu).resolve_left hut, ?_⟩
      simpa [BufferDesc.sleep, thread_setThread, hut] using hwait
  · intro u hu hwait
    have hut : u ≠ t := fun hut => by simp [hut, ht] at hwait
    exact ⟨by simp [BufferDesc.sleep, hut, hu], by simp [BufferDesc.sleep, thread_setThread, hut]⟩

theorem Prompt.wake (ht : (b.thread t).wait = some mode)
    (hgate : t ∉ b.gate) (hmode : mode = .pin ∨ mode = .refExclusive) : Prompt (b.wake t mode) := by
  refine h.frame (rLocks_addWaiting (-1) mode) (writelock_addWaiting (-1) mode) ?_ ?_
  · intro u hu hwait
    have hu' : u ∈ b.gate := (gate_addWaiting (-1) mode) ▸ hu
    have hut : u ≠ t := fun hut => hgate (hut ▸ hu')
    exact ⟨hu', by simpa [BufferDesc.wake, thread_setThread, hut] using hwait⟩
  · intro u hu hwait
    have hut : u ≠ t := by
      rintro rfl
      cases hmode <;> simp_all
    exact ⟨(gate_addWaiting (-1) mode).symm ▸ hu, by simp [BufferDesc.wake, thread_setThread, hut]⟩

theorem Prompt.wakeOne (chosen : ThreadId) : Prompt { b with gate := b.gate.erase chosen } := by
  refine h.frame rfl rfl ?_ ?_
  · exact fun u hu hwait => ⟨mem_of_mem_erase hu, hwait⟩
  · exact fun u hu _ => ⟨fun hu' => hu (mem_of_mem_erase hu'), rfl⟩

theorem Prompt.setPin (hr : b'.rLocks = b.rLocks) (hw : b'.writelock = b.writelock) (hgate : b'.gate = b.gate)
    (hwait : ∀ u, (b'.thread u).wait = (b.thread u).wait) : Prompt b' := by
  refine h.frame hr hw ?_ ?_
  · exact fun u hu hu' => ⟨hgate ▸ hu, hwait u ▸ hu'⟩
  · exact fun u hu _ => ⟨hgate.symm ▸ hu, hwait u⟩

end

/-! ## The steps -/

/-- Every step keeps this, apart from an unlock that wakes one of several kinds. -/
structure Tended (b : BufferDesc) : Prop where
  booked : Booked b
  prompt : Prompt b

theorem tended_init : Tended (.init valid retired) where
  booked := booked_init valid retired
  prompt := fun ⟨_, hu, _⟩ => absurd hu (by simp [BufferDesc.init])

theorem Tended.wakeOne (h : Tended b) (chosen : ThreadId) : Tended { b with gate := b.gate.erase chosen } where
  booked := h.booked.frame (fun _ => rfl) (fun _ => rfl) (fun mode => by cases mode <;> rfl) rfl rfl erase_sublist
  prompt := h.prompt.wakeOne chosen

theorem Tended.signal (h : Tended b) (hb : b.signal chosen = some b') : Tended b' := by
  unfold BufferDesc.signal at hb
  split at hb
  · cases hb
    exact h
  · split at hb
    · cases hb
      exact h.wakeOne chosen
    · exact absurd hb nofun

theorem wait_setPin (pin : Option Bool) (u : ThreadId) :
    ((b.setThread t { b.thread t with pin := pin }).thread u).wait = (b.thread u).wait := by
  by_cases hu : u = t <;> simp [thread_setThread, hu]

theorem lock_setPin (pin : Option Bool) (u : ThreadId) :
    ((b.setThread t { b.thread t with pin := pin }).thread u).lock = (b.thread u).lock := by
  by_cases hu : u = t <;> simp [thread_setThread, hu]

theorem Tended.setPin (h : Tended b) (pin : Option Bool) (pageaccess refCount : Int) :
    Tended { b.setThread t { b.thread t with pin := pin } with
      pageaccess := pageaccess, refCount := refCount } where
  booked := h.booked.frame (wait_setPin pin) (lock_setPin pin) fun mode => by cases mode <;> rfl
    rfl rfl (List.Sublist.refl _)
  prompt := h.prompt.setPin rfl rfl rfl (wait_setPin pin)

theorem Tended.pinLoop (h : Tended b) (ht : (b.thread t).wait = none) (pageaccess : Bool) :
    Tended (pinLoop t b pageaccess) := by
  unfold Buffers.pinLoop
  split
  · exact ⟨h.booked.sleep ht (.inl rfl), h.prompt.sleep ht nofun⟩
  · split
    · exact h.setPin _ _ _
    · exact h

theorem Tended.refExclusiveLoop (h : Tended b) (ht : (b.thread t).wait = none)
    (hl : (b.thread t).lock = none) : Tended (refExclusiveLoop t b) := by
  unfold Buffers.refExclusiveLoop
  split
  · exact ⟨h.booked.sleep ht (.inr hl), h.prompt.sleep ht nofun⟩
  · exact ⟨h.booked.writeGrant ht hl rfl (fun mode => by cases mode <;> rfl) rfl rfl, Prompt.of_locked (.inr rfl)⟩

theorem Booked.exclusiveLoop (h : Booked b) (ht : (b.thread t).wait = none)
    (hl : (b.thread t).lock = none) : Tended (exclusiveLoop t b) := by
  unfold Buffers.exclusiveLoop
  split
  · next hlocked => exact ⟨h.sleep ht (.inr hl), Prompt.of_locked hlocked⟩
  · exact ⟨h.writeGrant ht hl rfl (fun mode => by cases mode <;> rfl) rfl rfl, Prompt.of_locked (.inr rfl)⟩

theorem Booked.tended_shareGrant (h : Booked b) (ht : (b.thread t).wait = none)
    (hl : (b.thread t).lock = none) : Tended (Buffers.shareGrant t b) := by
  have hpos : 0 < b.rLocks+1 := Int.lt_add_one_of_le h.readers.nonneg
  exact ⟨h.shareGrant ht hl, Prompt.of_locked (.inl hpos)⟩

theorem Tended.shareLoop (h : Tended b) (ht : (b.thread t).wait = none)
    (hl : (b.thread t).lock = none) : Tended (shareLoop t b) := by
  unfold Buffers.shareLoop
  split
  · exact ⟨h.booked.sleep ht (.inr hl), h.prompt.sleep ht nofun⟩
  · exact h.booked.tended_shareGrant ht hl

/-- The reader may have looked after the writers: it gets its lock, or there is a writer. -/
theorem Booked.resumeShare (h : Booked b) (ht : (b.thread t).wait = none)
    (hl : (b.thread t).lock = none) : Tended (resume t b .share) := by
  change Tended (if b.writelock then Buffers.shareLoop t b else Buffers.shareGrant t b)
  split
  · next hw => exact Tended.shareLoop ⟨h, Prompt.of_locked (.inr hw)⟩ ht hl
  · exact h.tended_shareGrant ht hl

theorem Tended.run (h : Tended b) (ht : (b.thread t).wait = some mode)
    (hgate : t ∉ b.gate) : Tended (resume t (b.wake t mode) mode) := by
  have hbooked : Booked (b.wake t mode) := h.booked.wake ht hgate
  have hwait : ((b.wake t mode).thread t).wait = none := by
    simp [BufferDesc.wake, thread_setThread]
  have hlock : ((b.wake t mode).thread t).lock = (b.thread t).lock := by
    simp [BufferDesc.wake, thread_setThread]
  have hunlocked := h.booked.unlocked t mode ht
  rw [← hlock] at hunlocked
  cases mode with
  | pin => exact Tended.pinLoop ⟨hbooked, h.prompt.wake ht hgate (.inl rfl)⟩ hwait true
  | share => exact hbooked.resumeShare hwait (hunlocked.resolve_left nofun)
  | exclusive => exact hbooked.exclusiveLoop hwait (hunlocked.resolve_left nofun)
  | refExclusive =>
    exact Tended.refExclusiveLoop ⟨hbooked, h.prompt.wake ht hgate (.inr rfl)⟩ hwait (hunlocked.resolve_left nofun)

theorem Tended.manualUnpin {pageaccess : Bool}
    (h : Tended b) (hb : manualUnpin t b pageaccess chosen = some b') : Tended b' := by
  have hdrop : Tended (dropPin t b pageaccess) := h.setPin _ _ _
  unfold Buffers.manualUnpin wakeRefExclusive at hb
  split at hb
  · exact hdrop.signal hb
  · exact some.inj hb ▸ hdrop

theorem Booked.broadcast (h : Booked b) : Booked b.broadcast :=
  h.frame (fun _ => rfl) (fun _ => rfl) (fun mode => by cases mode <;> rfl) rfl rfl (nil_sublist _)

theorem tended_broadcast (h : Booked b) : Tended b.broadcast := ⟨h.broadcast, fun ⟨_, hu, _⟩ => absurd hu not_mem_nil⟩

def OneKind (b : BufferDesc) : Prop := b.wWaiting = 0 ∨ b.eWaiting = 0 ∨ 0 < b.rWaiting+b.pWaiting

theorem Booked.asleep_exclusive (h : Booked b) (hone : OneKind b) (hnone : ¬ 0 < b.rWaiting+b.pWaiting) {u v : ThreadId}
    (hu : (b.thread u).wait = some .exclusive) (hv : v ∈ b.gate) :
    (b.thread v).wait = some .exclusive := by
  have hpos : ∀ {w : ThreadId} {mode : Mode}, (b.thread w).wait = some mode → 0 < b.waiting mode :=
    fun hw => (h.waiting _).pos_iff.mpr ⟨_, hw⟩
  have hwriters : 0 < b.wWaiting := hpos hu
  have hr : 0 ≤ b.rWaiting := (h.waiting .share).nonneg
  have hp : 0 ≤ b.pWaiting := (h.waiting .pin).nonneg
  have hrefs : b.eWaiting = 0 := by
    unfold OneKind at hone
    omega
  cases hmode : (b.thread v).wait with
  | none => exact absurd hmode (h.asleep v hv)
  | some mode =>
    have hwaits : 0 < b.waiting mode := hpos hmode
    cases mode with
    | exclusive => rfl
    | pin => exact absurd hwaits (show ¬ 0 < b.pWaiting by omega)
    | share => exact absurd hwaits (show ¬ 0 < b.rWaiting by omega)
    | refExclusive => exact absurd hwaits (show ¬ 0 < b.eWaiting by omega)

theorem Booked.signal_prompt (h : Booked b) (hone : OneKind b) (hnone : ¬ 0 < b.rWaiting+b.pWaiting)
    (hc : chosen ∈ b.gate) : Prompt { b with gate := b.gate.erase chosen } := by
  rintro ⟨u, _, hu⟩
  have hchosen : (b.thread chosen).wait = some .exclusive := h.asleep_exclusive hone hnone hu hc
  exact .inr (.inr ⟨chosen, fun hmem => (h.nodup.mem_erase_iff.mp hmem).1 rfl, .inr hchosen⟩)

theorem Booked.wakeWaiters (h : Booked b) (hone : OneKind b) (hb : wakeWaiters b chosen = some b') : Tended b' := by
  unfold Buffers.wakeWaiters at hb
  split at hb
  · exact some.inj hb ▸ tended_broadcast h
  · next hnone =>
    split at hb
    · unfold BufferDesc.signal at hb
      split at hb
      · next hempty =>
        obtain rfl := some.inj hb
        exact ⟨h, fun ⟨_, hu, _⟩ => absurd (hempty ▸ hu) not_mem_nil⟩
      · split at hb
        · next hc =>
          obtain rfl := some.inj hb
          have hbooked : Booked { b with gate := b.gate.erase chosen } :=
            h.frame (fun _ => rfl) (fun _ => rfl) (fun mode => by cases mode <;> rfl) rfl rfl erase_sublist
          exact ⟨hbooked, h.signal_prompt hone hnone hc⟩
        · exact absurd hb nofun
    · next hquiet =>
      -- no writer is counted, so none sleeps
      obtain rfl := some.inj hb
      refine ⟨h, fun ⟨u, _, hu⟩ => ?_⟩
      have hw : 0 < b.wWaiting := (h.waiting .exclusive).pos_iff.mpr ⟨u, hu⟩
      have he : 0 ≤ b.eWaiting := (h.waiting .refExclusive).nonneg
      omega

theorem Booked.unlockRead (h : Booked b) (ht : (b.thread t).wait = none) (hl : (b.thread t).lock = some .read)
    (hone : b.rLocks = 1 → OneKind b)
    (hb : unlockIndividualBuffer t b chosen .read = some b') : Tended b' := by
  have hdrop : Booked (Buffers.dropRead t b) := h.dropRead ht hl
  change (if b.rLocks - 1 = 0 then Buffers.wakeWaiters (Buffers.dropRead t b) chosen
    else some (Buffers.dropRead t b)) = some b' at hb
  split at hb
  · next hlast => exact hdrop.wakeWaiters (hone (by omega)) hb
  · next hmore =>
    cases hb
    have hnonneg : 0 ≤ b.rLocks-1 := hdrop.readers.nonneg
    have hpos : 0 < b.rLocks-1 := by omega
    exact ⟨hdrop, Prompt.of_locked (.inl hpos)⟩

def wakes (b : BufferDesc) (t : ThreadId) : Bool :=
  match (b.thread t).lock with
  | none => false
  | some .read => b.rLocks = 1
  | some .write => true

theorem Tended.unlockBuffer {rel : Bool} (h : Tended b) (ht : (b.thread t).wait = none) (hone : wakes b t → OneKind b)
    (hb : unlockBuffer t b rel chosen = some b') : Tended b' := by
  unfold Buffers.unlockBuffer at hb
  unfold wakes at hone
  cases hl : (b.thread t).lock with
  | none =>
    simp only [hl] at hb
    split at hb
    · exact some.inj hb ▸ h
    · exact absurd hb nofun
  | some held =>
    cases held with
    | read =>
      simp only [hl, decide_eq_true_eq] at hb hone
      split at hb
      · exact h.booked.broadcast.unlockRead ht hl hone hb
      · exact h.booked.unlockRead ht hl hone hb
    | write =>
      simp only [hl, forall_const] at hb hone
      split at hb
      · exact (h.booked.dropWrite ht hl).wakeWaiters hone hb
      · exact absurd hb nofun

instance (b : BufferDesc) : Decidable (OneKind b) := by
  unfold OneKind
  infer_instance

/-- An unlock does not have to choose between a writer and a locker by reference. -/
def clearChoice (b : BufferDesc) : Event → Bool
  | .unlock t _ _ => !wakes b t || decide (OneKind b)
  | _ => true

theorem Tended.step (h : Tended b) (event : Event)
    (hok : clearChoice b event) (hnext : next b event = some b') : Tended b' := by
  cases event with
  | pin t pageaccess =>
    simp only [next, ite_none_right_eq_some, Option.some.injEq] at hnext
    exact hnext.2 ▸ h.pinLoop hnext.1.1 pageaccess
  | unpin t chosen =>
    simp only [next, ite_none_right_eq_some] at hnext
    obtain ⟨_, hnext⟩ := hnext
    split at hnext
    · exact h.manualUnpin hnext
    · exact absurd hnext nofun
  | lock t mode =>
    simp only [next, ite_none_right_eq_some] at hnext
    obtain ⟨⟨ht, _, hl⟩, hnext⟩ := hnext
    cases mode with
    | pin => exact absurd hnext nofun
    | share => exact some.inj hnext ▸ h.shareLoop ht hl
    | exclusive => exact some.inj hnext ▸ h.booked.exclusiveLoop ht hl
    | refExclusive => exact some.inj hnext ▸ h.refExclusiveLoop ht hl
  | unlock t rel chosen =>
    simp only [next, ite_none_right_eq_some] at hnext
    refine h.unlockBuffer hnext.1 (fun hwakes => ?_) hnext.2
    simpa [clearChoice, hwakes] using hok
  | spurious t =>
    simp only [next, ite_none_right_eq_some, Option.some.injEq] at hnext
    exact hnext.2 ▸ h.wakeOne t
  | run t =>
    simp only [next] at hnext
    split at hnext
    · next mode hwait =>
      simp only [ite_none_left_eq_some, Option.some.injEq] at hnext
      exact hnext.2 ▸ h.run hwait hnext.1
    · exact absurd hnext nofun

/-! ## No writer is forgotten -/

def Forgotten (b : BufferDesc) : Prop :=
  (∃ t, (b.thread t).wait = some .exclusive) ∧ (∀ t, (b.thread t).lock = none) ∧
    ∀ t, (b.thread t).wait ≠ none → t ∈ b.gate

theorem Tended.not_forgotten (h : Tended b) : ¬ Forgotten b := by
  rintro ⟨⟨t, ht⟩, hfree, hasleep⟩
  have hgate : t ∈ b.gate := hasleep t (by simp [ht])
  cases h.prompt ⟨t, hgate, ht⟩ with
  | inl hread =>
    obtain ⟨u, hu⟩ := h.booked.readers.pos_iff.mp hread
    exact absurd ((hfree u).symm.trans hu) nofun
  | inr hrest =>
    cases hrest with
    | inl hwrite =>
      obtain ⟨u, hu⟩ := h.booked.writer hwrite
      exact absurd ((hfree u).symm.trans hu) nofun
    | inr hex =>
      obtain ⟨u, hu, hwait⟩ := hex
      refine hu (hasleep u ?_)
      cases hwait with
      | inl hshare => simp [hshare]
      | inr hexclusive => simp [hexclusive]

/-- **Waiting writers.** A writer that nothing keeps out does not sleep on. -/
theorem no_forgotten_writer (valid retired : Bool) (events : List Event) (b : BufferDesc)
    (hrun : Run (Guarded (fun b e b' => next b e = some b') (fun b e => clearChoice b e))
      (BufferDesc.init valid retired) events b) : ¬ Forgotten b := by
  have htended : Tended b :=
    hrun.preserves Tended (fun _ event _ h hstep => h.step event hstep.1 hstep.2) (tended_init valid retired)
  exact htended.not_forgotten

def readerLeaves : List Event :=
  [.pin 0 true, .pin 1 true, .lock 0 .share, .lock 1 .exclusive, .unlock 0 true 1]

theorem no_forgotten_writer_reader_leaves : ∃ b, perform (fun b e => if clearChoice b e then next b e else none)
        (BufferDesc.init true false) readerLeaves = some b ∧
      (b.thread 1).wait = some .exclusive ∧ ¬ Forgotten b := by
  exact exists_of_map (fun b => (b.thread 1).wait) (some .exclusive) (by decide)
    fun b hb hwait => ⟨hwait, no_forgotten_writer true false readerLeaves b (.of_perform hb)⟩

/-- The signal for a writer reaches a locker by reference, which waits on. -/
def signalWasted : List Event :=
  [.pin 0 true, .pin 1 true, .pin 2 true, .lock 0 .share, .lock 1 .exclusive, .lock 2 .refExclusive,
    .unlock 0 true 2, .run 2]

theorem writer_forgotten :
    ∃ b, perform next (BufferDesc.init true false) signalWasted = some b ∧ Forgotten b := by
  refine ⟨_, rfl, ⟨1, rfl⟩, fun t => ?_, fun t ht => ?_⟩
  · match t with
    | 0 => rfl
    | 1 => rfl
    | 2 => rfl
    | _ + 3 => rfl
  · match t with
    | 0 => exact absurd rfl ht
    | 1 => decide
    | 2 => decide
    | _ + 3 => exact absurd rfl ht

end WeaverDB.Buffers
