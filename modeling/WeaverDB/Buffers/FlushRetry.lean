import Mathlib.Logic.Basic

/-! # Flushing a shared buffer (`bufmgr.c`)

`DirectWriteBuffer` tries again when `smgrflush` fails. But the failure leaves `BM_IO_ERROR`, which
`WriteBufferIO` refuses and nobody takes off, so there is no second write.
-/

namespace WeaverDB.BufferIo

structure IoFlags where
  dirty : Bool
  logged : Bool
  ioError : Bool
  readInProgress : Bool
  logInProgress : Bool
  writeInProgress : Bool

def IoFlags.ioop (f : IoFlags) : Bool := f.readInProgress || f.logInProgress || f.writeInProgress

inductive WriteMode where
  | flush
  | commit
  | normal

/-- Whether the status is `IO_SUCCESS`. A thread that finds an operation in progress waits. -/
def writeBufferIO (mode : WriteMode) (f : IoFlags) : Option (Bool × IoFlags) :=
  if f.ioop then none
  else if f.ioError then some (false, f)
  else
    let write := f.dirty || f.logged
    match mode with
    | .flush => some (true, { f with logged := false, dirty := false, writeInProgress := true })
    | .commit => some (true, { f with logged := false, dirty := false, writeInProgress := write })
    | .normal => some (true, { f with logged := false, writeInProgress := write })

def logBufferIO (f : IoFlags) : Option (Bool × IoFlags) :=
  if f.ioop then none
  else if f.ioError || !f.dirty then some (false, f)
  else some (true, { f with logInProgress := true, dirty := false })

def errorBufferIO : IoFlags := ⟨false, false, true, false, false, false⟩

def clearBufferIO (f : IoFlags) : Option IoFlags :=
  if f.ioError then some f else if f.ioop then none else some errorBufferIO

def terminateBufferIO (f : IoFlags) : IoFlags :=
  { f with
    logged := f.logged || f.logInProgress
    readInProgress := false
    logInProgress := false
    writeInProgress := false }

inductive IoCall where
  | dirtyBufferIO
  | logBufferIO
  | writeBufferIO (mode : WriteMode)
  | terminateBufferIO
  | errorBufferIO
  | clearBufferIO

def IoCall.run (f : IoFlags) : IoCall → IoFlags
  | dirtyBufferIO => { f with dirty := true }
  | logBufferIO => ((BufferIo.logBufferIO f).map (·.2)).getD f
  | writeBufferIO mode => ((BufferIo.writeBufferIO mode f).map (·.2)).getD f
  | terminateBufferIO => BufferIo.terminateBufferIO f
  | errorBufferIO => BufferIo.errorBufferIO
  | clearBufferIO => (BufferIo.clearBufferIO f).getD f

/-- `privateRefCount` are the pins of the thread, `refCount` those of all threads. -/
structure BufferDesc (Block : Type) where
  ioflags : IoFlags
  data : Block
  shadow : Block
  generation : Nat
  privateRefCount : Nat
  refCount : Nat

variable {Block : Type}

def advanceBufferIO (generation : Nat) (b : BufferDesc Block) : BufferDesc Block :=
  if b.generation ≤ generation then { b with shadow := b.data, generation := generation } else b

def unpinBuffer (b : BufferDesc Block) : BufferDesc Block :=
  { b with
    privateRefCount := b.privateRefCount-1
    refCount := if b.privateRefCount - 1 = 0 then b.refCount - 1 else b.refCount }

section

/- In turn `n` the other threads call `others n` before the thread goes on, `smgrflush n` tells whether
a write succeeds, and `generation n` is `buffer_generation`. -/
variable (others : Nat → List IoCall) (smgrflush : Nat → Bool) (generation : Nat → Nat)

def flagsIn (n : Nat) (f : IoFlags) : IoFlags := (others n).foldl IoCall.run f

def directWriteBuffer : Nat → Nat → BufferDesc Block → Option (Block × BufferDesc Block)
  | 0, _, _ => none
  | fuel + 1, n, b =>
    let flags := flagsIn others n b.ioflags
    match writeBufferIO .flush flags with
    | none => directWriteBuffer fuel (n+1) { b with ioflags := flags }
    | some (false, _) => directWriteBuffer fuel (n+1) { b with ioflags := errorBufferIO }
    | some (true, flags) =>
      let b := advanceBufferIO (generation n) { b with ioflags := flags }
      if smgrflush n then
        some (b.shadow, unpinBuffer { b with ioflags := terminateBufferIO b.ioflags })
      else directWriteBuffer fuel (n+1) { b with ioflags := errorBufferIO }

/-- The first write succeeds, and it writes the block, not an older copy. -/
inductive FirstWrite (b : BufferDesc Block) : Nat → IoFlags → Prop where
  | wait {n : Nat} {f : IoFlags} (hop : (flagsIn others n f).ioop)
      (h : FirstWrite b (n+1) (flagsIn others n f)) : FirstWrite b n f
  | write {n : Nat} {f : IoFlags} (hop : (flagsIn others n f).ioop = false)
      (herror : (flagsIn others n f).ioError = false) (hok : smgrflush n)
      (hcopy : b.generation ≤ generation n ∨ b.shadow = b.data) : FirstWrite b n f

variable {others smgrflush generation} {n : Nat} {b : BufferDesc Block} {f : IoFlags}

theorem IoCall.run_ioError (h : f.ioError) (c : IoCall) : (c.run f).ioError := by
  cases c with
  | dirtyBufferIO | terminateBufferIO => exact h
  | errorBufferIO => rfl
  | logBufferIO | clearBufferIO => grind [IoCall.run, BufferIo.logBufferIO, BufferIo.clearBufferIO]
  | writeBufferIO mode => grind [IoCall.run, BufferIo.writeBufferIO]

theorem flagsIn_ioError (h : f.ioError) (n : Nat) : (flagsIn others n f).ioError := by
  unfold flagsIn
  induction others n generalizing f with
  | nil => exact h
  | cons c cs ih => exact ih (c.run_ioError h)

theorem directWriteBuffer_error (fuel n : Nat) (b : BufferDesc Block) (h : b.ioflags.ioError) :
    directWriteBuffer others smgrflush generation fuel n b = none := by
  induction fuel generalizing n b with
  | zero => rfl
  | succ fuel ih =>
    have herror : (flagsIn others n b.ioflags).ioError := flagsIn_ioError h n
    rw [directWriteBuffer, writeBufferIO, herror]
    cases (flagsIn others n b.ioflags).ioop with
    | true => exact ih _ _ herror
    | false => exact ih _ _ rfl

def Flushed (b : BufferDesc Block) (r : Block × BufferDesc Block) : Prop :=
  r.1 = b.data ∧ r.2.privateRefCount = (unpinBuffer b).privateRefCount ∧ r.2.refCount = (unpinBuffer b).refCount

theorem FirstWrite.returns (h : FirstWrite others smgrflush generation b n f) : ∃ fuel r,
    directWriteBuffer others smgrflush generation fuel n { b with ioflags := f } = some r ∧ Flushed b r := by
  induction h with
  | wait hop _ ih =>
    obtain ⟨fuel, r, hr, hflushed⟩ := ih
    refine ⟨fuel+1, r, ?_, hflushed⟩
    rw [directWriteBuffer, writeBufferIO, if_pos hop]
    exact hr
  | @write n f hop herror hok hcopy =>
    refine ⟨1, ?_⟩
    by_cases hle : b.generation ≤ generation n
    · simp [directWriteBuffer, writeBufferIO, hop, herror, hok, advanceBufferIO, hle, Flushed, unpinBuffer]
    · simp [directWriteBuffer, writeBufferIO, hop, herror, hok, advanceBufferIO, hle, Flushed,
        unpinBuffer, hcopy.resolve_left hle]

theorem firstWrite_of_returns {fuel : Nat} {r : Block × BufferDesc Block} (hr : r.1 = b.data)
    (h : directWriteBuffer others smgrflush generation fuel n { b with ioflags := f } = some r) :
    FirstWrite others smgrflush generation b n f := by
  induction fuel generalizing n f with
  | zero => nomatch h
  | succ fuel ih =>
    rw [directWriteBuffer, writeBufferIO] at h
    cases hop : (flagsIn others n f).ioop with
    | true =>
      rw [hop] at h
      exact .wait hop (ih h)
    | false =>
      cases herror : (flagsIn others n f).ioError with
      | true =>
        rw [hop, herror] at h
        exact nomatch (directWriteBuffer_error fuel _ _ rfl).symm.trans h
      | false =>
        cases hok : smgrflush n with
        | true =>
          rw [hop, herror, hok] at h
          refine .write hop herror hok (or_iff_not_imp_left.mpr fun hle => ?_)
          rw [← hr, ← Option.some.inj h, advanceBufferIO, if_neg hle]
        | false =>
          rw [hop, herror, hok] at h
          exact nomatch (directWriteBuffer_error fuel _ _ rfl).symm.trans h

end

/-- **Flushes.** A flush returns exactly if its first write succeeds and has the block. -/
theorem flush_returns_iff (others : Nat → List IoCall) (smgrflush : Nat → Bool) (generation : Nat → Nat)
    (b : BufferDesc Block) :
    (∃ fuel r, directWriteBuffer others smgrflush generation fuel 0 b = some r ∧ Flushed b r) ↔
      FirstWrite others smgrflush generation b 0 b.ioflags :=
  ⟨fun ⟨_, _, h, hr⟩ => firstWrite_of_returns hr.1 h, fun h => h.returns⟩

def dirtyBuffer : BufferDesc Nat := ⟨⟨true, false, false, false, false, false⟩, 7, 5, 3, 1, 1⟩

/-- Only the first `smgrflush` fails. -/
theorem failed_flush_endless : ¬ ∃ fuel r, directWriteBuffer (fun _ => []) (fun n => decide (0 < n))
    (fun _ => 4) fuel 0 dirtyBuffer = some r := by
  rintro ⟨fuel, r, h⟩
  cases fuel with
  | zero => nomatch h
  | succ fuel => exact nomatch (directWriteBuffer_error fuel _ _ rfl).symm.trans h

end WeaverDB.BufferIo
