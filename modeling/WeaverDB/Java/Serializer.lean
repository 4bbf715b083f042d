import WeaverDB.Foundations.Runs

/-! # The object serializer of a thread

`WeaverObjectLoader` keeps one object stream over one `ByteWellOutputStream` per thread. What the stream
appends during a call of `in`, and whether it throws, comes with the call.
-/

namespace WeaverDB.Java
open Foundations List

structure WeaverObjectLoader where
  inWell : List UInt8
  outWell : List UInt8

inductive LoaderCall where
  | javaIn (emitted : List UInt8) (throws : Bool)
  | javaOut (input : List UInt8)

def newLoader (header : List UInt8) : WeaverObjectLoader where
  inWell := header
  outWell := []

/-- `in`; an `IOException` returns null before `getByteWell` empties the well. -/
def WeaverObjectLoader.javaIn (o : WeaverObjectLoader) (emitted : List UInt8) (throws : Bool) :
    Option (List UInt8) × WeaverObjectLoader :=
  let well := o.outWell ++ emitted
  if throws then (none, { o with outWell := well }) else (some well, { o with outWell := [] })

def WeaverObjectLoader.javaOut (o : WeaverObjectLoader) (input : List UInt8) : WeaverObjectLoader :=
  { o with inWell := input }

/-- What a call of `in` returns is what the stream emitted during that call. -/
def serializer : Monitor WeaverObjectLoader LoaderCall where
  update o
    | .javaIn emitted throws => (o.javaIn emitted throws).2
    | .javaOut input => o.javaOut input
  good o
    | .javaIn emitted throws => ∀ bytes ∈ (o.javaIn emitted throws).1, bytes = emitted
    | .javaOut _ => True

def LoaderCall.leaves : LoaderCall → List UInt8
  | .javaIn emitted true => emitted
  | _ => []

def LoaderCall.returns : LoaderCall → Bool
  | .javaIn _ throws => !throws
  | .javaOut _ => false

theorem serializer_accepts_iff (o : WeaverObjectLoader) (calls : List LoaderCall) : serializer.Accepts o calls ↔
    (o.outWell = [] ∨ ∀ d ∈ calls, d.returns = false) ∧
      calls.Pairwise fun c d => c.leaves = [] ∨ d.returns = false := by
  induction calls generalizing o with
  | nil => simp [serializer.accepts_nil]
  | cons c calls ih =>
    rw [serializer.accepts_cons, ih, pairwise_cons, forall_mem_cons]
    cases c with
    | javaOut input => simp [serializer, WeaverObjectLoader.javaOut, LoaderCall.leaves, LoaderCall.returns]
    | javaIn emitted throws =>
      cases throws with
      | false => simp [serializer, WeaverObjectLoader.javaIn, LoaderCall.leaves, LoaderCall.returns]
      | true =>
        by_cases hnone : emitted = [] <;>
          simp [serializer, WeaverObjectLoader.javaIn, LoaderCall.leaves, LoaderCall.returns, hnone]
        tauto

/-- **Serializer.** A call returns its own bytes only, iff no earlier one has left some. -/
theorem returned_alone_iff (header : List UInt8) (calls : List LoaderCall) :
    serializer.Accepts (newLoader header) calls ↔
      calls.Pairwise fun c d => c.leaves = [] ∨ d.returns = false := by
  rw [serializer_accepts_iff]
  exact and_iff_right (.inl rfl)

theorem failed_bytes_returned : ¬ serializer.Accepts (newLoader []) [.javaIn [115] true, .javaIn [116] false] := by
  intro h
  have hlast : ∀ bytes ∈ some [115, 116], bytes = [(116 : UInt8)] := h [.javaIn [115] true] (.javaIn [116] false) [] rfl
  cases hlast _ rfl

end WeaverDB.Java
