import Mathlib.Data.List.Basic

/-! # The text form of Java values (`WeaverObjectLoader.java`, `utils/adt/java.c`)

`java_text_out` writes the class and, in parentheses, what `toString` gives, but `java_text_in` takes a
text apart only if it begins with `L` and ends with `;`.
-/

namespace WeaverDB.Java

def units (s : String) : List UInt16 := s.toList.map fun c => c.toNat.toUInt16

/-- `newInstance` is `Class.forName` and the constructor from a string, which may raise an exception. -/
structure Objects (Obj : Type) where
  className : Obj → List UInt16
  toString : Obj → List UInt16
  string : List UInt16 → Obj
  newInstance : List UInt16 → List UInt16 → Option Obj
  toString_string : ∀ s, toString (string s) = s

section

variable {Obj : Type} (J : Objects Obj)

def trim (s : List UInt16) : List UInt16 := ((s.dropWhile (· ≤ 32)).reverse.dropWhile (· ≤ 32)).reverse

def javaTextIn (input : List UInt16) : Option Obj := do
  let first ← input.head?
  let last ← input.getLast?
  if first = 76 ∧ last = 59 then
    let br ← input.findIdx? (· == 40)
    let name := trim (input.take br)
    let arg := trim (input.drop br)
    if arg.length < 3 then none
    else J.newInstance name ((arg.take (arg.length-2)).drop 1)
  else some (J.string input)

def javaTextOut (obj : Obj) : List UInt16 := J.className obj ++ [40] ++ J.toString obj ++ [41]

def utfLength (s : List UInt16) : Nat :=
  s.foldr (fun u n => (if 0 < u ∧ u < 128 then 1 else if u < 2048 then 2 else 3) + n) 0

/-- `GetStringUTFRegion` is asked for as many units as the UTF-8 form has bytes, which may fail. -/
def javatextout (obj : Obj) : Option (List UInt16) :=
  let result := javaTextOut J obj
  if result.length < utfLength result then none else some result

def textRoundTrip (obj : Obj) : Option Obj := (javatextout J obj).bind (javaTextIn J)

theorem javaTextIn_javaTextOut (obj : Obj) :
    javaTextIn J (javaTextOut J obj) = some (J.string (javaTextOut J obj)) := by
  have hlast : (javaTextOut J obj).getLast? = some 41 := by rw [javaTextOut, List.getLast?_concat]
  obtain ⟨first, hfirst⟩ : ∃ first, (javaTextOut J obj).head? = some first := by
    cases hhead : (javaTextOut J obj).head? with
    | none => cases (List.head?_eq_none_iff.mp hhead ▸ hlast : [].getLast? = some (41 : UInt16))
    | some first => exact ⟨first, rfl⟩
  rw [javaTextIn, hfirst, hlast]
  exact if_neg fun h => absurd h.2 (by decide)

/-- **No object comes back.** What is read is the string that was written, which is longer than the
string of any object. -/
theorem text_round_trip_fails (obj : Obj) : textRoundTrip J obj ≠ some obj := by
  intro h
  obtain ⟨text, htext, hread⟩ := Option.bind_eq_some_iff.mp h
  unfold javatextout at htext
  dsimp only at htext
  split at htext
  · cases htext
  · cases htext
    rw [javaTextIn_javaTextOut, Option.some_inj] at hread
    have hlength := congrArg (fun o => (J.toString o).length) hread
    rw [J.toString_string, javaTextOut] at hlength
    simp only [List.length_append, List.length_cons] at hlength
    omega

end

inductive SampleObject where
  | string (s : List UInt16)
  | integer (n : Nat)
deriving DecidableEq

def sampleObjects : Objects SampleObject where
  className
    | .string _ => units "java.lang.String"
    | .integer _ => units "java.lang.Integer"
  toString
    | .string s => s
    | .integer n => [48+n.toUInt16]
  string := .string
  newInstance name arg :=
    if name = units "java.lang.String" then some (.string arg)
    else if name = units "java.lang.Integer" then arg.head?.map fun u => .integer (u-48).toNat
    else none
  toString_string _ := rfl

theorem integer_read_as_string :
    sampleObjects.newInstance (units "java.lang.Integer") (units "5") = some (.integer 5) ∧
      textRoundTrip sampleObjects (.integer 5) = some (.string (units "java.lang.Integer(5)")) := by
  decide

end WeaverDB.Java
