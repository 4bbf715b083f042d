import WeaverDB.Java.Agreement

/-! # The transfer types of the direct connector (`TransferType.java`)

Every class has a writer into a memory segment and a reader from it. `BOOLEAN` does not read its own
code, `BYTE` casts to `Character`, `Double` is not in the table, and `STRING` returns the number of
UTF-16 units for that of the bytes.
-/

namespace WeaverDB.Java
open Foundations List

/-- The values that are transferred; numbers by their bits, strings by their Unicode characters. -/
inductive Boxed where
  | boolean (z : Bool)
  | byte (x : BitVec 8)
  | short (x : BitVec 16)
  | character (x : BitVec 16)
  | integer (x : BitVec 32)
  | float (x : BitVec 32)
  | long (x : BitVec 64)
  | double (x : BitVec 64)
  | string (s : List Char)
  | date (time : BitVec 64)

inductive TransferType where
  | boolean | byte | short | char | integer | float | long | double | string | date

namespace TransferType

/-- `TransferType.type` of the class of the value, by the table `types`. -/
def type : Boxed → Option TransferType
  | .boolean _ => some .boolean
  | .byte _ => some .byte
  | .character _ => some .char
  | .short _ => some .short
  | .integer _ => some .integer
  | .float _ => some .float
  | .long _ => some .long
  | .double _ => none
  | .string _ => some .string
  | .date _ => some .date

def getType : TransferType → Int
  | .boolean => 16
  | .byte => 18
  | .short | .char => 21
  | .integer => 23
  | .float => 700
  | .long => 20
  | .double => 701
  | .string => 1043
  | .date => 1184

def bytes : Boxed → List UInt8
  | .boolean z => leBytes 1 z.toNat
  | .byte x => leBytes 1 x.toNat
  | .short x | .character x => leBytes 2 x.toNat
  | .integer x | .float x => leBytes 4 x.toNat
  | .long x | .double x | .date x => leBytes 8 x.toNat
  | .string s => s.flatMap String.utf8EncodeChar

def put (n : Nat) (bytes val : List UInt8) : Except String (Nat × List UInt8) :=
  if bytes.length ≤ val.length then .ok (n, overwrite val 0 bytes)
  else .error "IndexOutOfBoundsException"

def length (s : List Char) : Nat := s.foldr (fun c n => (if c.val ≤ 0xffff then 1 else 2) + n) 0

def write (t : TransferType) (value : Boxed) (val : List UInt8) : Except String (Nat × List UInt8) :=
  match t, value with
  | .boolean, .boolean _ => put 1 (bytes value) val
  | .byte, .character _ | .short, .short _ | .char, .character _ => put 2 (bytes value) val
  | .integer, .integer _ | .float, .float _ => put 4 (bytes value) val
  | .long, .long _ | .double, .double _ | .date, .date _ => put 8 (bytes value) val
  | .string, .string s => put (length s) (bytes value ++ [0]) val
  | _, _ => .error "ClassCastException"

/-- `val.get` of a layout of `k` bytes, if the code is one that is read so. -/
def get (k : Nat) (codes : List Int) (box : Nat → Boxed) (type : Int) (val : List UInt8) :
    Except String Boxed :=
  if type ∉ codes then .error "unable to convert"
  else if val.length < k then .error "IndexOutOfBoundsException"
  else .ok (box (leValue (val.take k)))

variable (malformed : List UInt8 → List Char)

/-- `new String` of the bytes; `malformed` are the replacements if they are not UTF-8. -/
def newString (val : List UInt8) : List Char :=
  match val.toByteArray.utf8Decode? with
  | some s => s.toList
  | none => malformed val

def read (t : TransferType) (type : Int) (val : List UInt8) : Except String Boxed :=
  match t with
  | .boolean =>
    let k := if type = 18 then 1 else if type = 21 then 2 else 4
    get k [18, 21, 23] (fun n => .boolean (n != 0)) type val
  | .byte => get 2 [18] (fun n => .character (.ofNat 16 n)) type val
  | .short => get 2 [21] (fun n => .short (.ofNat 16 n)) type val
  | .char => get 2 [21] (fun n => .character (.ofNat 16 n)) type val
  | .integer => get 4 [23] (fun n => .integer (.ofNat 32 n)) type val
  | .float => get 4 [700] (fun n => .float (.ofNat 32 n)) type val
  | .long => get 8 [20] (fun n => .long (.ofNat 64 n)) type val
  | .double => get 8 [701] (fun n => .double (.ofNat 64 n)) type val
  | .string => get 0 [1043] (fun _ => .string (newString malformed val)) type val
  | .date => get 8 [1184, 20] (fun n => .date (.ofNat 64 n)) type val

/-- In a large enough zeroed segment the reader finds what was written. -/
def Inverse (v : Boxed) : Prop :=
  ∃ t, type v = some t ∧ ∀ size, (bytes v).length < size → ∃ val,
    t.write v (List.replicate size 0) = .ok ((bytes v).length, val) ∧
      t.read malformed t.getType (val.take (bytes v).length) = .ok v

theorem put_spec (k : Nat) {n : Nat} {a b : List UInt8} (h : (a ++ b).length ≤ n) :
    ∃ val, put k (a ++ b) (List.replicate n 0) = .ok (k, val) ∧ val.take a.length = a := by
  refine ⟨_, if_pos (by rwa [length_replicate]), ?_⟩
  rw [overwrite, take_zero, nil_append, append_assoc, take_left]

variable {malformed}

theorem inverse_of_number {t : TransferType} {codes : List Int} (k : Nat)
    (box : BitVec (8*k) → Boxed) (x : BitVec (8*k)) (ht : type (box x) = some t)
    (hbytes : bytes (box x) = leBytes k x.toNat) (hwrite : t.write (box x) = put k (bytes (box x)))
    (hread : t.read malformed = get k codes fun n => box (.ofNat _ n)) (hcode : t.getType ∈ codes) :
    Inverse malformed (box x) := by
  have hlength : (bytes (box x)).length = k := by rw [hbytes, length_leBytes]
  refine ⟨t, ht, fun size hsize => ?_⟩
  obtain ⟨val, hput, htake⟩ := put_spec k (n := size) (a := bytes (box x)) (b := []) (by simp; omega)
  rw [append_nil] at hput
  refine ⟨val, by rw [hwrite, hput, hlength], ?_⟩
  rw [htake, hread, get, if_neg (not_not_intro hcode), if_neg (by omega),
    take_of_length_le (by omega), hbytes, ofNat_leValue k (pow_mul 2 8 k).symm]

theorem utf16_le_utf8 (c : Char) : (if c.val ≤ 0xffff then 1 else 2) ≤ c.utf8Size ∧
      ((if c.val ≤ 0xffff then 1 else 2) = c.utf8Size ↔ c.val ≤ 127) := by
  rw [Char.utf8Size]
  split <;> split <;> grind

variable (s : List Char)

theorem length_spec : length s ≤ (bytes (.string s)).length ∧
    (length s = (bytes (.string s)).length ↔ ∀ c ∈ s, c.val ≤ 127) := by
  induction s with
  | nil => simp [length, bytes]
  | cons c s ih =>
    have hc := utf16_le_utf8 c
    rw [forall_mem_cons, ← hc.2, ← ih.2, bytes, flatMap_cons, length_append, String.length_utf8EncodeChar]
    change _ + length s ≤ _ + (bytes (.string s)).length ∧ (_ + length s = _ + (bytes (.string s)).length ↔ _)
    omega

theorem newString_bytes : newString malformed (bytes (.string s)) = s := by
  have hdecode : (bytes (.string s)).toByteArray.utf8Decode? = some s.toArray := List.utf8Decode?_utf8Encode
  rw [newString, hdecode]

theorem inverse_string_iff : Inverse malformed (.string s) ↔ ∀ c ∈ s, c.val ≤ 127 := by
  rw [← (length_spec s).2]
  constructor
  · rintro ⟨t, ht, h⟩
    cases ht
    obtain ⟨val, hwrite, -⟩ := h _ (Nat.lt_succ_self _)
    obtain ⟨val, hput, -⟩ := put_spec (length s) length_append.le
    exact (Prod.mk.inj (Except.ok.inj (hput.symm.trans hwrite))).1
  · refine fun h => ⟨.string, rfl, fun size hsize => ?_⟩
    obtain ⟨val, hput, htake⟩ := put_spec (length s) (n := size) (a := bytes (.string s)) (b := [0])
      (by rw [length_append]; exact hsize)
    refine ⟨val, h ▸ hput, ?_⟩
    rw [htake]
    exact congrArg (fun s => Except.ok (Boxed.string s)) (newString_bytes s)

/-- **Transfer types.** Writer and reader are inverse for six types of numbers and the ASCII strings. -/
theorem inverse_iff (malformed : List UInt8 → List Char) (v : Boxed) :
    Inverse malformed v ↔ match v with
    | .boolean _ | .byte _ | .double _ => False
    | .string s => ∀ c ∈ s, c.val ≤ 127
    | _ => True := by
  cases v with
  | boolean z =>
    refine iff_of_false (fun ⟨t, ht, h⟩ => ?_) id
    cases ht
    obtain ⟨val, -, hread⟩ := h _ (Nat.lt_succ_self _)
    nomatch hread
  | byte x =>
    refine iff_of_false (fun ⟨t, ht, h⟩ => ?_) id
    cases ht
    obtain ⟨val, hwrite, -⟩ := h _ (Nat.lt_succ_self _)
    nomatch hwrite
  | double x => exact iff_of_false (fun ⟨t, ht, _⟩ => nomatch ht) id
  | string s => exact inverse_string_iff s
  | short x => exact iff_of_true (inverse_of_number 2 .short x rfl rfl rfl rfl (by decide)) trivial
  | character x =>
    exact iff_of_true (inverse_of_number 2 .character x rfl rfl rfl rfl (by decide)) trivial
  | integer x => exact iff_of_true (inverse_of_number 4 .integer x rfl rfl rfl rfl (by decide)) trivial
  | float x => exact iff_of_true (inverse_of_number 4 .float x rfl rfl rfl rfl (by decide)) trivial
  | long x => exact iff_of_true (inverse_of_number 8 .long x rfl rfl rfl rfl (by decide)) trivial
  | date x => exact iff_of_true (inverse_of_number 8 .date x rfl rfl rfl rfl (by decide)) trivial

/-- The reader refuses the code of `true`, and gets one byte of an e with an acute accent. -/
theorem boolean_not_read : write .boolean (.boolean true) [0, 0] = .ok (1, [1, 0]) ∧
      read (fun _ => []) .boolean (getType .boolean) [1] = .error "unable to convert" ∧
      write .string (.string [Char.ofNat 233]) [0, 0, 0] = .ok (1, [195, 169, 0]) :=
  ⟨rfl, rfl, rfl⟩

end TransferType

end WeaverDB.Java
