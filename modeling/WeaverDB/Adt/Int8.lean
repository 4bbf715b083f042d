import Mathlib.Tactic.Linarith

/-! # Texts of 64-bit integers

`int8in` adds up the digits and applies the sign at the end. After every digit it divides the sum by ten
to find an overflow, and the test is exact. But the magnitude of `-2^63` does not fit, so the text that
`int8out` gives for it is refused.
-/

namespace WeaverDB.Int8
open Int Nat List

def isspace (c : Char) : Bool := c = ' ' || (9 ≤ c.toNat && c.toNat ≤ 13)

def quoted (message : String) (str : List Char) : String := message ++ " \"" ++ String.ofList str ++ "\""

def badRepresentation (str : List Char) : String := quoted "Bad int8 external representation" str

def outOfRange (str : List Char) : String := quoted "int8 value out of range:" str

def digitValue (c : Char) : Int64 := .ofNat (c.toNat - '0'.toNat)

def scanDigits (str : List Char) : Int64 → List Char → Except String (Int64 × List Char)
  | tmp, [] => .ok (tmp, [])
  | tmp, c :: ptr =>
    if c.isDigit then
      let newtmp := tmp*10 + digitValue c
      if newtmp / 10 ≠ tmp then .error (outOfRange str) else scanDigits str newtmp ptr
    else .ok (tmp, c :: ptr)

def handleSign (ptr : List Char) : Bool × List Char :=
  match ptr with
  | '-' :: ptr => (true, ptr)
  | '+' :: ptr => (false, ptr)
  | ptr => (false, ptr)

/-- `none` is the null pointer. -/
def int8in (str : Option (List Char)) : Except String Int64 :=
  match str with
  | none => .error "Bad (null) int8 external representation"
  | some str =>
    let (minus, ptr) := handleSign (str.dropWhile isspace)
    if ptr.head?.all (fun c => !c.isDigit) then .error (badRepresentation str)
    else
      match scanDigits str 0 ptr with
      | .error e => .error e
      | .ok (tmp, ptr) =>
        if ptr ≠ [] then .error (badRepresentation str) else .ok (if minus then -tmp else tmp)

def maxInt8Len : Nat := 25

/-- `snprintf` with the format of a 64-bit integer keeps one place for the terminator. -/
def int8out (val : Int64) : List Char :=
  let digits := Nat.toDigits 10 val.toInt.natAbs
  (if val.toInt < 0 then '-' :: digits else digits).take (maxInt8Len-1)

/-- Blanks, a sign (`true` is minus), and at least one digit. -/
structure Numeral where
  blanks : List Char
  sign : Option Bool
  digits : List Char
  blank : ∀ c ∈ blanks, isspace c
  digit : ∀ c ∈ digits, c.isDigit
  nonempty : digits ≠ []

namespace Numeral

variable (n : Numeral)

def signText : List Char :=
  match n.sign with
  | none => []
  | some true => ['-']
  | some false => ['+']

def text : List Char := n.blanks ++ n.signText ++ n.digits

def magnitude : Nat := Nat.ofDigitChars 10 n.digits 0

def value : Int := if n.sign = some true then -n.magnitude else n.magnitude

end Numeral

theorem toNat_of_isDigit {c : Char} (h : c.isDigit) : 48 ≤ c.toNat ∧ c.toNat ≤ 57 := by
  simpa [Char.isDigit, UInt32.le_iff_toNat_le] using h

theorem digitValue_toInt {c : Char} (h : c.isDigit) : (digitValue c).toInt = (c.toNat - '0'.toNat : Nat) := by
  have hc := toNat_of_isDigit h
  rw [digitValue, Int64.toInt_ofNat_of_lt (by omega)]

theorem sum_toInt (tmp d : Int64) : (tmp*10 + d).toInt = (tmp.toInt * 10 + d.toInt).bmod (2^64) := by
  rw [Int64.toInt_add, Int64.toInt_mul, bmod_add_bmod]
  rfl

theorem tdiv_ten (x : Int) : x.tdiv 10 = if 0 ≤ x ∨ 10 ∣ x then x / 10 else x / 10 + 1 := by
  have hsign : Int.sign 10 = 1 := rfl
  rw [tdiv_eq_ediv]
  split <;> omega

theorem div_ten_toInt (a : Int64) : (a/10).toInt = a.toInt.tdiv 10 := by
  have hlt := a.toInt_lt
  have hle := a.le_toInt
  have h10 : (10 : Int64).toInt = 10 := rfl
  rw [Int64.toInt_div, h10, bmod_eq_of_le]
  · rw [tdiv_ten]
    split <;> omega
  · rw [tdiv_ten]
    split <;> omega

theorem bmod_of_nonneg {x : Int} (h : 0 ≤ x) : x < 2^63 ∧ x.bmod (2^64) = x ∨ 2^63 ≤ x ∧ x.bmod (2^64) + 2^64 ≤ x := by
  rw [bmod_def]
  split <;> omega

theorem overflow_iff (tmp d : Int64) (htmp : 0 ≤ tmp.toInt) (hd : 0 ≤ d.toInt) (hd9 : d.toInt ≤ 9) :
    (tmp*10 + d) / 10 = tmp ↔ tmp.toInt * 10 + d.toInt < 2^63 := by
  have hwrap := bmod_of_nonneg (x := tmp.toInt * 10 + d.toInt) (by omega)
  rw [← Int64.toInt_inj, div_ten_toInt, sum_toInt, tdiv_ten]
  obtain ⟨hlt, heq⟩ | ⟨hle, hless⟩ := hwrap
  · omega
  · constructor
    · intro heq
      split at heq <;> omega
    · omega

theorem le_ofDigitChars (digits : List Char) (n : Nat) : n ≤ Nat.ofDigitChars 10 digits n := by
  induction digits generalizing n with
  | nil => exact le_refl n
  | cons c rest ih =>
    have h := ih (10 * n + (c.toNat - '0'.toNat))
    rw [ofDigitChars_cons]
    omega

theorem scanDigits_spec (str digits : List Char) (hdigit : ∀ c ∈ digits, c.isDigit) (tmp : Int64)
    (n : Nat) (htmp : tmp.toInt = n) :
    scanDigits str tmp digits =
      if Nat.ofDigitChars 10 digits n < 2^63 then .ok (.ofNat (Nat.ofDigitChars 10 digits n), [])
      else .error (outOfRange str) := by
  induction digits generalizing tmp n with
  | nil =>
    have hlt := tmp.toInt_lt
    have hn : n < 2^63 := by omega
    have hval : tmp = .ofNat n := by
      rw [← Int64.toInt_inj, htmp, Int64.toInt_ofNat_of_lt hn]
    rw [ofDigitChars_nil, if_pos hn, ← hval, scanDigits]
  | cons c rest ih =>
    have hc := hdigit c (.head _)
    have hbounds := toNat_of_isDigit hc
    have h0 : '0'.toNat = 48 := rfl
    have hval := digitValue_toInt hc
    have hover := overflow_iff tmp (digitValue c) (by omega) (by omega) (by omega)
    have hle := le_ofDigitChars rest (10 * n + (c.toNat - '0'.toNat))
    rw [scanDigits, if_pos hc, ofDigitChars_cons]
    dsimp only
    split
    · next hne =>
      rw [if_neg]
      intro hlt
      exact hne (hover.mpr (by omega))
    · next heq =>
      have hlt := hover.mp (Decidable.not_not.mp heq)
      refine ih (fun c hc => hdigit c (.tail _ hc)) _ _ ?_
      rw [sum_toInt, bmod_eq_of_le] <;> omega

theorem isDigit_not_sign {c : Char} (h : c.isDigit) : isspace c = false ∧ c ≠ '-' ∧ c ≠ '+' := by
  have hc := toNat_of_isDigit h
  have hblank : c ≠ ' ' := by rintro rfl; revert hc; decide
  refine ⟨?_, ?_, ?_⟩
  · simp [isspace, hblank]
    omega
  · rintro rfl
    revert hc
    decide
  · rintro rfl
    revert hc
    decide

theorem Numeral.dropWhile_text (n : Numeral) : n.text.dropWhile isspace = n.signText ++ n.digits := by
  obtain ⟨c, rest, hdigits⟩ := exists_cons_of_ne_nil n.nonempty
  have hc := isDigit_not_sign (n.digit c (hdigits ▸ (.head _)))
  have hstop : (n.signText ++ n.digits).dropWhile isspace = n.signText ++ n.digits := by
    unfold Numeral.signText
    split
    · rw [nil_append, hdigits, dropWhile_cons, if_neg (by rw [hc.1]; decide)]
    · rfl
    · rfl
  rw [Numeral.text, append_assoc, dropWhile_append_of_pos n.blank, hstop]

theorem Numeral.handleSign_text (n : Numeral) :
    handleSign (n.signText ++ n.digits) = (decide (n.sign = some true), n.digits) := by
  obtain ⟨c, rest, hdigits⟩ := exists_cons_of_ne_nil n.nonempty
  have hc := isDigit_not_sign (n.digit c (hdigits ▸ (.head _)))
  rcases hsign : n.sign with _ | minus
  · rw [Numeral.signText, hsign, hdigits, handleSign]
    · rfl
    · rintro ptr heq
      exact hc.2.1 (List.cons.inj heq).1
    · rintro ptr heq
      exact hc.2.2 (List.cons.inj heq).1
  · cases minus <;> simp only [Numeral.signText, hsign, cons_append, nil_append, handleSign] <;> rfl

theorem int8in_text (n : Numeral) : int8in (some n.text) =
    if n.magnitude < 2^63 then
      .ok (if n.sign = some true then -.ofNat n.magnitude else .ofNat n.magnitude)
    else .error (outOfRange n.text) := by
  have hhead : n.digits.head?.all (fun c => !c.isDigit) = false := by
    obtain ⟨c, rest, hdigits⟩ := exists_cons_of_ne_nil n.nonempty
    have hc := n.digit c (hdigits ▸ (.head _))
    simp only [hdigits, List.head?_cons, Option.all_some, hc, Bool.not_true]
  have hscan := scanDigits_spec n.text n.digits n.digit 0 0 rfl
  change scanDigits n.text 0 n.digits = if n.magnitude < 2^63 then _ else _ at hscan
  rw [int8in]
  simp only [n.dropWhile_text, n.handleSign_text, hhead, Bool.false_eq_true, if_false]
  by_cases hlt : n.magnitude < 2^63
  · rw [if_pos hlt] at hscan ⊢
    simp only [hscan, ne_eq, not_true_eq_false, if_false, decide_eq_true_eq]
    rfl
  · rw [if_neg hlt] at hscan ⊢
    simp only [hscan]

def spelling (blanks : List Char) (hblank : ∀ c ∈ blanks, isspace c) (plus : Bool) (v : Int64) : Numeral where
  blanks := blanks
  sign := if v.toInt < 0 then some true else if plus then some false else none
  digits := Nat.toDigits 10 v.toInt.natAbs
  blank := hblank
  digit := fun _ hc => isDigit_of_mem_toDigits (by decide) (by decide) hc
  nonempty := toDigits_ne_nil

section

variable {blanks : List Char} (hblank : ∀ c ∈ blanks, isspace c) (plus : Bool) (v : Int64)

theorem spelling_magnitude : (spelling blanks hblank plus v).magnitude = v.toInt.natAbs := ofDigitChars_ten_toDigits

theorem int8out_eq : int8out v =
    if v.toInt < 0 then '-' :: Nat.toDigits 10 v.toInt.natAbs else Nat.toDigits 10 v.toInt.natAbs := by
  have hlt := v.toInt_lt
  have hle := v.le_toInt
  have hlen : (Nat.toDigits 10 v.toInt.natAbs).length ≤ 20 := by
    rw [length_toDigits_le_iff (by decide) (by decide)]
    omega
  refine take_of_length_le ?_
  split
  · rw [length_cons, maxInt8Len]
    omega
  · rw [maxInt8Len]
    omega

theorem spelling_text : (spelling blanks hblank plus v).text =
    blanks ++ (if plus ∧ 0 ≤ v.toInt then ['+'] else []) ++ int8out v := by
  rw [Numeral.text, Numeral.signText, int8out_eq]
  by_cases hneg : v.toInt < 0
  · have hplus : ¬ (plus ∧ 0 ≤ v.toInt) := fun h => not_le.mpr hneg h.2
    simp [spelling, if_pos hneg, if_neg hplus]
  · cases plus <;> simp [spelling, if_neg hneg, not_lt.mp hneg]

theorem spelling_plain_text : (spelling [] (forall_mem_nil _) false v).text = int8out v := by
  rw [spelling_text]
  rfl

theorem int8in_spelling : int8in (some (spelling blanks hblank plus v).text) = .ok v ↔ v ≠ .minValue := by
  have hlt := v.toInt_lt
  have hle := v.le_toInt
  have hmin : v = .minValue ↔ v.toInt = -2^63 := by
    rw [← Int64.toInt_inj, Int64.toInt_minValue]
  rw [int8in_text, spelling_magnitude, ne_eq, hmin]
  by_cases hfits : v.toInt.natAbs < 2^63
  · rw [if_pos hfits, Except.ok.injEq]
    have habs : (Int64.ofNat v.toInt.natAbs).toInt = v.toInt.natAbs := Int64.toInt_ofNat_of_lt hfits
    rw [← Int64.toInt_inj]
    by_cases hneg : v.toInt < 0
    · have hsign : (spelling blanks hblank plus v).sign = some true := by simp only [spelling, if_pos hneg]
      rw [if_pos hsign, Int64.toInt_neg, bmod_eq_of_le] <;> omega
    · have hsign : (spelling blanks hblank plus v).sign ≠ some true := by
        simp only [spelling, if_neg hneg]
        cases plus <;> decide
      rw [if_neg hsign]
      omega
  · rw [if_neg hfits]
    refine ⟨nofun, fun hne => ?_⟩
    omega

end

theorem int8in_error_iff (n : Numeral) : (∃ e, int8in (some n.text) = .error e) ↔ 2^63 ≤ n.magnitude := by
  rw [int8in_text]
  by_cases hfits : n.magnitude < 2^63
  · rw [if_pos hfits]
    exact ⟨nofun, fun hle => absurd hfits (not_lt.mpr hle)⟩
  · rw [if_neg hfits]
    exact ⟨fun _ => not_lt.mp hfits, fun _ => ⟨_, rfl⟩⟩

/-- **Integer texts.** Only the least integer does not come back, and only its text is refused wrongly. -/
theorem int8in_exact_iff (v : Int64) (n : Numeral) : ((∀ blanks plus : List Char, (∀ c ∈ blanks, isspace c) →
        (plus = [] ∨ plus = ['+'] ∧ 0 ≤ v.toInt) →
        int8in (some (blanks ++ plus ++ int8out v)) = .ok v) ↔ v ≠ Int64.minValue) ∧
    (((∃ e, int8in (some n.text) = .error e) ↔
        ¬ (-2^63 ≤ n.value ∧ n.value ≤ 2^63 - 1)) ↔ n.value ≠ -2^63) := by
  refine ⟨⟨fun h => ?_, fun h blanks plus hblank hplus => ?_⟩, ?_⟩
  · have hplain := h [] [] (forall_mem_nil _) (.inl rfl)
    exact (int8in_spelling (forall_mem_nil _) false v).mp (spelling_plain_text v ▸ hplain)
  · obtain rfl | ⟨rfl, hpos⟩ := hplus
    · have hread := (int8in_spelling hblank false v).mpr h
      rwa [spelling_text] at hread
    · have hread := (int8in_spelling hblank true v).mpr h
      rwa [spelling_text, if_pos ⟨rfl, hpos⟩] at hread
  · rw [int8in_error_iff, Numeral.value]
    split <;> omega

theorem int8in_exact_iff_blanks : int8in (some ([' ', ' '] ++ ['+'] ++ int8out 42)) = .ok 42 :=
  (int8in_exact_iff 42 (spelling [] (forall_mem_nil _) false 42)).1.mpr (by decide) [' ', ' '] ['+']
    (all_eq_true.mp rfl) (.inr ⟨rfl, by decide⟩)

theorem int8in_minValue :
    int8in (some (int8out Int64.minValue)) = .error (outOfRange (int8out Int64.minValue)) := by
  rw [← spelling_plain_text, int8in_text, if_neg (by decide)]

end WeaverDB.Int8
