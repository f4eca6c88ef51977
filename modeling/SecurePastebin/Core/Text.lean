import Mathlib

/-!
# Byte strings, hexadecimal and decimal text

Texts are byte strings, as in Go: they need not be valid UTF-8.  The printers
below are the ones identifiers, digests, timestamps and integers go through,
and each comes with the reader that recovers its argument.
-/

namespace SecurePastebin.Text

abbrev Bytes := List UInt8

instance : LawfulBEq Bytes := inferInstance

/-- The bytes of an ASCII literal. -/
def ascii (text : String) : Bytes :=
  text.toList.map fun char => char.toNat.toUInt8

/-! ## Hexadecimal -/

/-- Lowercase digit of a value below sixteen. -/
def hexDigit (value : UInt8) : UInt8 :=
  if value < 10 then 48 + value else 87 + value

/-- Value of a hexadecimal digit of either case. -/
def hexValue (digit : UInt8) : Option UInt8 :=
  if 48 ≤ digit ∧ digit ≤ 57 then some (digit - 48)
  else if 97 ≤ digit ∧ digit ≤ 102 then some (digit - 87)
  else if 65 ≤ digit ∧ digit ≤ 70 then some (digit - 55)
  else none

def hexByte (byte : UInt8) : Bytes := [hexDigit (byte / 16), hexDigit (byte % 16)]

/-- Two digits, the more significant one first. -/
def byteOfHex (high low : UInt8) : Option UInt8 :=
  match hexValue high, hexValue low with
  | some first, some second => some (first * 16 + second)
  | _, _ => none

def hexEncode (bytes : Bytes) : Bytes := bytes.flatMap hexByte

@[simp]
theorem byteOfHex_hexDigit (byte : UInt8) :
    byteOfHex (hexDigit (byte / 16)) (hexDigit (byte % 16)) = some byte := by
  revert byte
  decide +kernel

@[simp]
theorem length_hexEncode (bytes : Bytes) : (hexEncode bytes).length = 2 * bytes.length := by
  induction bytes with
  | nil => rfl
  | cons byte bytes ih =>
      simp only [hexEncode, List.flatMap_cons, List.length_append, List.length_cons] at *
      simp only [hexByte, List.length_cons, List.length_nil, ih]
      omega

/-- Read pairs of digits. -/
def hexDecode : Bytes → Option Bytes
  | [] => some []
  | [_] => none
  | high :: low :: rest =>
      match byteOfHex high low, hexDecode rest with
      | some byte, some bytes => some (byte :: bytes)
      | _, _ => none

@[simp]
theorem hexDecode_hexEncode (bytes : Bytes) : hexDecode (hexEncode bytes) = some bytes := by
  induction bytes with
  | nil => rfl
  | cons byte bytes ih =>
      change hexDecode (hexDigit (byte / 16) :: hexDigit (byte % 16) :: hexEncode bytes) = _
      simp only [hexDecode, byteOfHex_hexDigit, ih]

theorem hexEncode_injective : Function.Injective hexEncode := by
  intro left right heq
  have hdecode := congrArg hexDecode heq
  simpa using hdecode

/-! ## Decimal -/

def digitByte (digit : ℕ) : UInt8 := (48 + digit).toUInt8

def isDigit (byte : UInt8) : Bool := 48 ≤ byte && byte ≤ 57

def digitValue (byte : UInt8) : ℕ := byte.toNat - 48

/-- Decimal digits of `value`, padded with leading zeros to `width`. -/
def padded (width value : ℕ) : Bytes :=
  let digits := (Nat.digits 10 value).reverse.map digitByte
  List.replicate (width - digits.length) 48 ++ digits

/-- `time.appendInt`: the sign, then the magnitude padded to `width`. -/
def appendInt (value : ℤ) (width : ℕ) : Bytes :=
  if value < 0 then 45 :: padded width value.natAbs else padded width value.natAbs

/-- `strconv.FormatInt(value, 10)`. -/
def formatInt (value : ℤ) : Bytes := appendInt value 1

/-- Value of a digit string. -/
def digitsValue (digits : Bytes) : ℕ := Nat.ofDigits 10 (digits.map digitValue).reverse

private theorem digitByte_spec :
    ∀ digit < 10, isDigit (digitByte digit) = true ∧ digitValue (digitByte digit) = digit := by
  decide

@[simp]
theorem digitsValue_padded (width value : ℕ) : digitsValue (padded width value) = value := by
  have hdigits : ((Nat.digits 10 value).map fun digit => digitValue (digitByte digit)) =
      Nat.digits 10 value := by
    conv_rhs => rw [← List.map_id (Nat.digits 10 value)]
    apply List.map_congr_left
    intro digit hdigit
    exact (digitByte_spec digit (Nat.digits_lt_base (by omega) hdigit)).2
  have hmap : (padded width value).map digitValue =
      List.replicate (width - (Nat.digits 10 value).length) 0 ++
        (Nat.digits 10 value).reverse := by
    have hzero : digitValue 48 = 0 := by decide
    simp only [padded, List.map_append, List.map_replicate, hzero, List.map_map,
      List.length_map, List.length_reverse]
    rw [Function.comp_def, List.map_reverse, hdigits]
  rw [digitsValue, hmap, List.reverse_append, List.reverse_reverse, List.reverse_replicate,
    Nat.ofDigits_append_replicate_zero, Nat.ofDigits_digits]

theorem padded_injective (width : ℕ) : Function.Injective (padded width) := by
  intro left right heq
  have hvalue := congrArg digitsValue heq
  simpa using hvalue

theorem isDigit_of_mem_padded {width value : ℕ} {byte : UInt8}
    (hbyte : byte ∈ padded width value) : isDigit byte = true := by
  simp only [padded, List.mem_append, List.mem_replicate, List.mem_map, List.mem_reverse] at hbyte
  rcases hbyte with ⟨-, rfl⟩ | ⟨digit, hdigit, rfl⟩
  · decide
  · exact (digitByte_spec digit (Nat.digits_lt_base (by omega) hdigit)).1

theorem le_length_padded (width value : ℕ) : width ≤ (padded width value).length := by
  simp only [padded, List.length_append, List.length_replicate]
  omega

/-- A value that fits the width is printed with exactly that many digits. -/
theorem length_padded_of_lt {width value : ℕ} (hvalue : value < 10 ^ width) :
    (padded width value).length = width := by
  have hdigits : (Nat.digits 10 value).length ≤ width :=
    (Nat.digits_length_le_iff (by omega) value).mpr hvalue
  simp only [padded, List.length_append, List.length_replicate, List.length_map,
    List.length_reverse]
  omega

theorem padded_head_ne_minus {width value : ℕ} {rest : Bytes} :
    padded width value ≠ 45 :: rest := by
  intro heq
  have hmem : (45 : UInt8) ∈ padded width value := by simp [heq]
  have := isDigit_of_mem_padded hmem
  revert this
  decide

theorem appendInt_injective (width : ℕ) : Function.Injective (appendInt · width) := by
  intro left right heq
  simp only [appendInt] at heq
  by_cases hleft : left < 0 <;> by_cases hright : right < 0 <;>
    simp only [hleft, hright, if_true, if_false] at heq
  · have := padded_injective width (List.cons.inj heq).2
    omega
  · exact absurd heq.symm padded_head_ne_minus
  · exact absurd heq padded_head_ne_minus
  · have := padded_injective width heq
    omega

/-- The int64 range. -/
def FitsInt64 (value : ℤ) : Prop := -(2 ^ 63) ≤ value ∧ value < 2 ^ 63

instance (value : ℤ) : Decidable (FitsInt64 value) :=
  inferInstanceAs (Decidable (_ ∧ _))

private def parseMagnitude (digits : Bytes) : Option ℕ :=
  if digits ≠ [] ∧ digits.all isDigit then some (digitsValue digits) else none

private def signed (text : Bytes) : Option ℤ :=
  match text with
  | [] => none
  | sign :: rest =>
      if sign = 45 then (parseMagnitude rest).map fun value => -Int.ofNat value
      else if sign = 43 then (parseMagnitude rest).map Int.ofNat
      else (parseMagnitude (sign :: rest)).map Int.ofNat

/-- `strconv.ParseInt(text, 10, 64)`: an optional sign and decimal digits,
rejected when the value does not fit. -/
def parseInt64 (text : Bytes) : Option ℤ :=
  match signed text with
  | some value => if FitsInt64 value then some value else none
  | none => none

private theorem parseMagnitude_padded (width : ℕ) (hwidth : 0 < width) (value : ℕ) :
    parseMagnitude (padded width value) = some value := by
  have hne : padded width value ≠ [] := by
    intro hnil
    have := le_length_padded width value
    rw [hnil] at this
    simp at this
    omega
  have hall : (padded width value).all isDigit = true := by
    rw [List.all_eq_true]
    intro byte hbyte
    exact isDigit_of_mem_padded hbyte
  rw [parseMagnitude, if_pos ⟨hne, hall⟩, digitsValue_padded]

private theorem signed_formatInt (value : ℤ) : signed (formatInt value) = some value := by
  by_cases hneg : value < 0
  · have hmagnitude : -Int.ofNat value.natAbs = value := by
      simp only [Int.ofNat_eq_natCast]
      omega
    simp only [formatInt, appendInt, hneg, if_true, signed,
      parseMagnitude_padded 1 (by omega), Option.map_some, hmagnitude]
  · have hmagnitude : Int.ofNat value.natAbs = value := by
      simp only [Int.ofNat_eq_natCast]
      omega
    simp only [formatInt, appendInt, hneg, if_false]
    have hparse := parseMagnitude_padded 1 (by omega) value.natAbs
    cases hdigits : padded 1 value.natAbs with
    | nil => simp [hdigits, parseMagnitude] at hparse
    | cons digit rest =>
        have hdigit : isDigit digit = true := isDigit_of_mem_padded
          (show digit ∈ padded 1 value.natAbs by simp [hdigits])
        have hminus : digit ≠ 45 := by
          rintro rfl
          revert hdigit
          decide
        have hplus : digit ≠ 43 := by
          rintro rfl
          revert hdigit
          decide
        rw [hdigits] at hparse
        simp only [signed, hminus, hplus, if_false, hparse, Option.map_some, hmagnitude]

/-- Printing and reading an int64 is the identity. -/
theorem parseInt64_formatInt {value : ℤ} (hfits : FitsInt64 value) :
    parseInt64 (formatInt value) = some value := by
  simp only [parseInt64, signed_formatInt, if_pos hfits]

/-- `text` is written as the decimal integer `value`, of any size. -/
inductive Decimal : Bytes → ℤ → Prop
  | plain {digits : Bytes} (hne : digits ≠ []) (hdigits : ∀ digit ∈ digits, isDigit digit = true) :
      Decimal digits (digitsValue digits)
  | plus {digits : Bytes} (hne : digits ≠ []) (hdigits : ∀ digit ∈ digits, isDigit digit = true) :
      Decimal (43 :: digits) (digitsValue digits)
  | minus {digits : Bytes} (hne : digits ≠ []) (hdigits : ∀ digit ∈ digits, isDigit digit = true) :
      Decimal (45 :: digits) (-digitsValue digits)

private theorem parseMagnitude_eq_some {digits : Bytes} {value : ℕ} :
    parseMagnitude digits = some value ↔
      digits ≠ [] ∧ (∀ digit ∈ digits, isDigit digit = true) ∧ value = digitsValue digits := by
  rw [parseMagnitude, ← List.all_eq_true]
  split_ifs with hdigits
  · simp [hdigits.1, hdigits.2, eq_comm]
  · simpa using fun hne hall => absurd ⟨hne, List.all_eq_true.mpr hall⟩ hdigits

private theorem ne_sign_of_isDigit {byte : UInt8} (hdigit : isDigit byte = true) :
    byte ≠ 45 ∧ byte ≠ 43 := by
  constructor <;> rintro rfl <;> revert hdigit <;> decide

private theorem signed_eq_some {text : Bytes} {value : ℤ} :
    signed text = some value ↔ Decimal text value := by
  constructor
  · intro hsigned
    unfold signed at hsigned
    split at hsigned
    · cases hsigned
    · split_ifs at hsigned with hminus hplus
      all_goals
        obtain ⟨magnitude, hmagnitude, rfl⟩ := Option.map_eq_some_iff.mp hsigned
        obtain ⟨hne, hdigits, rfl⟩ := parseMagnitude_eq_some.mp hmagnitude
      · exact hminus ▸ .minus hne hdigits
      · exact hplus ▸ .plus hne hdigits
      · exact .plain hne hdigits
  · rintro (⟨hne, hdigits⟩ | ⟨hne, hdigits⟩ | ⟨hne, hdigits⟩)
    all_goals have hmagnitude := parseMagnitude_eq_some.mpr ⟨hne, hdigits, rfl⟩
    · cases text with
      | nil => exact absurd rfl hne
      | cons digit rest =>
          obtain ⟨hminus, hplus⟩ := ne_sign_of_isDigit (hdigits digit (by simp))
          simp [signed, hminus, hplus, hmagnitude]
    · simp [signed, hmagnitude]
    · simp [signed, hmagnitude]

/-- A text is written as one integer only. -/
theorem Decimal.unique {text : Bytes} {value other : ℤ} (hvalue : Decimal text value)
    (hother : Decimal text other) : value = other := by
  have hsome := signed_eq_some.mpr hvalue
  rw [signed_eq_some.mpr hother] at hsome
  exact (Option.some.inj hsome).symm

/-- What is read is what is written, if that fits; everything else is refused. -/
theorem parseInt64_eq_some {text : Bytes} {value : ℤ} :
    parseInt64 text = some value ↔ Decimal text value ∧ FitsInt64 value := by
  rw [← signed_eq_some, parseInt64]
  split
  · rename_i found hfound
    simp only [hfound, Option.some.injEq]
    split_ifs with hfits
    · constructor
      · rintro ⟨⟩
        exact ⟨rfl, hfits⟩
      · rintro ⟨rfl, -⟩
        rfl
    · simpa using fun heq => heq ▸ hfits
  · rename_i hnone
    simp [hnone]

/-- Digits alone are read as their value. -/
theorem parseInt64_digits {digits : Bytes} (hne : digits ≠ [])
    (hdigits : ∀ digit ∈ digits, isDigit digit = true) {value : ℤ} :
    parseInt64 digits = some value ↔ value = digitsValue digits ∧ value < 2 ^ 63 := by
  rw [parseInt64_eq_some]
  constructor
  · rintro ⟨hdecimal, -, hlt⟩
    exact ⟨hdecimal.unique (.plain hne hdigits), hlt⟩
  · rintro ⟨rfl, hlt⟩
    exact ⟨.plain hne hdigits, by omega, hlt⟩

end SecurePastebin.Text
