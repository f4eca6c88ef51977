import SecurePastebin.Core.Calendar

/-!
# Reading instants

The text form of an instant in JSON: RFC 3339 with the fraction of a second as
far as it is not zero, and its strict reader.
-/

namespace SecurePastebin.Calendar

open Text

/-! ## Writing -/

/-- Digits without trailing zeros. -/
def trimZeros (digits : Bytes) : Bytes := (digits.reverse.dropWhile (· = 48)).reverse

def fraction (nanos : ℕ) : Bytes := if nanos = 0 then [] else 46 :: trimZeros (padded 9 nanos)

/-- Date and time of day, without fraction and zone. -/
def stamp (t : ℤ) : Bytes := (rfc3339 t).dropLast

/-- `t.UTC().Format(time.RFC3339Nano)`. -/
def rfc3339Nano (t : ℤ) : Bytes := stamp t ++ fraction (t % second).toNat ++ [90]

example : rfc3339Nano 1789084800120000000 = ascii "2026-09-11T00:00:00.12Z" := by decide

/-! ## Reading -/

/-- A decimal number within bounds. -/
def number (low high : ℤ) (digits : Bytes) : Option ℤ :=
  if digits.all isDigit ∧ low ≤ digitsValue digits ∧ digitsValue digits ≤ high then
    some (digitsValue digits)
  else none

/-- Nanoseconds, and the text after them; digits beyond the ninth are dropped. -/
def readFraction : Bytes → ℕ × Bytes
  | 46 :: text =>
      let digits := text.takeWhile isDigit
      if digits = [] then (0, 46 :: text)
      else (digitsValue (digits.take 9) * 10 ^ (9 - digits.length), text.dropWhile isDigit)
  | text => (0, text)

/-- Seconds east of UTC. -/
def readZone : Bytes → Option ℤ
  | [90] => some 0
  | [sign, a, b, 58, c, d] => do
      let hours ← number 0 23 [a, b]
      let minutes ← number 0 59 [c, d]
      if sign = 43 then return (hours * 60 + minutes) * 60
      else if sign = 45 then return -((hours * 60 + minutes) * 60)
      else none
  | _ => none

/-- The strict reader of `time.Time`. -/
def readTime : Bytes → Option ℤ
  | y1 :: y2 :: y3 :: y4 :: 45 :: m1 :: m2 :: 45 :: d1 :: d2 :: 84 :: h1 :: h2 :: 58 :: i1 :: i2 ::
      58 :: s1 :: s2 :: text => do
      let year ← number 0 9999 [y1, y2, y3, y4]
      let month ← number 1 12 [m1, m2]
      let day ← number 1 (daysIn month year) [d1, d2]
      let hour ← number 0 23 [h1, h2]
      let minute ← number 0 59 [i1, i2]
      let sec ← number 0 59 [s1, s2]
      let (nanos, text) := readFraction text
      let offset ← readZone text
      return (daysOf ⟨year, month, day⟩ * 86400 + hour * 3600 + minute * 60 + sec - offset) * second +
        nanos
  | _ => none

/-! ## Round trip -/

theorem number_appendInt {value low high : ℤ} (width : ℕ) (hnonneg : 0 ≤ value) (hlow : low ≤ value)
    (hhigh : value ≤ high) : number low high (appendInt value width) = some value := by
  have hdigits : (padded width value.natAbs).all isDigit = true := by
    rw [List.all_eq_true]
    exact fun byte hbyte => isDigit_of_mem_padded hbyte
  rw [appendInt, if_neg (not_lt.mpr hnonneg), number, digitsValue_padded, if_pos]
  · rw [Int.natAbs_of_nonneg hnonneg]
  · rw [Int.natAbs_of_nonneg hnonneg]
    exact ⟨hdigits, hlow, hhigh⟩

theorem length_appendInt {value : ℤ} (width : ℕ) (hnonneg : 0 ≤ value)
    (hfits : value.natAbs < 10 ^ width) : (appendInt value width).length = width := by
  rw [appendInt, if_neg (not_lt.mpr hnonneg), length_padded_of_lt hfits]

/-- The year is one that JSON can carry. -/
def Writable (t : ℤ) : Prop :=
  0 ≤ (civil (unix t / 86400)).year ∧ (civil (unix t / 86400)).year ≤ 9999

instance (t : ℤ) : Decidable (Writable t) := inferInstanceAs (Decidable (_ ∧ _))

theorem trimZeros_append (digits : Bytes) :
    ∃ count, digits = trimZeros digits ++ List.replicate count 48 := by
  refine ⟨(digits.reverse.takeWhile (· = 48)).length, ?_⟩
  have hzeros : digits.reverse.takeWhile (· = 48) =
      List.replicate (digits.reverse.takeWhile (· = 48)).length 48 := by
    rw [List.eq_replicate_length]
    intro byte hbyte
    simpa using List.mem_takeWhile_imp hbyte
  have hsplit := List.takeWhile_append_dropWhile (p := (· = 48)) (l := digits.reverse)
  rw [trimZeros, ← List.reverse_inj, List.reverse_append, List.reverse_replicate,
    List.reverse_reverse, ← hzeros, hsplit]

theorem digitsValue_append_zeros (digits : Bytes) (count : ℕ) :
    digitsValue (digits ++ List.replicate count 48) = digitsValue digits * 10 ^ count := by
  have hzero : digitValue 48 = 0 := by decide
  rw [digitsValue, digitsValue, List.map_append, List.map_replicate, hzero, List.reverse_append,
    List.reverse_replicate, Nat.ofDigits_append, Nat.ofDigits_replicate_zero, List.length_replicate]
  ring

theorem readFraction_fraction {nanos : ℕ} (hnanos : nanos < 10 ^ 9) :
    readFraction (fraction nanos ++ [90]) = (nanos, [90]) := by
  by_cases hzero : nanos = 0
  · subst hzero
    decide
  · obtain ⟨count, hsplit⟩ := trimZeros_append (padded 9 nanos)
    have hlength := congrArg List.length hsplit
    rw [length_padded_of_lt hnanos, List.length_append, List.length_replicate] at hlength
    have hvalue := congrArg digitsValue hsplit
    rw [digitsValue_padded, digitsValue_append_zeros] at hvalue
    have hdigits : ∀ byte ∈ trimZeros (padded 9 nanos), isDigit byte = true := by
      intro byte hbyte
      have hmem : byte ∈ padded 9 nanos := by
        rw [hsplit]
        exact List.mem_append_left _ hbyte
      exact isDigit_of_mem_padded hmem
    have hne : trimZeros (padded 9 nanos) ≠ [] := by
      intro hnil
      rw [hnil] at hvalue
      exact hzero (by simpa [digitsValue] using hvalue)
    have hend : isDigit 90 = false := by decide
    have htake : (trimZeros (padded 9 nanos) ++ [90]).takeWhile isDigit =
        trimZeros (padded 9 nanos) := by
      rw [List.takeWhile_append_of_pos hdigits]
      simp [hend]
    have hdrop : (trimZeros (padded 9 nanos) ++ [90]).dropWhile isDigit = [90] := by
      rw [List.dropWhile_append_of_pos hdigits]
      simp [hend]
    have hcount : 9 - (trimZeros (padded 9 nanos)).length = count := by omega
    simp only [fraction, if_neg hzero, List.cons_append, readFraction, htake, hdrop, if_neg hne,
      hcount]
    rw [List.take_of_length_le (by omega), ← hvalue]

theorem stamp_eq (t : ℤ) :
    stamp t = appendInt (civil (unix t / 86400)).year 4 ++
      (45 :: appendInt (civil (unix t / 86400)).month 2 ++
        45 :: appendInt (civil (unix t / 86400)).day 2 ++
        84 :: appendInt (unix t % 86400 / 3600) 2 ++
        58 :: appendInt (unix t % 86400 % 3600 / 60) 2 ++
        58 :: appendInt (unix t % 86400 % 60) 2) := by
  simp only [stamp, rfc3339, ← List.append_assoc, List.dropLast_concat]

private theorem ascii_of_mem_appendInt {value : ℤ} {width : ℕ} {byte : UInt8}
    (hbyte : byte ∈ appendInt value width) : byte < 0x80 := by
  have hdigit : ∀ digit : UInt8, isDigit digit = true → digit < 0x80 := by decide +kernel
  unfold appendInt at hbyte
  split at hbyte
  · rcases List.mem_cons.mp hbyte with rfl | hdigits
    · decide
    · exact hdigit byte (isDigit_of_mem_padded hdigits)
  · exact hdigit byte (isDigit_of_mem_padded hbyte)

private theorem ascii_of_mem_fraction {nanos : ℕ} {byte : UInt8} (hbyte : byte ∈ fraction nanos) :
    byte < 0x80 := by
  unfold fraction at hbyte
  split at hbyte
  · cases hbyte
  · obtain ⟨count, hsplit⟩ := trimZeros_append (padded 9 nanos)
    rcases List.mem_cons.mp hbyte with rfl | hdigits
    · decide
    · have hmem : byte ∈ appendInt (nanos : ℤ) 9 := by
        rw [appendInt, if_neg (by omega), Int.natAbs_natCast, hsplit]
        exact List.mem_append_left _ hdigits
      exact ascii_of_mem_appendInt hmem

theorem ascii_of_mem_rfc3339Nano {t : ℤ} {byte : UInt8} (hbyte : byte ∈ rfc3339Nano t) :
    byte < 0x80 := by
  rw [rfc3339Nano, stamp_eq] at hbyte
  simp only [List.mem_append, List.mem_cons, List.not_mem_nil, or_false] at hbyte
  rcases hbyte with ((hbyte | ((((rfl | hbyte) | (rfl | hbyte)) | (rfl | hbyte)) | (rfl | hbyte)) |
    (rfl | hbyte)) | hbyte) | rfl
  all_goals first | decide | exact ascii_of_mem_appendInt hbyte | exact ascii_of_mem_fraction hbyte

/-- A component of two digits, as the reader takes it apart. -/
private theorem two_digits {value : ℤ} (hnonneg : 0 ≤ value) (hsmall : value < 100) :
    ∃ a b, appendInt value 2 = [a, b] ∧
      ∀ low high, low ≤ value → value ≤ high → number low high [a, b] = some value := by
  obtain ⟨a, b, heq⟩ := List.length_eq_two.mp (length_appendInt 2 hnonneg (by omega))
  refine ⟨a, b, heq, fun low high hlow hhigh => ?_⟩
  rw [← heq]
  exact number_appendInt 2 hnonneg hlow hhigh

private theorem four_digits {value : ℤ} (hnonneg : 0 ≤ value) (hsmall : value ≤ 9999) :
    ∃ a b c d, appendInt value 4 = [a, b, c, d] ∧ number 0 9999 [a, b, c, d] = some value := by
  have hlength := length_appendInt 4 hnonneg (by omega)
  have hnumber := number_appendInt 4 hnonneg hnonneg hsmall
  match appendInt value 4, hlength, hnumber with
  | [a, b, c, d], _, hnumber => exact ⟨a, b, c, d, rfl, hnumber⟩

/-- What is written of an instant is read back as that instant. -/
theorem readTime_rfc3339Nano {t : ℤ} (hwritable : Writable t) :
    readTime (rfc3339Nano t) = some t := by
  obtain ⟨hyear, hyear'⟩ := hwritable
  obtain ⟨hmonth, hday⟩ := civil_bounds (unix t / 86400)
  have hlast := civil_day_le (unix t / 86400)
  have hdate := daysOf_civil (unix t / 86400)
  have hstamp := stamp_eq t
  generalize civil (unix t / 86400) = date at hyear hyear' hmonth hday hlast hdate hstamp
  obtain ⟨y1, y2, y3, y4, htext, hnumber⟩ := four_digits hyear hyear'
  obtain ⟨m1, m2, hmonthText, hmonthNumber⟩ := two_digits (by omega) (by omega : date.month < 100)
  obtain ⟨d1, d2, hdayText, hdayNumber⟩ := two_digits (by omega) (by omega : date.day < 100)
  obtain ⟨h1, h2, hhourText, hhourNumber⟩ :=
    two_digits (by omega) (by omega : unix t % 86400 / 3600 < 100)
  obtain ⟨i1, i2, hminuteText, hminuteNumber⟩ :=
    two_digits (by omega) (by omega : unix t % 86400 % 3600 / 60 < 100)
  obtain ⟨s1, s2, hsecondText, hsecondNumber⟩ :=
    two_digits (by omega) (by omega : unix t % 86400 % 60 < 100)
  have hnanos : (t % second).toNat < 10 ^ 9 := by
    simp only [second]
    omega
  rw [rfc3339Nano, hstamp, htext, hmonthText, hdayText, hhourText, hminuteText, hsecondText]
  simp only [List.cons_append, List.nil_append, readTime, hnumber,
    hmonthNumber 1 12 (by omega) (by omega), hdayNumber 1 _ (by omega) hlast,
    hhourNumber 0 23 (by omega) (by omega), hminuteNumber 0 59 (by omega) (by omega),
    hsecondNumber 0 59 (by omega) (by omega), readFraction_fraction hnanos, readZone, Option.bind_eq_bind,
    Option.bind_some, Option.pure_def, Option.some.injEq]
  rw [hdate]
  simp only [unix, second]
  omega

end SecurePastebin.Calendar
