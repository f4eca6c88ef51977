import SecurePastebin.Core.Text

/-!
# Instants, durations and the RFC 3339 text of an instant

An instant is a number of nanoseconds since the Unix epoch, a duration a
number of nanoseconds.  The text form follows the proleptic Gregorian calendar
for every date, years before 1 and after 9999 included; it drops everything
below the second, and nothing else.
-/

namespace SecurePastebin.Calendar

open Text

def microsecond : ℤ := 1000
def millisecond : ℤ := 1000000
def second : ℤ := 1000000000
def hour : ℤ := 3600000000000
def day : ℤ := 86400000000000

/-- Two's complement reduction to int64, as in `Duration` multiplication. -/
def wrap64 (value : ℤ) : ℤ := (value + 2 ^ 63) % 2 ^ 64 - 2 ^ 63

/-- `t.Sub(u)`: a difference outside int64 saturates. -/
def sub (t u : ℤ) : ℤ := max (-(2 ^ 63)) (min (2 ^ 63 - 1) (t - u))

theorem wrap64_of_fits {value : ℤ} (hfits : FitsInt64 value) : wrap64 value = value := by
  simp only [FitsInt64] at hfits
  simp only [wrap64]
  omega

theorem fits_wrap64 (value : ℤ) : FitsInt64 (wrap64 value) := by
  simp only [FitsInt64, wrap64]
  omega

theorem dvd_sub_wrap64 (value : ℤ) : 2 ^ 64 ∣ value - wrap64 value := by
  rw [wrap64]
  omega

/-- Rounding down to a multiple of `unit`. -/
def truncate (t unit : ℤ) : ℤ := t - t % unit

/-- A time in whole milliseconds. -/
def millis (t : ℤ) : ℤ := t / millisecond

theorem millis_le_millis {earlier later : ℤ} (hle : earlier ≤ later) :
    millis earlier ≤ millis later :=
  Int.ediv_le_ediv (by decide) hle

theorem truncate_le {t unit : ℤ} (hunit : 0 < unit) : truncate t unit ≤ t := by
  have := Int.emod_nonneg t (by omega : unit ≠ 0)
  simp only [truncate]
  omega

/-- Rounding down does not carry an instant past a multiple of `unit`. -/
theorem le_truncate_iff {t e unit : ℤ} (hunit : 0 < unit) (he : unit ∣ e) :
    e ≤ truncate t unit ↔ e ≤ t := by
  refine ⟨fun hle => hle.trans (truncate_le hunit), fun hle => ?_⟩
  obtain ⟨k, rfl⟩ := he
  have hquotient : k ≤ t / unit := (Int.le_ediv_iff_mul_le hunit).mpr (by rwa [mul_comm])
  calc unit * k ≤ unit * (t / unit) := mul_le_mul_of_nonneg_left hquotient hunit.le
    _ = truncate t unit := by rw [truncate, Int.emod_def, sub_sub_cancel]

/-! ## Civil dates -/

structure Date where
  year : ℤ
  month : ℤ
  day : ℤ
  deriving DecidableEq, Repr

/-- Proleptic Gregorian date of a day number counted from 1970-01-01.  Years
are taken to start in March, so that a leap day ends its four-year, hundred-year
and four-hundred-year cycle. -/
def civil (days : ℤ) : Date :=
  let shifted := days + 719468
  let era := shifted / 146097
  let dayOfEra := shifted % 146097
  let century := min (dayOfEra / 36524) 3
  let dayOfCentury := dayOfEra - 36524 * century
  let quad := dayOfCentury / 1461
  let dayOfQuad := dayOfCentury - 1461 * quad
  let yearOfQuad := min (dayOfQuad / 365) 3
  let dayOfYear := dayOfQuad - 365 * yearOfQuad
  let marchMonth := (5 * dayOfYear + 2) / 153
  let month := if marchMonth < 10 then marchMonth + 3 else marchMonth - 9
  { year := 400 * era + 100 * century + 4 * quad + yearOfQuad + if month ≤ 2 then 1 else 0
    month := month
    day := dayOfYear - (153 * marchMonth + 2) / 5 + 1 }

example : civil 0 = ⟨1970, 1, 1⟩ ∧ civil 11016 = ⟨2000, 2, 29⟩ ∧
    civil 47540 = ⟨2100, 2, 28⟩ ∧ civil 47541 = ⟨2100, 3, 1⟩ ∧
    civil (-719528) = ⟨0, 1, 1⟩ ∧ civil (-719529) = ⟨-1, 12, 31⟩ := by decide

/-- The cycles of the calendar as independent digits of the day number. -/
private theorem civil_digits (days : ℤ) :
    ∃ era century quad yearOfQuad marchMonth dayOfMonth : ℤ,
      (0 ≤ century ∧ century ≤ 3) ∧ (0 ≤ quad ∧ quad ≤ 24) ∧
      (0 ≤ yearOfQuad ∧ yearOfQuad ≤ 3) ∧ (0 ≤ marchMonth ∧ marchMonth ≤ 11) ∧
      (0 ≤ dayOfMonth ∧ dayOfMonth ≤ 30) ∧
      days + 719468 = 146097 * era + 36524 * century + 1461 * quad + 365 * yearOfQuad +
        ((153 * marchMonth + 2) / 5 + dayOfMonth) ∧
      (civil days).month = (if marchMonth < 10 then marchMonth + 3 else marchMonth - 9) ∧
      (civil days).day = dayOfMonth + 1 ∧
      (civil days).year = 400 * era + 100 * century + 4 * quad + yearOfQuad +
        (if (civil days).month ≤ 2 then 1 else 0) ∧
      (marchMonth = 1 ∨ marchMonth = 3 ∨ marchMonth = 6 ∨ marchMonth = 8 → dayOfMonth ≤ 29) ∧
      (marchMonth = 11 → dayOfMonth ≤ 28 ∧
        (dayOfMonth = 28 → yearOfQuad = 3 ∧ (quad = 24 → century = 3))) := by
  obtain ⟨shifted, hshifted⟩ : ∃ shifted, shifted = days + 719468 := ⟨_, rfl⟩
  obtain ⟨dayOfEra, hdayOfEra⟩ : ∃ value, value = shifted % 146097 := ⟨_, rfl⟩
  obtain ⟨century, hcentury⟩ : ∃ value, value = min (dayOfEra / 36524) 3 := ⟨_, rfl⟩
  obtain ⟨rest, hrest⟩ : ∃ value, value = dayOfEra - 36524 * century := ⟨_, rfl⟩
  obtain ⟨quad, hquad⟩ : ∃ value, value = rest / 1461 := ⟨_, rfl⟩
  obtain ⟨dayOfQuad, hdayOfQuad⟩ : ∃ value, value = rest - 1461 * quad := ⟨_, rfl⟩
  obtain ⟨yearOfQuad, hyear⟩ : ∃ value, value = min (dayOfQuad / 365) 3 := ⟨_, rfl⟩
  obtain ⟨dayOfYear, hdayOfYear⟩ : ∃ value, value = dayOfQuad - 365 * yearOfQuad := ⟨_, rfl⟩
  obtain ⟨marchMonth, hmonth⟩ : ∃ value, value = (5 * dayOfYear + 2) / 153 := ⟨_, rfl⟩
  have hera : 0 ≤ dayOfEra ∧ dayOfEra ≤ 146096 := by omega
  have hcenturyBound : 0 ≤ century ∧ century ≤ 3 := by omega
  have hrestBound : 0 ≤ rest ∧ rest ≤ 36524 := by omega
  have hquadBound : 0 ≤ quad ∧ quad ≤ 24 := by omega
  have hdayOfQuadBound : 0 ≤ dayOfQuad ∧ dayOfQuad ≤ 1460 := by omega
  have hyearBound : 0 ≤ yearOfQuad ∧ yearOfQuad ≤ 3 := by omega
  have hdayOfYearBound : 0 ≤ dayOfYear ∧ dayOfYear ≤ 365 := by omega
  have hmonthBound : 0 ≤ marchMonth ∧ marchMonth ≤ 11 := by omega
  refine ⟨shifted / 146097, century, quad, yearOfQuad, marchMonth,
    dayOfYear - (153 * marchMonth + 2) / 5, hcenturyBound, hquadBound, hyearBound, hmonthBound,
    ?_, ?_, ?_, ?_, ?_, by omega, by omega⟩
  · omega
  · omega
  · subst_vars
    rfl
  · subst_vars
    rfl
  · subst_vars
    rfl

/-- Different days have different dates. -/
theorem civil_injective : Function.Injective civil := by
  intro left right heq
  obtain ⟨era, century, quad, year, month, dayOfMonth, hcentury, hquad, hyear, hmonth,
    hday, hdays, hmonthEq, hdayEq, hyearEq, -⟩ := civil_digits left
  obtain ⟨era', century', quad', year', month', dayOfMonth', hcentury', hquad', hyear', hmonth',
    hday', hdays', hmonthEq', hdayEq', hyearEq', -⟩ := civil_digits right
  rw [heq] at hmonthEq hdayEq hyearEq
  have hmarch : month = month' := by
    rw [hmonthEq] at hmonthEq'
    split at hmonthEq' <;> split at hmonthEq' <;> omega
  have hyears : 400 * era + 100 * century + 4 * quad + year =
      400 * era' + 100 * century' + 4 * quad' + year' := by
    rw [hyearEq] at hyearEq'
    omega
  have heras : era = era' := by omega
  have hcenturies : century = century' := by omega
  have hquads : quad = quad' := by omega
  subst hmarch heras hcenturies hquads
  omega

theorem civil_bounds (days : ℤ) :
    (1 ≤ (civil days).month ∧ (civil days).month ≤ 12) ∧
      (1 ≤ (civil days).day ∧ (civil days).day ≤ 31) := by
  obtain ⟨_, _, _, _, month, _, -, -, -, hmonth, hday, -, hmonthEq, hdayEq, -⟩ :=
    civil_digits days
  rw [hmonthEq, hdayEq]
  split <;> omega

/-- Day number of a date, counted from 1970-01-01. -/
def daysOf (date : Date) : ℤ :=
  let year := if date.month ≤ 2 then date.year - 1 else date.year
  let marchMonth := if date.month ≤ 2 then date.month + 9 else date.month - 3
  let yearOfEra := year % 400
  year / 400 * 146097 + (yearOfEra * 365 + yearOfEra / 4 - yearOfEra / 100) +
    ((153 * marchMonth + 2) / 5 + date.day - 1) - 719468

theorem daysOf_civil (days : ℤ) : daysOf (civil days) = days := by
  obtain ⟨era, century, quad, year, month, dayOfMonth, hcentury, hquad, hyear, hmonth,
    hday, hdays, hmonthEq, hdayEq, hyearEq, -⟩ := civil_digits days
  have hmarch : (if (civil days).month ≤ 2 then (civil days).month + 9
      else (civil days).month - 3) = month := by
    rw [hmonthEq]
    split <;> split <;> omega
  have hshifted : (if (civil days).month ≤ 2 then (civil days).year - 1
      else (civil days).year) = 400 * era + (100 * century + 4 * quad + year) := by
    rw [hyearEq]
    split <;> omega
  have hquads : (100 * century + 4 * quad + year) / 4 = 25 * century + quad := by omega
  have hcenturies : (100 * century + 4 * quad + year) / 100 = century := by omega
  simp only [daysOf, hmarch, hshifted, hdayEq]
  have hera : (400 * era + (100 * century + 4 * quad + year)) / 400 = era := by omega
  have hof : (400 * era + (100 * century + 4 * quad + year)) % 400 =
      100 * century + 4 * quad + year := by omega
  rw [hera, hof, hquads, hcenturies]
  omega

/-- Number of days of a month. -/
def daysIn (month year : ℤ) : ℤ :=
  if month = 2 then
    if year % 4 = 0 ∧ (year % 100 ≠ 0 ∨ year % 400 = 0) then 29 else 28
  else if month = 4 ∨ month = 6 ∨ month = 9 ∨ month = 11 then 30
  else 31

theorem civil_day_le (days : ℤ) : (civil days).day ≤ daysIn (civil days).month (civil days).year := by
  obtain ⟨era, century, quad, year, month, dayOfMonth, hcentury, hquad, hyear, hmonth,
    hday, -, hmonthEq, hdayEq, hyearEq, hshort, hfebruary⟩ := civil_digits days
  rw [hmonthEq] at hyearEq ⊢
  rw [hdayEq]
  unfold daysIn
  split_ifs at hyearEq ⊢ <;> omega

/-! ## RFC 3339 -/

/-- `t.Unix()`. -/
def unix (t : ℤ) : ℤ := t / second

/-- `t.UTC().Format(time.RFC3339)`. -/
def rfc3339 (t : ℤ) : Bytes :=
  let date := civil (unix t / 86400)
  let clock := unix t % 86400
  appendInt date.year 4 ++
    (45 :: appendInt date.month 2 ++ 45 :: appendInt date.day 2 ++
      84 :: appendInt (clock / 3600) 2 ++ 58 :: appendInt (clock % 3600 / 60) 2 ++
      58 :: appendInt (clock % 60) 2 ++ [90])

example : rfc3339 1789084800000000001 = ascii "2026-09-11T00:00:00Z" := by decide

private theorem length_two {value : ℤ} (hlow : 0 ≤ value) (hhigh : value < 100) :
    (appendInt value 2).length = 2 := by
  rw [appendInt, if_neg (by omega)]
  exact length_padded_of_lt (by omega)

/-- Two instants have the same text exactly when they lie in the same second. -/
theorem rfc3339_eq_iff (t u : ℤ) : rfc3339 t = rfc3339 u ↔ unix t = unix u := by
  constructor
  · intro heq
    obtain ⟨hmonthT, hdayT⟩ := civil_bounds (unix t / 86400)
    obtain ⟨hmonthU, hdayU⟩ := civil_bounds (unix u / 86400)
    -- everything after the year has a fixed length, so the text splits from the right
    have hsplit := List.append_inj' heq (by
      simp only [List.length_append, List.length_cons, List.length_nil]
      rw [length_two (by omega) (by omega), length_two (by omega) (by omega),
        length_two (by omega) (by omega), length_two (by omega) (by omega),
        length_two (by omega) (by omega), length_two (by omega) (by omega),
        length_two (by omega) (by omega), length_two (by omega) (by omega),
        length_two (by omega) (by omega), length_two (by omega) (by omega)])
    have hyear := appendInt_injective 4 hsplit.1
    have hrest := hsplit.2
    simp only [List.cons_append, List.append_assoc, List.cons.injEq, true_and] at hrest
    have hmonth := List.append_inj hrest (by
      rw [length_two (by omega) (by omega), length_two (by omega) (by omega)])
    have hday := List.append_inj (List.cons.inj hmonth.2).2 (by
      rw [length_two (by omega) (by omega), length_two (by omega) (by omega)])
    have hhour := List.append_inj (List.cons.inj hday.2).2 (by
      rw [length_two (by omega) (by omega), length_two (by omega) (by omega)])
    have hminute := List.append_inj (List.cons.inj hhour.2).2 (by
      rw [length_two (by omega) (by omega), length_two (by omega) (by omega)])
    have hsecond := List.append_inj (List.cons.inj hminute.2).2 (by
      rw [length_two (by omega) (by omega), length_two (by omega) (by omega)])
    have hdate : civil (unix t / 86400) = civil (unix u / 86400) := by
      have h1 := appendInt_injective 2 hmonth.1
      have h2 := appendInt_injective 2 hday.1
      cases ht : civil (unix t / 86400)
      cases hu : civil (unix u / 86400)
      simp_all
    have hdays := civil_injective hdate
    have h3 := appendInt_injective 2 hhour.1
    have h4 := appendInt_injective 2 hminute.1
    have h5 := appendInt_injective 2 hsecond.1
    omega
  · intro heq
    simp only [rfc3339, heq]

end SecurePastebin.Calendar
