import SecurePastebin.Config.Lifetimes

/-!
# Numbers in the configuration

Whether the sizes and numbers an accepted configuration holds are the ones that
are written in the environment, over unbounded integers.
-/

namespace SecurePastebin.Configuration

open Text Calendar
open Paste (trimSpace)

/-! ## Sizes -/

def SizeUnit.text : SizeUnit → Bytes
  | .b => ascii "B"
  | .kb => ascii "KB"
  | .mb => ascii "MB"

def SizeUnit.factor : SizeUnit → ℤ
  | .b => 1
  | .kb => 1024
  | .mb => 1048576

theorem SizeUnit.one_le_factor (unit : SizeUnit) : 1 ≤ unit.factor := by
  cases unit <;> decide

/-- After trimming and upper-casing, `text` is a run of digits of value `value`,
white space and the unit. -/
def WrittenSize (text : Bytes) (value : ℕ) (unit : SizeUnit) : Prop :=
  ∃ digits blanks, (trimSpace text).map upper = digits ++ (blanks ++ unit.text) ∧ digits ≠ [] ∧
    (∀ digit ∈ digits, isDigit digit = true) ∧ (∀ blank ∈ blanks, isBlank blank = true) ∧
    value = digitsValue digits

/-- What follows the digits does not start with one. -/
theorem takeWhile_isDigit_tail {blanks : Bytes} (hblanks : ∀ blank ∈ blanks, isBlank blank = true)
    (unit : SizeUnit) :
    (blanks ++ unit.text).takeWhile isDigit = [] ∧
      (blanks ++ unit.text).dropWhile isDigit = blanks ++ unit.text := by
  cases blanks with
  | nil => cases unit <;> exact ⟨by decide, by decide⟩
  | cons blank rest =>
      have hdigit : isDigit blank = false := by
        have hblank := hblanks blank (by simp)
        simp only [isBlank, Bool.or_eq_true, decide_eq_true_eq] at hblank
        rcases hblank with (((rfl | rfl) | rfl) | rfl) | rfl <;> decide
      simp [hdigit]

theorem matchSize_eq_of_unit {text : Bytes} {unit : SizeUnit} (hne : text.takeWhile isDigit ≠ [])
    (hunit : (text.dropWhile isDigit).dropWhile isBlank = unit.text) :
    matchSize text = some (text.takeWhile isDigit, unit) := by
  simp only [matchSize, hne, if_false, hunit]
  cases unit <;> rfl

/-- The expression matches exactly the texts it describes, and its groups are the
digits and the unit. -/
theorem matchSize_eq_some {text digits : Bytes} {unit : SizeUnit} :
    matchSize text = some (digits, unit) ↔
      ∃ blanks, text = digits ++ (blanks ++ unit.text) ∧ digits ≠ [] ∧
        (∀ digit ∈ digits, isDigit digit = true) ∧ ∀ blank ∈ blanks, isBlank blank = true := by
  constructor
  · intro hmatch
    have hparts : digits = text.takeWhile isDigit ∧ digits ≠ [] ∧
        (text.dropWhile isDigit).dropWhile isBlank = unit.text := by
      unfold matchSize at hmatch
      dsimp only at hmatch
      split_ifs at hmatch with hnil hb hkb hmb <;> cases hmatch
      · exact ⟨rfl, hnil, hb⟩
      · exact ⟨rfl, hnil, hkb⟩
      · exact ⟨rfl, hnil, hmb⟩
    obtain ⟨rfl, hne, hunit⟩ := hparts
    refine ⟨(text.dropWhile isDigit).takeWhile isBlank, ?_, hne,
      fun digit => List.mem_takeWhile_imp, fun blank => List.mem_takeWhile_imp⟩
    rw [← hunit, List.takeWhile_append_dropWhile, List.takeWhile_append_dropWhile]
  · rintro ⟨blanks, rfl, hne, hdigits, hblanks⟩
    obtain ⟨htake, hdrop⟩ := takeWhile_isDigit_tail hblanks unit
    have hrun : (digits ++ (blanks ++ unit.text)).takeWhile isDigit = digits := by
      rw [List.takeWhile_append_of_pos hdigits, htake, List.append_nil]
    have hrest : ((digits ++ (blanks ++ unit.text)).dropWhile isDigit).dropWhile isBlank =
        unit.text := by
      rw [List.dropWhile_append_of_pos hdigits, hdrop, List.dropWhile_append_of_pos hblanks]
      cases unit <;> decide
    rw [matchSize_eq_of_unit (by rwa [hrun]) hrest, hrun]

/-- What is read of a number and a unit: their product, reduced to 64 bits. -/
theorem parseSize_of_read {text digits : Bytes} {unit : SizeUnit} {value : ℤ}
    (hmatch : matchSize ((trimSpace text).map upper) = some (digits, unit))
    (hread : parseInt64 digits = some value) :
    parseSize text =
      if wrap64 (value * unit.factor) ≤ 0 ∨ wrap64 (value * unit.factor) > maxPasteSizeHardCap then
        none
      else some (wrap64 (value * unit.factor)) := by
  simp only [parseSize, hmatch, hread]
  cases unit with
  | b => simp only [SizeUnit.factor, mul_one, wrap64_of_fits (parseInt64_eq_some.mp hread).2]
  | kb => rfl
  | mb => rfl

theorem parseSize_of_written {text : Bytes} {value : ℕ} {unit : SizeUnit}
    (hwritten : WrittenSize text value unit) (size : ℤ) :
    parseSize text = some size ↔ (value : ℤ) < 2 ^ 63 ∧ size = wrap64 (value * unit.factor) ∧
      1 ≤ size ∧ size ≤ maxPasteSizeHardCap := by
  obtain ⟨digits, blanks, htext, hne, hdigits, hblanks, rfl⟩ := hwritten
  have hmatch := matchSize_eq_some.mpr ⟨blanks, htext, hne, hdigits, hblanks⟩
  by_cases hlt : (digitsValue digits : ℤ) < 2 ^ 63
  · rw [parseSize_of_read hmatch ((parseInt64_digits hne hdigits).mpr ⟨rfl, hlt⟩)]
    split_ifs with hout
    · refine iff_of_false (by simp) ?_
      rintro ⟨-, rfl, hone, hcap⟩
      omega
    · constructor
      · rintro ⟨⟩
        omega
      · rintro ⟨-, rfl, -⟩
        rfl
  · have hread : parseInt64 digits = none := by
      rw [Option.eq_none_iff_forall_ne_some]
      intro value hvalue
      obtain ⟨rfl, hvalue⟩ := (parseInt64_digits hne hdigits).mp hvalue
      exact hlt hvalue
    simp only [parseSize, hmatch, hread]
    exact iff_of_false (by simp) fun hall => hlt hall.1

/-- What is read as a size is written as one. -/
theorem exists_written_of_parseSize {text : Bytes} {size : ℤ} (hsize : parseSize text = some size) :
    ∃ value unit, WrittenSize text value unit := by
  unfold parseSize at hsize
  split at hsize
  · cases hsize
  · rename_i digits unit hmatch
    obtain ⟨blanks, htext, hne, hdigits, hblanks⟩ := matchSize_eq_some.mp hmatch
    exact ⟨_, unit, digits, blanks, htext, hne, hdigits, hblanks, rfl⟩

/-- A text is written as a size in one way only. -/
theorem WrittenSize.unique {text : Bytes} {value other : ℕ} {unit unit' : SizeUnit}
    (hwritten : WrittenSize text value unit) (hother : WrittenSize text other unit') :
    other = value ∧ unit' = unit := by
  obtain ⟨digits, blanks, htext, hne, hdigits, hblanks, rfl⟩ := hwritten
  obtain ⟨digits', blanks', htext', hne', hdigits', hblanks', rfl⟩ := hother
  have hmatch := matchSize_eq_some.mpr ⟨blanks, htext, hne, hdigits, hblanks⟩
  rw [matchSize_eq_some.mpr ⟨blanks', htext', hne', hdigits', hblanks'⟩] at hmatch
  cases hmatch
  exact ⟨rfl, rfl⟩

/-- The size a text denotes, over unbounded integers. -/
def DenotesSize (text : Bytes) (size : ℤ) : Prop :=
  ∃ (value : ℕ) (unit : SizeUnit), WrittenSize text value unit ∧ size = value * unit.factor ∧
    1 ≤ size ∧ size ≤ 16 * 1048576

/-- The product of a number that fits 64 bits and its unit fits too, or is
reduced to something that is refused. -/
def ShiftHarmless (text : Bytes) : Prop :=
  ∀ (value : ℕ) (unit : SizeUnit), WrittenSize text value unit → (value : ℤ) < 2 ^ 63 →
    value * unit.factor < 2 ^ 63 ∨ wrap64 (value * unit.factor) < 1 ∨
      16 * 1048576 < wrap64 (value * unit.factor)

/-- A size is read exactly, and nothing else is read as one, if and only if the
shift by the unit does no harm. -/
theorem parseSize_exact (text : Bytes) :
    (∀ size, parseSize text = some size ↔ DenotesSize text size) ↔ ShiftHarmless text := by
  constructor
  · intro hexact value unit hwritten hlt
    by_contra hharm
    obtain ⟨hover, hone, hcap⟩ : 2 ^ 63 ≤ value * unit.factor ∧
        1 ≤ wrap64 (value * unit.factor) ∧ wrap64 (value * unit.factor) ≤ 16 * 1048576 := by
      omega
    have hread := (parseSize_of_written hwritten _).mpr ⟨hlt, rfl, hone, hcap⟩
    obtain ⟨value', unit', hwritten', hsize, -, hle⟩ := (hexact _).mp hread
    obtain ⟨rfl, rfl⟩ := hwritten.unique hwritten'
    omega
  · intro hharmless size
    constructor
    · intro hsize
      obtain ⟨value, unit, hwritten⟩ := exists_written_of_parseSize hsize
      obtain ⟨hlt, heq, hone, hcap⟩ := (parseSize_of_written hwritten size).mp hsize
      have hcap : size ≤ 16 * 1048576 := hcap
      have hfactor := unit.one_le_factor
      have hfits : FitsInt64 (value * unit.factor) := by
        refine ⟨by nlinarith, ?_⟩
        rcases hharmless value unit hwritten hlt with hfits | hout | hout <;> omega
      exact ⟨value, unit, hwritten, heq.trans (wrap64_of_fits hfits), hone, hcap⟩
    · rintro ⟨value, unit, hwritten, rfl, hone, hcap⟩
      have hfactor := unit.one_le_factor
      have hle : (value : ℤ) ≤ value * unit.factor := by nlinarith
      have hfits : FitsInt64 (value * unit.factor) := ⟨by omega, by omega⟩
      exact (parseSize_of_written hwritten _).mpr
        ⟨by omega, (wrap64_of_fits hfits).symm, hone, hcap⟩

example : parseSize (ascii " 1024 kb ") = some 1048576 := by decide +kernel

/-- More than 16 EiB is accepted as one MiB: the shift drops the high bits. -/
theorem parseSize_wraps :
    parseSize (ascii "17592186044417MB") = some 1048576 ∧
      WrittenSize (ascii "17592186044417MB") 17592186044417 .mb ∧
      ¬ DenotesSize (ascii "17592186044417MB") 1048576 := by
  have hmatch : matchSize ((trimSpace (ascii "17592186044417MB")).map upper) =
      some (ascii "17592186044417", .mb) := by decide +kernel
  obtain ⟨blanks, htext, hne, hdigits, hblanks⟩ := matchSize_eq_some.mp hmatch
  have hwritten : WrittenSize (ascii "17592186044417MB") 17592186044417 .mb :=
    ⟨_, blanks, htext, hne, hdigits, hblanks, by decide +kernel⟩
  refine ⟨by decide +kernel, hwritten, ?_⟩
  rintro ⟨value, unit, hother, hsize, -⟩
  obtain ⟨rfl, rfl⟩ := hwritten.unique hother
  revert hsize
  decide

/-! ## Conversions -/

/-- The integer a setting is written as, or its default. -/
def Environment.Written (env : Environment) (key : String) (default value : ℤ) : Prop :=
  env.setting key = [] ∧ value = default ∨ env.setting key ≠ [] ∧ Decimal (env.setting key) value

variable {env : Environment} {c : Config}

theorem Environment.written_intv {key : String} {default : ℤ}
    (hnone : (env.intv key default).errs = []) :
    env.Written key default (env.intv key default).value := by
  unfold Environment.intv Environment.parsed at hnone ⊢
  split_ifs at hnone ⊢ with hempty
  · exact .inl ⟨hempty, rfl⟩
  · split at hnone
    · cases hnone
    · rename_i value hread
      exact .inr ⟨hempty, (parseInt64_eq_some.mp hread).1⟩

/-- A setting is written in one way only. -/
theorem Environment.Written.unique {key : String} {default value other : ℤ}
    (hwritten : env.Written key default value) (hother : env.Written key default other) :
    other = value := by
  rcases hwritten with ⟨hempty, rfl⟩ | ⟨hne, hdecimal⟩
  · rcases hother with ⟨-, rfl⟩ | ⟨hne, -⟩
    · rfl
    · exact absurd hempty hne
  · rcases hother with ⟨hempty, -⟩ | ⟨-, hother⟩
    · exact absurd hempty hne
    · exact hother.unique hdecimal

/-- The problems with the challenge and with Argon2 are among all problems. -/
theorem converted_of_load (hload : load env = .ok c) :
    env.challenge.errs = [] ∧ env.argon2.errs = [] ∧ c.challenge = env.challenge.value ∧
      c.argon2 = env.argon2.value := by
  obtain ⟨hnone, rfl⟩ := load_eq_ok env hload
  rw [Environment.problems, List.flatten_eq_nil_iff] at hnone
  exact ⟨hnone _ (by simp), hnone _ (by simp), rfl, rfl⟩

/-- What is written fits the types it is converted to. -/
structure Environment.FitsTypes (env : Environment) : Prop where
  memory : ∀ value, env.Written "ARGON2_MEMORY_KIB" 32768 value → 0 ≤ value ∧ value < 2 ^ 32
  ttl : ∀ value, env.Written "CHALLENGE_TTL_SECONDS" 120 value → FitsInt64 (value * second)
  minSolve : ∀ value, env.Written "CHALLENGE_MIN_SOLVE_MS" 300 value →
    FitsInt64 (value * millisecond)

/-- The configuration holds what is written. -/
structure Config.Holds (c : Config) (env : Environment) : Prop where
  memory : ∃ memory, env.Written "ARGON2_MEMORY_KIB" 32768 memory ∧
    (c.argon2.memoryKiB : ℤ) = memory ∧ 8192 ≤ memory ∧ memory < 2 ^ 32
  ttl : ∃ ttl, env.Written "CHALLENGE_TTL_SECONDS" 120 ttl ∧ c.challenge.ttl = ttl * second
  minSolve : ∃ minSolve, env.Written "CHALLENGE_MIN_SOLVE_MS" 300 minSolve ∧
    c.challenge.minSolve = minSolve * millisecond

/-- What an accepted configuration holds: the written numbers, reduced to the
types they are converted to. -/
theorem reduced_of_load (hload : load env = .ok c) :
    (∃ memory, env.Written "ARGON2_MEMORY_KIB" 32768 memory ∧
        (c.argon2.memoryKiB : ℤ) = memory % 2 ^ 32 ∧ 8192 ≤ c.argon2.memoryKiB) ∧
      (∃ ttl, env.Written "CHALLENGE_TTL_SECONDS" 120 ttl ∧
        c.challenge.ttl = wrap64 (ttl * second)) ∧
      ∃ minSolve, env.Written "CHALLENGE_MIN_SOLVE_MS" 300 minSolve ∧
        c.challenge.minSolve = wrap64 (minSolve * millisecond) := by
  obtain ⟨hchallenge, hargon, heqc, heqa⟩ := converted_of_load hload
  simp only [Environment.challenge, Environment.argon2, List.append_eq_nil_iff] at hchallenge hargon
  obtain ⟨⟨⟨-, -⟩, httl⟩, hmin⟩ := hchallenge
  obtain ⟨⟨⟨-, -⟩, hmem⟩, hproblem⟩ := hargon
  refine ⟨⟨_, Environment.written_intv hmem, ?_⟩, ⟨_, Environment.written_intv httl, by rw [heqc]; rfl⟩,
    _, Environment.written_intv hmin, by rw [heqc]; rfl⟩
  simp only [problem, ite_eq_right_iff, reduceCtorEq, imp_false, Bool.not_eq_true,
    Bool.or_eq_false_iff, decide_eq_false_iff_not] at hproblem
  rw [heqa]
  simp only [Environment.argon2]
  omega

/-- An accepted configuration holds exactly what is written if and only if that
fits the types. -/
theorem load_exact (hload : load env = .ok c) : c.Holds env ↔ env.FitsTypes := by
  obtain ⟨⟨memory, hmem, hmemory, hleast⟩, ⟨ttl, httl, hlife⟩, minSolve, hmin, hsolve⟩ :=
    reduced_of_load hload
  constructor
  · rintro ⟨⟨memory', hmem', -, hlow, hhigh⟩, ⟨ttl', httl', hlife'⟩, minSolve', hmin', hsolve'⟩
    refine ⟨fun value hvalue => ?_, fun value hvalue => ?_, fun value hvalue => ?_⟩
    · rw [hmem'.unique hvalue]
      omega
    · rw [httl'.unique hvalue, ← hlife', hlife]
      exact fits_wrap64 _
    · rw [hmin'.unique hvalue, ← hsolve', hsolve]
      exact fits_wrap64 _
  · intro hfits
    obtain ⟨hnonneg, hlt⟩ := hfits.memory _ hmem
    exact ⟨⟨memory, hmem, by omega, by omega, hlt⟩,
      ⟨ttl, httl, hlife.trans (wrap64_of_fits (hfits.ttl _ httl))⟩,
      minSolve, hmin, hsolve.trans (wrap64_of_fits (hfits.minSolve _ hmin))⟩

namespace Sample

/-- The sample environment with further settings. -/
def environmentWith (settings : List (String × String)) : Environment :=
  { environment "900" with
    getenv := fun key =>
      match settings.lookup key with
      | some value => ascii value
      | none => (environment "900").getenv key }

/-- Numbers at the upper end of what is taken. -/
def fitting : Environment :=
  environmentWith [("ARGON2_MEMORY_KIB", "4294967295"), ("CHALLENGE_TTL_SECONDS", "9223372036")]

/-- Numbers that do not fit. -/
def wrapping : Environment :=
  environmentWith [("ARGON2_MEMORY_KIB", "4294975488"), ("CHALLENGE_TTL_SECONDS", "18446744074"),
    ("CHALLENGE_MIN_SOLVE_MS", "18446744073710")]

theorem load_fitting : load fitting = .ok fitting.config := if_pos (by decide +kernel)

end Sample

theorem load_exact_sample :
    ∃ c, load Sample.fitting = .ok c ∧ c.Holds Sample.fitting ∧
      c.argon2.memoryKiB = 4294967295 ∧ c.challenge.ttl = 9223372036 * second := by
  have hread : ∀ {key default value found}, Sample.fitting.Written key default value →
      (if Sample.fitting.setting key = [] then some default
        else parseInt64 (Sample.fitting.setting key)) = some found → value = found := by
    rintro key default value found (⟨hempty, rfl⟩ | ⟨hne, hdecimal⟩) hfound
    · exact Option.some.inj (by rwa [if_pos hempty] at hfound)
    · rw [if_neg hne] at hfound
      exact hdecimal.unique (parseInt64_eq_some.mp hfound).1
  refine ⟨_, Sample.load_fitting, (load_exact Sample.load_fitting).mpr ⟨?_, ?_, ?_⟩,
    by decide +kernel, by decide +kernel⟩
  · intro value hwritten
    have hvalue : value = 4294967295 := hread hwritten (by decide +kernel)
    omega
  · intro value hwritten
    have hvalue : value = 9223372036 := hread hwritten (by decide +kernel)
    rw [hvalue]
    decide
  · intro value hwritten
    have hvalue : value = 300 := hread hwritten (by decide +kernel)
    rw [hvalue]
    decide

/-- The memory is reduced modulo 2³² and the two durations modulo 2⁶⁴, and the
configuration is accepted. -/
theorem load_wraps :
    ∃ c, load Sample.wrapping = .ok c ∧
      Sample.wrapping.Written "ARGON2_MEMORY_KIB" 32768 4294975488 ∧ c.argon2.memoryKiB = 8192 ∧
      Sample.wrapping.Written "CHALLENGE_TTL_SECONDS" 120 18446744074 ∧
      c.challenge.ttl = 290448384 ∧
      Sample.wrapping.Written "CHALLENGE_MIN_SOLVE_MS" 300 18446744073710 ∧
      c.challenge.minSolve = 448384 := by
  have hwritten : ∀ {key default value},
      parseInt64 (Sample.wrapping.setting key) = some value →
      Sample.wrapping.Written key default value := by
    intro key default value hread
    refine .inr ⟨fun hempty => ?_, (parseInt64_eq_some.mp hread).1⟩
    have hnone : parseInt64 [] = none := by decide
    rw [hempty, hnone] at hread
    cases hread
  have hread : parseInt64 (Sample.wrapping.setting "ARGON2_MEMORY_KIB") = some 4294975488 ∧
      parseInt64 (Sample.wrapping.setting "CHALLENGE_TTL_SECONDS") = some 18446744074 ∧
      parseInt64 (Sample.wrapping.setting "CHALLENGE_MIN_SOLVE_MS") = some 18446744073710 := by
    decide +kernel
  have hvalues : Sample.wrapping.config.argon2.memoryKiB = 8192 ∧
      Sample.wrapping.config.challenge.ttl = 290448384 ∧
      Sample.wrapping.config.challenge.minSolve = 448384 := by decide +kernel
  exact ⟨Sample.wrapping.config, if_pos (by decide +kernel), hwritten hread.1, hvalues.1,
    hwritten hread.2.1, hvalues.2.1, hwritten hread.2.2, hvalues.2.2⟩

end SecurePastebin.Configuration
