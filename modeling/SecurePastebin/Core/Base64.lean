import SecurePastebin.Core.Text

/-!
# Base64

The three encodings of RFC 4648 in use: standard with padding (byte slices in
JSON, master keys), standard without (PHC strings) and URL-safe without
(tokens).  Reading follows `encoding/base64`: carriage returns and newlines are
skipped, and the unused low bits of a last group are not looked at.
-/

namespace SecurePastebin.Base64

open Text

structure Encoding where
  char62 : UInt8
  char63 : UInt8
  padded : Bool

def stdEncoding : Encoding := ⟨43, 47, true⟩
def rawStdEncoding : Encoding := ⟨43, 47, false⟩
def rawURLEncoding : Encoding := ⟨45, 95, false⟩

/-- The two free characters are neither in the common alphabet, nor equal, nor
one of the characters the reader treats specially. -/
structure Encoding.Valid (e : Encoding) : Prop where
  char62_fresh : e.char62 ∈ [43, 45]
  char63_fresh : e.char63 ∈ [47, 95]

theorem stdEncoding_valid : stdEncoding.Valid := ⟨by decide, by decide⟩
theorem rawStdEncoding_valid : rawStdEncoding.Valid := ⟨by decide, by decide⟩
theorem rawURLEncoding_valid : rawURLEncoding.Valid := ⟨by decide, by decide⟩

variable (e : Encoding)

/-- Character of a six-bit value. -/
def symbol (value : ℕ) : UInt8 :=
  if value < 26 then (65 + value).toUInt8
  else if value < 52 then (71 + value).toUInt8
  else if value < 62 then (value - 4).toUInt8
  else if value = 62 then e.char62 else e.char63

/-- Six-bit value of a character. -/
def symbolValue (char : UInt8) : Option ℕ :=
  if 65 ≤ char ∧ char ≤ 90 then some (char.toNat - 65)
  else if 97 ≤ char ∧ char ≤ 122 then some (char.toNat - 71)
  else if 48 ≤ char ∧ char ≤ 57 then some (char.toNat + 4)
  else if char = e.char62 then some 62
  else if char = e.char63 then some 63
  else none

/-- The padding of an incomplete last group. -/
def padding (count : ℕ) : Bytes := if e.padded then List.replicate count 61 else []

def encode : Bytes → Bytes
  | [] => []
  | [a] => symbol e (a.toNat / 4) :: symbol e (a.toNat % 4 * 16) :: padding e 2
  | [a, b] =>
      symbol e (a.toNat / 4) :: symbol e (a.toNat % 4 * 16 + b.toNat / 16) ::
        symbol e (b.toNat % 16 * 4) :: padding e 1
  | a :: b :: c :: rest =>
      symbol e (a.toNat / 4) :: symbol e (a.toNat % 4 * 16 + b.toNat / 16) ::
        symbol e (b.toNat % 16 * 4 + c.toNat / 64) :: symbol e (c.toNat % 64) ::
        encode rest

/-- Two, three or four characters carry one, two or three bytes. -/
def bytesOf2 (x y : UInt8) : Option Bytes := do
  let first ← symbolValue e x
  let second ← symbolValue e y
  return [(first * 4 + second / 16).toUInt8]

def bytesOf3 (x y z : UInt8) : Option Bytes := do
  let first ← symbolValue e x
  let second ← symbolValue e y
  let third ← symbolValue e z
  return [(first * 4 + second / 16).toUInt8, (second % 16 * 16 + third / 4).toUInt8]

def bytesOf4 (x y z w : UInt8) : Option Bytes := do
  let first ← symbolValue e x
  let second ← symbolValue e y
  let third ← symbolValue e z
  let fourth ← symbolValue e w
  return [(first * 4 + second / 16).toUInt8, (second % 16 * 16 + third / 4).toUInt8,
    (third % 4 * 64 + fourth).toUInt8]

def decodeGroups : Bytes → Option Bytes
  | [] => some []
  | [x, y] => if e.padded then none else bytesOf2 e x y
  | [x, y, z] => if e.padded then none else bytesOf3 e x y z
  | [x, y, z, w] =>
      if e.padded ∧ w = 61 then
        if z = 61 then bytesOf2 e x y else bytesOf3 e x y z
      else bytesOf4 e x y z w
  | x :: y :: z :: w :: rest => do
      let front ← bytesOf4 e x y z w
      let back ← decodeGroups rest
      return front ++ back
  | [_] => none

/-- `DecodeString`. -/
def decode (text : Bytes) : Option Bytes :=
  decodeGroups e (text.filter fun char => char ≠ 10 ∧ char ≠ 13)

variable {e}

/-- What every character of the alphabet satisfies, checked value by value. -/
private theorem symbol_spec (hvalid : e.Valid) {value : ℕ} (hvalue : value < 64) :
    symbolValue e (symbol e value) = some value ∧ symbol e value ≠ 61 ∧
      symbol e value ≠ 10 ∧ symbol e value ≠ 13 ∧ symbol e value < 0x80 := by
  obtain ⟨char62, char63, padded⟩ := e
  have h62 := hvalid.char62_fresh
  have h63 := hvalid.char63_fresh
  simp only [List.mem_cons, List.not_mem_nil, or_false] at h62 h63
  rcases h62 with rfl | rfl <;> rcases h63 with rfl | rfl <;>
    · revert value
      simp only [symbol, symbolValue]
      decide

theorem symbolValue_symbol (hvalid : e.Valid) {value : ℕ} (hvalue : value < 64) :
    symbolValue e (symbol e value) = some value := (symbol_spec hvalid hvalue).1

private theorem toUInt8_eq {value : ℕ} {byte : UInt8} (heq : value = byte.toNat) :
    value.toUInt8 = byte := by
  rw [heq]
  exact UInt8.ofNat_toNat

private theorem bytesOf2_symbols (hvalid : e.Valid) (a : UInt8) :
    bytesOf2 e (symbol e (a.toNat / 4)) (symbol e (a.toNat % 4 * 16)) = some [a] := by
  have ha := a.toNat_lt_size
  simp only [UInt8.size] at ha
  simp only [bytesOf2, symbolValue_symbol hvalid (show a.toNat / 4 < 64 by omega),
    symbolValue_symbol hvalid (show a.toNat % 4 * 16 < 64 by omega),
    Option.bind_eq_bind, Option.bind_some, Option.pure_def]
  rw [toUInt8_eq (show a.toNat / 4 * 4 + a.toNat % 4 * 16 / 16 = a.toNat by omega)]

private theorem bytesOf3_symbols (hvalid : e.Valid) (a b : UInt8) :
    bytesOf3 e (symbol e (a.toNat / 4)) (symbol e (a.toNat % 4 * 16 + b.toNat / 16))
      (symbol e (b.toNat % 16 * 4)) = some [a, b] := by
  have ha := a.toNat_lt_size
  have hb := b.toNat_lt_size
  simp only [UInt8.size] at ha hb
  simp only [bytesOf3, symbolValue_symbol hvalid (show a.toNat / 4 < 64 by omega),
    symbolValue_symbol hvalid (show a.toNat % 4 * 16 + b.toNat / 16 < 64 by omega),
    symbolValue_symbol hvalid (show b.toNat % 16 * 4 < 64 by omega),
    Option.bind_eq_bind, Option.bind_some, Option.pure_def]
  have hfirst : a.toNat / 4 * 4 + (a.toNat % 4 * 16 + b.toNat / 16) / 16 = a.toNat := by omega
  have hsecond : (a.toNat % 4 * 16 + b.toNat / 16) % 16 * 16 + b.toNat % 16 * 4 / 4 =
      b.toNat := by omega
  rw [toUInt8_eq hfirst, toUInt8_eq hsecond]

private theorem bytesOf4_symbols (hvalid : e.Valid) (a b c : UInt8) :
    bytesOf4 e (symbol e (a.toNat / 4)) (symbol e (a.toNat % 4 * 16 + b.toNat / 16))
      (symbol e (b.toNat % 16 * 4 + c.toNat / 64)) (symbol e (c.toNat % 64)) =
      some [a, b, c] := by
  have ha := a.toNat_lt_size
  have hb := b.toNat_lt_size
  have hc := c.toNat_lt_size
  simp only [UInt8.size] at ha hb hc
  simp only [bytesOf4, symbolValue_symbol hvalid (show a.toNat / 4 < 64 by omega),
    symbolValue_symbol hvalid (show a.toNat % 4 * 16 + b.toNat / 16 < 64 by omega),
    symbolValue_symbol hvalid (show b.toNat % 16 * 4 + c.toNat / 64 < 64 by omega),
    symbolValue_symbol hvalid (show c.toNat % 64 < 64 by omega),
    Option.bind_eq_bind, Option.bind_some, Option.pure_def]
  have hfirst : a.toNat / 4 * 4 + (a.toNat % 4 * 16 + b.toNat / 16) / 16 = a.toNat := by omega
  have hsecond : (a.toNat % 4 * 16 + b.toNat / 16) % 16 * 16 +
      (b.toNat % 16 * 4 + c.toNat / 64) / 4 = b.toNat := by omega
  have hthird : (b.toNat % 16 * 4 + c.toNat / 64) % 4 * 64 + c.toNat % 64 = c.toNat := by omega
  rw [toUInt8_eq hfirst, toUInt8_eq hsecond, toUInt8_eq hthird]

/-- The encoder writes characters of the alphabet and padding. -/
theorem mem_encode {bytes : Bytes} {char : UInt8} (hchar : char ∈ encode e bytes) :
    (∃ value < 64, char = symbol e value) ∨ char = 61 := by
  have hsymbol : ∀ value < 64, (∃ found < 64, symbol e value = symbol e found) ∨
      symbol e value = 61 := fun value hvalue => .inl ⟨value, hvalue, rfl⟩
  have hpadding : ∀ count, ∀ char ∈ padding e count,
      (∃ value < 64, char = symbol e value) ∨ char = 61 := by
    intro count char hmem
    simp only [padding] at hmem
    split at hmem
    · exact .inr (List.eq_of_mem_replicate hmem)
    · cases hmem
  induction bytes using encode.induct with
  | case1 => simp [encode] at hchar
  | case2 a =>
      have ha := a.toNat_lt_size
      simp only [UInt8.size] at ha
      simp only [encode, List.mem_cons] at hchar
      rcases hchar with rfl | rfl | hchar
      · exact hsymbol _ (by omega)
      · exact hsymbol _ (by omega)
      · exact hpadding _ _ hchar
  | case3 a b =>
      have ha := a.toNat_lt_size
      have hb := b.toNat_lt_size
      simp only [UInt8.size] at ha hb
      simp only [encode, List.mem_cons] at hchar
      rcases hchar with rfl | rfl | rfl | hchar
      · exact hsymbol _ (by omega)
      · exact hsymbol _ (by omega)
      · exact hsymbol _ (by omega)
      · exact hpadding _ _ hchar
  | case4 a b c rest ih =>
      have ha := a.toNat_lt_size
      have hb := b.toNat_lt_size
      have hc := c.toNat_lt_size
      simp only [UInt8.size] at ha hb hc
      simp only [encode, List.mem_cons] at hchar
      rcases hchar with rfl | rfl | rfl | rfl | hchar
      · exact hsymbol _ (by omega)
      · exact hsymbol _ (by omega)
      · exact hsymbol _ (by omega)
      · exact hsymbol _ (by omega)
      · exact ih hchar

/-- The encoder writes ASCII, and nothing the reader skips. -/
theorem plain_of_mem_encode (hvalid : e.Valid) {bytes : Bytes} {char : UInt8}
    (hchar : char ∈ encode e bytes) : char ≠ 10 ∧ char ≠ 13 ∧ char < 0x80 := by
  rcases mem_encode hchar with ⟨value, hvalue, rfl⟩ | rfl
  · exact (symbol_spec hvalid hvalue).2.2
  · decide

private theorem decodeGroups_encode (hvalid : e.Valid) (bytes : Bytes) :
    decodeGroups e (encode e bytes) = some bytes := by
  have hnoPad : ∀ value < 64, symbol e value ≠ 61 :=
    fun value hvalue => (symbol_spec hvalid hvalue).2.1
  induction bytes using encode.induct with
  | case1 => rfl
  | case2 a =>
      by_cases hpadded : e.padded = true
      · simp [encode, padding, hpadded, decodeGroups, List.replicate, bytesOf2_symbols hvalid]
      · simp [encode, padding, hpadded, decodeGroups, bytesOf2_symbols hvalid]
  | case3 a b =>
      have hb := b.toNat_lt_size
      simp only [UInt8.size] at hb
      have hpad := hnoPad (b.toNat % 16 * 4) (by omega)
      by_cases hpadded : e.padded = true
      · simp [encode, padding, hpadded, decodeGroups, hpad, bytesOf3_symbols hvalid]
      · simp [encode, padding, hpadded, decodeGroups, bytesOf3_symbols hvalid]
  | case4 a b c rest ih =>
      have hpad := hnoPad (c.toNat % 64) (by omega)
      rw [encode]
      cases hrest : encode e rest with
      | nil =>
          rw [hrest] at ih
          have hnil : rest = [] := by simpa [decodeGroups] using ih.symm
          simp [decodeGroups, hpad, bytesOf4_symbols hvalid, hnil]
      | cons head tail =>
          rw [hrest] at ih
          simp [decodeGroups, bytesOf4_symbols hvalid, ih]

/-- Reading what was written gives the bytes back. -/
theorem decode_encode (hvalid : e.Valid) (bytes : Bytes) :
    decode e (encode e bytes) = some bytes := by
  have hfilter : ((encode e bytes).filter fun char => char ≠ 10 ∧ char ≠ 13) =
      encode e bytes := by
    rw [List.filter_eq_self]
    intro char hchar
    obtain ⟨hnewline, hreturn, -⟩ := plain_of_mem_encode hvalid hchar
    simp [hnewline, hreturn]
  rw [decode, hfilter, decodeGroups_encode hvalid]

end SecurePastebin.Base64
