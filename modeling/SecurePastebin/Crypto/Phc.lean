import SecurePastebin.Core.Base64
import SecurePastebin.Crypto.Envelope

/-!
# PHC strings

The text form of a password hash in `internal/crypto/phc.go`: written with
`Sprintf`, read by splitting at `$` and scanning the cost parameters with
`Sscanf`, which skips blanks before a number and ignores what follows the last
one.  Error texts are kept without the values the library prints into them.
-/

namespace SecurePastebin.Crypto

open Text Base64 Paste

/-! ## Scanning -/

/-- The one-byte white space of `fmt`, the newline apart. -/
def isBlank (byte : UInt8) : Bool := byte = 32 || byte = 9 || (11 ≤ byte && byte ≤ 13)

/-- U+0085 and U+00A0. -/
def isBlank2 (a b : UInt8) : Bool := a = 0xC2 && (b = 0x85 || b = 0xA0)

/-- U+1680, U+2000 to U+200A, U+2028, U+2029, U+202F, U+205F and U+3000. -/
def isBlank3 (a b c : UInt8) : Bool :=
  (a = 0xE1 && b = 0x9A && c = 0x80) ||
    (a = 0xE2 && b = 0x80 && (c ≤ 0x8A && 0x80 ≤ c || c = 0xA8 || c = 0xA9 || c = 0xAF)) ||
    (a = 0xE2 && b = 0x81 && c = 0x9F) || (a = 0xE3 && b = 0x80 && c = 0x80)

/-- `SkipSpace`, for which a newline is an error. -/
def skipSpace : Bytes → Except String Bytes
  | [] => .ok []
  | [a] =>
      if a = 10 then .error "unexpected newline" else if isBlank a then .ok [] else .ok [a]
  | [a, b] =>
      if a = 10 then .error "unexpected newline"
      else if isBlank a then skipSpace [b]
      else if isBlank2 a b then .ok []
      else .ok [a, b]
  | a :: b :: c :: rest =>
      if a = 10 then .error "unexpected newline"
      else if isBlank a then skipSpace (b :: c :: rest)
      else if isBlank2 a b then skipSpace (c :: rest)
      else if isBlank3 a b c then skipSpace rest
      else .ok (a :: b :: c :: rest)

/-- A literal part of the format. -/
def matchLiteral : Bytes → Bytes → Except String Bytes
  | [], text => .ok text
  | _ :: _, [] => .error "unexpected EOF"
  | expected :: literal, byte :: text =>
      if expected = byte then matchLiteral literal text
      else .error "input does not match format"

/-- `%d` into an unsigned integer of the given width: its value and the rest of
the text. -/
def scanUint (bits : ℕ) (text : Bytes) : Except String (ℕ × Bytes) :=
  match skipSpace text with
  | .error err => .error err
  | .ok text =>
    if text = [] then .error "EOF"
    else
      let token := text.takeWhile isDigit
      if token = [] then .error "expected integer"
      else if 2 ^ 64 ≤ digitsValue token then .error "value out of range"
      else if 2 ^ bits ≤ digitsValue token then .error "unsigned integer overflow"
      else .ok (digitsValue token, text.dropWhile isDigit)

/-- `Sscanf(text, "m=%d,t=%d,p=%d", …)`. -/
def scanParams (text : Bytes) : Except String Argon2Params := do
  let text ← matchLiteral (ascii "m=") text
  let (memoryKiB, text) ← scanUint 32 text
  let text ← matchLiteral (ascii ",t=") text
  let (time, text) ← scanUint 32 text
  let text ← matchLiteral (ascii ",p=") text
  let (threads, _) ← scanUint 8 text
  return ⟨time.toUInt32, memoryKiB.toUInt32, threads.toUInt8⟩

/-! ## The strings -/

structure PHC where
  params : Argon2Params
  salt : Bytes
  key : Bytes
  deriving DecidableEq

/-- The string `HashPassword` returns. -/
def formatPHC (phc : PHC) : Bytes :=
  ascii "$argon2id$v=19$m=" ++ padded 1 phc.params.memoryKiB.toNat ++
    ascii ",t=" ++ padded 1 phc.params.time.toNat ++
    ascii ",p=" ++ padded 1 phc.params.threads.toNat ++
    ascii "$" ++ encode rawStdEncoding phc.salt ++ ascii "$" ++ encode rawStdEncoding phc.key

def errUnsupportedPHC : Err := .message "crypto: unsupported phc string"

/-- What `VerifyPassword` does before it derives a key.  What stands before the
first `$` is not looked at, and the parameters are not checked. -/
def parsePHC (text : Bytes) : Except Err PHC :=
  match text.splitOn 36 with
  | [_, algorithm, version, params, salt, key] =>
    if algorithm ≠ ascii "argon2id" ∨ version ≠ ascii "v=19" then .error errUnsupportedPHC
    else
      match scanParams params with
      | .error text => .error (.wrap "crypto: phc params" (.message text))
      | .ok params =>
        match decode rawStdEncoding salt, decode rawStdEncoding key with
        | some salt, some key => .ok ⟨params, salt, key⟩
        | _, _ => .error (.message "illegal base64 data")
  | _ => .error errUnsupportedPHC

/-! ## Round trip -/

theorem matchLiteral_append (literal text : Bytes) :
    matchLiteral literal (literal ++ text) = .ok text := by
  induction literal with
  | nil => rfl
  | cons byte literal ih =>
      rw [List.cons_append, matchLiteral, if_pos rfl, ih]

theorem isBlank_eq_false {digit : UInt8} (hdigit : isDigit digit = true) :
    isBlank digit = false := by
  simp only [isDigit, Bool.and_eq_true, decide_eq_true_eq, UInt8.le_iff_toNat_le] at hdigit
  obtain ⟨hlow, -⟩ := hdigit
  simp only [isBlank, Bool.or_eq_false_iff, Bool.and_eq_false_iff, decide_eq_false_iff_not,
    UInt8.le_iff_toNat_le, ← UInt8.toNat_inj, UInt8.toNat_ofNat] at hlow ⊢
  omega

/-- A text that starts with a digit has no blank to skip. -/
theorem skipSpace_digit {digit : UInt8} (hdigit : isDigit digit = true) (rest : Bytes) :
    skipSpace (digit :: rest) = .ok (digit :: rest) := by
  have hne : ∀ other : UInt8, isDigit other = false → digit ≠ other := by
    rintro other hother rfl
    rw [hdigit] at hother
    cases hother
  have hblank := isBlank_eq_false hdigit
  have hblank2 : ∀ b, isBlank2 digit b = false := by
    intro b
    simp [isBlank2, hne 0xC2 (by decide)]
  have hblank3 : ∀ b c, isBlank3 digit b c = false := by
    intro b c
    simp [isBlank3, hne 0xE1 (by decide), hne 0xE2 (by decide), hne 0xE3 (by decide)]
  match rest with
  | [] => simp [skipSpace, hne 10 (by decide), hblank]
  | [b] => simp [skipSpace, hne 10 (by decide), hblank, hblank2]
  | b :: c :: rest => simp [skipSpace, hne 10 (by decide), hblank, hblank2, hblank3]

theorem scanUint_padded {bits value : ℕ} (hbits : bits ≤ 64) (hvalue : value < 2 ^ bits)
    {rest : Bytes} (hrest : ∀ byte, rest.head? = some byte → isDigit byte = false) :
    scanUint bits (padded 1 value ++ rest) = .ok (value, rest) := by
  have hdigits : ∀ byte ∈ padded 1 value, isDigit byte = true := fun byte hbyte =>
    isDigit_of_mem_padded hbyte
  have htoken : (padded 1 value ++ rest).takeWhile isDigit = padded 1 value := by
    rw [List.takeWhile_append_of_pos hdigits]
    cases rest with
    | nil => simp
    | cons byte rest => simp [hrest byte rfl]
  have hleft : (padded 1 value ++ rest).dropWhile isDigit = rest := by
    rw [List.dropWhile_append_of_pos hdigits]
    cases rest with
    | nil => rfl
    | cons byte rest => simp [hrest byte rfl]
  have hskip : skipSpace (padded 1 value ++ rest) = .ok (padded 1 value ++ rest) := by
    cases hpadded : padded 1 value with
    | nil =>
        have := le_length_padded 1 value
        simp [hpadded] at this
    | cons digit digits =>
        exact skipSpace_digit (hdigits digit (by simp [hpadded])) _
  have hne : padded 1 value ≠ [] := by
    intro hnil
    have := le_length_padded 1 value
    simp [hnil] at this
  have hfits : value < 2 ^ 64 := hvalue.trans_le (Nat.pow_le_pow_right (by decide) hbits)
  simp only [scanUint, hskip, htoken, hleft, digitsValue_padded]
  rw [if_neg (by simp [hne]), if_neg hne, if_neg (not_le.mpr hfits), if_neg (not_le.mpr hvalue)]

/-- The text of the cost parameters. -/
def paramsText (params : Argon2Params) : Bytes :=
  ascii "m=" ++ (padded 1 params.memoryKiB.toNat ++ (ascii ",t=" ++
    (padded 1 params.time.toNat ++ (ascii ",p=" ++ padded 1 params.threads.toNat))))

theorem scanParams_paramsText (params : Argon2Params) :
    scanParams (paramsText params) = .ok params := by
  have hmemory : ∀ rest, scanUint 32 (padded 1 params.memoryKiB.toNat ++ (ascii ",t=" ++ rest)) =
      .ok (params.memoryKiB.toNat, ascii ",t=" ++ rest) := fun rest =>
    scanUint_padded (by decide) params.memoryKiB.toNat_lt (by rintro byte ⟨⟩; decide)
  have htime : ∀ rest, scanUint 32 (padded 1 params.time.toNat ++ (ascii ",p=" ++ rest)) =
      .ok (params.time.toNat, ascii ",p=" ++ rest) := fun rest =>
    scanUint_padded (by decide) params.time.toNat_lt (by rintro byte ⟨⟩; decide)
  have hthreads : scanUint 8 (padded 1 params.threads.toNat) = .ok (params.threads.toNat, []) := by
    rw [← List.append_nil (padded 1 params.threads.toNat)]
    exact scanUint_padded (by decide) params.threads.toNat_lt (by rintro byte ⟨⟩)
  simp only [scanParams, paramsText, matchLiteral_append, hmemory, htime, hthreads, bind,
    Except.bind]
  simp [pure, Except.pure]

/-- The fields between the dollar signs. -/
def phcFields (phc : PHC) : List Bytes :=
  [[], ascii "argon2id", ascii "v=19", paramsText phc.params,
    encode rawStdEncoding phc.salt, encode rawStdEncoding phc.key]

theorem formatPHC_eq (phc : PHC) : formatPHC phc = [36].intercalate (phcFields phc) := by
  have hhead : ascii "$argon2id$v=19$m=" =
      36 :: (ascii "argon2id" ++ 36 :: (ascii "v=19" ++ 36 :: ascii "m=")) := by decide
  have hdollar : ascii "$" = [36] := by decide
  simp [formatPHC, phcFields, paramsText, hhead, hdollar, List.intercalate, List.intersperse]

private theorem dollar_notMem_padded (value : ℕ) : (36 : UInt8) ∉ padded 1 value := by
  intro hmem
  have := isDigit_of_mem_padded hmem
  revert this
  decide

theorem dollar_notMem_phcFields {phc : PHC} {field : Bytes} (hfield : field ∈ phcFields phc) :
    (36 : UInt8) ∉ field := by
  have hencoded : ∀ bytes : Bytes, (36 : UInt8) ∉ encode rawStdEncoding bytes := by
    intro bytes hmem
    rcases mem_encode hmem with ⟨value, hvalue, hsymbol⟩ | hpadding
    · have hvalue := symbolValue_symbol rawStdEncoding_valid hvalue
      rw [← hsymbol, show symbolValue rawStdEncoding 36 = none by decide] at hvalue
      cases hvalue
    · revert hpadding
      decide
  simp only [phcFields, List.mem_cons, List.not_mem_nil, or_false] at hfield
  rcases hfield with rfl | rfl | rfl | rfl | rfl | rfl
  · decide
  · decide
  · decide
  · simp only [paramsText, List.mem_append, not_or]
    exact ⟨by decide, dollar_notMem_padded _, by decide, dollar_notMem_padded _, by decide,
      dollar_notMem_padded _⟩
  · exact hencoded phc.salt
  · exact hencoded phc.key

/-- Verification reads back what hashing wrote, whatever the parameters. -/
theorem parsePHC_formatPHC (phc : PHC) : parsePHC (formatPHC phc) = .ok phc := by
  have hsplit : (formatPHC phc).splitOn 36 = phcFields phc := by
    rw [formatPHC_eq]
    exact List.splitOn_intercalate 36 (fun field hfield => dollar_notMem_phcFields hfield)
      (by simp [phcFields])
  simp only [parsePHC, hsplit, phcFields, scanParams_paramsText,
    decode_encode rawStdEncoding_valid]
  simp

end SecurePastebin.Crypto
