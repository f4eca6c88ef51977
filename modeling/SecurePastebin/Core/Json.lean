import SecurePastebin.Core.Utf8

/-!
# JSON text

The encoder is the one of `encoding/json` with its default escaping, on a
syntax tree whose members keep their order.  The reader accepts arbitrary JSON
text: white space, every escape, surrogate pairs, numbers with fractions and
exponents.  What the encoder writes, the reader reads back.
-/

namespace SecurePastebin.Json

open Text Utf8

inductive Value where
  | null
  | bool (value : Bool)
  /-- A number is kept as its literal. -/
  | number (literal : Bytes)
  | string (text : Bytes)
  | array (items : List Value)
  | object (members : List (Bytes × Value))

/-! ## Writing -/

/-- The letter of a two-character escape, as the encoder uses them. -/
def escapeLetter (byte : UInt8) : Option UInt8 :=
  if byte = 0x22 ∨ byte = 0x5C then some byte
  else if byte = 0x08 then some 0x62
  else if byte = 0x0C then some 0x66
  else if byte = 0x0A then some 0x6E
  else if byte = 0x0D then some 0x72
  else if byte = 0x09 then some 0x74
  else none

/-- Control characters, and the three characters that are special in HTML. -/
def isEscaped (byte : UInt8) : Bool :=
  byte < 0x20 || byte == 0x3C || byte == 0x3E || byte == 0x26

def quoteByte (byte : UInt8) : Bytes :=
  match escapeLetter byte with
  | some letter => [0x5C, letter]
  | none => if isEscaped byte then [0x5C, 0x75, 0x30, 0x30] ++ hexByte byte else [byte]

def lineSeparator : Bytes := [0xE2, 0x80, 0xA8]

def paragraphSeparator : Bytes := [0xE2, 0x80, 0xA9]

def quoteRune : Bytes → Bytes
  | [byte] => quoteByte byte
  | bytes =>
      if bytes = lineSeparator then ascii "\\u2028"
      else if bytes = paragraphSeparator then ascii "\\u2029"
      else bytes

def quotePiece : Piece → Bytes
  | .rune bytes => quoteRune bytes
  | .stray _ => ascii "\\ufffd"

/-- The encoder's string body: everything between the quotation marks. -/
def quoteBody (text : Bytes) : Bytes := (pieces text).flatMap quotePiece

def quote (text : Bytes) : Bytes := 0x22 :: (quoteBody text ++ [0x22])

mutual

def render : Value → Bytes
  | .null => ascii "null"
  | .bool true => ascii "true"
  | .bool false => ascii "false"
  | .number literal => literal
  | .string text => quote text
  | .array items => 0x5B :: (renderItems items ++ [0x5D])
  | .object members => 0x7B :: (renderMembers members ++ [0x7D])

def renderItems : List Value → Bytes
  | [] => []
  | [item] => render item
  | item :: items => render item ++ 0x2C :: renderItems items

def renderMembers : List (Bytes × Value) → Bytes
  | [] => []
  | [(key, value)] => quote key ++ 0x3A :: render value
  | (key, value) :: members => quote key ++ 0x3A :: (render value ++ 0x2C :: renderMembers members)

end

/-! ## Reading strings -/

/-- What a string body is made of: bytes that stand for themselves, and escaped
UTF-16 code units. -/
inductive Element where
  | raw (byte : UInt8)
  | unit (code : ℕ)
  deriving DecidableEq

def escapeUnit (letter : UInt8) : Option ℕ :=
  if letter = 0x22 ∨ letter = 0x5C ∨ letter = 0x2F then some letter.toNat
  else if letter = 0x62 then some 0x08
  else if letter = 0x66 then some 0x0C
  else if letter = 0x6E then some 0x0A
  else if letter = 0x72 then some 0x0D
  else if letter = 0x74 then some 0x09
  else none

def unitOfHex (a b c d : UInt8) : Option ℕ :=
  match byteOfHex a b, byteOfHex c d with
  | some high, some low => some (high.toNat * 256 + low.toNat)
  | _, _ => none

/-- The elements up to the closing quotation mark, and what follows it. -/
def elements : Bytes → Option (List Element × Bytes)
  | [] => none
  | byte :: rest =>
      if byte = 0x22 then some ([], rest)
      else if byte = 0x5C then
        match rest with
        | [] => none
        | letter :: rest =>
            if letter = 0x75 then
              match rest with
              | a :: b :: c :: d :: rest =>
                  match unitOfHex a b c d, elements rest with
                  | some code, some (list, tail) => some (.unit code :: list, tail)
                  | _, _ => none
              | _ => none
            else
              match escapeUnit letter, elements rest with
              | some code, some (list, tail) => some (.unit code :: list, tail)
              | _, _ => none
      else if byte < 0x20 then none
      else
        match elements rest with
        | some (list, tail) => some (.raw byte :: list, tail)
        | none => none

def isHighSurrogate (code : ℕ) : Bool := 0xD800 ≤ code && code < 0xDC00

def isLowSurrogate (code : ℕ) : Bool := 0xDC00 ≤ code && code < 0xE000

/-- The text of a string body.  Raw bytes are collected in `pending` until an
escape or the end, and stray ones among them are replaced; so is a surrogate
without its partner. -/
def assemble (pending : Bytes) : List Element → Bytes
  | [] => sanitize pending
  | .raw byte :: rest => assemble (pending ++ [byte]) rest
  | .unit code :: rest =>
      if isHighSurrogate code then
        match rest with
        | .unit low :: tail =>
            if isLowSurrogate low then
              sanitize pending ++ encodeRune (0x10000 + (code - 0xD800) * 0x400 + (low - 0xDC00)) ++
                assemble [] tail
            else sanitize pending ++ replacement ++ assemble [] (.unit low :: tail)
        | .raw byte :: tail => sanitize pending ++ replacement ++ assemble [] (.raw byte :: tail)
        | [] => sanitize pending ++ replacement
      else if isLowSurrogate code then sanitize pending ++ replacement ++ assemble [] rest
      else sanitize pending ++ encodeRune code ++ assemble [] rest

/-- A string, from after its opening quotation mark. -/
def readString (text : Bytes) : Option (Bytes × Bytes) :=
  match elements text with
  | some (list, tail) => some (assemble [] list, tail)
  | none => none

/-! ## Reading values -/

def isSpace (byte : UInt8) : Bool :=
  byte == 0x20 || byte == 0x09 || byte == 0x0A || byte == 0x0D

def skipSpace (text : Bytes) : Bytes := text.dropWhile isSpace

/-- One or more digits. -/
def readDigits (text : Bytes) : Option (Bytes × Bytes) :=
  let digits := text.takeWhile isDigit
  if digits = [] then none else some (digits, text.dropWhile isDigit)

/-- A sign in front of `text`, if it is one of `signs`. -/
def readSign (signs : Bytes) (text : Bytes) : Bytes × Bytes :=
  match text with
  | [] => ([], [])
  | byte :: rest => if byte ∈ signs then ([byte], rest) else ([], byte :: rest)

/-- The integer part: digits without a superfluous leading zero. -/
def readInteger (text : Bytes) : Option (Bytes × Bytes) :=
  match readDigits text with
  | some (0x30 :: _ :: _, _) => none
  | other => other

def readFraction (text : Bytes) : Option (Bytes × Bytes) :=
  match text with
  | 0x2E :: rest => (readDigits rest).map fun (digits, rest) => (0x2E :: digits, rest)
  | _ => some ([], text)

def readExponent (text : Bytes) : Option (Bytes × Bytes) :=
  match text with
  | [] => some ([], [])
  | byte :: rest =>
      if byte = 0x65 ∨ byte = 0x45 then
        let (sign, rest) := readSign [0x2B, 0x2D] rest
        (readDigits rest).map fun (digits, rest) => (byte :: (sign ++ digits), rest)
      else some ([], byte :: rest)

/-- A number literal and what follows it. -/
def readNumber (text : Bytes) : Option (Bytes × Bytes) := do
  let (sign, rest) := readSign [0x2D] text
  let (integer, rest) ← readInteger rest
  let (fraction, rest) ← readFraction rest
  let (exponent, rest) ← readExponent rest
  some (sign ++ integer ++ fraction ++ exponent, rest)

/-- What follows `word`, if the text starts with it. -/
def readWord (word text : Bytes) : Option Bytes :=
  if word.isPrefixOf text then some (text.drop word.length) else none

mutual

def readValue : ℕ → Bytes → Option (Value × Bytes)
  | 0, _ => none
  | fuel + 1, text =>
      match skipSpace text with
      | [] => none
      | byte :: rest =>
          if byte = 0x22 then (readString rest).map fun (text, rest) => (.string text, rest)
          else if byte = 0x7B then
            match skipSpace rest with
            | 0x7D :: rest => some (.object [], rest)
            | _ => (readMembers fuel rest).map fun (members, rest) => (.object members, rest)
          else if byte = 0x5B then
            match skipSpace rest with
            | 0x5D :: rest => some (.array [], rest)
            | _ => (readItems fuel rest).map fun (items, rest) => (.array items, rest)
          else if byte = 0x6E then (readWord (ascii "ull") rest).map (.null, ·)
          else if byte = 0x74 then (readWord (ascii "rue") rest).map (.bool true, ·)
          else if byte = 0x66 then (readWord (ascii "alse") rest).map (.bool false, ·)
          else (readNumber (byte :: rest)).map fun (literal, rest) => (.number literal, rest)

/-- The items of an array from the first one on, with the closing bracket. -/
def readItems : ℕ → Bytes → Option (List Value × Bytes)
  | 0, _ => none
  | fuel + 1, text =>
      match readValue fuel text with
      | none => none
      | some (item, rest) =>
          match skipSpace rest with
          | 0x2C :: rest => (readItems fuel rest).map fun (items, rest) => (item :: items, rest)
          | 0x5D :: rest => some ([item], rest)
          | _ => none

/-- The members of an object from the first one on, with the closing brace. -/
def readMembers : ℕ → Bytes → Option (List (Bytes × Value) × Bytes)
  | 0, _ => none
  | fuel + 1, text =>
      match skipSpace text with
      | 0x22 :: rest =>
          match readString rest with
          | none => none
          | some (key, rest) =>
              match skipSpace rest with
              | 0x3A :: rest =>
                  match readValue fuel rest with
                  | none => none
                  | some (value, rest) =>
                      match skipSpace rest with
                      | 0x2C :: rest =>
                          (readMembers fuel rest).map fun (members, rest) =>
                            ((key, value) :: members, rest)
                      | 0x7D :: rest => some ([(key, value)], rest)
                      | _ => none
              | _ => none
      | _ => none

end

/-- A whole text: one value with nothing but white space around it. -/
def parse (text : Bytes) : Option Value :=
  match readValue (text.length + 1) text with
  | some (value, rest) => if skipSpace rest = [] then some value else none
  | none => none

/-! ## Strings read back -/

/-- The elements the encoder writes for one rune. -/
private def runeElements : Bytes → List Element
  | [byte] =>
      if (escapeLetter byte).isSome || isEscaped byte then [.unit byte.toNat] else [.raw byte]
  | bytes =>
      if bytes = lineSeparator then [.unit 0x2028]
      else if bytes = paragraphSeparator then [.unit 0x2029]
      else bytes.map .raw

private theorem escapeLetter_spec : ∀ byte : UInt8, ∀ letter ∈ escapeLetter byte,
    letter ≠ 0x75 ∧ escapeUnit letter = some byte.toNat ∧ byte < 0x80 := by
  -- deciding over both bytes would take every pair of them
  have hall : ∀ byte : UInt8, (escapeLetter byte).all (fun letter =>
      decide (letter ≠ 0x75 ∧ escapeUnit letter = some byte.toNat ∧ byte < 0x80)) = true := by
    decide +kernel
  intro byte letter hletter
  have hbyte := hall byte
  rw [Option.mem_def.mp hletter] at hbyte
  exact of_decide_eq_true hbyte

private theorem isEscaped_spec : ∀ byte : UInt8, isEscaped byte = true →
    unitOfHex 0x30 0x30 (hexDigit (byte / 16)) (hexDigit (byte % 16)) = some byte.toNat := by
  decide +kernel

private theorem plain_spec : ∀ byte : UInt8, escapeLetter byte = none → isEscaped byte = false →
    byte ≠ 0x22 ∧ byte ≠ 0x5C ∧ ¬ byte < 0x20 := by
  intro byte hletter hescaped
  refine ⟨?_, ?_, ?_⟩
  · rintro rfl
    simp [escapeLetter] at hletter
  · rintro rfl
    simp [escapeLetter] at hletter
  · simp only [isEscaped, Bool.or_eq_false_iff, decide_eq_false_iff_not] at hescaped
    exact hescaped.1.1.1

private theorem high_plain : ∀ byte : UInt8, 0x80 ≤ byte →
    byte ≠ 0x22 ∧ byte ≠ 0x5C ∧ ¬ byte < 0x20 := by
  intro byte hhigh
  simp only [ne_eq, ← UInt8.toNat_inj, UInt8.lt_iff_toNat_lt, UInt8.le_iff_toNat_le] at hhigh ⊢
  simp at hhigh ⊢
  omega

theorem elements_raw {byte : UInt8} (hplain : byte ≠ 0x22 ∧ byte ≠ 0x5C ∧ ¬ byte < 0x20)
    (rest : Bytes) :
    elements (byte :: rest) = (elements rest).map fun (list, tail) => (.raw byte :: list, tail) := by
  obtain ⟨hquote, hescape, hcontrol⟩ := hplain
  rw [elements.eq_def]
  simp only [hquote, hescape, hcontrol, if_false]
  cases elements rest <;> rfl

private theorem elements_raws {bytes : Bytes} (hhigh : ∀ byte ∈ bytes, 0x80 ≤ byte)
    (rest : Bytes) :
    elements (bytes ++ rest) =
      (elements rest).map fun (list, tail) => (bytes.map .raw ++ list, tail) := by
  induction bytes with
  | nil => simp
  | cons byte bytes ih =>
      rw [List.cons_append, elements_raw (high_plain byte (hhigh byte List.mem_cons_self)),
        ih fun other hother => hhigh other (List.mem_cons_of_mem _ hother)]
      cases elements rest <;> rfl

private theorem elements_quoteByte (byte : UInt8) (rest : Bytes) :
    elements (quoteByte byte ++ rest) =
      (elements rest).map fun (list, tail) => (runeElements [byte] ++ list, tail) := by
  cases hletter : escapeLetter byte with
  | some letter =>
      obtain ⟨hne, hunit, -⟩ := escapeLetter_spec byte letter hletter
      simp only [quoteByte, hletter, runeElements, Option.isSome_some, Bool.true_or, if_true,
        List.cons_append, List.nil_append]
      rw [elements.eq_def]
      simp only [hne, hunit, if_true, if_false, show (0x5C : UInt8) ≠ 0x22 by decide]
      cases elements rest <;> rfl
  | none =>
      cases hescaped : isEscaped byte with
      | true =>
          simp only [quoteByte, hletter, hescaped, runeElements, Option.isSome_none, Bool.false_or,
            if_true, hexByte, List.cons_append, List.nil_append]
          rw [elements.eq_def]
          simp only [isEscaped_spec byte hescaped, if_true, if_false,
            show (0x5C : UInt8) ≠ 0x22 by decide]
          cases elements rest <;> rfl
      | false =>
          simp only [quoteByte, hletter, hescaped, runeElements, Option.isSome_none, Bool.or_self,
            if_false, Bool.false_eq_true, List.cons_append, List.nil_append]
          exact elements_raw (plain_spec byte hletter hescaped) rest

private theorem high_of_isRune {bytes : Bytes} (hrune : isRune bytes = true)
    (hlong : ∀ byte, bytes ≠ [byte]) : ∀ byte ∈ bytes, 0x80 ≤ byte := by
  have hfirst : ∀ a : UInt8, (0xC2 ≤ a ∨ 0xE0 ≤ a ∨ 0xF0 ≤ a) → 0x80 ≤ a := by
    intro a
    simp only [UInt8.le_iff_toNat_le]
    simp
    omega
  have htail : ∀ a : UInt8, isTail a = true → 0x80 ≤ a := by
    intro a htail
    simp only [isTail, Bool.and_eq_true, decide_eq_true_eq] at htail
    exact htail.1
  have hthree : ∀ a b : UInt8, isSecondOf3 a b = true → 0x80 ≤ b := by
    intro a b
    simp only [isSecondOf3, isTail, UInt8.le_iff_toNat_le]
    split_ifs <;> simp <;> omega
  have hfour : ∀ a b : UInt8, isSecondOf4 a b = true → 0x80 ≤ b := by
    intro a b
    simp only [isSecondOf4, isTail, UInt8.le_iff_toNat_le]
    split_ifs <;> simp <;> omega
  unfold isRune at hrune
  split at hrune
  · rename_i a
    exact absurd rfl (hlong a)
  · rename_i a b
    simp only [isRune2, Bool.and_eq_true, decide_eq_true_eq] at hrune
    simp [hfirst a (.inl hrune.1.1), htail b hrune.2]
  · rename_i a b c
    simp only [isRune3, Bool.and_eq_true, decide_eq_true_eq] at hrune
    simp [hfirst a (.inr (.inl hrune.1.1.1)), hthree a b hrune.1.2, htail c hrune.2]
  · rename_i a b c d
    simp only [isRune4, Bool.and_eq_true, decide_eq_true_eq] at hrune
    simp [hfirst a (.inr (.inr hrune.1.1.1.1)), hfour a b hrune.1.1.2, htail c hrune.1.2,
      htail d hrune.2]
  · cases hrune

theorem elements_unit {a b c d : UInt8} {code : ℕ} (hcode : unitOfHex a b c d = some code)
    (rest : Bytes) :
    elements (0x5C :: 0x75 :: a :: b :: c :: d :: rest) =
      (elements rest).map fun (list, tail) => (.unit code :: list, tail) := by
  rw [elements.eq_def]
  simp only [hcode, if_true, if_false, show (0x5C : UInt8) ≠ 0x22 by decide]
  cases elements rest <;> rfl

private theorem elements_quoteRune {bytes : Bytes} (hrune : isRune bytes = true) (rest : Bytes) :
    elements (quoteRune bytes ++ rest) =
      (elements rest).map fun (list, tail) => (runeElements bytes ++ list, tail) := by
  by_cases hone : ∃ byte, bytes = [byte]
  · obtain ⟨byte, rfl⟩ := hone
    exact elements_quoteByte byte rest
  · push Not at hone
    have hquote : quoteRune bytes = if bytes = lineSeparator then ascii "\\u2028"
        else if bytes = paragraphSeparator then ascii "\\u2029" else bytes := by
      rw [quoteRune]
      exact hone
    have helements : runeElements bytes = if bytes = lineSeparator then [.unit 0x2028]
        else if bytes = paragraphSeparator then [.unit 0x2029] else bytes.map .raw := by
      rw [runeElements]
      exact hone
    rw [hquote, helements]
    split_ifs with hline hparagraph
    · exact elements_unit (by decide) rest
    · exact elements_unit (by decide) rest
    · exact elements_raws (high_of_isRune hrune hone) rest

theorem assemble_raws (pending bytes : Bytes) (rest : List Element) :
    assemble pending (bytes.map .raw ++ rest) = assemble (pending ++ bytes) rest := by
  induction bytes generalizing pending with
  | nil => simp
  | cons byte bytes ih =>
      rw [List.map_cons, List.cons_append, assemble, ih, List.append_assoc]
      rfl

/-- One rune adds its bytes, either to what is pending or after it. -/
private theorem assemble_rune {bytes pending : Bytes} (hrune : isRune bytes = true)
    (hpending : valid pending = true) (rest : List Element) :
    assemble pending (runeElements bytes ++ rest) = assemble (pending ++ bytes) rest ∨
      assemble pending (runeElements bytes ++ rest) = pending ++ bytes ++ assemble [] rest := by
  by_cases hone : ∃ byte, bytes = [byte]
  · obtain ⟨byte, rfl⟩ := hone
    have hlow : byte < 0x80 := by simpa [isRune] using hrune
    have hunit : ∀ byte : UInt8, byte < 0x80 → isHighSurrogate byte.toNat = false ∧
        isLowSurrogate byte.toNat = false ∧ encodeRune byte.toNat = [byte] := by
      intro byte hbyte
      have hlt : byte.toNat < 0x80 := by simpa [UInt8.lt_iff_toNat_lt] using hbyte
      refine ⟨?_, ?_, ?_⟩
      · simp only [isHighSurrogate, Bool.and_eq_false_iff, decide_eq_false_iff_not]
        omega
      · simp only [isLowSurrogate, Bool.and_eq_false_iff, decide_eq_false_iff_not]
        omega
      · rw [encodeRune, if_pos hlt]
        simp
    obtain ⟨hhigh, hlowSurrogate, hencode⟩ := hunit byte hlow
    rw [runeElements]
    split_ifs with hescaped
    · right
      rw [List.cons_append, List.nil_append, assemble.eq_def]
      simp only [hhigh, hlowSurrogate, hencode, Bool.false_eq_true, if_false,
        sanitize_of_valid hpending]
    · exact .inl (assemble_raws pending [byte] rest)
  · push Not at hone
    have helements : runeElements bytes = if bytes = lineSeparator then [.unit 0x2028]
        else if bytes = paragraphSeparator then [.unit 0x2029] else bytes.map .raw := by
      rw [runeElements]
      exact hone
    have hsurrogates : isHighSurrogate 0x2028 = false ∧ isLowSurrogate 0x2028 = false ∧
        isHighSurrogate 0x2029 = false ∧ isLowSurrogate 0x2029 = false := by decide
    obtain ⟨hline1, hline2, hparagraph1, hparagraph2⟩ := hsurrogates
    rw [helements]
    split_ifs with hline hparagraph
    · right
      rw [List.cons_append, List.nil_append, assemble.eq_def]
      simp only [hline1, hline2, Bool.false_eq_true, if_false, sanitize_of_valid hpending, hline]
      rfl
    · right
      rw [List.cons_append, List.nil_append, assemble.eq_def]
      simp only [hparagraph1, hparagraph2, Bool.false_eq_true, if_false,
        sanitize_of_valid hpending, hparagraph]
      rfl
    · exact .inl (assemble_raws pending bytes rest)

private theorem quoteBody_rune_append {bytes : Bytes} (hrune : isRune bytes = true)
    (rest : Bytes) : quoteBody (bytes ++ rest) = quoteRune bytes ++ quoteBody rest := by
  simp [quoteBody, pieces_rune_append hrune, quotePiece]

/-- A valid string is read back from its quoted form. -/
theorem readString_quoteBody {text : Bytes} (hvalid : valid text = true) (rest : Bytes) :
    readString (quoteBody text ++ 0x22 :: rest) = some (text, rest) := by
  have hgeneral : ∃ list, elements (quoteBody text ++ 0x22 :: rest) = some (list, rest) ∧
      ∀ pending, valid pending = true → assemble pending list = pending ++ text := by
    apply valid_induction (motive := fun text => ∃ list,
      elements (quoteBody text ++ 0x22 :: rest) = some (list, rest) ∧
        ∀ pending, valid pending = true → assemble pending list = pending ++ text) _ _ text hvalid
    · refine ⟨[], by simp [quoteBody, pieces, elements.eq_def], ?_⟩
      intro pending hpending
      simpa [assemble] using sanitize_of_valid hpending
    · rintro bytes tail hrune - ⟨list, helements, hassemble⟩
      refine ⟨runeElements bytes ++ list, ?_, ?_⟩
      · rw [quoteBody_rune_append hrune, List.append_assoc, elements_quoteRune hrune, helements]
        rfl
      · intro pending hpending
        have hgrown : valid (pending ++ bytes) = true := by
          rw [valid_append hpending, ← List.append_nil bytes, valid_rune_append hrune]
          rfl
        have hempty := hassemble [] valid_nil
        rcases assemble_rune hrune hpending list with heq | heq
        · rw [heq, hassemble _ hgrown, List.append_assoc]
        · rw [heq, hempty, List.nil_append, List.append_assoc]
  obtain ⟨list, helements, hassemble⟩ := hgeneral
  simp [readString, helements, hassemble [] valid_nil]

/-! ## Numbers read back -/

/-- What may follow a number: nothing that would continue it. -/
def EndsNumber (rest : Bytes) : Prop :=
  ∀ byte ∈ rest.head?, isDigit byte = false ∧ byte ≠ 0x2E ∧ byte ≠ 0x65 ∧ byte ≠ 0x45

private theorem readDigits_append {digits rest : Bytes} (hne : digits ≠ [])
    (hdigits : ∀ byte ∈ digits, isDigit byte = true)
    (hrest : ∀ byte ∈ rest.head?, isDigit byte = false) :
    readDigits (digits ++ rest) = some (digits, rest) := by
  have htake : rest.takeWhile isDigit = [] := by
    cases rest with
    | nil => rfl
    | cons byte rest => simp [hrest byte rfl]
  have hdrop : rest.dropWhile isDigit = rest := by
    cases rest with
    | nil => rfl
    | cons byte rest => simp [hrest byte rfl]
  have htakeAll : (digits ++ rest).takeWhile isDigit = digits := by
    rw [List.takeWhile_append_of_pos hdigits, htake, List.append_nil]
  have hdropAll : (digits ++ rest).dropWhile isDigit = rest := by
    rw [List.dropWhile_append_of_pos hdigits, hdrop]
  simp only [readDigits, htakeAll, hdropAll, hne, if_false]

private theorem padded_one_leading (value : ℕ) (second : UInt8) (tail : Bytes) :
    padded 1 value ≠ 0x30 :: second :: tail := by
  intro heq
  by_cases hzero : value = 0
  · subst hzero
    revert heq
    simp [padded]
  · have hdigitsNe : Nat.digits 10 value ≠ [] := Nat.digits_ne_nil_iff_ne_zero.mpr hzero
    have hlength : 1 - ((Nat.digits 10 value).reverse.map digitByte).length = 0 := by
      have := List.length_pos_of_ne_nil hdigitsNe
      simp only [List.length_map, List.length_reverse]
      omega
    have hhead : digitByte ((Nat.digits 10 value).getLast hdigitsNe) = 0x30 := by
      have hfirst := congrArg List.head? heq
      simp only [padded, hlength, List.replicate_zero, List.nil_append, List.head?_map,
        List.head?_reverse, List.getLast?_eq_some_getLast hdigitsNe, Option.map_some,
        List.head?_cons, Option.some.injEq] at hfirst
      exact hfirst
    have hlast := Nat.getLast_digit_ne_zero 10 hzero
    have hbound := Nat.digits_lt_base (b := 10) (by omega) (List.getLast_mem hdigitsNe)
    have hdecide : ∀ digit < 10, digitByte digit = 0x30 → digit = 0 := by decide
    exact hlast (hdecide _ hbound hhead)

private theorem readInteger_padded {rest : Bytes} (value : ℕ)
    (hrest : ∀ byte ∈ rest.head?, isDigit byte = false) :
    readInteger (padded 1 value ++ rest) = some (padded 1 value, rest) := by
  have hne : padded 1 value ≠ [] := by
    intro hnil
    have := le_length_padded 1 value
    simp [hnil] at this
  rw [readInteger, readDigits_append hne (fun byte => isDigit_of_mem_padded) hrest]
  split
  · next second tail _ heq =>
      simp only [Option.some.injEq, Prod.mk.injEq] at heq
      exact absurd heq.1 (padded_one_leading value second tail)
  · rfl

/-- A printed integer is read back as its own literal. -/
theorem readNumber_formatInt (value : ℤ) {rest : Bytes} (hrest : EndsNumber rest) :
    readNumber (formatInt value ++ rest) = some (formatInt value, rest) := by
  have hfraction : readFraction rest = some ([], rest) := by
    unfold readFraction
    split
    · exact absurd rfl (hrest _ rfl).2.1
    · rfl
  have hexponent : readExponent rest = some ([], rest) := by
    cases rest with
    | nil => rfl
    | cons byte rest =>
        obtain ⟨-, -, hlower, hupper⟩ := hrest byte rfl
        simp [readExponent, hlower, hupper]
  have hinteger := readInteger_padded value.natAbs fun byte hbyte => (hrest byte hbyte).1
  by_cases hneg : value < 0
  · simp [readNumber, formatInt, appendInt, hneg, readSign, hinteger, hfraction, hexponent]
  · have hsign : readSign [0x2D] (padded 1 value.natAbs ++ rest) =
        ([], padded 1 value.natAbs ++ rest) := by
      cases hpadded : padded 1 value.natAbs with
      | nil =>
          have := le_length_padded 1 value.natAbs
          simp [hpadded] at this
      | cons byte tail =>
          have hne : byte ≠ 0x2D := by
            intro hminus
            exact padded_head_ne_minus (hpadded.trans (by rw [hminus]))
          simp [readSign, hne]
    simp [readNumber, formatInt, appendInt, hneg, hsign, hinteger, hfraction, hexponent]

/-! ## Values read back -/

/-- The values the encoder is used on: integers for numbers, valid strings. -/
inductive Readable : Value → Prop where
  | null : Readable .null
  | bool (value : Bool) : Readable (.bool value)
  | number (value : ℤ) : Readable (.number (formatInt value))
  | string {text : Bytes} : valid text = true → Readable (.string text)
  | array {items : List Value} : (∀ item ∈ items, Readable item) → Readable (.array items)
  | object {members : List (Bytes × Value)} : (∀ member ∈ members, valid member.1 = true) →
      (∀ member ∈ members, Readable member.2) → Readable (.object members)

theorem formatInt_head (value : ℤ) :
    ∃ byte tail, formatInt value = byte :: tail ∧ (byte = 0x2D ∨ isDigit byte = true) := by
  by_cases hneg : value < 0
  · exact ⟨0x2D, padded 1 value.natAbs, by simp [formatInt, appendInt, hneg], .inl rfl⟩
  · cases hpadded : padded 1 value.natAbs with
    | nil =>
        have := le_length_padded 1 value.natAbs
        simp [hpadded] at this
    | cons byte tail =>
        refine ⟨byte, tail, by simp [formatInt, appendInt, hneg, hpadded], .inr ?_⟩
        exact isDigit_of_mem_padded (show byte ∈ padded 1 value.natAbs by simp [hpadded])

theorem number_head : ∀ byte : UInt8, (byte = 0x2D ∨ isDigit byte = true) →
    isSpace byte = false ∧ byte ≠ 0x22 ∧ byte ≠ 0x7B ∧ byte ≠ 0x5B ∧ byte ≠ 0x6E ∧ byte ≠ 0x74 ∧
      byte ≠ 0x66 ∧ byte ≠ 0x5D := by
  rintro byte (rfl | hdigit)
  · decide
  · simp only [isDigit, Bool.and_eq_true, decide_eq_true_eq, UInt8.le_iff_toNat_le] at hdigit
    simp only [isSpace, ne_eq, Bool.or_eq_false_iff, beq_eq_false_iff_ne, ← UInt8.toNat_inj]
    simp at hdigit ⊢
    omega

/-- No value starts with white space or with a closing bracket. -/
private theorem render_head {value : Value} (hvalue : Readable value) :
    ∃ byte tail, render value = byte :: tail ∧ isSpace byte = false ∧ byte ≠ 0x5D := by
  cases hvalue with
  | null => exact ⟨_, _, rfl, by decide, by decide⟩
  | bool value => cases value <;> exact ⟨_, _, rfl, by decide, by decide⟩
  | number value =>
      obtain ⟨byte, tail, hformat, hbyte⟩ := formatInt_head value
      obtain ⟨hspace, -, -, -, -, -, -, hbracket⟩ := number_head byte hbyte
      exact ⟨byte, tail, by simp [render, hformat], hspace, hbracket⟩
  | string _ => exact ⟨_, _, rfl, by decide, by decide⟩
  | _ => exact ⟨_, _, by rw [render], by decide, by decide⟩

private theorem renderItems_head {item : Value} (items : List Value) (hitem : Readable item) :
    ∃ byte tail, renderItems (item :: items) = byte :: tail ∧ isSpace byte = false ∧
      byte ≠ 0x5D := by
  obtain ⟨byte, tail, hhead, hspace, hne⟩ := render_head hitem
  cases items with
  | nil => exact ⟨byte, tail, by rw [renderItems, hhead], hspace, hne⟩
  | cons next items =>
      refine ⟨byte, tail ++ 0x2C :: renderItems (next :: items), ?_, hspace, hne⟩
      rw [renderItems, hhead, List.cons_append]
      simp

private theorem renderMembers_head (member : Bytes × Value) (members : List (Bytes × Value)) :
    ∃ tail, renderMembers (member :: members) = 0x22 :: tail := by
  cases members with
  | nil => exact ⟨_, by rw [renderMembers, quote, List.cons_append]⟩
  | cons next members =>
      refine ⟨quoteBody member.1 ++ [0x22] ++ 0x3A :: (render member.2 ++
        0x2C :: renderMembers (next :: members)), ?_⟩
      rw [renderMembers, quote, List.cons_append]
      simp

theorem skipSpace_cons {byte : UInt8} (hspace : isSpace byte = false) (rest : Bytes) :
    skipSpace (byte :: rest) = byte :: rest := by
  simp [skipSpace, hspace]

theorem endsNumber_comma (rest : Bytes) : EndsNumber (0x2C :: rest) := by
  intro byte hbyte
  simp only [List.head?_cons, Option.mem_def, Option.some.injEq] at hbyte
  subst hbyte
  decide

private theorem endsNumber_bracket (rest : Bytes) : EndsNumber (0x5D :: rest) := by
  intro byte hbyte
  simp only [List.head?_cons, Option.mem_def, Option.some.injEq] at hbyte
  subst hbyte
  decide

theorem endsNumber_brace (rest : Bytes) : EndsNumber (0x7D :: rest) := by
  intro byte hbyte
  simp only [List.head?_cons, Option.mem_def, Option.some.injEq] at hbyte
  subst hbyte
  decide

/-- With `fuel` steps left, rendered values are read back. -/
private def ReadsValues (fuel : ℕ) : Prop :=
  ∀ value rest, Readable value → (render value).length < fuel → EndsNumber rest →
    readValue fuel (render value ++ rest) = some (value, rest)

private def ReadsItems (fuel : ℕ) : Prop :=
  ∀ item items rest, (∀ other ∈ item :: items, Readable other) →
    (renderItems (item :: items)).length + 1 < fuel →
    readItems fuel (renderItems (item :: items) ++ 0x5D :: rest) = some (item :: items, rest)

private def ReadsMembers (fuel : ℕ) : Prop :=
  ∀ member members rest, (∀ other ∈ member :: members, valid other.1 = true) →
    (∀ other ∈ member :: members, Readable other.2) →
    (renderMembers (member :: members)).length < fuel →
    readMembers fuel (renderMembers (member :: members) ++ 0x7D :: rest) =
      some (member :: members, rest)

private theorem readsItems_succ {fuel : ℕ} (hvalues : ReadsValues fuel)
    (hitems : ReadsItems fuel) : ReadsItems (fuel + 1) := by
  intro item items rest hreadable hlength
  have hitem := hreadable item List.mem_cons_self
  cases items with
  | nil =>
      have hshort : (render item).length < fuel := by
        simp only [renderItems] at hlength
        omega
      rw [renderItems, readItems, hvalues item _ hitem hshort (endsNumber_bracket rest)]
      simp [skipSpace_cons (show isSpace 0x5D = false by decide)]
  | cons next items =>
      rw [renderItems, List.append_assoc, List.cons_append, readItems]
      · simp only [renderItems, List.length_append, List.length_cons] at hlength
        rw [hvalues item _ hitem (by omega) (endsNumber_comma _)]
        have hrest := hitems next items rest
          (fun other hother => hreadable other (List.mem_cons_of_mem _ hother)) (by omega)
        simp [skipSpace_cons (show isSpace 0x2C = false by decide), hrest]
      · simp

private theorem readMembers_member {fuel : ℕ} {key : Bytes} {value : Value} (rest : Bytes)
    (hvalues : ReadsValues fuel) (hkey : valid key = true) (hvalue : Readable value)
    (hlength : (render value).length < fuel) (hrest : EndsNumber rest) :
    readMembers (fuel + 1) (quote key ++ 0x3A :: (render value ++ rest)) =
      match skipSpace rest with
      | 0x2C :: rest =>
          (readMembers fuel rest).map fun (members, rest) => ((key, value) :: members, rest)
      | 0x7D :: rest => some ([(key, value)], rest)
      | _ => none := by
  simp only [readMembers, quote, List.cons_append, List.append_assoc, List.nil_append,
    skipSpace_cons (show isSpace 0x22 = false by decide), readString_quoteBody hkey,
    skipSpace_cons (show isSpace 0x3A = false by decide), hvalues value rest hvalue hlength hrest]

private theorem readsMembers_succ {fuel : ℕ} (hvalues : ReadsValues fuel)
    (hmembers : ReadsMembers fuel) : ReadsMembers (fuel + 1) := by
  intro member members rest hkeys hreadable hlength
  have hkey := hkeys member List.mem_cons_self
  have hvalue := hreadable member List.mem_cons_self
  cases members with
  | nil =>
      simp only [renderMembers, quote, List.length_append, List.length_cons] at hlength
      rw [renderMembers, List.append_assoc, List.cons_append,
        readMembers_member _ hvalues hkey hvalue (by omega) (endsNumber_brace rest)]
      simp [skipSpace_cons (show isSpace 0x7D = false by decide)]
  | cons next members =>
      simp only [renderMembers, quote, List.length_append, List.length_cons] at hlength
      rw [renderMembers, List.append_assoc, List.cons_append, List.append_assoc, List.cons_append,
        readMembers_member _ hvalues hkey hvalue (by omega) (endsNumber_comma _)]
      · have hrest := hmembers next members rest
          (fun other hother => hkeys other (List.mem_cons_of_mem _ hother))
          (fun other hother => hreadable other (List.mem_cons_of_mem _ hother)) (by omega)
        simp [skipSpace_cons (show isSpace 0x2C = false by decide), hrest]
      · simp

private theorem readsValues_succ {fuel : ℕ} (hitems : ReadsItems fuel)
    (hmembers : ReadsMembers fuel) : ReadsValues (fuel + 1) := by
  intro value rest hvalue hlength hrest
  cases hvalue with
  | null => simp [render, readValue, ascii, skipSpace, isSpace, readWord]
  | bool value =>
      cases value <;> simp [render, readValue, ascii, skipSpace, isSpace, readWord]
  | number value =>
      obtain ⟨byte, tail, hformat, hbyte⟩ := formatInt_head value
      obtain ⟨hspace, hquote, hbrace, hbracket, hn, ht, hf, -⟩ := number_head byte hbyte
      have hnumber := readNumber_formatInt value hrest
      rw [hformat, List.cons_append] at hnumber
      simp only [render, hformat, List.cons_append, readValue, skipSpace_cons hspace, hquote,
        hbrace, hbracket, hn, ht, hf, if_false, hnumber, Option.map_some]
  | string hvalid =>
      simp [render, quote, readValue, skipSpace_cons (show isSpace 0x22 = false by decide),
        readString_quoteBody hvalid]
  | @array items hreadable =>
      cases items with
      | nil => simp [render, renderItems, readValue, skipSpace, isSpace]
      | cons item items =>
          simp only [render, List.length_cons, List.length_append, List.length_nil] at hlength
          obtain ⟨byte, tail, hhead, hspace, hne⟩ :=
            renderItems_head items (hreadable item List.mem_cons_self)
          have hread := hitems item items rest hreadable (by omega)
          simp only [render, List.cons_append, List.append_assoc, List.nil_append, readValue,
            skipSpace_cons (show isSpace 0x5B = false by decide), hread, Option.map_some]
          simp [hhead, skipSpace_cons hspace, hne]
  | @object members hkeys hreadable =>
      cases members with
      | nil => simp [render, renderMembers, readValue, skipSpace, isSpace]
      | cons member members =>
          simp only [render, List.length_cons, List.length_append, List.length_nil] at hlength
          obtain ⟨tail, hhead⟩ := renderMembers_head member members
          have hread := hmembers member members rest hkeys hreadable (by omega)
          simp only [render, List.cons_append, List.append_assoc, List.nil_append, readValue,
            skipSpace_cons (show isSpace 0x7B = false by decide), hread, Option.map_some]
          simp [hhead, skipSpace_cons (show isSpace 0x22 = false by decide)]

private theorem reads (fuel : ℕ) : ReadsValues fuel ∧ ReadsItems fuel ∧ ReadsMembers fuel := by
  induction fuel with
  | zero =>
      refine ⟨?_, ?_, ?_⟩
      · intro value rest _ hlength
        omega
      · intro item items rest _ hlength
        omega
      · intro member members rest _ _ hlength
        omega
  | succ fuel ih =>
      obtain ⟨hvalues, hitems, hmembers⟩ := ih
      exact ⟨readsValues_succ hitems hmembers, readsItems_succ hvalues hitems,
        readsMembers_succ hvalues hmembers⟩

/-- What the encoder writes is read back. -/
theorem parse_render {value : Value} (hvalue : Readable value) :
    parse (render value) = some value := by
  have hread := (reads ((render value).length + 1)).1 value [] hvalue (by omega) (by simp [EndsNumber])
  rw [List.append_nil] at hread
  simp [parse, hread, skipSpace]

end SecurePastebin.Json
