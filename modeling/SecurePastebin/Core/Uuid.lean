import SecurePastebin.Core.Text

/-!
# UUIDs and their text forms

A UUID is sixteen bytes.  It is printed in one form, five dash-separated groups
of lowercase hexadecimal digits, and read in four; printing and reading agree.
-/

namespace SecurePastebin.Uuid

open Text

structure UUID where
  bytes : Bytes
  length_bytes : bytes.length = 16
  deriving DecidableEq

@[ext]
theorem UUID.ext {left right : UUID} (hbytes : left.bytes = right.bytes) : left = right := by
  cases left
  cases right
  simpa using hbytes

/-- The identifier whose bytes are all `byte`. -/
def UUID.filled (byte : UInt8) : UUID := ⟨List.replicate 16 byte, List.length_replicate⟩

/-- `id.String()`. -/
def UUID.text (id : UUID) : Bytes :=
  hexEncode (id.bytes.take 4) ++ 45 :: hexEncode ((id.bytes.drop 4).take 2) ++
    45 :: hexEncode ((id.bytes.drop 6).take 2) ++ 45 :: hexEncode ((id.bytes.drop 8).take 2) ++
    45 :: hexEncode (id.bytes.drop 10)

@[simp]
theorem UUID.length_text (id : UUID) : id.text.length = 36 := by
  simp [UUID.text, id.length_bytes]

private def ofHex (digits : Bytes) : Option UUID :=
  match hexDecode digits with
  | some bytes => if h : bytes.length = 16 then some ⟨bytes, h⟩ else none
  | none => none

/-- The dashed form, read from the first 36 bytes. -/
private def parseDashed (text : Bytes) : Option UUID :=
  if text[8]? = some 45 ∧ text[13]? = some 45 ∧ text[18]? = some 45 ∧ text[23]? = some 45 then
    ofHex (text.take 8 ++ (text.drop 9).take 4 ++ (text.drop 14).take 4 ++
      (text.drop 19).take 4 ++ (text.drop 24).take 12)
  else none

/-- ASCII lower case, which is what `strings.EqualFold` compares on ASCII text. -/
def lower (byte : UInt8) : UInt8 := if 65 ≤ byte ∧ byte ≤ 90 then byte + 32 else byte

/-- `uuid.Parse`: the dashed form, the same after `urn:uuid:`, the same between
two bytes that are not looked at, or 32 digits. -/
def parse (text : Bytes) : Option UUID :=
  if text.length = 36 then parseDashed text
  else if text.length = 45 then
    if (text.take 9).map lower = ascii "urn:uuid:" then parseDashed (text.drop 9) else none
  else if text.length = 38 then parseDashed (text.drop 1)
  else if text.length = 32 then ofHex text
  else none

/-- The dashed form read back. -/
@[simp]
theorem parse_text (id : UUID) : parse id.text = some id := by
  obtain ⟨bytes, hlength⟩ := id
  -- sixteen bytes, named one by one
  match bytes, hlength with
  | [b0, b1, b2, b3, b4, b5, b6, b7, b8, b9, b10, b11, b12, b13, b14, b15], hlength =>
      rw [parse, if_pos (UUID.length_text _)]
      simp [parseDashed, ofHex, UUID.text, hexEncode, hexByte, hexDecode]

theorem text_injective : Function.Injective UUID.text := by
  intro left right heq
  have hparse := congrArg parse heq
  simpa using hparse

end SecurePastebin.Uuid
