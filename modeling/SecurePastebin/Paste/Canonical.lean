import SecurePastebin.Core.Utf8
import SecurePastebin.Paste.Types

/-!
# Canonical content

`internal/paste/canonical.go`: content is valid UTF-8, starts with one byte
order mark and respects the size limit.  SHA-256 is a parameter.
-/

namespace SecurePastebin.Paste

open Text Utf8

def hasBOM (data : Bytes) : Bool := BOM.isPrefixOf data

def stripBOM (data : Bytes) : Bytes := if hasBOM data then data.drop BOM.length else data

def canonicalize (content : Bytes) (maxSize : ℤ) : Except Err Bytes :=
  if !valid content then .error .invalidUTF8
  else
    let canonical := if !hasBOM content then BOM ++ content else content
    if (canonical.length : ℤ) > maxSize then .error (.tooLarge maxSize canonical.length)
    else .ok canonical

/-- `HashHex` over a digest function. -/
def hashHex (sha256 : Bytes → Bytes) (data : Bytes) : Bytes := hexEncode (sha256 data)

/-- Accepted content has its byte order mark and fits. -/
theorem canonicalize_eq_ok {content canonical : Bytes} {maxSize : ℤ}
    (hok : canonicalize content maxSize = .ok canonical) :
    hasBOM canonical = true ∧ (canonical.length : ℤ) ≤ maxSize := by
  unfold canonicalize at hok
  split at hok
  · cases hok
  · dsimp only at hok
    generalize htext : (if !hasBOM content then BOM ++ content else content) = text at hok
    have hbom : hasBOM text = true := by
      rw [← htext]
      cases hfound : hasBOM content with
      | true => simpa using hfound
      | false => simp [hasBOM, BOM]
    split at hok
    · cases hok
    · rename_i hsize
      cases hok
      exact ⟨hbom, by omega⟩

end SecurePastebin.Paste
