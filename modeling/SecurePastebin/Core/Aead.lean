import SecurePastebin.Core.Text

/-!
# Authenticated encryption, ideally

Sealing is a function of key, nonce, plaintext and associated data; opening
succeeds on exactly what sealing produced.  Sealing adds sixteen bytes, so no
such scheme can be injective in key and associated data on all inputs; that a
ciphertext determines them is therefore a property of the ciphertext at hand.
-/

namespace SecurePastebin

open Text

structure Aead where
  encrypt : (key nonce plain aad : Bytes) → Bytes
  decrypt : (key nonce sealed aad : Bytes) → Option Bytes
  decrypt_eq_some_iff : ∀ key nonce sealed aad plain,
    decrypt key nonce sealed aad = some plain ↔ sealed = encrypt key nonce plain aad
  length_encrypt : ∀ key nonce plain aad, (encrypt key nonce plain aad).length = plain.length + 16

namespace Aead

variable (A : Aead)

/-- `sealed` was produced under one key and one associated data only. -/
def Binding (sealed : Bytes) : Prop :=
  ∀ key nonce plain aad key' nonce' plain' aad', sealed = A.encrypt key nonce plain aad →
    sealed = A.encrypt key' nonce' plain' aad' → key = key' ∧ aad = aad'

theorem decrypt_encrypt (key nonce plain aad : Bytes) :
    A.decrypt key nonce (A.encrypt key nonce plain aad) aad = some plain :=
  (A.decrypt_eq_some_iff ..).mpr rfl

/-- What a binding ciphertext opens to, and under what. -/
theorem decrypt_of_binding {key nonce plain aad key' aad' found : Bytes}
    (hbinding : A.Binding (A.encrypt key nonce plain aad))
    (hopen : A.decrypt key' nonce (A.encrypt key nonce plain aad) aad' = some found) :
    key' = key ∧ aad' = aad ∧ found = plain := by
  have hsealed := (A.decrypt_eq_some_iff ..).mp hopen
  obtain ⟨rfl, rfl⟩ := hbinding _ _ _ _ _ _ _ _ rfl hsealed
  have hsame := hopen.symm.trans (A.decrypt_encrypt key nonce plain aad)
  exact ⟨rfl, rfl, Option.some.inj hsame⟩

/-- The scheme that sends the plaintext in the clear, followed by a tag. -/
def ofTag (tag : (key nonce plain aad : Bytes) → Bytes)
    (htag : ∀ key nonce plain aad, (tag key nonce plain aad).length = 16) : Aead where
  encrypt key nonce plain aad := plain ++ tag key nonce plain aad
  decrypt key nonce sealed aad :=
    let plain := sealed.take (sealed.length - 16)
    if sealed = plain ++ tag key nonce plain aad then some plain else none
  decrypt_eq_some_iff key nonce sealed aad plain := by
    constructor
    · intro hopen
      dsimp only at hopen
      split at hopen
      · rename_i hsealed
        cases hopen
        exact hsealed
      · cases hopen
    · rintro rfl
      have hplain : (plain ++ tag key nonce plain aad).take
          ((plain ++ tag key nonce plain aad).length - 16) = plain := by
        simp [htag]
      simp only [hplain, if_true]
  length_encrypt key nonce plain aad := by simp [htag]

/-- A tag that only one key and associated data produce binds its ciphertext. -/
theorem ofTag_binding {tag : (key nonce plain aad : Bytes) → Bytes}
    (htag : ∀ key nonce plain aad, (tag key nonce plain aad).length = 16)
    {key nonce plain aad : Bytes}
    (hunique : ∀ key' nonce' plain' aad', tag key' nonce' plain' aad' = tag key nonce plain aad →
      key' = key ∧ aad' = aad) :
    (ofTag tag htag).Binding ((ofTag tag htag).encrypt key nonce plain aad) := by
  have hfrom : ∀ key' nonce' plain' aad',
      (ofTag tag htag).encrypt key nonce plain aad =
        (ofTag tag htag).encrypt key' nonce' plain' aad' → key' = key ∧ aad' = aad := by
    intro key' nonce' plain' aad' hsealed
    have htags := (List.append_inj' hsealed (by simp [htag])).2
    exact hunique key' nonce' plain' aad' htags.symm
  intro key₁ nonce₁ plain₁ aad₁ key₂ nonce₂ plain₂ aad₂ hfirst hsecond
  obtain ⟨rfl, rfl⟩ := hfrom _ _ _ _ hfirst
  obtain ⟨rfl, rfl⟩ := hfrom _ _ _ _ hsecond
  exact ⟨rfl, rfl⟩

end Aead

end SecurePastebin
