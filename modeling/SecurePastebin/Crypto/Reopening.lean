import SecurePastebin.Crypto.Binding
import SecurePastebin.Store.Bodies

/-!
# Opening what was sealed

A keyring that has only gained keys still opens what it sealed, and yields
nothing but what was sealed.  A sealed record survives its JSON encoding, given
a key id that is a valid string.
-/

namespace SecurePastebin.Crypto.Envelope

open Text Uuid Calendar Paste
open Store

/-- Every key of the first keyring is in the second one, under its id. -/
def KeepsKeys (E E' : Envelope) : Prop :=
  ∀ id key, E.keys.lookup id = some key → E'.keys.lookup id = some key

theorem KeepsKeys.refl (E : Envelope) : E.KeepsKeys E := fun _ _ hkey => hkey

theorem KeepsKeys.trans {E E' E'' : Envelope} (hfirst : E.KeepsKeys E')
    (hsecond : E'.KeepsKeys E'') : E.KeepsKeys E'' :=
  fun id key hkey => hsecond id key (hfirst id key hkey)

variable {P : Primitives} {E E' : Envelope} {gate gate' : GateOutcome} {draws : Draws} {id : UUID}
  {t t' : ℤ} {plain password password' b : Bytes} {record : EncryptedBody}

/-- A password record needs a KDF slot. -/
theorem openBody_password_granted {sealer : Envelope} {wrapKey : Bytes}
    (hopen : E.openBody P gate id t' (sealedRecord P draws id t plain .password []
      (some (sealer.kdfOf draws)) wrapKey) password = .ok b) : gate = .granted := by
  by_contra hgate
  have herror : ∃ err, acquire gate = .error err := by
    cases gate
    · exact absurd rfl hgate
    all_goals exact ⟨_, rfl⟩
  obtain ⟨err, herr⟩ := herror
  have hkey : ∃ err, E.wrappingKey P gate (sealedRecord P draws id t plain .password []
      (some (sealer.kdfOf draws)) wrapKey) password = .error err := by
    by_cases hempty : password = []
    · exact ⟨.passwordRequired, by simp [wrappingKey, sealedRecord, hempty]⟩
    · exact ⟨mapKDFError err, by simp [wrappingKey, sealedRecord, hempty, deriveKey, herr]⟩
  obtain ⟨err', hkey⟩ := hkey
  simp only [openBody, hkey, bind, Except.bind] at hopen
  split at hopen <;> cases hopen

/-- Whoever can open the record gets what was sealed, provided another password
does not happen to unwrap its data key. -/
theorem openBody_eq_plain
    (hseal : E.sealBody P gate draws id t plain password = .ok record) (hkeys : E.KeepsKeys E')
    (hwrapped : password ≠ [] → P.gcm.Binding record.wrappedDEK) (htime : unix t' = unix t)
    (hopen : E'.openBody P gate' id t' record password' = .ok b) : b = plain := by
  rcases sealBody_cases hseal with ⟨rfl, key, hkey, rfl⟩ | ⟨hpassword, rfl⟩
  · rw [openBody_kek P E' gate' E.active_ne_nil, hkeys _ _ hkey] at hopen
    simp only [decryptWith_sealed P htime, Except.ok.injEq] at hopen
    exact hopen.symm
  · obtain rfl := openBody_password_granted hopen
    cases hbudget : E'.withinBudget E.params with
    | false =>
        rw [openBody_over_budget P E' .granted E hbudget] at hopen
        cases hopen
    | true =>
        rw [openBody_password P E' E hbudget] at hopen
        split at hopen
        · cases hopen
        · by_cases hkey : P.argon2id password' draws.salt E.params =
              P.argon2id password draws.salt E.params
          · rw [hkey, decryptWith_sealed P htime] at hopen
            exact (Except.ok.inj hopen).symm
          · rw [decryptWith_wrong_key P (hwrapped hpassword) (.inl hkey)] at hopen
            cases hopen

/-- With the right password, or none needed, and the cost parameters unchanged,
the record opens. -/
theorem openBody_of_keepsKeys
    (hseal : E.sealBody P gate draws id t plain password = .ok record) (hkeys : E.KeepsKeys E')
    (hparams : E'.params = E.params) (hright : password = [] ∨ password' = password)
    (htime : unix t' = unix t) : E'.openBody P .granted id t' record password' = .ok plain := by
  rcases sealBody_cases hseal with ⟨rfl, key, hkey, rfl⟩ | ⟨hpassword, rfl⟩
  · rw [openBody_kek P E' .granted E.active_ne_nil, hkeys _ _ hkey]
    exact decryptWith_sealed P htime
  · have hbudget : E'.withinBudget E.params = true := by
      simp [withinBudget, hparams]
    obtain rfl := hright.resolve_left hpassword
    rw [openBody_password P E' E hbudget, if_neg hpassword]
    exact decryptWith_sealed P htime

/-- A sealed record comes back from its JSON encoding. -/
theorem unmarshal_marshal_sealed
    (hseal : E.sealBody P gate draws id t plain password = .ok record)
    (hkekId : Utf8.valid record.kekId = true) :
    Bodies.unmarshal (Bodies.marshal record) = some record := by
  have hversion : FitsInt64 envelopeVersion := by decide
  have halg : Utf8.valid envelopeAlgorithm = true := by decide
  apply Bodies.unmarshal_marshal
  rcases sealBody_cases hseal with ⟨-, key, -, rfl⟩ | ⟨-, rfl⟩
  · exact ⟨hversion, halg, hkekId, .inl rfl⟩
  · exact ⟨hversion, halg, hkekId, .inr rfl⟩

end SecurePastebin.Crypto.Envelope
