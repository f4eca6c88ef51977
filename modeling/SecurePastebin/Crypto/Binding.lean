import SecurePastebin.Crypto.Envelope

/-!
# What a sealed record is bound to

A record opens again for its own paste, within the second it was sealed for,
and with its own key or password; under a binding AEAD and a KDF without a
collision at the record's key it opens in no other case, and the error says
which of the conditions failed.
-/

namespace SecurePastebin.Crypto

open Text Uuid Calendar Paste

/-! ## Associated data -/

theorem wrapAAD_injective : Function.Injective wrapAAD := text_injective

theorem bodyAAD_eq_iff (id id' : UUID) (t t' : ℤ) :
    bodyAAD id t = bodyAAD id' t' ↔ id = id' ∧ unix t = unix t' := by
  constructor
  · intro heq
    simp only [bodyAAD, List.append_assoc] at heq
    obtain ⟨htext, hrest⟩ := List.append_inj heq (by simp)
    exact ⟨text_injective htext, (rfc3339_eq_iff t t').mp (List.append_cancel_left hrest)⟩
  · rintro ⟨rfl, htime⟩
    simp only [bodyAAD, (rfc3339_eq_iff t t').mpr htime]

namespace Envelope

variable (P : Primitives) (E : Envelope)

variable {draws : Draws} {id id' : UUID} {t t' : ℤ} {plain password : Bytes}
  {mode : WrapMode} {kekId wrapKey key : Bytes} {kdf : Option KDFParams}

/-! ## Validation of sealed records -/

private theorem validateRecord_sealed :
    E.validateRecord (sealedRecord P draws id t plain mode kekId kdf wrapKey) =
      E.validateWrap (sealedRecord P draws id t plain mode kekId kdf wrapKey) := by
  have hdek := draws.length_dek
  simp only [validateRecord, sealedRecord, P.gcm.length_encrypt, draws.length_bodyNonce,
    draws.length_wrapNonce, hdek, blockSize, ne_eq, not_true_eq_false, or_self, if_false]
  rw [if_neg (by omega)]

theorem validateRecord_kek (hkekId : kekId ≠ []) :
    E.validateRecord (sealedRecord P draws id t plain .kek kekId none wrapKey) = .ok () := by
  rw [validateRecord_sealed]
  simp [validateWrap, sealedRecord, hkekId]

/-- A password record is valid exactly when its cost is within the budget. -/
theorem validateRecord_password (sealer : Envelope) :
    E.validateRecord (sealedRecord P draws id t plain .password [] (some (sealer.kdfOf draws))
        wrapKey) =
      if E.withinBudget sealer.params then .ok ()
      else .error (.message "crypto: stored KDF parameters exceed configured budget") := by
  have hparams : paramsOf (sealer.kdfOf draws) = sealer.params := rfl
  have hsalt : (sealer.kdfOf draws).salt.length = envelopeSaltLen := draws.length_salt
  rw [validateRecord_sealed]
  simp only [validateWrap, sealedRecord, ne_eq, not_true_eq_false, if_false, hsalt, hparams,
    sealer.params_valid]

/-! ## Decryption -/

/-- The right wrapping key decrypts the record of the same paste and second. -/
theorem decryptWith_sealed (htime : unix t' = unix t) :
    decryptWith P wrapKey id t' (sealedRecord P draws id t plain mode kekId kdf wrapKey) =
      .ok plain := by
  have haad : bodyAAD id t' = bodyAAD id t := (bodyAAD_eq_iff id id t' t).mpr ⟨rfl, htime⟩
  simp only [decryptWith, sealedRecord, P.gcm.decrypt_encrypt, draws.length_dek, ne_eq,
    not_true_eq_false, if_false, newGCM_of_length _ draws.length_dek, haad, bind, Except.bind]

/-- A wrapped key that is bound to its wrapping key yields the data key or
nothing. -/
theorem decryptWith_wrong_key
    (hbinding : P.gcm.Binding (P.gcm.encrypt wrapKey draws.wrapNonce draws.dek (wrapAAD id)))
    (hwrong : key ≠ wrapKey ∨ id' ≠ id) :
    decryptWith P key id' t' (sealedRecord P draws id t plain mode kekId kdf wrapKey) =
      if mode = .password then .error .wrongPassword
      else .error (.wrap "crypto: unwrap DEK" (.message "cipher: message authentication failed")) := by
  have hnone : P.gcm.decrypt key draws.wrapNonce
      (P.gcm.encrypt wrapKey draws.wrapNonce draws.dek (wrapAAD id)) (wrapAAD id') = none := by
    rw [Option.eq_none_iff_forall_not_mem]
    intro found hfound
    obtain ⟨hkey, haad, -⟩ := P.gcm.decrypt_of_binding hbinding hfound
    rcases hwrong with hwrong | hwrong
    · exact hwrong hkey
    · exact hwrong (wrapAAD_injective haad)
  simp only [decryptWith, sealedRecord, hnone]
  rfl

/-- A body that is bound to its associated data does not decrypt for another
second. -/
theorem decryptWith_wrong_time
    (hbinding : P.gcm.Binding (P.gcm.encrypt draws.dek draws.bodyNonce plain (bodyAAD id t)))
    (htime : unix t' ≠ unix t) :
    decryptWith P wrapKey id t' (sealedRecord P draws id t plain mode kekId kdf wrapKey) =
      .error (.wrap "crypto: decrypt body" (.message "cipher: message authentication failed")) := by
  have hnone : P.gcm.decrypt draws.dek draws.bodyNonce
      (P.gcm.encrypt draws.dek draws.bodyNonce plain (bodyAAD id t)) (bodyAAD id t') = none := by
    rw [Option.eq_none_iff_forall_not_mem]
    intro found hfound
    obtain ⟨-, haad, -⟩ := P.gcm.decrypt_of_binding hbinding hfound
    exact htime ((bodyAAD_eq_iff id id t' t).mp haad).2
  simp only [decryptWith, sealedRecord, P.gcm.decrypt_encrypt, draws.length_dek, ne_eq,
    not_true_eq_false, if_false, newGCM_of_length _ draws.length_dek, hnone, bind, Except.bind]

/-! ## Opening a sealed record -/

theorem openBody_kek (gate : GateOutcome) (hkekId : kekId ≠ []) :
    E.openBody P gate id' t' (sealedRecord P draws id t plain .kek kekId none wrapKey) password =
      match E.keys.lookup kekId with
      | none => .error .keyUnavailable
      | some key =>
          decryptWith P key id' t' (sealedRecord P draws id t plain .kek kekId none wrapKey) := by
  simp only [openBody, validateRecord_kek P E hkekId, bind, Except.bind]
  cases hlookup : E.keys.lookup kekId with
  | none => simp [wrappingKey, sealedRecord, hlookup]
  | some key =>
      have hlength := E.length_of_lookup hlookup
      simp [wrappingKey, sealedRecord, hlookup, newGCM_of_length _ hlength]

theorem openBody_password (sealer : Envelope) (hbudget : E.withinBudget sealer.params = true) :
    E.openBody P .granted id' t' (sealedRecord P draws id t plain .password []
        (some (sealer.kdfOf draws)) wrapKey) password =
      if password = [] then .error .passwordRequired
      else decryptWith P (P.argon2id password draws.salt sealer.params) id' t'
        (sealedRecord P draws id t plain .password [] (some (sealer.kdfOf draws)) wrapKey) := by
  have hparams : paramsOf (sealer.kdfOf draws) = sealer.params := rfl
  have hsalt : (sealer.kdfOf draws).salt = draws.salt := rfl
  simp only [openBody, validateRecord_password P E sealer, hbudget, if_true, bind, Except.bind]
  by_cases hempty : password = []
  · simp [wrappingKey, sealedRecord, hempty]
  · simp only [wrappingKey, sealedRecord, hempty, if_false, deriveKey, acquire, hparams, hsalt,
      newGCM_of_length _ (P.length_argon2id _ _ _)]

theorem openBody_over_budget (gate : GateOutcome) (sealer : Envelope)
    (hbudget : E.withinBudget sealer.params = false) :
    E.openBody P gate id' t' (sealedRecord P draws id t plain .password []
        (some (sealer.kdfOf draws)) wrapKey) password =
      .error (.message "crypto: stored KDF parameters exceed configured budget") := by
  simp only [openBody, validateRecord_password P E sealer, hbudget, Bool.false_eq_true, if_false,
    bind, Except.bind]

/-- Who can open a sealed record, with what result, and which error tells the
others why not. -/
theorem openBody_sealBody_iff (sealer opener : Envelope) (draws : Draws) (id id' : UUID)
    (t t' : ℤ) (plain password password' : Bytes) (record : EncryptedBody)
    (hseal : sealer.sealBody P .granted draws id t plain password = .ok record)
    (hbody : P.gcm.Binding record.ciphertext) (hwrapped : P.gcm.Binding record.wrappedDEK)
    (hkdf : ∀ other, P.argon2id other draws.salt sealer.params =
      P.argon2id password draws.salt sealer.params → other = password) :
    ((∃ out, opener.openBody P .granted id' t' record password' = .ok out) ↔
      id' = id ∧ unix t' = unix t ∧
        (password = [] ∧ opener.keys.lookup sealer.active = sealer.keys.lookup sealer.active ∨
          password ≠ [] ∧ password' = password ∧
            opener.withinBudget sealer.params = true)) ∧
      (∀ out, opener.openBody P .granted id' t' record password' = .ok out → out = plain) ∧
      (opener.openBody P .granted id' t' record password' = .error .keyUnavailable ↔
        record.wrapMode = .kek ∧ opener.keys.lookup record.kekId = none) ∧
      (opener.openBody P .granted id' t' record password' = .error .passwordRequired ↔
        record.wrapMode = .password ∧ opener.withinBudget sealer.params = true ∧
          password' = []) ∧
      (opener.openBody P .granted id' t' record password' = .error .wrongPassword ↔
        record.wrapMode = .password ∧ opener.withinBudget sealer.params = true ∧
          password' ≠ [] ∧ (password' ≠ password ∨ id' ≠ id)) := by
  rcases sealBody_cases hseal with ⟨rfl, key, hkey, rfl⟩ | ⟨hpassword, rfl⟩
  · -- wrapped with the sealer's active key
    rw [openBody_kek P opener .granted sealer.active_ne_nil]
    cases hlookup : opener.keys.lookup sealer.active with
    | none => simp [hkey, hlookup]
    | some key' =>
        by_cases hright : key' = key ∧ id' = id
        · obtain ⟨rfl, rfl⟩ := hright
          by_cases htime : unix t' = unix t
          · simp [decryptWith_sealed P htime, hkey, htime, hlookup]
          · simp [decryptWith_wrong_time P hbody htime, htime, hlookup]
        · have hwrong : key' ≠ key ∨ id' ≠ id := by tauto
          simp only [decryptWith_wrong_key P hwrapped hwrong]
          simp [hkey, hlookup]
          tauto
  · -- wrapped with a key derived from the password
    cases hbudget : opener.withinBudget sealer.params with
    | false => simp [openBody_over_budget P opener .granted sealer hbudget, hpassword]
    | true =>
        rw [openBody_password P opener sealer hbudget]
        by_cases hempty : password' = []
        · subst hempty
          simp [hpassword, Ne.symm hpassword]
        · by_cases hright : password' = password ∧ id' = id
          · obtain ⟨rfl, rfl⟩ := hright
            by_cases htime : unix t' = unix t
            · simp [decryptWith_sealed P htime, htime, hempty]
            · simp [decryptWith_wrong_time P hbody htime, htime, hempty]
          · have hwrong : P.argon2id password' draws.salt sealer.params ≠
                P.argon2id password draws.salt sealer.params ∨ id' ≠ id := by
              by_cases hsame : password' = password
              · exact .inr fun hid => hright ⟨hsame, hid⟩
              · exact .inl fun hkey => hsame (hkdf password' hkey)
            simp only [decryptWith_wrong_key P hwrapped hwrong, hempty]
            simp [hpassword]
            tauto

private theorem sample_binding_body (nonce plain : Bytes) :
    Sample.primitives.gcm.Binding
      (Sample.primitives.gcm.encrypt Sample.draws.dek nonce plain (bodyAAD Sample.id 0)) := by
  apply Aead.ofTag_binding Sample.length_tag
  intro key' nonce' plain' aad' htag
  have hone : Sample.tag Sample.draws.dek nonce plain (bodyAAD Sample.id 0) =
      List.replicate 16 1 := by simp [Sample.tag]
  rw [hone] at htag
  unfold Sample.tag at htag
  split_ifs at htag with hbody hwrap
  · exact hbody
  · exact absurd htag (by decide)
  · exact absurd htag (by decide)

private theorem sample_binding_wrapped (nonce plain : Bytes) :
    Sample.primitives.gcm.Binding (Sample.primitives.gcm.encrypt (List.replicate 32 9) nonce plain
      (wrapAAD Sample.id)) := by
  apply Aead.ofTag_binding Sample.length_tag
  intro key' nonce' plain' aad' htag
  have htwo : Sample.tag (List.replicate 32 9) nonce plain (wrapAAD Sample.id) =
      List.replicate 16 2 := by
    have hne : List.replicate 32 (9 : UInt8) ≠ Sample.draws.dek := by decide
    rw [Sample.tag, if_neg fun hbody => hne hbody.1, if_pos ⟨rfl, rfl⟩]
  rw [htwo] at htag
  unfold Sample.tag at htag
  split_ifs at htag with hbody hwrap
  · exact absurd htag (by decide)
  · exact hwrap
  · exact absurd htag (by decide)

/-- A password record of the sample envelope opens until the end of its second
with its password, and answers `ErrWrongPassword` to another one. -/
theorem openBody_sealBody_sample :
    ∃ record, Sample.envelope.sealBody Sample.primitives .granted Sample.draws Sample.id 0
        (ascii "hi") Sample.password = .ok record ∧
      (∃ out, Sample.envelope.openBody Sample.primitives .granted Sample.id 999999999 record
        Sample.password = .ok out) ∧
      Sample.envelope.openBody Sample.primitives .granted Sample.id 0 record (ascii "guess") =
        .error .wrongPassword := by
  have hpassword : Sample.password ≠ [] := by decide
  have hkey : Sample.primitives.argon2id Sample.password Sample.draws.salt
      Sample.envelope.params = List.replicate 32 9 := rfl
  have hkdf : ∀ other, Sample.primitives.argon2id other Sample.draws.salt Sample.envelope.params =
      Sample.primitives.argon2id Sample.password Sample.draws.salt Sample.envelope.params →
        other = Sample.password := by
    intro other hother
    by_contra hne
    rw [hkey] at hother
    simp only [Sample.primitives, if_neg hne] at hother
    exact absurd hother (by decide)
  have hiff := fun t' password' => openBody_sealBody_iff Sample.primitives Sample.envelope
    Sample.envelope Sample.draws Sample.id Sample.id 0 t' (ascii "hi") Sample.password password' _
    (sealBody_password hpassword) (sample_binding_body _ _) (sample_binding_wrapped _ _) hkdf
  refine ⟨_, sealBody_password hpassword, ?_, ?_⟩
  · exact (hiff 999999999 Sample.password).1.mpr
      ⟨rfl, by decide, .inr ⟨hpassword, rfl, by decide⟩⟩
  · exact (hiff 0 (ascii "guess")).2.2.2.2.mpr
      ⟨rfl, by decide, by decide, .inl (by decide)⟩

end Envelope

end SecurePastebin.Crypto
