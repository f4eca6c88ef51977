import SecurePastebin.Core.Evaluation
import SecurePastebin.Crypto.Gate

/-!
# Opening hostile records

A record comes out of Redis, where anything may have been written.  `Open` is
translated again with the panics of its callees as outcomes: opening under a
nonce of another length than twelve bytes, `argon2id` without rounds or threads,
and the use of missing KDF parameters.  None of them is reached, so that this
`Open` is the one of the gate, call by call.
-/

namespace SecurePastebin.Crypto.Gate

open Text Uuid Paste Process

/-! ## Open with its panics -/

instance : Monad Outcome where
  pure value := .returned (.ok value)
  bind
    | .returned (.ok value), next => next value
    | .returned (.error err), _ => .returned (.error err)
    | .panicked, _ => .panicked

def fail {Value : Type} (err : Err) : Outcome Value := .returned (.error err)

theorem Outcome.pure_bind {Value Result : Type} (value : Value) (next : Value → Outcome Result) :
    (pure value >>= next) = next value := rfl

theorem Outcome.error_bind {Value Result : Type} (err : Err) (next : Value → Outcome Result) :
    (Outcome.returned (.error err) >>= next) = .returned (.error err) := rfl

/-- The use of a pointer, which panics if there is none. -/
def dereference {Value : Type} : Option Value → Outcome Value
  | some value => pure value
  | none => .panicked

section

variable (P : Primitives) (E : Envelope)

/-- `AEAD.Open`, with the error that is made of a failure. -/
def gcmOpen (key nonce sealed aad : Bytes) (err : Err) : Outcome Bytes :=
  if nonce.length ≠ envelopeNonceLen then .panicked
  else
    match P.gcm.decrypt key nonce sealed aad with
    | none => fail err
    | some plain => pure plain

def checkWrap (record : EncryptedBody) : Outcome Unit :=
  match record.wrapMode with
  | .kek =>
      if record.kekId = [] ∨ record.kdf.isSome then
        fail (.message "crypto: malformed KEK-wrapped record")
      else pure ()
  | .password =>
      if record.kekId ≠ [] ∨ record.kdf.isNone then
        fail (.message "crypto: malformed password-wrapped record")
      else do
        let kdf ← dereference record.kdf
        if kdf.salt.length ≠ envelopeSaltLen then
          fail (.message "crypto: KDF salt must be 16 bytes")
        else
          match validateArgon2Params (Envelope.paramsOf kdf) with
          | .error err => fail (.wrap "crypto: invalid stored KDF parameters" err)
          | .ok () =>
              if E.withinBudget (Envelope.paramsOf kdf) then pure ()
              else fail (.message "crypto: stored KDF parameters exceed configured budget")
  | .other _ => fail (.message "crypto: unknown wrap mode")

/-- `validateRecord`. -/
def checkRecord (record : EncryptedBody) : Outcome Unit :=
  if record.version ≠ envelopeVersion ∨ record.alg ≠ envelopeAlgorithm then
    fail (.message "crypto: unsupported record")
  else if record.nonce.length ≠ envelopeNonceLen then
    fail (.message "crypto: body nonce must be 12 bytes")
  else if record.ciphertext.length < blockSize then
    fail (.message "crypto: body ciphertext is too short")
  else if record.wrapNonce.length ≠ envelopeNonceLen then
    fail (.message "crypto: wrap nonce must be 12 bytes")
  else if record.wrappedDEK.length ≠ envelopeKeyLen + blockSize then
    fail (.message "crypto: wrapped DEK has invalid length")
  else checkWrap E record

/-- The rest of `Open` once the wrapping key is known. -/
def unwrapBody (id : UUID) (expiresAt : ℤ) (record : EncryptedBody) (wrapKey : Bytes) :
    Outcome Bytes := do
  .returned (newGCM "crypto: create wrap cipher" wrapKey)
  let dek ← gcmOpen P wrapKey record.wrapNonce record.wrappedDEK (wrapAAD id)
    (if record.wrapMode = .password then .wrongPassword
      else .wrap "crypto: unwrap DEK" (.message "cipher: message authentication failed"))
  if dek.length ≠ envelopeKeyLen then fail (.message "crypto: unwrapped DEK must be 32 bytes")
  else do
    .returned (newGCM "crypto: create body cipher" dek)
    gcmOpen P dek record.nonce record.ciphertext (bodyAAD id expiresAt)
      (.wrap "crypto: decrypt body" (.message "cipher: message authentication failed"))

/-- `Open`. -/
def openRecord (id : UUID) (expiresAt : ℤ) (record : EncryptedBody) (password : Bytes) :
    Port (Outcome Bytes) :=
  match checkRecord E record with
  | .panicked => .ret .panicked
  | .returned (.error err) => .ret (fail err)
  | .returned (.ok ()) =>
    match record.wrapMode with
    | .kek =>
        match E.keys.lookup record.kekId with
        | none => .ret (fail .keyUnavailable)
        | some key => .ret (unwrapBody P id expiresAt record key)
    | .password =>
        if password = [] then .ret (fail .passwordRequired)
        else
          match dereference record.kdf with
          | .returned (.ok kdf) =>
              (fun derived => derived.map (Except.mapError mapKDFError) >>=
                unwrapBody P id expiresAt record) <$>
                deriveKey password kdf.salt (Envelope.paramsOf kdf)
          | .returned (.error err) => .ret (fail err)
          | .panicked => .ret .panicked
    | .other _ => .ret (unwrapBody P id expiresAt record [])

end

/-! ## No panic is reached -/

variable {P : Primitives} {E : Envelope} {id : UUID} {expiresAt : ℤ} {record : EncryptedBody}
  {password : Bytes}

/-- Every use of the KDF parameters comes after the check that they are there. -/
theorem checkWrap_eq (E : Envelope) (record : EncryptedBody) :
    checkWrap E record = .returned (E.validateWrap record) := by
  unfold checkWrap Envelope.validateWrap
  cases hmode : record.wrapMode with
  | kek =>
      dsimp only
      split_ifs <;> rfl
  | other text => rfl
  | password =>
      cases hkdf : record.kdf with
      | none => simp [fail]
      | some kdf =>
          simp only [Option.isNone_some, Bool.false_eq_true, or_false, dereference,
            Outcome.pure_bind]
          by_cases hkek : record.kekId ≠ []
          · rw [if_pos hkek, if_pos hkek]
            rfl
          rw [if_neg hkek, if_neg hkek]
          by_cases hsalt : kdf.salt.length ≠ envelopeSaltLen
          · rw [if_pos hsalt, if_pos hsalt]
            rfl
          rw [if_neg hsalt, if_neg hsalt]
          cases validateArgon2Params (Envelope.paramsOf kdf) with
          | error err => rfl
          | ok =>
              dsimp only
              split_ifs <;> rfl

theorem checkRecord_eq (E : Envelope) (record : EncryptedBody) :
    checkRecord E record = .returned (E.validateRecord record) := by
  unfold checkRecord Envelope.validateRecord
  rw [checkWrap_eq]
  split_ifs <;> rfl

/-- Both nonces of a valid record have twelve bytes. -/
theorem nonces_of_valid (hvalid : E.validateRecord record = .ok ()) :
    record.nonce.length = envelopeNonceLen ∧ record.wrapNonce.length = envelopeNonceLen := by
  unfold Envelope.validateRecord at hvalid
  split_ifs at hvalid with _ hnonce _ hwrap
  exact ⟨not_not.mp hnonce, not_not.mp hwrap⟩

theorem gcmOpen_eq {nonce : Bytes} (hnonce : nonce.length = envelopeNonceLen)
    (key sealed aad : Bytes) (err : Err) :
    gcmOpen P key nonce sealed aad err =
      match P.gcm.decrypt key nonce sealed aad with
      | none => fail err
      | some plain => pure plain := by
  rw [gcmOpen, if_neg (not_not.mpr hnonce)]

theorem unwrapBody_eq (hvalid : E.validateRecord record = .ok ()) (wrapKey : Bytes) :
    unwrapBody P id expiresAt record wrapKey =
      .returned (openWith P id expiresAt record wrapKey) := by
  obtain ⟨hnonce, hwrap⟩ := nonces_of_valid hvalid
  unfold unwrapBody openWith Envelope.decryptWith
  rw [gcmOpen_eq hwrap]
  cases newGCM "crypto: create wrap cipher" wrapKey with
  | error err => rfl
  | ok =>
      change (_ : Outcome Bytes) >>= _ = .returned (match P.gcm.decrypt wrapKey record.wrapNonce
        record.wrappedDEK (wrapAAD id) with | none => _ | some dek => _)
      cases P.gcm.decrypt wrapKey record.wrapNonce record.wrappedDEK (wrapAAD id) with
      | none =>
          dsimp only [fail]
          rw [Outcome.error_bind]
          split_ifs <;> rfl
      | some dek =>
          dsimp only
          rw [Outcome.pure_bind]
          by_cases hlength : dek.length ≠ envelopeKeyLen
          · rw [if_pos hlength, if_pos hlength]
            rfl
          rw [if_neg hlength, if_neg hlength, gcmOpen_eq hnonce]
          cases newGCM "crypto: create body cipher" dek with
          | error err => rfl
          | ok =>
              change (match P.gcm.decrypt dek record.nonce record.ciphertext (bodyAAD id expiresAt) with
                | none => _ | some plain => _) = Outcome.returned (match P.gcm.decrypt dek
                  record.nonce record.ciphertext (bodyAAD id expiresAt) with
                | none => _ | some plain => _)
              cases P.gcm.decrypt dek record.nonce record.ciphertext (bodyAAD id expiresAt) <;> rfl

/-- What keeps the derivation from panicking, and within the configured cost. -/
theorem cost_of_valid (hvalid : E.validateRecord record = .ok ())
    (hmode : record.wrapMode = .password) {kdf : KDFParams} (hkdf : record.kdf = some kdf) :
    validateArgon2Params (Envelope.paramsOf kdf) = .ok () ∧
      E.withinBudget (Envelope.paramsOf kdf) = true := by
  unfold Envelope.validateRecord Envelope.validateWrap at hvalid
  simp only [hmode, hkdf] at hvalid
  cases hparams : validateArgon2Params (Envelope.paramsOf kdf) with
  | error err =>
      simp only [hparams] at hvalid
      split_ifs at hvalid
  | ok =>
      simp only [hparams] at hvalid
      split_ifs at hvalid with _ _ _ _ _ _ _ hbudget
      exact ⟨rfl, hbudget⟩

theorem not_other_of_valid (hvalid : E.validateRecord record = .ok ()) (text : Bytes) :
    record.wrapMode ≠ .other text := by
  intro hmode
  unfold Envelope.validateRecord Envelope.validateWrap at hvalid
  simp only [hmode] at hvalid
  split_ifs at hvalid

theorem kdf_of_valid (hvalid : E.validateRecord record = .ok ())
    (hmode : record.wrapMode = .password) : record.kdf ≠ none := by
  intro hkdf
  unfold Envelope.validateRecord Envelope.validateWrap at hvalid
  simp only [hmode, hkdf] at hvalid
  split_ifs at hvalid

theorem openBody_kek_eq (hvalid : E.validateRecord record = .ok ())
    (hmode : record.wrapMode = .kek) (gate : GateOutcome) :
    E.openBody P gate id expiresAt record password =
      match E.keys.lookup record.kekId with
      | none => .error .keyUnavailable
      | some key => openWith P id expiresAt record key := by
  simp only [Envelope.openBody, hvalid, Envelope.wrappingKey, hmode]
  cases E.keys.lookup record.kekId <;> rfl

/-- `Open` with its panics is `Open` under the gate. -/
theorem openRecord_eq (P : Primitives) (E : Envelope) (id : UUID) (expiresAt : ℤ)
    (record : EncryptedBody) (password : Bytes) :
    openRecord P E id expiresAt record password = openBody P E id expiresAt record password := by
  unfold openRecord openBody
  rw [checkRecord_eq]
  cases hvalid : E.validateRecord record with
  | error err => rfl
  | ok =>
      cases hmode : record.wrapMode with
      | kek =>
          simp only [openBody_kek_eq hvalid hmode, unwrapBody_eq hvalid]
          cases E.keys.lookup record.kekId <;> rfl
      | password =>
          cases hkdf : record.kdf with
          | none => exact absurd hkdf (kdf_of_valid hvalid hmode)
          | some kdf =>
              dsimp only [dereference, pure]
              by_cases hpassword : password = []
              · rw [if_pos hpassword, if_pos hpassword]
                rfl
              rw [if_neg hpassword, if_neg hpassword]
              congr 1
              funext derived
              cases derived with
              | panicked => rfl
              | returned result =>
                  cases result with
                  | error err => rfl
                  | ok key => exact unwrapBody_eq hvalid key
      | other text => exact absurd hmode (not_other_of_valid hvalid text)

/-! ## The cost of a derivation -/

/-- What `argon2id` needs. -/
theorem cost_bounds {params : Argon2Params} (hparams : validateArgon2Params params = .ok ()) :
    params.time ≠ 0 ∧ params.threads ≠ 0 ∧ 8 * params.threads.toNat ≤ params.memoryKiB.toNat := by
  unfold validateArgon2Params at hparams
  split_ifs at hparams with hzero hmemory
  rw [not_or, not_or] at hzero
  refine ⟨hzero.1, hzero.2.2, ?_⟩
  have hthreads := params.threads.toNat_lt
  simp only [UInt32.lt_iff_toNat_lt, UInt32.toNat_mul, UInt8.toNat_toUInt32, UInt32.toNat_ofNat,
    not_lt] at hmemory
  omega

variable (P) in
/-- The replies of a gate and of `argon2id`, which panics without rounds or
threads. -/
def replies (gate : GateOutcome) : (request : Call) → request.Reply
  | .acquire => gate
  | .idKey password salt params =>
      if params.time = 0 ∨ params.threads = 0 then none
      else some (P.argon2id password salt params)
  | .release => ()

/-- A derivation whose cost is positive returns. -/
theorem eval_deriveKey (gate : GateOutcome) (password salt : Bytes) {params : Argon2Params}
    (htime : params.time ≠ 0) (hthreads : params.threads ≠ 0) :
    (deriveKey password salt params).eval (replies P gate) =
      .returned ((Crypto.acquire gate).map fun _ => P.argon2id password salt params) := by
  cases gate <;> simp [deriveKey, replies, Crypto.acquire, Outcome.ofKey, htime, hthreads, Except.map]

theorem openBody_password_eq (hvalid : E.validateRecord record = .ok ())
    (hmode : record.wrapMode = .password) {kdf : KDFParams} (hkdf : record.kdf = some kdf)
    (gate : GateOutcome) :
    E.openBody P gate id expiresAt record password =
      if password = [] then .error .passwordRequired
      else Crypto.deriveKey P gate password kdf.salt (Envelope.paramsOf kdf) >>=
        openWith P id expiresAt record := by
  simp only [Envelope.openBody, hvalid, Envelope.wrappingKey, hmode, hkdf]
  by_cases hpassword : password = []
  · rw [if_pos hpassword, if_pos hpassword]
    rfl
  rw [if_neg hpassword, if_neg hpassword]
  cases Crypto.deriveKey P gate password kdf.salt (Envelope.paramsOf kdf) <;> rfl

/-- Under the replies of a gate, opening comes to what it comes to with the
outcome of the wait as an argument. -/
theorem eval_openBody (P : Primitives) (E : Envelope) (id : UUID) (expiresAt : ℤ)
    (record : EncryptedBody) (password : Bytes) (gate : GateOutcome) :
    (openBody P E id expiresAt record password).eval (replies P gate) =
      .returned (E.openBody P gate id expiresAt record password) := by
  unfold openBody
  cases hvalid : E.validateRecord record with
  | error err =>
      simp only [Proc.eval_ret, Envelope.openBody, hvalid]
      rfl
  | ok =>
      cases hmode : record.wrapMode with
      | kek => simp only [Proc.eval_ret, openBody_kek_eq hvalid hmode]
      | other text => exact absurd hmode (not_other_of_valid hvalid text)
      | password =>
          cases hkdf : record.kdf with
          | none => exact absurd hkdf (kdf_of_valid hvalid hmode)
          | some kdf =>
              obtain ⟨hparams, -⟩ := cost_of_valid hvalid hmode hkdf
              obtain ⟨htime, hthreads, -⟩ := cost_bounds hparams
              dsimp only
              rw [openBody_password_eq hvalid hmode hkdf]
              by_cases hpassword : password = []
              · rw [if_pos hpassword, if_pos hpassword, Proc.eval_ret]
              rw [if_neg hpassword, if_neg hpassword, Proc.eval_map,
                eval_deriveKey gate password kdf.salt htime hthreads]
              cases gate <;> rfl

/-- The derivation of an opening is one whose cost was checked. -/
theorem openBody_derives {trace : List Step} {given salt : Bytes} {params : Argon2Params}
    (hreach : (openBody P E id expiresAt record password).Reaches trace
      (.inl (.idKey given salt params))) :
    validateArgon2Params params = .ok () ∧ E.withinBudget params = true := by
  unfold openBody at hreach
  split at hreach
  · cases hreach.2
  rename_i hvalid
  split at hreach
  · rename_i kdf hmode hkdf
    split_ifs at hreach
    · cases hreach.2
    rw [Proc.reaches_map_call] at hreach
    generalize hpoint : (Sum.inl (Call.idKey given salt params) : Call ⊕ Outcome Bytes) = point
      at hreach
    cases deriveKey_point hreach <;> cases hpoint
    exact cost_of_valid hvalid hmode hkdf
  · cases hreach.2

/-- Whatever the record, the id, the expiry, the password and the outcome of the
wait for a slot, `Open` returns a plaintext or an error, the one of the envelope
without panics; and `argon2id` is asked for a derivation only with rounds and
threads, within the configured cost and with 8 KiB of memory for each thread. -/
theorem open_total (P : Primitives) (E : Envelope) (id : UUID) (expiresAt : ℤ)
    (record : EncryptedBody) (password : Bytes) :
    (∀ gate, (openRecord P E id expiresAt record password).eval (replies P gate) =
      .returned (E.openBody P gate id expiresAt record password)) ∧
    ∀ trace given salt params, (openRecord P E id expiresAt record password).Reaches trace
      (.inl (.idKey given salt params)) →
        params.time ≠ 0 ∧ params.threads ≠ 0 ∧ params.time ≤ E.params.time ∧
        params.memoryKiB ≤ E.params.memoryKiB ∧ params.threads ≤ E.params.threads ∧
        8 * params.threads.toNat ≤ params.memoryKiB.toNat := by
  rw [openRecord_eq]
  refine ⟨eval_openBody P E id expiresAt record password, ?_⟩
  intro trace given salt params hreach
  obtain ⟨hparams, hbudget⟩ := openBody_derives hreach
  obtain ⟨htime, hthreads, hmemory⟩ := cost_bounds hparams
  simp only [Envelope.withinBudget, Bool.and_eq_true, decide_eq_true_eq] at hbudget
  exact ⟨htime, hthreads, hbudget.1.1, hbudget.1.2, hbudget.2, hmemory⟩

end SecurePastebin.Crypto.Gate
