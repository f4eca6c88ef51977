import SecurePastebin.Core.Aead
import SecurePastebin.Paste.Types

/-!
# Envelope encryption

`internal/crypto/envelope.go` over abstract primitives.  Random draws and the
outcome of waiting for a KDF slot are arguments, so that sealing and opening
are functions.  Error texts are kept without the values the source prints into
them.
-/

namespace SecurePastebin.Crypto

open Text Uuid Calendar Paste

structure Argon2Params where
  time : UInt32
  memoryKiB : UInt32
  threads : UInt8
  deriving DecidableEq

/-- AES-256-GCM, argon2id with 32-byte output, and SHA-256. -/
structure Primitives where
  gcm : Aead
  argon2id : (password salt : Bytes) → Argon2Params → Bytes
  sha256 : Bytes → Bytes
  length_argon2id : ∀ password salt params, (argon2id password salt params).length = 32
  length_sha256 : ∀ data, (sha256 data).length = 32

def envelopeAlgorithm : Bytes := ascii "aes256gcm"
def envelopeVersion : ℤ := 1
def envelopeNonceLen : ℕ := 12
def envelopeSaltLen : ℕ := 16
def envelopeKeyLen : ℕ := 32

/-- `aes.BlockSize`, which is also the tag length. -/
def blockSize : ℕ := 16

def validateArgon2Params (params : Argon2Params) : Except Err Unit :=
  if params.time = 0 ∨ params.memoryKiB = 0 ∨ params.threads = 0 then
    .error (.message "cost values must be positive")
  else if params.memoryKiB < 8 * params.threads.toUInt32 then
    .error (.message "memory must be at least 8 KiB per thread")
  else .ok ()

/-- A keyring with its active key and the cost of new records, which is also
the largest cost accepted when opening. -/
structure Envelope where
  keys : List (Bytes × Bytes)
  active : Bytes
  params : Argon2Params
  active_ne_nil : active ≠ []
  keys_valid : ∀ entry ∈ keys, entry.1 ≠ [] ∧ entry.2.length = envelopeKeyLen
  active_mem : (keys.lookup active).isSome
  params_valid : validateArgon2Params params = .ok ()

def keyError (entry : Bytes × Bytes) : Err :=
  if entry.1 = [] then .message "crypto: empty master key id"
  else .message "crypto: master key must be 32 bytes"

def newEnvelope (keys : List (Bytes × Bytes)) (activeId : Bytes) (hasGate : Bool)
    (params : Argon2Params) : Except Err Envelope :=
  if keys = [] then .error (.message "crypto: no master keys")
  else if hactive : activeId = [] then .error (.message "crypto: empty active key id")
  else
    match hfind : keys.find? fun entry => entry.1 = [] ∨ entry.2.length ≠ envelopeKeyLen with
    | some entry => .error (keyError entry)
    | none =>
        if hmem : (keys.lookup activeId).isSome then
          if !hasGate then .error (.message "crypto: nil KDF gate")
          else
            match hparams : validateArgon2Params params with
            | .error err => .error (.wrap "crypto: invalid KDF parameters" err)
            | .ok () =>
                .ok
                  { keys := keys, active := activeId, params := params
                    active_ne_nil := hactive
                    keys_valid := by
                      intro entry hentry
                      have hvalid := List.find?_eq_none.mp hfind entry hentry
                      simpa using hvalid
                    active_mem := hmem
                    params_valid := hparams }
        else .error (.message "crypto: active key not in ring")

/-- Every envelope is one that `NewEnvelope` returns. -/
theorem newEnvelope_fields (E : Envelope) :
    newEnvelope E.keys E.active true E.params = .ok E := by
  have hne : E.keys ≠ [] := by
    intro hnil
    have := E.active_mem
    simp [hnil] at this
  have hfind : (E.keys.find? fun entry =>
      decide (entry.1 = [] ∨ entry.2.length ≠ envelopeKeyLen)) = none := by
    rw [List.find?_eq_none]
    intro entry hentry
    simpa using E.keys_valid entry hentry
  unfold newEnvelope
  rw [if_neg hne, dif_neg E.active_ne_nil]
  split
  · rename_i entry hsome
    rw [hfind] at hsome
    cases hsome
  · rw [dif_pos E.active_mem]
    simp only [Bool.not_true, Bool.false_eq_true, if_false]
    split
    · rename_i err herr
      rw [E.params_valid] at herr
      cases herr
    · rfl

/-- What waiting for a KDF slot comes to. -/
inductive GateOutcome where
  | granted
  | busy
  | canceled
  | deadlineExceeded
  deriving DecidableEq

/-- `crypto.ErrBusy`. -/
def errBusy : Err := .message "crypto: kdf gate busy"

def acquire : GateOutcome → Except Err Unit
  | .granted => .ok ()
  | .busy => .error errBusy
  | .canceled => .error (.message "context canceled")
  | .deadlineExceeded => .error (.message "context deadline exceeded")

def mapKDFError (err : Err) : Err := if Err.is errBusy err then .kdfBusy else err

/-- The random draws of one `Seal`. -/
structure Draws where
  dek : Bytes
  bodyNonce : Bytes
  salt : Bytes
  wrapNonce : Bytes
  length_dek : dek.length = envelopeKeyLen
  length_bodyNonce : bodyNonce.length = envelopeNonceLen
  length_salt : salt.length = envelopeSaltLen
  length_wrapNonce : wrapNonce.length = envelopeNonceLen

def bodyAAD (id : UUID) (expiresAt : ℤ) : Bytes := id.text ++ ascii "|" ++ rfc3339 expiresAt

def wrapAAD (id : UUID) : Bytes := id.text

/-- `newGCM`, for its error only: the key must have an AES key size. -/
def newGCM (context : String) (key : Bytes) : Except Err Unit :=
  if key.length = 16 ∨ key.length = 24 ∨ key.length = 32 then .ok ()
  else .error (.wrap context (.message "crypto/aes: invalid key size"))

variable (P : Primitives)

def deriveKey (gate : GateOutcome) (password salt : Bytes) (params : Argon2Params) :
    Except Err Bytes :=
  match acquire gate with
  | .error err => .error (mapKDFError err)
  | .ok () => .ok (P.argon2id password salt params)

namespace Envelope

variable (E : Envelope)

/-- Wrap mode, key id, KDF parameters and wrapping key of a new record. -/
def wrapping (gate : GateOutcome) (draws : Draws) (password : Bytes) :
    Except Err (WrapMode × Bytes × Option KDFParams × Bytes) :=
  if password = [] then .ok (.kek, E.active, none, (E.keys.lookup E.active).getD [])
  else
    match deriveKey P gate password draws.salt E.params with
    | .error err => .error err
    | .ok derived =>
        .ok (.password, [],
          some ⟨draws.salt, E.params.time, E.params.memoryKiB, E.params.threads⟩, derived)

/-- `Envelope.Seal`. -/
def sealBody (gate : GateOutcome) (draws : Draws) (id : UUID) (expiresAt : ℤ)
    (plain password : Bytes) : Except Err EncryptedBody := do
  newGCM "crypto: create body cipher" draws.dek
  let (wrapMode, kekId, kdf, wrapKey) ← E.wrapping P gate draws password
  newGCM "crypto: create wrap cipher" wrapKey
  return {
    version := envelopeVersion
    alg := envelopeAlgorithm
    nonce := draws.bodyNonce
    ciphertext := P.gcm.encrypt draws.dek draws.bodyNonce plain (bodyAAD id expiresAt)
    wrapMode := wrapMode
    kekId := kekId
    kdf := kdf
    wrapNonce := draws.wrapNonce
    wrappedDEK := P.gcm.encrypt wrapKey draws.wrapNonce draws.dek (wrapAAD id) }

/-- The cost parameters stay within the configured budget, in every component. -/
def withinBudget (params : Argon2Params) : Bool :=
  params.time ≤ E.params.time && params.memoryKiB ≤ E.params.memoryKiB &&
    params.threads ≤ E.params.threads

def paramsOf (kdf : KDFParams) : Argon2Params := ⟨kdf.time, kdf.memoryKiB, kdf.threads⟩

def validateWrap (record : EncryptedBody) : Except Err Unit :=
  match record.wrapMode, record.kdf with
  | .kek, kdf =>
      if record.kekId = [] ∨ kdf.isSome then
        .error (.message "crypto: malformed KEK-wrapped record")
      else .ok ()
  | .password, none => .error (.message "crypto: malformed password-wrapped record")
  | .password, some kdf =>
      if record.kekId ≠ [] then .error (.message "crypto: malformed password-wrapped record")
      else if kdf.salt.length ≠ envelopeSaltLen then
        .error (.message "crypto: KDF salt must be 16 bytes")
      else
        match validateArgon2Params (paramsOf kdf) with
        | .error err => .error (.wrap "crypto: invalid stored KDF parameters" err)
        | .ok () =>
            if E.withinBudget (paramsOf kdf) then .ok ()
            else .error (.message "crypto: stored KDF parameters exceed configured budget")
  | .other _, _ => .error (.message "crypto: unknown wrap mode")

def validateRecord (record : EncryptedBody) : Except Err Unit :=
  if record.version ≠ envelopeVersion ∨ record.alg ≠ envelopeAlgorithm then
    .error (.message "crypto: unsupported record")
  else if record.nonce.length ≠ envelopeNonceLen then
    .error (.message "crypto: body nonce must be 12 bytes")
  else if record.ciphertext.length < blockSize then
    .error (.message "crypto: body ciphertext is too short")
  else if record.wrapNonce.length ≠ envelopeNonceLen then
    .error (.message "crypto: wrap nonce must be 12 bytes")
  else if record.wrappedDEK.length ≠ envelopeKeyLen + blockSize then
    .error (.message "crypto: wrapped DEK has invalid length")
  else E.validateWrap record

/-- The key the record's data key is wrapped with. -/
def wrappingKey (gate : GateOutcome) (record : EncryptedBody) (password : Bytes) :
    Except Err Bytes :=
  match record.wrapMode, record.kdf with
  | .kek, _ =>
      match E.keys.lookup record.kekId with
      | none => .error .keyUnavailable
      | some key => .ok key
  | .password, some kdf =>
      if password = [] then .error .passwordRequired
      else deriveKey P gate password kdf.salt (paramsOf kdf)
  -- neither passes `validateRecord`
  | .password, none => .ok []
  | .other _, _ => .ok []

/-- Data key and body, once the wrapping key is known. -/
def decryptWith (wrapKey : Bytes) (id : UUID) (expiresAt : ℤ) (record : EncryptedBody) :
    Except Err Bytes :=
  match P.gcm.decrypt wrapKey record.wrapNonce record.wrappedDEK (wrapAAD id) with
  | none =>
      if record.wrapMode = .password then .error .wrongPassword
      else .error (.wrap "crypto: unwrap DEK" (.message "cipher: message authentication failed"))
  | some dek =>
      if dek.length ≠ envelopeKeyLen then
        .error (.message "crypto: unwrapped DEK must be 32 bytes")
      else do
        newGCM "crypto: create body cipher" dek
        match P.gcm.decrypt dek record.nonce record.ciphertext (bodyAAD id expiresAt) with
        | none =>
            .error (.wrap "crypto: decrypt body" (.message "cipher: message authentication failed"))
        | some plain => .ok plain

/-- `Envelope.Open`. -/
def openBody (gate : GateOutcome) (id : UUID) (expiresAt : ℤ) (record : EncryptedBody)
    (password : Bytes) : Except Err Bytes := do
  E.validateRecord record
  let wrapKey ← E.wrappingKey P gate record password
  newGCM "crypto: create wrap cipher" wrapKey
  decryptWith P wrapKey id expiresAt record

/-! ## What sealing produces and opening does -/

/-- A record sealed with the given wrapping. -/
def sealedRecord (draws : Draws) (id : UUID) (expiresAt : ℤ) (plain : Bytes) (wrapMode : WrapMode)
    (kekId : Bytes) (kdf : Option KDFParams) (wrapKey : Bytes) : EncryptedBody where
  version := envelopeVersion
  alg := envelopeAlgorithm
  nonce := draws.bodyNonce
  ciphertext := P.gcm.encrypt draws.dek draws.bodyNonce plain (bodyAAD id expiresAt)
  wrapMode := wrapMode
  kekId := kekId
  kdf := kdf
  wrapNonce := draws.wrapNonce
  wrappedDEK := P.gcm.encrypt wrapKey draws.wrapNonce draws.dek (wrapAAD id)

section

variable (draws : Draws) (id : UUID) (expiresAt : ℤ) (plain : Bytes) (wrapMode : WrapMode)
  (kekId : Bytes) (kdf : Option KDFParams) (wrapKey : Bytes)

@[simp]
theorem sealedRecord_wrapMode :
    (sealedRecord P draws id expiresAt plain wrapMode kekId kdf wrapKey).wrapMode = wrapMode := rfl

@[simp]
theorem sealedRecord_kekId :
    (sealedRecord P draws id expiresAt plain wrapMode kekId kdf wrapKey).kekId = kekId := rfl

end

/-- The KDF parameters a new password record carries. -/
def kdfOf (draws : Draws) : KDFParams :=
  ⟨draws.salt, E.params.time, E.params.memoryKiB, E.params.threads⟩

theorem newGCM_of_length {key : Bytes} (context : String) (hlength : key.length = envelopeKeyLen) :
    newGCM context key = .ok () := by
  simp only [envelopeKeyLen] at hlength
  simp [newGCM, hlength]

theorem length_of_lookup {id key : Bytes} (hlookup : E.keys.lookup id = some key) :
    key.length = envelopeKeyLen := by
  have hmem : (id, key) ∈ E.keys := by
    obtain ⟨before, after, hkeys, -⟩ := List.lookup_eq_some_iff.mp hlookup
    rw [hkeys]
    simp
  exact (E.keys_valid _ hmem).2

theorem sealBody_kek (gate : GateOutcome) (draws : Draws) (id : UUID) (expiresAt : ℤ)
    (plain : Bytes) :
    ∃ key, E.keys.lookup E.active = some key ∧ E.sealBody P gate draws id expiresAt plain [] =
      .ok (sealedRecord P draws id expiresAt plain .kek E.active none key) := by
  obtain ⟨key, hkey⟩ := Option.isSome_iff_exists.mp E.active_mem
  refine ⟨key, hkey, ?_⟩
  simp only [sealBody, newGCM_of_length _ draws.length_dek, wrapping, if_true, hkey,
    Option.getD_some, newGCM_of_length _ (E.length_of_lookup hkey), bind, Except.bind, pure,
    Except.pure, sealedRecord]

variable {P E} {gate : GateOutcome} {draws : Draws} {id : UUID} {expiresAt : ℤ}
  {plain password : Bytes} {record : EncryptedBody}

theorem sealBody_password (hpassword : password ≠ []) :
    E.sealBody P .granted draws id expiresAt plain password =
      .ok (sealedRecord P draws id expiresAt plain .password [] (some (E.kdfOf draws))
        (P.argon2id password draws.salt E.params)) := by
  simp only [sealBody, newGCM_of_length _ draws.length_dek, wrapping, hpassword, if_false,
    deriveKey, acquire, newGCM_of_length _ (P.length_argon2id _ _ _), bind, Except.bind, pure,
    Except.pure, sealedRecord, kdfOf]

/-- The two kinds of record `Seal` returns. -/
theorem sealBody_cases (hseal : E.sealBody P gate draws id expiresAt plain password = .ok record) :
    (password = [] ∧ ∃ key, E.keys.lookup E.active = some key ∧
        record = sealedRecord P draws id expiresAt plain .kek E.active none key) ∨
      (password ≠ [] ∧ record = sealedRecord P draws id expiresAt plain .password []
        (some (E.kdfOf draws)) (P.argon2id password draws.salt E.params)) := by
  by_cases hpassword : password = []
  · subst hpassword
    obtain ⟨key, hkey, hsealed⟩ := E.sealBody_kek P gate draws id expiresAt plain
    rw [hsealed] at hseal
    cases hseal
    exact .inl ⟨rfl, key, hkey, rfl⟩
  · have hgate : gate = .granted := by
      by_contra hgate
      have herror : ∃ err, acquire gate = .error err := by
        cases gate
        · exact absurd rfl hgate
        all_goals exact ⟨_, rfl⟩
      obtain ⟨err, herr⟩ := herror
      simp [sealBody, newGCM_of_length _ draws.length_dek, wrapping, hpassword, deriveKey, herr,
        bind, Except.bind] at hseal
    subst hgate
    rw [sealBody_password hpassword] at hseal
    cases hseal
    exact .inr ⟨hpassword, rfl⟩

end Envelope

/-! ## A concrete envelope -/

namespace Sample

def id : UUID := .filled 7

def params : Argon2Params := ⟨1, 64, 4⟩

/-- One master key, under the id `k1`. -/
def envelope : Envelope where
  keys := [(ascii "k1", List.replicate 32 1)]
  active := ascii "k1"
  params := params
  active_ne_nil := by decide
  keys_valid := by decide
  active_mem := by decide
  params_valid := by decide

def draws : Draws where
  dek := List.replicate 32 2
  bodyNonce := List.replicate 12 3
  salt := List.replicate 16 4
  wrapNonce := List.replicate 12 5
  length_dek := by decide
  length_bodyNonce := by decide
  length_salt := by decide
  length_wrapNonce := by decide

def password : Bytes := ascii "hunter2"

/-- The tag tells the body sealed at instant zero and the key wrapped under the
password from everything else. -/
def tag (key _nonce _plain aad : Bytes) : Bytes :=
  if key = draws.dek ∧ aad = bodyAAD id 0 then List.replicate 16 1
  else if key = List.replicate 32 9 ∧ aad = wrapAAD id then List.replicate 16 2
  else List.replicate 16 0

theorem length_tag (key nonce plain aad : Bytes) : (tag key nonce plain aad).length = 16 := by
  unfold tag
  split_ifs <;> simp

def primitives : Primitives where
  gcm := Aead.ofTag tag length_tag
  argon2id given _ _ := if given = password then List.replicate 32 9 else List.replicate 32 8
  sha256 data := (data ++ List.replicate 32 0).take 32
  length_argon2id given salt params := by
    split_ifs <;> simp
  length_sha256 data := by simp

end Sample

end SecurePastebin.Crypto
