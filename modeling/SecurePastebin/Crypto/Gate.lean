import SecurePastebin.Core.Interleaving
import SecurePastebin.Crypto.Phc

/-!
# The KDF gate

`internal/crypto/gate.go` and the four routines that derive a key under it.  The
gate is a buffered channel: waiting for a slot, deriving and giving the slot
back are three steps, between which any other caller may move.  Waiting may end
with a slot, with the caller's context or with the queue timeout, whichever the
`select` picks, and a derivation may panic, in which case the deferred release
still runs.
-/

namespace SecurePastebin.Crypto.Gate

open Text Uuid Paste
open Process Interleaving

/-! ## The routines -/

inductive Call where
  | acquire
  | idKey (password salt : Bytes) (params : Argon2Params)
  | release
  deriving DecidableEq

/-- A derivation that replies `none` has panicked. -/
abbrev Call.Reply : Call → Type
  | .acquire => GateOutcome
  | .idKey .. => Option Bytes
  | .release => Unit

abbrev Port := Proc Call Call.Reply

abbrev Step := Process.Entry Call Call.Reply

/-- How a Go call ends. -/
inductive Outcome (Value : Type) where
  | returned (result : Except Err Value)
  | panicked
  deriving DecidableEq

/-- What a caller makes of the results of a routine; a panic passes through. -/
def Outcome.map {Value Result : Type} (next : Except Err Value → Except Err Result) :
    Outcome Value → Outcome Result
  | .returned result => .returned (next result)
  | .panicked => .panicked

def Outcome.ofKey : Option Bytes → Outcome Bytes
  | some key => .returned (.ok key)
  | none => .panicked

/-- `DeriveKey`.  The release is deferred, so it runs on both ways out. -/
def deriveKey (password salt : Bytes) (params : Argon2Params) : Port (Outcome Bytes) := do
  let outcome ← Proc.perform .acquire
  match Crypto.acquire outcome with
  | .error err => return .returned (.error err)
  | .ok () =>
    let key ← Proc.perform (.idKey password salt params)
    let _ ← Proc.perform .release
    return .ofKey key

section

variable (P : Primitives) (E : Envelope)

/-- The rest of `Seal` once the wrapping key is derived. -/
def sealWith (draws : Draws) (id : UUID) (expiresAt : ℤ) (plain derived : Bytes) :
    Except Err EncryptedBody := do
  newGCM "crypto: create wrap cipher" derived
  return Envelope.sealedRecord P draws id expiresAt plain .password [] (some (E.kdfOf draws)) derived

/-- `Envelope.Seal`. -/
def sealBody (draws : Draws) (id : UUID) (expiresAt : ℤ) (plain password : Bytes) :
    Port (Outcome EncryptedBody) :=
  if password = [] then
    .ret (.returned (E.sealBody P .granted draws id expiresAt plain password))
  else
    Outcome.map (fun derived => derived.mapError mapKDFError >>= sealWith P E draws id expiresAt plain)
      <$> deriveKey password draws.salt E.params

/-- The rest of `Open` once the wrapping key is derived. -/
def openWith (id : UUID) (expiresAt : ℤ) (record : EncryptedBody) (derived : Bytes) :
    Except Err Bytes := do
  newGCM "crypto: create wrap cipher" derived
  Envelope.decryptWith P derived id expiresAt record

/-- `Envelope.Open`. -/
def openBody (id : UUID) (expiresAt : ℤ) (record : EncryptedBody) (password : Bytes) :
    Port (Outcome Bytes) :=
  match E.validateRecord record with
  | .error err => .ret (.returned (.error err))
  | .ok () =>
    match record.wrapMode, record.kdf with
    | .password, some kdf =>
      if password = [] then .ret (.returned (.error .passwordRequired))
      else
        Outcome.map (fun derived => derived.mapError mapKDFError >>= openWith P id expiresAt record)
          <$> deriveKey password kdf.salt (Envelope.paramsOf kdf)
    | _, _ => .ret (.returned (E.openBody P .granted id expiresAt record password))

/-- `HashPassword`; the salt is the random draw. -/
def hashWith (params : Argon2Params) (salt password : Bytes) : Port (Outcome Bytes) :=
  Outcome.map (Except.map fun key => formatPHC ⟨params, salt, key⟩) <$>
    deriveKey password salt params

/-- `HashPassword` with the configured parameters. -/
def hashPassword (salt password : Bytes) : Port (Outcome Bytes) := hashWith E.params salt password

end

/-- `VerifyPassword`. -/
def verifyPassword (phc password : Bytes) : Port (Outcome Bool) :=
  match parsePHC phc with
  | .error err => .ret (.returned (.error err))
  | .ok stored =>
      Outcome.map (Except.map fun key => key == stored.key) <$>
        deriveKey password stored.salt stored.params

/-! ## Points of a derivation -/

/-- Where a derivation can stand: the calls answered so far, and the call it
waits for or its result. -/
inductive DerivePoint (password salt : Bytes) (params : Argon2Params) :
    List Step → Call ⊕ Outcome Bytes → Prop
  | waiting : DerivePoint password salt params [] (.inl .acquire)
  | refused {outcome : GateOutcome} {err : Err} (herr : Crypto.acquire outcome = .error err) :
      DerivePoint password salt params [⟨.acquire, outcome⟩] (.inr (.returned (.error err)))
  | running : DerivePoint password salt params [⟨.acquire, .granted⟩]
      (.inl (.idKey password salt params))
  | leaving (key : Option Bytes) : DerivePoint password salt params
      [⟨.acquire, .granted⟩, ⟨.idKey password salt params, key⟩] (.inl .release)
  | left (key : Option Bytes) : DerivePoint password salt params
      [⟨.acquire, .granted⟩, ⟨.idKey password salt params, key⟩, ⟨.release, ()⟩]
      (.inr (.ofKey key))

theorem deriveKey_point {password salt : Bytes} {params : Argon2Params} {trace : List Step}
    {point : Call ⊕ Outcome Bytes} (hreach : (deriveKey password salt params).Reaches trace point) :
    DerivePoint password salt params trace point := by
  simp only [deriveKey, Proc.perform_bind, Proc.pure_eq] at hreach
  rcases hreach with ⟨rfl, rfl⟩ | ⟨outcome, tail, rfl, hreach⟩
  · exact .waiting
  dsimp only at hreach
  split at hreach
  · rename_i err herr
    obtain ⟨rfl, rfl⟩ := hreach
    exact .refused herr
  · rename_i hgranted
    obtain rfl : outcome = .granted := by
      cases outcome <;> first | rfl | cases hgranted
    rcases hreach with ⟨rfl, rfl⟩ | ⟨key, tail, rfl, hreach⟩
    · exact .running
    rcases hreach with ⟨rfl, rfl⟩ | ⟨⟨⟩, tail, rfl, rfl, rfl⟩
    · exact .leaving key
    · exact .left key

/-! ## The machine -/

/-- The number of slots `NewGate` makes. -/
def capacity (maxConcurrent : ℤ) : ℕ := (max 1 maxConcurrent).toNat

/-- The number of values in the channel's buffer. -/
structure Store where
  slots : ℕ
  deriving DecidableEq

inductive Choice where
  | select (outcome : GateOutcome)
  | done
  | panics
  deriving DecidableEq

inductive Op where
  | deriveKey (password salt : Bytes) (params : Argon2Params)
  | sealBody (draws : Draws) (id : UUID) (expiresAt : ℤ) (plain password : Bytes)
  | openBody (id : UUID) (expiresAt : ℤ) (record : EncryptedBody) (password : Bytes)
  | hashPassword (salt password : Bytes)
  | verifyPassword (phc password : Bytes)

inductive Result where
  | key (outcome : Outcome Bytes)
  | sealed (outcome : Outcome EncryptedBody)
  | opened (outcome : Outcome Bytes)
  | hashed (outcome : Outcome Bytes)
  | verified (outcome : Outcome Bool)

section

variable (P : Primitives) (E : Envelope) (maxConcurrent : ℤ)

def program : Op → Port Result
  | .deriveKey password salt params => .key <$> deriveKey password salt params
  | .sealBody draws id expiresAt plain password =>
      .sealed <$> sealBody P E draws id expiresAt plain password
  | .openBody id expiresAt record password => .opened <$> openBody P E id expiresAt record password
  | .hashPassword salt password => .hashed <$> hashPassword E salt password
  | .verifyPassword phc password => .verified <$> verifyPassword phc password

/-- Sending blocks while the buffer is full, receiving while it is empty.
`IDKey` itself panics on a zero time or thread count. -/
def exec (store : Store) : (request : Call) → Choice → Option (request.Reply × Store)
  | .acquire, .select .granted =>
      if store.slots < capacity maxConcurrent then some (.granted, ⟨store.slots + 1⟩) else none
  | .acquire, .select outcome => some (outcome, store)
  | .idKey password salt params, .done =>
      if params.time = 0 ∨ params.threads = 0 then some (none, store)
      else some (some (P.argon2id password salt params), store)
  | .idKey .., .panics => some (none, store)
  | .release, .done => if 0 < store.slots then some ((), ⟨store.slots - 1⟩) else none
  | _, _ => none

def machine : Machine Store Op Call Call.Reply Choice Empty Result where
  program := program P E
  exec := exec P maxConcurrent
  env _ change := nomatch change

end

abbrev Config := Interleaving.Config Store Op Call Call.Reply Result

abbrev Action := Interleaving.Action Op Choice Empty

/-- A gate no call has used yet. -/
def start : Config := .initial ⟨0⟩

end SecurePastebin.Crypto.Gate
