import SecurePastebin.Core.Uuid
import SecurePastebin.Core.Calendar

/-!
# The paste domain

Records, statuses, errors and audit events of `internal/paste` and
`internal/audit`.  Instants and durations are nanoseconds; Go strings are byte
strings.  A Go `int` that is a length is a natural number here.
-/

namespace SecurePastebin.Paste

open Text Uuid

/-- `BOM`, the byte order mark every canonical paste begins with. -/
def BOM : Bytes := [0xEF, 0xBB, 0xBF]

/-- Derived from metadata and body presence, never stored. -/
inductive Status where
  | active
  | expired
  | deleted
  | unavailable
  deriving DecidableEq, Repr

def statusText : Status → String
  | .active => "active"
  | .expired => "expired"
  | .deleted => "deleted"
  | .unavailable => "unavailable"

/-- How the data key is wrapped; any other text in a record is kept as it is. -/
inductive WrapMode where
  | kek
  | password
  | other (text : Bytes)
  deriving DecidableEq, Inhabited

structure KDFParams where
  salt : Bytes
  time : UInt32
  memoryKiB : UInt32
  threads : UInt8
  deriving DecidableEq

/-- What lives in Redis under `paste:{id}`. -/
structure EncryptedBody where
  version : ℤ
  alg : Bytes
  nonce : Bytes
  ciphertext : Bytes
  wrapMode : WrapMode
  kekId : Bytes
  kdf : Option KDFParams
  wrapNonce : Bytes
  wrappedDEK : Bytes
  deriving DecidableEq, Inhabited

/-- One row of the `pastes` table. -/
structure PasteMeta where
  id : UUID
  ownerId : UUID
  createdAt : ℤ
  expiresAt : ℤ
  ttlSeconds : ℤ
  sizeBytes : ℕ
  hashAlgo : Bytes
  contentHash : Bytes
  passwordProtected : Bool
  kekId : Bytes
  viewCount : ℕ
  expiredAuditedAt : Option ℤ
  deletedAt : Option ℤ
  deletedBy : Option UUID
  deriving DecidableEq

/-- `m.Status(now)`: metadata only, so never `unavailable`. -/
def PasteMeta.status (m : PasteMeta) (now : ℤ) : Status :=
  if m.deletedAt.isSome then .deleted
  else if ¬ now < m.expiresAt then .expired
  else .active

theorem PasteMeta.status_eq_active_iff (m : PasteMeta) (now : ℤ) :
    m.status now = .active ↔ m.deletedAt = none ∧ now < m.expiresAt := by
  unfold PasteMeta.status
  cases m.deletedAt with
  | none => by_cases hnow : now < m.expiresAt <;> simp [hnow]
  | some time => simp

theorem PasteMeta.status_eq_expired_iff (m : PasteMeta) (now : ℤ) :
    m.status now = .expired ↔ m.deletedAt = none ∧ m.expiresAt ≤ now := by
  unfold PasteMeta.status
  cases m.deletedAt with
  | none => by_cases hnow : now < m.expiresAt <;> simp [hnow, ← not_lt]
  | some time => simp

structure Principal where
  userId : UUID
  username : Bytes
  isAdmin : Bool
  deriving DecidableEq

/-- An empty password means none, a zero lifetime the default. -/
structure CreateInput where
  content : Bytes
  password : Bytes
  ttlSeconds : ℤ
  deriving DecidableEq

structure CreateResult where
  info : PasteMeta
  url : Bytes
  deriving DecidableEq

structure ReadResult where
  info : PasteMeta
  status : Status
  content : Option Bytes
  hashVisible : Bool
  deriving DecidableEq

structure VerifyResult where
  isMatch : Bool
  status : Status
  info : PasteMeta
  deriving DecidableEq

structure Page where
  limit : ℤ
  offset : ℤ
  deriving DecidableEq

/-- The validated bounds of the configuration. -/
structure Limits where
  maxSize : ℤ
  ttlDefault : ℤ
  ttlMin : ℤ
  ttlMax : ℤ
  deriving DecidableEq

/-! ## Errors -/

/-- The sentinel errors the HTTP layer maps, the size error with its data, any
other error, and an error wrapped with a context. -/
inductive Err where
  | notFound
  | expired
  | deleted
  | unavailable
  | wrongPassword
  | passwordRequired
  | forbidden
  | invalidUTF8
  | invalidTTL
  | invalidPassword
  | kdfBusy
  | keyUnavailable
  | challengeRequired
  | tooLarge (limit actual : ℤ)
  | message (text : String)
  | wrap (context : String) (inner : Err)
  deriving DecidableEq

/-- `errors.Is(err, target)`. -/
def Err.is (target : Err) : Err → Bool
  | .wrap context inner => decide (Err.wrap context inner = target) || Err.is target inner
  | err => decide (err = target)

/-! ## Audit events -/

inductive EventKind where
  | pasteCreated
  | pasteViewed
  | pasteUnlockSuccess
  | pasteUnlockFailure
  | pasteVerify
  | pasteDeleted
  | pasteExpired
  | pasteUnavailable
  | auditPurged
  | metadataPurged
  deriving DecidableEq, Repr

inductive Outcome where
  | success
  | failure
  deriving DecidableEq, Repr

/-- A value in an event's details. -/
inductive Detail where
  | int (value : ℤ)
  | bool (value : Bool)
  | status (value : Status)
  | time (value : ℤ)
  deriving DecidableEq

/-- Address and user agent, which the sink fills in from the request, are left
out. -/
structure Event where
  atTime : ℤ
  kind : EventKind
  actorId : Option UUID
  pasteId : Option UUID
  outcome : Outcome
  details : List (String × Detail)
  deriving DecidableEq

end SecurePastebin.Paste
