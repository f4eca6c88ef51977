import SecurePastebin.Core.Process
import SecurePastebin.Paste.Canonical

/-!
# The paste service

`internal/paste/service.go`, each method split at its port calls: the clock,
the random identifiers, the envelope, the two stores and the audit sink.
Clearing plaintext buffers has no counterpart here.
-/

namespace SecurePastebin.Paste

open Text Uuid Calendar Utf8
open Process

/-! ## Ports -/

/-- The calls of the service and of the sweeper on their ports. -/
inductive Call where
  | now
  | newUUID
  | envelopeSeal (id : UUID) (expiresAt : ℤ) (plain password : Bytes)
  | envelopeOpen (id : UUID) (expiresAt : ℤ) (record : EncryptedBody) (password : Bytes)
  | bodiesPut (id : UUID) (record : EncryptedBody) (ttl : ℤ)
  | bodiesGet (id : UUID)
  | bodiesDelete (id : UUID)
  | bodiesMarkUnavailableOnce (id : UUID) (ttl : ℤ)
  | metasCreate (m : PasteMeta)
  | metasGet (id : UUID)
  | metasIncrementViews (id : UUID)
  | metasMarkDeleted (id byUser : UUID) (time : ℤ)
  | metasListByOwner (ownerId : UUID) (page : Page)
  | metasListAll (ownerFilter : Option UUID) (page : Page)
  | metasListExpiredUnaudited (time : ℤ) (limit : ℕ)
  | metasMarkExpiredAudited (ids : List UUID) (time : ℤ)
  | metasPurgeOlderThan (cutoff : ℤ)
  | metasPurgeCompletedOlderThan (cutoff : ℤ)
  | metasCountActive (time : ℤ)
  | auditRecord (event : Event)
  | auditPurgeOlderThan (cutoff : ℤ)
  deriving DecidableEq

/-- What a call returns.  The clock, the identifiers and the sink do not fail. -/
@[reducible]
def Call.Reply : Call → Type
  | .now => ℤ
  | .newUUID => UUID
  | .envelopeSeal .. => Except Err EncryptedBody
  | .envelopeOpen .. => Except Err Bytes
  | .bodiesPut .. => Except Err Unit
  | .bodiesGet .. => Except Err EncryptedBody
  | .bodiesDelete .. => Except Err Unit
  | .bodiesMarkUnavailableOnce .. => Except Err Bool
  | .metasCreate .. => Except Err Unit
  | .metasGet .. => Except Err PasteMeta
  | .metasIncrementViews .. => Except Err Unit
  | .metasMarkDeleted .. => Except Err Unit
  | .metasListByOwner .. => Except Err (List PasteMeta)
  | .metasListAll .. => Except Err (List PasteMeta)
  | .metasListExpiredUnaudited .. => Except Err (List PasteMeta)
  | .metasMarkExpiredAudited .. => Except Err Unit
  | .metasPurgeOlderThan .. => Except Err ℕ
  | .metasPurgeCompletedOlderThan .. => Except Err ℕ
  | .metasCountActive .. => Except Err ℕ
  | .auditRecord .. => Unit
  | .auditPurgeOlderThan .. => Except Err ℕ

/-- Programs over the ports. -/
abbrev Port := Proc Call Call.Reply

/-- One answered call. -/
abbrev Step := Entry Call Call.Reply

namespace Port

abbrev now : Port ℤ := .perform Call.now

abbrev newUUID : Port UUID := .perform Call.newUUID

abbrev envelopeSeal (id : UUID) (expiresAt : ℤ) (plain password : Bytes) :
    Port (Except Err EncryptedBody) := .perform (Call.envelopeSeal id expiresAt plain password)

abbrev envelopeOpen (id : UUID) (expiresAt : ℤ) (record : EncryptedBody) (password : Bytes) :
    Port (Except Err Bytes) := .perform (Call.envelopeOpen id expiresAt record password)

abbrev bodiesPut (id : UUID) (record : EncryptedBody) (ttl : ℤ) : Port (Except Err Unit) :=
  .perform (Call.bodiesPut id record ttl)

abbrev bodiesGet (id : UUID) : Port (Except Err EncryptedBody) := .perform (Call.bodiesGet id)

abbrev bodiesDelete (id : UUID) : Port (Except Err Unit) := .perform (Call.bodiesDelete id)

abbrev bodiesMarkUnavailableOnce (id : UUID) (ttl : ℤ) : Port (Except Err Bool) :=
  .perform (Call.bodiesMarkUnavailableOnce id ttl)

abbrev metasCreate (m : PasteMeta) : Port (Except Err Unit) := .perform (Call.metasCreate m)

abbrev metasGet (id : UUID) : Port (Except Err PasteMeta) := .perform (Call.metasGet id)

abbrev metasIncrementViews (id : UUID) : Port (Except Err Unit) :=
  .perform (Call.metasIncrementViews id)

abbrev metasMarkDeleted (id byUser : UUID) (time : ℤ) : Port (Except Err Unit) :=
  .perform (Call.metasMarkDeleted id byUser time)

abbrev metasListByOwner (ownerId : UUID) (page : Page) : Port (Except Err (List PasteMeta)) :=
  .perform (Call.metasListByOwner ownerId page)

abbrev metasListAll (ownerFilter : Option UUID) (page : Page) :
    Port (Except Err (List PasteMeta)) := .perform (Call.metasListAll ownerFilter page)

abbrev metasListExpiredUnaudited (time : ℤ) (limit : ℕ) : Port (Except Err (List PasteMeta)) :=
  .perform (Call.metasListExpiredUnaudited time limit)

abbrev metasMarkExpiredAudited (ids : List UUID) (time : ℤ) : Port (Except Err Unit) :=
  .perform (Call.metasMarkExpiredAudited ids time)

abbrev metasPurgeOlderThan (cutoff : ℤ) : Port (Except Err ℕ) :=
  .perform (Call.metasPurgeOlderThan cutoff)

abbrev metasPurgeCompletedOlderThan (cutoff : ℤ) : Port (Except Err ℕ) :=
  .perform (Call.metasPurgeCompletedOlderThan cutoff)

abbrev metasCountActive (time : ℤ) : Port (Except Err ℕ) := .perform (Call.metasCountActive time)

abbrev auditRecord (event : Event) : Port Unit := .perform (Call.auditRecord event)

abbrev auditPurgeOlderThan (cutoff : ℤ) : Port (Except Err ℕ) :=
  .perform (Call.auditPurgeOlderThan cutoff)

end Port

/-! ## The service -/

/-- What the service is constructed with, the ports apart. -/
structure Deps where
  sha256 : Bytes → Bytes
  hasAudit : Bool
  baseURL : Bytes
  limits : Limits

/-- `strings.TrimRight(s, "/")`. -/
def trimSlashes (text : Bytes) : Bytes := (text.reverse.dropWhile (· = 0x2F)).reverse

def pasteURL (baseURL : Bytes) (id : UUID) : Bytes :=
  trimSlashes baseURL ++ ascii "/pastebin/" ++ id.text

variable (d : Deps)

def record (kind : EventKind) (actor id : Option UUID) (outcome : Outcome)
    (details : List (String × Detail)) : Port Unit :=
  if d.hasAudit then do
    let time ← Port.now
    Port.auditRecord ⟨time, kind, actor, id, outcome, details⟩
  else pure ()

/-- The life time a request asks for. -/
def effectiveTTL (input : CreateInput) : ℤ :=
  if input.ttlSeconds = 0 then d.limits.ttlDefault else input.ttlSeconds

/-- The metadata of a new paste, before it is known what sealed it. -/
def newMeta (p : Principal) (input : CreateInput) (canonical : Bytes) (now : ℤ) (id : UUID) :
    PasteMeta where
  id := id
  ownerId := p.userId
  createdAt := now
  expiresAt := now + wrap64 (effectiveTTL d input * second)
  ttlSeconds := effectiveTTL d input
  sizeBytes := canonical.length
  hashAlgo := ascii "sha256"
  contentHash := hashHex d.sha256 canonical
  passwordProtected := input.password ≠ []
  kekId := []
  viewCount := 0
  expiredAuditedAt := none
  deletedAt := none
  deletedBy := none

/-- The key id of the sealed record, unless the paste is password-protected. -/
def withKek (m : PasteMeta) (record : EncryptedBody) : PasteMeta :=
  if m.passwordProtected then m else { m with kekId := record.kekId }

def create (p : Principal) (input : CreateInput) : Port (Except Err CreateResult) := do
  if effectiveTTL d input < d.limits.ttlMin ∨ effectiveTTL d input > d.limits.ttlMax then
    return .error .invalidTTL
  if valid input.password = false ∨ (input.password ≠ [] ∧ runeCount input.password > 128) then
    return .error .invalidPassword
  match canonicalize input.content d.limits.maxSize with
  | .error err => return .error err
  | .ok canonical =>
      let now ← Port.now
      let id ← Port.newUUID
      let draft := newMeta d p input canonical now id
      match ← Port.envelopeSeal id draft.expiresAt canonical input.password with
      | .error err => return .error err
      | .ok sealed =>
          let m := withKek draft sealed
          let later ← Port.now
          let remaining := sub m.expiresAt later
          if remaining ≤ 0 then
            return .error .expired
          match ← Port.bodiesPut id sealed remaining with
          | .error err => return .error (.wrap "store body" err)
          | .ok () =>
              match ← Port.metasCreate m with
              | .error err =>
                  let _ ← Port.bodiesDelete id
                  return .error (.wrap "store metadata" err)
              | .ok () =>
                  record d .pasteCreated (some p.userId) (some id) .success
                    [("size_bytes", .int m.sizeBytes), ("ttl_seconds", .int m.ttlSeconds),
                      ("password_protected", .bool m.passwordProtected)]
                  return .ok ⟨m, pasteURL d.baseURL id⟩

def actorOf (p : Option Principal) : Option UUID := p.map Principal.userId

/-- The part of `Read` from a successful decryption on. -/
def release (p : Option Principal) (id : UUID) (m : PasteMeta) (res : ReadResult)
    (plain : Bytes) : Port (Except Err ReadResult) := do
  let opened ← Port.now
  if ¬ opened < m.expiresAt then
    return .ok { res with status := .expired }
  -- a view remains successful if this counter fails
  let _ ← Port.metasIncrementViews id
  let counted ← Port.now
  if ¬ counted < m.expiresAt then
    return .ok { res with status := .expired }
  if m.passwordProtected then
    record d .pasteUnlockSuccess (actorOf p) (some id) .success []
  else
    record d .pasteViewed (actorOf p) (some id) .success []
  let recorded ← Port.now
  if ¬ recorded < m.expiresAt then
    return .ok { res with status := .expired }
  return .ok { res with content := some plain, hashVisible := true }

/-- The part of `Read` for a body that is not there. -/
def reportMissing (p : Option Principal) (id : UUID) (m : PasteMeta) (res : ReadResult)
    (now : ℤ) : Port (Except Err ReadResult) := do
  match ← Port.bodiesMarkUnavailableOnce id (wrap64 (sub m.expiresAt now + hour)) with
  | .ok true =>
      record d .pasteUnavailable (actorOf p) (some id) .failure []
      return .ok { res with status := .unavailable }
  | _ => return .ok { res with status := .unavailable }

def read (p : Option Principal) (id : UUID) (password : Bytes) :
    Port (Except Err ReadResult) := do
  match ← Port.metasGet id with
  | .error err => return .error err
  | .ok m =>
      let now ← Port.now
      let res : ReadResult := ⟨m, m.status now, none, !m.passwordProtected⟩
      if res.status ≠ .active then
        return .ok res
      let body ← Port.bodiesGet id
      -- the lookup may have outlasted the life time: that is expiry, not loss
      let now ← Port.now
      if ¬ now < m.expiresAt then
        return .ok { res with status := .expired }
      match body with
      | .error err =>
          if Err.is .notFound err then
            reportMissing d p id m res now
          else
            return .error err
      | .ok sealed =>
          if m.passwordProtected ∧ password = [] then
            return .ok res
          match ← Port.envelopeOpen id m.expiresAt sealed password with
          | .error err =>
              if Err.is .wrongPassword err then
                record d .pasteUnlockFailure (actorOf p) (some id) .failure []
                return .error err
              else
                return .error err
          | .ok plain => release d p id m res plain

/-- A piece `unicode.IsSpace` accepts. -/
def isSpacePiece : Piece → Bool
  | .rune [a] => (0x09 ≤ a && a ≤ 0x0D) || a == 0x20
  | .rune [0xC2, b] => b == 0x85 || b == 0xA0
  | .rune [0xE1, 0x9A, 0x80] => true
  | .rune [0xE2, 0x80, c] => (0x80 ≤ c && c ≤ 0x8A) || c == 0xA8 || c == 0xA9 || c == 0xAF
  | .rune [0xE2, 0x81, 0x9F] => true
  | .rune [0xE3, 0x80, 0x80] => true
  | _ => false

/-- `strings.TrimSpace`. -/
def trimSpace (text : Bytes) : Bytes :=
  (((pieces text).dropWhile isSpacePiece).reverse.dropWhile isSpacePiece).reverse.flatMap
    Piece.bytes

/-- `strings.EqualFold` against a hexadecimal text, whose letters fold within
ASCII only. -/
def equalFoldHex (text hex : Bytes) : Bool := text.map lower = hex.map lower

def verify (id : UUID) (sha256hex : Bytes) : Port (Except Err VerifyResult) := do
  match ← Port.metasGet id with
  | .error err => return .error err
  | .ok m =>
      let isMatch := equalFoldHex (trimSpace sha256hex) m.contentHash
      let now ← Port.now
      let res : VerifyResult := ⟨isMatch, m.status now, m⟩
      record d .pasteVerify none (some id) (if isMatch then .success else .failure)
        [("match", .bool isMatch), ("status", .status res.status)]
      return .ok res

def delete (p : Principal) (id : UUID) : Port (Except Err Unit) := do
  match ← Port.metasGet id with
  | .error err => return .error err
  | .ok m =>
      if m.ownerId ≠ p.userId ∧ ¬ p.isAdmin then
        return .error .forbidden
      let now ← Port.now
      if m.deletedAt.isSome ∨ ¬ now < m.expiresAt then
        return .ok ()
      match ← Port.bodiesDelete id with
      | .error err => return .error (.wrap "delete body" err)
      | .ok () =>
          match ← Port.metasMarkDeleted id p.userId now with
          | .error err => return .error (.wrap "mark deleted" err)
          | .ok () =>
              record d .pasteDeleted (some p.userId) (some id) .success
                [("by_admin", .bool (p.isAdmin && m.ownerId ≠ p.userId))]
              return .ok ()

def listMine (p : Principal) (page : Page) : Port (Except Err (List PasteMeta)) :=
  Port.metasListByOwner p.userId page

def listAll (p : Principal) (ownerFilter : Option UUID) (page : Page) :
    Port (Except Err (List PasteMeta)) :=
  if p.isAdmin then Port.metasListAll ownerFilter page else pure (.error .forbidden)

end SecurePastebin.Paste
