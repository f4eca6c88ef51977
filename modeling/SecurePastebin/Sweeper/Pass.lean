import SecurePastebin.Paste.Service

/-!
# The sweeper

`internal/sweeper/sweeper.go`: one bounded pass deletes the bodies of expired
pastes, audits their expiry, applies retention and counts what is active.  The
callbacks for the count are not modelled.
-/

namespace SecurePastebin.Sweeper

open Text Uuid Calendar
open Process Paste

structure Config where
  metadataRetentionDays : ℤ
  auditRetentionDays : ℤ
  batch : ℤ
  /-- The metadata store offers `PurgeCompletedOlderThan`. -/
  hasCompletedPurger : Bool
  hasAuditPurger : Bool

/-- The batch size after the defaulting of `New`. -/
def Config.batchSize (cfg : Config) : ℕ := if cfg.batch ≤ 0 then 500 else cfg.batch.toNat

structure Stats where
  expired : ℕ
  metadataPurged : ℕ
  auditPurged : ℕ
  active : ℕ
  deriving DecidableEq

def Stats.zero : Stats := ⟨0, 0, 0, 0⟩

/-- `t.AddDate(0, 0, -days)` in UTC. -/
def daysBefore (t days : ℤ) : ℤ := t - days * day

def expiredEvent (now : ℤ) (m : PasteMeta) : Event :=
  ⟨now, .pasteExpired, none, some m.id, .success,
    [("expires_at", .time m.expiresAt), ("password_protected", .bool m.passwordProtected)]⟩

def purgedEvent (kind : EventKind) (now : ℤ) (count : ℕ) : Event :=
  ⟨now, kind, none, none, .success, [("count", .int count)]⟩

/-- The loop over one batch: the ids whose body is gone and whose expiry is
audited, and whether some deletion failed. -/
def expireBatch (now : ℤ) : List PasteMeta → Port (List UUID × Bool)
  | [] => return ([], false)
  | m :: rest => do
      match ← Port.bodiesDelete m.id with
      | .error _ =>
          let (ids, _) ← expireBatch now rest
          return (ids, true)
      | .ok () =>
          Port.auditRecord (expiredEvent now m)
          let (ids, failed) ← expireBatch now rest
          return (m.id :: ids, failed)

/-- Mark the swept ids; without any there is no call. -/
def markAudited (ids : List UUID) (now : ℤ) : Port (Except Err Unit) :=
  if ids = [] then return .ok () else Port.metasMarkExpiredAudited ids now

/-- Record a purge that removed something. -/
def recordPurge (kind : EventKind) (now : ℤ) (count : ℕ) : Port Unit :=
  if count > 0 then Port.auditRecord (purgedEvent kind now count) else return ()

/-- Retention of metadata: only completed rows where the store can tell, else
everything old once no expiry work is pending. -/
def purgeMetadata (cfg : Config) (now : ℤ) (retryPending : Bool) : Port (Except Err ℕ) :=
  let cutoff := daysBefore now cfg.metadataRetentionDays
  if cfg.hasCompletedPurger then Port.metasPurgeCompletedOlderThan cutoff
  else if !retryPending then Port.metasPurgeOlderThan cutoff
  else return .ok 0

/-- The end of a pass. -/
def countActive (now : ℤ) (stats : Stats) : Port (Stats × Option Err) := do
  match ← Port.metasCountActive now with
  | .error err => return (stats, some err)
  | .ok active => return ({ stats with active }, none)

def purgeAudit (cfg : Config) (now : ℤ) (stats : Stats) : Port (Stats × Option Err) := do
  if cfg.auditRetentionDays > 0 ∧ cfg.hasAuditPurger then
    match ← Port.auditPurgeOlderThan (daysBefore now cfg.auditRetentionDays) with
    | .error err => return (stats, some err)
    | .ok count =>
        recordPurge .auditPurged now count
        countActive now { stats with auditPurged := count }
  else
    countActive now stats

def retain (cfg : Config) (now : ℤ) (retryPending : Bool) (stats : Stats) :
    Port (Stats × Option Err) := do
  if cfg.metadataRetentionDays > 0 then
    match ← purgeMetadata cfg now retryPending with
    | .error err => return (stats, some err)
    | .ok count =>
        recordPurge .metadataPurged now count
        purgeAudit cfg now { stats with metadataPurged := count }
  else
    purgeAudit cfg now stats

def runOnce (cfg : Config) : Port (Stats × Option Err) := do
  let now ← Port.now
  match ← Port.metasListExpiredUnaudited now cfg.batchSize with
  | .error err => return (.zero, some err)
  | .ok expired =>
      let (ids, failed) ← expireBatch now expired
      -- a full batch may leave older expired rows for a later pass
      let retryPending := decide (cfg.batchSize ≤ expired.length) || failed
      match ← markAudited ids now with
      | .error err => return (.zero, some err)
      | .ok () => retain cfg now retryPending { Stats.zero with expired := ids.length }

end SecurePastebin.Sweeper
