import SecurePastebin.Core.Table
import SecurePastebin.Core.Utf8
import SecurePastebin.Paste.Types

/-!
# The metadata store

`internal/store/postgres/pastes.go` with the constraints of the first migration.
Timestamps have microseconds, integer columns 32 bits, text columns hold valid
UTF-8 without zero bytes.  The references to the `users` table are not modelled.
-/

namespace SecurePastebin.Store

open Text Uuid Calendar Utf8
open Paste

/-- The `pastes` table. -/
abbrev Pastes := Table PasteMeta.id

/-- An instant as a `timestamptz` parameter. -/
def pgTime (t : ℤ) : ℤ := truncate t microsecond

/-- The row a record is stored as. -/
def storedRow (m : PasteMeta) : PasteMeta :=
  { m with
    createdAt := pgTime m.createdAt
    expiresAt := pgTime m.expiresAt
    expiredAuditedAt := m.expiredAuditedAt.map pgTime
    deletedAt := m.deletedAt.map pgTime }

def fitsInt4 (value : ℤ) : Bool := -(2 ^ 31) ≤ value && value < 2 ^ 31

def fitsText (text : Bytes) : Bool := valid text && !text.contains 0

namespace Pastes

def create (pastes : Pastes) (m : PasteMeta) : Except Err Pastes :=
  if !(fitsInt4 m.ttlSeconds && fitsInt4 m.sizeBytes && fitsInt4 m.viewCount) then
    .error (.message "integer out of range")
  else if !(fitsText m.hashAlgo && fitsText m.contentHash && fitsText m.kekId) then
    .error (.message "invalid byte sequence for encoding")
  else if !(1 ≤ m.ttlSeconds && m.ttlSeconds ≤ 86400) then
    .error (.message "violates check constraint ttl_bounds")
  else
    match pastes.insert (storedRow m) with
    | none => .error (.message "duplicate key value violates unique constraint pastes_pkey")
    | some pastes' => .ok pastes'

def get (pastes : Pastes) (id : UUID) : Except Err PasteMeta :=
  match pastes.find id with
  | none => .error .notFound
  | some m => .ok m

def incrementViews (pastes : Pastes) (id : UUID) : Except Err Pastes :=
  if pastes.count (fun m => m.id = id && !fitsInt4 (m.viewCount + 1)) ≠ 0 then
    .error (.message "integer out of range")
  else
    .ok (pastes.update (fun m => m.id = id) (fun m => { m with viewCount := m.viewCount + 1 })
      fun _ => rfl)

def markDeleted (pastes : Pastes) (id byUser : UUID) (time : ℤ) : Pastes :=
  pastes.update (fun m => m.id = id && m.deletedAt.isNone)
    (fun m => { m with deletedAt := some (pgTime time), deletedBy := some byUser }) fun _ => rfl

def normalizePage (page : Page) : Page where
  limit := if page.limit ≤ 0 ∨ page.limit > 200 then 50 else page.limit
  offset := if page.offset < 0 then 0 else page.offset

/-- `ORDER BY created_at DESC, id DESC`. -/
def newestFirst (left right : PasteMeta) : Bool :=
  right.createdAt < left.createdAt ||
    (right.createdAt = left.createdAt && right.id.bytes ≤ left.id.bytes)

def listByOwner (pastes : Pastes) (ownerId : UUID) (page : Page) : List PasteMeta :=
  let page := normalizePage page
  pastes.select (fun m => m.ownerId = ownerId) newestFirst page.limit.toNat page.offset.toNat

def listAll (pastes : Pastes) (ownerFilter : Option UUID) (page : Page) : List PasteMeta :=
  let page := normalizePage page
  pastes.select (fun m => ownerFilter.all fun ownerId => m.ownerId = ownerId) newestFirst
    page.limit.toNat page.offset.toNat

/-- `ORDER BY expires_at ASC, id ASC`. -/
def firstToExpire (left right : PasteMeta) : Bool :=
  left.expiresAt < right.expiresAt ||
    (left.expiresAt = right.expiresAt && left.id.bytes ≤ right.id.bytes)

def isExpiredUnaudited (now : ℤ) (m : PasteMeta) : Bool :=
  m.expiresAt ≤ pgTime now && m.deletedAt.isNone && m.expiredAuditedAt.isNone

def listExpiredUnaudited (pastes : Pastes) (now : ℤ) (limit : ℕ) : List PasteMeta :=
  pastes.select (isExpiredUnaudited now) firstToExpire limit 0

def markExpiredAudited (pastes : Pastes) (ids : List UUID) (time : ℤ) : Pastes :=
  if ids = [] then pastes
  else
    pastes.update (fun m => ids.contains m.id && m.expiredAuditedAt.isNone)
      (fun m => { m with expiredAuditedAt := some (pgTime time) }) fun _ => rfl

def isOlderThan (cutoff : ℤ) (m : PasteMeta) : Bool := m.createdAt < pgTime cutoff

/-- Deleted, or expired with its expiry audited. -/
def isCompleted (m : PasteMeta) : Bool := m.deletedAt.isSome || m.expiredAuditedAt.isSome

/-- The number of rows a purge removes, and what is left. -/
def purge (pastes : Pastes) (condition : PasteMeta → Bool) : ℕ × Pastes :=
  (pastes.count condition, pastes.delete condition)

def purgeOlderThan (pastes : Pastes) (cutoff : ℤ) : ℕ × Pastes :=
  pastes.purge (isOlderThan cutoff)

def purgeCompletedOlderThan (pastes : Pastes) (cutoff : ℤ) : ℕ × Pastes :=
  pastes.purge fun m => isOlderThan cutoff m && isCompleted m

def countActive (pastes : Pastes) (now : ℤ) : ℕ :=
  pastes.count fun m => pgTime now < m.expiresAt && m.deletedAt.isNone

/-! ## What the operations do to a row -/

variable {pastes pastes' : Pastes} {m : PasteMeta}

/-- An accepted row is within the bounds of its columns, new, and stored with
its times rounded. -/
theorem create_eq_ok (hcreate : create pastes m = .ok pastes') :
    (1 ≤ m.ttlSeconds ∧ m.ttlSeconds ≤ 86400) ∧ valid m.kekId = true ∧
      pastes.find m.id = none ∧
      ∀ id, pastes'.find id = if id = m.id then some (storedRow m) else pastes.find id := by
  unfold create at hcreate
  split at hcreate
  · cases hcreate
  · split at hcreate
    · cases hcreate
    · split at hcreate
      · cases hcreate
      · rename_i htext httl
        simp only [Bool.not_eq_true', Bool.not_eq_false, Bool.and_eq_true,
          decide_eq_true_eq] at htext httl
        split at hcreate
        · cases hcreate
        · rename_i hinsert
          cases hcreate
          obtain ⟨hfresh, hfind⟩ := Table.insert_eq_some hinsert
          have hkek := htext.2
          simp only [fitsText, Bool.and_eq_true] at hkek
          exact ⟨httl, hkek.1, hfresh, hfind⟩

theorem get_eq_ok_iff (id : UUID) : get pastes id = .ok m ↔ pastes.find id = some m := by
  unfold get
  split
  · simp_all
  · simp_all

theorem find_incrementViews {id : UUID} (hviews : incrementViews pastes id = .ok pastes')
    (id' : UUID) :
    pastes'.find id' = (pastes.find id').map fun m =>
      if m.id = id then { m with viewCount := m.viewCount + 1 } else m := by
  unfold incrementViews at hviews
  split at hviews
  · cases hviews
  · cases hviews
    simp [Table.find_update]

theorem find_markDeleted (id byUser : UUID) (time : ℤ) (id' : UUID) :
    (markDeleted pastes id byUser time).find id' = (pastes.find id').map fun m =>
      if m.id = id ∧ m.deletedAt = none then
        { m with deletedAt := some (pgTime time), deletedBy := some byUser }
      else m := by
  simp [markDeleted, Table.find_update]

theorem find_markExpiredAudited (ids : List UUID) (time : ℤ) (id' : UUID) :
    (markExpiredAudited pastes ids time).find id' = (pastes.find id').map fun m =>
      if m.id ∈ ids ∧ m.expiredAuditedAt = none then
        { m with expiredAuditedAt := some (pgTime time) }
      else m := by
  unfold markExpiredAudited
  split
  · rename_i hempty
    simp [hempty]
  · simp [Table.find_update]

theorem find_purge (condition : PasteMeta → Bool) (id' : UUID) :
    (purge pastes condition).2.find id' = (pastes.find id').filter fun m => !condition m :=
  Table.find_delete condition id'

/-- What the sweeper is given is in the table, past its expiry, and neither
deleted nor audited. -/
theorem of_mem_listExpiredUnaudited {now : ℤ} {limit : ℕ}
    (hmem : m ∈ listExpiredUnaudited pastes now limit) :
    pastes.find m.id = some m ∧ m.expiresAt ≤ pgTime now ∧ m.deletedAt = none ∧
      m.expiredAuditedAt = none := by
  obtain ⟨hfind, hcondition⟩ := Table.of_mem_select hmem
  simp only [isExpiredUnaudited, Bool.and_eq_true, decide_eq_true_eq, Option.isNone_iff_eq_none]
    at hcondition
  exact ⟨hfind, hcondition.1.1, hcondition.1.2, hcondition.2⟩

end Pastes

end SecurePastebin.Store
