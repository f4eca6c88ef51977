import SecurePastebin.Store.Pastes

/-!
# The lifecycle of a row, in SQL and in Go

`CountActive` and `ListExpiredUnaudited` decide with SQL conditions what
`Status` decides in Go.  The query sees the clock rounded down to the
microsecond, `Status` sees all of it; as the stored expiry has microseconds too,
the instant is on the same side of the expiry for both.
-/

namespace SecurePastebin.Store

open Calendar Uuid Paste

theorem pgTime_lt_iff {now e : ℤ} (he : microsecond ∣ e) : pgTime now < e ↔ now < e := by
  rw [← not_le, ← not_le, pgTime, le_truncate_iff (by decide) he]

namespace Pastes

/-! ## The order of the query -/

theorem firstToExpire_total (left right : PasteMeta) :
    firstToExpire left right = true ∨ firstToExpire right left = true := by
  simp only [firstToExpire, Bool.or_eq_true, Bool.and_eq_true, decide_eq_true_eq]
  rcases lt_trichotomy left.expiresAt right.expiresAt with hlt | heq | hgt
  · exact .inl (.inl hlt)
  · rcases List.le_total left.id.bytes right.id.bytes with hle | hge
    · exact .inl (.inr ⟨heq, hle⟩)
    · exact .inr (.inr ⟨heq.symm, hge⟩)
  · exact .inr (.inl hgt)

theorem firstToExpire_trans (left mid right : PasteMeta)
    (hleft : firstToExpire left mid = true)
    (hright : firstToExpire mid right = true) :
    firstToExpire left right = true := by
  simp only [firstToExpire, Bool.or_eq_true, Bool.and_eq_true, decide_eq_true_eq]
    at hleft hright ⊢
  rcases hleft with hlt | ⟨heq, hle⟩ <;> rcases hright with hlt' | ⟨heq', hle'⟩
  · exact .inl (hlt.trans hlt')
  · exact .inl (heq' ▸ hlt)
  · exact .inl (heq ▸ hlt')
  · exact .inr ⟨heq.trans heq', List.le_trans hle hle'⟩

theorem firstToExpire_antisymm (left right : PasteMeta)
    (hle : firstToExpire left right = true)
    (hge : firstToExpire right left = true) : left.id = right.id := by
  simp only [firstToExpire, Bool.or_eq_true, Bool.and_eq_true, decide_eq_true_eq]
    at hle hge
  rcases hle with hlt | ⟨heq, hle⟩ <;> rcases hge with hlt' | ⟨heq', hge⟩
  · exact absurd hlt' hlt.asymm
  · exact absurd heq' hlt.ne'
  · exact absurd heq hlt'.ne'
  · exact UUID.ext (List.le_antisymm hle hge)

/-! ## The conditions of the queries -/

/-- The condition of `CountActive`. -/
def isActive (now : ℤ) (m : PasteMeta) : Bool := pgTime now < m.expiresAt && m.deletedAt.isNone

theorem countActive_eq_count (pastes : Pastes) (now : ℤ) :
    pastes.countActive now = pastes.count (isActive now) := rfl

/-- Expired by `Status`, with its expiry not audited. -/
def isUnaudited (now : ℤ) (m : PasteMeta) : Bool :=
  m.status now = .expired && m.expiredAuditedAt.isNone

section Row

variable {m : PasteMeta} (hprecise : microsecond ∣ m.expiresAt) (now : ℤ)

include hprecise

theorem isActive_iff : isActive now m = true ↔ m.status now = .active := by
  simp only [isActive, Bool.and_eq_true, decide_eq_true_eq, Option.isNone_iff_eq_none]
  rw [pgTime_lt_iff hprecise, m.status_eq_active_iff, and_comm]

theorem isExpiredUnaudited_eq : isExpiredUnaudited now m = isUnaudited now m := by
  have hexpired : m.expiresAt ≤ pgTime now ∧ m.deletedAt = none ↔ m.status now = .expired := by
    rw [pgTime, le_truncate_iff (by decide) hprecise, m.status_eq_expired_iff, and_comm]
  rw [Bool.eq_iff_iff]
  simp only [isExpiredUnaudited, isUnaudited, Bool.and_eq_true, decide_eq_true_eq,
    Option.isNone_iff_eq_none, hexpired]

end Row

theorem mem_listExpiredUnaudited_iff (pastes : Pastes) (now : ℤ) (m : PasteMeta) :
    (∃ limit, m ∈ pastes.listExpiredUnaudited now limit) ↔
      m ∈ pastes.rows ∧ isExpiredUnaudited now m = true := by
  have hordered : m ∈ pastes.ordered (isExpiredUnaudited now) firstToExpire ↔
      m ∈ pastes.rows ∧ isExpiredUnaudited now m = true := Table.mem_ordered
  rw [← hordered]
  constructor
  · rintro ⟨limit, hmem⟩
    exact List.mem_of_mem_take hmem
  · intro hmem
    refine ⟨(pastes.ordered (isExpiredUnaudited now) firstToExpire).length, ?_⟩
    rw [listExpiredUnaudited, Table.select_eq_take, List.take_length]
    exact hmem

/-! ## The four stages -/

inductive Stage
  | active
  | deleted
  | unaudited
  | audited
  deriving DecidableEq

/-- `m` is counted as active, is deleted, is listed for a large enough limit, or
has expired and been audited. -/
def Stage.Holds (pastes : Pastes) (now : ℤ) (m : PasteMeta) : Stage → Prop
  | .active => isActive now m = true
  | .deleted => m.status now = .deleted
  | .unaudited => ∃ limit, m ∈ pastes.listExpiredUnaudited now limit
  | .audited => m.status now = .expired ∧ m.expiredAuditedAt.isSome

theorem status_ne_unavailable (m : PasteMeta) (now : ℤ) : m.status now ≠ .unavailable := by
  unfold PasteMeta.status
  split_ifs <;> simp

/-- `Status` and the audit mark alone decide where a row stands. -/
theorem existsUnique_stage {pastes : Pastes} {m : PasteMeta} (hmem : m ∈ pastes.rows)
    (hprecise : microsecond ∣ m.expiresAt) (now : ℤ) : ∃! stage, Stage.Holds pastes now m stage := by
  have hactive : Stage.Holds pastes now m .active ↔ m.status now = .active :=
    isActive_iff hprecise now
  have hunaudited : Stage.Holds pastes now m .unaudited ↔
      m.status now = .expired ∧ m.expiredAuditedAt.isNone := by
    refine (mem_listExpiredUnaudited_iff pastes now m).trans ?_
    rw [isExpiredUnaudited_eq hprecise, isUnaudited, Bool.and_eq_true, decide_eq_true_eq]
    exact and_iff_right hmem
  have hdeleted : Stage.Holds pastes now m .deleted ↔ m.status now = .deleted := Iff.rfl
  have haudited : Stage.Holds pastes now m .audited ↔
      m.status now = .expired ∧ m.expiredAuditedAt.isSome := Iff.rfl
  cases hstatus : m.status now with
  | active =>
      refine ⟨.active, hactive.mpr hstatus, fun stage hstage => ?_⟩
      cases stage <;> simp_all
  | deleted =>
      refine ⟨.deleted, hstatus, fun stage hstage => ?_⟩
      cases stage <;> simp_all
  | expired =>
      cases hmark : m.expiredAuditedAt with
      | none =>
          refine ⟨.unaudited, hunaudited.mpr ⟨hstatus, by rw [hmark]; rfl⟩, fun stage hstage => ?_⟩
          cases stage <;> simp_all
      | some time =>
          refine ⟨.audited, ⟨hstatus, by rw [hmark]; rfl⟩, fun stage hstage => ?_⟩
          cases stage <;> simp_all
  | unavailable => exact absurd hstatus (status_ne_unavailable m now)

/-- Over rows whose expiry has microseconds, `CountActive` counts the rows that
`Status` calls active, `ListExpiredUnaudited` returns the first `limit` of those
it calls expired whose expiry is not audited, ordered by expiry and then by
identifier, and each row is in exactly one of the four stages. -/
theorem lifecycle_agrees (pastes : Pastes)
    (hprecise : ∀ m ∈ pastes.rows, microsecond ∣ m.expiresAt) (now : ℤ) (limit : ℕ) :
    pastes.countActive now = pastes.rows.countP (fun m => m.status now = .active) ∧
      (∃ unaudited : List PasteMeta,
        unaudited.Perm (pastes.rows.filter fun m =>
          m.status now = .expired && m.expiredAuditedAt.isNone) ∧
        unaudited.Pairwise (fun left right => firstToExpire left right = true) ∧
        pastes.listExpiredUnaudited now limit = unaudited.take limit) ∧
      ∀ m ∈ pastes.rows, ∃! stage, Stage.Holds pastes now m stage := by
  refine ⟨?_, ⟨pastes.ordered (isExpiredUnaudited now) firstToExpire, ?_, ?_, rfl⟩, ?_⟩
  · rw [countActive_eq_count, Table.count]
    refine List.countP_congr fun m hmem => ?_
    rw [isActive_iff (hprecise m hmem), decide_eq_true_eq]
  · have hfilter : pastes.rows.filter (isExpiredUnaudited now) =
        pastes.rows.filter (isUnaudited now) :=
      List.filter_congr fun m hmem => isExpiredUnaudited_eq (hprecise m hmem) now
    exact (pastes.perm_ordered _ _).trans (.of_eq hfilter)
  · exact Table.pairwise_ordered firstToExpire_total firstToExpire_trans pastes _
  · exact fun m hmem => existsUnique_stage hmem (hprecise m hmem) now

namespace Sample

/-- A row that lives for `ttlSeconds`. -/
def row (index : UInt8) (ttlSeconds : ℕ) : PasteMeta where
  id := .filled index
  ownerId := .filled 0
  createdAt := 0
  expiresAt := ttlSeconds * second
  ttlSeconds := ttlSeconds
  sizeBytes := 1
  hashAlgo := []
  contentHash := []
  passwordProtected := false
  kekId := []
  viewCount := 0
  expiredAuditedAt := none
  deletedAt := none
  deletedBy := none

/-- Two rows that expire together and one that expires a second later. -/
def pastes : Pastes := ⟨[row 3 1, row 2 2, row 1 1], by decide⟩

end Sample

/-- Half a microsecond past the first expiry one row is active, and of the two
expired ones the smaller identifier is listed first. -/
theorem lifecycle_agrees_sample :
    (∀ m ∈ Sample.pastes.rows, microsecond ∣ m.expiresAt) ∧
      Sample.pastes.listExpiredUnaudited (second + 500) 1 = [Sample.row 1 1] ∧
      Sample.pastes.rows.countP (fun m => m.status (second + 500) = .active) =
        Sample.pastes.countActive (second + 500) ∧
      ∀ m ∈ Sample.pastes.rows, ∃! stage, Stage.Holds Sample.pastes (second + 500) m stage := by
  have hprecise : ∀ m ∈ Sample.pastes.rows, microsecond ∣ m.expiresAt := by decide
  obtain ⟨hcount, -, hstages⟩ := lifecycle_agrees Sample.pastes hprecise (second + 500) 1
  exact ⟨hprecise, by decide +kernel, hcount.symm, hstages⟩

end Pastes

end SecurePastebin.Store
