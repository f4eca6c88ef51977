import SecurePastebin.Paste.Service

/-!
# The program points of the service

For each method that writes to a store: every point an execution can reach,
with the calls answered before it and what the replies were.  Results about
interleavings use these lists and never unfold the programs again.
-/

namespace SecurePastebin.Paste

open Text Uuid Calendar Utf8
open Process

variable (d : Deps)

/-! ## Recording an event -/

/-- The points of `record`: nothing without a sink, else a clock reading and the
event. -/
inductive RecordPoint (kind : EventKind) (actor id : Option UUID) (outcome : Outcome)
    (details : List (String × Detail)) : List Step → Call ⊕ Unit → Prop
  | skipped (haudit : d.hasAudit = false) : RecordPoint kind actor id outcome details [] (.inr ())
  | clock (haudit : d.hasAudit = true) :
      RecordPoint kind actor id outcome details [] (.inl .now)
  | event (haudit : d.hasAudit = true) (time : ℤ) :
      RecordPoint kind actor id outcome details [⟨.now, time⟩]
        (.inl (.auditRecord ⟨time, kind, actor, id, outcome, details⟩))
  | done (haudit : d.hasAudit = true) (time : ℤ) :
      RecordPoint kind actor id outcome details
        [⟨.now, time⟩, ⟨.auditRecord ⟨time, kind, actor, id, outcome, details⟩, ()⟩] (.inr ())

theorem record_point {kind : EventKind} {actor id : Option UUID} {outcome : Outcome}
    {details : List (String × Detail)} {trace : List Step} {point : Call ⊕ Unit}
    (hreach : (record d kind actor id outcome details).Reaches trace point) :
    RecordPoint d kind actor id outcome details trace point := by
  unfold record at hreach
  split at hreach
  · rename_i haudit
    simp only [Proc.perform_bind, Proc.reaches_call] at hreach
    rcases hreach with ⟨rfl, rfl⟩ | ⟨time, tail, rfl, hreach⟩
    · exact .clock haudit
    · rcases hreach with ⟨rfl, rfl⟩ | ⟨⟨⟩, tail, rfl, rfl, rfl⟩
      · exact .event haudit time
      · exact .done haudit time
  · rename_i haudit
    obtain ⟨rfl, rfl⟩ := hreach
    exact .skipped (by simpa using haudit)

/-! ## Delete -/

/-- The owner of the row, or an admin. -/
def MayDelete (p : Principal) (m : PasteMeta) : Prop := m.ownerId = p.userId ∨ p.isAdmin = true

def deletedDetails (p : Principal) (m : PasteMeta) : List (String × Detail) :=
  [("by_admin", .bool (p.isAdmin && m.ownerId ≠ p.userId))]

/-- The answered calls of a `Delete` that goes ahead. -/
def deleteChecks (id : UUID) (m : PasteMeta) (now : ℤ) : List Step :=
  [⟨.metasGet id, .ok m⟩, ⟨.now, now⟩]

inductive DeletePoint (p : Principal) (id : UUID) : List Step → Call ⊕ Except Err Unit → Prop
  | lookup : DeletePoint p id [] (.inl (.metasGet id))
  | failed (err : Err) : DeletePoint p id [⟨.metasGet id, .error err⟩] (.inr (.error err))
  | forbidden (m : PasteMeta) (hmay : ¬ MayDelete p m) :
      DeletePoint p id [⟨.metasGet id, .ok m⟩] (.inr (.error .forbidden))
  | clock (m : PasteMeta) (hmay : MayDelete p m) :
      DeletePoint p id [⟨.metasGet id, .ok m⟩] (.inl .now)
  | settled (m : PasteMeta) (now : ℤ) (hmay : MayDelete p m) (hstatus : m.status now ≠ .active) :
      DeletePoint p id (deleteChecks id m now) (.inr (.ok ()))
  | remove (m : PasteMeta) (now : ℤ) (hmay : MayDelete p m) (hstatus : m.status now = .active) :
      DeletePoint p id (deleteChecks id m now) (.inl (.bodiesDelete id))
  | removeFailed (m : PasteMeta) (now : ℤ) (hmay : MayDelete p m)
      (hstatus : m.status now = .active) (err : Err) :
      DeletePoint p id (deleteChecks id m now ++ [⟨.bodiesDelete id, .error err⟩])
        (.inr (.error (.wrap "delete body" err)))
  | mark (m : PasteMeta) (now : ℤ) (hmay : MayDelete p m) (hstatus : m.status now = .active) :
      DeletePoint p id (deleteChecks id m now ++ [⟨.bodiesDelete id, .ok ()⟩])
        (.inl (.metasMarkDeleted id p.userId now))
  | markFailed (m : PasteMeta) (now : ℤ) (hmay : MayDelete p m)
      (hstatus : m.status now = .active) (err : Err) :
      DeletePoint p id (deleteChecks id m now ++ [⟨.bodiesDelete id, .ok ()⟩,
        ⟨.metasMarkDeleted id p.userId now, .error err⟩]) (.inr (.error (.wrap "mark deleted" err)))
  | recording {m : PasteMeta} {now : ℤ} (hmay : MayDelete p m)
      (hstatus : m.status now = .active) {rest : List Step} {request : Call}
      (hrecord : RecordPoint d .pasteDeleted (some p.userId) (some id) .success
        (deletedDetails p m) rest (.inl request)) :
      DeletePoint p id (deleteChecks id m now ++ [⟨.bodiesDelete id, .ok ()⟩,
        ⟨.metasMarkDeleted id p.userId now, .ok ()⟩] ++ rest) (.inl request)
  | done (m : PasteMeta) (now : ℤ) (hmay : MayDelete p m) (hstatus : m.status now = .active)
      (rest : List Step)
      (hrecord : RecordPoint d .pasteDeleted (some p.userId) (some id) .success
        (deletedDetails p m) rest (.inr ())) :
      DeletePoint p id (deleteChecks id m now ++ [⟨.bodiesDelete id, .ok ()⟩,
        ⟨.metasMarkDeleted id p.userId now, .ok ()⟩] ++ rest) (.inr (.ok ()))

theorem delete_point {p : Principal} {id : UUID} {trace : List Step}
    {point : Call ⊕ Except Err Unit} (hreach : (delete d p id).Reaches trace point) :
    DeletePoint d p id trace point := by
  unfold delete at hreach
  simp only [Proc.perform_bind, Proc.reaches_call, Proc.pure_eq] at hreach
  rcases hreach with ⟨rfl, rfl⟩ | ⟨found, tail, rfl, hreach⟩
  · exact .lookup
  rcases found with err | m
  · obtain ⟨rfl, rfl⟩ := hreach
    exact .failed err
  dsimp only at hreach
  split at hreach
  · rename_i hdenied
    obtain ⟨rfl, rfl⟩ := hreach
    refine .forbidden m ?_
    rintro (howner | hadmin)
    · exact hdenied.1 howner
    · exact hdenied.2 hadmin
  · rename_i hallowed
    have hmay : MayDelete p m := by
      simp only [MayDelete]
      tauto
    rcases hreach with ⟨rfl, rfl⟩ | ⟨now, tail, rfl, hreach⟩
    · exact .clock m hmay
    have hactive : (m.deletedAt.isSome = true ∨ ¬ now < m.expiresAt) ↔ m.status now ≠ .active := by
      rw [ne_eq, PasteMeta.status_eq_active_iff, not_and_or, Option.isSome_iff_ne_none]
    dsimp only at hreach
    split at hreach
    · rename_i hsettled
      obtain ⟨rfl, rfl⟩ := hreach
      exact .settled m now hmay (hactive.mp hsettled)
    · rename_i hlive
      have hstatus : m.status now = .active := not_not.mp fun hne => hlive (hactive.mpr hne)
      rcases hreach with ⟨rfl, rfl⟩ | ⟨removed, tail, rfl, hreach⟩
      · exact .remove m now hmay hstatus
      rcases removed with err | ⟨⟨⟩⟩
      · obtain ⟨rfl, rfl⟩ := hreach
        exact .removeFailed m now hmay hstatus err
      rcases hreach with ⟨rfl, rfl⟩ | ⟨marked, tail, rfl, hreach⟩
      · exact .mark m now hmay hstatus
      rcases marked with err | ⟨⟨⟩⟩
      · obtain ⟨rfl, rfl⟩ := hreach
        exact .markFailed m now hmay hstatus err
      rcases Proc.reaches_bind.mp hreach with
        ⟨request, hrecord, rfl⟩ | ⟨⟨⟩, front, back, rfl, hrecord, rfl, rfl⟩
      · exact .recording hmay hstatus (record_point d hrecord)
      · rw [List.append_nil]
        exact .done m now hmay hstatus front (record_point d hrecord)

/-! ## Create -/

/-- The input passes validation and has the given canonical form. -/
structure Accepted (input : CreateInput) (canonical : Bytes) : Prop where
  ttl_ge : d.limits.ttlMin ≤ effectiveTTL d input
  ttl_le : effectiveTTL d input ≤ d.limits.ttlMax
  password_valid : valid input.password = true
  password_short : input.password = [] ∨ runeCount input.password ≤ 128
  canonical_eq : canonicalize input.content d.limits.maxSize = .ok canonical

/-- The replies that one `Create` goes on with. -/
structure Attempt where
  canonical : Bytes
  created : ℤ
  id : UUID
  sealed : EncryptedBody
  later : ℤ

namespace Attempt

variable (p : Principal) (input : CreateInput) (a : Attempt)

/-- The metadata the attempt stores. -/
def info : PasteMeta := withKek (newMeta d p input a.canonical a.created a.id) a.sealed

/-- The life time left for the body. -/
def remaining : ℤ := sub (a.info d p input).expiresAt a.later

def drawing : List Step := [⟨.now, a.created⟩, ⟨.newUUID, a.id⟩]

def sealing : Call :=
  .envelopeSeal a.id (newMeta d p input a.canonical a.created a.id).expiresAt a.canonical
    input.password

def sealedTrace : List Step :=
  a.drawing ++ [⟨a.sealing d p input, .ok a.sealed⟩, ⟨.now, a.later⟩]

def putting : Call := .bodiesPut a.id a.sealed (a.remaining d p input)

def storedTrace : List Step := a.sealedTrace d p input ++ [⟨a.putting d p input, .ok ()⟩]

def createdDetails : List (String × Detail) :=
  [("size_bytes", .int (a.info d p input).sizeBytes),
    ("ttl_seconds", .int (a.info d p input).ttlSeconds),
    ("password_protected", .bool (a.info d p input).passwordProtected)]

end Attempt

inductive CreatePoint (p : Principal) (input : CreateInput) :
    List Step → Call ⊕ Except Err CreateResult → Prop
  | rejected (err : Err) : CreatePoint p input [] (.inr (.error err))
  | clock (canonical : Bytes) (haccepted : Accepted d input canonical) :
      CreatePoint p input [] (.inl .now)
  | draw (canonical : Bytes) (haccepted : Accepted d input canonical) (created : ℤ) :
      CreatePoint p input [⟨.now, created⟩] (.inl .newUUID)
  | sealBody (a : Attempt) (haccepted : Accepted d input a.canonical) :
      CreatePoint p input a.drawing (.inl (a.sealing d p input))
  | sealFailed (a : Attempt) (haccepted : Accepted d input a.canonical) (err : Err) :
      CreatePoint p input (a.drawing ++ [⟨a.sealing d p input, .error err⟩]) (.inr (.error err))
  | reclock (a : Attempt) (haccepted : Accepted d input a.canonical) :
      CreatePoint p input (a.drawing ++ [⟨a.sealing d p input, .ok a.sealed⟩]) (.inl .now)
  | late (a : Attempt) (haccepted : Accepted d input a.canonical)
      (hlate : a.remaining d p input ≤ 0) :
      CreatePoint p input (a.sealedTrace d p input) (.inr (.error .expired))
  | put (a : Attempt) (haccepted : Accepted d input a.canonical)
      (hremaining : 0 < a.remaining d p input) :
      CreatePoint p input (a.sealedTrace d p input) (.inl (a.putting d p input))
  | putFailed (a : Attempt) (haccepted : Accepted d input a.canonical)
      (hremaining : 0 < a.remaining d p input) (err : Err) :
      CreatePoint p input (a.sealedTrace d p input ++ [⟨a.putting d p input, .error err⟩])
        (.inr (.error (.wrap "store body" err)))
  | insert (a : Attempt) (haccepted : Accepted d input a.canonical)
      (hremaining : 0 < a.remaining d p input) :
      CreatePoint p input (a.storedTrace d p input) (.inl (.metasCreate (a.info d p input)))
  | rollback (a : Attempt) (haccepted : Accepted d input a.canonical)
      (hremaining : 0 < a.remaining d p input) (err : Err) :
      CreatePoint p input
        (a.storedTrace d p input ++ [⟨.metasCreate (a.info d p input), .error err⟩])
        (.inl (.bodiesDelete a.id))
  | rolledBack (a : Attempt) (haccepted : Accepted d input a.canonical)
      (hremaining : 0 < a.remaining d p input) (err : Err) (removed : Except Err Unit) :
      CreatePoint p input
        (a.storedTrace d p input ++ [⟨.metasCreate (a.info d p input), .error err⟩,
          ⟨.bodiesDelete a.id, removed⟩]) (.inr (.error (.wrap "store metadata" err)))
  | recording {a : Attempt} (haccepted : Accepted d input a.canonical)
      (hremaining : 0 < a.remaining d p input) {rest : List Step} {request : Call}
      (hrecord : RecordPoint d .pasteCreated (some p.userId) (some a.id) .success
        (a.createdDetails d p input) rest (.inl request)) :
      CreatePoint p input
        (a.storedTrace d p input ++ [⟨.metasCreate (a.info d p input), .ok ()⟩] ++ rest)
        (.inl request)
  | done (a : Attempt) (haccepted : Accepted d input a.canonical)
      (hremaining : 0 < a.remaining d p input) (rest : List Step)
      (hrecord : RecordPoint d .pasteCreated (some p.userId) (some a.id) .success
        (a.createdDetails d p input) rest (.inr ())) :
      CreatePoint p input
        (a.storedTrace d p input ++ [⟨.metasCreate (a.info d p input), .ok ()⟩] ++ rest)
        (.inr (.ok ⟨a.info d p input, pasteURL d.baseURL a.id⟩))

theorem create_point {p : Principal} {input : CreateInput} {trace : List Step}
    {point : Call ⊕ Except Err CreateResult} (hreach : (create d p input).Reaches trace point) :
    CreatePoint d p input trace point := by
  unfold create at hreach
  simp only [Proc.perform_bind, Proc.pure_eq] at hreach
  split at hreach
  · obtain ⟨rfl, rfl⟩ := hreach
    exact .rejected _
  split at hreach
  · obtain ⟨rfl, rfl⟩ := hreach
    exact .rejected _
  split at hreach
  · obtain ⟨rfl, rfl⟩ := hreach
    exact .rejected _
  rename_i httl hpassword _ canonical hcanonical
  have haccepted : Accepted d input canonical := by
    push Not at httl hpassword
    refine ⟨httl.1, httl.2, by simpa using hpassword.1, ?_, hcanonical⟩
    by_cases hempty : input.password = []
    · exact .inl hempty
    · exact .inr (hpassword.2 hempty)
  rcases hreach with ⟨rfl, rfl⟩ | ⟨created, tail, rfl, hreach⟩
  · exact .clock canonical haccepted
  rcases hreach with ⟨rfl, rfl⟩ | ⟨id, tail, rfl, hreach⟩
  · exact .draw canonical haccepted created
  rcases hreach with ⟨rfl, rfl⟩ | ⟨sealed, tail, rfl, hreach⟩
  · exact .sealBody ⟨canonical, created, id, default, 0⟩ haccepted
  rcases sealed with err | sealed
  · obtain ⟨rfl, rfl⟩ := hreach
    exact .sealFailed ⟨canonical, created, id, default, 0⟩ haccepted err
  rcases hreach with ⟨rfl, rfl⟩ | ⟨later, tail, rfl, hreach⟩
  · exact .reclock ⟨canonical, created, id, sealed, 0⟩ haccepted
  dsimp only at hreach
  split at hreach
  · rename_i hlate
    obtain ⟨rfl, rfl⟩ := hreach
    exact .late ⟨canonical, created, id, sealed, later⟩ haccepted hlate
  · rename_i hremaining
    have hpositive : 0 < (Attempt.mk canonical created id sealed later).remaining d p input :=
      not_le.mp hremaining
    rcases hreach with ⟨rfl, rfl⟩ | ⟨stored, tail, rfl, hreach⟩
    · exact .put ⟨canonical, created, id, sealed, later⟩ haccepted hpositive
    rcases stored with err | ⟨⟨⟩⟩
    · obtain ⟨rfl, rfl⟩ := hreach
      exact .putFailed ⟨canonical, created, id, sealed, later⟩ haccepted hpositive err
    rcases hreach with ⟨rfl, rfl⟩ | ⟨inserted, tail, rfl, hreach⟩
    · exact .insert ⟨canonical, created, id, sealed, later⟩ haccepted hpositive
    rcases inserted with err | ⟨⟨⟩⟩
    · rcases hreach with ⟨rfl, rfl⟩ | ⟨removed, tail, rfl, rfl, rfl⟩
      · exact .rollback ⟨canonical, created, id, sealed, later⟩ haccepted hpositive err
      · exact .rolledBack ⟨canonical, created, id, sealed, later⟩ haccepted hpositive err removed
    rcases Proc.reaches_bind.mp hreach with
      ⟨request, hrecord, rfl⟩ | ⟨⟨⟩, front, back, rfl, hrecord, rfl, rfl⟩
    · exact @CreatePoint.recording _ _ _ ⟨canonical, created, id, sealed, later⟩ haccepted hpositive
        _ _ (record_point d hrecord)
    · rw [List.append_nil]
      exact .done ⟨canonical, created, id, sealed, later⟩ haccepted hpositive front
        (record_point d hrecord)

end SecurePastebin.Paste
