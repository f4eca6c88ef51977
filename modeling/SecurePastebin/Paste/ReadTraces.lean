import SecurePastebin.Paste.Traces

/-!
# The program points of Read

`Read` looks at the clock up to five times; each of its return points is listed
with the readings that lead to it.
-/

namespace SecurePastebin.Paste

open Text Uuid Calendar
open Process

variable (d : Deps)

/-! ## Releasing the plaintext -/

/-- The event of a successful read. -/
def viewKind (m : PasteMeta) : EventKind :=
  if m.passwordProtected then .pasteUnlockSuccess else .pasteViewed

/-- The calls of `release` up to its event. -/
def releaseChecks (id : UUID) (opened : ℤ) (views : Except Err Unit) (counted : ℤ) : List Step :=
  [⟨.now, opened⟩, ⟨.metasIncrementViews id, views⟩, ⟨.now, counted⟩]

inductive ReleasePoint (p : Option Principal) (id : UUID) (m : PasteMeta) (res : ReadResult)
    (plain : Bytes) : List Step → Call ⊕ Except Err ReadResult → Prop
  | clock : ReleasePoint p id m res plain [] (.inl .now)
  | lateOpen (opened : ℤ) (hlate : ¬ opened < m.expiresAt) :
      ReleasePoint p id m res plain [⟨.now, opened⟩] (.inr (.ok { res with status := .expired }))
  | views (opened : ℤ) (hopened : opened < m.expiresAt) :
      ReleasePoint p id m res plain [⟨.now, opened⟩] (.inl (.metasIncrementViews id))
  | reclock (opened : ℤ) (hopened : opened < m.expiresAt) (views : Except Err Unit) :
      ReleasePoint p id m res plain [⟨.now, opened⟩, ⟨.metasIncrementViews id, views⟩] (.inl .now)
  | lateViews (opened : ℤ) (hopened : opened < m.expiresAt) (views : Except Err Unit)
      (counted : ℤ) (hlate : ¬ counted < m.expiresAt) :
      ReleasePoint p id m res plain (releaseChecks id opened views counted)
        (.inr (.ok { res with status := .expired }))
  | recording {opened : ℤ} (hopened : opened < m.expiresAt) {views : Except Err Unit}
      {counted : ℤ} (hcounted : counted < m.expiresAt) {rest : List Step} {request : Call}
      (hrecord : RecordPoint d (viewKind m) (actorOf p) (some id) .success [] rest
        (.inl request)) :
      ReleasePoint p id m res plain (releaseChecks id opened views counted ++ rest) (.inl request)
  | lastClock (opened : ℤ) (hopened : opened < m.expiresAt) (views : Except Err Unit)
      (counted : ℤ) (hcounted : counted < m.expiresAt) (rest : List Step)
      (hrecord : RecordPoint d (viewKind m) (actorOf p) (some id) .success [] rest (.inr ())) :
      ReleasePoint p id m res plain (releaseChecks id opened views counted ++ rest) (.inl .now)
  | lateRecord (opened : ℤ) (hopened : opened < m.expiresAt) (views : Except Err Unit)
      (counted : ℤ) (hcounted : counted < m.expiresAt) (rest : List Step)
      (hrecord : RecordPoint d (viewKind m) (actorOf p) (some id) .success [] rest (.inr ()))
      (recorded : ℤ) (hlate : ¬ recorded < m.expiresAt) :
      ReleasePoint p id m res plain
        (releaseChecks id opened views counted ++ rest ++ [⟨.now, recorded⟩])
        (.inr (.ok { res with status := .expired }))
  | released (opened : ℤ) (hopened : opened < m.expiresAt) (views : Except Err Unit)
      (counted : ℤ) (hcounted : counted < m.expiresAt) (rest : List Step)
      (hrecord : RecordPoint d (viewKind m) (actorOf p) (some id) .success [] rest (.inr ()))
      (recorded : ℤ) (hrecorded : recorded < m.expiresAt) :
      ReleasePoint p id m res plain
        (releaseChecks id opened views counted ++ rest ++ [⟨.now, recorded⟩])
        (.inr (.ok { res with content := some plain, hashVisible := true }))

variable {p : Option Principal} {trace : List Step} {point : Call ⊕ Except Err ReadResult}

theorem release_point {id : UUID} {m : PasteMeta} {res : ReadResult} {plain : Bytes}
    (hreach : (release d p id m res plain).Reaches trace point) :
    ReleasePoint d p id m res plain trace point := by
  unfold release at hreach
  simp only [Proc.perform_bind, Proc.pure_eq] at hreach
  rcases hreach with ⟨rfl, rfl⟩ | ⟨opened, tail, rfl, hreach⟩
  · exact .clock
  dsimp only at hreach
  split at hreach
  · rename_i hlate
    obtain ⟨rfl, rfl⟩ := hreach
    exact .lateOpen opened hlate
  rename_i hopened
  rw [not_not] at hopened
  rcases hreach with ⟨rfl, rfl⟩ | ⟨views, tail, rfl, hreach⟩
  · exact .views opened hopened
  rcases hreach with ⟨rfl, rfl⟩ | ⟨counted, tail, rfl, hreach⟩
  · exact .reclock opened hopened views
  dsimp only at hreach
  split at hreach
  · rename_i hlate
    obtain ⟨rfl, rfl⟩ := hreach
    exact .lateViews opened hopened views counted hlate
  rename_i hcounted
  rw [not_not] at hcounted
  have hreach' : (record d (viewKind m) (actorOf p) (some id) .success [] >>= fun _ =>
      Proc.call Call.now fun recorded =>
        if ¬ recorded < m.expiresAt then Proc.ret (Except.ok { res with status := .expired })
        else Proc.ret (Except.ok { res with content := some plain, hashVisible := true })).Reaches
      tail point := by
    cases hprotected : m.passwordProtected <;>
      · simp only [viewKind, hprotected, Bool.false_eq_true, if_true, if_false] at hreach ⊢
        exact hreach
  clear hreach
  rcases Proc.reaches_bind.mp hreach' with
    ⟨request, hrecord, rfl⟩ | ⟨⟨⟩, front, back, rfl, hrecord, hreach⟩
  · exact .recording hopened hcounted (record_point d hrecord)
  have hdone := record_point d hrecord
  rcases hreach with ⟨rfl, rfl⟩ | ⟨recorded, tail, rfl, hreach⟩
  · rw [List.append_nil]
    exact .lastClock opened hopened views counted hcounted front hdone
  dsimp only at hreach
  split at hreach
  · rename_i hlate
    obtain ⟨rfl, rfl⟩ := hreach
    exact .lateRecord opened hopened views counted hcounted front hdone recorded hlate
  · rename_i hrecorded
    obtain ⟨rfl, rfl⟩ := hreach
    exact .released opened hopened views counted hcounted front hdone recorded
      (not_not.mp hrecorded)

/-! ## Reporting a missing body -/

inductive MissingPoint (p : Option Principal) (id : UUID) (m : PasteMeta) (res : ReadResult)
    (now : ℤ) : List Step → Call ⊕ Except Err ReadResult → Prop
  | mark : MissingPoint p id m res now []
      (.inl (.bodiesMarkUnavailableOnce id (wrap64 (sub m.expiresAt now + hour))))
  | recording {rest : List Step} {request : Call}
      (hrecord : RecordPoint d .pasteUnavailable (actorOf p) (some id) .failure [] rest
        (.inl request)) :
      MissingPoint p id m res now
        (⟨.bodiesMarkUnavailableOnce id (wrap64 (sub m.expiresAt now + hour)), .ok true⟩ :: rest)
        (.inl request)
  | done (first : Except Err Bool) (rest : List Step) :
      MissingPoint p id m res now
        (⟨.bodiesMarkUnavailableOnce id (wrap64 (sub m.expiresAt now + hour)), first⟩ :: rest)
        (.inr (.ok { res with status := .unavailable }))

theorem reportMissing_point {id : UUID} {m : PasteMeta} {res : ReadResult} {now : ℤ}
    (hreach : (reportMissing d p id m res now).Reaches trace point) :
    MissingPoint d p id m res now trace point := by
  unfold reportMissing at hreach
  simp only [Proc.perform_bind, Proc.pure_eq] at hreach
  rcases hreach with ⟨rfl, rfl⟩ | ⟨first, tail, rfl, hreach⟩
  · exact .mark
  dsimp only at hreach
  split at hreach
  · rcases Proc.reaches_bind.mp hreach with
      ⟨request, hrecord, rfl⟩ | ⟨⟨⟩, front, back, rfl, -, rfl, rfl⟩
    · exact .recording (record_point d hrecord)
    · exact .done _ _
  · obtain ⟨rfl, rfl⟩ := hreach
    exact .done _ _

/-! ## Read -/

/-- The result `Read` starts from. -/
def readResult (m : PasteMeta) (now : ℤ) : ReadResult :=
  ⟨m, m.status now, none, !m.passwordProtected⟩

/-- The calls up to the second look at the clock. -/
def readChecks (id : UUID) (m : PasteMeta) (now : ℤ) (body : Except Err EncryptedBody)
    (rechecked : ℤ) : List Step :=
  [⟨.metasGet id, .ok m⟩, ⟨.now, now⟩, ⟨.bodiesGet id, body⟩, ⟨.now, rechecked⟩]

inductive ReadPoint (p : Option Principal) (id : UUID) (password : Bytes) :
    List Step → Call ⊕ Except Err ReadResult → Prop
  | lookup : ReadPoint p id password [] (.inl (.metasGet id))
  | failed (err : Err) : ReadPoint p id password [⟨.metasGet id, .error err⟩] (.inr (.error err))
  | clock (m : PasteMeta) : ReadPoint p id password [⟨.metasGet id, .ok m⟩] (.inl .now)
  | inactive (m : PasteMeta) (now : ℤ) (hstatus : m.status now ≠ .active) :
      ReadPoint p id password [⟨.metasGet id, .ok m⟩, ⟨.now, now⟩] (.inr (.ok (readResult m now)))
  | body (m : PasteMeta) (now : ℤ) (hstatus : m.status now = .active) :
      ReadPoint p id password [⟨.metasGet id, .ok m⟩, ⟨.now, now⟩] (.inl (.bodiesGet id))
  | reclock (m : PasteMeta) (now : ℤ) (hstatus : m.status now = .active)
      (body : Except Err EncryptedBody) :
      ReadPoint p id password [⟨.metasGet id, .ok m⟩, ⟨.now, now⟩, ⟨.bodiesGet id, body⟩]
        (.inl .now)
  | lateBody (m : PasteMeta) (now : ℤ) (hstatus : m.status now = .active)
      (body : Except Err EncryptedBody) (rechecked : ℤ) (hlate : ¬ rechecked < m.expiresAt) :
      ReadPoint p id password (readChecks id m now body rechecked)
        (.inr (.ok { readResult m now with status := .expired }))
  | missing {m : PasteMeta} {now : ℤ} (hstatus : m.status now = .active) {err : Err}
      (herr : Err.is .notFound err = true) {rechecked : ℤ} (hlive : rechecked < m.expiresAt)
      {rest : List Step} {point : Call ⊕ Except Err ReadResult}
      (hmissing : MissingPoint d p id m (readResult m now) rechecked rest point) :
      ReadPoint p id password (readChecks id m now (.error err) rechecked ++ rest) point
  | bodyFailed (m : PasteMeta) (now : ℤ) (hstatus : m.status now = .active) (err : Err)
      (herr : Err.is .notFound err = false) (rechecked : ℤ) (hlive : rechecked < m.expiresAt) :
      ReadPoint p id password (readChecks id m now (.error err) rechecked) (.inr (.error err))
  | locked (m : PasteMeta) (now : ℤ) (hstatus : m.status now = .active) (sealed : EncryptedBody)
      (rechecked : ℤ) (hlive : rechecked < m.expiresAt)
      (hlocked : m.passwordProtected = true ∧ password = []) :
      ReadPoint p id password (readChecks id m now (.ok sealed) rechecked)
        (.inr (.ok (readResult m now)))
  | openBody (m : PasteMeta) (now : ℤ) (hstatus : m.status now = .active) (sealed : EncryptedBody)
      (rechecked : ℤ) (hlive : rechecked < m.expiresAt)
      (hunlocked : ¬ (m.passwordProtected = true ∧ password = [])) :
      ReadPoint p id password (readChecks id m now (.ok sealed) rechecked)
        (.inl (.envelopeOpen id m.expiresAt sealed password))
  | wrongPassword {m : PasteMeta} {now : ℤ} (hstatus : m.status now = .active)
      {sealed : EncryptedBody} {rechecked : ℤ} (hlive : rechecked < m.expiresAt)
      (hunlocked : ¬ (m.passwordProtected = true ∧ password = [])) {err : Err}
      {rest : List Step} {request : Call}
      (hrecord : RecordPoint d .pasteUnlockFailure (actorOf p) (some id) .failure [] rest
        (.inl request)) :
      ReadPoint p id password (readChecks id m now (.ok sealed) rechecked ++
        [⟨.envelopeOpen id m.expiresAt sealed password, .error err⟩] ++ rest) (.inl request)
  | openFailed (m : PasteMeta) (now : ℤ) (hstatus : m.status now = .active)
      (sealed : EncryptedBody) (rechecked : ℤ) (hlive : rechecked < m.expiresAt)
      (hunlocked : ¬ (m.passwordProtected = true ∧ password = [])) (err : Err)
      (rest : List Step) :
      ReadPoint p id password (readChecks id m now (.ok sealed) rechecked ++
        [⟨.envelopeOpen id m.expiresAt sealed password, .error err⟩] ++ rest) (.inr (.error err))
  | releasing {m : PasteMeta} {now : ℤ} (hstatus : m.status now = .active)
      {sealed : EncryptedBody} {rechecked : ℤ} (hlive : rechecked < m.expiresAt)
      (hunlocked : ¬ (m.passwordProtected = true ∧ password = [])) {plain : Bytes}
      {rest : List Step} {point : Call ⊕ Except Err ReadResult}
      (hrelease : ReleasePoint d p id m (readResult m now) plain rest point) :
      ReadPoint p id password (readChecks id m now (.ok sealed) rechecked ++
        [⟨.envelopeOpen id m.expiresAt sealed password, .ok plain⟩] ++ rest) point

theorem read_point {id : UUID} {password : Bytes}
    (hreach : (read d p id password).Reaches trace point) :
    ReadPoint d p id password trace point := by
  unfold read at hreach
  simp only [Proc.perform_bind, Proc.pure_eq] at hreach
  rcases hreach with ⟨rfl, rfl⟩ | ⟨found, tail, rfl, hreach⟩
  · exact .lookup
  rcases found with err | m
  · obtain ⟨rfl, rfl⟩ := hreach
    exact .failed err
  rcases hreach with ⟨rfl, rfl⟩ | ⟨now, tail, rfl, hreach⟩
  · exact .clock m
  dsimp only at hreach
  split at hreach
  · rename_i hstatus
    obtain ⟨rfl, rfl⟩ := hreach
    exact .inactive m now hstatus
  rename_i hstatus
  rw [not_not] at hstatus
  rcases hreach with ⟨rfl, rfl⟩ | ⟨body, tail, rfl, hreach⟩
  · exact .body m now hstatus
  rcases hreach with ⟨rfl, rfl⟩ | ⟨rechecked, tail, rfl, hreach⟩
  · exact .reclock m now hstatus body
  dsimp only at hreach
  split at hreach
  · rename_i hlate
    obtain ⟨rfl, rfl⟩ := hreach
    exact .lateBody m now hstatus body rechecked hlate
  rename_i hlive
  rw [not_not] at hlive
  rcases body with err | sealed
  · dsimp only at hreach
    split at hreach
    · rename_i herr
      exact .missing hstatus herr hlive (reportMissing_point d hreach)
    · rename_i herr
      obtain ⟨rfl, rfl⟩ := hreach
      exact .bodyFailed m now hstatus err (by simpa using herr) rechecked hlive
  · dsimp only at hreach
    split at hreach
    · rename_i hlocked
      obtain ⟨rfl, rfl⟩ := hreach
      exact .locked m now hstatus sealed rechecked hlive hlocked
    rename_i hunlocked
    rcases hreach with ⟨rfl, rfl⟩ | ⟨opened, tail, rfl, hreach⟩
    · exact .openBody m now hstatus sealed rechecked hlive hunlocked
    rcases opened with err | plain
    · dsimp only at hreach
      split at hreach
      · rcases Proc.reaches_bind.mp hreach with
          ⟨request, hrecord, rfl⟩ | ⟨⟨⟩, front, back, rfl, -, rfl, rfl⟩
        · exact .wrongPassword hstatus hlive hunlocked (record_point d hrecord)
        · exact .openFailed m now hstatus sealed rechecked hlive hunlocked err _
      · obtain ⟨rfl, rfl⟩ := hreach
        exact .openFailed m now hstatus sealed rechecked hlive hunlocked err []
    · exact .releasing hstatus hlive hunlocked (release_point d hreach)

/-- `Read` opens the body it has fetched, with the password it was given. -/
theorem read_open {id found : UUID} {expiresAt : ℤ} {record : EncryptedBody}
    {password supplied : Bytes} (hreach : (read d p id password).Reaches trace
      (.inl (.envelopeOpen found expiresAt record supplied))) :
    found = id ∧ supplied = password ∧ ∃ m now rechecked, m.status now = .active ∧
      expiresAt = m.expiresAt ∧ trace = readChecks id m now (.ok record) rechecked := by
  cases read_point d hreach with
  | openBody m now hstatus sealed rechecked hlive hunlocked =>
      exact ⟨rfl, rfl, m, now, rechecked, hstatus, rfl, rfl⟩
  | missing _ _ _ hmissing =>
      cases hmissing with
      | recording hrecord => cases hrecord
  | wrongPassword _ _ _ hrecord =>
      cases hrecord
  | releasing _ _ _ hrelease =>
      cases hrelease with
      | recording _ _ hrecord => cases hrecord

end SecurePastebin.Paste
