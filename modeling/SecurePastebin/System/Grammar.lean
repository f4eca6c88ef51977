import SecurePastebin.Paste.Release
import SecurePastebin.Sweeper.Traces
import SecurePastebin.System.Machine

/-!
# Which program makes which call

For each call that writes to a store, reads what another program wrote, or
tells the audit sink about the end of a paste: the programs that can make it,
and what they have done by then.
-/

namespace SecurePastebin.System

open Text Uuid Calendar Paste Crypto
open Process Interleaving

/-! ## The calls of each operation -/

def CreateMakes : Call → Prop
  | .now | .newUUID | .envelopeSeal .. | .bodiesPut .. | .metasCreate _ | .bodiesDelete _ => True
  | .auditRecord event => event.kind = .pasteCreated
  | _ => False

def ReadMakes (id : UUID) : Call → Prop
  | .now => True
  | .metasGet id' | .bodiesGet id' | .envelopeOpen id' .. | .metasIncrementViews id'
  | .bodiesMarkUnavailableOnce id' _ => id' = id
  | .auditRecord event => event.pasteId = some id ∧
      event.kind ∈ [.pasteViewed, .pasteUnlockSuccess, .pasteUnlockFailure, .pasteUnavailable]
  | _ => False

def VerifyMakes (id : UUID) : Call → Prop
  | .now => True
  | .metasGet id' => id' = id
  | .auditRecord event => event.kind = .pasteVerify
  | _ => False

def DeleteMakes (id : UUID) : Call → Prop
  | .now => True
  | .metasGet id' | .bodiesDelete id' | .metasMarkDeleted id' .. => id' = id
  | .auditRecord event => event.pasteId = some id ∧ event.kind = .pasteDeleted
  | _ => False

def ListMakes : Call → Prop
  | .metasListByOwner .. | .metasListAll .. => True
  | _ => False

def SweepMakes : Call → Prop
  | .now | .metasListExpiredUnaudited .. | .bodiesDelete _ | .metasMarkExpiredAudited ..
  | .metasPurgeOlderThan _ | .metasPurgeCompletedOlderThan _ | .metasCountActive _
  | .auditPurgeOlderThan _ => True
  | .auditRecord event => event.kind ∈ [.pasteExpired, .metadataPurged, .auditPurged]
  | _ => False

def Makes : Op → Call → Prop
  | .create .. => CreateMakes
  | .read _ id _ => ReadMakes id
  | .verify id _ => VerifyMakes id
  | .delete _ id => DeleteMakes id
  | .listMine .. => ListMakes
  | .listAll .. => ListMakes
  | .sweep => SweepMakes

/-- The names and values in an event are the service's own: none is a text that
came with the request. -/
def OwnDetails (details : List (String × Detail)) : Prop :=
  ∀ entry ∈ details, entry.1 ∈ ["size_bytes", "ttl_seconds", "password_protected", "match",
    "status", "by_admin"] ∧ ∀ time, entry.2 ≠ .time time

/-- A call that `makes` allows; an event has details of the service's own. -/
def Records (makes : Call → Prop) : Call → Prop
  | .auditRecord event => makes (.auditRecord event) ∧ OwnDetails event.details
  | request => makes request

theorem Records.makes {makes : Call → Prop} {request : Call} (hrecords : Records makes request) :
    makes request := by
  cases request with
  | auditRecord event => exact hrecords.1
  | _ => exact hrecords

theorem ownDetails_nil : OwnDetails [] := fun _ hentry => absurd hentry List.not_mem_nil

private theorem record_makes {d : Deps} {kind : EventKind} {actor id : Option UUID}
    {outcome : Outcome} {details : List (String × Detail)} {allowed : Call → Prop}
    (hnow : allowed .now)
    (hevent : ∀ time, allowed (.auditRecord ⟨time, kind, actor, id, outcome, details⟩)) :
    (record d kind actor id outcome details).CallsOnly allowed := by
  unfold record
  split
  · exact ⟨hnow, fun time => ⟨hevent time, fun _ => trivial⟩⟩
  · trivial

theorem create_records (d : Deps) (p : Principal) (input : CreateInput) :
    (create d p input).CallsOnly (Records CreateMakes) := by
  unfold create
  simp only [Proc.perform_bind, Proc.pure_eq]
  split
  · trivial
  split
  · trivial
  split
  · trivial
  refine ⟨trivial, fun now => ⟨trivial, fun id => ⟨trivial, fun sealed => ?_⟩⟩⟩
  cases sealed with
  | error err => trivial
  | ok sealed =>
      refine ⟨trivial, fun later => ?_⟩
      dsimp only
      split
      · trivial
      refine ⟨trivial, fun stored => ?_⟩
      cases stored with
      | error err => trivial
      | ok _ =>
          refine ⟨trivial, fun inserted => ?_⟩
          cases inserted with
          | error err => exact ⟨trivial, fun _ => trivial⟩
          | ok _ =>
              exact (record_makes trivial fun _ => ⟨rfl, by simp [OwnDetails]⟩).bind
                fun _ => trivial

theorem create_makes (d : Deps) (p : Principal) (input : CreateInput) :
    (create d p input).CallsOnly CreateMakes :=
  (create_records d p input).mono fun _ => Records.makes

theorem delete_records (d : Deps) (p : Principal) (id : UUID) :
    (delete d p id).CallsOnly (Records (DeleteMakes id)) := by
  unfold delete
  simp only [Proc.perform_bind, Proc.pure_eq]
  refine ⟨rfl, fun found => ?_⟩
  cases found with
  | error err => trivial
  | ok m =>
      dsimp only
      split
      · trivial
      refine ⟨trivial, fun now => ?_⟩
      dsimp only
      split
      · trivial
      refine ⟨rfl, fun removed => ?_⟩
      cases removed with
      | error err => trivial
      | ok _ =>
          refine ⟨rfl, fun marked => ?_⟩
          cases marked with
          | error err => trivial
          | ok _ =>
              exact (record_makes trivial fun _ => ⟨⟨rfl, rfl⟩, by simp [OwnDetails]⟩).bind
                fun _ => trivial

theorem delete_makes (d : Deps) (p : Principal) (id : UUID) :
    (delete d p id).CallsOnly (DeleteMakes id) :=
  (delete_records d p id).mono fun _ => Records.makes

private theorem release_records (d : Deps) (p : Option Principal) (id : UUID) (m : PasteMeta)
    (res : ReadResult) (plain : Bytes) :
    (release d p id m res plain).CallsOnly (Records (ReadMakes id)) := by
  have hlast : ∀ recorded : ℤ, (if ¬ recorded < m.expiresAt then
      (Proc.ret (.ok { res with status := .expired }) : Port (Except Err ReadResult))
      else .ret (.ok { res with content := some plain, hashVisible := true })).CallsOnly
        (Records (ReadMakes id)) := by
    intro recorded
    split <;> trivial
  unfold release
  simp only [Proc.perform_bind, Proc.pure_eq]
  refine ⟨trivial, fun opened => ?_⟩
  dsimp only
  split
  · trivial
  refine ⟨rfl, fun views => ⟨trivial, fun counted => ?_⟩⟩
  dsimp only
  split
  · trivial
  split
  · exact (record_makes trivial fun _ => ⟨⟨rfl, by simp⟩, ownDetails_nil⟩).bind
      fun _ => ⟨trivial, hlast⟩
  · exact (record_makes trivial fun _ => ⟨⟨rfl, by simp⟩, ownDetails_nil⟩).bind
      fun _ => ⟨trivial, hlast⟩

private theorem reportMissing_records (d : Deps) (p : Option Principal) (id : UUID) (m : PasteMeta)
    (res : ReadResult) (now : ℤ) :
    (reportMissing d p id m res now).CallsOnly (Records (ReadMakes id)) := by
  unfold reportMissing
  simp only [Proc.perform_bind, Proc.pure_eq]
  refine ⟨rfl, fun first => ?_⟩
  dsimp only
  split
  · exact (record_makes trivial fun _ => ⟨⟨rfl, by simp⟩, ownDetails_nil⟩).bind fun _ => trivial
  · trivial

theorem read_records (d : Deps) (p : Option Principal) (id : UUID) (password : Bytes) :
    (read d p id password).CallsOnly (Records (ReadMakes id)) := by
  unfold Paste.read
  simp only [Proc.perform_bind, Proc.pure_eq]
  refine ⟨rfl, fun found => ?_⟩
  cases found with
  | error err => trivial
  | ok m =>
      refine ⟨trivial, fun now => ?_⟩
      dsimp only
      split
      · trivial
      refine ⟨rfl, fun body => ⟨trivial, fun rechecked => ?_⟩⟩
      dsimp only
      split
      · trivial
      cases body with
      | error err =>
          dsimp only
          split
          · exact reportMissing_records ..
          · trivial
      | ok sealed =>
          dsimp only
          split
          · trivial
          refine ⟨rfl, fun opened => ?_⟩
          cases opened with
          | ok plain => exact release_records ..
          | error err =>
              dsimp only
              split
              · exact (record_makes trivial fun _ => ⟨⟨rfl, by simp⟩, ownDetails_nil⟩).bind
                  fun _ => trivial
              · trivial

theorem read_makes (d : Deps) (p : Option Principal) (id : UUID) (password : Bytes) :
    (read d p id password).CallsOnly (ReadMakes id) :=
  (read_records d p id password).mono fun _ => Records.makes

theorem verify_records (d : Deps) (id : UUID) (sha256hex : Bytes) :
    (verify d id sha256hex).CallsOnly (Records (VerifyMakes id)) := by
  unfold verify
  simp only [Proc.perform_bind, Proc.pure_eq]
  refine ⟨rfl, fun found => ?_⟩
  cases found with
  | error err => trivial
  | ok m =>
      refine ⟨trivial, fun now => ?_⟩
      exact (record_makes trivial fun _ => ⟨rfl, by simp [OwnDetails]⟩).bind fun _ => trivial

theorem verify_makes (d : Deps) (id : UUID) (sha256hex : Bytes) :
    (verify d id sha256hex).CallsOnly (VerifyMakes id) :=
  (verify_records d id sha256hex).mono fun _ => Records.makes

theorem listAll_makes (p : Principal) (ownerFilter : Option UUID) (page : Page) :
    (listAll p ownerFilter page).CallsOnly ListMakes := by
  unfold listAll
  split
  · exact ⟨trivial, fun _ => trivial⟩
  · trivial

theorem sweep_makes {cfg : Sweeper.Config} {trace : List Step} {request : Call}
    (hcall : Sweeper.SweepCall cfg trace request) : SweepMakes request := by
  cases hcall with
  | expiring now rows tail _ before m after hbatch =>
      rcases hbatch.request_eq with rfl | ⟨rfl, -⟩
      · trivial
      · simp [SweepMakes, Sweeper.expiredEvent]
  | purge now rows tail ids failed hdone hdays _ hpurge => cases hpurge <;> trivial
  | housekeeping _ _ hhouse =>
      cases request <;> simp_all [Sweeper.Housekeeping, SweepMakes]
  | _ => trivial

theorem makes_of_reaches {sys : Params} {op : Op} {trace : List Step} {request : Call}
    (hreach : (program sys op).Reaches trace (.inl request)) : Makes op request := by
  cases op with
  | create p input =>
      exact (create_makes sys.deps p input).reaches hreach.of_map
  | read p id password =>
      exact (read_makes sys.deps p id password).reaches hreach.of_map
  | verify id sha256hex =>
      exact (verify_makes sys.deps id sha256hex).reaches
        hreach.of_map
  | delete p id =>
      exact (delete_makes sys.deps p id).reaches hreach.of_map
  | listMine p page =>
      have hcalls : (listMine p page).CallsOnly ListMakes := ⟨trivial, fun _ => trivial⟩
      exact hcalls.reaches hreach.of_map
  | listAll p ownerFilter page =>
      exact (listAll_makes p ownerFilter page).reaches hreach.of_map
  | sweep => exact sweep_makes (Sweeper.runOnce_call hreach.of_map)

/-- The events of the service carry details of its own. -/
theorem ownDetails_of_reaches {sys : Params} {op : Op} (hservice : op ≠ .sweep)
    {trace : List Step} {event : Event}
    (hreach : (program sys op).Reaches trace (.inl (.auditRecord event))) :
    OwnDetails event.details := by
  have hmakes := makes_of_reaches hreach
  cases op with
  | create p input =>
      exact ((create_records sys.deps p input).reaches
        hreach.of_map).2
  | read p id password =>
      exact ((read_records sys.deps p id password).reaches
        hreach.of_map).2
  | verify id sha256hex =>
      exact ((verify_records sys.deps id sha256hex).reaches
        hreach.of_map).2
  | delete p id =>
      exact ((delete_records sys.deps p id).reaches hreach.of_map).2
  | listMine | listAll => exact hmakes.elim
  | sweep => exact absurd rfl hservice

/-! ## Building a paste -/

/-- One `Create`: its request and the replies it went on with. -/
structure Creation where
  p : Principal
  input : CreateInput
  attempt : Attempt

namespace Creation

variable (sys : Params) (c : Creation)

def op : Op := .create c.p c.input

def id : UUID := c.attempt.id

/-- The metadata it stores. -/
def info : PasteMeta := c.attempt.info sys.deps c.p c.input

/-- The life time it gives the body. -/
def remaining : ℤ := c.attempt.remaining sys.deps c.p c.input

def sealedTrace : List Step := c.attempt.sealedTrace sys.deps c.p c.input

def storedTrace : List Step := c.attempt.storedTrace sys.deps c.p c.input

/-- The request passed validation. -/
def Accepted : Prop := Paste.Accepted sys.deps c.input c.attempt.canonical

/-- All but the key id is known before sealing. -/
theorem info_eq :
    c.info sys =
      { newMeta sys.deps c.p c.input c.attempt.canonical c.attempt.created c.id with
        kekId := (c.info sys).kekId } := by
  simp only [info, Attempt.info, withKek]
  split <;> rfl

@[simp]
theorem info_id : (c.info sys).id = c.id := by
  rw [info_eq]
  rfl

@[simp]
theorem info_ownerId : (c.info sys).ownerId = c.p.userId := by
  rw [info_eq]
  rfl

theorem info_createdAt : (c.info sys).createdAt = c.attempt.created := by
  rw [info_eq]
  rfl

/-- The paste expires its life time after it was created. -/
theorem info_expiresAt :
    (c.info sys).expiresAt =
      (c.info sys).createdAt + Calendar.wrap64 ((c.info sys).ttlSeconds * Calendar.second) := by
  rw [info_eq]
  rfl

end Creation

section

variable {sys : Params} {op : Op} {trace : List Step}

theorem call_bodiesPut {id : UUID} {record : EncryptedBody} {ttl : ℤ}
    (hreach : (program sys op).Reaches trace (.inl (.bodiesPut id record ttl))) :
    ∃ c : Creation, op = c.op ∧ c.Accepted sys ∧ 0 < c.remaining sys ∧
      trace = c.sealedTrace sys ∧ id = c.id ∧ record = c.attempt.sealed ∧
      ttl = c.remaining sys := by
  have hmakes := makes_of_reaches hreach
  cases op with
  | create p input =>
      cases create_point sys.deps hreach.of_map with
      | put a haccepted hremaining =>
          exact ⟨⟨p, input, a⟩, rfl, haccepted, hremaining, rfl, rfl, rfl, rfl⟩
      | recording _ _ hrecord => cases hrecord
  | _ => cases hmakes

theorem call_metasCreate {m : PasteMeta}
    (hreach : (program sys op).Reaches trace (.inl (.metasCreate m))) :
    ∃ c : Creation, op = c.op ∧ c.Accepted sys ∧ 0 < c.remaining sys ∧
      trace = c.storedTrace sys ∧ m = c.info sys := by
  have hmakes := makes_of_reaches hreach
  cases op with
  | create p input =>
      cases create_point sys.deps hreach.of_map with
      | insert a haccepted hremaining =>
          exact ⟨⟨p, input, a⟩, rfl, haccepted, hremaining, rfl, rfl⟩
      | recording _ _ hrecord => cases hrecord
  | _ => cases hmakes

/-! ## Removing a body -/

/-- The three reasons to remove a body: a `Create` undoes its put, a `Delete` of
an active row, and the sweeper. -/
inductive Removal (sys : Params) (id : UUID) : Op → List Step → Prop
  | rollback (c : Creation) (haccepted : c.Accepted sys) (hremaining : 0 < c.remaining sys)
      (err : Err) (hid : c.id = id) :
      Removal sys id c.op (c.storedTrace sys ++ [⟨.metasCreate (c.info sys), .error err⟩])
  | delete (p : Principal) (m : PasteMeta) (now : ℤ) (hmay : MayDelete p m)
      (hstatus : m.status now = .active) : Removal sys id (.delete p id) (deleteChecks id m now)
  | sweep (now : ℤ) (rows : List PasteMeta) (rest : List Step) (m : PasteMeta) (hmem : m ∈ rows)
      (hid : m.id = id) :
      Removal sys id .sweep (Sweeper.sweepStart sys.sweeper now rows ++ rest)

theorem call_bodiesDelete {id : UUID}
    (hreach : (program sys op).Reaches trace (.inl (.bodiesDelete id))) :
    Removal sys id op trace := by
  have hmakes := makes_of_reaches hreach
  cases op with
  | create p input =>
      cases create_point sys.deps hreach.of_map with
      | rollback a haccepted hremaining err =>
          exact .rollback ⟨p, input, a⟩ haccepted hremaining err rfl
      | recording _ _ hrecord => cases hrecord
  | delete p id' =>
      cases hmakes
      cases delete_point sys.deps hreach.of_map with
      | remove m now hmay hstatus => exact .delete p m now hmay hstatus
      | recording _ _ hrecord => cases hrecord
  | sweep =>
      cases Sweeper.runOnce_call hreach.of_map with
      | expiring now rows tail _ before m after hbatch =>
          rcases hbatch.request_eq with heq | ⟨⟨⟩, -⟩
          cases heq
          exact .sweep now rows tail m (by simp [hbatch.rows_eq]) rfl
      | purge now rows tail ids failed hdone hdays _ hpurge => cases hpurge
      | housekeeping _ _ hhouse => cases hhouse
  | _ => cases hmakes

/-! ## Marking and removing rows -/

theorem call_metasMarkDeleted {id byUser : UUID} {time : ℤ}
    (hreach : (program sys op).Reaches trace (.inl (.metasMarkDeleted id byUser time))) :
    ∃ p m, op = .delete p id ∧ MayDelete p m ∧ m.status time = .active ∧ byUser = p.userId ∧
      trace = deleteChecks id m time ++ [⟨.bodiesDelete id, .ok ()⟩] := by
  have hmakes := makes_of_reaches hreach
  cases op with
  | delete p id' =>
      cases hmakes
      cases delete_point sys.deps hreach.of_map with
      | mark m now hmay hstatus => exact ⟨p, m, rfl, hmay, hstatus, rfl, rfl⟩
      | recording _ _ hrecord => cases hrecord
  | _ => cases hmakes

theorem call_metasMarkExpiredAudited {ids : List UUID} {time : ℤ}
    (hreach : (program sys op).Reaches trace (.inl (.metasMarkExpiredAudited ids time))) :
    op = .sweep ∧ ∃ rows rest failed, trace = Sweeper.sweepStart sys.sweeper time rows ++ rest ∧
      Sweeper.BatchDone time rows rest ids failed := by
  have hmakes := makes_of_reaches hreach
  cases op with
  | sweep =>
      cases Sweeper.runOnce_call hreach.of_map with
      | expiring now rows tail _ before m after hbatch =>
          rcases hbatch.request_eq with heq | ⟨heq, -⟩ <;> cases heq
      | mark now rows rest ids failed hdone => exact ⟨rfl, rows, rest, failed, rfl, hdone⟩
      | purge now rows tail ids failed hdone hdays _ hpurge => cases hpurge
      | housekeeping _ _ hhouse => cases hhouse
  | _ => cases hmakes

theorem call_metasPurgeOlderThan {cutoff : ℤ}
    (hreach : (program sys op).Reaches trace (.inl (.metasPurgeOlderThan cutoff))) :
    op = .sweep ∧ ∃ now rows rest ids, cutoff = Sweeper.daysBefore now
        sys.sweeper.metadataRetentionDays ∧ 0 < sys.sweeper.metadataRetentionDays ∧
      sys.sweeper.hasCompletedPurger = false ∧ rows.length < sys.sweeper.batchSize ∧
      trace = Sweeper.sweepStart sys.sweeper now rows ++ rest ++ Sweeper.markedTrace ids now ∧
      Sweeper.BatchDone now rows rest ids false := by
  have hmakes := makes_of_reaches hreach
  cases op with
  | sweep =>
      refine ⟨rfl, ?_⟩
      cases Sweeper.runOnce_call hreach.of_map with
      | expiring now rows tail _ before m after hbatch =>
          rcases hbatch.request_eq with heq | ⟨heq, -⟩ <;> cases heq
      | purge now rows rest ids failed hdone hdays _ hpurge =>
          cases hpurge with
          | all hpurger hretry =>
              simp only [Bool.or_eq_false_iff, decide_eq_false_iff_not, not_le] at hretry
              obtain ⟨hlength, rfl⟩ := hretry
              exact ⟨now, rows, rest, ids, rfl, hdays, hpurger, hlength, rfl, hdone⟩
      | housekeeping _ _ hhouse => cases hhouse
  | _ => cases hmakes

theorem call_metasListExpiredUnaudited {time : ℤ} {limit : ℕ}
    (hreach : (program sys op).Reaches trace (.inl (.metasListExpiredUnaudited time limit))) :
    op = .sweep ∧ trace = [⟨.now, time⟩] ∧ limit = sys.sweeper.batchSize := by
  have hmakes := makes_of_reaches hreach
  cases op with
  | sweep =>
      cases Sweeper.runOnce_call hreach.of_map with
      | list now => exact ⟨rfl, rfl, rfl⟩
      | expiring now rows tail _ before m after hbatch =>
          rcases hbatch.request_eq with heq | ⟨heq, -⟩ <;> cases heq
      | purge now rows tail ids failed hdone hdays _ hpurge => cases hpurge
      | housekeeping _ _ hhouse => cases hhouse
  | _ => cases hmakes

/-! ## Reading -/

theorem call_bodiesGet {id : UUID}
    (hreach : (program sys op).Reaches trace (.inl (.bodiesGet id))) :
    ∃ p password m now, op = .read p id password ∧ m.status now = .active ∧
      trace = [⟨.metasGet id, .ok m⟩, ⟨.now, now⟩] := by
  have hmakes := makes_of_reaches hreach
  cases op with
  | read p id' password =>
      cases hmakes
      cases read_point sys.deps hreach.of_map with
      | body m now hstatus => exact ⟨p, password, m, now, rfl, hstatus, rfl⟩
      | missing _ _ _ hmissing =>
          cases hmissing with
          | recording hrecord => cases hrecord
      | wrongPassword _ _ _ hrecord =>
          cases hrecord
      | releasing _ _ _ hrelease =>
          cases hrelease with
          | recording _ _ hrecord => cases hrecord
  | _ => cases hmakes

/-- The event is recorded by a `Read` that has written the marker. -/
theorem call_pasteUnavailable {event : Event} (hkind : event.kind = .pasteUnavailable)
    (hreach : (program sys op).Reaches trace (.inl (.auditRecord event))) :
    ∃ p id password m now err rechecked time, op = .read p id password ∧
      event.pasteId = some id ∧ Err.is .notFound err = true ∧ rechecked < m.expiresAt ∧
      trace = readChecks id m now (.error err) rechecked ++
        [⟨.bodiesMarkUnavailableOnce id (wrap64 (sub m.expiresAt rechecked + hour)), .ok true⟩,
          ⟨.now, time⟩] := by
  have hmakes := makes_of_reaches hreach
  cases op with
  | read p id password =>
      cases read_point sys.deps hreach.of_map with
      | @missing m now _ err herr rechecked hlive _ _ hmissing =>
          cases hmissing with
          | recording hrecord =>
              cases hrecord with
              | event haudit time =>
                  exact ⟨p, id, password, m, now, err, rechecked, time, rfl, rfl, herr, hlive, rfl⟩
      | wrongPassword _ _ _ hrecord =>
          cases hrecord
          cases hkind
      | releasing _ _ _ hrelease =>
          cases hrelease with
          | recording _ _ hrecord =>
              cases hrecord
              simp only [viewKind] at hkind
              split at hkind <;> cases hkind
  | create | verify => cases hkind.symm.trans hmakes
  | delete => cases hkind.symm.trans hmakes.2
  | sweep => simp [Makes, SweepMakes, hkind] at hmakes
  | _ => cases hmakes

theorem call_envelopeOpen {id : UUID} {expiresAt : ℤ} {record : EncryptedBody} {password : Bytes}
    (hreach : (program sys op).Reaches trace
      (.inl (.envelopeOpen id expiresAt record password))) :
    ∃ p m now rechecked, op = .read p id password ∧ m.status now = .active ∧
      expiresAt = m.expiresAt ∧ trace = readChecks id m now (.ok record) rechecked := by
  have hmakes := makes_of_reaches hreach
  cases op with
  | read p id' password' =>
      obtain ⟨rfl, rfl, m, now, rechecked, hstatus, hexpires, htrace⟩ :=
        read_open sys.deps hreach.of_map
      exact ⟨p, m, now, rechecked, rfl, hstatus, hexpires, htrace⟩
  | _ => cases hmakes

/-- What a `Read` that returned content has seen. -/
theorem read_content_did {s : Config} {j : ℕ} {id : UUID} {p : Option Principal}
    {password content : Bytes} {res : ReadResult} (hwf : (machine sys).WellFormed s)
    (hreturned : s.Returned j (.read p id password) (.read (.ok res)))
    (hcontent : res.content = some content) :
    ∃ (m : PasteMeta) (sealed : EncryptedBody) (recorded : ℤ),
      s.Did j (.metasGet id) (.ok m) ∧ s.Did j (.bodiesGet id) (.ok sealed) ∧
      s.Did j .now recorded ∧ recorded < m.expiresAt ∧ res.info = m ∧
      s.Did j (.envelopeOpen id m.expiresAt sealed password) (.ok content) := by
  obtain ⟨value, hreach, ⟨⟩⟩ :=
    Proc.reaches_map_result.mp (hwf.reaches_returned hreturned)
  obtain ⟨m, now, sealed, rechecked, opened, views, counted, rest, recorded, htrace, -, hrecorded,
    -, -, rfl⟩ := read_content_trace sys.deps hreach hcontent
  refine ⟨m, sealed, recorded, ?_⟩
  simp only [Config.did_iff_mem_trace, htrace, true_and]
  exact ⟨by simp [readChecks], by simp [readChecks], by simp, hrecorded, by simp⟩

end

end SecurePastebin.System
