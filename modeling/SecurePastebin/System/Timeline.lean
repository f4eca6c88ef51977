import SecurePastebin.System.Marks

/-!
# What is reported of a paste never goes back

A `Read` or a `Verify` reports a status, a `Delete` that goes through says that the
paste is over, and each status rests on something the stores keep: a body that
cannot be fetched any more, an expiry that has passed, a mark on the row.  So
whoever asks later is not told of an earlier stage.
-/

namespace SecurePastebin.Paste

open Text Uuid Process

/-- The order in which a paste goes through its statuses. -/
def Status.rank : Status → ℕ
  | .active => 0
  | .unavailable => 1
  | .expired => 2
  | .deleted => 3

/-- An error that does not say what has become of a paste. -/
def Silent : Err → Prop
  | .expired | .deleted | .unavailable => False
  | .wrap _ inner => Silent inner
  | _ => True

theorem Silent.is_eq_false {err fate : Err} (hsilent : Silent err)
    (hfate : fate ∈ [Err.expired, .deleted, .unavailable]) : Err.is fate err = false := by
  simp only [List.mem_cons, List.not_mem_nil, or_false] at hfate
  induction err with
  | wrap context inner ih =>
      rw [Err.is, ih hsilent, Bool.or_false]
      rcases hfate with rfl | rfl | rfl <;> rfl
  | expired | deleted | unavailable => exact hsilent.elim
  | _ => rcases hfate with rfl | rfl | rfl <;> rfl

/-- The error of a lookup, a fetch or an opening that fails. -/
def failure? : Step → Option Err
  | ⟨.metasGet _, .error err⟩ | ⟨.bodiesGet _, .error err⟩ | ⟨.envelopeOpen .., .error err⟩ =>
      some err
  | _ => none

/-- What a `Read` that reports a status has seen: the row, and what made it
decide. -/
inductive Reported (id : UUID) (m : PasteMeta) (trace : List Step) : Status → Prop
  | deleted (hmark : m.deletedAt ≠ none) : Reported id m trace .deleted
  | expired (now : ℤ) (hnow : ⟨.now, now⟩ ∈ trace) (hnone : m.deletedAt = none)
      (hlate : m.expiresAt ≤ now) : Reported id m trace .expired
  | unavailable (now : ℤ) (err : Err) (hnow : ⟨.now, now⟩ ∈ trace) (hlive : m.status now = .active)
      (hbody : ⟨.bodiesGet id, .error err⟩ ∈ trace) (herr : Err.is .notFound err = true) :
      Reported id m trace .unavailable
  | active (now : ℤ) (record : EncryptedBody) (hnow : ⟨.now, now⟩ ∈ trace)
      (hlive : m.status now = .active) (hbody : ⟨.bodiesGet id, .ok record⟩ ∈ trace) :
      Reported id m trace .active

variable {d : Deps} {p : Option Principal} {id : UUID} {password sha256hex : Bytes}
  {trace : List Step}

/-- What the metadata alone says. -/
theorem status_cases (m : PasteMeta) (now : ℤ) :
    m.status now = .active ∨ m.status now = .expired ∨
      m.status now = .deleted ∧ m.deletedAt ≠ none := by
  unfold PasteMeta.status
  cases hmark : m.deletedAt with
  | some time => exact .inr (.inr ⟨rfl, by simp⟩)
  | none => by_cases hnow : now < m.expiresAt <;> simp [hnow]

theorem reported_late {m : PasteMeta} {now late : ℤ} (hstatus : m.status now = .active)
    (hlate : ¬ late < m.expiresAt) (hmem : ⟨.now, late⟩ ∈ trace) : Reported id m trace .expired :=
  .expired late hmem ((m.status_eq_active_iff now).mp hstatus).1 (not_lt.mp hlate)

/-- An active paste is handed out, unless a password is wanting. -/
theorem read_reported {res : ReadResult}
    (hreach : (read d p id password).Reaches trace (.inr (.ok res))) :
    (∃ m, ⟨.metasGet id, .ok m⟩ ∈ trace ∧ Reported id m trace res.status) ∧
      (res.status = .active →
        res.content.isSome = true ∨ res.info.passwordProtected = true ∧ password = []) := by
  have hexpired : ∀ {P : Prop}, Status.expired = .active → P := by simp
  have hunavailable : ∀ {P : Prop}, Status.unavailable = .active → P := by simp
  generalize hpoint : (Sum.inr (Except.ok res) : Call ⊕ Except Err ReadResult) = point at hreach
  cases read_point d hreach with
  | inactive m now hstatus =>
      cases hpoint
      refine ⟨⟨m, by simp, ?_⟩, fun hactive => absurd hactive hstatus⟩
      rcases status_cases m now with hactive | hlate | ⟨hdeleted, hmark⟩
      · exact absurd hactive hstatus
      · rw [readResult, hlate]
        obtain ⟨hnone, hlate⟩ := (m.status_eq_expired_iff now).mp hlate
        exact .expired now (by simp) hnone hlate
      · rw [readResult, hdeleted]
        exact .deleted hmark
  | lateBody m now hstatus body rechecked hlate =>
      cases hpoint
      exact ⟨⟨m, by simp [readChecks], reported_late hstatus hlate (by simp [readChecks])⟩,
        hexpired⟩
  | @missing m now hstatus err herr _ _ rest _ hmissing =>
      cases hmissing with
      | done first rest =>
          cases hpoint
          exact ⟨⟨m, by simp [readChecks], .unavailable now err (by simp [readChecks]) hstatus
            (by simp [readChecks]) herr⟩, hunavailable⟩
      | _ => cases hpoint
  | locked m now hstatus sealed rechecked hlive hlocked =>
      cases hpoint
      refine ⟨⟨m, by simp [readChecks], ?_⟩, fun _ => .inr hlocked⟩
      rw [readResult, hstatus]
      exact .active now sealed (by simp [readChecks]) hstatus (by simp [readChecks])
  | @releasing m now hstatus sealed _ _ _ plain rest _ hrelease =>
      cases hrelease with
      | lateOpen opened hlate =>
          cases hpoint
          exact ⟨⟨m, by simp [readChecks], reported_late hstatus hlate (by simp)⟩, hexpired⟩
      | lateViews opened hopened views counted hlate =>
          cases hpoint
          exact ⟨⟨m, by simp [readChecks], reported_late hstatus hlate (by simp [releaseChecks])⟩,
            hexpired⟩
      | lateRecord opened hopened views counted hcounted rest hrecord recorded hlate =>
          cases hpoint
          exact ⟨⟨m, by simp [readChecks], reported_late hstatus hlate (by simp)⟩, hexpired⟩
      | released opened hopened views counted hcounted rest hrecord recorded hrecorded =>
          cases hpoint
          refine ⟨⟨m, by simp [readChecks], ?_⟩, fun _ => .inl rfl⟩
          rw [show ({ readResult m now with content := some plain, hashVisible := true } :
            ReadResult).status = .active from hstatus]
          exact .active now sealed (by simp [readChecks]) hstatus (by simp [readChecks])
      | _ => cases hpoint
  | _ => cases hpoint

/-- A `Verify` reports what the metadata says, or fails as its lookup does. -/
theorem verify_outcome {outcome : Except Err VerifyResult}
    (hreach : (verify d id sha256hex).Reaches trace (.inr outcome)) :
    (∃ err, outcome = .error err ∧ ⟨.metasGet id, .error err⟩ ∈ trace) ∨
      ∃ res m now, outcome = .ok res ∧ ⟨.metasGet id, .ok m⟩ ∈ trace ∧ ⟨.now, now⟩ ∈ trace ∧
        res.status = m.status now := by
  unfold verify at hreach
  simp only [Proc.perform_bind, Proc.reaches_call_result] at hreach
  obtain ⟨found, tail, rfl, hreach⟩ := hreach
  cases found with
  | error err =>
      cases hreach.2
      exact .inl ⟨err, rfl, by simp⟩
  | ok m =>
      rw [Proc.reaches_call_result] at hreach
      obtain ⟨now, tail, rfl, hreach⟩ := hreach
      rcases Proc.reaches_bind.mp hreach with
        ⟨_, -, ⟨⟩⟩ | ⟨⟨⟩, front, back, rfl, -, -, hpoint⟩
      cases hpoint
      exact .inr ⟨_, m, now, rfl, by simp, by simp, rfl⟩

/-- The errors of a `Read` are those of its calls. -/
theorem read_error {err : Err}
    (hreach : (read d p id password).Reaches trace (.inr (.error err))) :
    ∃ step ∈ trace, failure? step = some err := by
  generalize hpoint : (Sum.inr (Except.error err) : Call ⊕ Except Err ReadResult) = point at hreach
  cases read_point d hreach with
  | failed found =>
      cases hpoint
      exact ⟨_, List.mem_singleton.mpr rfl, rfl⟩
  | bodyFailed m now hstatus found hother rechecked hlive =>
      cases hpoint
      exact ⟨⟨.bodiesGet id, .error err⟩, by simp [readChecks], rfl⟩
  | openFailed m now hstatus sealed rechecked hlive hunlocked found rest =>
      cases hpoint
      exact ⟨⟨.envelopeOpen id m.expiresAt sealed password, .error err⟩, by simp, rfl⟩
  | missing _ _ _ hpoint' =>
      cases hpoint' <;> cases hpoint
  | releasing _ _ _ hrelease =>
      cases hrelease <;> cases hpoint
  | _ => cases hpoint

/-- What a `Delete` that goes through has seen or done. -/
theorem delete_done {p : Principal} (hreach : (delete d p id).Reaches trace (.inr (.ok ()))) :
    ∃ m now, ⟨.metasGet id, .ok m⟩ ∈ trace ∧ ⟨.now, now⟩ ∈ trace ∧
      (m.status now ≠ .active ∨ ⟨.metasMarkDeleted id p.userId now, .ok ()⟩ ∈ trace) := by
  cases delete_point d hreach with
  | settled m now hmay hstatus =>
      exact ⟨m, now, by simp [deleteChecks], by simp [deleteChecks], .inl hstatus⟩
  | done m now hmay hstatus rest hrecord =>
      exact ⟨m, now, by simp [deleteChecks], by simp [deleteChecks], .inr (by simp)⟩

end SecurePastebin.Paste

namespace SecurePastebin.Crypto

open Text Uuid Paste

/-- An error, if any, does not say what has become of a paste. -/
def Discreet {Value : Type} : Except Err Value → Prop
  | .error err => Silent err
  | .ok _ => True

theorem Discreet.silent {Value : Type} {outcome : Except Err Value} {err : Err}
    (hdiscreet : Discreet outcome) (herr : outcome = .error err) : Silent err := by
  subst herr
  exact hdiscreet

theorem Discreet.bind {Value Result : Type} {outcome : Except Err Value}
    {next : Value → Except Err Result} (hfirst : Discreet outcome)
    (hnext : ∀ value, Discreet (next value)) : Discreet (outcome >>= next) := by
  cases outcome with
  | error err => exact hfirst
  | ok value => exact hnext value

theorem newGCM_discreet (context : String) (key : Bytes) : Discreet (newGCM context key) := by
  unfold newGCM
  split <;> trivial

theorem validateWrap_discreet (E : Envelope) (record : EncryptedBody) :
    Discreet (E.validateWrap record) := by
  unfold Envelope.validateWrap
  split
  · split_ifs <;> trivial
  · trivial
  · rename_i kdf _ _
    have hparams : Discreet (validateArgon2Params (Envelope.paramsOf kdf)) := by
      unfold validateArgon2Params
      split_ifs <;> trivial
    cases hchecked : validateArgon2Params (Envelope.paramsOf kdf) with
    | error err =>
        have hsilent := hparams.silent hchecked
        split_ifs <;> trivial
    | ok => split_ifs <;> trivial
  · trivial

theorem validateRecord_discreet (E : Envelope) (record : EncryptedBody) :
    Discreet (E.validateRecord record) := by
  unfold Envelope.validateRecord
  split_ifs
  all_goals first
    | trivial
    | exact validateWrap_discreet E record

theorem wrappingKey_discreet (P : Primitives) (E : Envelope) (gate : GateOutcome)
    (record : EncryptedBody) (password : Bytes) :
    Discreet (E.wrappingKey P gate record password) := by
  unfold Envelope.wrappingKey
  split
  · split <;> trivial
  · split_ifs
    · trivial
    · cases gate <;> trivial
  · trivial
  · trivial

theorem decryptWith_discreet (P : Primitives) (wrapKey : Bytes) (id : UUID) (expiresAt : ℤ)
    (record : EncryptedBody) : Discreet (Envelope.decryptWith P wrapKey id expiresAt record) := by
  unfold Envelope.decryptWith
  split
  · split_ifs <;> trivial
  · split_ifs
    · trivial
    · refine (newGCM_discreet _ _).bind fun _ => ?_
      split <;> trivial

theorem openBody_discreet (P : Primitives) (E : Envelope) (gate : GateOutcome) (id : UUID)
    (expiresAt : ℤ) (record : EncryptedBody) (password : Bytes) :
    Discreet (E.openBody P gate id expiresAt record password) :=
  (validateRecord_discreet E record).bind fun _ =>
    (wrappingKey_discreet P E gate record password).bind fun _ =>
      (newGCM_discreet _ _).bind fun _ => decryptWith_discreet P _ id expiresAt record

end SecurePastebin.Crypto

namespace SecurePastebin.System

open Text Uuid Paste Crypto
open SecurePastebin.Store Process Interleaving

variable {sys : Params} {s mid last : Config} {i j : ℕ} {id : UUID} {clock : ℤ} {E : Envelope}
  {allowed : Config → Action → Prop} {status : Status}

/-! ## What a status rests on -/

/-- The body of `id` was stored once and cannot be fetched any more. -/
def Lost (sys : Params) (s : Config) (id : UUID) : Prop :=
  (∃ i c, Stored sys s i c ∧ c.id = id) ∧
    s.store.redis.find s.store.clock (Bodies.bodyKey id) = none

/-- What stays of a reported status. -/
inductive Sign (sys : Params) (s : Config) (id : UUID) : Status → Prop
  | active : Sign sys s id .active
  | unavailable (hlost : Lost sys s id) : Sign sys s id .unavailable
  | expired (m : PasteMeta) (hrow : IsRow sys s id m) (hpast : m.expiresAt ≤ s.store.clock) :
      Sign sys s id .expired
  | revoked (k : ℕ) (byUser : UUID) (time : ℤ)
      (hmarked : s.Did k (.metasMarkDeleted id byUser time) (.ok ())) : Sign sys s id .expired
  | deleted (k : ℕ) (byUser : UUID) (time : ℤ)
      (hmarked : s.Did k (.metasMarkDeleted id byUser time) (.ok ())) : Sign sys s id .deleted

section Step

variable {op : Op} {request : Call} {reply : request.Reply} {store : Store} {choice : Choice}
  {proc : Port Result}

theorem Lost.of_store (hlost : Lost sys s id) (hextends : s.Extends last)
    (hredis : last.store.redis = s.store.redis) (hclock : s.store.clock ≤ last.store.clock) :
    Lost sys last id := by
  obtain ⟨⟨i, c, hstored, hid⟩, hgone⟩ := hlost
  refine ⟨⟨i, c, hstored.mono hextends, hid⟩, ?_⟩
  rw [hredis]
  exact Keyspace.find_eq_none_of_le hclock hgone

theorem Lost.answer (hlost : Lost sys s id) (hprov : Provenance sys s)
    (hreach : (program sys op).Reaches (s.trace i) (.inl request))
    (hexec : exec sys.prims s.store request choice = some (reply, store)) :
    Lost sys (s.answer i proc ⟨request, reply⟩ store) id := by
  obtain ⟨⟨j, c, hstored, hid⟩, hgone⟩ := hlost
  have hextends := Config.extends_answer (s := s) i proc ⟨request, reply⟩ store
  refine ⟨⟨j, c, hstored.mono hextends, hid⟩, Keyspace.find_eq_none_iff.mpr fun entry hentry => ?_⟩
  rw [Config.store_answer] at hentry ⊢
  rw [(exec_clock_envelope hexec).1]
  rcases (exec_redis hexec).body hentry with ⟨record, ttl, hstep, -⟩ | ⟨hentry, -⟩
  · cases hstep
    exact (hprov.put_once hreach hstored hid).elim
  · exact Keyspace.find_eq_none_iff.mp hgone entry hentry

/-- A fetch that finds nothing, of a paste that was stored. -/
theorem lost_of_missing {err : Err} (hstored : ∃ j c, Stored sys s j c ∧ c.id = id)
    (herr : Err.is .notFound err = true)
    (hget : Bodies.get s.store.redis s.store.clock id = .error err) : Lost sys s id :=
  ⟨hstored, (Bodies.get_eq_notFound_iff hget).mp herr⟩

end Step

/-- What the answered calls so far say of the pastes. -/
structure Remembered (sys : Params) (s : Config) : Prop where
  lost : ∀ i id err, s.Did i (.bodiesGet id) (.error err) → Err.is .notFound err = true →
    Lost sys s id
  deleted : ∀ i id m, s.Did i (.metasGet id) (.ok m) → m.deletedAt ≠ none →
    ∃ k byUser time, s.Did k (.metasMarkDeleted id byUser time) (.ok ())
  silent : ∀ i request reply err, s.Did i request reply → failure? ⟨request, reply⟩ = some err →
    Silent err

theorem Remembered.of_store (hremembered : Remembered sys s) (hextends : s.Extends last)
    (hlog : last.log = s.log) (hredis : last.store.redis = s.store.redis)
    (hclock : s.store.clock ≤ last.store.clock) : Remembered sys last where
  lost i id err hdid herr := by
    rw [Config.Did, hlog] at hdid
    exact (hremembered.lost i id err hdid herr).of_store hextends hredis hclock
  deleted i id m hdid hmark := by
    rw [Config.Did, hlog] at hdid
    obtain ⟨k, byUser, time, hmarked⟩ := hremembered.deleted i id m hdid hmark
    exact ⟨k, byUser, time, hextends.did hmarked⟩
  silent i request reply err hdid hfailure := by
    rw [Config.Did, hlog] at hdid
    exact hremembered.silent i request reply err hdid hfailure

theorem pastes_get_discreet (pastes : Pastes) : Discreet (pastes.get id) := by
  unfold Pastes.get
  split <;> trivial

theorem bodies_get_discreet (redis : Keyspace Bytes) (now : ℤ) :
    Discreet (Bodies.get redis now id) := by
  unfold Bodies.get
  split
  · trivial
  · split <;> trivial

/-- No lookup, fetch or opening fails with the fate of a paste. -/
theorem exec_silent {P : Primitives} {store next : Store} {request : Call} {reply : request.Reply}
    {choice : Choice} {err : Err} (hexec : exec P store request choice = some (reply, next))
    (hfailure : failure? ⟨request, reply⟩ = some err) : Silent err := by
  unfold failure? at hfailure
  split at hfailure <;> cases hfailure
  · rename_i id heq
    cases heq
    cases choice with
    | ok => exact (pastes_get_discreet _).silent (congrArg Prod.fst (Option.some.inj hexec))
    | fail text =>
        cases hexec
        trivial
    | _ => cases hexec
  · rename_i id heq
    cases heq
    cases choice with
    | ok => exact (bodies_get_discreet _ _).silent (congrArg Prod.fst (Option.some.inj hexec))
    | fail text =>
        cases hexec
        trivial
    | _ => cases hexec
  · rename_i heq
    cases heq
    obtain ⟨gate, hopen⟩ := exec_observed hexec
    exact (openBody_discreet P store.envelope gate _ _ _ _).silent hopen

theorem Remembered.answer {op : Op} {request : Call} {reply : request.Reply} {store : Store}
    {choice : Choice} {proc : Port Result} (hremembered : Remembered sys s)
    (hprov : Provenance sys s) (hmarks : MarksStay s)
    (hreach : (program sys op).Reaches (s.trace i) (.inl request))
    (hexec : exec sys.prims s.store request choice = some (reply, store)) :
    Remembered sys (s.answer i proc ⟨request, reply⟩ store) := by
  have hextends := Config.extends_answer (s := s) i proc ⟨request, reply⟩ store
  have hobserved := exec_observed hexec
  constructor
  case lost =>
    intro j id err hdid herr
    refine Lost.answer ?_ hprov hreach hexec
    rcases Config.did_answer.mp hdid with hdid | ⟨-, heq⟩
    · exact hremembered.lost j id err hdid herr
    · cases heq
      obtain ⟨p, password, m, now, -, -, htrace⟩ := call_bodiesGet hreach
      have hgot : s.Did i (.metasGet id) (.ok m) :=
        Config.did_of_trace htrace (by simp)
      obtain ⟨l, c, hlisted, hid, -⟩ := hprov.row_got i id m hgot
      exact lost_of_missing ⟨l, c, hlisted.toStored, hid⟩ herr (hobserved herr)
  case deleted =>
    intro j id m hdid hmark
    rcases Config.did_answer.mp hdid with hdid | ⟨-, heq⟩
    · obtain ⟨k, byUser, time, hmarked⟩ := hremembered.deleted j id m hdid hmark
      exact ⟨k, byUser, time, hextends.did hmarked⟩
    · rw [← heq] at hobserved
      obtain ⟨k, byUser, time, hmarked⟩ := hmarks.deleted_by id m hobserved hmark
      exact ⟨k, byUser, time, hextends.did hmarked⟩
  case silent =>
    intro j found answer err hdid hfailure
    rcases Config.did_answer.mp hdid with hdid | ⟨-, heq⟩
    · exact hremembered.silent j found answer err hdid hfailure
    · rw [heq] at hfailure
      exact exec_silent hexec hfailure

theorem remembered_of_run (hforward : ∀ s action, allowed s action → ClockForward s action)
    (hrun : (machine sys).Run allowed (.initial (.empty clock E)) s) :
    Remembered sys s := by
  refine hrun.induct .initial ?_ ?_ ?_ ?_
  · constructor <;> simp [Config.Did, Config.initial]
  · intro s change store _ hremembered hallowed henv
    refine hremembered.of_store (Config.extends_store _) rfl ?_ (env_clock hforward hallowed henv)
    cases change <;> cases henv <;> rfl
  · intro s op _ hremembered _
    exact hremembered.of_store (Config.extends_invoke op _) rfl rfl le_rfl
  · intro s i op choice request reply store proc hpast hremembered _ _ _ hreach hexec
    exact hremembered.answer (provenance_of_run hpast) (marksStay_of_run hpast) hreach hexec

/-! ## What was reported, and what is reported later -/

/-- A `Read` or a `Verify` of the paste has reported the status, or a `Delete` has
gone through, after which it is at least as over as by its expiry. -/
inductive Seen (s : Config) (id : UUID) : Status → Prop
  | read (i : ℕ) (p : Option Principal) (password : Bytes) (res : ReadResult)
      (hreturned : s.Returned i (.read p id password) (.read (.ok res))) : Seen s id res.status
  | verify (i : ℕ) (sha256hex : Bytes) (res : VerifyResult)
      (hreturned : s.Returned i (.verify id sha256hex) (.verify (.ok res))) : Seen s id res.status
  | delete (i : ℕ) (p : Principal) (hreturned : s.Returned i (.delete p id) (.delete (.ok ()))) :
      Seen s id .expired

theorem returned_read (hwf : (machine sys).WellFormed s) {p : Option Principal} {password : Bytes}
    {res : ReadResult} (hreturned : s.Returned i (.read p id password) (.read (.ok res))) :
    (∃ m, s.Did i (.metasGet id) (.ok m) ∧ Reported id m (s.trace i) res.status) ∧
      (res.status = .active →
        res.content.isSome = true ∨ res.info.passwordProtected = true ∧ password = []) := by
  obtain ⟨value, hreach, ⟨⟩⟩ :=
    Proc.reaches_map_result.mp (hwf.reaches_returned hreturned)
  simp only [Config.did_iff_mem_trace]
  exact read_reported hreach

theorem returned_verify (hwf : (machine sys).WellFormed s) {sha256hex : Bytes} {res : VerifyResult}
    (hreturned : s.Returned i (.verify id sha256hex) (.verify (.ok res))) :
    ∃ m now, s.Did i (.metasGet id) (.ok m) ∧ s.Did i .now now ∧ res.status = m.status now := by
  obtain ⟨value, hreach, ⟨⟩⟩ :=
    Proc.reaches_map_result.mp (hwf.reaches_returned hreturned)
  simp only [Config.did_iff_mem_trace]
  rcases verify_outcome hreach with ⟨err, ⟨⟩, -⟩ | ⟨found, m, now, hfound, hreported⟩
  cases hfound
  exact ⟨m, now, hreported⟩

/-- A `Read` or a `Verify` that fails does not say what has become of the paste. -/
theorem returned_silent (hwf : (machine sys).WellFormed s) (hremembered : Remembered sys s)
    {err : Err} : (∀ p password, s.Returned i (.read p id password) (.read (.error err)) →
      Silent err) ∧ ∀ sha256hex, s.Returned i (.verify id sha256hex) (.verify (.error err)) →
        Silent err := by
  constructor
  · intro p password hreturned
    obtain ⟨value, hreach, ⟨⟩⟩ :=
      Proc.reaches_map_result.mp (hwf.reaches_returned hreturned)
    obtain ⟨step, hstep, hfailure⟩ := read_error hreach
    exact hremembered.silent i _ _ err ((s.did_iff_mem_trace ..).mpr hstep) hfailure
  · intro sha256hex hreturned
    obtain ⟨value, hreach, ⟨⟩⟩ :=
      Proc.reaches_map_result.mp (hwf.reaches_returned hreturned)
    rcases verify_outcome hreach with ⟨found, hfound, hgot⟩ | ⟨_, _, _, ⟨⟩, -⟩
    cases hfound
    exact hremembered.silent i _ _ err ((s.did_iff_mem_trace ..).mpr hgot) rfl

theorem returned_delete (hwf : (machine sys).WellFormed s) {p : Principal}
    (hreturned : s.Returned i (.delete p id) (.delete (.ok ()))) :
    ∃ m now, s.Did i (.metasGet id) (.ok m) ∧ s.Did i .now now ∧
      (m.status now ≠ .active ∨ s.Did i (.metasMarkDeleted id p.userId now) (.ok ())) := by
  obtain ⟨value, hreach, ⟨⟩⟩ :=
    Proc.reaches_map_result.mp (hwf.reaches_returned hreturned)
  simp only [Config.did_iff_mem_trace]
  exact delete_done hreach

section Signs

variable (hforward : ∀ s action, allowed s action → ClockForward s action)
  (hrun : (machine sys).Run allowed (.initial (.empty clock E)) s)

include hforward hrun

theorem sign_deleted {m : PasteMeta} (hgot : s.Did i (.metasGet id) (.ok m))
    (hmark : m.deletedAt ≠ none) : Sign sys s id .deleted := by
  obtain ⟨k, byUser, time, hmarked⟩ := (remembered_of_run hforward hrun).deleted i id m hgot hmark
  exact .deleted k byUser time hmarked

theorem sign_expired {m : PasteMeta} {now : ℤ} (hgot : s.Did i (.metasGet id) (.ok m))
    (hnow : s.Did i .now now) (hlate : m.expiresAt ≤ now) : Sign sys s id .expired :=
  .expired m ((provenance_of_run hrun).row_got i id m hgot)
    (hlate.trans (now_le_clock hforward hrun hnow))

/-- What the metadata said has left its sign. -/
theorem sign_status {m : PasteMeta} {now : ℤ} (hgot : s.Did i (.metasGet id) (.ok m))
    (hnow : s.Did i .now now) : Sign sys s id (m.status now) := by
  rcases status_cases m now with hactive | hexpired | ⟨hdeleted, hmark⟩
  · rw [hactive]
    exact .active
  · rw [hexpired]
    exact sign_expired hforward hrun hgot hnow ((m.status_eq_expired_iff now).mp hexpired).2
  · rw [hdeleted]
    exact sign_deleted hforward hrun hgot hmark

/-- A status that was seen has left its sign. -/
theorem Seen.sign (hseen : Seen s id status) : Sign sys s id status := by
  have hwf := hrun.wellFormed .initial
  cases hseen with
  | read i p password res hreturned =>
      obtain ⟨⟨m, hgot, hreported⟩, -⟩ := returned_read hwf hreturned
      generalize res.status = status at hreported
      cases hreported with
      | deleted hmark => exact sign_deleted hforward hrun hgot hmark
      | expired now hnow _ hlate =>
          exact sign_expired hforward hrun hgot ((s.did_iff_mem_trace ..).mpr hnow) hlate
      | unavailable now err _ _ hbody herr =>
          exact .unavailable ((remembered_of_run hforward hrun).lost i id err
            ((s.did_iff_mem_trace ..).mpr hbody) herr)
      | active now record _ _ _ => exact .active
  | verify i sha256hex res hreturned =>
      obtain ⟨m, now, hgot, hnow, hstatus⟩ := returned_verify hwf hreturned
      rw [hstatus]
      exact sign_status hforward hrun hgot hnow
  | delete i p hreturned =>
      obtain ⟨m, now, hgot, hnow, hover | hmarked⟩ := returned_delete hwf hreturned
      · have hsign := sign_status hforward hrun hgot hnow
        rcases status_cases m now with hactive | hexpired | ⟨hdeleted, -⟩
        · exact absurd hactive hover
        · rwa [hexpired] at hsign
        · rw [hdeleted] at hsign
          cases hsign with
          | deleted k byUser time hmarked => exact .revoked k byUser time hmarked
      · exact .revoked i p.userId now hmarked

end Signs

section Later

variable (hforward : ∀ s action, allowed s action → ClockForward s action)
  (hrun : (machine sys).Run allowed (.initial (.empty clock E)) mid)
  (hlater : (machine sys).Run allowed mid last)

include hrun hlater

/-- Rows read after a mark carry it. -/
theorem later_marked {k : ℕ} {byUser : UUID} {time : ℤ}
    (hmarked : mid.Did k (.metasMarkDeleted id byUser time) (.ok ())) (hj : mid.ops.length ≤ j)
    {m : PasteMeta} (hgot : last.Did j (.metasGet id) (.ok m)) : m.deletedAt ≠ none := by
  have hsince := hlater.since (fun s => s.Did k (.metasMarkDeleted id byUser time) (.ok ()))
    (fun entry => ∀ m, entry = ⟨.metasGet id, .ok m⟩ → m.deletedAt ≠ none)
    (hrun.wellFormed .initial) hmarked ?_ ?_ ?_
  · exact hsince.2 j _ hj hgot m rfl
  · intro s change store _ hdid _ _
    exact hdid
  · intro s op _ hdid _
    exact hdid
  · intro s i op choice request reply store proc hpast hdid _ _ _ _ hexec
    refine ⟨(Config.extends_answer i proc _ store).did hdid, fun m heq => ?_⟩
    have hobserved := exec_observed hexec
    rw [heq] at hobserved
    exact (marksStay_of_run (hrun.trans hpast)).deleted k id byUser time hdid m hobserved

include hforward in
/-- A body that is lost is not fetched again. -/
theorem later_lost (hlost : Lost sys mid id) (hj : mid.ops.length ≤ j) {record : EncryptedBody} :
    ¬ last.Did j (.bodiesGet id) (.ok record) := by
  have hsince := hlater.since (fun s => Lost sys s id)
    (fun entry => ∀ record, entry ≠ ⟨.bodiesGet id, .ok record⟩)
    (hrun.wellFormed .initial) hlost ?_ ?_ ?_
  · exact fun hdid => hsince.2 j _ hj hdid record rfl
  · intro s change store _ hlost hallowed henv
    refine hlost.of_store (Config.extends_store _) ?_ (env_clock hforward hallowed henv)
    cases change <;> cases henv <;> rfl
  · intro s op _ hlost _
    exact hlost.of_store (Config.extends_invoke op _) rfl le_rfl
  · intro s i op choice request reply store proc hpast hlost _ _ _ hreach hexec
    refine ⟨hlost.answer (provenance_of_run (hrun.trans hpast)) hreach hexec, fun record heq => ?_⟩
    have hobserved := exec_observed hexec
    rw [heq] at hobserved
    obtain ⟨entry, hentry, hlive, -⟩ := Bodies.get_eq_ok_iff.mp hobserved
    exact Keyspace.find_eq_none_iff.mp hlost.2 entry hentry hlive

include hforward in
/-- An expiry that has passed shows in every row read later. -/
theorem later_expired {m m' : PasteMeta} {now : ℤ} (hrow : IsRow sys mid id m)
    (hpast : m.expiresAt ≤ mid.store.clock) (hj : mid.ops.length ≤ j)
    (hgot : last.Did j (.metasGet id) (.ok m')) (hnow : last.Did j .now now) :
    m'.expiresAt ≤ now := by
  have hwf := hrun.wellFormed .initial
  have hprov := provenance_of_run (hrun.trans hlater)
  have hsame := expiresAt_of_core
    (hprov.core_eq (hrow.mono hlater.extends) (hprov.row_got j id m' hgot))
  have hafter := clock_le_now hforward hwf hlater hj hnow
  omega

include hforward in
/-- What the metadata says later is no earlier status, losses apart. -/
theorem Sign.le_status (hsign : Sign sys mid id status) (hj : mid.ops.length ≤ j) {m : PasteMeta}
    {now : ℤ} (hgot : last.Did j (.metasGet id) (.ok m)) (hnow : last.Did j .now now) :
    status = .unavailable ∨ status.rank ≤ (m.status now).rank := by
  have hdeleted : ∀ k byUser time, mid.Did k (.metasMarkDeleted id byUser time) (.ok ()) →
      m.status now = .deleted := by
    intro k byUser time hmarked
    have hmark := later_marked hrun hlater hmarked hj hgot
    rw [PasteMeta.status, if_pos (Option.isSome_iff_ne_none.mpr hmark)]
  cases hsign with
  | active => exact .inr (Nat.zero_le _)
  | unavailable hlost => exact .inl rfl
  | expired m' hrow hpast =>
      right
      have hlate := later_expired hforward hrun hlater hrow hpast hj hgot hnow
      rcases status_cases m now with hactive | hexpired | ⟨hdeleted, -⟩
      · exact absurd ((m.status_eq_active_iff now).mp hactive).2 (not_lt.mpr hlate)
      · rw [hexpired]
      · rw [hdeleted]
        decide
  | revoked k byUser time hmarked =>
      rw [hdeleted k byUser time hmarked]
      exact .inr (by decide)
  | deleted k byUser time hmarked =>
      rw [hdeleted k byUser time hmarked]
      exact .inr le_rfl

include hforward in
theorem Sign.le_read (hsign : Sign sys mid id status) (hj : mid.ops.length ≤ j)
    {p : Option Principal} {password : Bytes} {res : ReadResult}
    (hreturned : last.Returned j (.read p id password) (.read (.ok res))) :
    status.rank ≤ res.status.rank := by
  have hwf := (hrun.trans hlater).wellFormed .initial
  obtain ⟨⟨m, hgot, hreported⟩, -⟩ := returned_read hwf hreturned
  have hle : ∀ now, last.Did j .now now → status = .unavailable ∨
      status.rank ≤ (m.status now).rank :=
    fun now hnow => hsign.le_status hforward hrun hlater hj hgot hnow
  generalize res.status = later at hreported
  cases hreported with
  | deleted hmark => cases status <;> decide
  | expired now hnow hnone hlate =>
      rcases hle now ((last.did_iff_mem_trace ..).mpr hnow) with rfl | hle
      · decide
      · rwa [(m.status_eq_expired_iff now).mpr ⟨hnone, hlate⟩] at hle
  | unavailable now err hnow hlive hbody herr =>
      rcases hle now ((last.did_iff_mem_trace ..).mpr hnow) with rfl | hle
      · exact le_rfl
      · rw [hlive] at hle
        exact hle.trans (by decide)
  | active now record hnow hlive hbody =>
      rcases hle now ((last.did_iff_mem_trace ..).mpr hnow) with rfl | hle
      · cases hsign with
        | unavailable hlost =>
            exact absurd ((last.did_iff_mem_trace ..).mpr hbody)
              (later_lost hforward hrun hlater hlost hj)
      · rwa [hlive] at hle

end Later

/-- With a clock that does not run backwards, and whatever fails: once a status of a
paste was seen, no `Read` invoked afterwards reports an earlier one, nor does a
`Verify`, which does not look at the body and so reports no loss. -/
theorem status_never_goes_back {sys : Params} {clock : ℤ} {E : Envelope} {mid last : Config}
    {id : UUID} {status : Status} {j : ℕ}
    (hforward : ∀ s action, allowed s action → ClockForward s action)
    (hrun : (machine sys).Run allowed (.initial (.empty clock E)) mid)
    (hseen : Seen mid id status) (hlater : (machine sys).Run allowed mid last)
    (hj : mid.ops.length ≤ j) :
    (∀ p password res, last.Returned j (.read p id password) (.read (.ok res)) →
        status.rank ≤ res.status.rank) ∧
      ∀ sha256hex res, last.Returned j (.verify id sha256hex) (.verify (.ok res)) →
        status = .unavailable ∨ status.rank ≤ res.status.rank := by
  have hwf := (hrun.trans hlater).wellFormed .initial
  have hsign := hseen.sign hforward hrun
  refine ⟨?_, ?_⟩
  · intro p password res hreturned
    exact hsign.le_read hforward hrun hlater hj hreturned
  · intro sha256hex res hreturned
    obtain ⟨m, now, hgot, hnow, hstatus⟩ := returned_verify hwf hreturned
    rw [hstatus]
    exact hsign.le_status hforward hrun hlater hj hgot hnow

end SecurePastebin.System
