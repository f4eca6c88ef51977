import SecurePastebin.System.Availability

/-!
# From Create to Read

A `Read` invoked after the `Create` has returned, with the right password and at
least a millisecond before the expiry, returns the canonical content; and it can
be run to its end.
-/

namespace SecurePastebin.System

open Text Uuid Calendar Paste
open Crypto SecurePastebin.Store Process Interleaving

variable {sys : Params} {s mid last : Config} {i j k : ℕ} {clock : ℤ} {E : Envelope}
  {c : Creation}

/-! ## Replies -/

/-- The reply takes a `Read` of the paste on to its content. -/
def Helps (sys : Params) (c : Creation) : Step → Prop
  | ⟨.now, time⟩ => (time : ℤ) + millisecond ≤ (c.info sys).expiresAt
  | ⟨.metasGet id, reply⟩ => id = c.id →
      ∃ m, reply = .ok m ∧ m.deletedAt = none ∧ core m = core (storedRow (c.info sys))
  | ⟨.bodiesGet id, reply⟩ => id = c.id → ∃ record, reply = .ok record
  | ⟨.envelopeOpen id _ _ password, reply⟩ => id = c.id →
      c.input.password = [] ∨ password = c.input.password → reply = .ok c.attempt.canonical
  | _ => True

theorem Calm.noFailure {id : UUID} {action : Action} (hcalm : Calm id s action) :
    NoFailure action := by
  cases action with
  | advance i choice =>
      cases choice with
      | fail text => exact hcalm
      | _ => trivial
  | _ => trivial

section

variable {op : Op} {choice : Choice} {store : Store}

theorem Kept.row_helps {reply : Except Err PasteMeta} (hkept : Kept sys c.id s)
    (hprov : Provenance sys s) (hlisted : Listed sys s i c)
    (hlive : s.store.clock + millisecond ≤ (c.info sys).expiresAt)
    (hnofail : NoFailure (.advance k choice))
    (hexec : exec sys.prims s.store (.metasGet c.id) choice = some (reply, store)) :
    ∃ m, reply = .ok m ∧ m.deletedAt = none ∧ core m = core (storedRow (c.info sys)) := by
  obtain ⟨m, hfind, hdeleted⟩ := hkept.row i c hlisted rfl hlive
  obtain ⟨j, c', hlisted', hid, hcore⟩ := hprov.row c.id m hfind
  obtain ⟨-, rfl⟩ := hprov.creation_unique hlisted.toStored hlisted'.toStored hid.symm
  have hanswer := exec_of_noFailure hnofail rfl hexec
  cases hanswer
  exact ⟨m, (Pastes.get_eq_ok_iff c.id).mpr hfind, hdeleted, hcore⟩

theorem Kept.body_helps {reply : Except Err EncryptedBody} (hkept : Kept sys c.id s)
    (hrun : (machine sys).Run (Calm c.id) (.initial (.empty clock E)) s)
    (hlisted : Listed sys s i c) (hlive : s.store.clock + millisecond ≤ (c.info sys).expiresAt)
    (hnofail : NoFailure (.advance k choice))
    (hexec : exec sys.prims s.store (.bodiesGet c.id) choice = some (reply, store)) :
    ∃ record, reply = .ok record := by
  have hprov := provenance_of_run hrun
  obtain ⟨entry, hentry, hexpiry⟩ := hkept.body i c hlisted.toStored rfl hlive (.inl hlisted)
  obtain ⟨j, c', hstored, hid, hvalue⟩ := hprov.body c.id entry hentry
  obtain ⟨-, rfl⟩ := hprov.creation_unique hlisted.toStored hstored hid.symm
  obtain ⟨E', gate, draws, hseal, -⟩ := sealed_of_run (fun _ _ => True) (fun _ => trivial)
    (fun _ _ _ _ _ => trivial) (fun _ _ _ => trivial) hrun
    hlisted.toStored.sealed
  have hanswer := exec_of_noFailure hnofail rfl hexec
  cases hanswer
  refine ⟨c.attempt.sealed, Bodies.get_eq_ok_iff.mpr ⟨entry, hentry, millis_le_millis (by omega), ?_⟩⟩
  rw [hvalue]
  exact hlisted.unmarshal_marshal hprov hseal

theorem open_helps {expiresAt : ℤ} {record : EncryptedBody} {password : Bytes}
    {reply : Except Err Bytes}
    (hrun : (machine sys).Run (Calm c.id) (.initial (.empty clock E)) s)
    (hlisted : Listed sys s i c) (hcalm : Calm c.id s (.advance k choice))
    (hreach : (program sys op).Reaches (s.trace k)
      (.inl (.envelopeOpen c.id expiresAt record password)))
    (hright : c.input.password = [] ∨ password = c.input.password)
    (hexec : exec sys.prims s.store (.envelopeOpen c.id expiresAt record password) choice =
      some (reply, store)) :
    reply = .ok c.attempt.canonical := by
  obtain ⟨j, c', E', gate, draws, hlisted', hid, rfl, htime, hseal, hcontinues⟩ :=
    sealed_of_opening Continues (fun E => ⟨.refl E, rfl⟩)
      (fun _ _ _ hfirst hsecond =>
        ⟨hfirst.keys.trans hsecond.keys, hsecond.params.trans hfirst.params⟩)
      (fun _ _ hallowed => hallowed) hrun hreach
  obtain ⟨-, rfl⟩ := (provenance_of_run hrun).creation_unique hlisted.toStored
    hlisted'.toStored hid.symm
  obtain ⟨gate', rfl, hopen⟩ := exec_open hexec
  obtain rfl : gate' = .granted := hcalm
  rw [← hopen]
  exact Envelope.openBody_of_keepsKeys hseal hcontinues.keys hcontinues.params hright htime

theorem helps_answer {request : Call} {reply : request.Reply}
    (hrun : (machine sys).Run (Calm c.id) (.initial (.empty clock E)) s)
    (hlisted : Listed sys s i c) (hlive : s.store.clock + millisecond ≤ (c.info sys).expiresAt)
    (hcalm : Calm c.id s (.advance k choice))
    (hreach : (program sys op).Reaches (s.trace k) (.inl request))
    (hexec : exec sys.prims s.store request choice = some (reply, store)) :
    Helps sys c ⟨request, reply⟩ := by
  have hkept := kept_of_run hrun
  cases request with
  | now =>
      have hobserved := exec_observed hexec
      rw [show reply = s.store.clock from hobserved]
      exact hlive
  | metasGet id =>
      rintro rfl
      exact hkept.row_helps (provenance_of_run hrun) hlisted hlive hcalm.noFailure hexec
  | bodiesGet id =>
      rintro rfl
      exact hkept.body_helps hrun hlisted hlive hcalm.noFailure hexec
  | envelopeOpen id expiresAt record password =>
      rintro rfl hright
      exact open_helps hrun hlisted hcalm hreach hright hexec
  | _ => trivial

end

/-- While the paste has a millisecond to live, whatever is invoked after its
`Create` sees such replies only. -/
theorem helps_of_run
    (hrun : (machine sys).Run (Calm c.id) (.initial (.empty clock E)) mid)
    (hlisted : Listed sys mid i c) (hlater : (machine sys).Run (Calm c.id) mid last)
    (hlive : last.store.clock + millisecond ≤ (c.info sys).expiresAt)
    (hj : mid.ops.length ≤ j) : ∀ entry ∈ last.trace j, Helps sys c entry := by
  have hwf := hrun.wellFormed .initial
  revert hlive
  refine hlater.induct (motive := fun s => s.store.clock + millisecond ≤ (c.info sys).expiresAt →
    ∀ entry ∈ s.trace j, Helps sys c entry) hwf ?_ ?_ ?_ ?_
  · rintro - ⟨request, reply⟩ hentry
    have := hwf.bound _ ((mid.did_iff_mem_trace j request reply).mpr hentry)
    omega
  · intro s change store _ hhelps hallowed henv hlive
    have hclock := env_clock (fun _ _ => Calm.clockForward) hallowed henv
    dsimp only at hlive
    exact hhelps (by omega)
  · intro s op _ hhelps _
    exact hhelps
  · intro s k op choice request reply store proc hpast hhelps hallowed hop _ hreach hexec hlive
    rw [Config.store_answer, (exec_clock_envelope hexec).1] at hlive
    intro entry hentry
    by_cases hjk : j = k
    · subst hjk
      rw [Config.trace_answer_self, List.mem_append, List.mem_singleton] at hentry
      rcases hentry with hentry | rfl
      · exact hhelps hlive entry hentry
      · exact helps_answer (hrun.trans hpast) (hlisted.mono hpast.extends) hlive hallowed
          hreach hexec
    · rw [Config.trace_answer_of_ne s hjk] at hentry
      exact hhelps hlive entry hentry

/-! ## Where they lead -/

section

variable {d : Deps} {p : Option Principal} {password plain : Bytes} {m : PasteMeta}
  {result : Except Err ReadResult} {res : ReadResult} {trace : List Step}

/-- A helpful reading is before the expiry in the row. -/
theorem lt_expiresAt_of_helps (hcore : core m = core (storedRow (c.info sys))) {time : ℤ}
    (hhelps : Helps sys c ⟨.now, time⟩) : time < m.expiresAt := by
  have hlive : time + millisecond ≤ (c.info sys).expiresAt := hhelps
  rw [expiresAt_of_core hcore]
  simp only [storedRow, pgTime, truncate, microsecond, millisecond] at hlive ⊢
  omega

theorem release_of_helps (hcore : core m = core (storedRow (c.info sys)))
    (hhelps : ∀ entry ∈ trace, Helps sys c entry)
    (hrelease : ReleasePoint d p c.id m res plain trace (.inr result)) :
    result = .ok { res with content := some plain, hashVisible := true } := by
  have hbefore : ∀ time : ℤ, ⟨.now, time⟩ ∈ trace → time < m.expiresAt := fun time hmem =>
    lt_expiresAt_of_helps hcore (hhelps _ hmem)
  cases hrelease with
  | lateOpen opened hlate => exact absurd (hbefore opened (by simp)) hlate
  | lateViews opened hopened views counted hlate =>
      exact absurd (hbefore counted (by simp [releaseChecks])) hlate
  | lateRecord opened hopened views counted hcounted rest hrecord recorded hlate =>
      exact absurd (hbefore recorded (by simp)) hlate
  | released => rfl

theorem read_of_helps (hright : c.input.password = [] ∨ password = c.input.password)
    (hhelps : ∀ entry ∈ trace, Helps sys c entry)
    (hreach : (Paste.read d p c.id password).Reaches trace (.inr result)) :
    ∃ res, result = .ok res ∧ res.content = some c.attempt.canonical := by
  have hrow : ∀ m, ⟨.metasGet c.id, .ok m⟩ ∈ trace →
      m.deletedAt = none ∧ core m = core (storedRow (c.info sys)) := by
    intro m hmem
    obtain ⟨m', hm', hrow⟩ := hhelps _ hmem rfl
    cases hm'
    exact hrow
  have hbody : ∀ err, ⟨.bodiesGet c.id, .error err⟩ ∉ trace := by
    intro err hmem
    obtain ⟨record, hrecord⟩ := hhelps _ hmem rfl
    cases hrecord
  cases read_point d hreach with
  | failed err =>
      obtain ⟨m, hm, -⟩ := hhelps _ (List.mem_singleton_self _) rfl
      cases hm
  | inactive m now hstatus =>
      obtain ⟨hdeleted, hcore⟩ := hrow m (by simp)
      have hlive := lt_expiresAt_of_helps hcore (hhelps ⟨.now, now⟩ (by simp))
      exact absurd ((m.status_eq_active_iff now).mpr ⟨hdeleted, hlive⟩) hstatus
  | lateBody m now hstatus body rechecked hlate =>
      obtain ⟨-, hcore⟩ := hrow m (by simp [readChecks])
      exact absurd (lt_expiresAt_of_helps hcore (hhelps ⟨.now, rechecked⟩ (by simp [readChecks])))
        hlate
  | @missing _ _ _ err _ _ _ _ _ _ =>
      exact absurd (by simp [readChecks]) (hbody err)
  | bodyFailed m now hstatus err herr rechecked hlive =>
      exact absurd (by simp [readChecks]) (hbody err)
  | locked m now hstatus sealed rechecked hlive hlocked =>
      obtain ⟨-, hcore⟩ := hrow m (by simp [readChecks])
      have hempty : c.input.password = [] := by
        rcases hright with hempty | hsame
        · exact hempty
        · rw [← hsame, hlocked.2]
      have hprotected := field_of_core PasteMeta.passwordProtected (fun _ => rfl) hcore
      rw [c.info_eq sys] at hprotected
      simp [storedRow, newMeta, hempty, hlocked.1] at hprotected
  | openFailed m now hstatus sealed rechecked hlive hunlocked err rest =>
      have hopen := hhelps ⟨.envelopeOpen c.id m.expiresAt sealed password, .error err⟩ (by simp)
        rfl hright
      cases hopen
  | @releasing m _ _ sealed _ _ _ plain _ _ hrelease =>
      obtain ⟨-, hcore⟩ := hrow m (by simp [readChecks])
      have hopen := hhelps ⟨.envelopeOpen c.id m.expiresAt sealed password, .ok plain⟩ (by simp)
        rfl hright
      have hresult := release_of_helps hcore
        (fun entry hentry => hhelps entry (List.mem_append_right _ hentry)) hrelease
      exact ⟨_, hresult, congrArg some (Except.ok.inj hopen)⟩

end

/-! ## The whole way -/

/-- A `Create` that returned without error has listed its paste. -/
theorem listed_of_returned {p : Principal} {input : CreateInput} {r : CreateResult}
    (hwf : (machine sys).WellFormed s)
    (hreturned : s.Returned i (.create p input) (.create (.ok r))) :
    ∃ c, Listed sys s i c ∧ c.input = input ∧ r.info = c.info sys := by
  obtain ⟨value, hreach, ⟨⟩⟩ :=
    Proc.reaches_map_result.mp (hwf.reaches_returned hreturned)
  generalize htrace : s.trace i = trace at hreach
  cases create_point sys.deps hreach with
  | done a haccepted hremaining rest hrecord =>
      refine ⟨⟨p, input, a⟩, ⟨⟨hreturned.1, haccepted, hremaining, ?_⟩, ?_⟩, rfl, rfl⟩
      · rw [htrace, List.append_assoc]
        exact List.prefix_append _ _
      · rw [Config.did_iff_mem_trace, htrace]
        simp [Creation.info]

/-- Nothing keeps a `Read` from running to its end. -/
theorem exists_read_completion (id : UUID) (q : Option Principal) (password : Bytes)
    (hwf : (machine sys).WellFormed mid) :
    ∃ last result, (machine sys).Run (Calm id) mid last ∧
      last.store.clock = mid.store.clock ∧
      last.Returned mid.ops.length (.read q id password) (.read result) := by
  have hinvoke : (machine sys).act mid (.invoke (.read q id password)) =
      some (mid.invoke (.read q id password) (program sys (.read q id password))) := rfl
  have hproc : (mid.invoke (.read q id password) (program sys (.read q id password))).procs[
      mid.ops.length]? = some (program sys (.read q id password)) := by
    simp [Config.invoke, ← hwf.length_procs]
  have hcalls : (program sys (.read q id password)).CallsOnly (ReadMakes id) :=
    (read_makes sys.deps q id password).bind fun _ => trivial
  have hanswer : ∀ (s : Config) request, s.store.clock = mid.store.clock → ReadMakes id request →
      ∃ choice reply store, Calm id s (.advance mid.ops.length choice) ∧
        (machine sys).exec s.store request choice = some (reply, store) ∧
          store.clock = mid.store.clock := by
    intro s request hclock hmakes
    have hexec : ∃ choice reply store, Calm id s (.advance mid.ops.length choice) ∧
        exec sys.prims s.store request choice = some (reply, store) := by
      cases request with
      | envelopeOpen => exact ⟨.opening .granted, _, _, rfl, rfl⟩
      | newUUID | envelopeSeal => cases hmakes
      | _ => exact ⟨.ok, _, _, trivial, rfl⟩
    obtain ⟨choice, reply, store, hcalm, hexec⟩ := hexec
    exact ⟨choice, reply, store, hcalm, hexec, (exec_clock_envelope hexec).1.trans hclock⟩
  obtain ⟨last, result, hrun, hclock, hops, hreturned⟩ :=
    Machine.exists_completion (fun store => store.clock = mid.store.clock) hanswer hcalls rfl hproc
  have hlater : (machine sys).Run (Calm id) mid last :=
    (Machine.Run.tail .refl trivial hinvoke).trans hrun
  have hop : last.ops[mid.ops.length]? = some (.read q id password) := by
    rw [hops]
    simp [Config.invoke]
  obtain ⟨value, -, rfl⟩ := Proc.reaches_map_result.mp
    ((hlater.wellFormed hwf).reaches_returned ⟨hop, hreturned⟩)
  exact ⟨last, value, hlater, hclock, hop, hreturned⟩

/-- What `Read` returns is what the one `Create` of that identifier was given, in
canonical form, with any failures and any clock; and when nothing fails, a
`Read` with the right password returns it until a millisecond before the
expiry. -/
theorem content_roundtrip (sys : Params) (clock : ℤ) (E : Envelope) :
    (∀ s j q id password res b,
      (machine sys).Run KeyringGrows (.initial (.empty clock E)) s → SealsBound sys s →
      s.Returned j (.read q id password) (.read (.ok res)) → res.content = some b →
      ∃ i p input, s.ops[i]? = some (.create p input) ∧ s.Did i .newUUID id ∧
        (∀ k, s.Did k .newUUID id → k = i) ∧
        canonicalize input.content sys.limits.maxSize = .ok b ∧ hasBOM b = true ∧
        hashHex sys.prims.sha256 b = res.info.contentHash ∧ b.length = res.info.sizeBytes ∧
        (b.length : ℤ) ≤ sys.limits.maxSize) ∧
    ∀ mid i p input r,
      (machine sys).Run (Calm r.info.id) (.initial (.empty clock E)) mid →
      mid.Returned i (.create p input) (.create (.ok r)) →
      mid.store.clock + millisecond ≤ r.info.expiresAt →
      ∀ q password, input.password = [] ∨ password = input.password →
      ∃ b, canonicalize input.content sys.limits.maxSize = .ok b ∧
        (∃ last res, (machine sys).Run (Calm r.info.id) mid last ∧
          last.Returned mid.ops.length (.read q r.info.id password) (.read (.ok res)) ∧
          res.content = some b) ∧
        ∀ last j result, (machine sys).Run (Calm r.info.id) mid last →
          last.store.clock + millisecond ≤ r.info.expiresAt → mid.ops.length ≤ j →
          last.Returned j (.read q r.info.id password) (.read result) →
          ∃ res, result = .ok res ∧ res.content = some b := by
  constructor
  · intro s j q id password res b hrun hbound hreturned hcontent
    exact read_content_of_run (fun _ _ h => h) hrun hbound hreturned hcontent
  · intro mid i p input r hrun hcreated hlive q password hright
    have hwf := hrun.wellFormed .initial
    obtain ⟨c, hlisted, rfl, hinfo⟩ := listed_of_returned hwf hcreated
    rw [hinfo] at hlive hrun
    rw [hinfo, c.info_id]
    rw [c.info_id] at hrun
    have hreads : ∀ last j result, (machine sys).Run (Calm c.id) mid last →
        last.store.clock + millisecond ≤ (c.info sys).expiresAt → mid.ops.length ≤ j →
        last.Returned j (.read q c.id password) (.read result) →
        ∃ res, result = .ok res ∧ res.content = some c.attempt.canonical := by
      intro last j result hlater hlive hj hreturned
      obtain ⟨value, hreach, ⟨⟩⟩ := Proc.reaches_map_result.mp
        ((hlater.wellFormed hwf).reaches_returned hreturned)
      exact read_of_helps hright (helps_of_run hrun hlisted hlater hlive hj) hreach
    refine ⟨c.attempt.canonical, hlisted.accepted.canonical_eq, ?_, hreads⟩
    obtain ⟨last, result, hlater, hclock, hreturned⟩ :=
      exists_read_completion c.id q password hwf
    obtain ⟨res, rfl, hcontent⟩ :=
      hreads last _ result hlater (hclock ▸ hlive) le_rfl hreturned
    exact ⟨last, res, hlater, hreturned, hcontent⟩

/-! ## Sample runs -/

/-- A checked form of `Calm`, for schedules without restarts. -/
def Sample.isCalm (id : UUID) (s : Config) : Action → Bool
  | .env (.tick time) => decide (s.store.clock ≤ time)
  | .env (.restart _) => false
  | .invoke (.delete _ id') => id' ≠ id
  | .invoke _ => true
  | .advance _ (.fail _) => false
  | .advance _ (.opening gate) => gate = .granted
  | .advance .. => true

theorem Sample.calm_of_isCalm {id : UUID} (s : Config) (action : Action)
    (hcalm : Sample.isCalm id s action = true) : Calm id s action := by
  unfold Sample.isCalm at hcalm
  split at hcalm <;> simp_all [Calm]

/-- The life time is counted from 0.1 ms on, and the body is stored at 0.5 ms for the
whole milliseconds that are left; 0.05 ms before the expiry of the paste Redis has
dropped it.  `Read` takes it for lost, and records that. -/
theorem read_in_last_millisecond :
    ∃ mid last r res, (machine Sample.params).Run (Calm r.info.id) Sample.start mid ∧
      mid.Returned 0 (.create Sample.owner Sample.input) (.create (.ok r)) ∧
      Sample.input.password = [] ∧ (machine Sample.params).Run (Calm r.info.id) mid last ∧
      mid.ops.length = 1 ∧
      last.Returned 1 (.read none r.info.id []) (.read (.ok res)) ∧
      last.store.clock < r.info.expiresAt ∧ res.content = none ∧ res.status = .unavailable ∧
      ∃ event ∈ events last, event.kind = .pasteUnavailable := by
  have hperform : ((machine Sample.params).perform (Sample.isCalm Sample.id) Sample.start
      ([.env (.tick 100000), .invoke (.create Sample.owner Sample.input)] ++ Sample.calls 0 1 ++
        [.advance 0 (.uuid Sample.id), .advance 0 (.sealing .granted Crypto.Sample.draws),
          .env (.tick 500000)] ++ Sample.calls 0 5)).any (fun mid =>
      mid.ops[0]? = some (.create Sample.owner Sample.input) && mid.ops.length = 1 &&
      ((mid.result? 0).bind Result.createOk?).any fun r => decide (r.info.id = Sample.id) &&
        ((machine Sample.params).perform (Sample.isCalm Sample.id) mid
          ([.env (.tick 60000050000), .invoke (.read none Sample.id [])] ++
            Sample.calls 1 7)).any fun last =>
          last.ops[1]? = some (.read none Sample.id []) &&
          decide (last.store.clock < r.info.expiresAt) &&
          ((last.result? 1).bind Result.readOk?).any fun res =>
            decide (res.content = none ∧ res.status = .unavailable ∧
              ∃ event ∈ events last, event.kind = .pasteUnavailable)) = true := by decide +kernel
  obtain ⟨mid, hrun, hmid⟩ := Machine.exists_run_of_perform Sample.calm_of_isCalm hperform
  rw [Bool.and_eq_true, Bool.and_eq_true, decide_eq_true_eq, decide_eq_true_eq,
    Option.any_eq_true] at hmid
  obtain ⟨⟨hop, hlength⟩, r, hr, hmid⟩ := hmid
  rw [Bool.and_eq_true, decide_eq_true_eq] at hmid
  obtain ⟨hid, hlast⟩ := hmid
  obtain ⟨last, hlater, hlast⟩ := Machine.exists_run_of_perform Sample.calm_of_isCalm hlast
  simp only [Bool.and_eq_true, decide_eq_true_eq, Option.any_eq_true, Result.bind_readOk?] at hlast
  obtain ⟨⟨hop', hclock⟩, res, hres, hshown⟩ := hlast
  have hcreated := (mid.returned_iff 0 _ _).mpr ⟨hop, Result.bind_createOk?.mp hr⟩
  refine ⟨mid, last, r, res, ?_⟩
  rw [hid]
  exact ⟨hrun, hcreated, rfl, hlater, hlength, (last.returned_iff 1 _ _).mpr ⟨hop', hres⟩, hclock,
    hshown⟩

theorem Sample.keyringGrows_of_isCalm {id : UUID} (s : Config) (action : Action)
    (hcalm : Sample.isCalm id s action = true) : KeyringGrows s action := by
  unfold Sample.isCalm at hcalm
  split at hcalm <;> simp_all [KeyringGrows]

/-- Nothing has been sealed under a password. -/
def Sample.sealsOpenly (s : Config) : Bool :=
  s.log.all fun entry =>
    match entry.2.1 with
    | .envelopeSeal _ _ _ password => password = []
    | _ => true

theorem Sample.sealsBound_of_sealsOpenly (hopenly : Sample.sealsOpenly s = true) :
    SealsBound sys s := by
  intro i id expiresAt plain password record hdid hpassword
  have hempty := List.all_eq_true.mp hopenly _ hdid
  exact absurd (of_decide_eq_true hempty) hpassword

/-- The sample paste is created and read back. -/
theorem content_roundtrip_sample :
    ∃ mid last r res b, (machine Sample.params).Run (Calm r.info.id) Sample.start mid ∧
      mid.Returned 0 (.create Sample.owner Sample.input) (.create (.ok r)) ∧
      mid.store.clock + millisecond ≤ r.info.expiresAt ∧
      (machine Sample.params).Run KeyringGrows Sample.start last ∧ SealsBound Sample.params last ∧
      last.Returned 1 (.read none r.info.id []) (.read (.ok res)) ∧ res.content = some b ∧
      canonicalize Sample.input.content Sample.params.limits.maxSize = .ok b ∧
      hashHex Sample.params.prims.sha256 b = res.info.contentHash := by
  have hperform : ((machine Sample.params).perform (Sample.isCalm Sample.id) Sample.start
      Sample.creating).any (fun mid =>
      mid.ops[0]? = some (.create Sample.owner Sample.input) && mid.ops.length = 1 &&
      ((mid.result? 0).bind Result.createOk?).any fun r => decide (r.info.id = Sample.id) &&
        decide (mid.store.clock + millisecond ≤ r.info.expiresAt) &&
        ((machine Sample.params).perform (Sample.isCalm Sample.id) mid
          (.invoke (.read none Sample.id []) :: Sample.calls 1 4 ++
            [.advance 1 (.opening .granted)] ++ Sample.calls 1 6)).any fun last =>
          last.ops[1]? = some (.read none Sample.id []) && Sample.sealsOpenly last &&
          decide (last.store.clock + millisecond ≤ r.info.expiresAt) &&
          ((last.result? 1).bind Result.read?).isSome) = true := by decide +kernel
  simp only [Option.any_eq_true, Bool.and_eq_true, decide_eq_true_eq, Option.isSome_iff_exists,
    Result.bind_createOk?, Result.bind_read?] at hperform
  obtain ⟨mid, hmid, ⟨hop, hlength⟩, r, hr, ⟨hid, hlive⟩, last, hlast, ⟨⟨hop', hopenly⟩, hlive'⟩,
    result, hresult⟩ := hperform
  have hrun : (machine Sample.params).Run (Calm r.info.id) Sample.start mid :=
    Machine.run_of_perform Sample.calm_of_isCalm (hid ▸ hmid)
  have hlater : (machine Sample.params).Run (Calm r.info.id) mid last :=
    Machine.run_of_perform Sample.calm_of_isCalm (hid ▸ hlast)
  have hgrows : (machine Sample.params).Run KeyringGrows Sample.start last :=
    (Machine.run_of_perform Sample.keyringGrows_of_isCalm hmid).trans
      (Machine.run_of_perform Sample.keyringGrows_of_isCalm hlast)
  have hcreated := (mid.returned_iff 0 _ _).mpr ⟨hop, hr⟩
  have hread := (last.returned_iff 1 _ _).mpr ⟨hop', hresult⟩
  have hbound : SealsBound Sample.params last := Sample.sealsBound_of_sealsOpenly hopenly
  rw [← hid] at hread
  obtain ⟨hintegrity, havailable⟩ :=
    content_roundtrip Sample.params 0 Crypto.Sample.envelope
  obtain ⟨b, hcanonical, -, hreads⟩ :=
    havailable mid 0 _ _ r hrun hcreated hlive none [] (.inl rfl)
  obtain ⟨res, rfl, hcontent⟩ := hreads last 1 result hlater hlive' hlength.le hread
  obtain ⟨_, _, _, -, -, -, -, -, hhash, -⟩ :=
    hintegrity last 1 none _ [] res b hgrows hbound hread hcontent
  exact ⟨mid, last, r, res, b, hrun, hcreated, hlive, hgrows, hbound, hread, hcontent,
    hcanonical, hhash⟩

end SecurePastebin.System
