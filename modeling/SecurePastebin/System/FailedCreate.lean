import SecurePastebin.System.Lossy

/-!
# What a failed Create leaves behind

A `Create` writes the body, then the metadata, and removes the body if the
latter fails.  Whatever else runs at the same time, one that returns an error has
changed the metadata store exactly if its `INSERT` was executed and the reply to it
lost; if not, what it may have left in Redis is a body that nobody will ever ask for.
-/

namespace SecurePastebin.System

open Text Uuid Paste Crypto
open SecurePastebin.Store Process Interleaving

variable {sys : Params} {start : Store} {s next : Config} {i j k : ℕ} {id : UUID}
  {allowed : Config → LossyAction → Prop}

/-! ## Where a body comes from -/

/-- A body is one of the start, or the thread that has drawn its identifier has
tried to put it. -/
def BodyOrigin (start : Store) (s : Config) : Prop :=
  ∀ id entry, s.store.redis (Bodies.bodyKey id) = some entry →
    id ∈ start.drawn ∨
      ∃ j record ttl reply, s.Did j .newUUID id ∧ s.Did j (.bodiesPut id record ttl) reply

section Step

variable {op : Op} {request : Call} {reply : request.Reply} {store : Store}
  {choice : LossyChoice} {proc : Port Result}

/-- Who puts a body has drawn its identifier. -/
theorem drew_of_put {record : EncryptedBody} {ttl : ℤ}
    (hreach : (program sys op).Reaches (s.trace i) (.inl (.bodiesPut id record ttl))) :
    s.Did i .newUUID id := by
  obtain ⟨c, -, -, -, htrace, rfl, -, -⟩ := call_bodiesPut hreach
  rw [Config.did_iff_mem_trace, htrace]
  simp [Creation.sealedTrace, Attempt.sealedTrace, Attempt.drawing, Creation.id]

theorem BodyOrigin.answer (hbodies : BodyOrigin start s)
    (hreach : (program sys op).Reaches (s.trace i) (.inl request))
    (hexec : lossyExec sys.prims s.store request choice = some (reply, store)) :
    BodyOrigin start (s.answer i proc ⟨request, reply⟩ store) := by
  have hextends := Config.extends_answer (s := s) i proc ⟨request, reply⟩ store
  intro id entry hentry
  obtain ⟨out, -, hredis, -⟩ := lossyExec_steps hexec
  rcases hredis.body hentry with ⟨record, ttl, hstep, -⟩ | ⟨hbefore, -⟩
  · cases hstep
    exact .inr ⟨i, record, ttl, reply, hextends.did (drew_of_put hreach),
      Config.did_answer.mpr (.inr ⟨rfl, rfl⟩)⟩
  · rcases hbodies id entry hbefore with hold | ⟨j, record, ttl, found, hdrew, hput⟩
    · exact .inl hold
    · exact .inr ⟨j, record, ttl, found, hextends.did hdrew, hextends.did hput⟩

end Step

/-- What an action of the environment leaves of the bodies. -/
theorem body_of_lossyEnv {change : LossyEnv} {before store : Store} {entry : Keyspace.Entry Bytes}
    (henv : (lossyMachine sys).env before change = some store)
    (hentry : store.redis (Bodies.bodyKey id) = some entry) :
    before.redis (Bodies.bodyKey id) = some entry := by
  cases change with
  | plain change => cases change <;> cases henv <;> exact hentry
  | loseBody id' =>
      cases henv
      exact Keyspace.eq_some_of_del hentry

theorem bodyOrigin_of_run (hcovered : Covered start)
    (hrun : (lossyMachine sys).Run allowed (.initial start) s) : BodyOrigin start s := by
  refine hrun.induct .initial ?_ ?_ ?_ ?_
  · intro id entry hentry
    have hbody : start.redis (Bodies.bodyKey id) = some entry := hentry
    exact .inl (hcovered id (.inr (by simp [hbody])))
  · intro s change store _ hbodies _ henv id entry hentry
    exact hbodies id entry (body_of_lossyEnv henv hentry)
  · intro s op _ hbodies _
    exact hbodies
  · intro s i op choice request reply store proc _ hbodies _ _ _ hreach hexec
    exact hbodies.answer hreach hexec

/-! ## Writes whose reply is not lost -/

/-- The reply to a call of thread `i` of the given kind is lost. -/
def losesReply (kind : Store → Call → Bool) (i : ℕ) (s : Config) : LossyAction → Bool
  | .advance k (.lost _) => k = i && (s.pending? i).any (kind s.store)
  | _ => false

def isPut (_ : Store) : Call → Bool
  | .bodiesPut .. => true
  | _ => false

/-- An `INSERT` that the table takes. -/
def inserts (store : Store) : Call → Bool
  | .metasCreate m => (store.pastes.create m).isOk
  | _ => false

/-- The steps that do not lose the reply to such a call. -/
def Heard (kind : Store → Call → Bool) (i : ℕ) (s : Config) (action : LossyAction) : Prop :=
  losesReply kind i s action = false

/-- While the body of thread `i` is there, the thread has been told that it was
put, and not that it was removed. -/
def PutKnown (i : ℕ) (s : Config) : Prop :=
  ∀ id entry, s.Did i .newUUID id → s.store.redis (Bodies.bodyKey id) = some entry →
    (∃ record ttl, s.Did i (.bodiesPut id record ttl) (.ok ())) ∧
      ¬ s.Did i (.bodiesDelete id) (.ok ())

section Step

variable {op : Op} {request : Call} {reply : request.Reply} {store : Store}
  {choice : LossyChoice} {proc : Port Result}

theorem PutKnown.answer (hknown : PutKnown i s) (hbodies : BodyOrigin start s)
    (horigin : RowOrigin sys start s) (hheard : Heard isPut i s (.advance k choice))
    (hpending : s.pending? k = some request)
    (hreach : (program sys op).Reaches (s.trace k) (.inl request))
    (hexec : lossyExec sys.prims s.store request choice = some (reply, store)) :
    PutKnown i (s.answer k proc ⟨request, reply⟩ store) := by
  intro id entry hdrew hentry
  obtain ⟨out, -, hredis, hout⟩ := lossyExec_steps hexec
  simp only [Config.did_answer]
  rcases hredis.body hentry with ⟨record, ttl, hstep, -⟩ | ⟨hbefore, hremoved⟩
  · -- the put itself: it is thread i's, and its reply is not lost
    cases hstep
    have hdrew' : s.Did i .newUUID id := by
      rcases Config.did_answer.mp hdrew with hdrew | ⟨-, ⟨⟩⟩
      exact hdrew
    obtain rfl := horigin.unique k i id (drew_of_put hreach) hdrew'
    rcases hout with rfl | ⟨text, rfl, -⟩
    · refine ⟨⟨record, ttl, .inr ⟨rfl, rfl⟩⟩, ?_⟩
      obtain ⟨c, -, -, -, htrace, -⟩ := call_bodiesPut hreach
      rw [Config.did_iff_mem_trace, htrace]
      simp [Creation.sealedTrace, Attempt.sealedTrace, Attempt.drawing, Attempt.sealing]
    · simp [Heard, losesReply, isPut, hpending] at hheard
  · have hdrew' : s.Did i .newUUID id := by
      rcases Config.did_answer.mp hdrew with hdrew | ⟨-, heq⟩
      · exact hdrew
      · -- a new identifier has no body yet
        rcases lossyExec_drawn hexec with ⟨new, hnew, hfresh, -⟩ | ⟨hother, -⟩
        · cases heq.trans hnew
          rcases hbodies id entry hbefore with hold | ⟨j, _, _, _, hdrew, -⟩
          · exact absurd (horigin.kept hold) hfresh
          · exact absurd (horigin.drawn j id hdrew).1 hfresh
        · exact absurd heq.symm (hother id)
    obtain ⟨⟨record, ttl, hput⟩, hdelete⟩ := hknown id entry hdrew' hbefore
    refine ⟨⟨record, ttl, .inl hput⟩, ?_⟩
    rintro (hbad | ⟨rfl, heq⟩)
    · exact hdelete hbad
    · cases heq
      rcases hout with rfl | ⟨text, -, ⟨⟩⟩
      exact hremoved rfl

theorem inserts_of_step {before : Store} {m : PasteMeta} {pastes : Pastes}
    (hstep : PastesStep before ⟨.metasCreate m, .ok ()⟩ pastes) :
    inserts before (.metasCreate m) = true := by
  cases hstep with
  | create _ _ hcreate => simp [inserts, hcreate, Except.isOk, Except.toBool]
  | other _ hcreate _ _ => exact absurd rfl (hcreate m)

/-- Whoever has drawn an identifier that has a row has been told of inserting it. -/
def RowKnown (i : ℕ) (s : Config) : Prop :=
  ∀ id m, s.Did i .newUUID id →
    (s.store.pastes.find id = some m ∨ ∃ j, s.Did j (.metasGet id) (.ok m)) →
    ∃ m', s.Did i (.metasCreate m') (.ok ())

theorem RowKnown.answer (hknown : RowKnown i s) (hcovered : Covered start)
    (horigin : RowOrigin sys start s) (hheard : Heard inserts i s (.advance k choice))
    (hop : s.ops[k]? = some op) (hpending : s.pending? k = some request)
    (hreach : (program sys op).Reaches (s.trace k) (.inl request))
    (hexec : lossyExec sys.prims s.store request choice = some (reply, store)) :
    RowKnown i (s.answer k proc ⟨request, reply⟩ store) := by
  have hextends := Config.extends_answer (s := s) k proc ⟨request, reply⟩ store
  intro id m hdrew hrow
  -- a row that was there before belongs to an identifier drawn before
  have hbefore : ∀ m, (s.store.pastes.find id = some m ∨ ∃ j, s.Did j (.metasGet id) (.ok m)) →
      ∃ m', (s.answer k proc ⟨request, reply⟩ store).Did i (.metasCreate m') (.ok ()) := by
    intro m hrow
    have hdrawn : id ∈ s.store.drawn := by
      rcases hrow with hfind | ⟨j, hget⟩
      · exact horigin.mem_drawn hcovered (horigin.row id m hfind)
      · exact horigin.mem_drawn hcovered (horigin.row_got j id m hget)
    rcases Config.did_answer.mp hdrew with hdrew | ⟨-, heq⟩
    · obtain ⟨m', hinserted⟩ := hknown id m hdrew hrow
      exact ⟨m', hextends.did hinserted⟩
    · rcases lossyExec_drawn hexec with ⟨new, hnew, hfresh, -⟩ | ⟨hother, -⟩
      · cases heq.trans hnew
        exact absurd hdrawn hfresh
      · exact absurd heq.symm (hother id)
  rcases hrow with hfind | ⟨j, hget⟩
  · obtain ⟨out, hpastes, -, hout⟩ := lossyExec_steps hexec
    rcases hpastes.row hfind with ⟨m₀, hinserted⟩ | ⟨m₀, hm, -⟩
    · -- the insert itself: it is thread i's, and its reply is not lost
      cases hinserted.step_eq
      obtain ⟨c, rfl, haccepted, hremaining, htrace, rfl⟩ := call_metasCreate hreach
      have hstored : Stored sys s k c :=
        ⟨hop, haccepted, hremaining, htrace ▸ List.prefix_rfl⟩
      have hid : c.id = id := (c.info_id sys).symm.trans hinserted.id_eq
      have hdrew' : s.Did i .newUUID id := by
        rcases Config.did_answer.mp hdrew with hdrew | ⟨-, ⟨⟩⟩
        exact hdrew
      obtain rfl := horigin.unique k i id (hid ▸ hstored.drew) hdrew'
      rcases hout with rfl | ⟨text, rfl, -⟩
      · exact ⟨_, Config.did_answer.mpr (.inr ⟨rfl, rfl⟩)⟩
      · simp [Heard, losesReply, hpending, inserts_of_step hpastes] at hheard
    · exact hbefore m₀ (.inl hm)
  · rcases Config.did_answer.mp hget with hget | ⟨-, heq⟩
    · exact hbefore m (.inr ⟨j, hget⟩)
    · cases heq
      obtain ⟨plain, hplain⟩ := lossyExec_plain hexec (fun _ => by simp [failure])
      exact hbefore m (.inl (exec_observed hplain))

end Step

theorem putKnown_of_run (hcovered : Covered start)
    (hrun : (lossyMachine sys).Run (Heard isPut i) (.initial start) s) : PutKnown i s := by
  refine hrun.induct .initial ?_ ?_ ?_ ?_
  · intro id entry hdid
    simp [Config.Did, Config.initial] at hdid
  · intro s change store _ hknown _ henv id entry hdrew hentry
    exact hknown id entry hdrew (body_of_lossyEnv henv hentry)
  · intro s op _ hknown _
    exact hknown
  · intro s k op choice request reply store proc hpast hknown hheard _ hpending hreach hexec
    exact hknown.answer (bodyOrigin_of_run hcovered hpast) (rowOrigin_of_run hpast) hheard hpending
      hreach hexec

theorem rowKnown_of_run (hcovered : Covered start)
    (hrun : (lossyMachine sys).Run (Heard inserts i) (.initial start) s) : RowKnown i s := by
  refine hrun.induct .initial ?_ ?_ ?_ ?_
  · intro id m hdid
    simp [Config.Did, Config.initial] at hdid
  · intro s change store _ hknown _ henv id m hdrew hrow
    refine hknown id m hdrew (hrow.imp_left fun hfind => ?_)
    cases change with
    | plain change => cases change <;> cases henv <;> exact hfind
    | loseBody id' => cases henv; exact hfind
  · intro s op _ hknown _
    exact hknown
  · intro s k op choice request reply store proc hpast hknown hheard hop hpending hreach hexec
    exact hknown.answer hcovered (rowOrigin_of_run hpast) hheard hop hpending hreach hexec

/-! ## The trace of a Create -/

/-- What a `Create` that returns an error has not been told, and that it has
tried to remove a body it had put. -/
theorem create_error_trace {d : Deps} {p : Principal} {input : CreateInput} {trace : List Step}
    {err : Err} (hreach : (create d p input).Reaches trace (.inr (.error err))) :
    (∀ event, ⟨.auditRecord event, ()⟩ ∉ trace) ∧ (∀ m, ⟨.metasCreate m, .ok ()⟩ ∉ trace) ∧
      ∀ id record ttl, ⟨.bodiesPut id record ttl, .ok ()⟩ ∈ trace →
        ∃ removed, ⟨.bodiesDelete id, removed⟩ ∈ trace := by
  generalize hpoint : (Sum.inr (Except.error err) : Call ⊕ Except Err CreateResult) = point at hreach
  cases create_point d hreach with
  | rolledBack a haccepted hremaining err removed =>
      refine ⟨?_, ?_, ?_⟩
      · simp [Attempt.storedTrace, Attempt.sealedTrace, Attempt.drawing, Attempt.sealing,
          Attempt.putting]
      · simp [Attempt.storedTrace, Attempt.sealedTrace, Attempt.drawing, Attempt.sealing,
          Attempt.putting]
      · rintro id record ttl hmem
        obtain ⟨rfl, -⟩ : id = a.id ∧ record = a.sealed ∧ ttl = a.remaining d p input := by
          simpa [Attempt.storedTrace, Attempt.sealedTrace, Attempt.drawing, Attempt.sealing,
            Attempt.putting] using hmem
        exact ⟨removed, by simp⟩
  | rejected | sealFailed | late | putFailed =>
      simp [Attempt.sealedTrace, Attempt.drawing, Attempt.sealing, Attempt.putting]
  | _ => cases hpoint

/-- A `Create` removes what it has put. -/
theorem drew_of_rollback {p : Principal} {input : CreateInput}
    (hreach : (program sys (.create p input)).Reaches (s.trace i) (.inl (.bodiesDelete id))) :
    s.Did i .newUUID id := by
  rw [Config.did_iff_mem_trace]
  generalize htrace : s.trace i = trace at hreach
  generalize hop : Op.create p input = op at hreach
  cases call_bodiesDelete hreach with
  | rollback c haccepted hremaining err hid =>
      subst hid
      simp [Creation.storedTrace, Attempt.storedTrace, Attempt.sealedTrace, Attempt.drawing,
        Creation.id]
  | _ => cases hop

/-- What a `Read` returns without an error is about a row it has got. -/
theorem read_ok_got {d : Deps} {p : Option Principal} {password : Bytes} {trace : List Step}
    {res : ReadResult} (hreach : (read d p id password).Reaches trace (.inr (.ok res))) :
    ∃ m, trace.head? = some ⟨.metasGet id, .ok m⟩ := by
  generalize hpoint : (Sum.inr (Except.ok res) : Call ⊕ Except Err ReadResult) = point at hreach
  cases read_point d hreach with
  | lookup | failed => cases hpoint
  | _ => exact ⟨_, rfl⟩

/-- A `Create` draws one identifier. -/
theorem create_place {op : Op} {front : List Step} (hreach : (program sys op).Reaches front
    (.inl .newUUID)) : front.length = 1 := by
  have hmakes := makes_of_reaches hreach
  cases op with
  | create p input =>
      cases create_point sys.deps hreach.of_map with
      | draw canonical haccepted created => rfl
      | recording _ _ hrecord => cases hrecord
  | _ => cases hmakes

/-! ## All or nothing -/

/-- On the way from the start to `s`, thread `i` takes the step from `mid` to
`after`. -/
abbrev Takes (sys : Params) (start : Store) (s : Config) (i : ℕ) (mid : Config)
    (choice : LossyChoice) (after : Config) : Prop :=
  (lossyMachine sys).Takes anyStep (.initial start) s i mid choice after

/-- What thread `i`, whose `Create` has failed, has done.  Its steps leave the metadata
alone but for an `INSERT` whose reply is lost.  Where there is none, the one body it may
have left is stored under an identifier without a row, which nobody has asked for; if no
reply to its put was lost and no removal has failed, it is not there either. -/
structure LeavesNothing (sys : Params) (start : Store) (s : Config) (i : ℕ) : Prop where
  metadata : ∀ mid choice after, Takes sys start s i mid choice after →
    (after.store.pastes = mid.store.pastes ↔ Heard inserts i mid (.advance i choice))
  events : ∀ event, ¬ s.Did i (.auditRecord event) ()
  bodies : ∀ mid choice after, Takes sys start s i mid choice after → ∀ key,
    (∀ id, s.Did i .newUUID id → key ≠ Bodies.bodyKey id) →
      after.store.redis key = mid.store.redis key
  single : ∀ id id', s.Did i .newUUID id → s.Did i .newUUID id' → id = id'
  absent : ∀ id, s.Did i .newUUID id → ∀ mid,
    (lossyMachine sys).Run anyStep (.initial start) mid →
    (lossyMachine sys).Run anyStep mid s →
    (∀ record ttl reply, ¬ mid.Did i (.bodiesPut id record ttl) reply) →
      mid.store.redis (Bodies.bodyKey id) = none
  removed : ∀ id, s.Did i .newUUID id →
    (lossyMachine sys).Run (Heard isPut i) (.initial start) s →
    (∀ err, ¬ s.Did i (.bodiesDelete id) (.error err)) →
      s.store.redis (Bodies.bodyKey id) = none
  unlisted : (lossyMachine sys).Run (Heard inserts i) (.initial start) s →
    ∀ id, s.Did i .newUUID id → s.store.pastes.find id = none ∧
      (∀ j reply, ¬ s.Did j (.bodiesGet id) reply) ∧
      ∀ j p password res, ¬ s.Returned j (.read p id password) (.read (.ok res))

/-- Thread `i` has written the row and a body for what it returns. -/
def HasWritten (sys : Params) (start : Store) (s : Config) (i : ℕ) (info : PasteMeta) : Prop :=
  (∃ mid choice after sealed expireAt, Takes sys start s i mid choice after ∧
      after.store.redis (Bodies.bodyKey info.id) = some ⟨Bodies.marshal sealed, expireAt⟩) ∧
    ∃ mid choice after, Takes sys start s i mid choice after ∧
      after.store.pastes.find info.id = some (storedRow info)

section Failed

variable {p : Principal} {input : CreateInput} {err : Err}

/-- An `INSERT` that is executed shows in the table, whatever is replied. -/
theorem pastes_of_lost_insert {P : Primitives} {request : Call} {reply : request.Reply}
    {store store' : Store} {text : String} (hinserts : inserts store request = true)
    (hexec : lossyExec P store request (.lost text) = some (reply, store')) :
    store'.pastes ≠ store.pastes := by
  cases request with
  | metasCreate m =>
      cases hcreate : store.pastes.create m with
      | error err => simp [inserts, hcreate, Except.isOk, Except.toBool] at hinserts
      | ok pastes =>
          obtain ⟨-, -, hnone, hfind⟩ := Pastes.create_eq_ok hcreate
          have hstore : store'.pastes = pastes := by
            simp only [lossyExec, failure, answer, hcreate, Store.writePastes, Except.map,
              Option.some.injEq, Prod.mk.injEq] at hexec
            rw [← hexec.2]
          intro hsame
          have hrow := hfind m.id
          rw [if_pos rfl, ← hstore, hsame, hnone] at hrow
          cases hrow
  | _ => cases hinserts

theorem leavesNothing_of_error (hcovered : Covered start)
    (hrun : (lossyMachine sys).Run anyStep (.initial start) s)
    (hreturned : s.Returned i (.create p input) (.create (.error err))) :
    LeavesNothing sys start s i := by
  have hwf := hrun.wellFormed .initial
  have horigin := rowOrigin_of_run hrun
  obtain ⟨value, hreach, ⟨⟩⟩ :=
    Proc.reaches_map_result.mp (hwf.reaches_returned hreturned)
  obtain ⟨hevents, hinserted, hputs⟩ := create_error_trace hreach
  simp only [← Config.did_iff_mem_trace] at hevents hinserted hputs
  have hop : ∀ {mid choice after op}, Takes sys start s i mid choice after →
      mid.ops[i]? = some op → op = .create p input := by
    intro mid choice after op htakes hop
    exact Option.some.inj ((htakes.rest.extends.op hop).symm.trans hreturned.1)
  constructor
  case metadata =>
    intro mid choice after htakes
    obtain ⟨op, request, reply, store, proc, hmid, hpending, hpoint, hdid, hexec, rfl⟩ :=
      htakes.did .initial
    cases hop htakes hmid
    change (program sys (.create p input)).Reaches _ _ at hpoint
    have hmakes := makes_of_reaches hpoint
    change lossyExec sys.prims _ _ _ = _ at hexec
    rw [Config.store_answer]
    constructor
    · intro hsame
      cases choice with
      | plain => rfl
      | lost text =>
          by_contra hlost
          refine pastes_of_lost_insert ?_ hexec hsame
          simpa [Heard, losesReply, hpending] using hlost
    · intro hheard
      obtain ⟨out, hpastes, -, hout⟩ := lossyExec_steps hexec
      generalize store.pastes = pastes at hpastes
      cases hpastes with
      | create m _ hcreate =>
          rcases hout with rfl | ⟨text, rfl, -⟩
          · exact absurd hdid (hinserted m)
          · simp [Heard, losesReply, hpending, inserts_of_step (.create m _ hcreate)] at hheard
      | other => rfl
      | _ => cases hmakes
  case events => exact hevents
  case bodies =>
    intro mid choice after htakes key hkey
    obtain ⟨op, request, reply, store, proc, hmid, -, hpoint, hdid, hexec, rfl⟩ :=
      htakes.did .initial
    cases hop htakes hmid
    change (program sys (.create p input)).Reaches _ _ at hpoint
    have hmakes := makes_of_reaches hpoint
    obtain ⟨out, -, hredis, -⟩ := lossyExec_steps hexec
    rw [Config.store_answer]
    generalize store.redis = redis at hredis
    cases hredis with
    | put id' record ttl _ hput =>
        obtain ⟨-, rfl⟩ := Bodies.put_eq_ok_iff.mp hput
        exact Keyspace.set_of_ne _ _ (hkey id' (htakes.rest.extends.did (drew_of_put hpoint)))
    | delete id' =>
        exact Keyspace.del_of_ne _ (hkey id' (htakes.rest.extends.did (drew_of_rollback hpoint)))
    | mark id' ttl first _ hmark => cases hmakes
    | other => rfl
  case single =>
    intro id id' hdid hdid'
    have hplace : ∀ {id}, s.Did i .newUUID id → (s.trace i)[1]? = some ⟨.newUUID, id⟩ := by
      intro id hdid
      obtain ⟨op, front, back, -, htrace, hpoint⟩ := hwf.reaches_of_did hdid
      rw [htrace, List.getElem?_append_right (create_place hpoint).le, create_place hpoint]
      rfl
    cases (hplace hdid).symm.trans (hplace hdid')
    rfl
  case absent =>
    intro id hdrew mid hbefore hafter hnone
    rw [Option.eq_none_iff_forall_ne_some]
    intro entry hentry
    rcases bodyOrigin_of_run hcovered hbefore id entry hentry with
      hold | ⟨j, record, ttl, reply, hdrew', hput⟩
    · exact (horigin.drawn i id hdrew).2 hold
    · obtain rfl := horigin.unique i j id hdrew (hafter.extends.did hdrew')
      exact hnone record ttl reply hput
  case removed =>
    intro id hdrew hkept hcleanup
    rw [Option.eq_none_iff_forall_ne_some]
    intro entry hentry
    obtain ⟨⟨record, ttl, hput⟩, hdelete⟩ := putKnown_of_run hcovered hkept id entry hdrew hentry
    obtain ⟨err | ⟨⟩, hremoved⟩ := hputs id record ttl hput
    · exact hcleanup err hremoved
    · exact hdelete hremoved
  case unlisted =>
    intro hheard id hdrew
    have hnone : ∀ m, ¬ (s.store.pastes.find id = some m ∨ ∃ j, s.Did j (.metasGet id) (.ok m)) := by
      intro m hrow
      obtain ⟨m', hdid⟩ := rowKnown_of_run hcovered hheard id m hdrew hrow
      exact hinserted m' hdid
    refine ⟨?_, ?_, ?_⟩
    · rw [Option.eq_none_iff_forall_ne_some]
      exact fun m hfind => hnone m (.inl hfind)
    · intro j reply hdid
      obtain ⟨op, front, back, -, htrace, hpoint⟩ := hwf.reaches_of_did hdid
      obtain ⟨q, password, m, now, -, -, rfl⟩ := call_bodiesGet hpoint
      refine hnone m (.inr ⟨j, ?_⟩)
      rw [Config.did_iff_mem_trace, htrace]
      simp
    · intro j q password res hread
      obtain ⟨value, hpoint, ⟨⟩⟩ := Proc.reaches_map_result.mp (hwf.reaches_returned hread)
      obtain ⟨m, hhead⟩ := read_ok_got hpoint
      refine hnone m (.inr ⟨j, ?_⟩)
      rw [Config.did_iff_mem_trace]
      exact List.mem_of_mem_head? hhead

theorem hasWritten_of_ok {res : CreateResult}
    (hrun : (lossyMachine sys).Run anyStep (.initial start) s)
    (hreturned : s.Returned i (.create p input) (.create (.ok res))) :
    HasWritten sys start s i res.info := by
  have hwf := hrun.wellFormed .initial
  obtain ⟨value, hreach, ⟨⟩⟩ :=
    Proc.reaches_map_result.mp (hwf.reaches_returned hreturned)
  generalize hpoint : (Sum.inr (Except.ok res) : Call ⊕ Except Err CreateResult) = point at hreach
  generalize htrace : s.trace i = trace at hreach
  have hmoment : ∀ (front back : List Step) (request : Call) (reply : request.Reply),
      trace = front ++ ⟨request, reply⟩ :: back → ∃ mid choice store proc,
        lossyExec sys.prims mid.store request choice = some (reply, store) ∧
        Takes sys start s i mid choice (mid.answer i proc ⟨request, reply⟩ store) := by
    intro front back request reply hsplit
    obtain ⟨mid, choice, store, proc, hbefore, -, -, -, hexec, hact, hafter⟩ :=
      hrun.at_entry front ⟨request, reply⟩ back List.nil_prefix (htrace.trans hsplit)
    exact ⟨mid, choice, store, proc, hexec, hbefore, trivial, hact, hafter⟩
  cases create_point sys.deps hreach with
  | done a haccepted hremaining rest hrecord =>
      cases hpoint
      have hid : (a.info sys.deps p input).id = a.id := Creation.info_id sys ⟨p, input, a⟩
      constructor
      · obtain ⟨mid, choice, store, proc, hexec, htakes⟩ := hmoment (a.sealedTrace sys.deps p input)
          (⟨.metasCreate (a.info sys.deps p input), .ok ()⟩ :: rest) (a.putting sys.deps p input)
          (.ok ()) (by simp [Attempt.storedTrace])
        obtain ⟨out, -, hredis, rfl | ⟨text, -, hfailure⟩⟩ := lossyExec_steps hexec
        · exact ⟨mid, choice, _, a.sealed, _, htakes, hid ▸ hredis.put_body⟩
        · cases hfailure
      · obtain ⟨mid, choice, store, proc, hexec, htakes⟩ := hmoment (a.storedTrace sys.deps p input)
          rest (.metasCreate (a.info sys.deps p input)) (.ok ()) (by simp)
        obtain ⟨out, hpastes, -, rfl | ⟨text, -, hfailure⟩⟩ := lossyExec_steps hexec
        · exact ⟨mid, choice, _, htakes, hpastes.created.2⟩
        · cases hfailure
  | _ => cases hpoint

end Failed

/-- Whatever runs at the same time, fails or is lost: a `Create` that returns an
error has changed the metadata exactly if the reply to its `INSERT` was lost, and
leaves nothing but perhaps an unreachable body if not; one that returns none has
written row and body. -/
theorem create_all_or_nothing (sys : Params) (start : Store) (hcovered : Covered start)
    (s : Config) (hrun : (lossyMachine sys).Run anyStep (.initial start) s) (i : ℕ)
    (p : Principal) (input : CreateInput) :
    (∀ err, s.Returned i (.create p input) (.create (.error err)) → LeavesNothing sys start s i) ∧
      ∀ res, s.Returned i (.create p input) (.create (.ok res)) →
        HasWritten sys start s i res.info :=
  ⟨fun _ hreturned => leavesNothing_of_error hcovered hrun hreturned,
    fun _ hreturned => hasWritten_of_ok hrun hreturned⟩

namespace Sample

/-- A `Create` up to its put. -/
def sealed : List LossyAction :=
  [.invoke (.create owner input), .advance 0 (.plain .ok), .advance 0 (.plain (.uuid Sample.id)),
    .advance 0 (.plain (.sealing .granted Crypto.Sample.draws)), .advance 0 (.plain .ok)]

/-- The put is executed and has its reply lost. -/
def lostPut : List LossyAction := sealed ++ [.advance 0 (.lost "timeout")]

/-- The insert is executed and has its reply lost; the body is removed. -/
def lostInsert : List LossyAction :=
  sealed ++ [.advance 0 (.plain .ok), .advance 0 (.lost "context canceled"),
    .advance 0 (.plain .ok)]

end Sample

/-- The step draws the sample identifier. -/
def Sample.isDraw : Step → Bool
  | ⟨.newUUID, id⟩ => id = Sample.id
  | _ => false

theorem Sample.eq_of_isDraw {step : Step} (hdraw : Sample.isDraw step = true) :
    step = ⟨.newUUID, Sample.id⟩ := by
  unfold Sample.isDraw at hdraw
  split at hdraw
  · rw [of_decide_eq_true hdraw]
  · cases hdraw

/-- The body is left, and no paste is listed under it. -/
theorem create_all_or_nothing_sample :
    ∃ s, (lossyMachine Sample.params).Run anyStep Sample.start s ∧
      s.store.redis (Bodies.bodyKey Sample.id) ≠ none ∧
      s.store.pastes.find Sample.id = none := by
  have hperform : ((lossyMachine Sample.params).perform
      (fun s action => !losesReply inserts 0 s action) Sample.start Sample.lostPut).any (fun s =>
      s.ops[0]? = some (.create Sample.owner Sample.input) &&
      ((s.result? 0).bind Result.createError?).isSome && (s.trace 0).any Sample.isDraw &&
      (s.store.redis (Bodies.bodyKey Sample.id)).isSome) = true := by decide +kernel
  obtain ⟨s, hheard, hs⟩ := Machine.exists_run_of_perform
    (fun (s : Config) (action : LossyAction) h =>
      (Bool.not_eq_true' _).mp h : ∀ s action, _ → Heard inserts 0 s action) hperform
  have hrun : (lossyMachine Sample.params).Run anyStep Sample.start s :=
    hheard.weaken fun _ _ _ => trivial
  simp only [Bool.and_eq_true, decide_eq_true_eq, List.any_eq_true] at hs
  obtain ⟨⟨⟨hop, hresult⟩, step, hmem, hstep⟩, hbody⟩ := hs
  obtain ⟨err, hres⟩ := Option.isSome_iff_exists.mp hresult
  rw [Sample.eq_of_isDraw hstep] at hmem
  have hnothing := (create_all_or_nothing Sample.params _
    (covered_empty 0 Crypto.Sample.envelope) s hrun 0 Sample.owner Sample.input).1 err
    ((s.returned_iff 0 _ _).mpr ⟨hop, Result.bind_createError?.mp hres⟩)
  exact ⟨s, hrun, Option.isSome_iff_ne_none.mp hbody,
    (hnothing.unlisted hheard _ ((s.did_iff_mem_trace 0 _ _).mpr hmem)).1⟩

/-- The `INSERT` is executed while the request is cancelled: `Create` returns an error
and takes the body back, and the paste stays listed without one. -/
theorem lost_insert_leaves_row :
    ∃ s err m, (lossyMachine Sample.params).Run anyStep Sample.start s ∧
      s.Returned 0 (.create Sample.owner Sample.input) (.create (.error err)) ∧
      Sample.start.store.pastes.find Sample.id = none ∧
      s.store.pastes.find Sample.id = some m ∧
      s.store.redis (Bodies.bodyKey Sample.id) = none := by
  have hperform : ((lossyMachine Sample.params).perform (fun _ _ => true) Sample.start
      Sample.lostInsert).any (fun s =>
      s.ops[0]? = some (.create Sample.owner Sample.input) &&
      ((s.result? 0).bind Result.createError?).isSome &&
      (s.store.pastes.find Sample.id).isSome &&
      (s.store.redis (Bodies.bodyKey Sample.id)).isNone) = true := by decide +kernel
  obtain ⟨s, hrun, hs⟩ := Machine.exists_any_run hperform
  simp only [Bool.and_eq_true, decide_eq_true_eq, Option.isNone_iff_eq_none,
    Option.isSome_iff_exists] at hs
  obtain ⟨⟨⟨hop, err, hresult⟩, m, hrow⟩, hbody⟩ := hs
  exact ⟨s, err, m, hrun, (s.returned_iff 0 _ _).mpr ⟨hop, Result.bind_createError?.mp hresult⟩,
    rfl, hrow, hbody⟩

end SecurePastebin.System
