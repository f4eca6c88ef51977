import SecurePastebin.Session.Machine

/-!
# Session deadlines

In every state of every interleaving the key of a session expires no later than
the session's absolute expiry and no later than the idle deadline of the call
that last set it; a record keeps what its `Create` wrote, and a lookup gives
that session back.
-/

namespace SecurePastebin.Session

open Text Uuid Calendar
open Process Interleaving Auth

variable {start s mid next last : Config} {i j : ℕ} {key id : Bytes} {clock : ℤ}

/-! ## Where the scripts are called from -/

/-- A `Create` that is about to store `sess`. -/
structure Storing (op : Op) (trace : List Step) (sess : Session)
    (idleTTL absoluteTTL deadline : ℤ) : Prop where
  op_eq : op = .create sess.userId idleTTL absoluteTTL
  head : (repliesTo .now trace).head? = some sess.createdAt
  expiry : sess.absoluteExpiry = sess.createdAt + absoluteTTL
  positive : 0 < absoluteTTL
  deadline_eq : sessionDeadline idleTTL sess.absoluteExpiry sess.createdAt = .ok deadline
  drawn : draws sess <:+ trace

variable {op : Op} {record : Record} {kind : Store → Call → Prop} {sess : Session}

theorem createSession_point {trace : List Step} {milli : ℤ}
    (hreach : (machine.program op).Reaches trace (.inl (.createSession key record milli))) :
    ∃ sess idleTTL absoluteTTL deadline, Storing op trace sess idleTTL absoluteTTL deadline ∧
      Call.createSession key record milli = createCall sess deadline := by
  cases op with
  | create userId idleTTL absoluteTTL =>
      have hpoint := create_reaches hreach
      cases hpoint with
      | @attempt now deadline httl hdeadline tail _ hallocate =>
          obtain ⟨sess, hsess, hdraws, hcall⟩ := hallocate.script_inv
          refine ⟨sess, idleTTL, absoluteTTL, deadline, ⟨?_, ?_, ?_, httl, ?_, ?_⟩, hcall⟩
          · rw [hsess]
            rfl
          · rw [hsess]
            rfl
          · rw [hsess]
            rfl
          · rw [hsess]
            exact hdeadline
          · exact hdraws.trans (List.suffix_cons _ _)
  | get id => cases get_reaches hreach
  | touch id idleTTL =>
      cases touch_reaches hreach with
      | reading httl hget => cases hget
  | delete id => cases delete_reaches hreach

/-- A `Touch` that is about to move the deadline of the session it found. -/
structure Touching (op : Op) (trace : List Step) (id : Bytes) (idleTTL : ℤ) (record : Record)
    (sess : Session) (now deadline : ℤ) : Prop where
  op_eq : op = .touch id idleTTL
  decoded : decodeRecord id record = .ok sess
  last : (repliesTo .now trace).getLast? = some now
  deadline_eq : sessionDeadline idleTTL sess.absoluteExpiry now = .ok deadline

theorem touchSession_point {trace : List Step} {absExp : Bytes} {milli : ℤ}
    (hreach : (machine.program op).Reaches trace (.inl (.touchSession key absExp milli))) :
    ∃ id idleTTL record sess now deadline,
      Touching op trace id idleTTL record sess now deadline ∧
        Call.touchSession key absExp milli = touchCall id record deadline := by
  cases op with
  | create userId idleTTL absoluteTTL =>
      cases create_reaches hreach with
      | attempt httl hdeadline hallocate =>
          obtain hcall | hcall | ⟨_, hcall⟩ | ⟨_, hcall⟩ := hallocate.call_cases <;> cases hcall
  | get id => cases get_reaches hreach
  | touch id idleTTL =>
      have hpoint := touch_reaches hreach
      generalize hrequest : Call.touchSession key absExp milli = request at hpoint
      cases hpoint with
      | reading httl hget => cases hget <;> cases hrequest
      | @script httl record sess time now deadline hget hdeadline =>
          obtain ⟨_, _, hsteps, -, hdecode, -⟩ := hget.eq_foundSteps
          cases hsteps
          exact ⟨id, idleTTL, record, sess, now, deadline, ⟨rfl, hdecode, rfl, hdeadline⟩, rfl⟩
      | _ => cases hrequest
  | delete id => cases delete_reaches hreach

/-! ## The last step of a kind -/

/-- The action executes a call of the given kind. -/
def Performs (kind : Store → Call → Prop) (s : Config) : Action → Prop
  | .advance i choice => choice.executes = true ∧
      ∃ request, s.pending? i = some request ∧ kind s.store request
  | _ => False

/-- In state `mid` thread `i` executes `request`, a call of the given kind, and
no later step executes one. -/
structure LastBy (kind : Store → Call → Prop) (start s mid : Config) (i : ℕ)
    (request : Call) : Prop where
  before : machine.Run anyStep start mid
  pending : mid.pending? i = some request
  is_kind : kind mid.store request
  after : ∃ choice next, choice.executes = true ∧
    machine.act mid (.advance i choice) = some next ∧
      machine.Run (fun s action => ¬ Performs kind s action) next s

theorem none_or_lastBy (hrun : machine.Run anyStep start s) (kind : Store → Call → Prop) :
    machine.Run (fun s action => ¬ Performs kind s action) start s ∨
      ∃ mid i request, LastBy kind start s mid i request := by
  rcases hrun.last_step (Performs kind) with
    hnone | ⟨mid, action, next, hbefore, -, hkind, hact, hafter⟩
  · exact .inl (hnone.weaken fun _ _ h => h.2)
  · cases action with
    | env | invoke => cases hkind
    | advance i choice =>
        obtain ⟨hexecutes, request, hpending, his⟩ := hkind
        exact .inr ⟨mid, i, request, hbefore, hpending, his, choice, next, hexecutes, hact,
          hafter.weaken fun _ _ h => h.2⟩

/-- What the steps of one kind alone can change about a key is unchanged along a
run without such steps. -/
theorem kept_of_run {Fact : Type} (fact : Keyspace.Entry Record → Fact)
    (hstep : ∀ {store next : Store} {request : Call} {reply : request.Reply} {choice : Choice}
      {entry : Keyspace.Entry Record}, exec store request choice = some (reply, next) →
      ¬ (choice.executes = true ∧ kind store request) → next.keys key = some entry →
      ∃ before, store.keys key = some before ∧ fact before = fact entry)
    (hrun : machine.Run (fun s action => ¬ Performs kind s action) mid last)
    {entry : Keyspace.Entry Record} (hentry : last.store.keys key = some entry) :
    ∃ before, mid.store.keys key = some before ∧ fact before = fact entry := by
  induction hrun generalizing entry with
  | refl => exact ⟨entry, hentry, rfl⟩
  | @tail found next action _ hnot hact ih =>
      rcases Machine.act_cases hact with ⟨change, store, rfl, henv, rfl⟩ | ⟨op, rfl, rfl⟩ |
        ⟨i, choice, request, rest, reply, store, rfl, hproc, hexec, rfl⟩
      · cases henv
        exact ih hentry
      · exact ih hentry
      · have hrequest : ¬ (choice.executes = true ∧ kind found.store request) := fun h =>
          hnot ⟨h.1, request, by rw [Config.pending?, hproc], h.2⟩
        obtain ⟨before, hbefore, hfact⟩ := hstep hexec hrequest hentry
        obtain ⟨first, hfirst, hsame⟩ := ih hbefore
        exact ⟨first, hfirst, hsame.trans hfact⟩

/-! ## Creating and touching a key -/

/-- Executing the call stores a new record under `key`. -/
def Creates (key : Bytes) (store : Store) : Call → Prop
  | .createSession other _ deadline =>
      other = key ∧ store.find key = none ∧ store.clock < deadline * millisecond
  | _ => False

/-- Executing the call gives the record under `key` a deadline. -/
def SetsDeadline (key : Bytes) (store : Store) : Call → Prop
  | .touchSession other absExp deadline =>
      other = key ∧ (∃ entry, store.find key = some entry ∧ entry.value.absExp = absExp) ∧
        store.clock < deadline * millisecond
  | request => Creates key store request

variable {store after : Store} {request : Call} {reply : request.Reply} {choice : Choice}
  {entry : Keyspace.Entry Record}

theorem value_before (hexec : exec store request choice = some (reply, after))
    (hnot : ¬ (choice.executes = true ∧ Creates key store request))
    (hentry : after.keys key = some entry) :
    ∃ before, store.keys key = some before ∧ before.value = entry.value := by
  rcases exec_key hexec key with hkept | ⟨hexecutes, heffect⟩
  · exact ⟨entry, hkept ▸ hentry, rfl⟩
  · generalize after.keys key = left at heffect hentry
    cases heffect with
    | kept => exact ⟨entry, hentry, rfl⟩
    | created record habsent hahead => exact absurd ⟨hexecutes, rfl, habsent, hahead⟩ hnot
    | touched hfound hahead =>
        cases hentry
        exact ⟨_, (Keyspace.find_eq_some_iff.mp hfound).1, rfl⟩
    | _ => cases hentry

theorem entry_before (hexec : exec store request choice = some (reply, after))
    (hnot : ¬ (choice.executes = true ∧ SetsDeadline key store request))
    (hentry : after.keys key = some entry) :
    ∃ before, store.keys key = some before ∧ before = entry := by
  rcases exec_key hexec key with hkept | ⟨hexecutes, heffect⟩
  · exact ⟨entry, hkept ▸ hentry, rfl⟩
  · generalize after.keys key = left at heffect hentry
    cases heffect with
    | kept => exact ⟨entry, hentry, rfl⟩
    | created record habsent hahead => exact absurd ⟨hexecutes, rfl, habsent, hahead⟩ hnot
    | touched hfound hahead =>
        exact absurd ⟨hexecutes, rfl, ⟨_, hfound, rfl⟩, hahead⟩ hnot
    | _ => cases hentry

/-- What an executed call that creates a record leaves, and what it replies. -/
theorem creates_effect {deadline : ℤ} {reply : Except Err ℤ}
    (hcreates : Creates key store (.createSession key record deadline))
    (hexec : exec store (.createSession key record deadline) choice = some (reply, after))
    (hexecutes : choice.executes = true) :
    after.keys key = some ⟨record, deadline * millisecond⟩ ∧
      ∀ created, reply = .ok created → created = 1 := by
  obtain ⟨-, habsent, hahead⟩ := hcreates
  have habsent' : store.keys.find store.clock key = none := habsent
  have hscript : createSessionScript store.keys store.clock key record deadline =
      (1, store.keys.set key ⟨record, deadline * millisecond⟩) := by
    rw [createSessionScript, habsent', if_neg (by simp), if_neg (not_le.mpr hahead)]
  constructor
  · rw [exec_store hexec, if_pos hexecutes]
    simp only [effect, hscript, Keyspace.set_self]
  · intro created hcreated
    have hobserved := exec_observed hexec created hcreated
    rw [hobserved, hscript]

theorem touches_effect {absExp : Bytes} {deadline : ℤ} {reply : Except Err ℤ}
    (hsets : SetsDeadline key store (.touchSession key absExp deadline))
    (hexec : exec store (.touchSession key absExp deadline) choice = some (reply, after))
    (hexecutes : choice.executes = true) :
    ∃ entry, store.find key = some entry ∧ entry.value.absExp = absExp ∧
      after.keys key = some ⟨entry.value, deadline * millisecond⟩ := by
  obtain ⟨-, ⟨entry, hfound, habs⟩, hahead⟩ := hsets
  have hfound' : store.keys.find store.clock key = some entry := hfound
  refine ⟨entry, hfound, habs, ?_⟩
  rw [exec_store hexec, if_pos hexecutes]
  simp only [effect, touchSessionScript, hfound', habs, ne_eq, not_true_eq_false, if_false,
    if_neg (not_le.mpr hahead), Keyspace.set_self]

theorem LastBy.step (hlast : LastBy kind start s mid i request) :
    ∃ choice reply store proc, choice.executes = true ∧
      exec mid.store request choice = some (reply, store) ∧
      machine.Run (fun s action => ¬ Performs kind s action)
        (mid.answer i proc ⟨request, reply⟩ store) s := by
  obtain ⟨choice, next, hexecutes, hact, hafter⟩ := hlast.after
  obtain ⟨reply, store, proc, hexec, rfl⟩ := Machine.act_advance hact hlast.pending
  exact ⟨choice, reply, store, proc, hexecutes, hexec, hafter⟩

/-! ## The origin of a record -/

/-- Thread `i`, a `Create`, stored the record of `sess`, and no `Create` has
stored one under its identifier since. -/
def CreatedBy (start s : Config) (i : ℕ) (sess : Session) : Prop :=
  ∃ mid op idleTTL absoluteTTL deadline,
    LastBy (Creates (sessKey sess.id)) start s mid i (createCall sess deadline) ∧
      mid.ops[i]? = some op ∧ Storing op (mid.trace i) sess idleTTL absoluteTTL deadline

theorem not_stored_initially
    (hstep : ∀ {store next : Store} {request : Call} {reply : request.Reply} {choice : Choice}
      {entry : Keyspace.Entry Record}, exec store request choice = some (reply, next) →
      ¬ (choice.executes = true ∧ kind store request) → next.keys key = some entry →
      ∃ before, store.keys key = some before ∧ before.value = entry.value)
    (hrun : machine.Run (fun s action => ¬ Performs kind s action)
      (Config.initial (.empty clock)) s) : s.store.keys key = none := by
  rw [Option.eq_none_iff_forall_ne_some]
  intro entry hentry
  obtain ⟨before, hbefore, -⟩ := kept_of_run (·.value) hstep hrun hentry
  cases hbefore

theorem createdBy_of_entry (hrun : machine.Run anyStep (.initial (.empty clock)) s)
    (hentry : s.store.keys (sessKey id) = some entry) :
    ∃ i sess, CreatedBy (Config.initial (.empty clock)) s i sess ∧ sess.id = id ∧
      entry.value = encodeRecord sess := by
  rcases none_or_lastBy hrun (Creates (sessKey id)) with hnone | ⟨mid, i, request, hlast⟩
  · rw [not_stored_initially value_before hnone] at hentry
    cases hentry
  · obtain ⟨choice, reply, store, proc, hexecutes, hexec, hafter⟩ := hlast.step
    obtain ⟨op, hop, hreach⟩ :=
      (hlast.before.wellFormed .initial).reaches_pending hlast.pending
    have hkind := hlast.is_kind
    cases request with
    | createSession key record milli =>
        obtain rfl := hkind.1
        obtain ⟨sess, idleTTL, absoluteTTL, deadline, hstoring, hcall⟩ :=
          createSession_point hreach
        have hcall' := hcall
        simp only [createCall, Call.createSession.injEq, sessKey_injective.eq_iff] at hcall'
        obtain ⟨rfl, rfl, -⟩ := hcall'
        obtain ⟨before, hbefore, hvalue⟩ :=
          kept_of_run (·.value) value_before hafter hentry
        rw [Config.store_answer, (creates_effect hkind hexec hexecutes).1] at hbefore
        cases hbefore
        exact ⟨i, sess, ⟨mid, op, idleTTL, absoluteTTL, deadline, hcall ▸ hlast, hop, hstoring⟩,
          rfl, hvalue.symm⟩
    | _ => cases hkind

/-- The creation time and the absolute expiry of every session survive being
stored. -/
def InRange (s : Config) : Prop :=
  ∀ i userId idleTTL absoluteTTL now, s.ops[i]? = some (.create userId idleTTL absoluteTTL) →
    0 < absoluteTTL → (repliesTo .now (s.trace i)).head? = some now →
    Representable now ∧ Representable (now + absoluteTTL)

theorem InRange.of_extends (hrange : InRange last) (hextends : s.Extends last) : InRange s :=
  fun i userId idleTTL absoluteTTL now hop hpositive hhead =>
    hrange i userId idleTTL absoluteTTL now (hextends.op hop) hpositive
      (head?_repliesTo_of_isPrefix (hextends.trace i) hhead)

theorem Storing.inRange {idleTTL absoluteTTL deadline : ℤ}
    (hstoring : Storing op (s.trace i) sess idleTTL absoluteTTL deadline)
    (hop : s.ops[i]? = some op) (hrange : InRange s) :
    Representable sess.createdAt ∧ Representable sess.absoluteExpiry := by
  rw [hstoring.expiry]
  exact hrange i _ _ _ _ (hop.trans (congrArg some hstoring.op_eq)) hstoring.positive hstoring.head

theorem LastBy.extends (hlast : LastBy kind start s mid i request) :
    mid.Extends s := by
  obtain ⟨choice, reply, store, proc, -, -, hafter⟩ := hlast.step
  exact (Config.extends_answer ..).trans hafter.extends

theorem CreatedBy.inRange (hcreated : CreatedBy start s i sess)
    (hrange : InRange s) : Representable sess.createdAt ∧ Representable sess.absoluteExpiry := by
  obtain ⟨mid, op, idleTTL, absoluteTTL, deadline, hlast, hop, hstoring⟩ := hcreated
  exact hstoring.inRange hop (hrange.of_extends hlast.extends)

theorem CreatedBy.order (hcreated : CreatedBy start s i sess) :
    sess.createdAt < sess.absoluteExpiry := by
  obtain ⟨mid, op, idleTTL, absoluteTTL, deadline, -, -, hstoring⟩ := hcreated
  have hexpiry := hstoring.expiry
  have hpositive := hstoring.positive
  omega

/-! ## The deadline of a key -/

/-- The idle time to live a call is given. -/
def Op.idleTTL : Op → Option ℤ
  | .create _ idleTTL _ => some idleTTL
  | .touch _ idleTTL => some idleTTL
  | _ => none

/-- The clock reading a call computes its deadline from: the first of `Create`,
the last before the script of `Touch`. -/
def Op.reading (op : Op) (trace : List Step) : Option ℤ :=
  match op with
  | .create .. => (repliesTo .now trace).head?
  | _ => (repliesTo .now trace).getLast?

/-- The call that last gave `key` a deadline computed it from `reading` and
`idleTTL`. -/
def SetFrom (start s : Config) (key : Bytes) (reading idleTTL : ℤ) : Prop :=
  ∃ mid i request op, LastBy (SetsDeadline key) start s mid i request ∧ mid.ops[i]? = some op ∧
    op.reading (mid.trace i) = some reading ∧ op.idleTTL = some idleTTL

theorem setFrom_of_entry (hrun : machine.Run anyStep (.initial (.empty clock)) s)
    (hrange : InRange s) (hentry : s.store.keys key = some entry) :
    ∃ reading idleTTL absoluteExpiry, SetFrom (Config.initial (.empty clock)) s key reading idleTTL ∧
      entry.expireAt ≤ reading + idleTTL ∧
      decodeSessionTime entry.value.absExp = some absoluteExpiry ∧
      entry.expireAt ≤ absoluteExpiry := by
  rcases none_or_lastBy hrun (SetsDeadline key) with hnone | ⟨mid, i, request, hlast⟩
  · rw [not_stored_initially (fun hexec hnot hentry =>
      let ⟨before, hbefore, hsame⟩ := entry_before hexec hnot hentry
      ⟨before, hbefore, hsame ▸ rfl⟩) hnone] at hentry
    cases hentry
  · obtain ⟨choice, reply, store, proc, hexecutes, hexec, hafter⟩ := hlast.step
    obtain ⟨op, hop, hreach⟩ :=
      (hlast.before.wellFormed .initial).reaches_pending hlast.pending
    obtain ⟨before, hbefore, hsame⟩ := kept_of_run id entry_before hafter hentry
    obtain rfl : before = entry := hsame
    rw [Config.store_answer] at hbefore
    have hkind := hlast.is_kind
    cases request with
    | createSession other record milli =>
        obtain rfl := hkind.1
        obtain ⟨sess, idleTTL, absoluteTTL, deadline, hstoring, hcall⟩ :=
          createSession_point hreach
        rw [(creates_effect hkind hexec hexecutes).1] at hbefore
        cases hbefore
        simp only [createCall, Call.createSession.injEq] at hcall
        obtain ⟨rfl, rfl, rfl⟩ := hcall
        obtain ⟨hmilli, hidle, habs⟩ := sessionDeadline_bounds hstoring.deadline_eq
        have hstored := (hstoring.inRange hop (hrange.of_extends hlast.extends)).2
        refine ⟨sess.createdAt, idleTTL, sess.absoluteExpiry, ⟨mid, i, _, op, hlast, hop, ?_, ?_⟩,
          ?_, decodeSessionTime_encode hstored, ?_⟩
        · rw [hstoring.op_eq]
          exact hstoring.head
        · rw [hstoring.op_eq]
          rfl
        · exact hmilli.trans_le hidle
        · exact hmilli.trans_le habs
    | touchSession other absExp milli =>
        obtain rfl := hkind.1
        obtain ⟨found, idleTTL, record, sess, now, deadline, htouching, hcall⟩ :=
          touchSession_point hreach
        obtain ⟨current, hcurrent, habsExp, hset⟩ := touches_effect hkind hexec hexecutes
        rw [hset] at hbefore
        cases hbefore
        simp only [touchCall, Call.touchSession.injEq] at hcall
        obtain ⟨rfl, rfl, rfl⟩ := hcall
        obtain ⟨hmilli, hidle, habs⟩ := sessionDeadline_bounds htouching.deadline_eq
        refine ⟨now, idleTTL, sess.absoluteExpiry, ⟨mid, i, _, op, hlast, hop, ?_, ?_⟩, ?_, ?_, ?_⟩
        · rw [htouching.op_eq]
          exact htouching.last
        · rw [htouching.op_eq]
          rfl
        · exact hmilli.trans_le hidle
        · rw [habsExp]
          exact (decodeRecord_eq_ok htouching.decoded).2
        · exact hmilli.trans_le habs
    | _ => cases hkind

/-! ## Reading a session back -/

theorem valid_of_drawn (hrun : machine.Run anyStep (.initial (.empty clock)) s)
    {token : Bytes} (hdid : s.Did i .randomToken token) : validSessionToken token = true := by
  revert i token
  refine hrun.induct (motive := fun s => ∀ {i : ℕ} {token : Bytes}, s.Did i .randomToken token →
    validSessionToken token = true) .initial ?_ ?_ ?_ ?_
  · intro i token hdid
    simp [Config.Did, Config.initial] at hdid
  · intro s change store _ hvalid _ _ i token hdid
    exact hvalid hdid
  · intro s op _ hvalid _ i token hdid
    exact hvalid hdid
  · intro s i op choice request reply store proc _ hvalid _ _ _ _ hexec j token hdid
    rcases Config.did_answer.mp hdid with hdid | ⟨-, heq⟩
    · exact hvalid hdid
    · have hobserved := exec_observed hexec
      rw [← heq] at hobserved
      exact hobserved

/-- A stored session is read back as it was. -/
theorem CreatedBy.decode (hcreated : CreatedBy (Config.initial (.empty clock)) s i sess)
    (hrange : InRange s) : decodeRecord sess.id (encodeRecord sess) = .ok sess := by
  obtain ⟨hcreatedAt, habs⟩ := hcreated.inRange hrange
  refine decodeRecord_encodeRecord hcreatedAt habs hcreated.order ?_
  obtain ⟨mid, op, idleTTL, absoluteTTL, deadline, hlast, -, hstoring⟩ := hcreated
  refine valid_of_drawn (i := i) hlast.before ?_
  rw [Config.did_iff_mem_trace]
  exact hstoring.drawn.subset (by simp [draws])

/-- A `Create` that stored a record returns that session or an error. -/
theorem CreatedBy.eq_of_returned {sess found : Session} (hwf : machine.WellFormed last)
    (hcreated : CreatedBy start s i sess) (hextends : s.Extends last)
    (hreturned : last.Returned i op (.session (.ok found))) : found = sess := by
  obtain ⟨mid, op', idleTTL, absoluteTTL, deadline, hlast, hop, hstoring⟩ := hcreated
  obtain ⟨choice, reply, store, proc, hexecutes, hexec, hafter⟩ := hlast.step
  have hmid : (mid.answer i proc ⟨createCall sess deadline, reply⟩ store).Extends last :=
    hafter.extends.trans hextends
  have hmem : (⟨createCall sess deadline, reply⟩ : Step) ∈ last.trace i :=
    (hmid.trace i).subset (by simp)
  have hhead : (repliesTo .now (last.trace i)).head? = some sess.createdAt :=
    head?_repliesTo_of_isPrefix (((Config.extends_answer ..).trans hmid).trace i) hstoring.head
  have hops : last.ops[i]? = some op' := hmid.op hop
  obtain rfl : op = op' := Option.some.inj (hreturned.1.symm.trans hops)
  have hreach := hwf.reaches_returned hreturned
  rw [hstoring.op_eq] at hreach
  generalize htrace : last.trace i = trace at hreach hmem hhead
  cases create_returns hreach with
  | @attempt now deadline' httl hdeadline tail _ hallocate =>
      have hnow : now = sess.createdAt := by simpa [repliesTo] using hhead
      have htail : (⟨createCall sess deadline, reply⟩ : Step) ∈ tail := by
        rcases List.mem_cons.mp hmem with heq | htail
        · cases congrArg Sigma.fst heq
        · exact htail
      have hcall : createCall sess deadline = createCall found deadline' := by
        rcases hallocate.ok_inv htail with ⟨created, hreply, hne⟩ | hcall
        · exact absurd ((creates_effect hlast.is_kind hexec hexecutes).2 created hreply) hne
        · exact hcall
      have hfound := hallocate.ok_candidate
      simp only [createCall, encodeRecord, Call.createSession.injEq, sessKey_injective.eq_iff,
        Record.mk.injEq] at hcall
      rw [hfound, candidate, hnow, ← hstoring.expiry, ← hcall.1, ← hcall.2.1.2.2.2]

/-- The lookup of thread `i` saw the record that thread `k` stored for `sess`. -/
def LookedUp (start s : Config) (i : ℕ) (sess : Session) (k : ℕ) : Prop :=
  ∃ mid, machine.Run anyStep start mid ∧ machine.Run anyStep mid s ∧
    mid.pending? i = some (.hGetAll (sessKey sess.id)) ∧ CreatedBy start mid k sess

/-- A lookup that found a record it can read found the session of some
`Create`. -/
theorem lookedUp_of_trace (hrun : machine.Run anyStep (.initial (.empty clock)) s)
    (hrange : InRange s) {back : List Step}
    (htrace : s.trace i = ⟨.hGetAll (sessKey id), .ok (some record)⟩ :: back)
    (hdecode : decodeRecord id record = .ok sess) :
    ∃ k, LookedUp (Config.initial (.empty clock)) s i sess k ∧
      ∀ op found, s.Returned k op (.session (.ok found)) → found = sess := by
  obtain ⟨mid, choice, store, proc, hbefore, hallowed, -, hpending, hexec, hact, hafter⟩ :=
    hrun.at_entry [] _ back (by simp [Config.trace, Config.initial]) htrace
  have hlater : machine.Run anyStep mid s := (Machine.Run.tail .refl hallowed hact).trans hafter
  have hobserved := exec_observed hexec _ rfl
  obtain ⟨entry, hfound, rfl⟩ := Option.map_eq_some_iff.mp hobserved.symm
  obtain ⟨k, stored, hcreated, rfl, hvalue⟩ :=
    createdBy_of_entry hbefore (Keyspace.find_eq_some_iff.mp hfound).1
  have hmid := hrange.of_extends hlater.extends
  rw [hvalue, hcreated.decode hmid] at hdecode
  cases hdecode
  refine ⟨k, ⟨mid, hbefore, hlater, hpending, hcreated⟩, ?_⟩
  intro op found hreturned
  exact hcreated.eq_of_returned (hrun.wellFormed .initial) hlater.extends
    hreturned

/-- In every state of every interleaving: a session's key expires no later than
its absolute expiry and no later than the idle deadline of the call that last
set it; its record is the one its `Create` stored; a lookup or touch that
succeeds has last read a time before the absolute expiry; and a successful
lookup returns the session that `Create` returned. -/
theorem session_deadlines (hrun : machine.Run anyStep (.initial (.empty clock)) s)
    (hrange : InRange s) :
    (∀ id entry, s.store.keys (sessKey id) = some entry →
      (∃ i sess, CreatedBy (Config.initial (.empty clock)) s i sess ∧ sess.id = id ∧
        entry.value = encodeRecord sess ∧ entry.expireAt ≤ sess.absoluteExpiry) ∧
      ∃ reading idleTTL, SetFrom (Config.initial (.empty clock)) s (sessKey id) reading idleTTL ∧
        entry.expireAt ≤ reading + idleTTL) ∧
    (∀ mid id before entry,
      machine.Run (fun s action => ¬ Performs (Creates (sessKey id)) s action) mid s →
      mid.store.keys (sessKey id) = some before → s.store.keys (sessKey id) = some entry →
      entry.value = before.value) ∧
    (∀ i id sess, s.Returned i (.get id) (.session (.ok sess)) →
      (∃ time, (repliesTo .now (s.trace i)).getLast? = some time ∧ time < sess.absoluteExpiry) ∧
      sess.id = id ∧ ∃ k, LookedUp (Config.initial (.empty clock)) s i sess k ∧
        ∀ op found, s.Returned k op (.session (.ok found)) → found = sess) ∧
    (∀ i id idleTTL, s.Returned i (.touch id idleTTL) (.done (.ok ())) →
      ∃ sess k time, LookedUp (Config.initial (.empty clock)) s i sess k ∧ sess.id = id ∧
        (repliesTo .now (s.trace i)).getLast? = some time ∧ time < sess.absoluteExpiry) := by
  have hwf := hrun.wellFormed .initial
  refine ⟨?_, ?_, ?_, ?_⟩
  · intro id entry hentry
    obtain ⟨i, sess, hcreated, hid, hvalue⟩ := createdBy_of_entry hrun hentry
    obtain ⟨reading, idleTTL, absoluteExpiry, hset, hidle, hdecode, habs⟩ :=
      setFrom_of_entry hrun hrange hentry
    rw [hvalue, encodeRecord, decodeSessionTime_encode (hcreated.inRange hrange).2] at hdecode
    cases hdecode
    exact ⟨⟨i, sess, hcreated, hid, hvalue, habs⟩, reading, idleTTL, hset, hidle⟩
  · intro mid id before entry hlater hbefore hentry
    obtain ⟨first, hfirst, hvalue⟩ := kept_of_run (·.value) value_before hlater hentry
    rw [hbefore] at hfirst
    cases hfirst
    exact hvalue.symm
  · intro i id sess hreturned
    obtain ⟨raw, hpoint, heq⟩ := get_returns (hwf.reaches_returned hreturned)
    generalize htrace : s.trace i = trace at hpoint
    cases hpoint with
    | @found hid record stored time hdecode hlive =>
        cases heq
        obtain ⟨k, hlooked, hsame⟩ := lookedUp_of_trace hrun hrange htrace hdecode
        exact ⟨⟨time, rfl, hlive⟩, (decodeRecord_eq_ok hdecode).1, k, hlooked, hsame⟩
    | _ => cases heq
  · intro i id idleTTL hreturned
    have hpoint := touch_returns (hwf.reaches_returned hreturned)
    generalize htrace : s.trace i = trace at hpoint
    cases hpoint with
    | @done httl record sess time now deadline last hget hdeadline hearly =>
        obtain ⟨_, _, hsteps, -, hdecode, -⟩ := hget.eq_foundSteps
        cases hsteps
        obtain ⟨k, hlooked, -⟩ := lookedUp_of_trace hrun hrange htrace hdecode
        have habs := (sessionDeadline_bounds hdeadline).2.2
        exact ⟨sess, k, last, hlooked, (decodeRecord_eq_ok hdecode).1, rfl, hearly.trans_le habs⟩

/-- `InRange`, checked thread by thread. -/
def inRange (s : Config) : Bool :=
  (List.range s.ops.length).all fun i =>
    match s.ops[i]?, (repliesTo .now (s.trace i)).head? with
    | some (.create _ _ absoluteTTL), some now =>
        decide (Representable now ∧ Representable (now + absoluteTTL))
    | _, _ => true

theorem inRange_sound (hcheck : inRange s = true) : InRange s := by
  intro i userId idleTTL absoluteTTL now hop _ hhead
  have hlt : i < s.ops.length := (List.getElem?_eq_some_iff.mp hop).1
  have hread := List.all_eq_true.mp hcheck i (List.mem_range.mpr hlt)
  rw [hop, hhead] at hread
  exact of_decide_eq_true hread

/-- A session is created with an idle time of thirty minutes, touched twenty
minutes later, and looked up after another twenty. -/
theorem session_deadlines_sample :
    ∃ s sess entry reading idleTTL, machine.Run anyStep Sample.start s ∧ InRange s ∧
      s.Returned 1 (.touch Sample.id (1800 * second)) (.done (.ok ())) ∧
      s.Returned 2 (.get Sample.id) (.session (.ok sess)) ∧ sess.id = Sample.id ∧
      s.store.keys (sessKey Sample.id) = some entry ∧
      SetFrom Sample.start s (sessKey Sample.id) reading idleTTL ∧
      entry.expireAt ≤ reading + idleTTL := by
  have hperform : (machine.perform (fun _ _ => true) Sample.start
      (Sample.storing 0 (1800 * second) (12 * hour) ++ Sample.calls 0 1 ++
        .env 1200000000000 :: .invoke (.touch Sample.id (1800 * second)) :: Sample.calls 1 5 ++
        .env 1200000000000 :: .invoke (.get Sample.id) :: Sample.calls 2 2)).any (fun s =>
      inRange s && s.ops[1]? = some (.touch Sample.id (1800 * second)) &&
      s.result? 1 = some (.done (.ok ())) && s.ops[2]? = some (.get Sample.id) &&
      (s.store.keys (sessKey Sample.id)).isSome &&
      ((s.result? 2).bind Result.sessionOk?).isSome) = true := by decide +kernel
  obtain ⟨s, hrun, hs⟩ := Machine.exists_any_run hperform
  simp only [Bool.and_eq_true, decide_eq_true_eq] at hs
  obtain ⟨⟨⟨⟨⟨hcheck, htouch⟩, htouched⟩, hget⟩, hkey⟩, hs⟩ := hs
  obtain ⟨sess, hfound⟩ := Option.isSome_iff_exists.mp hs
  have hrange := inRange_sound hcheck
  have hreturned := (s.returned_iff 2 _ _).mpr ⟨hget, Result.bind_sessionOk?.mp hfound⟩
  obtain ⟨entry, hentry⟩ := Option.isSome_iff_exists.mp hkey
  obtain ⟨hkeys, -, hgets, -⟩ := session_deadlines hrun hrange
  obtain ⟨-, reading, idleTTL, hset, hidle⟩ := hkeys _ entry hentry
  exact ⟨s, sess, entry, reading, idleTTL, hrun, hrange,
    (s.returned_iff 1 _ _).mpr ⟨htouch, htouched⟩, hreturned, (hgets 2 _ sess hreturned).2.1,
    hentry, hset, hidle⟩

end SecurePastebin.Session
