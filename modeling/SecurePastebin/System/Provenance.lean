import SecurePastebin.System.Effects
import SecurePastebin.System.Grammar

/-!
# Where rows and bodies come from

Identifiers are drawn once, so whatever the stores hold under an identifier, and
whatever was ever read under it, goes back to one `Create`.  This is shown over
every interleaving, with any failures and whatever the environment does.
-/

namespace SecurePastebin.System

open Text Uuid Paste Crypto
open SecurePastebin.Store Process Interleaving

/-! ## What a Create has done -/

/-- Thread `i` is this `Create`, and its body was stored. -/
structure Stored (sys : Params) (s : Config) (i : ℕ) (c : Creation) : Prop where
  op : s.ops[i]? = some c.op
  accepted : c.Accepted sys
  remaining : 0 < c.remaining sys
  trace : c.storedTrace sys <+: s.trace i

/-- Its metadata was stored too. -/
structure Listed (sys : Params) (s : Config) (i : ℕ) (c : Creation) : Prop extends
    Stored sys s i c where
  inserted : s.Did i (.metasCreate (c.info sys)) (.ok ())

variable {sys : Params} {s next : Config} {i j : ℕ} {c c' : Creation} {id : UUID}

theorem Stored.mono (hstored : Stored sys s i c) (hextends : s.Extends next) :
    Stored sys next i c :=
  ⟨hextends.op hstored.op, hstored.accepted, hstored.remaining,
    hstored.trace.trans (hextends.trace i)⟩

theorem Listed.mono (hlisted : Listed sys s i c) (hextends : s.Extends next) :
    Listed sys next i c :=
  ⟨hlisted.toStored.mono hextends, hextends.did hlisted.inserted⟩

theorem Creation.drawing_start (sys : Params) (c : Creation) :
    c.attempt.drawing <+: c.sealedTrace sys := List.prefix_append _ _

theorem Creation.sealedTrace_start (sys : Params) (c : Creation) :
    c.sealedTrace sys <+: c.storedTrace sys := List.prefix_append _ _

theorem Stored.drew (hstored : Stored sys s i c) : s.Did i .newUUID c.id := by
  rw [Config.did_iff_mem_trace]
  apply hstored.trace.subset
  apply (c.sealedTrace_start sys).subset
  apply (c.drawing_start sys).subset
  simp [Attempt.drawing, Creation.id]

/-- The replies of a thread's calls and its validated input determine the
`Create`. -/
theorem Creation.eq_of_start {trace : List Step} (hop : c.op = c'.op) (haccepted : c.Accepted sys)
    (haccepted' : c'.Accepted sys) (hpast : c.sealedTrace sys <+: trace)
    (hpast' : c'.sealedTrace sys <+: trace) : c = c' := by
  obtain ⟨p, input, a⟩ := c
  obtain ⟨p', input', a'⟩ := c'
  cases hop
  have hcanonical : a.canonical = a'.canonical := by
    have heq := haccepted.canonical_eq.symm.trans haccepted'.canonical_eq
    exact Except.ok.inj heq
  have htraces : a.sealedTrace sys.deps p input = a'.sealedTrace sys.deps p input :=
    (List.prefix_of_prefix_length_le hpast hpast' le_rfl).eq_of_length rfl
  obtain ⟨canonical, created, id, sealed, later⟩ := a
  obtain ⟨canonical', created', id', sealed', later'⟩ := a'
  cases hcanonical
  simp only [Attempt.sealedTrace, Attempt.drawing, List.cons_append, List.nil_append,
    List.cons.injEq, Sigma.mk.injEq, heq_eq_eq, true_and, and_true] at htraces
  obtain ⟨rfl, rfl, ⟨-, ⟨⟩⟩, rfl⟩ := htraces
  rfl

/-- What a new invocation has not brought about. -/
theorem Stored.of_invoke {op : Op} {proc : Port Result} (hwf : (machine sys).WellFormed s)
    (hstored : Stored sys (s.invoke op proc) i c) : Stored sys s i c := by
  have hlt : i < s.ops.length := hwf.bound _ hstored.drew
  refine ⟨?_, hstored.accepted, hstored.remaining, hstored.trace⟩
  have hop := hstored.op
  rwa [Config.invoke, List.getElem?_append_left hlt] at hop

theorem Stored.of_store {store : Store} (hstored : Stored sys { s with store := store } i c) :
    Stored sys s i c :=
  ⟨hstored.op, hstored.accepted, hstored.remaining, hstored.trace⟩

/-! ## Rows -/

/-- The part of a row that never changes. -/
def core (m : PasteMeta) : PasteMeta :=
  { m with viewCount := 0, expiredAuditedAt := none, deletedAt := none, deletedBy := none }

/-- Rows with the same core agree in every field of it. -/
theorem field_of_core {Field : Type} (field : PasteMeta → Field)
    (hfield : ∀ m, field (core m) = field m) {m m' : PasteMeta} (hcore : core m = core m') :
    field m = field m' := by
  rw [← hfield m, hcore, hfield m']

theorem expiresAt_of_core {m m' : PasteMeta} (hcore : core m = core m') :
    m.expiresAt = m'.expiresAt := field_of_core PasteMeta.expiresAt (fun _ => rfl) hcore

theorem createdAt_of_core {m m' : PasteMeta} (hcore : core m = core m') :
    m.createdAt = m'.createdAt := field_of_core PasteMeta.createdAt (fun _ => rfl) hcore

/-- The row is, counters and marks apart, the one a `Create` stored under `id`. -/
def IsRow (sys : Params) (s : Config) (id : UUID) (m : PasteMeta) : Prop :=
  ∃ i c, Listed sys s i c ∧ c.id = id ∧ core m = core (storedRow (c.info sys))

theorem IsRow.mono {m : PasteMeta} (hrow : IsRow sys s id m) (hextends : s.Extends next) :
    IsRow sys next id m := by
  obtain ⟨i, c, hlisted, hid, hcore⟩ := hrow
  exact ⟨i, c, hlisted.mono hextends, hid, hcore⟩

/-- A new row carries no mark. -/
theorem Creation.storedRow_marks (sys : Params) (c : Creation) :
    (storedRow (c.info sys)).deletedAt = none ∧
      (storedRow (c.info sys)).expiredAuditedAt = none := by
  rw [c.info_eq sys]
  exact ⟨rfl, rfl⟩

theorem RowChange.core_eq {step : Step} {m m' : PasteMeta} (hchange : RowChange step m m') :
    core m' = core m := by
  cases hchange <;> rfl

/-! ## The invariant -/

/-- Everything in the stores, and everything read from them, goes back to a
`Create`. -/
structure Provenance (sys : Params) (s : Config) : Prop where
  drawn : ∀ i id, s.Did i .newUUID id → id ∈ s.store.drawn
  unique : ∀ i j id, s.Did i .newUUID id → s.Did j .newUUID id → i = j
  body : ∀ id entry, s.store.redis (Bodies.bodyKey id) = some entry →
    ∃ i c, Stored sys s i c ∧ c.id = id ∧ entry.value = Bodies.marshal c.attempt.sealed
  row : ∀ id m, s.store.pastes.find id = some m → IsRow sys s id m
  inserted : ∀ i m, s.Did i (.metasCreate m) (.ok ()) →
    (1 ≤ m.ttlSeconds ∧ m.ttlSeconds ≤ 86400) ∧ Utf8.valid m.kekId = true
  body_got : ∀ i id record, s.Did i (.bodiesGet id) (.ok record) →
    ∃ j c, Stored sys s j c ∧ c.id = id ∧
      Bodies.unmarshal (Bodies.marshal c.attempt.sealed) = some record
  row_got : ∀ i id m, s.Did i (.metasGet id) (.ok m) → IsRow sys s id m
  row_listed : ∀ i time limit rows, s.Did i (.metasListExpiredUnaudited time limit) (.ok rows) →
    ∀ m ∈ rows, IsRow sys s m.id m ∧ m.expiresAt ≤ pgTime time ∧ m.deletedAt = none

/-- The identifier tells the `Create`. -/
theorem Provenance.creation_unique (hprov : Provenance sys s) (hstored : Stored sys s i c)
    (hstored' : Stored sys s j c') (hid : c.id = c'.id) : i = j ∧ c = c' := by
  have hthread : i = j := by
    refine hprov.unique i j c.id hstored.drew ?_
    rw [hid]
    exact hstored'.drew
  subst hthread
  have hop : c.op = c'.op := Option.some.inj (hstored.op.symm.trans hstored'.op)
  exact ⟨rfl, Creation.eq_of_start hop hstored.accepted hstored'.accepted
    ((c.sealedTrace_start sys).trans hstored.trace)
    ((c'.sealedTrace_start sys).trans hstored'.trace)⟩

/-- Two rows seen under one identifier agree in all that never changes. -/
theorem Provenance.core_eq (hprov : Provenance sys s) {m m' : PasteMeta} (hrow : IsRow sys s id m)
    (hrow' : IsRow sys s id m') : core m = core m' := by
  obtain ⟨i, c, hlisted, rfl, hcore⟩ := hrow
  obtain ⟨j, c', hlisted', hid, hcore'⟩ := hrow'
  obtain ⟨-, rfl⟩ := hprov.creation_unique hlisted.toStored hlisted'.toStored hid.symm
  rw [hcore, hcore']

theorem provenance_initial (clock : ℤ) (E : Envelope) :
    Provenance sys (.initial (.empty clock E)) := by
  constructor <;> simp [Config.Did, Config.initial, Store.empty]

/-- Nothing but the log and the three stores matters. -/
theorem Provenance.of_store (hprov : Provenance sys s) (hextends : s.Extends next)
    (hlog : next.log = s.log) (hredis : next.store.redis = s.store.redis)
    (hpastes : next.store.pastes = s.store.pastes) (hdrawn : next.store.drawn = s.store.drawn) :
    Provenance sys next where
  drawn i id hdid := by
    rw [hdrawn]
    rw [Config.Did, hlog] at hdid
    exact hprov.drawn i id hdid
  unique i j id hdid hdid' := by
    rw [Config.Did, hlog] at hdid hdid'
    exact hprov.unique i j id hdid hdid'
  body id entry hentry := by
    rw [hredis] at hentry
    obtain ⟨i, c, hstored, hid, hvalue⟩ := hprov.body id entry hentry
    exact ⟨i, c, hstored.mono hextends, hid, hvalue⟩
  row id m hfind := by
    rw [hpastes] at hfind
    exact (hprov.row id m hfind).mono hextends
  inserted i m hdid := by
    rw [Config.Did, hlog] at hdid
    exact hprov.inserted i m hdid
  body_got i id record hdid := by
    rw [Config.Did, hlog] at hdid
    obtain ⟨j, c, hstored, hid, hvalue⟩ := hprov.body_got i id record hdid
    exact ⟨j, c, hstored.mono hextends, hid, hvalue⟩
  row_got i id m hdid := by
    rw [Config.Did, hlog] at hdid
    exact (hprov.row_got i id m hdid).mono hextends
  row_listed i time limit rows hdid m hm := by
    rw [Config.Did, hlog] at hdid
    obtain ⟨hrow, hlisted⟩ := hprov.row_listed i time limit rows hdid m hm
    exact ⟨hrow.mono hextends, hlisted⟩

section

variable {op : Op} {request : Call} {reply : request.Reply} {choice : Choice}
  (proc : Port Result) (store : Store)

/-- The thread that stores a body has then stored it. -/
theorem stored_answer_put {record : EncryptedBody} {ttl : ℤ} (hop : s.ops[i]? = some op)
    (hreach : (program sys op).Reaches (s.trace i) (.inl (.bodiesPut id record ttl))) :
    ∃ c, Stored sys (s.answer i proc ⟨.bodiesPut id record ttl, .ok ()⟩ store) i c ∧ c.id = id ∧
      c.attempt.sealed = record ∧ c.remaining sys = ttl ∧ s.trace i = c.sealedTrace sys := by
  obtain ⟨c, rfl, haccepted, hremaining, htrace, rfl, rfl, rfl⟩ := call_bodiesPut hreach
  refine ⟨c, ⟨hop, haccepted, hremaining, ?_⟩, rfl, rfl, rfl, htrace⟩
  rw [Config.trace_answer_self, htrace]
  exact List.prefix_rfl

/-- The thread that inserts a row has then listed its paste. -/
theorem RowInserted.creation {row m : PasteMeta} (hop : s.ops[i]? = some op)
    (hreach : (program sys op).Reaches (s.trace i) (.inl request))
    (hinserted : RowInserted s.store ⟨request, reply⟩ id row m) :
    ∃ c, Listed sys (s.answer i proc ⟨request, reply⟩ store) i c ∧ c.id = id ∧ m = c.info sys ∧
      row = storedRow (c.info sys) ∧ s.trace i = c.storedTrace sys := by
  cases hinserted.step_eq
  obtain ⟨c, rfl, haccepted, hremaining, htrace, hinfo⟩ := call_metasCreate hreach
  refine ⟨c, ⟨⟨hop, haccepted, hremaining, ?_⟩, ?_⟩, ?_, hinfo, ?_, htrace⟩
  · rw [Config.trace_answer_self, htrace]
    exact List.prefix_append _ _
  · rw [Config.did_answer, ← hinfo]
    exact .inr ⟨rfl, rfl⟩
  · rw [← c.info_id sys, ← hinfo, hinserted.id_eq]
  · rw [hinserted.row_eq, hinfo]

variable {proc store}

theorem Provenance.answer (hprov : Provenance sys s) (hop : s.ops[i]? = some op)
    (hreach : (program sys op).Reaches (s.trace i) (.inl request))
    (hexec : exec sys.prims s.store request choice = some (reply, store)) :
    Provenance sys (s.answer i proc ⟨request, reply⟩ store) := by
  have hextends : s.Extends (s.answer i proc ⟨request, reply⟩ store) :=
    Config.extends_answer i proc _ store
  have hobserved := exec_observed hexec
  constructor
  case drawn =>
    intro j id hdid
    rw [Config.store_answer]
    rw [Config.did_answer] at hdid
    rcases exec_drawn hexec with ⟨new, hstep, hdrawn⟩ | ⟨hother, hdrawn⟩
    · rw [hdrawn, List.mem_cons]
      rcases hdid with hdid | ⟨-, heq⟩
      · exact .inr (hprov.drawn j id hdid)
      · cases heq.trans hstep
        exact .inl rfl
    · rw [hdrawn]
      rcases hdid with hdid | ⟨-, heq⟩
      · exact hprov.drawn j id hdid
      · exact absurd heq.symm (hother id)
  case unique =>
    intro j k id hdid hdid'
    rw [Config.did_answer] at hdid hdid'
    rcases hdid with hdid | ⟨rfl, heq⟩ <;> rcases hdid' with hdid' | ⟨rfl, heq'⟩
    · exact hprov.unique j k id hdid hdid'
    · rw [← heq'] at hobserved
      exact absurd (hprov.drawn j id hdid) hobserved
    · rw [← heq] at hobserved
      exact absurd (hprov.drawn k id hdid') hobserved
    · rfl
  case body =>
    intro id entry hentry
    rcases (exec_redis hexec).body hentry with ⟨record, ttl, hstep, rfl⟩ | ⟨hentry, -⟩
    · cases hstep
      obtain ⟨c, hstored, hid, hrecord, -⟩ := stored_answer_put proc store hop hreach
      exact ⟨i, c, hstored, hid, by rw [hrecord]⟩
    · obtain ⟨j, c, hstored, hid, hvalue⟩ := hprov.body id entry hentry
      exact ⟨j, c, hstored.mono hextends, hid, hvalue⟩
  case row =>
    intro id m hfind
    rcases (exec_pastes hexec).row hfind with ⟨m', hinserted⟩ | ⟨m', hfind, hchange⟩
    · obtain ⟨c, hlisted, hid, -, rfl, -⟩ := hinserted.creation proc store hop hreach
      exact ⟨i, c, hlisted, hid, rfl⟩
    · obtain ⟨j, c, hlisted, hid, hcore⟩ := hprov.row id m' hfind
      exact ⟨j, c, hlisted.mono hextends, hid, hchange.core_eq.trans hcore⟩
  case inserted =>
    intro j m hdid
    rcases Config.did_answer.mp hdid with hdid | ⟨-, heq⟩
    · exact hprov.inserted j m hdid
    · cases heq
      exact (exec_pastes hexec).created.1
  case body_got =>
    intro j id record hdid
    rw [Config.did_answer] at hdid
    have hfound : ∃ k c, Stored sys s k c ∧ c.id = id ∧
        Bodies.unmarshal (Bodies.marshal c.attempt.sealed) = some record := by
      rcases hdid with hdid | ⟨-, heq⟩
      · exact hprov.body_got j id record hdid
      · rw [← heq] at hobserved
        obtain ⟨entry, hentry, -, hrecord⟩ := Bodies.get_eq_ok_iff.mp hobserved
        obtain ⟨k, c, hstored, hid, hvalue⟩ := hprov.body id entry hentry
        exact ⟨k, c, hstored, hid, by rw [← hvalue, hrecord]⟩
    obtain ⟨k, c, hstored, hid, hrecord⟩ := hfound
    exact ⟨k, c, hstored.mono hextends, hid, hrecord⟩
  case row_got =>
    intro j id m hdid
    rw [Config.did_answer] at hdid
    refine IsRow.mono ?_ hextends
    rcases hdid with hdid | ⟨-, heq⟩
    · exact hprov.row_got j id m hdid
    · rw [← heq] at hobserved
      exact hprov.row id m hobserved
  case row_listed =>
    intro j time limit rows hdid m hm
    rcases Config.did_answer.mp hdid with hdid | ⟨-, heq⟩
    · obtain ⟨hrow, hlisted⟩ := hprov.row_listed j time limit rows hdid m hm
      exact ⟨hrow.mono hextends, hlisted⟩
    · rw [← heq] at hobserved
      subst hobserved
      obtain ⟨hfind, hexpired, hdeleted, -⟩ := Pastes.of_mem_listExpiredUnaudited hm
      exact ⟨(hprov.row m.id m hfind).mono hextends, hexpired, hdeleted⟩

/-- A thread past its draw has drawn its own identifier. -/
theorem Provenance.thread_unique (hprov : Provenance sys s) (htrace : c.sealedTrace sys <+: s.trace i)
    (hstored : Stored sys s j c') (hid : c.id = c'.id) : i = j := by
  refine hprov.unique i j c.id ?_ (hid ▸ hstored.drew)
  rw [Config.did_iff_mem_trace]
  apply htrace.subset
  simp [Creation.sealedTrace, Attempt.sealedTrace, Attempt.drawing, Creation.id]

/-- No body is put under an identifier that had one. -/
theorem Provenance.put_once {record : EncryptedBody} {ttl : ℤ} (hprov : Provenance sys s)
    (hreach : (program sys op).Reaches (s.trace i) (.inl (.bodiesPut id record ttl)))
    (hstored : Stored sys s j c) (hid : c.id = id) : False := by
  obtain ⟨c', -, -, -, htrace, hid', -, -⟩ := call_bodiesPut hreach
  have hpast : c'.sealedTrace sys <+: s.trace i := by rw [htrace]
  obtain rfl := hprov.thread_unique hpast hstored (hid'.symm.trans hid.symm)
  have hlength := hstored.trace.length_le
  rw [htrace] at hlength
  simp [Creation.storedTrace, Attempt.storedTrace, Creation.sealedTrace, Attempt.sealedTrace,
    Attempt.drawing] at hlength

/-- No row is inserted under an identifier that had one. -/
theorem Provenance.insert_once {m : PasteMeta} (hprov : Provenance sys s)
    (hreach : (program sys op).Reaches (s.trace i) (.inl (.metasCreate m)))
    (hlisted : Listed sys s j c) (hid : c.id = m.id) : False := by
  obtain ⟨c', -, -, -, htrace, rfl⟩ := call_metasCreate hreach
  rw [c'.info_id] at hid
  have hpast : c'.sealedTrace sys <+: s.trace i := by
    rw [htrace]
    exact c'.sealedTrace_start sys
  obtain rfl := hprov.thread_unique hpast hlisted.toStored hid.symm
  have hdid := hlisted.inserted
  rw [Config.did_iff_mem_trace, htrace] at hdid
  simp [Creation.storedTrace, Attempt.storedTrace, Attempt.sealedTrace, Attempt.drawing,
    Attempt.sealing, Attempt.putting] at hdid

/-- A paste whose body is stored had it stored before the last step, or that step
was its put. -/
theorem stored_before {k : ℕ}
    (hstored : Stored sys (s.answer k proc ⟨request, reply⟩ store) i c) :
    Stored sys s i c ∨ i = k ∧ s.trace i = c.sealedTrace sys ∧
      (⟨request, reply⟩ : Step) =
        ⟨.bodiesPut c.id c.attempt.sealed (c.remaining sys), .ok ()⟩ := by
  have htrace := hstored.trace
  by_cases hik : i = k
  · subst hik
    rw [Config.trace_answer_self, List.prefix_concat_iff] at htrace
    rcases htrace with heq | hpast
    · obtain ⟨hfront, hlast⟩ := List.append_inj' heq rfl
      exact .inr ⟨rfl, hfront.symm, (List.singleton_inj.mp hlast).symm⟩
    · exact .inl ⟨hstored.op, hstored.accepted, hstored.remaining, hpast⟩
  · rw [Config.trace_answer_of_ne s hik] at htrace
    exact .inl ⟨hstored.op, hstored.accepted, hstored.remaining, htrace⟩

/-- A listed paste was listed before the last step, or that step was its
insert. -/
theorem Provenance.listed_before {k : ℕ} (hprov : Provenance sys s) (hop : s.ops[k]? = some op)
    (hreach : (program sys op).Reaches (s.trace k) (.inl request))
    (hlisted : Listed sys (s.answer k proc ⟨request, reply⟩ store) i c) :
    Listed sys s i c ∨ Stored sys s i c ∧ s.trace i = c.storedTrace sys ∧
      (⟨request, reply⟩ : Step) = ⟨.metasCreate (c.info sys), .ok ()⟩ := by
  have hdid := hlisted.inserted
  rw [Config.did_answer] at hdid
  rcases stored_before hlisted.toStored with hstored | ⟨rfl, htrace, hstep⟩
  · rcases hdid with hdid | ⟨rfl, heq⟩
    · exact .inl ⟨hstored, hdid⟩
    · cases heq
      obtain ⟨c', rfl, haccepted, hremaining, htrace, hinfo⟩ := call_metasCreate hreach
      have hstored' : Stored sys s i c' :=
        ⟨hop, haccepted, hremaining, htrace ▸ List.prefix_rfl⟩
      have hid : c.id = c'.id := by rw [← c.info_id sys, hinfo, c'.info_id]
      obtain ⟨-, rfl⟩ := hprov.creation_unique hstored hstored' hid
      exact .inr ⟨hstored, htrace, rfl⟩
  · rcases hdid with hdid | ⟨-, heq⟩
    · rw [Config.did_iff_mem_trace, htrace] at hdid
      simp [Creation.sealedTrace, Attempt.sealedTrace, Attempt.drawing, Attempt.sealing] at hdid
    · cases heq.trans hstep

end

/-- Every run keeps it, whatever is allowed to happen. -/
theorem provenance_of_run {allowed : Config → Action → Prop} {clock : ℤ} {E : Envelope}
    (hrun : (machine sys).Run allowed (.initial (.empty clock E)) s) :
    Provenance sys s := by
  refine hrun.induct .initial (provenance_initial clock E) ?_ ?_ ?_
  · intro s change store _ hprov _ henv
    cases change <;> cases henv <;>
      exact hprov.of_store (Config.extends_store _) rfl rfl rfl rfl
  · intro s op _ hprov _
    exact hprov.of_store (Config.extends_invoke op _) rfl rfl rfl rfl
  · intro s i op choice request reply store proc _ hprov _ hop _ hreach hexec
    exact hprov.answer hop hreach hexec

end SecurePastebin.System
