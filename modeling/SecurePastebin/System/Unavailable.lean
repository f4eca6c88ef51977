import SecurePastebin.System.Availability

/-!
# When Read reports a lost body

`Read` takes a body that is missing before the expiry of its row as lost.  It is
also missing when a `Delete` has removed it and not yet, or too late for this
`Read`, marked the row, and when Redis, given whole milliseconds, has dropped it
in the last millisecond.  Without these two no body is ever reported as lost,
whatever calls fail.
-/

namespace SecurePastebin.System

open Text Uuid Calendar Paste
open Crypto SecurePastebin.Store Process Interleaving

variable {sys : Params} {s next : Config} {i j k : ℕ} {id : UUID} {clock : ℤ} {E : Envelope}
  {c : Creation} {allowed : Config → Action → Prop}

/-! ## Lookups that cannot mislead -/

/-- A `Delete` of the paste has removed its body. -/
def removedByDelete (s : Config) (id : UUID) : Bool :=
  s.log.any fun entry =>
    match s.ops[entry.1]?, entry.2 with
    | some (.delete _ id'), ⟨.bodiesDelete id'', .ok _⟩ => id' = id && id'' = id
    | _, _ => false

/-- Redis has dropped the body, and the row the thread has read is not past its
expiry. -/
def droppedEarly (s : Config) (i : ℕ) (id : UUID) : Bool :=
  match s.trace i, s.store.redis (Bodies.bodyKey id) with
  | ⟨.metasGet _, .ok m⟩ :: _, some entry =>
      !decide (Keyspace.Alive (millis s.store.clock) (millis entry.expireAt)) &&
        s.store.clock < m.expiresAt
  | _, _ => false

/-- A thread looks for a body only while no `Delete` has removed it and Redis has
not dropped it early. -/
def isFairLookup (s : Config) : Action → Bool
  | .advance i _ =>
      match s.pending? i with
      | some (.bodiesGet id) => !removedByDelete s id && !droppedEarly s i id
      | _ => true
  | _ => true

theorem removedByDelete_of_did {p : Principal} (hop : s.ops[k]? = some (.delete p id))
    (hdid : s.Did k (.bodiesDelete id) (.ok ())) : removedByDelete s id = true := by
  apply List.any_eq_true.mpr
  refine ⟨_, hdid, ?_⟩
  simp [hop]

theorem removedByDelete_of_extends (hextends : s.Extends next)
    (hremoved : removedByDelete next id = false) : removedByDelete s id = false := by
  rw [← Bool.not_eq_true] at hremoved ⊢
  intro hbefore
  apply hremoved
  obtain ⟨⟨k, step⟩, hmem, hentry⟩ := List.any_eq_true.mp hbefore
  apply List.any_eq_true.mpr
  refine ⟨_, hextends.log.subset hmem, ?_⟩
  dsimp only at hentry ⊢
  cases hop : s.ops[k]? with
  | none => simp [hop] at hentry
  | some op =>
      rw [hextends.op hop]
      rwa [hop] at hentry

/-! ## Bodies stay -/

/-- The body of a paste is there until a `Delete` removes it or the row
expires. -/
def BodyStays (sys : Params) (s : Config) : Prop :=
  ∀ i c, Stored sys s i c → Listed sys s i c ∨ s.trace i = c.storedTrace sys →
    removedByDelete s c.id = false →
    (∃ entry, s.store.redis (Bodies.bodyKey c.id) = some entry) ∨
      pgTime (c.info sys).expiresAt ≤ s.store.clock

section

variable {op : Op} {request : Call} {reply : request.Reply} {store : Store} {choice : Choice}
  {proc : Port Result}

theorem BodyStays.answer (hstays : BodyStays sys s)
    (hforward : ∀ s action, allowed s action → ClockForward s action)
    (hrun : (machine sys).Run allowed (.initial (.empty clock E)) s)
    (hop : s.ops[k]? = some op) (hreach : (program sys op).Reaches (s.trace k) (.inl request))
    (hexec : exec sys.prims s.store request choice = some (reply, store)) :
    BodyStays sys (s.answer k proc ⟨request, reply⟩ store) := by
  intro i c hstored hpoint hremoved
  have hprov := provenance_of_run hrun
  have hextends := Config.extends_answer (s := s) k proc ⟨request, reply⟩ store
  rw [Config.store_answer, (exec_clock_envelope hexec).1]
  rcases stored_before hstored with hbefore | ⟨rfl, -, hstep⟩
  · have hpoint' := point_before hprov hop hreach hbefore hpoint
    have hremoved' := removedByDelete_of_extends hextends hremoved
    by_cases hexpired : pgTime (c.info sys).expiresAt ≤ s.store.clock
    · exact .inr hexpired
    · obtain ⟨entry, hentry⟩ := (hstays i c hbefore hpoint' hremoved').resolve_right hexpired
      refine .inl ⟨entry, (exec_redis hexec).keeps_body hentry ?_ ?_⟩
      · intro record ttl hstep
        cases hstep
        exact hprov.put_once hreach hbefore rfl
      · intro hstep
        cases hstep
        -- only a Delete removes it now, and then the step shows in the log
        obtain ⟨p, rfl⟩ :=
          (removal_cases hforward hrun hbefore hpoint' hop hreach).resolve_right hexpired
        rw [removedByDelete_of_did (hextends.op hop)
          (Config.did_answer.mpr (.inr ⟨rfl, rfl⟩))] at hremoved
        cases hremoved
  · cases hstep
    exact .inl ⟨_, (exec_redis hexec).put_body⟩

end

theorem bodyStays_of_run (hforward : ∀ s action, allowed s action → ClockForward s action)
    (hrun : (machine sys).Run allowed (.initial (.empty clock E)) s) :
    BodyStays sys s := by
  refine hrun.induct .initial ?_ ?_ ?_ ?_
  · intro i c hstored
    simpa [Config.initial] using hstored.op
  · intro s change store _ hstays hallowed henv i c hstored hpoint hremoved
    have hclock : s.store.clock ≤ store.clock := env_clock hforward hallowed henv
    have hredis : store.redis = s.store.redis := by
      cases change <;> cases henv <;> rfl
    have hpoint' := hpoint.imp_left fun hlisted =>
      (⟨hlisted.toStored.of_store, hlisted.inserted⟩ : Listed sys s i c)
    rcases hstays i c hstored.of_store hpoint' hremoved with hbody | hexpired
    · exact .inl (hredis ▸ hbody)
    · exact .inr (hexpired.trans hclock)
  · intro s op hpast hstays _ i c hstored hpoint hremoved
    have hwf := hpast.wellFormed .initial
    have hpoint' := hpoint.imp_left fun hlisted =>
      (⟨hlisted.toStored.of_invoke hwf, hlisted.inserted⟩ : Listed sys s i c)
    exact hstays i c (hstored.of_invoke hwf) hpoint'
      (removedByDelete_of_extends (Config.extends_invoke op _) hremoved)
  · intro s i op choice request reply store proc hpast hstays _ hop _ hreach hexec
    exact hstays.answer hforward hpast hop hreach hexec

/-! ## What a Read that found no body knows -/

/-- A `Read` that found no body looked after the expiry of its row, and reads
only later times from then on. -/
def MissingLate (s : Config) : Prop :=
  ∀ j id m now err rest,
    s.trace j = ⟨.metasGet id, .ok m⟩ :: ⟨.now, now⟩ :: ⟨.bodiesGet id, .error err⟩ :: rest →
    Err.is .notFound err = true →
    m.expiresAt ≤ s.store.clock ∧ ∀ time : ℤ, ⟨.now, time⟩ ∈ rest → m.expiresAt ≤ time

section

variable {op : Op} {request : Call} {reply : request.Reply} {store : Store} {choice : Choice}
  {proc : Port Result}

/-- A fair lookup that finds nothing comes after the expiry. -/
theorem expired_of_missing {m : PasteMeta} {now : ℤ} {err : Err}
    {reply : Except Err EncryptedBody} (hstays : BodyStays sys s) (hprov : Provenance sys s)
    (hfair : isFairLookup s (.advance j choice) = true)
    (hpending : s.pending? j = some (.bodiesGet id))
    (htrace : s.trace j = [⟨.metasGet id, .ok m⟩, ⟨.now, now⟩])
    (hexec : exec sys.prims s.store (.bodiesGet id) choice = some (reply, store))
    (hreply : reply = .error err) (herr : Err.is .notFound err = true) :
    m.expiresAt ≤ s.store.clock := by
  subst hreply
  simp only [isFairLookup, hpending, Bool.and_eq_true, Bool.not_eq_true'] at hfair
  obtain ⟨hremoved, hdropped⟩ := hfair
  have hget : s.Did j (.metasGet id) (.ok m) :=
    Config.did_of_trace htrace (by simp)
  obtain ⟨i, c, hlisted, rfl, hcore⟩ := hprov.row_got j id m hget
  have hnone := (Bodies.get_eq_notFound_iff (exec_observed hexec herr)).mp herr
  rcases hstays i c hlisted.toStored (.inl hlisted) hremoved with ⟨entry, hentry⟩ | hexpired
  · have hdead := Keyspace.find_eq_none_iff.mp hnone entry hentry
    simpa [droppedEarly, htrace, hentry, hdead] using hdropped
  · rw [expiresAt_of_core hcore]
    exact hexpired

theorem MissingLate.answer (hlate : MissingLate s) (hstays : BodyStays sys s)
    (hprov : Provenance sys s) (hfair : isFairLookup s (.advance k choice) = true)
    (hpending : s.pending? k = some request)
    (hreach : (program sys op).Reaches (s.trace k) (.inl request))
    (hexec : exec sys.prims s.store request choice = some (reply, store)) :
    MissingLate (s.answer k proc ⟨request, reply⟩ store) := by
  intro j id m now err rest htrace herr
  rw [Config.store_answer, (exec_clock_envelope hexec).1]
  by_cases hjk : j = k
  · subst hjk
    rw [Config.trace_answer_self] at htrace
    rcases List.eq_nil_or_concat rest with rfl | ⟨front, last, rfl⟩
    · -- this step is the lookup itself
      have hsplit : s.trace j ++ [⟨request, reply⟩] =
          [⟨.metasGet id, .ok m⟩, ⟨.now, now⟩] ++ [⟨.bodiesGet id, .error err⟩] := htrace
      obtain ⟨hfront, hlast⟩ := List.append_inj' hsplit rfl
      cases List.singleton_inj.mp hlast
      refine ⟨expired_of_missing hstays hprov hfair hpending hfront hexec rfl herr, ?_⟩
      intro time hmem
      cases hmem
    · rw [List.concat_eq_append] at htrace ⊢
      have hsplit : s.trace j ++ [⟨request, reply⟩] =
          (⟨.metasGet id, .ok m⟩ :: ⟨.now, now⟩ :: ⟨.bodiesGet id, .error err⟩ :: front) ++
            [last] := htrace
      obtain ⟨hfront, hlast⟩ := List.append_inj' hsplit rfl
      obtain ⟨hclock, hreadings⟩ := hlate j id m now err front hfront herr
      refine ⟨hclock, ?_⟩
      intro time hmem
      rw [List.mem_append, List.mem_singleton] at hmem
      rcases hmem with hmem | hmem
      · exact hreadings time hmem
      · have hobserved := exec_observed hexec
        rw [List.singleton_inj.mp hlast, ← hmem] at hobserved
        exact hobserved ▸ hclock
  · rw [Config.trace_answer_of_ne s hjk] at htrace
    exact hlate j id m now err rest htrace herr

end

theorem missingLate_of_run (hforward : ∀ s action, allowed s action → ClockForward s action)
    (hfair : ∀ s action, allowed s action → isFairLookup s action = true)
    (hrun : (machine sys).Run allowed (.initial (.empty clock E)) s) :
    MissingLate s := by
  refine hrun.induct .initial ?_ ?_ ?_ ?_
  · intro j id m now err rest htrace
    cases htrace
  · intro s change store _ hlate hallowed henv j id m now err rest htrace herr
    obtain ⟨hclock, hreadings⟩ := hlate j id m now err rest htrace herr
    exact ⟨hclock.trans (env_clock hforward hallowed henv), hreadings⟩
  · intro s op _ hlate _
    exact hlate
  · intro s i op choice request reply store proc hpast hlate hallowed hop hpending hreach hexec
    exact hlate.answer (bodyStays_of_run hforward hpast) (provenance_of_run hpast)
      (hfair s _ hallowed) hpending hreach hexec

/-- Such a `Read` never gets to the point where it reports the body as lost. -/
theorem MissingLate.not_missing (hlate : MissingLate s) {m : PasteMeta} {now rechecked : ℤ}
    {err : Err} {rest : List Step} (herr : Err.is .notFound err = true)
    (hlive : rechecked < m.expiresAt)
    (htrace : s.trace j = readChecks id m now (.error err) rechecked ++ rest) : False := by
  have hreadings := (hlate j id m now err (⟨.now, rechecked⟩ :: rest) htrace herr).2
  have hexpired := hreadings rechecked List.mem_cons_self
  omega

theorem MissingLate.status (hlate : MissingLate s) (hwf : (machine sys).WellFormed s)
    {q : Option Principal} {password : Bytes} {res : ReadResult}
    (hreturned : s.Returned j (.read q id password) (.read (.ok res))) :
    res.status ≠ .unavailable := by
  obtain ⟨value, hreach, ⟨⟩⟩ :=
    Proc.reaches_map_result.mp (hwf.reaches_returned hreturned)
  have hactive : ∀ m now, m.status now = .active → (readResult m now).status ≠ .unavailable := by
    intro m now hstatus
    simp [readResult, hstatus]
  generalize htrace : s.trace j = trace at hreach
  cases read_point sys.deps hreach with
  | inactive m now hstatus =>
      -- the metadata alone never yields this status
      simp only [readResult, PasteMeta.status]
      split <;> [simp; split <;> simp]
  | lateBody => simp
  | missing _ herr hlive _ =>
      exact (hlate.not_missing herr hlive htrace).elim
  | locked m now hstatus sealed rechecked hlive hlocked => exact hactive m now hstatus
  | @releasing m now hstatus _ _ _ _ _ _ _ hrelease =>
      cases hrelease with
      | released => exact hactive m now hstatus
      | _ => simp

theorem MissingLate.kind (hlate : MissingLate s) (hwf : (machine sys).WellFormed s) {event : Event}
    (hmem : event ∈ events s) : event.kind ≠ .pasteUnavailable := by
  obtain ⟨k, hdid⟩ := mem_events.mp hmem
  obtain ⟨op, front, back, hop, htrace, hreach⟩ := hwf.reaches_of_did hdid
  intro hkind
  obtain ⟨_, _, _, _, _, _, _, _, rfl, -, herr, hlive, rfl⟩ := call_pasteUnavailable hkind hreach
  exact hlate.not_missing herr hlive (htrace.trans (List.append_assoc ..))

/-- With a clock that does not run backwards and fair lookups, whatever calls
fail, no `Read` reports a body as lost and no such event is recorded. -/
theorem no_false_unavailable (sys : Params) (clock : ℤ) (E : Envelope) (s : Config)
    (hrun : (machine sys).Run (fun s action => ClockForward s action ∧ isFairLookup s action = true)
      (.initial (.empty clock E)) s) :
    (∀ j q id password res, s.Returned j (.read q id password) (.read (.ok res)) →
      res.status ≠ .unavailable) ∧
    ∀ event ∈ events s, event.kind ≠ .pasteUnavailable := by
  have hlate := missingLate_of_run (fun _ _ h => h.1) (fun _ _ h => h.2) hrun
  have hwf := hrun.wellFormed .initial
  exact ⟨fun j q id password res hreturned => hlate.status hwf hreturned,
    fun event hmem => hlate.kind hwf hmem⟩

/-- A `Delete` removes the body between the two lookups of a `Read`; nothing
fails, and the `Read` reports the body as lost. -/
theorem unavailable_during_delete :
    ∃ s res, (machine Sample.params).Run
        (fun s action => ClockForward s action ∧ NoFailure action) Sample.start s ∧
      s.Returned 1 (.read none Sample.id []) (.read (.ok res)) ∧ res.status = .unavailable ∧
      ∃ event ∈ events s, event.kind = .pasteUnavailable ∧ event.pasteId = some Sample.id := by
  have hperform : ((machine Sample.params).perform
      (fun s action => decide (ClockForward s action ∧ NoFailure action)) Sample.start
      (Sample.creating ++ .invoke (.read none Sample.id []) :: Sample.calls 1 1 ++
        .invoke (.delete Sample.owner Sample.id) :: Sample.calls 2 3 ++
        Sample.calls 1 6)).any (fun s =>
      s.ops[1]? = some (.read none Sample.id []) &&
      (events s).any (fun event =>
        event.kind = .pasteUnavailable && event.pasteId = some Sample.id) &&
      ((s.result? 1).bind Result.readOk?).any fun res =>
        decide (res.status = .unavailable)) = true := by decide +kernel
  obtain ⟨s, hrun, hs⟩ := Machine.exists_decided_run hperform
  simp only [Bool.and_eq_true, decide_eq_true_eq, List.any_eq_true, Option.any_eq_true,
    Result.bind_readOk?] at hs
  obtain ⟨⟨hop, hevent⟩, res, hres, hstatus⟩ := hs
  exact ⟨s, res, hrun, (s.returned_iff 1 _ _).mpr ⟨hop, hres⟩, hstatus, hevent⟩

/-- The sample paste is created and read, with a fair lookup. -/
theorem no_false_unavailable_sample :
    ∃ s res, (machine Sample.params).Run
        (fun s action => ClockForward s action ∧ isFairLookup s action = true) Sample.start s ∧
      s.Returned 1 (.read none Sample.id []) (.read (.ok res)) ∧ res.status ≠ .unavailable ∧
      ∀ event ∈ events s, event.kind ≠ .pasteUnavailable := by
  have hperform : ((machine Sample.params).perform
      (fun s action => decide (ClockForward s action ∧ isFairLookup s action = true)) Sample.start
      (Sample.creating ++ .invoke (.read none Sample.id []) :: Sample.calls 1 4 ++
        [.advance 1 (.opening .granted)] ++ Sample.calls 1 6)).any (fun s =>
      s.ops[1]? = some (.read none Sample.id []) &&
      ((s.result? 1).bind Result.readOk?).isSome) = true := by decide +kernel
  obtain ⟨s, hrun, hs⟩ := Machine.exists_decided_run hperform
  simp only [Bool.and_eq_true, decide_eq_true_eq] at hs
  obtain ⟨hop, hs⟩ := hs
  obtain ⟨res, hres⟩ := Option.isSome_iff_exists.mp hs
  have hreturned := (s.returned_iff 1 _ _).mpr ⟨hop, Result.bind_readOk?.mp hres⟩
  obtain ⟨hstatus, hkinds⟩ := no_false_unavailable Sample.params 0 Crypto.Sample.envelope s hrun
  exact ⟨s, res, hrun, hreturned, hstatus 1 none Sample.id [] res hreturned, hkinds⟩

end SecurePastebin.System
