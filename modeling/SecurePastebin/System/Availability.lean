import SecurePastebin.System.BodyExpiry
import SecurePastebin.System.Integrity
import SecurePastebin.System.Retention

/-!
# Availability of a paste

Between its `Create` and the last millisecond of its life a paste that nobody
deletes has its row and its body, and a `Read` with the right password returns
the content.  In that last millisecond Redis may already have dropped the body,
because it is given whole milliseconds.
-/

namespace SecurePastebin.System

open Text Uuid Calendar Paste
open Crypto SecurePastebin.Store Process Interleaving

variable {sys : Params} {s mid last : Config} {i j k : ℕ} {id : UUID} {clock : ℤ} {E : Envelope}
  {c : Creation}

/-- The later envelope has the keys and the cost parameters of the first. -/
structure Continues (E E' : Envelope) : Prop where
  keys : E.KeepsKeys E'
  params : E'.params = E.params

/-- Nothing fails, the clock does not run backwards, restarts keep keys and cost
parameters, the KDF has a slot, and nobody calls `Delete` on the paste. -/
def Calm (id : UUID) (s : Config) : Action → Prop
  | .env (.tick time) => s.store.clock ≤ time
  | .env (.restart E) => Continues s.store.envelope E
  | .invoke (.delete _ id') => id' ≠ id
  | .invoke _ => True
  | .advance _ (.fail _) => False
  | .advance _ (.opening gate) => gate = .granted
  | .advance .. => True

theorem Calm.clockForward {action : Action} (hcalm : Calm id s action) : ClockForward s action := by
  cases action with
  | env change => cases change with
    | tick time => exact hcalm
    | restart E => trivial
  | _ => trivial

/-- The body and the row of a paste, for as long as it has a millisecond to
live. -/
structure Kept (sys : Params) (id : UUID) (s : Config) : Prop where
  not_deleting : ∀ (k : ℕ) p, s.ops[k]? ≠ some (.delete p id)
  body : ∀ i c, Stored sys s i c → c.id = id → s.store.clock + millisecond ≤ (c.info sys).expiresAt →
    Listed sys s i c ∨ s.trace i = c.storedTrace sys →
    ∃ entry, s.store.redis (Bodies.bodyKey id) = some entry ∧
      (c.info sys).expiresAt < entry.expireAt + millisecond
  row : ∀ i c, Listed sys s i c → c.id = id → s.store.clock + millisecond ≤ (c.info sys).expiresAt →
    ∃ m, s.store.pastes.find id = some m ∧ m.deletedAt = none

/-! ## What cannot happen -/

section

variable {op : Op}

/-- The body of a paste that has been announced, or is about to be, is removed
by a `Delete` of it or after its expiry. -/
theorem removal_cases {allowed : Config → Action → Prop}
    (hforward : ∀ s action, allowed s action → ClockForward s action)
    (hrun : (machine sys).Run allowed (.initial (.empty clock E)) s)
    (hstored : Stored sys s i c) (hpoint : Listed sys s i c ∨ s.trace i = c.storedTrace sys)
    (hop : s.ops[k]? = some op)
    (hreach : (program sys op).Reaches (s.trace k) (.inl (.bodiesDelete c.id))) :
    (∃ p, op = .delete p c.id) ∨ pgTime (c.info sys).expiresAt ≤ s.store.clock := by
  have hprov := provenance_of_run hrun
  have hremoval := call_bodiesDelete hreach
  generalize htrace : s.trace k = trace at hremoval
  cases hremoval with
  | rollback c' haccepted hremaining err hid' =>
      have hstored' : Stored sys s k c' :=
        ⟨hop, haccepted, hremaining, htrace ▸ List.prefix_append _ _⟩
      obtain ⟨rfl, rfl⟩ := hprov.creation_unique hstored hstored' hid'.symm
      rcases hpoint with hlisted | hexact
      · -- its insert was answered with an error
        have hdid := hlisted.inserted
        rw [Config.did_iff_mem_trace, htrace] at hdid
        simp [Creation.storedTrace, Attempt.storedTrace, Attempt.sealedTrace, Attempt.drawing,
          Attempt.sealing, Attempt.putting] at hdid
      · rw [htrace] at hexact
        simp at hexact
  | delete p m now hmay hstatus => exact .inl ⟨p, rfl⟩
  | sweep now rows rest m hmem hid' =>
      have hlist : s.Did k (.metasListExpiredUnaudited now sys.sweeper.batchSize) (.ok rows) :=
        Config.did_of_trace htrace (by simp [Sweeper.sweepStart])
      have hnow : s.Did k .now now :=
        Config.did_of_trace htrace (by simp [Sweeper.sweepStart])
      obtain ⟨⟨l, c', hlisted, hid'', hcore⟩, hexpired, -⟩ :=
        hprov.row_listed k now _ rows hlist m hmem
      obtain ⟨-, rfl⟩ := hprov.creation_unique hstored hlisted.toStored
        (hid'.symm.trans hid''.symm)
      have hle : now ≤ s.store.clock := now_le_clock hforward hrun hnow
      have hpg : pgTime now ≤ now := truncate_le (by decide)
      rw [expiresAt_of_core hcore] at hexpired
      exact .inr (hexpired.trans (hpg.trans hle))

/-- Nobody removes the body in that time. -/
theorem Kept.not_removed (hkept : Kept sys id s)
    (hrun : (machine sys).Run (Calm id) (.initial (.empty clock E)) s)
    (hstored : Stored sys s i c) (hid : c.id = id)
    (hlive : s.store.clock + millisecond ≤ (c.info sys).expiresAt)
    (hpoint : Listed sys s i c ∨ s.trace i = c.storedTrace sys) (hop : s.ops[k]? = some op)
    (hreach : (program sys op).Reaches (s.trace k) (.inl (.bodiesDelete id))) : False := by
  subst hid
  rcases removal_cases (fun _ _ => Calm.clockForward) hrun hstored hpoint hop hreach with
    ⟨p, rfl⟩ | hexpired
  · exact hkept.not_deleting k p hop
  · simp only [pgTime, truncate, microsecond, millisecond] at hexpired hlive
    omega

/-- Nobody purges the row in that time. -/
theorem Kept.not_purged {request : Call} {reply : request.Reply} {store : Store} {choice : Choice}
    {m : PasteMeta}
    (hrun : (machine sys).Run (Calm id) (.initial (.empty clock E)) s)
    (hlisted : Listed sys s i c) (hid : c.id = id)
    (hlive : s.store.clock + millisecond ≤ (c.info sys).expiresAt)
    (hreach : (program sys op).Reaches (s.trace k) (.inl request))
    (hexec : exec sys.prims s.store request choice = some (reply, store))
    (hfind : s.store.pastes.find id = some m) (hdeleted : m.deletedAt = none) :
    store.pastes.find id ≠ none := by
  intro hnone
  have hprov := provenance_of_run hrun
  -- either purge needs a reading at which the row has expired
  have hpassed : ∃ l now, s.Did l .now now ∧ m.expiresAt ≤ now := by
    rcases (exec_pastes hexec).removed hfind hnone with
      ⟨cutoff, count, hstep, hold⟩ | ⟨cutoff, count, hstep, hcompleted⟩
    · cases hstep
      obtain ⟨-, now, rows, rest, ids, rfl, hdays, -, -, htrace, -⟩ :=
        call_metasPurgeOlderThan hreach
      refine ⟨k, now, ?_, ?_⟩
      · rw [Config.did_iff_mem_trace, htrace]
        simp [Sweeper.sweepStart]
      · have hexpiry := hprov.expiresAt_le (hprov.row id m hfind)
        have hbefore := createdAt_lt_of_isOlderThan hdays hold
        have hpg : pgTime now ≤ now := truncate_le (by decide)
        omega
    · have haudited : m.expiredAuditedAt ≠ none := by
        simpa [Pastes.isCompleted, hdeleted, Option.isSome_iff_ne_none] using hcompleted
      exact ((markedLast_of_run hrun).processed hfind haudited).expired
  obtain ⟨l, now, hnow, hexpired⟩ := hpassed
  obtain ⟨l', c', hlisted', hid', hcore⟩ := hprov.row id m hfind
  obtain ⟨-, rfl⟩ := hprov.creation_unique hlisted.toStored hlisted'.toStored (hid.trans hid'.symm)
  have hle := now_le_clock (fun _ _ => Calm.clockForward) hrun hnow
  rw [expiresAt_of_core hcore] at hexpired
  simp only [storedRow, pgTime, truncate, microsecond, millisecond] at hexpired hlive
  omega

/-! ## The invariant -/

/-- Announced, or about to be, then it was so before the last step. -/
theorem point_before {request : Call} {reply : request.Reply} {store : Store}
    {proc : Port Result} (hprov : Provenance sys s) (hop : s.ops[k]? = some op)
    (hreach : (program sys op).Reaches (s.trace k) (.inl request)) (hbefore : Stored sys s i c)
    (hpoint : Listed sys (s.answer k proc ⟨request, reply⟩ store) i c ∨
      (s.answer k proc ⟨request, reply⟩ store).trace i = c.storedTrace sys) :
    Listed sys s i c ∨ s.trace i = c.storedTrace sys := by
  rcases hpoint with hlisted | htrace
  · rcases hprov.listed_before hop hreach hlisted with hlisted | ⟨-, htrace, -⟩
    · exact .inl hlisted
    · exact .inr htrace
  · refine .inr (hbefore.trace.eq_of_length_le ?_).symm
    rw [← htrace]
    exact ((Config.extends_answer (s := s) k proc ⟨request, reply⟩ store).trace i).length_le

theorem Kept.answer {request : Call} {reply : request.Reply} {store : Store} {choice : Choice}
    {proc : Port Result} (hkept : Kept sys id s)
    (hrun : (machine sys).Run (Calm id) (.initial (.empty clock E)) s)
    (hop : s.ops[k]? = some op) (hreach : (program sys op).Reaches (s.trace k) (.inl request))
    (hexec : exec sys.prims s.store request choice = some (reply, store)) :
    Kept sys id (s.answer k proc ⟨request, reply⟩ store) := by
  have hprov := provenance_of_run hrun
  have hclock := (exec_clock_envelope hexec).1
  refine ⟨hkept.not_deleting, ?_, ?_⟩
  · intro i c hstored hid hlive hpoint
    rw [Config.store_answer] at hlive ⊢
    rw [hclock] at hlive
    rcases stored_before hstored with hbefore | ⟨rfl, htrace, hstep⟩
    · have hpoint' := point_before hprov hop hreach hbefore hpoint
      obtain ⟨entry, hentry, hexpiry⟩ := hkept.body i c hbefore hid hlive hpoint'
      refine ⟨entry, (exec_redis hexec).keeps_body hentry ?_ ?_, hexpiry⟩
      · intro record ttl hstep
        cases hstep
        exact hprov.put_once hreach hbefore hid
      · intro hstep
        cases hstep
        exact hkept.not_removed hrun hbefore hid hlive hpoint' hop hreach
    · cases hstep
      rw [← hid]
      refine ⟨_, (exec_redis hexec).put_body, ?_⟩
      obtain ⟨hordered, hlater⟩ :=
        sealedTrace_ordered (fun _ _ => Calm.clockForward) hrun htrace
      have hend := Creation.later_add_remaining hstored.remaining hordered
      simp only [Bodies.redisTTL, truncate, millisecond]
      omega
  · intro i c hlisted hid hlive
    rw [Config.store_answer] at hlive ⊢
    rw [hclock] at hlive
    rcases hprov.listed_before hop hreach hlisted with hbefore | ⟨-, -, hstep⟩
    · obtain ⟨m, hfind, hdeleted⟩ := hkept.row i c hbefore hid hlive
      obtain ⟨m', hfind'⟩ := Option.ne_none_iff_exists'.mp
        (Kept.not_purged hrun hbefore hid hlive hreach hexec hfind hdeleted)
      refine ⟨m', hfind', ?_⟩
      rcases (exec_pastes hexec).row hfind' with ⟨_, hinserted⟩ | ⟨m'', hfind'', hchange⟩
      · rw [hinserted.fresh] at hfind
        cases hfind
      · rw [hfind] at hfind''
        cases hfind''
        cases hchange with
        | deleted byUser time hstep hnone =>
            cases hstep
            rw [Table.key_of_find hfind] at hreach
            obtain ⟨p, _, rfl, -⟩ := call_metasMarkDeleted hreach
            exact absurd hop (hkept.not_deleting k p)
        | _ => exact hdeleted
    · cases hstep
      rw [← hid, ← c.info_id sys]
      exact ⟨_, (exec_pastes hexec).created.2, (c.storedRow_marks sys).1⟩

end

theorem kept_of_run
    (hrun : (machine sys).Run (Calm id) (.initial (.empty clock E)) s) :
    Kept sys id s := by
  refine hrun.induct .initial ?_ ?_ ?_ ?_
  · refine ⟨by simp [Config.initial], ?_, ?_⟩
    · intro i c hstored
      simpa [Config.initial] using hstored.op
    · intro i c hlisted
      simpa [Config.initial] using hlisted.op
  · intro s change store _ hkept hallowed henv
    have hclock : s.store.clock ≤ store.clock :=
      env_clock (fun _ _ => Calm.clockForward) hallowed henv
    have hsame : store.redis = s.store.redis ∧ store.pastes = s.store.pastes := by
      cases change <;> cases henv <;> exact ⟨rfl, rfl⟩
    refine ⟨hkept.not_deleting, ?_, ?_⟩
    · intro i c hstored hid hlive hpoint
      dsimp only at hlive ⊢
      rw [hsame.1]
      exact hkept.body i c hstored.of_store hid (by omega)
        (hpoint.imp_left fun hlisted => ⟨hlisted.toStored.of_store, hlisted.inserted⟩)
    · intro i c hlisted hid hlive
      dsimp only at hlive ⊢
      rw [hsame.2]
      exact hkept.row i c ⟨hlisted.toStored.of_store, hlisted.inserted⟩ hid (by omega)
  · intro s op hpast hkept hallowed
    have hwf := hpast.wellFormed .initial
    refine ⟨?_, ?_, ?_⟩
    · intro k p hop
      rcases Config.ops_invoke s hop with hop | ⟨-, rfl⟩
      · exact hkept.not_deleting k p hop
      · exact hallowed rfl
    · intro i c hstored hid hlive hpoint
      exact hkept.body i c (hstored.of_invoke hwf) hid hlive
        (hpoint.imp_left fun hlisted => ⟨hlisted.toStored.of_invoke hwf, hlisted.inserted⟩)
    · intro i c hlisted hid hlive
      exact hkept.row i c ⟨hlisted.toStored.of_invoke hwf, hlisted.inserted⟩ hid hlive
  · intro s i op choice request reply store proc hpast hkept _ hop _ hreach hexec
    exact hkept.answer hpast hop hreach hexec

end SecurePastebin.System
