import SecurePastebin.System.Provenance

/-!
# Bodies that are gone

Only the `Create` that drew an identifier stores a body under it, and it does so
once.  So a body that was stored and is not there any more never comes back, and
a row is marked as deleted or as audited only after its body has gone.
-/

namespace SecurePastebin.System

open Text Uuid Paste Crypto
open SecurePastebin.Store Process Interleaving

/-- The body of `id` was stored once and is not there any more. -/
def Gone (sys : Params) (s : Config) (id : UUID) : Prop :=
  (∃ i c, Stored sys s i c ∧ c.id = id) ∧ s.store.redis (Bodies.bodyKey id) = none

variable {sys : Params} {s next : Config} {i : ℕ} {id : UUID}

theorem Gone.of_store (hgone : Gone sys s id) (hextends : s.Extends next)
    (hredis : next.store.redis = s.store.redis) : Gone sys next id := by
  obtain ⟨⟨i, c, hstored, hid⟩, hnone⟩ := hgone
  exact ⟨⟨i, c, hstored.mono hextends, hid⟩, by rw [hredis, hnone]⟩

section

variable {op : Op} {request : Call} {reply : request.Reply} {store : Store} {choice : Choice}
  {proc : Port Result}

/-- A body that is gone does not come back. -/
theorem Gone.answer (hgone : Gone sys s id) (hprov : Provenance sys s)
    (hreach : (program sys op).Reaches (s.trace i) (.inl request))
    (hexec : exec sys.prims s.store request choice = some (reply, store)) :
    Gone sys (s.answer i proc ⟨request, reply⟩ store) id := by
  obtain ⟨⟨j, c, hstored, hid⟩, hnone⟩ := hgone
  have hextends := Config.extends_answer (s := s) i proc ⟨request, reply⟩ store
  refine ⟨⟨j, c, hstored.mono hextends, hid⟩, ?_⟩
  rw [Config.store_answer, Option.eq_none_iff_forall_ne_some]
  intro entry hentry
  rcases (exec_redis hexec).body hentry with ⟨record, ttl, hstep, -⟩ | ⟨hentry, -⟩
  · cases hstep
    exact hprov.put_once hreach hstored hid
  · rw [hnone] at hentry
    cases hentry

/-- Whoever removes a body knows of its paste. -/
theorem Removal.stored {trace : List Step} (hremoval : Removal sys id op trace)
    (hprov : Provenance sys s) (hop : s.ops[i]? = some op) (htrace : s.trace i = trace) :
    ∃ j c, Stored sys s j c ∧ c.id = id := by
  cases hremoval with
  | rollback c haccepted hremaining err hid =>
      refine ⟨i, c, ⟨hop, haccepted, hremaining, ?_⟩, hid⟩
      rw [htrace]
      exact List.prefix_append _ _
  | delete p m now hmay hstatus =>
      have hdid : s.Did i (.metasGet id) (.ok m) :=
        Config.did_of_trace htrace (by simp [deleteChecks])
      obtain ⟨j, c, hlisted, hid, -⟩ := hprov.row_got i id m hdid
      exact ⟨j, c, hlisted.toStored, hid⟩
  | sweep now rows rest m hmem hid =>
      have hdid : s.Did i (.metasListExpiredUnaudited now sys.sweeper.batchSize) (.ok rows) :=
        Config.did_of_trace htrace (by simp [Sweeper.sweepStart])
      obtain ⟨⟨j, c, hlisted, hid', -⟩, -⟩ := hprov.row_listed i now _ rows hdid m hmem
      exact ⟨j, c, hlisted.toStored, hid'.trans hid⟩

/-- A successful removal leaves no body. -/
theorem gone_answer_delete (hprov : Provenance sys s) (hop : s.ops[i]? = some op)
    (hreach : (program sys op).Reaches (s.trace i) (.inl (.bodiesDelete id)))
    (hexec : exec sys.prims s.store (.bodiesDelete id) choice = some (.ok (), store)) :
    Gone sys (s.answer i proc ⟨.bodiesDelete id, .ok ()⟩ store) id := by
  obtain ⟨j, c, hstored, hid⟩ := (call_bodiesDelete hreach).stored hprov hop rfl
  refine ⟨⟨j, c, hstored.mono (Config.extends_answer _ _ _ _), hid⟩, ?_⟩
  rw [Config.store_answer, Option.eq_none_iff_forall_ne_some]
  intro entry hentry
  rcases (exec_redis hexec).body hentry with ⟨record, ttl, ⟨⟩, -⟩ | ⟨-, hne⟩
  exact hne rfl

end

/-! ## Marks come after the removal -/

/-- Bodies are removed before rows are marked, and expiry is marked only when it
has passed and was recorded. -/
structure MarkedLast (sys : Params) (s : Config) : Prop where
  removed : ∀ i id, s.Did i (.bodiesDelete id) (.ok ()) → Gone sys s id
  marked : ∀ id m, s.store.pastes.find id = some m →
    m.deletedAt ≠ none ∨ m.expiredAuditedAt ≠ none → ∃ i, s.Did i (.bodiesDelete id) (.ok ())
  audited : ∀ id m, s.store.pastes.find id = some m → m.expiredAuditedAt ≠ none →
    ∃ i now m', s.Did i .now now ∧ m.expiresAt ≤ now ∧ m'.id = id ∧
      s.Did i (.auditRecord (Sweeper.expiredEvent now m')) ()
  deleted_got : ∀ i id m, s.Did i (.metasGet id) (.ok m) → m.deletedAt ≠ none → Gone sys s id

theorem MarkedLast.of_store (hlast : MarkedLast sys s) (hextends : s.Extends next)
    (hlog : next.log = s.log) (hredis : next.store.redis = s.store.redis)
    (hpastes : next.store.pastes = s.store.pastes) : MarkedLast sys next where
  removed i id hdid := by
    rw [Config.Did, hlog] at hdid
    exact (hlast.removed i id hdid).of_store hextends hredis
  marked id m hfind hmark := by
    rw [hpastes] at hfind
    obtain ⟨i, hdid⟩ := hlast.marked id m hfind hmark
    exact ⟨i, hextends.did hdid⟩
  audited id m hfind hmark := by
    rw [hpastes] at hfind
    obtain ⟨i, now, m', hnow, hexpired, hid, hevent⟩ := hlast.audited id m hfind hmark
    exact ⟨i, now, m', hextends.did hnow, hexpired, hid, hextends.did hevent⟩
  deleted_got i id m hdid hmark := by
    rw [Config.Did, hlog] at hdid
    exact (hlast.deleted_got i id m hdid hmark).of_store hextends hredis

section

variable {op : Op} {request : Call} {reply : request.Reply} {store : Store} {choice : Choice}
  {proc : Port Result}

/-- What is behind the marking of a list of ids: each was in the batch, its body
was removed and its expiry recorded. -/
theorem marked_audited {ids : List UUID} {time : ℤ} {trace : List Step}
    (hprov : Provenance sys s) (hsubset : trace ⊆ s.trace i)
    (hreach : (program sys op).Reaches trace (.inl (.metasMarkExpiredAudited ids time)))
    (hid : id ∈ ids) :
    s.Did i .now time ∧ s.Did i (.bodiesDelete id) (.ok ()) ∧
      ∃ m, m.id = id ∧ IsRow sys s id m ∧ m.expiresAt ≤ time ∧ m.deletedAt = none ∧
        s.Did i (.auditRecord (Sweeper.expiredEvent time m)) () := by
  obtain ⟨rfl, rows, rest, failed, rfl, hdone⟩ := call_metasMarkExpiredAudited hreach
  obtain ⟨m, hmem, rfl, hremoved, hevent⟩ := hdone.swept id hid
  have hlist : s.Did i (.metasListExpiredUnaudited time sys.sweeper.batchSize) (.ok rows) := by
    rw [Config.did_iff_mem_trace]
    exact hsubset (by simp [Sweeper.sweepStart])
  obtain ⟨hrow, hexpired, hdeleted⟩ := hprov.row_listed i time _ rows hlist m hmem
  simp only [Config.did_iff_mem_trace]
  refine ⟨hsubset (by simp [Sweeper.sweepStart]), hsubset (List.mem_append_right _ hremoved), m,
    rfl, hrow, ?_, hdeleted, hsubset (List.mem_append_right _ hevent)⟩
  exact hexpired.trans (Calendar.truncate_le (by decide))

theorem MarkedLast.answer (hlast : MarkedLast sys s) (hprov : Provenance sys s)
    (hop : s.ops[i]? = some op) (hreach : (program sys op).Reaches (s.trace i) (.inl request))
    (hexec : exec sys.prims s.store request choice = some (reply, store)) :
    MarkedLast sys (s.answer i proc ⟨request, reply⟩ store) := by
  have hextends : s.Extends (s.answer i proc ⟨request, reply⟩ store) :=
    Config.extends_answer i proc _ store
  constructor
  case removed =>
    intro j id hdid
    rcases Config.did_answer.mp hdid with hdid | ⟨-, heq⟩
    · exact (hlast.removed j id hdid).answer hprov hreach hexec
    · cases heq
      exact gone_answer_delete hprov hop hreach hexec
  case marked =>
    intro id m hfind hmark
    rcases (exec_pastes hexec).row hfind with ⟨m', hinserted⟩ | ⟨m', hfind', hchange⟩
    · obtain ⟨c, -, -, -, rfl, -⟩ := hinserted.creation proc store hop hreach
      simp [c.storedRow_marks sys] at hmark
    · have hold : m'.deletedAt ≠ none ∨ m'.expiredAuditedAt ≠ none →
          ∃ j, (s.answer i proc ⟨request, reply⟩ store).Did j (.bodiesDelete id) (.ok ()) := by
        intro hmark
        obtain ⟨j, hdid⟩ := hlast.marked id m' hfind' hmark
        exact ⟨j, hextends.did hdid⟩
      have hkey := Table.key_of_find hfind'
      cases hchange with
      | same | viewed => exact hold hmark
      | deleted byUser time hstep hnone =>
          cases hstep
          obtain ⟨p, m, -, -, -, -, htrace⟩ := call_metasMarkDeleted hreach
          refine ⟨i, hextends.did ?_⟩
          rw [← hkey, Config.did_iff_mem_trace, htrace]
          simp
      | audited ids time hstep hmem hnone =>
          cases hstep
          exact ⟨i, hextends.did (marked_audited hprov (List.Subset.refl _) hreach (hkey ▸ hmem)).2.1⟩
  case audited =>
    intro id m hfind hmark
    rcases (exec_pastes hexec).row hfind with ⟨m', hinserted⟩ | ⟨m', hfind', hchange⟩
    · obtain ⟨c, -, -, -, rfl, -⟩ := hinserted.creation proc store hop hreach
      simp [c.storedRow_marks sys] at hmark
    · have hold : m'.expiredAuditedAt ≠ none → m.expiresAt = m'.expiresAt →
          ∃ j now m'', (s.answer i proc ⟨request, reply⟩ store).Did j .now now ∧
            m.expiresAt ≤ now ∧ m''.id = id ∧
            (s.answer i proc ⟨request, reply⟩ store).Did j
              (.auditRecord (Sweeper.expiredEvent now m'')) () := by
        intro hmark hexpiry
        obtain ⟨j, now, m'', hnow, hexpired, hid, hevent⟩ := hlast.audited id m' hfind' hmark
        exact ⟨j, now, m'', hextends.did hnow, hexpiry ▸ hexpired, hid, hextends.did hevent⟩
      have hkey := Table.key_of_find hfind'
      cases hchange with
      | same | viewed | deleted => exact hold hmark rfl
      | audited ids time hstep hmem hnone =>
          cases hstep
          obtain ⟨hnow, -, m'', hid, hrow, hexpired, -, hevent⟩ :=
            marked_audited hprov (List.Subset.refl _) hreach (hkey ▸ hmem)
          have hcore := hprov.core_eq (hprov.row id m' hfind') hrow
          refine ⟨i, time, m'', hextends.did hnow, ?_, hid, hextends.did hevent⟩
          exact (expiresAt_of_core hcore).trans_le hexpired
  case deleted_got =>
    intro j id m hdid hmark
    rcases Config.did_answer.mp hdid with hdid | ⟨-, heq⟩
    · exact (hlast.deleted_got j id m hdid hmark).answer hprov hreach hexec
    · have hobserved := exec_observed hexec
      rw [← heq] at hobserved
      obtain ⟨k, hremoved⟩ := hlast.marked id m hobserved (.inl hmark)
      exact (hlast.removed k id hremoved).answer hprov hreach hexec

end

theorem markedLast_of_run {allowed : Config → Action → Prop} {clock : ℤ} {E : Envelope}
    (hrun : (machine sys).Run allowed (.initial (.empty clock E)) s) :
    MarkedLast sys s := by
  refine hrun.induct .initial ?_ ?_ ?_ ?_
  · constructor <;> simp [Config.Did, Config.initial, Store.empty]
  · intro s change store _ hlast _ henv
    cases change <;> cases henv <;> exact hlast.of_store (Config.extends_store _) rfl rfl rfl
  · intro s op _ hlast _
    exact hlast.of_store (Config.extends_invoke op _) rfl rfl rfl
  · intro s i op choice request reply store proc hpast hlast _ hop _ hreach hexec
    exact hlast.answer (provenance_of_run hpast) hop hreach hexec

end SecurePastebin.System
