import SecurePastebin.System.Machine

/-!
# What one port call does

The effect of an answered call on each part of the store, and what its reply
says about the store.  Invariants are derived from these lists.
-/

namespace SecurePastebin.System

open Text Uuid Paste Crypto
open SecurePastebin.Store Process

/-- How an answered call changes Redis. -/
inductive RedisStep (store : Store) : Step → Keyspace Bytes → Prop
  | put (id : UUID) (record : EncryptedBody) (ttl : ℤ) (redis : Keyspace Bytes)
      (hput : Bodies.put store.redis store.clock id record ttl = .ok redis) :
      RedisStep store ⟨.bodiesPut id record ttl, .ok ()⟩ redis
  | delete (id : UUID) :
      RedisStep store ⟨.bodiesDelete id, .ok ()⟩ (Bodies.delete store.redis id)
  | mark (id : UUID) (ttl : ℤ) (first : Bool) (redis : Keyspace Bytes)
      (hmark : Bodies.markUnavailableOnce store.redis store.clock id ttl = .ok (first, redis)) :
      RedisStep store ⟨.bodiesMarkUnavailableOnce id ttl, .ok first⟩ redis
  | other (step : Step) (hput : ∀ id record ttl, step ≠ ⟨.bodiesPut id record ttl, .ok ()⟩)
      (hdelete : ∀ id, step ≠ ⟨.bodiesDelete id, .ok ()⟩) : RedisStep store step store.redis

/-- How an answered call changes the `pastes` table. -/
inductive PastesStep (store : Store) : Step → Pastes → Prop
  | create (m : PasteMeta) (pastes : Pastes) (hcreate : store.pastes.create m = .ok pastes) :
      PastesStep store ⟨.metasCreate m, .ok ()⟩ pastes
  | views (id : UUID) (pastes : Pastes) (hviews : store.pastes.incrementViews id = .ok pastes) :
      PastesStep store ⟨.metasIncrementViews id, .ok ()⟩ pastes
  | markDeleted (id byUser : UUID) (time : ℤ) :
      PastesStep store ⟨.metasMarkDeleted id byUser time, .ok ()⟩
        (store.pastes.markDeleted id byUser time)
  | markExpiredAudited (ids : List UUID) (time : ℤ) :
      PastesStep store ⟨.metasMarkExpiredAudited ids time, .ok ()⟩
        (store.pastes.markExpiredAudited ids time)
  | purgeOlderThan (cutoff : ℤ) (count : ℕ) :
      PastesStep store ⟨.metasPurgeOlderThan cutoff, .ok count⟩
        (store.pastes.purgeOlderThan cutoff).2
  | purgeCompletedOlderThan (cutoff : ℤ) (count : ℕ) :
      PastesStep store ⟨.metasPurgeCompletedOlderThan cutoff, .ok count⟩
        (store.pastes.purgeCompletedOlderThan cutoff).2
  | other (step : Step) (hcreate : ∀ m, step ≠ ⟨.metasCreate m, .ok ()⟩)
      (hmark : ∀ id byUser time, step ≠ ⟨.metasMarkDeleted id byUser time, .ok ()⟩)
      (haudited : ∀ ids time, step ≠ ⟨.metasMarkExpiredAudited ids time, .ok ()⟩) :
      PastesStep store step store.pastes

variable {P : Primitives} {store next : Store} {request : Call} {reply : request.Reply}
  {choice : Choice}

/-- A call is answered by the stores, fails, draws an identifier, or is one of
the envelope. -/
private theorem exec_cases (hexec : exec P store request choice = some (reply, next)) :
    answer store request = some (reply, next) ∨
      (∃ text, failure text request = some reply ∧ next = store) ∨
      (∃ id, id ∉ store.drawn ∧ (⟨request, reply⟩ : Step) = ⟨.newUUID, id⟩ ∧
        next = { store with drawn := id :: store.drawn }) ∨
      (next = store ∧
        ((∃ gate draws id expiresAt plain password,
          (⟨request, reply⟩ : Step) = ⟨.envelopeSeal id expiresAt plain password,
            store.envelope.sealBody P gate draws id expiresAt plain password⟩) ∨
        ∃ gate id expiresAt record password,
          (⟨request, reply⟩ : Step) = ⟨.envelopeOpen id expiresAt record password,
            store.envelope.openBody P gate id expiresAt record password⟩)) := by
  unfold exec at hexec
  split at hexec
  · exact .inl hexec
  · rename_i text
    simp only [Option.map_eq_some_iff, Prod.mk.injEq] at hexec
    obtain ⟨found, hfound, rfl, rfl⟩ := hexec
    exact .inr (.inl ⟨text, hfound, rfl⟩)
  · split at hexec
    · cases hexec
    · rename_i hfresh
      cases hexec
      exact .inr (.inr (.inl ⟨_, hfresh, rfl, rfl⟩))
  · cases hexec
    exact .inr (.inr (.inr ⟨rfl, .inl ⟨_, _, _, _, _, _, rfl⟩⟩))
  · cases hexec
    exact .inr (.inr (.inr ⟨rfl, .inr ⟨_, _, _, _, _, rfl⟩⟩))
  · cases hexec

/-- What a reply says about the store that gave it. -/
def Observed (P : Primitives) (store : Store) : Step → Prop
  | ⟨.now, time⟩ => time = store.clock
  | ⟨.newUUID, id⟩ => id ∉ store.drawn
  | ⟨.envelopeSeal id expiresAt plain password, .ok record⟩ =>
      ∃ gate draws, store.envelope.sealBody P gate draws id expiresAt plain password = .ok record
  | ⟨.envelopeOpen id expiresAt record password, reply⟩ =>
      ∃ gate, store.envelope.openBody P gate id expiresAt record password = reply
  | ⟨.bodiesGet id, .ok record⟩ => Bodies.get store.redis store.clock id = .ok record
  | ⟨.bodiesGet id, .error err⟩ =>
      Err.is .notFound err = true → Bodies.get store.redis store.clock id = .error err
  | ⟨.metasGet id, .ok m⟩ => store.pastes.find id = some m
  | ⟨.metasListExpiredUnaudited time limit, .ok rows⟩ =>
      rows = store.pastes.listExpiredUnaudited time limit
  | _ => True

theorem Store.writeRedis_cases {Value : Type} {outcome : Except Err (Value × Keyspace Bytes)}
    {result : Except Err Value} (hwrite : store.writeRedis outcome = (result, next)) :
    (∃ err, outcome = .error err ∧ result = .error err ∧ next = store) ∨
      ∃ value redis, outcome = .ok (value, redis) ∧ result = .ok value ∧
        next = { store with redis } := by
  unfold Store.writeRedis at hwrite
  split at hwrite
  · cases hwrite
    exact .inl ⟨_, rfl, rfl, rfl⟩
  · cases hwrite
    exact .inr ⟨_, _, rfl, rfl, rfl⟩

theorem Store.writePastes_cases {Value : Type} {outcome : Except Err (Value × Pastes)}
    {result : Except Err Value} (hwrite : store.writePastes outcome = (result, next)) :
    (∃ err, outcome = .error err ∧ result = .error err ∧ next = store) ∨
      ∃ value pastes, outcome = .ok (value, pastes) ∧ result = .ok value ∧
        next = { store with pastes } := by
  unfold Store.writePastes at hwrite
  split at hwrite
  · cases hwrite
    exact .inl ⟨_, rfl, rfl, rfl⟩
  · cases hwrite
    exact .inr ⟨_, _, rfl, rfl, rfl⟩

private theorem answer_redis (hanswer : answer store request = some (reply, next)) :
    RedisStep store ⟨request, reply⟩ next.redis := by
  cases request with
  | bodiesPut id record ttl =>
      rcases Store.writeRedis_cases (Option.some.inj hanswer) with
        ⟨err, -, rfl, rfl⟩ | ⟨⟨⟩, redis, hput, rfl, rfl⟩
      · exact .other _ (fun _ _ _ h => nomatch h) (fun _ h => nomatch h)
      · refine .put id record ttl redis ?_
        cases hresult : Bodies.put store.redis store.clock id record ttl with
        | error err => simp [hresult, Except.map] at hput
        | ok keys =>
            rw [hresult] at hput
            cases hput
            rfl
  | bodiesDelete id =>
      rcases Store.writeRedis_cases (Option.some.inj hanswer) with
        ⟨err, ⟨⟩, -, -⟩ | ⟨⟨⟩, redis, hdelete, rfl, rfl⟩
      cases hdelete
      exact .delete id
  | bodiesMarkUnavailableOnce id ttl =>
      rcases Store.writeRedis_cases (Option.some.inj hanswer) with
        ⟨err, -, rfl, rfl⟩ | ⟨first, redis, hmark, rfl, rfl⟩
      · exact .other _ (fun _ _ _ h => nomatch h) (fun _ h => nomatch h)
      · exact .mark id ttl first redis hmark
  | _ =>
      have hredis : next.redis = store.redis := by
        first
          | (rcases Store.writePastes_cases (Option.some.inj hanswer) with
              ⟨err, -, -, rfl⟩ | ⟨value, pastes, -, -, rfl⟩ <;> rfl)
          | (cases hanswer; rfl)
          | cases hanswer
      rw [hredis]
      exact .other _ (fun _ _ _ h => nomatch h) (fun _ h => nomatch h)

theorem exec_redis (hexec : exec P store request choice = some (reply, next)) :
    RedisStep store ⟨request, reply⟩ next.redis := by
  rcases exec_cases hexec with hanswer | ⟨text, hfailure, rfl⟩ | ⟨id, -, hstep, rfl⟩ |
    ⟨rfl, ⟨_, _, _, _, _, _, hstep⟩ | ⟨_, _, _, _, _, hstep⟩⟩
  · exact answer_redis hanswer
  · cases request <;> cases hfailure <;>
      exact .other _ (fun _ _ _ h => nomatch h) (fun _ h => nomatch h)
  all_goals
    rw [hstep]
    exact .other _ (fun _ _ _ h => nomatch h) (fun _ h => nomatch h)

private theorem map_unit_eq_ok {outcome : Except Err Pastes} {value : Unit} {pastes : Pastes}
    (hmap : outcome.map ((), ·) = .ok (value, pastes)) : outcome = .ok pastes := by
  cases outcome with
  | error err => cases hmap
  | ok found =>
      cases hmap
      rfl

private theorem answer_pastes (hanswer : answer store request = some (reply, next)) :
    PastesStep store ⟨request, reply⟩ next.pastes := by
  cases request with
  | metasCreate m =>
      rcases Store.writePastes_cases (Option.some.inj hanswer) with
        ⟨err, -, rfl, rfl⟩ | ⟨⟨⟩, pastes, hcreate, rfl, rfl⟩
      · exact .other _ (fun _ h => nomatch h) (fun _ _ _ h => nomatch h) (fun _ _ h => nomatch h)
      · exact .create m pastes (map_unit_eq_ok hcreate)
  | metasIncrementViews id =>
      rcases Store.writePastes_cases (Option.some.inj hanswer) with
        ⟨err, -, rfl, rfl⟩ | ⟨⟨⟩, pastes, hviews, rfl, rfl⟩
      · exact .other _ (fun _ h => nomatch h) (fun _ _ _ h => nomatch h) (fun _ _ h => nomatch h)
      · exact .views id pastes (map_unit_eq_ok hviews)
  | metasMarkDeleted id byUser time =>
      cases hanswer
      exact .markDeleted id byUser time
  | metasMarkExpiredAudited ids time =>
      cases hanswer
      exact .markExpiredAudited ids time
  | metasPurgeOlderThan cutoff =>
      cases hanswer
      exact .purgeOlderThan cutoff _
  | metasPurgeCompletedOlderThan cutoff =>
      cases hanswer
      exact .purgeCompletedOlderThan cutoff _
  | _ =>
      have hpastes : next.pastes = store.pastes := by
        first
          | (rcases Store.writeRedis_cases (Option.some.inj hanswer) with
              ⟨err, -, -, rfl⟩ | ⟨value, redis, -, -, rfl⟩ <;> rfl)
          | (cases hanswer; rfl)
          | cases hanswer
      rw [hpastes]
      exact .other _ (fun _ h => nomatch h) (fun _ _ _ h => nomatch h) (fun _ _ h => nomatch h)

theorem exec_pastes (hexec : exec P store request choice = some (reply, next)) :
    PastesStep store ⟨request, reply⟩ next.pastes := by
  rcases exec_cases hexec with hanswer | ⟨text, hfailure, rfl⟩ | ⟨id, -, hstep, rfl⟩ |
    ⟨rfl, ⟨_, _, _, _, _, _, hstep⟩ | ⟨_, _, _, _, _, hstep⟩⟩
  · exact answer_pastes hanswer
  · cases request <;> cases hfailure <;>
      exact .other _ (fun _ h => nomatch h) (fun _ _ _ h => nomatch h) (fun _ _ h => nomatch h)
  all_goals
    rw [hstep]
    exact .other _ (fun _ h => nomatch h) (fun _ _ _ h => nomatch h) (fun _ _ h => nomatch h)

/-- What the stores answer themselves leaves the clock, the keyring and the
identifiers alone. -/
private theorem answer_frame (hanswer : answer store request = some (reply, next)) :
    next.clock = store.clock ∧ next.envelope = store.envelope ∧ next.drawn = store.drawn := by
  cases request <;>
    first
      | (rcases Store.writeRedis_cases (Option.some.inj hanswer) with
          ⟨err, -, -, rfl⟩ | ⟨value, redis, -, -, rfl⟩ <;> exact ⟨rfl, rfl, rfl⟩)
      | (rcases Store.writePastes_cases (Option.some.inj hanswer) with
          ⟨err, -, -, rfl⟩ | ⟨value, pastes, -, -, rfl⟩ <;> exact ⟨rfl, rfl, rfl⟩)
      | (cases hanswer; exact ⟨rfl, rfl, rfl⟩)
      | cases hanswer

/-- Port calls neither move the clock nor change the keyring. -/
theorem exec_clock_envelope (hexec : exec P store request choice = some (reply, next)) :
    next.clock = store.clock ∧ next.envelope = store.envelope := by
  rcases exec_cases hexec with hanswer | ⟨text, -, rfl⟩ | ⟨id, -, -, rfl⟩ | ⟨rfl, -⟩
  · exact ⟨(answer_frame hanswer).1, (answer_frame hanswer).2.1⟩
  all_goals exact ⟨rfl, rfl⟩

/-- An identifier is new when it is drawn, and nothing else draws one. -/
theorem exec_drawn (hexec : exec P store request choice = some (reply, next)) :
    (∃ id, (⟨request, reply⟩ : Step) = ⟨.newUUID, id⟩ ∧ next.drawn = id :: store.drawn) ∨
      (∀ id, (⟨request, reply⟩ : Step) ≠ ⟨.newUUID, id⟩) ∧ next.drawn = store.drawn := by
  rcases exec_cases hexec with hanswer | ⟨text, hfailure, rfl⟩ | ⟨id, -, hstep, rfl⟩ |
    ⟨rfl, ⟨_, _, _, _, _, _, hstep⟩ | ⟨_, _, _, _, _, hstep⟩⟩
  · refine .inr ⟨?_, (answer_frame hanswer).2.2⟩
    rintro id ⟨⟩
    cases hanswer
  · refine .inr ⟨?_, rfl⟩
    rintro id ⟨⟩
    cases hfailure
  · exact .inl ⟨id, hstep, rfl⟩
  all_goals
    rw [hstep]
    exact .inr ⟨(fun _ h => nomatch h), rfl⟩

private theorem answer_observed (hanswer : answer store request = some (reply, next)) :
    Observed P store ⟨request, reply⟩ := by
  cases request with
  | now =>
      cases hanswer
      rfl
  | bodiesGet id =>
      cases hanswer
      cases hget : Bodies.get store.redis store.clock id with
      | error err => exact fun _ => hget
      | ok record => exact hget
  | metasGet id =>
      cases hanswer
      cases hget : store.pastes.get id with
      | error err => trivial
      | ok m => exact (Pastes.get_eq_ok_iff id).mp hget
  | metasListExpiredUnaudited time limit =>
      cases hanswer
      rfl
  | newUUID | envelopeSeal | envelopeOpen => cases hanswer
  | _ => trivial

theorem exec_observed (hexec : exec P store request choice = some (reply, next)) :
    Observed P store ⟨request, reply⟩ := by
  rcases exec_cases hexec with hanswer | ⟨text, hfailure, -⟩ | ⟨id, hfresh, hstep, -⟩ |
    ⟨-, ⟨gate, draws, id, expiresAt, plain, password, hstep⟩ | ⟨gate, _, _, _, _, hstep⟩⟩
  · exact answer_observed hanswer
  · cases request <;> cases hfailure <;> simp [Observed, Err.is]
  · rw [hstep]
    exact hfresh
  · rw [hstep]
    cases hseal : store.envelope.sealBody P gate draws id expiresAt plain password with
    | error err => trivial
    | ok record => exact ⟨gate, draws, hseal⟩
  · rw [hstep]
    exact ⟨gate, rfl⟩

/-- Without a failure, what the stores answer themselves is what they answer. -/
theorem exec_of_noFailure {i : ℕ} (hnofail : NoFailure (.advance i choice))
    (hanswer : (answer store request).isSome)
    (hexec : exec P store request choice = some (reply, next)) :
    answer store request = some (reply, next) := by
  cases choice with
  | ok => exact hexec
  | fail text => exact hnofail.elim
  | _ => cases request <;> simp_all [exec, answer]

theorem exec_open {id : UUID} {expiresAt : ℤ} {record : EncryptedBody} {password : Bytes}
    {reply : Except Err Bytes}
    (hexec : exec P store (.envelopeOpen id expiresAt record password) choice = some (reply, next)) :
    ∃ gate, choice = .opening gate ∧
      store.envelope.openBody P gate id expiresAt record password = reply := by
  cases choice with
  | opening gate =>
      cases hexec
      exact ⟨gate, rfl, rfl⟩
  | _ => cases hexec

/-- The calls that write to neither store of pastes. -/
def OnlyLooks : Call → Prop
  | .bodiesPut .. | .bodiesDelete _ | .bodiesMarkUnavailableOnce .. | .metasCreate _
  | .metasIncrementViews _ | .metasMarkDeleted .. | .metasMarkExpiredAudited ..
  | .metasPurgeOlderThan _ | .metasPurgeCompletedOlderThan _ => False
  | _ => True

theorem exec_onlyLooks (hlooks : OnlyLooks request)
    (hexec : exec P store request choice = some (reply, next)) :
    next.redis = store.redis ∧ next.pastes = store.pastes := by
  have hredis := exec_redis hexec
  have hpastes := exec_pastes hexec
  generalize next.redis = redis at hredis
  generalize next.pastes = pastes at hpastes
  constructor
  · cases hredis with
    | other => rfl
    | _ => cases hlooks
  · cases hpastes with
    | other => rfl
    | _ => cases hlooks

/-! ## What a call does to one row -/

/-- How an answered call changes a row that stays in the table. -/
inductive RowChange (step : Step) (m : PasteMeta) : PasteMeta → Prop
  | same : RowChange step m m
  | viewed : RowChange step m { m with viewCount := m.viewCount + 1 }
  | deleted (byUser : UUID) (time : ℤ) (hstep : step = ⟨.metasMarkDeleted m.id byUser time, .ok ()⟩)
      (hnone : m.deletedAt = none) :
      RowChange step m { m with deletedAt := some (pgTime time), deletedBy := some byUser }
  | audited (ids : List UUID) (time : ℤ) (hstep : step = ⟨.metasMarkExpiredAudited ids time, .ok ()⟩)
      (hmem : m.id ∈ ids) (hnone : m.expiredAuditedAt = none) :
      RowChange step m { m with expiredAuditedAt := some (pgTime time) }

/-- A row that has just been inserted. -/
structure RowInserted (store : Store) (step : Step) (id : UUID) (row m : PasteMeta) : Prop where
  step_eq : step = ⟨.metasCreate m, .ok ()⟩
  id_eq : m.id = id
  fresh : store.pastes.find id = none
  row_eq : row = storedRow m

variable {step : Step} {pastes : Pastes} {id : UUID} {m m' : PasteMeta}

/-- Where a row comes from. -/
theorem PastesStep.row (hstep : PastesStep store step pastes) (hfind : pastes.find id = some m') :
    (∃ m, RowInserted store step id m' m) ∨
      ∃ m, store.pastes.find id = some m ∧ RowChange step m m' := by
  cases hstep with
  | create m _ hcreate =>
      obtain ⟨-, -, hfresh, hnext⟩ := Pastes.create_eq_ok hcreate
      rw [hnext] at hfind
      split at hfind
      · rename_i hid
        cases hfind
        exact .inl ⟨m, rfl, hid.symm, hid ▸ hfresh, rfl⟩
      · exact .inr ⟨m', hfind, .same⟩
  | views id' _ hviews =>
      rw [Pastes.find_incrementViews hviews, Option.map_eq_some_iff] at hfind
      obtain ⟨m, hm, rfl⟩ := hfind
      refine .inr ⟨m, hm, ?_⟩
      split
      · exact .viewed
      · exact .same
  | markDeleted id' byUser time =>
      rw [Pastes.find_markDeleted, Option.map_eq_some_iff] at hfind
      obtain ⟨m, hm, rfl⟩ := hfind
      refine .inr ⟨m, hm, ?_⟩
      split
      · rename_i hmark
        exact .deleted byUser time (by rw [hmark.1]) hmark.2
      · exact .same
  | markExpiredAudited ids time =>
      rw [Pastes.find_markExpiredAudited, Option.map_eq_some_iff] at hfind
      obtain ⟨m, hm, rfl⟩ := hfind
      refine .inr ⟨m, hm, ?_⟩
      split
      · rename_i hmark
        exact .audited ids time rfl hmark.1 hmark.2
      · exact .same
  | purgeOlderThan cutoff count =>
      rw [Pastes.purgeOlderThan, Pastes.find_purge, Option.filter_eq_some_iff] at hfind
      exact .inr ⟨m', hfind.1, .same⟩
  | purgeCompletedOlderThan cutoff count =>
      rw [Pastes.purgeCompletedOlderThan, Pastes.find_purge, Option.filter_eq_some_iff] at hfind
      exact .inr ⟨m', hfind.1, .same⟩
  | other _ _ _ _ => exact .inr ⟨m', hfind, .same⟩

/-- What an accepted row satisfies, and that it is there. -/
theorem PastesStep.created (hstep : PastesStep store ⟨.metasCreate m, .ok ()⟩ pastes) :
    ((1 ≤ m.ttlSeconds ∧ m.ttlSeconds ≤ 86400) ∧ Utf8.valid m.kekId = true) ∧
      pastes.find m.id = some (storedRow m) := by
  cases hstep with
  | create _ _ hcreate =>
      obtain ⟨httl, hkek, -, hfind⟩ := Pastes.create_eq_ok hcreate
      exact ⟨⟨httl, hkek⟩, by rw [hfind, if_pos rfl]⟩
  | other _ hcreate _ _ => exact absurd rfl (hcreate m)

/-- Marks are never taken back. -/
theorem RowChange.unmarked (hchange : RowChange step m m') :
    (m'.deletedAt = none → m.deletedAt = none) ∧
      (m'.expiredAuditedAt = none → m.expiredAuditedAt = none) := by
  cases hchange with
  | deleted byUser time hstep hnone => exact ⟨fun _ => hnone, id⟩
  | audited ids time hstep hmem hnone => exact ⟨id, fun _ => hnone⟩
  | _ => exact ⟨id, id⟩

/-- A marked row has its mark. -/
theorem PastesStep.marked_deleted {byUser : UUID} {time : ℤ}
    (hstep : PastesStep store ⟨.metasMarkDeleted id byUser time, .ok ()⟩ pastes)
    (hfind : pastes.find id = some m') : m'.deletedAt ≠ none := by
  cases hstep with
  | markDeleted =>
      rw [Pastes.find_markDeleted, Option.map_eq_some_iff] at hfind
      obtain ⟨m, hm, rfl⟩ := hfind
      have hkey := Table.key_of_find hm
      split
      · simp
      · rename_i hskip
        exact fun hnone => hskip ⟨hkey, hnone⟩
  | other _ _ hmark _ => exact absurd rfl (hmark id byUser time)

theorem PastesStep.marked_audited {ids : List UUID} {time : ℤ}
    (hstep : PastesStep store ⟨.metasMarkExpiredAudited ids time, .ok ()⟩ pastes)
    (hid : id ∈ ids) (hfind : pastes.find id = some m') : m'.expiredAuditedAt ≠ none := by
  cases hstep with
  | markExpiredAudited =>
      rw [Pastes.find_markExpiredAudited, Option.map_eq_some_iff] at hfind
      obtain ⟨m, hm, rfl⟩ := hfind
      have hkey := Table.key_of_find hm
      split
      · simp
      · rename_i hskip
        exact fun hnone => hskip ⟨hkey.symm ▸ hid, hnone⟩
  | other _ _ _ haudited => exact absurd rfl (haudited ids time)

/-- What removes a row. -/
theorem PastesStep.removed (hstep : PastesStep store step pastes)
    (hfind : store.pastes.find id = some m) (hnone : pastes.find id = none) :
    (∃ cutoff count, step = ⟨.metasPurgeOlderThan cutoff, .ok count⟩ ∧
        Pastes.isOlderThan cutoff m = true) ∨
      ∃ cutoff count, step = ⟨.metasPurgeCompletedOlderThan cutoff, .ok count⟩ ∧
        Pastes.isCompleted m = true := by
  cases hstep with
  | create m _ hcreate =>
      obtain ⟨-, -, -, hnext⟩ := Pastes.create_eq_ok hcreate
      rw [hnext] at hnone
      split at hnone
      · cases hnone
      · rw [hfind] at hnone
        cases hnone
  | views id' _ hviews => simp [Pastes.find_incrementViews hviews, hfind] at hnone
  | markDeleted id' byUser time => simp [Pastes.find_markDeleted, hfind] at hnone
  | markExpiredAudited ids time => simp [Pastes.find_markExpiredAudited, hfind] at hnone
  | purgeOlderThan cutoff count =>
      rw [Pastes.purgeOlderThan, Pastes.find_purge, hfind] at hnone
      exact .inl ⟨cutoff, count, rfl, by simpa using hnone⟩
  | purgeCompletedOlderThan cutoff count =>
      rw [Pastes.purgeCompletedOlderThan, Pastes.find_purge, hfind] at hnone
      exact .inr ⟨cutoff, count, rfl, by
        have hboth : Pastes.isOlderThan cutoff m = true ∧ Pastes.isCompleted m = true := by
          simpa using hnone
        exact hboth.2⟩
  | other _ _ _ _ =>
      rw [hfind] at hnone
      cases hnone

/-- What a successful put leaves. -/
theorem RedisStep.put_body {redis : Keyspace Bytes} {record : EncryptedBody} {ttl : ℤ}
    (hstep : RedisStep store ⟨.bodiesPut id record ttl, .ok ()⟩ redis) :
    redis (Bodies.bodyKey id) =
      some ⟨Bodies.marshal record, store.clock + Bodies.redisTTL ttl⟩ := by
  cases hstep with
  | put _ _ _ _ hput =>
      obtain ⟨-, rfl⟩ := Bodies.put_eq_ok_iff.mp hput
      exact Keyspace.set_self ..
  | other _ hput _ => exact absurd rfl (hput id record ttl)

/-- Where a body comes from. -/
theorem RedisStep.body {redis : Keyspace Bytes} {entry : Keyspace.Entry Bytes}
    (hstep : RedisStep store step redis) (hbody : redis (Bodies.bodyKey id) = some entry) :
    (∃ record ttl, step = ⟨.bodiesPut id record ttl, .ok ()⟩ ∧
        entry = ⟨Bodies.marshal record, store.clock + Bodies.redisTTL ttl⟩) ∨
      store.redis (Bodies.bodyKey id) = some entry ∧ step ≠ ⟨.bodiesDelete id, .ok ()⟩ := by
  cases hstep with
  | put id' record ttl _ hput =>
      obtain ⟨-, rfl⟩ := Bodies.put_eq_ok_iff.mp hput
      by_cases hid : id = id'
      · subst hid
        rw [Keyspace.set_self, Option.some.injEq] at hbody
        exact .inl ⟨record, ttl, rfl, hbody.symm⟩
      · rw [Keyspace.set_of_ne _ _ fun hkey => hid (Bodies.bodyKey_injective hkey)] at hbody
        exact .inr ⟨hbody, fun h => nomatch h⟩
  | delete id' =>
      rw [Bodies.delete_bodyKey] at hbody
      split at hbody
      · cases hbody
      · rename_i hid
        refine .inr ⟨hbody, ?_⟩
        rintro ⟨⟩
        exact hid rfl
  | mark id' ttl first _ hmark =>
      rw [Bodies.markUnavailableOnce_bodyKey hmark] at hbody
      exact .inr ⟨hbody, fun h => nomatch h⟩
  | other _ _ hdelete => exact .inr ⟨hbody, hdelete id⟩

/-- A body stays as it is unless it is removed or put again. -/
theorem RedisStep.keeps_body {redis : Keyspace Bytes} {entry : Keyspace.Entry Bytes}
    (hstep : RedisStep store step redis) (hbody : store.redis (Bodies.bodyKey id) = some entry)
    (hput : ∀ record ttl, step ≠ ⟨.bodiesPut id record ttl, .ok ()⟩)
    (hdelete : step ≠ ⟨.bodiesDelete id, .ok ()⟩) :
    redis (Bodies.bodyKey id) = some entry := by
  cases hstep with
  | put id' record ttl _ hredis =>
      obtain ⟨-, rfl⟩ := Bodies.put_eq_ok_iff.mp hredis
      rw [Keyspace.set_of_ne]
      · exact hbody
      · intro hkey
        cases Bodies.bodyKey_injective hkey
        exact hput record ttl rfl
  | delete id' =>
      rw [Bodies.delete_bodyKey, if_neg]
      · exact hbody
      · rintro rfl
        exact hdelete rfl
  | mark id' ttl first _ hmark =>
      rw [Bodies.markUnavailableOnce_bodyKey hmark]
      exact hbody
  | other _ _ _ => exact hbody

/-! ## The audit trail -/

/-- The event of a call to the audit sink. -/
def eventOf : Step → Option Event
  | ⟨.auditRecord event, _⟩ => some event
  | _ => none

/-- All events handed to the audit sink so far, in order. -/
def events (s : Config) : List Event := s.log.filterMap fun entry => eventOf entry.2

theorem eventOf_eq_some_iff {event : Event} :
    eventOf step = some event ↔ step = ⟨.auditRecord event, ()⟩ := by
  unfold eventOf
  split
  · simp
  · rename_i hother
    refine iff_of_false (by simp) ?_
    rintro rfl
    exact hother event () rfl

/-- The events of a kind are the steps that record one. -/
theorem countP_events (s : Config) (kind : Event → Bool) :
    (events s).countP kind = s.log.countP fun entry => (eventOf entry.2).any kind := by
  rw [events, List.countP_filterMap]
  refine List.countP_congr fun entry _ => ?_
  cases eventOf entry.2 <;> rfl

theorem mem_events {s : Config} {event : Event} :
    event ∈ events s ↔ ∃ i, s.Did i (.auditRecord event) () := by
  simp [events, eventOf_eq_some_iff, Interleaving.Config.Did]

end SecurePastebin.System
