import SecurePastebin.Store.Lifecycle
import SecurePastebin.System.Effects

/-!
# Draining the backlog of expired pastes

A pass of the sweeper runs by itself; between passes other work may go on as long
as it leaves the expired rows alone and no further paste expires.  The expired
rows that are neither deleted nor audited, in the order of the query, are the
backlog: every pass takes the next batch off its front.
-/

namespace SecurePastebin.System

open Text Uuid Paste SecurePastebin.Store
open Process Interleaving Sweeper

/-! ## One pass -/

/-- Every call succeeds, but for the deletion of the bodies in `fails`. -/
def sweepChoice (fails : UUID → Bool) : Call → Choice
  | .bodiesDelete id => if fails id then .fail "connection refused" else .ok
  | _ => .ok

/-- What the sweeper sees of such a deletion. -/
def refusedDelete : Err := .wrap "redis: delete body" (.message "connection refused")

/-- One `RunOnce` by itself. -/
def pass (sys : Params) (fails : UUID → Bool) (store : Store) :
    Option ((Stats × Option Err) × Store × List Step) :=
  (machine sys).alone (sweepChoice fails) store (runOnce sys.sweeper)

variable {trace : List Step} {pastes pastes' : Pastes} {bound : ℤ} {purged : PasteMeta → Bool}

/-- A pass by itself is a run of the machine in which a sweeping thread goes from
its start to its end while the others rest. -/
theorem exists_run_of_pass {sys : Params} {fails : UUID → Bool} {s : Config} {i : ℕ}
    {result : Stats × Option Err} {after : Store}
    (hpass : pass sys fails s.store = some (result, after, trace))
    (hproc : s.procs[i]? = some (program sys .sweep)) :
    ∃ final, (machine sys).Run (fun _ _ => True) s final ∧ final.store = after ∧
      final.procs[i]? = some (.ret (.sweep result)) ∧ final.trace i = s.trace i ++ trace := by
  have halone : (machine sys).alone (sweepChoice fails) s.store (program sys .sweep) =
      some (.sweep result, after, trace ++ []) := Machine.alone_bind hpass rfl
  obtain ⟨final, hrun, hstore, hreturned, _, htrace⟩ := Machine.run_of_alone halone hproc
  rw [List.append_nil] at htrace
  exact ⟨final, hrun, hstore, hreturned, htrace⟩

/-- The body a step has deleted. -/
def deletionOf : Step → Option UUID
  | ⟨.bodiesDelete id, .ok _⟩ => some id
  | _ => none

/-- The ids a step has marked as audited. -/
def markingOf : Step → List UUID
  | ⟨.metasMarkExpiredAudited ids _, .ok _⟩ => ids
  | _ => []

def deletions (trace : List Step) : List UUID := trace.filterMap deletionOf

def markings (trace : List Step) : List UUID := trace.flatMap markingOf

/-- The `paste_expired` events of a trace. -/
def expiries (trace : List Step) : List Event :=
  (trace.filterMap eventOf).filter fun event => event.kind = .pasteExpired

/-- A trace without any work on expired pastes. -/
def Quiet (trace : List Step) : Prop :=
  deletions trace = [] ∧ markings trace = [] ∧ expiries trace = []

@[simp]
theorem deletions_append (front back : List Step) :
    deletions (front ++ back) = deletions front ++ deletions back := List.filterMap_append

@[simp]
theorem markings_append (front back : List Step) :
    markings (front ++ back) = markings front ++ markings back := List.flatMap_append

@[simp]
theorem expiries_append (front back : List Step) :
    expiries (front ++ back) = expiries front ++ expiries back := by
  rw [expiries, List.filterMap_append, List.filter_append]
  rfl

theorem Quiet.append {front back : List Step} (hfront : Quiet front) (hback : Quiet back) :
    Quiet (front ++ back) := by
  obtain ⟨hdeleted, hmarked, hexpired⟩ := hfront
  obtain ⟨hdeleted', hmarked', hexpired'⟩ := hback
  refine ⟨?_, ?_, ?_⟩
  · rw [deletions_append, hdeleted, hdeleted', List.append_nil]
  · rw [markings_append, hmarked, hmarked', List.append_nil]
  · rw [expiries_append, hexpired, hexpired', List.append_nil]

/-- The rows whose body deletion succeeds. -/
def swept (fails : UUID → Bool) (rows : List PasteMeta) : List PasteMeta :=
  rows.filter fun m => !fails m.id

section Pass

variable (sys : Params) (fails : UUID → Bool)

theorem alone_expireBatch (now : ℤ) (rows : List PasteMeta) (store : Store) :
    ∃ after trace,
      (machine sys).alone (sweepChoice fails) store (expireBatch now rows) =
        some (((swept fails rows).map PasteMeta.id, rows.any fun m => fails m.id), after, trace) ∧
      after.pastes = store.pastes ∧
      deletions trace = (swept fails rows).map PasteMeta.id ∧ markings trace = [] ∧
      expiries trace = (swept fails rows).map (expiredEvent now) := by
  induction rows generalizing store with
  | nil => exact ⟨store, [], rfl, rfl, rfl, rfl, rfl⟩
  | cons m rest ih =>
      cases hfails : fails m.id with
      | true =>
          obtain ⟨after, trace, halone, hpastes, hdeleted, hmarked, hexpired⟩ := ih store
          have hexec : (machine sys).exec store (.bodiesDelete m.id)
              (sweepChoice fails (.bodiesDelete m.id)) =
                some (.error refusedDelete, store) := by
            simp [machine, exec, sweepChoice, hfails, failure, refusedDelete]
          refine ⟨after, [⟨.bodiesDelete m.id, .error refusedDelete⟩] ++ (trace ++ []), ?_,
            hpastes, ?_⟩
          · rw [expireBatch]
            refine Machine.alone_bind (Machine.alone_call hexec rfl) (Machine.alone_bind halone ?_)
            simp [Machine.alone, swept, hfails]
          · simp only [deletions_append, markings_append, expiries_append, hdeleted, hmarked,
              hexpired]
            simp [swept, hfails, deletions, markings, expiries, deletionOf, markingOf, eventOf]
      | false =>
          let deleted : Store := { store with redis := Bodies.delete store.redis m.id }
          have hexec : (machine sys).exec store (.bodiesDelete m.id)
              (sweepChoice fails (.bodiesDelete m.id)) = some (.ok (), deleted) := by
            simp [machine, exec, sweepChoice, hfails, answer, Store.writeRedis, deleted]
          obtain ⟨after, trace, halone, hpastes, hdeleted, hmarked, hexpired⟩ :=
            ih { deleted with audit := deleted.audit ++
              [{ expiredEvent now m with atTime := pgTime now }] }
          refine ⟨after, [⟨.bodiesDelete m.id, .ok ()⟩] ++
            ([⟨.auditRecord (expiredEvent now m), ()⟩] ++ (trace ++ [])), ?_, hpastes, ?_⟩
          · rw [expireBatch]
            refine Machine.alone_bind (Machine.alone_call hexec rfl)
              (Machine.alone_bind (Machine.alone_call rfl rfl) (Machine.alone_bind halone ?_))
            simp [Machine.alone, swept, hfails]
          · simp only [deletions_append, markings_append, expiries_append, hdeleted, hmarked,
              hexpired]
            simp [swept, hfails, deletions, markings, expiries, deletionOf, markingOf, eventOf,
              expiredEvent]

theorem alone_markAudited (ids : List UUID) (now : ℤ) (store : Store) :
    ∃ trace,
      (machine sys).alone (sweepChoice fails) store (markAudited ids now) =
        some (.ok (), { store with pastes := store.pastes.markExpiredAudited ids now }, trace) ∧
      deletions trace = [] ∧ markings trace = ids ∧ expiries trace = [] := by
  unfold markAudited
  split
  · rename_i hempty
    exact ⟨[], by simp [Machine.alone, Pastes.markExpiredAudited, hempty, pure], rfl,
      hempty.symm, rfl⟩
  · refine ⟨[⟨.metasMarkExpiredAudited ids now, .ok ()⟩], Machine.alone_call rfl rfl, rfl, ?_, rfl⟩
    simp [markings, markingOf]

theorem alone_recordPurge {kind : EventKind} (hkind : kind ≠ .pasteExpired) (now : ℤ) (count : ℕ)
    (store : Store) :
    ∃ after trace,
      (machine sys).alone (sweepChoice fails) store (recordPurge kind now count) =
        some ((), after, trace) ∧ after.pastes = store.pastes ∧ Quiet trace := by
  unfold recordPurge
  split
  · refine ⟨_, [⟨.auditRecord (purgedEvent kind now count), ()⟩], Machine.alone_call rfl rfl, rfl,
      rfl, rfl, ?_⟩
    simp [expiries, eventOf, purgedEvent, hkind]
  · exact ⟨store, [], rfl, rfl, rfl, rfl, rfl⟩

theorem alone_countActive (now : ℤ) (stats : Stats) (store : Store) :
    ∃ stats' trace,
      (machine sys).alone (sweepChoice fails) store (countActive now stats) =
        some ((stats', none), store, trace) ∧ stats'.expired = stats.expired ∧ Quiet trace :=
  ⟨{ stats with active := store.pastes.countActive now },
    [⟨.metasCountActive now, .ok (store.pastes.countActive now)⟩],
    rfl, rfl, rfl, rfl, rfl⟩

theorem alone_purgeAudit (cfg : Sweeper.Config) (now : ℤ) (stats : Stats) (store : Store) :
    ∃ stats' after trace,
      (machine sys).alone (sweepChoice fails) store (purgeAudit cfg now stats) =
        some ((stats', none), after, trace) ∧ stats'.expired = stats.expired ∧
      after.pastes = store.pastes ∧ Quiet trace := by
  unfold purgeAudit
  split
  · let isOld := fun event : Event =>
      decide (event.atTime < pgTime (daysBefore now cfg.auditRetentionDays))
    let purged : Store := { store with audit := store.audit.filter fun event => !isOld event }
    obtain ⟨mid, recorded, hrecord, hpastes, hquiet⟩ :=
      alone_recordPurge sys fails (show EventKind.auditPurged ≠ .pasteExpired by decide) now
        (store.audit.countP isOld) purged
    obtain ⟨stats', counted, hcount, hexpired, hquiet'⟩ :=
      alone_countActive sys fails now
        { stats with auditPurged := store.audit.countP isOld } mid
    exact ⟨stats', mid, _, Machine.alone_bind (Machine.alone_call rfl rfl)
      (Machine.alone_bind hrecord hcount), hexpired, hpastes,
      Quiet.append ⟨rfl, rfl, rfl⟩ (hquiet.append hquiet')⟩
  · obtain ⟨stats', trace, hcount, hexpired, hquiet⟩ :=
      alone_countActive sys fails now stats store
    exact ⟨stats', store, trace, hcount, hexpired, rfl, hquiet⟩

/-- The rows retention removes are completed, or nothing was left pending. -/
theorem alone_purgeMetadata (cfg : Sweeper.Config) (now : ℤ) (retryPending : Bool)
    (store : Store) :
    ∃ count after trace, ∃ purged : PasteMeta → Bool,
      (machine sys).alone (sweepChoice fails) store (purgeMetadata cfg now retryPending) =
        some (.ok count, after, trace) ∧
      after.pastes.rows = store.pastes.rows.filter (fun m => !purged m) ∧
      (∀ m, purged m = true → Pastes.isCompleted m = true ∨ retryPending = false) ∧
      Quiet trace := by
  unfold purgeMetadata
  split
  · refine ⟨_, _, [_], _, Machine.alone_call rfl rfl, rfl, fun m hpurged => .inl ?_, rfl, rfl, rfl⟩
    simp only [Bool.and_eq_true] at hpurged
    exact hpurged.2
  · split
    · rename_i hpending
      exact ⟨_, _, [_], _, Machine.alone_call rfl rfl, rfl,
        fun m _ => .inr (by simpa using hpending), rfl, rfl, rfl⟩
    · exact ⟨0, store, [], fun _ => false, rfl, by simp, by simp, rfl, rfl, rfl⟩

theorem alone_retain (cfg : Sweeper.Config) (now : ℤ) (retryPending : Bool) (stats : Stats)
    (store : Store) :
    ∃ stats' after trace, ∃ purged : PasteMeta → Bool,
      (machine sys).alone (sweepChoice fails) store (retain cfg now retryPending stats) =
        some ((stats', none), after, trace) ∧ stats'.expired = stats.expired ∧
      after.pastes.rows = store.pastes.rows.filter (fun m => !purged m) ∧
      (∀ m, purged m = true → Pastes.isCompleted m = true ∨ retryPending = false) ∧
      Quiet trace := by
  unfold retain
  split
  · obtain ⟨count, first, purging, purged, hpurge, hrows, hpurged, hquiet⟩ :=
      alone_purgeMetadata sys fails cfg now retryPending store
    obtain ⟨second, recorded, hrecord, hpastes, hquiet'⟩ :=
      alone_recordPurge sys fails (show EventKind.metadataPurged ≠ .pasteExpired by decide) now
        count first
    obtain ⟨stats', last, trace, haudit, hexpired, hpastes', hquiet''⟩ :=
      alone_purgeAudit sys fails cfg now
        { stats with metadataPurged := count } second
    refine ⟨stats', last, _, purged,
      Machine.alone_bind hpurge (Machine.alone_bind hrecord haudit), hexpired, ?_, hpurged,
      hquiet.append (hquiet'.append hquiet'')⟩
    rw [hpastes', hpastes, hrows]
  · obtain ⟨stats', last, trace, haudit, hexpired, hpastes, hquiet⟩ :=
      alone_purgeAudit sys fails cfg now stats store
    exact ⟨stats', last, trace, fun _ => false, haudit, hexpired, by simp [hpastes], by simp,
      hquiet⟩

/-- What a pass does: the rows of the batch whose body deletion succeeds are
deleted, audited and marked, in order; retention then removes only completed rows,
or the batch was not full and no deletion failed. -/
theorem pass_eq (store : Store) :
    ∃ stats after trace, ∃ purged : PasteMeta → Bool,
      let listed := store.pastes.listExpiredUnaudited store.clock sys.sweeper.batchSize
      pass sys fails store = some ((stats, none), after, trace) ∧
      stats.expired = (swept fails listed).length ∧
      deletions trace = (swept fails listed).map PasteMeta.id ∧
      markings trace = (swept fails listed).map PasteMeta.id ∧
      expiries trace = (swept fails listed).map (expiredEvent store.clock) ∧
      after.pastes.rows =
        (store.pastes.markExpiredAudited ((swept fails listed).map PasteMeta.id)
          store.clock).rows.filter (fun m => !purged m) ∧
      ∀ m, purged m = true → Pastes.isCompleted m = true ∨
        (listed.length < sys.sweeper.batchSize ∧ ∀ row ∈ listed, fails row.id = false) := by
  let listed := store.pastes.listExpiredUnaudited store.clock sys.sweeper.batchSize
  obtain ⟨first, batch, hbatch, hpastes, hdeleted, hmarked, hexpired⟩ :=
    alone_expireBatch sys fails store.clock listed store
  obtain ⟨marking, hmark, hdeleted', hmarked', hexpired'⟩ :=
    alone_markAudited sys fails ((swept fails listed).map PasteMeta.id) store.clock first
  obtain ⟨stats, after, retaining, purged, hretain, hstats, hrows, hpurged, hquiet⟩ :=
    alone_retain sys fails sys.sweeper store.clock
      (decide (sys.sweeper.batchSize ≤ listed.length) || listed.any fun m => fails m.id)
      { Stats.zero with expired := ((swept fails listed).map PasteMeta.id).length }
      { first with pastes :=
        first.pastes.markExpiredAudited ((swept fails listed).map PasteMeta.id) store.clock }
  obtain ⟨hdeleted'', hmarked'', hexpired''⟩ := hquiet
  refine ⟨stats, after, [⟨.now, store.clock⟩] ++
    ([⟨.metasListExpiredUnaudited store.clock sys.sweeper.batchSize, .ok listed⟩] ++
      (batch ++ (marking ++ retaining))), purged, ?_, ?_, ?_, ?_, ?_, ?_, ?_⟩
  · unfold pass runOnce
    exact Machine.alone_bind (Machine.alone_call rfl rfl)
      (Machine.alone_bind (Machine.alone_call rfl rfl)
        (Machine.alone_bind hbatch (Machine.alone_bind hmark hretain)))
  · rw [hstats, List.length_map]
  · simp only [deletions_append, hdeleted, hdeleted', hdeleted'', List.append_nil]
    rfl
  · simp only [markings_append, hmarked, hmarked', hmarked'', List.append_nil]
    rfl
  · simp only [expiries_append, hexpired, hexpired', hexpired'', List.append_nil]
    rfl
  · rw [hrows, hpastes]
  · intro m hm
    refine (hpurged m hm).imp_right fun hpending => ?_
    simpa using hpending

end Pass

/-! ## What is left of the backlog -/

/-- Expired by `bound`, and neither deleted nor audited. -/
def isPending (bound : ℤ) (m : PasteMeta) : Bool :=
  m.expiresAt ≤ bound && m.deletedAt.isNone && m.expiredAuditedAt.isNone

def backlog (pastes : Pastes) (bound : ℤ) : List PasteMeta :=
  pastes.ordered (isPending bound) Pastes.firstToExpire

theorem nodup_backlog (pastes : Pastes) (bound : ℤ) :
    ((backlog pastes bound).map PasteMeta.id).Nodup :=
  pastes.nodup_ordered (isPending bound) Pastes.firstToExpire

theorem backlog_congr {bound bound' : ℤ}
    (hrows : pastes'.rows.filter (isPending bound') = pastes.rows.filter (isPending bound)) :
    backlog pastes' bound' = backlog pastes bound := by
  rw [backlog, backlog, Table.ordered, Table.ordered, hrows]

/-- No expired row with this id waits for its mark. -/
def Settled (bound : ℤ) (pastes : Pastes) (id : UUID) : Prop :=
  ∀ m ∈ pastes.rows, m.id = id → m.expiresAt ≤ bound → m.expiredAuditedAt ≠ none

/-- Exactly the bound's pastes have expired at the store's time. -/
def ExpiredBy (bound : ℤ) (store : Store) : Prop :=
  ∀ m ∈ store.pastes.rows, m.expiresAt ≤ pgTime store.clock ↔ m.expiresAt ≤ bound

theorem ExpiredBy.listed {store : Store} (hbound : ExpiredBy bound store) (limit : ℕ) :
    store.pastes.listExpiredUnaudited store.clock limit =
      (backlog store.pastes bound).take limit := by
  have hpending : store.pastes.rows.filter (isPending (pgTime store.clock)) =
      store.pastes.rows.filter (isPending bound) :=
    List.filter_congr fun m hm => by simp only [isPending, hbound m hm]
  rw [← backlog_congr hpending]
  exact Table.select_eq_take _ _ _ _

/-- A mark as it is set on one row. -/
def setMark (ids : List UUID) (time : ℤ) (m : PasteMeta) : PasteMeta :=
  if m.id ∈ ids ∧ m.expiredAuditedAt = none then { m with expiredAuditedAt := some (pgTime time) }
  else m

theorem rows_markExpiredAudited (pastes : Pastes) (ids : List UUID) (time : ℤ) :
    (pastes.markExpiredAudited ids time).rows = pastes.rows.map (setMark ids time) := by
  unfold Pastes.markExpiredAudited
  split
  · rename_i hempty
    have hsame : setMark ids time = id := funext fun m => by simp [setMark, hempty]
    rw [hsame, List.map_id]
  · exact List.map_congr_left fun m _ => by simp [setMark]

theorem setMark_id (ids : List UUID) (time : ℤ) (m : PasteMeta) :
    (setMark ids time m).id = m.id := by
  unfold setMark
  split <;> rfl

theorem setMark_expiresAt (ids : List UUID) (time : ℤ) (m : PasteMeta) :
    (setMark ids time m).expiresAt = m.expiresAt := by
  unfold setMark
  split <;> rfl

/-- Where `f` keeps what is selected, selecting after it is selecting before it. -/
private theorem filter_map_of_fixed {f : PasteMeta → PasteMeta} {after before : PasteMeta → Bool}
    {rows : List PasteMeta} (hselect : ∀ m ∈ rows, after (f m) = before m)
    (hfixed : ∀ m ∈ rows, before m = true → f m = m) :
    (rows.map f).filter after = rows.filter before := by
  have hsame : rows.filter (after ∘ f) = rows.filter before := List.filter_congr hselect
  rw [List.filter_map, hsame]
  conv_rhs => rw [← List.map_id (rows.filter before)]
  exact List.map_congr_left fun m hm =>
    hfixed m (List.mem_filter.mp hm).1 (List.mem_filter.mp hm).2

/-- Marking `ids` and removing rows that are not pending takes `ids` off the backlog. -/
theorem backlog_of_marked {bound time : ℤ} {ids : List UUID}
    (hrows : pastes'.rows = (pastes.markExpiredAudited ids time).rows.filter fun m => !purged m)
    (hpurged : ∀ m ∈ pastes.rows, isPending bound m = true → m.id ∉ ids → purged m = false) :
    backlog pastes' bound = (backlog pastes bound).filter fun m => m.id ∉ ids := by
  refine Table.ordered_of_filter Pastes.firstToExpire_total Pastes.firstToExpire_trans
    Pastes.firstToExpire_antisymm ?_
  rw [hrows, rows_markExpiredAudited, List.filter_filter, List.filter_filter]
  refine filter_map_of_fixed (fun m hm => ?_) fun m hm hkept => ?_
  · by_cases hid : m.id ∈ ids
    · by_cases hmarked : m.expiredAuditedAt = none
      · simp [setMark, hid, hmarked, isPending]
      · simp [setMark, hid, hmarked, isPending]
    · have hsame : setMark ids time m = m := by simp [setMark, hid]
      rw [hsame]
      cases hpending : isPending bound m with
      | false => simp
      | true => simp [hpurged m hm hpending hid, hid]
  · simp only [Bool.and_eq_true, decide_eq_true_eq] at hkept
    simp [setMark, hkept.1]

theorem settled_of_marked {bound time : ℤ} {ids : List UUID} {id : UUID}
    (hrows : pastes'.rows = (pastes.markExpiredAudited ids time).rows.filter fun m => !purged m)
    (hid : id ∈ ids ∨ Settled bound pastes id) : Settled bound pastes' id := by
  intro m hm hname hexpired
  rw [hrows, rows_markExpiredAudited] at hm
  obtain ⟨row, hrow, rfl⟩ := List.mem_map.mp (List.mem_filter.mp hm).1
  rw [setMark_id] at hname
  rw [setMark_expiresAt] at hexpired
  by_cases hmark : row.id ∈ ids ∧ row.expiredAuditedAt = none
  · simp [setMark, hmark]
  · have hsame : setMark ids time row = row := if_neg hmark
    rw [hsame]
    rcases hid with hmem | hsettled
    · exact fun hnone => hmark ⟨hname ▸ hmem, hnone⟩
    · exact hsettled row hrow hname hexpired

/-! ## Passes in sequence -/

structure Report where
  now : ℤ
  stats : Stats
  err : Option Err
  trace : List Step

/-- A pass that deleted, audited and marked exactly these rows, in this order. -/
structure Took (rows : List PasteMeta) (report : Report) : Prop where
  err : report.err = none
  expired : report.stats.expired = rows.length
  deletions : deletions report.trace = rows.map PasteMeta.id
  markings : markings report.trace = rows.map PasteMeta.id
  expiries : expiries report.trace = rows.map (expiredEvent report.now)

theorem of_pass {sys : Params} {fails : UUID → Bool} {store after : Store} {stats : Stats}
    {err : Option Err} (hbound : ExpiredBy bound store)
    (hpass : pass sys fails store = some ((stats, err), after, trace)) :
    let took := swept fails ((backlog store.pastes bound).take sys.sweeper.batchSize)
    Took took ⟨store.clock, stats, err, trace⟩ ∧
      backlog after.pastes bound =
        (backlog store.pastes bound).filter (fun m => m.id ∉ took.map PasteMeta.id) ∧
      ∀ id, id ∈ took.map PasteMeta.id ∨ Settled bound store.pastes id →
        Settled bound after.pastes id := by
  obtain ⟨stats', after', trace', purged, hpass', hexpired, hdeleted, hmarked, hevents, hrows,
    hpurged⟩ := pass_eq sys fails store
  rw [hpass] at hpass'
  cases hpass'
  rw [hbound.listed] at hexpired hdeleted hmarked hevents hrows hpurged
  refine ⟨⟨rfl, hexpired, hdeleted, hmarked, hevents⟩, backlog_of_marked hrows ?_,
    fun id hid => settled_of_marked hrows hid⟩
  -- a pending row that was not swept is not completed, and was listed if all were
  intro m hm hpending hid
  by_contra hgone
  rcases hpurged m (by simpa using hgone) with hcompleted | ⟨hshort, hnone⟩
  · simp only [isPending, Bool.and_eq_true, Option.isNone_iff_eq_none] at hpending
    simp [Pastes.isCompleted, hpending.1.2, hpending.2] at hcompleted
  · have hall : (backlog store.pastes bound).length ≤ sys.sweeper.batchSize := by
      rw [List.length_take] at hshort
      omega
    rw [List.take_of_length_le hall] at hid hnone
    have hmem : m ∈ backlog store.pastes bound := Table.mem_ordered.mpr ⟨hm, hpending⟩
    exact hid (List.mem_map.mpr ⟨m, List.mem_filter.mpr ⟨hmem, by simp [hnone m hmem]⟩, rfl⟩)

/-- Work between two passes: the expired rows stay as they are, and no further
paste expires. -/
structure Undisturbed (bound : ℤ) (store store' : Store) : Prop where
  rows : store'.pastes.rows.filter (fun m => m.expiresAt ≤ bound) =
    store.pastes.rows.filter (fun m => m.expiresAt ≤ bound)
  bound : ExpiredBy bound store'

theorem Undisturbed.backlog {store store' : Store} (hundisturbed : Undisturbed bound store store') :
    backlog store'.pastes bound = backlog store.pastes bound := by
  have hsplit : ∀ rows : List PasteMeta, rows.filter (isPending bound) =
      (rows.filter fun m => m.expiresAt ≤ bound).filter (isPending bound) := by
    intro rows
    rw [List.filter_filter]
    refine List.filter_congr fun m _ => ?_
    simp only [isPending]
    cases decide (m.expiresAt ≤ bound) <;> simp
  refine backlog_congr ?_
  rw [hsplit, hundisturbed.rows, ← hsplit]

theorem Undisturbed.settled {store store' : Store} {id : UUID}
    (hundisturbed : Undisturbed bound store store') (hsettled : Settled bound store.pastes id) :
    Settled bound store'.pastes id := by
  intro m hm hid hexpired
  have hmem : m ∈ store'.pastes.rows.filter (fun m => m.expiresAt ≤ bound) :=
    List.mem_filter.mpr ⟨hm, decide_eq_true hexpired⟩
  rw [hundisturbed.rows] at hmem
  exact hsettled m (List.mem_filter.mp hmem).1 hid hexpired

/-- Passes without a failure, one after the other. -/
inductive Passes (sys : Params) (bound : ℤ) : Store → List Report → Store → Prop
  | nil (store : Store) : Passes sys bound store [] store
  | cons {store before after last : Store} {stats : Stats} {err : Option Err}
      {trace : List Step} {reports : List Report} (hundisturbed : Undisturbed bound store before)
      (hpass : pass sys (fun _ => false) before = some ((stats, err), after, trace))
      (hrest : Passes sys bound after reports last) :
      Passes sys bound store (⟨before.clock, stats, err, trace⟩ :: reports) last

theorem swept_none (rows : List PasteMeta) : swept (fun _ => false) rows = rows := by
  simp [swept]

/-- Without its first rows, by their ids. -/
private theorem filter_notMem_take {rows : List PasteMeta}
    (hnodup : (rows.map PasteMeta.id).Nodup) (count : ℕ) :
    rows.filter (fun m => m.id ∉ (rows.take count).map PasteMeta.id) = rows.drop count := by
  have hdisjoint : ((rows.take count).map PasteMeta.id).Disjoint
      ((rows.drop count).map PasteMeta.id) := by
    rw [← List.take_append_drop count rows, List.map_append] at hnodup
    simpa using List.disjoint_of_nodup_append hnodup
  conv_lhs => rw [← List.take_append_drop count rows, List.filter_append]
  rw [List.take_append_drop]
  have htaken : (rows.take count).filter
      (fun m => m.id ∉ (rows.take count).map PasteMeta.id) = [] := by
    rw [List.filter_eq_nil_iff]
    intro m hm hnot
    exact of_decide_eq_true hnot (List.mem_map_of_mem hm)
  have hkept : (rows.drop count).filter
      (fun m => m.id ∉ (rows.take count).map PasteMeta.id) = rows.drop count := by
    rw [List.filter_eq_self]
    intro m hm
    exact decide_eq_true fun htake => hdisjoint htake (List.mem_map_of_mem hm)
  rw [htaken, hkept, List.nil_append]

section Passes

variable {sys : Params} {bound : ℤ} {store last : Store} {reports : List Report}

/-- The first pass takes the first batch off the backlog. -/
theorem of_first {before after : Store} {stats : Stats} {err : Option Err}
    (hundisturbed : Undisturbed bound store before)
    (hpass : pass sys (fun _ => false) before = some ((stats, err), after, trace)) :
    let rows := backlog store.pastes bound
    Took (rows.take sys.sweeper.batchSize) ⟨before.clock, stats, err, trace⟩ ∧
      backlog after.pastes bound = rows.drop sys.sweeper.batchSize ∧
      ∀ id, id ∈ (rows.take sys.sweeper.batchSize).map PasteMeta.id ∨
        Settled bound store.pastes id → Settled bound after.pastes id := by
  obtain ⟨htook, hleft, hsettled⟩ := of_pass hundisturbed.bound hpass
  rw [swept_none, hundisturbed.backlog] at htook hleft hsettled
  rw [filter_notMem_take (nodup_backlog store.pastes bound)] at hleft
  exact ⟨htook, hleft, fun id hid => hsettled id (hid.imp_right hundisturbed.settled)⟩

theorem Passes.took (hpasses : Passes sys bound store reports last) {k : ℕ} {report : Report}
    (hreport : reports[k]? = some report) :
    Took (((backlog store.pastes bound).drop (k * sys.sweeper.batchSize)).take
      sys.sweeper.batchSize) report := by
  induction hpasses generalizing k with
  | nil => simp at hreport
  | cons hundisturbed hpass _ ih =>
      obtain ⟨htook, hleft, _⟩ := of_first hundisturbed hpass
      cases k with
      | zero =>
          cases hreport
          simpa using htook
      | succ k =>
          have hrest := ih (k := k) (by simpa using hreport)
          rwa [hleft, List.drop_drop, Nat.add_comm, ← Nat.succ_mul] at hrest

/-- What all passes together took, and what is left. -/
theorem Passes.total (hpasses : Passes sys bound store reports last) :
    let rows := (backlog store.pastes bound).take (reports.length * sys.sweeper.batchSize)
    reports.flatMap (fun report => deletions report.trace) = rows.map PasteMeta.id ∧
      reports.flatMap (fun report => (expiries report.trace).map Event.pasteId) =
        rows.map (fun m => some m.id) ∧
      backlog last.pastes bound =
        (backlog store.pastes bound).drop (reports.length * sys.sweeper.batchSize) ∧
      ∀ id, id ∈ rows.map PasteMeta.id ∨ Settled bound store.pastes id →
        Settled bound last.pastes id := by
  induction hpasses with
  | nil => simp
  | @cons store before after last stats err trace reports hundisturbed hpass hrest ih =>
      obtain ⟨htook, hleft, hsettled⟩ := of_first hundisturbed hpass
      obtain ⟨hdeleted, hexpired, hlast, hsettled'⟩ := ih
      have hlength : (⟨before.clock, stats, err, trace⟩ :: reports : List Report).length *
          sys.sweeper.batchSize =
            sys.sweeper.batchSize + reports.length * sys.sweeper.batchSize := by
        rw [List.length_cons, Nat.succ_mul, Nat.add_comm]
      rw [hleft] at hdeleted hexpired hlast hsettled'
      rw [hlength, List.take_add]
      refine ⟨?_, ?_, ?_, fun id hid => ?_⟩
      · rw [List.flatMap_cons, hdeleted, htook.deletions, List.map_append]
      · rw [List.flatMap_cons, hexpired, htook.expiries, List.map_append, List.map_map]
        rfl
      · rw [hlast, List.drop_drop]
      · rw [List.map_append, List.mem_append] at hid
        rcases hid with (hfirst | hlater) | hbefore
        · exact hsettled' id (.inr (hsettled id (.inl hfirst)))
        · exact hsettled' id (.inl hlater)
        · exact hsettled' id (.inr (hsettled id (.inr hbefore)))

/-- Passes can always be made. -/
theorem exists_passes (sys : Params) {before : Store}
    (hundisturbed : Undisturbed bound store before) (count : ℕ) :
    ∃ reports last, reports.length = count ∧ Passes sys bound store reports last := by
  induction count generalizing store before with
  | zero => exact ⟨[], store, rfl, .nil store⟩
  | succ count ih =>
      obtain ⟨stats, after, trace, purged, hpass, _, _, _, _, hrows, _⟩ :=
        pass_eq sys (fun _ => false) before
      -- at the time of this pass no further paste has expired
      have hbound : ExpiredBy bound { after with clock := before.clock } := by
        intro m hm
        change m ∈ after.pastes.rows at hm
        rw [hrows, rows_markExpiredAudited] at hm
        obtain ⟨row, hrow, rfl⟩ := List.mem_map.mp (List.mem_filter.mp hm).1
        rw [setMark_expiresAt]
        exact hundisturbed.bound row hrow
      have hundisturbed' : Undisturbed bound after { after with clock := before.clock } :=
        ⟨rfl, hbound⟩
      obtain ⟨reports, last, hlength, hpasses⟩ := ih hundisturbed'
      exact ⟨_ :: reports, last, by rw [List.length_cons, hlength],
        .cons hundisturbed hpass hpasses⟩

end Passes

/-- The backlog drains exactly once.  Pass `k` takes the next batch in the order of
the query; what it does not take stays; once the passes suffice for the backlog
every row has one deletion and one event and waits for no mark; later passes record
no expiry.  A pass in which deletions fail leaves exactly the rows concerned. -/
theorem backlog_drains (sys : Params) (bound : ℤ) (store : Store) :
    let rows := backlog store.pastes bound
    let b := sys.sweeper.batchSize
    (∀ fails, ∃ stats after trace, pass sys fails store = some ((stats, none), after, trace)) ∧
    (∀ reports last, Passes sys bound store reports last →
      (∀ (k : ℕ) report, reports[k]? = some report →
        Took ((rows.drop (k * b)).take b) report ∧
        report.stats.expired = min b (rows.length - k * b) ∧
        (rows.length ≤ k * b → expiries report.trace = [])) ∧
      backlog last.pastes bound = rows.drop (reports.length * b) ∧
      ((rows.length + b - 1) / b ≤ reports.length → ∀ m ∈ rows,
        Settled bound last.pastes m.id ∧
        (reports.flatMap fun report => deletions report.trace).count m.id = 1 ∧
        (reports.flatMap fun report => (expiries report.trace).map Event.pasteId).count
          (some m.id) = 1)) ∧
    (ExpiredBy bound store → ∀ fails stats err after trace,
      pass sys fails store = some ((stats, err), after, trace) →
      Took (swept fails (rows.take b)) ⟨store.clock, stats, err, trace⟩ ∧
      ∀ m ∈ rows.take b,
        (fails m.id = true → m ∈ after.pastes.rows ∧ m.expiredAuditedAt = none) ∧
        (fails m.id = false → Settled bound after.pastes m.id)) := by
  intro rows b
  have hbatch : 0 < b := by
    simp only [b, Sweeper.Config.batchSize]
    split <;> omega
  refine ⟨fun fails => ?_, fun reports last hpasses => ⟨fun k report hreport => ?_, ?_, ?_⟩,
    fun hbound fails stats err after trace hpass => ?_⟩
  · obtain ⟨stats, after, trace, _, hpass, _⟩ := pass_eq sys fails store
    exact ⟨stats, after, trace, hpass⟩
  · have htook := hpasses.took hreport
    refine ⟨htook, ?_, fun hdone => ?_⟩
    · rw [htook.expired, List.length_take, List.length_drop]
    · rw [htook.expiries, List.drop_of_length_le hdone, List.take_nil, List.map_nil]
  · exact hpasses.total.2.2.1
  · intro henough m hm
    obtain ⟨hdeleted, hexpired, _, hsettled⟩ := hpasses.total
    have hall : rows.length ≤ reports.length * b := by
      have := (Nat.div_le_iff_le_mul_add_pred hbatch).mp henough
      rw [Nat.mul_comm] at this
      omega
    rw [List.take_of_length_le hall] at hdeleted hexpired hsettled
    have hnodup := nodup_backlog store.pastes bound
    refine ⟨hsettled m.id (.inl (List.mem_map_of_mem hm)), ?_, ?_⟩
    · rw [hdeleted]
      exact List.count_eq_one_of_mem hnodup (List.mem_map_of_mem hm)
    · rw [hexpired]
      refine List.count_eq_one_of_mem ?_ (List.mem_map.mpr ⟨m, hm, rfl⟩)
      have hsome := hnodup.map (Option.some_injective UUID)
      rwa [List.map_map] at hsome
  · obtain ⟨htook, hleft, hsettled⟩ := of_pass hbound hpass
    refine ⟨htook, fun m hm => ⟨fun hfails => ?_, fun hdeleted => ?_⟩⟩
    · have hmem : m ∈ backlog after.pastes bound := by
        rw [hleft]
        refine List.mem_filter.mpr ⟨List.mem_of_mem_take hm, decide_eq_true fun hswept => ?_⟩
        obtain ⟨row, hrow, hid⟩ := List.mem_map.mp hswept
        have hrow' := (List.mem_filter.mp hrow).2
        rw [hid, hfails] at hrow'
        exact Bool.noConfusion hrow'
      obtain ⟨hpresent, hpending⟩ := Table.mem_ordered.mp hmem
      simp only [isPending, Bool.and_eq_true, Option.isNone_iff_eq_none] at hpending
      exact ⟨hpresent, hpending.2⟩
    · refine hsettled m.id (.inl (List.mem_map.mpr ⟨m, List.mem_filter.mpr ⟨hm, ?_⟩, rfl⟩))
      rw [hdeleted]
      rfl

namespace Sample

/-- A row that expired at `expiresAt`. -/
def expiredRow (byte : UInt8) (expiresAt : ℤ) : PasteMeta where
  id := .filled byte
  ownerId := owner.userId
  createdAt := 0
  expiresAt := expiresAt
  ttlSeconds := 60
  sizeBytes := 5
  hashAlgo := ascii "sha256"
  contentHash := []
  passwordProtected := false
  kekId := ascii "k1"
  viewCount := 0
  expiredAuditedAt := none
  deletedAt := none
  deletedBy := none

/-- Three expired rows, out of order, and one still active. -/
def expiredPastes : Pastes where
  rows := [expiredRow 3 2000, expiredRow 1 2000, expiredRow 2 1000, expiredRow 4 9000000]
  nodup := by decide

def sweepingStore : Store :=
  { Store.empty 5000 Crypto.Sample.envelope with pastes := expiredPastes }

def sweepingParams : Params := { params with sweeper := ⟨30, 90, 2, true, true⟩ }

theorem expiredBy_sweepingStore : ExpiredBy 5000 sweepingStore := by
  unfold ExpiredBy
  decide +kernel

end Sample

/-- Three rows in batches of two are drained by two passes. -/
theorem backlog_drains_sample :
    (backlog Sample.sweepingStore.pastes 5000).map PasteMeta.expiresAt = [1000, 2000, 2000] ∧
      ∃ reports last, reports.length = 2 ∧
        Passes Sample.sweepingParams 5000 Sample.sweepingStore reports last ∧
        ∀ m ∈ backlog Sample.sweepingStore.pastes 5000, Settled 5000 last.pastes m.id ∧
          (reports.flatMap fun report => deletions report.trace).count m.id = 1 := by
  have hundisturbed : Undisturbed 5000 Sample.sweepingStore Sample.sweepingStore :=
    ⟨rfl, Sample.expiredBy_sweepingStore⟩
  obtain ⟨reports, last, hlength, hpasses⟩ := exists_passes Sample.sweepingParams hundisturbed 2
  obtain ⟨_, hdrains, _⟩ := backlog_drains Sample.sweepingParams 5000 Sample.sweepingStore
  obtain ⟨_, _, hdone⟩ := hdrains reports last hpasses
  refine ⟨by decide +kernel, reports, last, hlength, hpasses, fun m hm => ?_⟩
  obtain ⟨hsettled, hdeleted, _⟩ := hdone (by rw [hlength]; decide +kernel) m hm
  exact ⟨hsettled, hdeleted⟩

end SecurePastebin.System
