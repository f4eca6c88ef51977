import SecurePastebin.System.Clock
import SecurePastebin.System.Removal

/-!
# Cleanup before forgetting

A row is marked only after its body has gone and its expiry was recorded, and
retention removes a row that was never deleted only when all that has happened.
A store that can tell completed rows does so by its query; the fallback relies
on a batch that left nothing behind, and on every `Create` being prompt.
-/

namespace SecurePastebin.System

open Text Uuid Calendar Paste
open Crypto SecurePastebin.Store Process Interleaving

variable {sys : Params} {s next : Config} {i : ℕ} {id : UUID} {clock : ℤ} {E : Envelope}
  {allowed : Config → Action → Prop}

/-- The row has expired by some reading of the clock, its body was removed and
is not there, and its expiry was recorded. -/
structure Processed (s : Config) (id : UUID) (m : PasteMeta) : Prop where
  expired : ∃ i now, s.Did i .now now ∧ m.expiresAt ≤ now
  removed : ∃ i, s.Did i (.bodiesDelete id) (.ok ())
  no_body : s.store.redis (Bodies.bodyKey id) = none
  recorded : ∃ i now m', m'.id = id ∧ s.Did i (.auditRecord (Sweeper.expiredEvent now m')) ()

/-- A `Create` inserts its row before anybody has read the clock as a day after
the `Create` did. -/
def isPrompt (s : Config) : Action → Bool
  | .advance i _ =>
      match s.pending? i with
      | some (.metasCreate m) => (readings s).all (· < m.createdAt + day)
      | _ => true
  | _ => true

theorem lt_of_isPrompt {choice : Choice} {m : PasteMeta} {j : ℕ} {time : ℤ}
    (hprompt : isPrompt s (.advance i choice) = true) (hpending : s.pending? i = some (.metasCreate m))
    (hdid : s.Did j .now time) : time < m.createdAt + day := by
  simp only [isPrompt, hpending, List.all_eq_true, decide_eq_true_eq] at hprompt
  exact hprompt time (mem_readings.mpr ⟨j, hdid⟩)

theorem MarkedLast.no_body {m : PasteMeta} (hlast : MarkedLast sys s)
    (hfind : s.store.pastes.find id = some m)
    (hmark : m.deletedAt ≠ none ∨ m.expiredAuditedAt ≠ none) :
    s.store.redis (Bodies.bodyKey id) = none := by
  obtain ⟨i, hdid⟩ := hlast.marked id m hfind hmark
  exact (hlast.removed i id hdid).2

/-- An audited row has been processed. -/
theorem MarkedLast.processed {m : PasteMeta} (hlast : MarkedLast sys s)
    (hfind : s.store.pastes.find id = some m) (haudited : m.expiredAuditedAt ≠ none) :
    Processed s id m := by
  obtain ⟨i, now, m', hnow, hexpired, hid, hevent⟩ := hlast.audited id m hfind haudited
  exact ⟨⟨i, now, hnow, hexpired⟩, hlast.marked id m hfind (.inr haudited),
    hlast.no_body hfind (.inr haudited), i, now, m', hid, hevent⟩

/-! ## What the fallback relies on -/

/-- Rows a pass has marked stay marked, and a batch that was not full has left
no expired row behind, except rows that came later. -/
structure BatchesComplete (s : Config) : Prop where
  marked : ∀ i ids time, s.Did i (.metasMarkExpiredAudited ids time) (.ok ()) →
    ∀ id ∈ ids, ∀ m, s.store.pastes.find id = some m → m.expiredAuditedAt ≠ none
  listed : ∀ i now limit rows, s.Did i (.metasListExpiredUnaudited now limit) (.ok rows) →
    rows.length < limit → ∀ id m, s.store.pastes.find id = some m → m.deletedAt = none →
    m.expiredAuditedAt = none → m.expiresAt ≤ pgTime now →
    (∃ m' ∈ rows, m'.id = id) ∨ pgTime now ≤ m.createdAt + day

theorem BatchesComplete.of_store (hbatches : BatchesComplete s) (hlog : next.log = s.log)
    (hpastes : next.store.pastes = s.store.pastes) : BatchesComplete next where
  marked i ids time hdid := by
    rw [Config.Did, hlog] at hdid
    rw [hpastes]
    exact hbatches.marked i ids time hdid
  listed i now limit rows hdid := by
    rw [Config.Did, hlog] at hdid
    rw [hpastes]
    exact hbatches.listed i now limit rows hdid

theorem pgTime_le_of_lt {now created : ℤ} (hlt : now < created + day) :
    pgTime now ≤ pgTime created + day := by
  simp only [pgTime, truncate, microsecond, day] at *
  omega

/-- A list call that was answered was preceded by the reading it passes on. -/
theorem now_of_listed (hwf : (machine sys).WellFormed s) {now : ℤ} {limit : ℕ}
    {rows : List PasteMeta} (hdid : s.Did i (.metasListExpiredUnaudited now limit) (.ok rows)) :
    s.Did i .now now := by
  obtain ⟨op, front, back, -, htrace, hreach⟩ := hwf.reaches_of_did hdid
  obtain ⟨-, rfl, -⟩ := call_metasListExpiredUnaudited hreach
  rw [Config.did_iff_mem_trace, htrace]
  simp

section

variable {op : Op} {request : Call} {reply : request.Reply} {store : Store} {choice : Choice}
  {proc : Port Result}

theorem BatchesComplete.answer (hbatches : BatchesComplete s) (hprov : Provenance sys s)
    (hwf : (machine sys).WellFormed s) (hprompt : isPrompt s (.advance i choice) = true)
    (hpending : s.pending? i = some request)
    (hreach : (program sys op).Reaches (s.trace i) (.inl request))
    (hexec : exec sys.prims s.store request choice = some (reply, store)) :
    BatchesComplete (s.answer i proc ⟨request, reply⟩ store) := by
  constructor
  case marked =>
    intro j ids time hdid id hid m hfind
    rcases Config.did_answer.mp hdid with hdid | ⟨-, heq⟩
    · rcases (exec_pastes hexec).row hfind with ⟨m', hinserted⟩ | ⟨m', hfind', hchange⟩
      · -- a row that was marked is not inserted again
        obtain ⟨op', front, back, -, htrace, hreach'⟩ := hwf.reaches_of_did hdid
        have hfront : front ⊆ s.trace j := by
          rw [htrace]
          exact List.subset_append_left _ _
        obtain ⟨-, -, m'', -, ⟨k, c, hlisted, hid', -⟩, -⟩ :=
          marked_audited hprov hfront hreach' hid
        have hid'' := hinserted.id_eq
        cases hinserted.step_eq
        exact (hprov.insert_once hreach hlisted (hid'.trans hid''.symm)).elim
      · have hold := hbatches.marked j ids time hdid id hid m' hfind'
        exact fun hnone => hold (hchange.unmarked.2 hnone)
    · cases heq
      exact (exec_pastes hexec).marked_audited hid hfind
  case listed =>
    intro j now limit rows hdid hlength id m hfind hdeleted haudited hexpired
    rcases Config.did_answer.mp hdid with hbefore | ⟨-, heq⟩
    · rcases (exec_pastes hexec).row hfind with ⟨m', hinserted⟩ | ⟨m', hfind', hchange⟩
      · right
        cases hinserted.step_eq
        have hnow := lt_of_isPrompt hprompt hpending (now_of_listed hwf hbefore)
        rw [hinserted.row_eq]
        exact pgTime_le_of_lt hnow
      · have hcore := hchange.core_eq
        rw [expiresAt_of_core hcore] at hexpired
        rw [createdAt_of_core hcore]
        exact hbatches.listed j now limit rows hbefore hlength id m' hfind'
          (hchange.unmarked.1 hdeleted) (hchange.unmarked.2 haudited) hexpired
    · left
      cases heq
      have hrows : rows = s.store.pastes.listExpiredUnaudited now limit := exec_observed hexec
      have hlooks : OnlyLooks (.metasListExpiredUnaudited now limit) := trivial
      rw [Config.store_answer, (exec_onlyLooks hlooks hexec).2] at hfind
      refine ⟨m, ?_, Table.key_of_find hfind⟩
      rw [hrows] at hlength ⊢
      exact Table.mem_select_of_length_lt hlength hfind
        (by simp [Pastes.isExpiredUnaudited, hdeleted, haudited, hexpired])

end

theorem batchesComplete_of_run (hprompt : ∀ s action, allowed s action → isPrompt s action = true)
    (hrun : (machine sys).Run allowed (.initial (.empty clock E)) s) :
    BatchesComplete s := by
  refine hrun.induct .initial ?_ ?_ ?_ ?_
  · constructor <;> simp [Config.Did, Config.initial]
  · intro s change store _ hbatches _ henv
    cases change <;> cases henv <;> exact hbatches.of_store rfl rfl
  · intro s op _ hbatches _
    exact hbatches.of_store rfl rfl
  · intro s i op choice request reply store proc hpast hbatches hallowed _ hpending hreach hexec
    exact hbatches.answer (provenance_of_run hpast)
      (hpast.wellFormed .initial) (hprompt s _ hallowed) hpending
      hreach hexec

/-! ## Retention -/

/-- A stored row lives at most a day, the rounding of its times included. -/
theorem Provenance.expiresAt_le {m : PasteMeta} (hprov : Provenance sys s)
    (hrow : IsRow sys s id m) : m.expiresAt ≤ m.createdAt + day := by
  obtain ⟨i, c, hlisted, -, hcore⟩ := hrow
  obtain ⟨⟨hge, hle⟩, -⟩ := hprov.inserted i _ hlisted.inserted
  have hfits : FitsInt64 ((c.info sys).ttlSeconds * second) := by
    simp only [FitsInt64, second]
    omega
  have hexpires := c.info_expiresAt sys
  rw [wrap64_of_fits hfits] at hexpires
  rw [expiresAt_of_core hcore, createdAt_of_core hcore]
  simp only [storedRow, hexpires, pgTime, truncate, microsecond, second, day]
  omega

/-- A row beyond a positive number of days is older than a day. -/
theorem createdAt_lt_of_isOlderThan {m : PasteMeta} {now days : ℤ} (hdays : 0 < days)
    (hold : Pastes.isOlderThan (Sweeper.daysBefore now days) m = true) :
    m.createdAt + day < pgTime now := by
  have hcutoff : m.createdAt < pgTime (now - days * day) := of_decide_eq_true hold
  simp only [pgTime, truncate, microsecond, day] at hcutoff ⊢
  omega

/-- The purge of the fallback removes a row that was not deleted only when it
has been processed. -/
theorem BatchesComplete.purged {op : Op} {cutoff : ℤ} {m : PasteMeta}
    (hbatches : BatchesComplete s) (hlast : MarkedLast sys s)
    (hreach : (program sys op).Reaches (s.trace i) (.inl (.metasPurgeOlderThan cutoff)))
    (hfind : s.store.pastes.find id = some m) (hdeleted : m.deletedAt = none)
    (hexpiry : m.expiresAt ≤ m.createdAt + day) (hold : Pastes.isOlderThan cutoff m = true) :
    Processed s id m := by
  refine hlast.processed hfind ?_
  intro haudited
  obtain ⟨-, now, rows, rest, ids, rfl, hdays, -, hlength, htrace, hdone⟩ :=
    call_metasPurgeOlderThan hreach
  have hlist : s.Did i (.metasListExpiredUnaudited now sys.sweeper.batchSize) (.ok rows) :=
    Config.did_of_trace htrace (by simp [Sweeper.sweepStart])
  have hbefore := createdAt_lt_of_isOlderThan hdays hold
  rcases hbatches.listed i now _ rows hlist hlength id m hfind hdeleted haudited
    (hexpiry.trans hbefore.le) with ⟨m', hmem, rfl⟩ | hlate
  · -- the row was in the batch, so its id was marked
    have hid : m'.id ∈ ids := (hdone.complete m' hmem).resolve_right (by simp)
    have hmarked : s.Did i (.metasMarkExpiredAudited ids now) (.ok ()) := by
      rw [Config.did_iff_mem_trace, htrace, Sweeper.markedTrace,
        if_neg (List.ne_nil_of_mem hid)]
      simp
    exact hbatches.marked i ids now hmarked m'.id hid m hfind haudited
  · omega

/-- In every run, whatever fails and whatever the clock does: a marked row has no
body; a row is audited only once it has expired and that was recorded; and a
step that removes the row of a paste that was not deleted removes one that has
been processed.  The last holds where the store can purge completed rows only,
and for the fallback when every `Create` is prompt. -/
theorem cleanup_before_forgetting (sys : Params) (clock : ℤ) (E : Envelope)
    (allowed : Config → Action → Prop) (s : Config)
    (hrun : (machine sys).Run allowed (.initial (.empty clock E)) s) :
    (∀ id m, s.store.pastes.find id = some m → m.deletedAt ≠ none ∨ m.expiredAuditedAt ≠ none →
      s.store.redis (Bodies.bodyKey id) = none) ∧
    (∀ id m, s.store.pastes.find id = some m → m.expiredAuditedAt ≠ none →
      ∃ i now m', s.Did i .now now ∧ m.expiresAt ≤ now ∧ m'.id = id ∧
        s.Did i (.auditRecord (Sweeper.expiredEvent now m')) ()) ∧
    (sys.sweeper.hasCompletedPurger = true ∨
        (∀ s action, allowed s action → isPrompt s action = true) →
      ∀ action next id m, (machine sys).act s action = some next →
        s.store.pastes.find id = some m → next.store.pastes.find id = none →
        m.deletedAt = none → Processed s id m) := by
  have hlast := markedLast_of_run hrun
  refine ⟨fun id m hfind hmark => hlast.no_body hfind hmark, hlast.audited, ?_⟩
  intro hcase action next id m hact hfind hnone hdeleted
  rcases Machine.act_cases hact with ⟨change, store, rfl, henv, rfl⟩ | ⟨op, rfl, rfl⟩ |
    ⟨i, choice, request, rest, reply, store, rfl, hproc, hexec, rfl⟩
  · cases change <;> cases henv <;> exact absurd hnone (by simp [hfind])
  · exact absurd hnone (by simp [Config.invoke, hfind])
  · have hwf := hrun.wellFormed .initial
    rcases (exec_pastes hexec).removed hfind hnone with
      ⟨cutoff, count, hstep, hold⟩ | ⟨cutoff, count, hstep, hcompleted⟩
    · cases hstep
      obtain ⟨op, -, hreach⟩ := hwf.reaches_waiting hproc
      rcases hcase with hpurger | hprompt
      · obtain ⟨-, _, _, _, _, -, -, hfallback, -⟩ := call_metasPurgeOlderThan hreach
        rw [hpurger] at hfallback
        cases hfallback
      · have hprov := provenance_of_run hrun
        exact (batchesComplete_of_run hprompt hrun).purged hlast hreach hfind hdeleted
          (hprov.expiresAt_le (hprov.row id m hfind)) hold
    · refine hlast.processed hfind ?_
      simpa [Pastes.isCompleted, hdeleted, Option.isSome_iff_ne_none] using hcompleted

/-- The sample system over a store without the safer purge, with one day of
retention. -/
def Sample.fallback : Params :=
  { Sample.params with sweeper := ⟨1, 90, 500, false, true⟩ }

/-- A day after the sample paste was created a pass expires, audits and purges
it. -/
theorem cleanup_before_forgetting_sample :
    ∃ s next m, (machine Sample.fallback).Run (fun s action => isPrompt s action = true)
        Sample.start s ∧
      (machine Sample.fallback).act s (.advance 1 .ok) = some next ∧
      s.store.pastes.find Sample.id = some m ∧ next.store.pastes.find Sample.id = none ∧
      m.deletedAt = none ∧ Processed s Sample.id m := by
  have hperform : ((machine Sample.fallback).perform isPrompt Sample.start (Sample.creating ++
      [.env (.tick (2 * day)), .invoke .sweep] ++ Sample.calls 1 5)).any (fun s =>
        (s.store.pastes.find Sample.id).any (fun m => m.deletedAt = none) &&
        ((machine Sample.fallback).act s (.advance 1 .ok)).any fun next =>
          next.store.pastes.find Sample.id = none) = true := by decide +kernel
  obtain ⟨s, hrun, hs⟩ := Machine.exists_run_of_perform
    (fun s action (hprompt : isPrompt s action = true) => hprompt) hperform
  rw [Bool.and_eq_true, Option.any_eq_true, Option.any_eq_true] at hs
  obtain ⟨⟨m, hfind, hdeleted⟩, next, hact, hnone⟩ := hs
  have hcleanup := cleanup_before_forgetting Sample.fallback 0 Crypto.Sample.envelope _ s hrun
  exact ⟨s, next, m, hrun, hact, hfind, of_decide_eq_true hnone, of_decide_eq_true hdeleted,
    hcleanup.2.2 (.inr fun _ _ h => h) (.advance 1 .ok) next Sample.id m hact hfind
      (of_decide_eq_true hnone) (of_decide_eq_true hdeleted)⟩

end SecurePastebin.System
