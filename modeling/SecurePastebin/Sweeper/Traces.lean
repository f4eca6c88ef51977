import SecurePastebin.Sweeper.Pass

/-!
# The program points of a sweeper pass

What a pass has done when it makes one of its calls: which row of the batch a
deletion or an expiry event belongs to, what is behind the marking of a list of
ids, and when retention runs.
-/

namespace SecurePastebin.Sweeper

open Text Uuid Calendar
open Process Paste

/-! ## The loop -/

/-- The pending call of the loop belongs to one row of the batch; the expiry
events so far belong to earlier rows. -/
structure BatchCall (now : ℤ) (rows : List PasteMeta) (trace : List Step) (request : Call)
    (before : List PasteMeta) (m : PasteMeta) (after : List PasteMeta) : Prop where
  rows_eq : rows = before ++ m :: after
  events : ∀ event, ⟨.auditRecord event, ()⟩ ∈ trace → ∃ m' ∈ before, event = expiredEvent now m'
  request_eq : request = .bodiesDelete m.id ∨
    request = .auditRecord (expiredEvent now m) ∧ ⟨.bodiesDelete m.id, .ok ()⟩ ∈ trace

/-- What the finished loop has done. -/
structure BatchDone (now : ℤ) (rows : List PasteMeta) (trace : List Step) (ids : List UUID)
    (failed : Bool) : Prop where
  swept : ∀ id ∈ ids, ∃ m ∈ rows, m.id = id ∧ ⟨.bodiesDelete id, .ok ()⟩ ∈ trace ∧
    ⟨.auditRecord (expiredEvent now m), ()⟩ ∈ trace
  complete : ∀ m ∈ rows, m.id ∈ ids ∨ failed = true

variable {now : ℤ} {request : Call} {rows : List PasteMeta} {trace : List Step} {cfg : Config}

/-- The rows after `m` have been reached. -/
theorem BatchCall.cons {rows before after : List PasteMeta} {tail : List Step}
    {m' : PasteMeta} (hcall : BatchCall now rows tail request before m' after)
    (m : PasteMeta) (front : List Step)
    (hfront : ∀ event, ⟨.auditRecord event, ()⟩ ∈ front → event = expiredEvent now m) :
    BatchCall now (m :: rows) (front ++ tail) request (m :: before) m' after where
  rows_eq := by rw [hcall.rows_eq, List.cons_append]
  events := by
    intro event hevent
    rcases List.mem_append.mp hevent with hevent | hevent
    · exact ⟨m, List.mem_cons_self, hfront event hevent⟩
    · obtain ⟨earlier, hearlier, heq⟩ := hcall.events event hevent
      exact ⟨earlier, List.mem_cons_of_mem _ hearlier, heq⟩
  request_eq := by
    rcases hcall.request_eq with heq | ⟨heq, hmem⟩
    · exact .inl heq
    · exact .inr ⟨heq, List.mem_append_right _ hmem⟩

theorem expireBatch_call (hreach : (expireBatch now rows).Reaches trace (.inl request)) :
    ∃ before m after, BatchCall now rows trace request before m after := by
  induction rows generalizing trace with
  | nil => exact absurd hreach.2 (by simp)
  | cons m rows ih =>
      unfold expireBatch at hreach
      simp only [Proc.perform_bind, Proc.pure_eq] at hreach
      rcases hreach with ⟨rfl, hpoint⟩ | ⟨removed, tail, rfl, hreach⟩
      · cases hpoint
        exact ⟨[], m, rows, rfl, by simp, .inl rfl⟩
      rcases removed with err | ⟨⟨⟩⟩
      · rcases Proc.reaches_bind.mp hreach with
          ⟨pending, hrest, hpending⟩ | ⟨_, _, _, _, _, _, ⟨⟩⟩
        cases hpending
        obtain ⟨before, m', after, hcall⟩ := ih hrest
        refine ⟨m :: before, m', after, hcall.cons m [⟨.bodiesDelete m.id, .error err⟩] ?_⟩
        intro event hevent
        cases List.mem_singleton.mp hevent
      · rcases hreach with ⟨rfl, hpoint⟩ | ⟨⟨⟩, tail, rfl, hreach⟩
        · cases hpoint
          refine ⟨[], m, rows, rfl, ?_, .inr ⟨rfl, by simp⟩⟩
          intro event hevent
          simp at hevent
        · rcases Proc.reaches_bind.mp hreach with
            ⟨pending, hrest, hpending⟩ | ⟨_, _, _, _, _, _, ⟨⟩⟩
          cases hpending
          obtain ⟨before, m', after, hcall⟩ := ih hrest
          refine ⟨m :: before, m', after, hcall.cons m
            [⟨.bodiesDelete m.id, .ok ()⟩, ⟨.auditRecord (expiredEvent now m), ()⟩] ?_⟩
          intro event hevent
          rcases List.mem_cons.mp hevent with heq | hevent
          · cases heq
          · cases List.mem_singleton.mp hevent
            rfl

theorem expireBatch_result {ids : List UUID} {failed : Bool}
    (hreach : (expireBatch now rows).Reaches trace (.inr (ids, failed))) :
    BatchDone now rows trace ids failed := by
  induction rows generalizing trace ids failed with
  | nil =>
      obtain ⟨rfl, hpoint⟩ := hreach
      cases hpoint
      exact ⟨by simp, by simp⟩
  | cons m rows ih =>
      unfold expireBatch at hreach
      simp only [Proc.perform_bind, Proc.pure_eq, Proc.reaches_call_result] at hreach
      obtain ⟨removed, tail, rfl, hreach⟩ := hreach
      rcases removed with err | ⟨⟨⟩⟩
      · rcases Proc.reaches_bind.mp hreach with
          ⟨pending, -, ⟨⟩⟩ | ⟨⟨ids', failed'⟩, front, back, rfl, hrest, rfl, hpoint⟩
        cases hpoint
        have hdone := ih hrest
        refine ⟨?_, by simp⟩
        intro id hid
        obtain ⟨m', hm', hid', hdelete, hevent⟩ := hdone.swept id hid
        exact ⟨m', List.mem_cons_of_mem _ hm', hid', by simp [hdelete], by simp [hevent]⟩
      · simp only [Proc.reaches_call_result] at hreach
        obtain ⟨⟨⟩, tail, rfl, hreach⟩ := hreach
        rcases Proc.reaches_bind.mp hreach with
          ⟨pending, -, ⟨⟩⟩ | ⟨⟨ids', failed'⟩, front, back, rfl, hrest, rfl, hpoint⟩
        cases hpoint
        have hdone := ih hrest
        constructor
        · intro id hid
          rcases List.mem_cons.mp hid with rfl | hid
          · exact ⟨m, List.mem_cons_self, rfl, by simp, by simp⟩
          · obtain ⟨m', hm', hid', hdelete, hevent⟩ := hdone.swept id hid
            exact ⟨m', List.mem_cons_of_mem _ hm', hid', by simp [hdelete], by simp [hevent]⟩
        · intro m' hm'
          rcases List.mem_cons.mp hm' with rfl | hm'
          · exact .inl List.mem_cons_self
          · rcases hdone.complete m' hm' with hid | hfailed
            · exact .inl (List.mem_cons_of_mem _ hid)
            · exact .inr hfailed

/-- A loop that left something over had a deletion refused. -/
theorem expireBatch_failed
    {ids : List UUID} (hreach : (expireBatch now rows).Reaches trace (.inr (ids, true))) :
    ∃ id err, ⟨.bodiesDelete id, .error err⟩ ∈ trace := by
  induction rows generalizing trace ids with
  | nil => cases hreach.2
  | cons m rows ih =>
      unfold expireBatch at hreach
      simp only [Proc.perform_bind, Proc.pure_eq, Proc.reaches_call_result] at hreach
      obtain ⟨removed, tail, rfl, hreach⟩ := hreach
      rcases removed with err | ⟨⟨⟩⟩
      · exact ⟨m.id, err, List.mem_cons_self⟩
      · simp only [Proc.reaches_call_result] at hreach
        obtain ⟨⟨⟩, tail, rfl, hreach⟩ := hreach
        rcases Proc.reaches_bind.mp hreach with
          ⟨pending, -, ⟨⟩⟩ | ⟨⟨ids', failed'⟩, front, back, rfl, hrest, rfl, hpoint⟩
        cases hpoint
        obtain ⟨id, err, hmem⟩ := ih hrest
        exact ⟨id, err, by simp [hmem]⟩

/-! ## The whole pass -/

/-- The calls of a pass that touch no paste: purge events, the audit purge and
the final count. -/
def Housekeeping : Call → Prop
  | .auditRecord event => event.kind = .metadataPurged ∨ event.kind = .auditPurged
  | .auditPurgeOlderThan _ => True
  | .metasCountActive _ => True
  | _ => False

theorem recordPurge_callsOnly {kind : EventKind} (now : ℤ) (count : ℕ)
    (hkind : kind = .metadataPurged ∨ kind = .auditPurged) :
    (recordPurge kind now count).CallsOnly Housekeeping := by
  unfold recordPurge
  split
  · exact ⟨hkind, fun _ => trivial⟩
  · trivial

theorem countActive_callsOnly (now : ℤ) (stats : Stats) :
    (countActive now stats).CallsOnly Housekeeping := by
  refine ⟨trivial, fun reply => ?_⟩
  cases reply <;> trivial

theorem purgeAudit_callsOnly (cfg : Config) (now : ℤ) (stats : Stats) :
    (purgeAudit cfg now stats).CallsOnly Housekeeping := by
  unfold purgeAudit
  split
  · refine ⟨trivial, fun reply => ?_⟩
    cases reply with
    | error err => trivial
    | ok count =>
        exact (recordPurge_callsOnly now count (.inr rfl)).bind fun _ =>
          countActive_callsOnly now _
  · exact countActive_callsOnly now stats

/-- The metadata purge of a pass: restricted to completed rows where the store
can do that, else of everything old, and then only after a batch without
leftovers. -/
inductive PurgeCall (cfg : Config) (now : ℤ) (retryPending : Bool) : Call → Prop
  | completed (hpurger : cfg.hasCompletedPurger = true) :
      PurgeCall cfg now retryPending
        (.metasPurgeCompletedOlderThan (daysBefore now cfg.metadataRetentionDays))
  | all (hpurger : cfg.hasCompletedPurger = false) (hretry : retryPending = false) :
      PurgeCall cfg now retryPending
        (.metasPurgeOlderThan (daysBefore now cfg.metadataRetentionDays))

theorem retain_call {retryPending : Bool} {stats : Stats}
    (hreach : (retain cfg now retryPending stats).Reaches trace (.inl request)) :
    (trace = [] ∧ 0 < cfg.metadataRetentionDays ∧ PurgeCall cfg now retryPending request) ∨
      Housekeeping request := by
  unfold retain at hreach
  split at hreach
  · rename_i hdays
    rcases Proc.reaches_bind.mp hreach with
      ⟨pending, hpurge, hpending⟩ | ⟨purged, front, back, rfl, hpurge, hrest⟩
    · cases hpending
      unfold purgeMetadata at hpurge
      dsimp only at hpurge
      split at hpurge
      · rename_i hpurger
        rcases hpurge with ⟨rfl, hpoint⟩ | ⟨_, _, _, _, ⟨⟩⟩
        cases hpoint
        exact .inl ⟨rfl, hdays, .completed hpurger⟩
      · rename_i hpurger
        split at hpurge
        · rename_i hretry
          rcases hpurge with ⟨rfl, hpoint⟩ | ⟨_, _, _, _, ⟨⟩⟩
          cases hpoint
          exact .inl ⟨rfl, hdays, .all (by simpa using hpurger) (by simpa using hretry)⟩
        · exact absurd hpurge.2 (by simp)
    · right
      cases purged with
      | error err => exact absurd hrest.2 (by simp)
      | ok count =>
          exact ((recordPurge_callsOnly now count (.inl rfl)).bind fun _ =>
            purgeAudit_callsOnly cfg now _).reaches hrest
  · exact .inr ((purgeAudit_callsOnly cfg now stats).reaches hreach)

def sweepStart (cfg : Config) (now : ℤ) (rows : List PasteMeta) : List Step :=
  [⟨.now, now⟩, ⟨.metasListExpiredUnaudited now cfg.batchSize, .ok rows⟩]

/-- The marking of a pass that was not refused. -/
def markedTrace (ids : List UUID) (now : ℤ) : List Step :=
  if ids = [] then [] else [⟨.metasMarkExpiredAudited ids now, .ok ()⟩]

inductive SweepCall (cfg : Config) : List Step → Call → Prop
  | clock : SweepCall cfg [] .now
  | list (now : ℤ) : SweepCall cfg [⟨.now, now⟩] (.metasListExpiredUnaudited now cfg.batchSize)
  | expiring (now : ℤ) (rows : List PasteMeta) (trace : List Step) (request : Call)
      (before : List PasteMeta) (m : PasteMeta) (after : List PasteMeta)
      (hcall : BatchCall now rows trace request before m after) :
      SweepCall cfg (sweepStart cfg now rows ++ trace) request
  | mark (now : ℤ) (rows : List PasteMeta) (trace : List Step) (ids : List UUID) (failed : Bool)
      (hdone : BatchDone now rows trace ids failed) :
      SweepCall cfg (sweepStart cfg now rows ++ trace) (.metasMarkExpiredAudited ids now)
  | purge (now : ℤ) (rows : List PasteMeta) (trace : List Step) (ids : List UUID) (failed : Bool)
      (hdone : BatchDone now rows trace ids failed) (hdays : 0 < cfg.metadataRetentionDays)
      (request : Call)
      (hpurge : PurgeCall cfg now (decide (cfg.batchSize ≤ rows.length) || failed) request) :
      SweepCall cfg (sweepStart cfg now rows ++ trace ++ markedTrace ids now) request
  | housekeeping (trace : List Step) (request : Call) (hrequest : Housekeeping request) :
      SweepCall cfg trace request

theorem runOnce_call
    (hreach : (runOnce cfg).Reaches trace (.inl request)) : SweepCall cfg trace request := by
  unfold runOnce at hreach
  simp only [Proc.perform_bind, Proc.pure_eq] at hreach
  rcases hreach with ⟨rfl, hpoint⟩ | ⟨now, tail, rfl, hreach⟩
  · cases hpoint
    exact .clock
  rcases hreach with ⟨rfl, hpoint⟩ | ⟨listed, tail, rfl, hreach⟩
  · cases hpoint
    exact .list now
  rcases listed with err | rows
  · exact absurd hreach.2 (by simp)
  rcases Proc.reaches_bind.mp hreach with
    ⟨pending, hbatch, hpending⟩ | ⟨⟨ids, failed⟩, front, back, rfl, hbatch, hrest⟩
  · cases hpending
    obtain ⟨before, m, after, hcall⟩ := expireBatch_call hbatch
    exact .expiring now rows tail request before m after hcall
  have hdone := expireBatch_result hbatch
  rcases Proc.reaches_bind.mp hrest with
    ⟨pending, hmark, hpending⟩ | ⟨marked, marks, tail, rfl, hmark, hretain⟩
  · cases hpending
    unfold markAudited at hmark
    split at hmark
    · exact absurd hmark.2 (by simp)
    · rcases hmark with ⟨rfl, hpoint⟩ | ⟨_, _, _, _, ⟨⟩⟩
      cases hpoint
      rw [List.append_nil]
      exact .mark now rows front ids failed hdone
  · cases marked with
    | error err => exact absurd hretain.2 (by simp)
    | ok _ =>
        have hmarks : marks = markedTrace ids now := by
          unfold markAudited at hmark
          unfold markedTrace
          split at hmark
          · rename_i hempty
            rw [if_pos hempty]
            exact hmark.1
          · rename_i hne
            rw [if_neg hne]
            simp only [Proc.perform, Proc.reaches_call_result, Proc.reaches_ret] at hmark
            obtain ⟨reply, tail, rfl, rfl, hpoint⟩ := hmark
            cases hpoint
            rfl
        rcases retain_call hretain with ⟨rfl, hdays, hpurge⟩ | hhouse
        · rw [hmarks, List.append_nil]
          exact .purge now rows front ids failed hdone hdays request hpurge
        · exact .housekeeping _ request hhouse

/-- A pass that has come to its end has marked every row of its batch, unless
some call was refused. -/
theorem runOnce_result {result : Stats × Option Err}
    (hreach : (runOnce cfg).Reaches trace (.inr result)) :
    (∃ now err, ⟨.metasListExpiredUnaudited now cfg.batchSize, .error err⟩ ∈ trace) ∨
      (∃ id err, ⟨.bodiesDelete id, .error err⟩ ∈ trace) ∨
      (∃ ids now err, ⟨.metasMarkExpiredAudited ids now, .error err⟩ ∈ trace) ∨
      ∃ now rows rest, trace = sweepStart cfg now rows ++ rest ∧
        ∀ m ∈ rows, ∃ ids, m.id ∈ ids ∧ ⟨.metasMarkExpiredAudited ids now, .ok ()⟩ ∈ rest := by
  unfold runOnce at hreach
  simp only [Proc.perform_bind, Proc.pure_eq, Proc.reaches_call_result] at hreach
  obtain ⟨now, tail, rfl, listed, tail, rfl, hreach⟩ := hreach
  rcases listed with err | rows
  · exact .inl ⟨now, err, by simp⟩
  rcases Proc.reaches_bind.mp hreach with
    ⟨pending, -, ⟨⟩⟩ | ⟨⟨ids, failed⟩, front, back, rfl, hbatch, hrest⟩
  cases failed with
  | true =>
      obtain ⟨id, err, hmem⟩ := expireBatch_failed hbatch
      exact .inr (.inl ⟨id, err, by simp [hmem]⟩)
  | false =>
      have hdone := expireBatch_result hbatch
      rcases Proc.reaches_bind.mp hrest with
        ⟨pending, -, ⟨⟩⟩ | ⟨marked, marks, tail, rfl, hmark, -⟩
      have hall : ∀ m ∈ rows, m.id ∈ ids := fun m hm =>
        (hdone.complete m hm).resolve_right (by simp)
      by_cases hempty : ids = []
      · refine .inr (.inr (.inr ⟨now, rows, _, rfl, ?_⟩))
        intro m hm
        have hid := hall m hm
        rw [hempty] at hid
        cases hid
      · rw [markAudited, if_neg hempty] at hmark
        simp only [Proc.perform, Proc.reaches_call_result, Proc.reaches_ret] at hmark
        obtain ⟨reply, last, rfl, rfl, -⟩ := hmark
        rcases reply with err | ⟨⟨⟩⟩
        · exact .inr (.inr (.inl ⟨ids, now, err, by simp⟩))
        · refine .inr (.inr (.inr ⟨now, rows, _, rfl, ?_⟩))
          intro m hm
          exact ⟨ids, hall m hm, by simp⟩

end SecurePastebin.Sweeper
