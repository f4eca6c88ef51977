import SecurePastebin.System.Clock
import SecurePastebin.System.Removal

/-!
# Revocation is final

After a `Delete` that returned without error, or that removed the body and only
failed to mark the row, no `Read` invoked later returns content, whatever else
runs.  A `Delete` by somebody who neither owns the paste nor is an admin touches
neither store.
-/

namespace SecurePastebin.System

open Text Uuid Paste Crypto
open SecurePastebin.Store Process Interleaving

variable {sys : Params} {s mid last : Config} {i j : ℕ} {id : UUID} {clock : ℤ} {E : Envelope}
  {allowed : Config → Action → Prop}

/-! ## What a Delete leaves behind -/

/-- The `Delete` looked at a row that had not been deleted and was past its
expiry. -/
def FoundExpired (s : Config) (i : ℕ) (id : UUID) : Prop :=
  ∃ m now, s.trace i = deleteChecks id m now ∧ m.status now = .expired

/-- The `Delete` returned without error, or the only step of it that failed was
the marking of the row. -/
def Revoked (s : Config) (i : ℕ) (p : Principal) (id : UUID) : Prop :=
  s.Returned i (.delete p id) (.delete (.ok ())) ∨
    s.ops[i]? = some (.delete p id) ∧
      ∃ time err, s.Did i (.metasMarkDeleted id p.userId time) (.error err)

theorem Revoked.cases {p : Principal} (hrevoked : Revoked s i p id)
    (hwf : (machine sys).WellFormed s) (hlast : MarkedLast sys s) :
    Gone sys s id ∨ FoundExpired s i id := by
  rcases hrevoked with hreturned | ⟨hop, time, err, hdid⟩
  · have hreach := hwf.reaches_returned hreturned
    obtain ⟨value, hreach, ⟨⟩⟩ := Proc.reaches_map_result.mp hreach
    generalize htrace : s.trace i = trace at hreach
    cases delete_point sys.deps hreach with
    | settled m now hmay hstatus =>
        by_cases hdeleted : m.deletedAt = none
        · refine .inr ⟨m, now, htrace, (m.status_eq_expired_iff now).mpr ⟨hdeleted, ?_⟩⟩
          rw [ne_eq, PasteMeta.status_eq_active_iff] at hstatus
          exact not_lt.mp fun hlt => hstatus ⟨hdeleted, hlt⟩
        · refine .inl (hlast.deleted_got i id m ?_ hdeleted)
          rw [Config.did_iff_mem_trace, htrace]
          simp [deleteChecks]
    | done m now hmay hstatus rest hrecord =>
        refine .inl (hlast.removed i id ?_)
        rw [Config.did_iff_mem_trace, htrace]
        simp
  · obtain ⟨op, front, back, hop', htrace, hreach⟩ := hwf.reaches_of_did hdid
    obtain ⟨p', m, -, -, -, -, rfl⟩ := call_metasMarkDeleted hreach
    refine .inl (hlast.removed i id ?_)
    rw [Config.did_iff_mem_trace, htrace]
    simp

/-! ## What later reads can see -/

theorem Gone.run (hgone : Gone sys mid id)
    (hrun : (machine sys).Run allowed (.initial (.empty clock E)) mid)
    (hlater : (machine sys).Run allowed mid last) :
    Gone sys last id ∧ ∀ j record, mid.ops.length ≤ j →
      ¬ last.Did j (.bodiesGet id) (.ok record) := by
  have hsince := hlater.since (fun s => Gone sys s id)
    (fun entry => ∀ record, entry ≠ ⟨.bodiesGet id, .ok record⟩)
    (hrun.wellFormed .initial) hgone ?_ ?_ ?_
  · exact ⟨hsince.1, fun j record hj hdid => hsince.2 j _ hj hdid record rfl⟩
  · intro s change store _ hgone _ henv
    cases change <;> cases henv <;> exact hgone.of_store (Config.extends_store _) rfl
  · intro s op _ hgone _
    exact hgone.of_store (Config.extends_invoke op _) rfl
  · intro s i op choice request reply store proc hpast hgone _ _ _ hreach hexec
    refine ⟨hgone.answer (provenance_of_run (hrun.trans hpast)) hreach hexec, ?_⟩
    intro record heq
    have hobserved := exec_observed hexec
    rw [heq] at hobserved
    obtain ⟨entry, hentry, -⟩ := Bodies.get_eq_ok_iff.mp hobserved
    rw [hgone.2] at hentry
    cases hentry

/-- No `Read` invoked after the expiry of the row returns content. -/
theorem FoundExpired.read_content (hexpired : FoundExpired mid i id)
    (hforward : ∀ s action, allowed s action → ClockForward s action)
    (hrun : (machine sys).Run allowed (.initial (.empty clock E)) mid)
    (hlater : (machine sys).Run allowed mid last) {p : Option Principal} {password : Bytes}
    {res : ReadResult} (hj : mid.ops.length ≤ j)
    (hreturned : last.Returned j (.read p id password) (.read (.ok res))) :
    res.content = none := by
  rw [Option.eq_none_iff_forall_ne_some]
  intro content hcontent
  have hwf := hrun.wellFormed .initial
  obtain ⟨m, now, htrace, hstatus⟩ := hexpired
  have hget : mid.Did i (.metasGet id) (.ok m) :=
    Config.did_of_trace htrace (by simp [deleteChecks])
  have hnow : mid.Did i .now now :=
    Config.did_of_trace htrace (by simp [deleteChecks])
  obtain ⟨m', sealed, recorded, hget', -, hrecorded, hlive, -⟩ :=
    read_content_did (hlater.wellFormed hwf) hreturned hcontent
  have hprov := provenance_of_run (hrun.trans hlater)
  have hcore := hprov.core_eq (hprov.row_got i id m (hlater.extends.did hget))
    (hprov.row_got j id m' hget')
  have hexpiry : m.expiresAt = m'.expiresAt := expiresAt_of_core hcore
  have hsame := now_le_clock hforward hrun hnow
  have hafter := clock_le_now hforward hwf hlater hj hrecorded
  have hpassed := ((m.status_eq_expired_iff now).mp hstatus).2
  omega

/-- The user who submitted the paste. -/
def Owns (sys : Params) (s : Config) (id user : UUID) : Prop :=
  ∃ i c, Stored sys s i c ∧ c.id = id ∧ c.p.userId = user

/-- A `Delete` goes ahead only for the owner or an admin. -/
theorem Provenance.owns_of_mayDelete (hprov : Provenance sys s) {p : Principal} {m : PasteMeta}
    (hget : s.Did i (.metasGet id) (.ok m)) (hmay : MayDelete p m) (hadmin : p.isAdmin = false) :
    Owns sys s id p.userId := by
  obtain ⟨j, c, hlisted, hid, hcore⟩ := hprov.row_got i id m hget
  have howner : m.ownerId = c.p.userId :=
    (field_of_core PasteMeta.ownerId (fun _ => rfl) hcore).trans (c.info_ownerId sys)
  refine ⟨j, c, hlisted.toStored, hid, ?_⟩
  rcases hmay with hmay | hmay
  · rw [← howner, hmay]
  · rw [hadmin] at hmay
    cases hmay

theorem RecordPoint.onlyLooks {d : Deps} {kind : EventKind} {actor id : Option UUID}
    {outcome : Outcome} {details : List (String × Detail)} {trace : List Step} {request : Call}
    (hrecord : RecordPoint d kind actor id outcome details trace (.inl request)) :
    OnlyLooks request := by
  cases hrecord <;> trivial

/-- Somebody else's `Delete` never comes to a write. -/
theorem Provenance.foreign_delete_onlyLooks (hprov : Provenance sys s) {p : Principal}
    {request : Call} (hadmin : p.isAdmin = false) (howns : ¬ Owns sys s id p.userId)
    (hreach : (program sys (.delete p id)).Reaches (s.trace i) (.inl request)) :
    OnlyLooks request := by
  have hdenied : ∀ m now rest, s.trace i = deleteChecks id m now ++ rest → ¬ MayDelete p m := by
    intro m now rest htrace hmay
    refine howns (hprov.owns_of_mayDelete (i := i) ?_ hmay hadmin)
    rw [Config.did_iff_mem_trace, htrace]
    simp [deleteChecks]
  generalize htrace : s.trace i = trace at hreach
  cases delete_point sys.deps hreach.of_map with
  | lookup | clock => trivial
  | remove m now hmay hstatus =>
      exact absurd hmay (hdenied m now [] (by rw [htrace, List.append_nil]))
  | mark m now hmay hstatus => exact absurd hmay (hdenied m now _ htrace)
  | recording _ _ hrecord => exact RecordPoint.onlyLooks hrecord

/-- With a clock that does not run backwards, and whatever fails: once a `Delete`
has returned without error, or has failed only in marking the row, no `Read`
invoked afterwards returns content, and unless it found the paste already
expired there is no body from then on.  No step of a `Delete` by somebody who
neither owns the paste nor is an admin changes one of the stores. -/
theorem revocation_final (sys : Params) (clock : ℤ) (E : Envelope) (mid : Config)
    (hrun : (machine sys).Run ClockForward (.initial (.empty clock E)) mid) :
    (∀ i p id, Revoked mid i p id → ∀ last, (machine sys).Run ClockForward mid last →
      (∀ j q password res, mid.ops.length ≤ j →
        last.Returned j (.read q id password) (.read (.ok res)) → res.content = none) ∧
      (¬ FoundExpired mid i id → last.store.redis (Bodies.bodyKey id) = none)) ∧
    ∀ i p id choice next, mid.ops[i]? = some (.delete p id) → p.isAdmin = false →
      ¬ Owns sys mid id p.userId → (machine sys).act mid (.advance i choice) = some next →
      next.store.redis = mid.store.redis ∧ next.store.pastes = mid.store.pastes := by
  have hwf := hrun.wellFormed .initial
  have hprov := provenance_of_run hrun
  constructor
  · intro i p id hrevoked last hlater
    rcases hrevoked.cases hwf (markedLast_of_run hrun) with hgone | hexpired
    · obtain ⟨hgone', hbodies⟩ := hgone.run hrun hlater
      refine ⟨?_, fun _ => hgone'.2⟩
      intro j q password res hj hreturned
      rw [Option.eq_none_iff_forall_ne_some]
      intro content hcontent
      obtain ⟨m, sealed, recorded, -, hbody, -⟩ :=
        read_content_did (hlater.wellFormed hwf) hreturned hcontent
      exact hbodies j sealed hj hbody
    · refine ⟨?_, fun hnot => absurd hexpired hnot⟩
      intro j q password res hj hreturned
      exact hexpired.read_content (fun _ _ h => h) hrun hlater hj hreturned
  · intro i p id choice next hop hadmin howns hact
    obtain ⟨request, rest, reply, store, hproc, hexec, rfl⟩ := Machine.advance_cases hact
    have hreach : (program sys (.delete p id)).Reaches (mid.trace i) (.inl request) :=
      (hwf.follows i _ _ hop hproc).reaches
    exact exec_onlyLooks (hprov.foreign_delete_onlyLooks hadmin howns hreach) hexec

/-- The owner of the sample paste deletes it; a later `Read` reports it as
deleted, without content. -/
theorem revocation_final_sample :
    ∃ mid last, (machine Sample.params).Run ClockForward Sample.start mid ∧
      Revoked mid 1 Sample.owner Sample.id ∧ (machine Sample.params).Run ClockForward mid last ∧
      ∃ res, last.Returned 2 (.read none Sample.id []) (.read (.ok res)) ∧
        res.status = .deleted ∧ res.content = none := by
  have hperform : ((machine Sample.params).perform (fun s action => decide (ClockForward s action))
      Sample.start (Sample.creating ++ .invoke (.delete Sample.owner Sample.id) ::
        Sample.calls 1 6)).any (fun mid =>
      mid.ops[1]? = some (.delete Sample.owner Sample.id) &&
        mid.result? 1 = some (.delete (.ok ())) && mid.ops.length = 2 &&
        ((machine Sample.params).perform (fun s action => decide (ClockForward s action)) mid
          (.invoke (.read none Sample.id []) :: Sample.calls 2 2)).any fun last =>
            last.ops[2]? = some (.read none Sample.id []) &&
              ((last.result? 2).bind Result.readOk?).any fun res =>
                decide (res.status = .deleted)) = true := by decide +kernel
  obtain ⟨mid, hrun, hmid⟩ := Machine.exists_decided_run hperform
  simp only [Bool.and_eq_true, decide_eq_true_eq] at hmid
  obtain ⟨⟨⟨hop, hresult⟩, hlength⟩, hlast⟩ := hmid
  obtain ⟨last, hlater, hlast⟩ := Machine.exists_decided_run hlast
  simp only [Bool.and_eq_true, decide_eq_true_eq, Option.any_eq_true, Result.bind_readOk?] at hlast
  obtain ⟨hop', res, hres, hstatus⟩ := hlast
  have hrevoked : Revoked mid 1 Sample.owner Sample.id :=
    .inl ((mid.returned_iff 1 _ _).mpr ⟨hop, hresult⟩)
  have hreturned := (last.returned_iff 2 _ _).mpr ⟨hop', hres⟩
  exact ⟨mid, last, hrun, hrevoked, hlater, res, hreturned, hstatus,
    ((revocation_final Sample.params 0 Crypto.Sample.envelope mid hrun).1 1 Sample.owner Sample.id
      hrevoked last hlater).1 2 none [] res hlength.le hreturned⟩

end SecurePastebin.System
