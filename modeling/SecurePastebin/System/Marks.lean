import SecurePastebin.System.Clock
import SecurePastebin.System.Removal

/-!
# Marks on rows

A row that was marked as deleted, or as audited, keeps that mark for as long as
it is there, and a row that was removed is not inserted again.  A mark of a
deletion goes back to a `Delete`.
-/

namespace SecurePastebin.System

open Text Uuid Paste Crypto
open SecurePastebin.Store Process Interleaving

variable {sys : Params} {s next : Config} {i k : ℕ} {id : UUID} {clock : ℤ} {E : Envelope}
  {allowed : Config → Action → Prop}

/-- The calls that mark rows, and the marks in the table. -/
structure MarksStay (s : Config) : Prop where
  deleted : ∀ k id byUser time, s.Did k (.metasMarkDeleted id byUser time) (.ok ()) →
    ∀ m, s.store.pastes.find id = some m → m.deletedAt ≠ none
  audited : ∀ k ids time, s.Did k (.metasMarkExpiredAudited ids time) (.ok ()) →
    ∀ m, m.id ∈ ids → s.store.pastes.find m.id = some m → m.expiredAuditedAt ≠ none
  deleted_by : ∀ id m, s.store.pastes.find id = some m → m.deletedAt ≠ none →
    ∃ k byUser time, s.Did k (.metasMarkDeleted id byUser time) (.ok ())
  listed_once : ∀ k time limit rows, s.Did k (.metasListExpiredUnaudited time limit) (.ok rows) →
    (rows.map PasteMeta.id).Nodup

/-- A paste that a `Delete` marks was listed. -/
theorem listed_of_markDeleted (hwf : (machine sys).WellFormed s) (hprov : Provenance sys s)
    {byUser : UUID} {time : ℤ} {reply : Except Err Unit}
    (hdid : s.Did k (.metasMarkDeleted id byUser time) reply) :
    ∃ l c, Listed sys s l c ∧ c.id = id := by
  obtain ⟨op, front, back, hop, htrace, hreach⟩ := hwf.reaches_of_did hdid
  obtain ⟨p, m, -, -, -, -, rfl⟩ := call_metasMarkDeleted hreach
  have hget : s.Did k (.metasGet id) (.ok m) :=
    Config.did_of_trace htrace (by simp [deleteChecks])
  obtain ⟨l, c, hlisted, hid, -⟩ := hprov.row_got k id m hget
  exact ⟨l, c, hlisted, hid⟩

/-- A paste that the sweeper marks was listed. -/
theorem listed_of_markExpiredAudited (hwf : (machine sys).WellFormed s)
    (hprov : Provenance sys s) {ids : List UUID} {time : ℤ} {reply : Except Err Unit}
    (hdid : s.Did k (.metasMarkExpiredAudited ids time) reply) (hid : id ∈ ids) :
    ∃ l c, Listed sys s l c ∧ c.id = id := by
  obtain ⟨op, front, back, hop, htrace, hreach⟩ := hwf.reaches_of_did hdid
  have hsubset : front ⊆ s.trace k := by
    rw [htrace]
    exact List.subset_append_left _ _
  obtain ⟨-, -, m, -, ⟨l, c, hlisted, hid, -⟩, -⟩ := marked_audited hprov hsubset hreach hid
  exact ⟨l, c, hlisted, hid⟩

section

variable {op : Op} {request : Call} {reply : request.Reply} {store : Store} {choice : Choice}
  {proc : Port Result}

/-- The row of a listed paste was there before the last step. -/
theorem row_before {c : Creation} {l : ℕ} {m' : PasteMeta} (hprov : Provenance sys s)
    (hreach : (program sys op).Reaches (s.trace i) (.inl request))
    (hexec : exec sys.prims s.store request choice = some (reply, store))
    (hlisted : Listed sys s l c) (hid : c.id = id) (hfind : store.pastes.find id = some m') :
    ∃ m, s.store.pastes.find id = some m ∧ RowChange ⟨request, reply⟩ m m' := by
  rcases (exec_pastes hexec).row hfind with ⟨m, hinserted⟩ | hchange
  · cases hinserted.step_eq
    exact (hprov.insert_once hreach hlisted (hid.trans hinserted.id_eq.symm)).elim
  · exact hchange

theorem MarksStay.answer (hmarks : MarksStay s) (hwf : (machine sys).WellFormed s)
    (hprov : Provenance sys s) (hop : s.ops[i]? = some op)
    (hreach : (program sys op).Reaches (s.trace i) (.inl request))
    (hexec : exec sys.prims s.store request choice = some (reply, store)) :
    MarksStay (s.answer i proc ⟨request, reply⟩ store) := by
  have hextends := Config.extends_answer (s := s) i proc ⟨request, reply⟩ store
  constructor
  case deleted =>
    intro k id byUser time hdid m' hfind
    rcases Config.did_answer.mp hdid with hdid | ⟨-, heq⟩
    · obtain ⟨l, c, hlisted, hid⟩ := listed_of_markDeleted hwf hprov hdid
      obtain ⟨m, hfind', hchange⟩ := row_before hprov hreach hexec hlisted hid hfind
      exact fun hnone => hmarks.deleted k id byUser time hdid m hfind' (hchange.unmarked.1 hnone)
    · cases heq
      exact (exec_pastes hexec).marked_deleted hfind
  case audited =>
    intro k ids time hdid m' hmem hfind
    rcases Config.did_answer.mp hdid with hdid | ⟨-, heq⟩
    · obtain ⟨l, c, hlisted, hid⟩ := listed_of_markExpiredAudited hwf hprov hdid hmem
      obtain ⟨m, hfind', hchange⟩ := row_before hprov hreach hexec hlisted hid hfind
      have hkey := Table.key_of_find hfind'
      rw [← hkey] at hmem hfind'
      exact fun hnone => hmarks.audited k ids time hdid m hmem hfind' (hchange.unmarked.2 hnone)
    · cases heq
      exact (exec_pastes hexec).marked_audited hmem hfind
  case deleted_by =>
    intro id m' hfind hmark
    rcases (exec_pastes hexec).row hfind with ⟨m, hinserted⟩ | ⟨m, hfind', hchange⟩
    · obtain ⟨c, -, -, -, rfl, -⟩ := hinserted.creation proc store hop hreach
      exact absurd (c.storedRow_marks sys).1 hmark
    · have hold : m.deletedAt ≠ none → ∃ k byUser time,
          (s.answer i proc ⟨request, reply⟩ store).Did k (.metasMarkDeleted id byUser time)
            (.ok ()) := by
        intro hmark
        obtain ⟨k, byUser, time, hdid⟩ := hmarks.deleted_by id m hfind' hmark
        exact ⟨k, byUser, time, hextends.did hdid⟩
      cases hchange with
      | deleted byUser time hstep hnone =>
          refine ⟨i, byUser, time, Config.did_answer.mpr (.inr ⟨rfl, ?_⟩)⟩
          rw [hstep, ← Table.key_of_find hfind']
      | _ => exact hold hmark
  case listed_once =>
    intro k time limit rows hdid
    rcases Config.did_answer.mp hdid with hdid | ⟨-, heq⟩
    · exact hmarks.listed_once k time limit rows hdid
    · have hobserved := exec_observed hexec
      rw [← heq] at hobserved
      rw [show rows = s.store.pastes.listExpiredUnaudited time limit from hobserved]
      exact Table.nodup_select ..

end

theorem marksStay_of_run
    (hrun : (machine sys).Run allowed (.initial (.empty clock E)) s) : MarksStay s := by
  refine hrun.induct .initial ?_ ?_ ?_ ?_
  · constructor <;> simp [Config.Did, Config.initial, Store.empty]
  · intro s change store _ hmarks _ henv
    cases change <;> cases henv <;>
      exact ⟨hmarks.deleted, hmarks.audited, hmarks.deleted_by, hmarks.listed_once⟩
  · intro s op _ hmarks _
    exact ⟨hmarks.deleted, hmarks.audited, hmarks.deleted_by, hmarks.listed_once⟩
  · intro s i op choice request reply store proc hpast hmarks _ hop _ hreach hexec
    exact hmarks.answer (hpast.wellFormed .initial)
      (provenance_of_run hpast) hop hreach hexec

end SecurePastebin.System
