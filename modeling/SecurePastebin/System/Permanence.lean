import SecurePastebin.Paste.Verification
import SecurePastebin.System.Roundtrip

/-!
# Verification is permanent

What a `Verify` compares with is part of the row that no operation changes, so
as long as the row is there the answer is that of the day of creation: whether
the digest is one of the content, byte order mark apart.
-/

namespace SecurePastebin.System

open Text Uuid Paste Crypto
open SecurePastebin.Store Process Interleaving

/-- What must not change in a row. -/
structure SameRecord (m m' : PasteMeta) : Prop where
  ownerId : m.ownerId = m'.ownerId
  createdAt : m.createdAt = m'.createdAt
  expiresAt : m.expiresAt = m'.expiresAt
  ttlSeconds : m.ttlSeconds = m'.ttlSeconds
  sizeBytes : m.sizeBytes = m'.sizeBytes
  hashAlgo : m.hashAlgo = m'.hashAlgo
  contentHash : m.contentHash = m'.contentHash
  passwordProtected : m.passwordProtected = m'.passwordProtected
  kekId : m.kekId = m'.kekId

theorem sameRecord_of_core {m m' : PasteMeta} (hcore : core m = core m') : SameRecord m m' where
  ownerId := field_of_core PasteMeta.ownerId (fun _ => rfl) hcore
  createdAt := createdAt_of_core hcore
  expiresAt := expiresAt_of_core hcore
  ttlSeconds := field_of_core PasteMeta.ttlSeconds (fun _ => rfl) hcore
  sizeBytes := field_of_core PasteMeta.sizeBytes (fun _ => rfl) hcore
  hashAlgo := field_of_core PasteMeta.hashAlgo (fun _ => rfl) hcore
  contentHash := field_of_core PasteMeta.contentHash (fun _ => rfl) hcore
  passwordProtected := field_of_core PasteMeta.passwordProtected (fun _ => rfl) hcore
  kekId := field_of_core PasteMeta.kekId (fun _ => rfl) hcore

section

variable {sys : Params} {s mid last : Config} {i j k : ℕ} {c : Creation} {id : UUID}
  {sha256hex : Bytes} {res res' : VerifyResult}

/-- The row a returned `Verify` has read. -/
theorem verify_did (hwf : (machine sys).WellFormed s)
    (hreturned : s.Returned j (.verify id sha256hex) (.verify (.ok res))) :
    ∃ m : PasteMeta, s.Did j (.metasGet id) (.ok m) ∧
      res.isMatch = equalFoldHex (trimSpace sha256hex) m.contentHash := by
  obtain ⟨value, hreach, ⟨⟩⟩ :=
    Proc.reaches_map_result.mp (hwf.reaches_returned hreturned)
  obtain ⟨found, tail, htrace, ⟨err, -, hvalue⟩ | ⟨m, now, rfl, hvalue⟩⟩ := verify_returned hreach
  · cases hvalue
  · cases hvalue
    refine ⟨m, ?_, rfl⟩
    rw [Config.did_iff_mem_trace, htrace]
    exact List.mem_cons_self

/-- Every row seen under the identifier carries the digest of the content the
paste was created from. -/
theorem Provenance.contentHash_eq (hprov : Provenance sys s) (hlisted : Listed sys s i c)
    {m : PasteMeta} (hrow : IsRow sys s c.id m) :
    m.contentHash = hashHex sys.prims.sha256 c.attempt.canonical := by
  obtain ⟨j, c', hlisted', hid, hcore⟩ := hrow
  obtain ⟨-, rfl⟩ := hprov.creation_unique hlisted.toStored hlisted'.toStored hid.symm
  have hhash := field_of_core PasteMeta.contentHash (fun _ => rfl) hcore
  rw [hhash, c.info_eq sys]
  rfl

/-- Nothing keeps a `Verify` from running to its end, and if the row is there
when it starts it can find it. -/
theorem exists_verify_completion (sha256hex : Bytes) {m : PasteMeta}
    (hwf : (machine sys).WellFormed s) (hfind : s.store.pastes.find id = some m) :
    ∃ last res, (machine sys).Run anyStep s last ∧
      last.Returned s.ops.length (.verify id sha256hex) (.verify (.ok res)) := by
  have hcalls : (program sys (.verify id sha256hex)).CallsOnly (VerifyMakes id) :=
    (verify_makes sys.deps id sha256hex).bind fun _ => trivial
  obtain ⟨next, hprogram⟩ : ∃ next, program sys (.verify id sha256hex) =
      .call (.metasGet id) next := ⟨_, rfl⟩
  rw [hprogram] at hcalls
  have hinvoke : (machine sys).act s (.invoke (.verify id sha256hex)) =
      some (s.invoke (.verify id sha256hex) (.call (.metasGet id) next)) :=
    congrArg (fun proc => some (s.invoke _ proc)) hprogram
  have hproc : (s.invoke (.verify id sha256hex) (.call (.metasGet id) next)).procs[
      s.ops.length]? = some (.call (.metasGet id) next) := by
    simp [Config.invoke, ← hwf.length_procs]
  have hexec : (machine sys).exec s.store (.metasGet id) .ok = some (.ok m, s.store) := by
    change some (s.store.pastes.get id, s.store) = _
    rw [(Pastes.get_eq_ok_iff id).mpr hfind]
  have hlookup : (machine sys).act (s.invoke (.verify id sha256hex) (.call (.metasGet id) next))
      (.advance s.ops.length .ok) =
        some ((s.invoke (.verify id sha256hex) (.call (.metasGet id) next)).answer s.ops.length
          (next (.ok m)) ⟨.metasGet id, .ok m⟩ s.store) := by
    simp only [Machine.act, hproc]
    exact congrArg (Option.map _) hexec
  have hanswer : ∀ (last : Config) request, True → VerifyMakes id request →
      ∃ choice reply store, anyStep last (.advance s.ops.length choice : Action) ∧
        (machine sys).exec last.store request choice = some (reply, store) ∧ True := by
    intro last request _ hmakes
    cases request with
    | now | metasGet | auditRecord => exact ⟨.ok, _, _, trivial, rfl, trivial⟩
    | _ => cases hmakes
  have hproc' : ((s.invoke (.verify id sha256hex) (.call (.metasGet id) next)).answer s.ops.length
      (next (.ok m)) ⟨.metasGet id, .ok m⟩ s.store).procs[s.ops.length]? = some (next (.ok m)) :=
    List.getElem?_set_self (List.getElem?_eq_some_iff.mp hproc).1
  obtain ⟨last, result, hrun, -, hops, hreturned⟩ := Machine.exists_completion
    (M := machine sys) (fun _ => True) hanswer (hcalls.2 (.ok m)) trivial hproc'
  have hlater : (machine sys).Run anyStep s last :=
    ((Machine.Run.tail .refl trivial hinvoke).tail trivial hlookup).trans hrun
  have hop : last.ops[s.ops.length]? = some (.verify id sha256hex) := by
    rw [hops]
    simp [Config.invoke]
  obtain ⟨value, hreach, rfl⟩ := Proc.reaches_map_result.mp
    ((hlater.wellFormed hwf).reaches_returned ⟨hop, hreturned⟩)
  have htrace : [⟨.metasGet id, .ok m⟩] <+: last.trace s.ops.length := by
    have hpast := hrun.extends.trace s.ops.length
    rw [Config.trace_answer_self] at hpast
    rwa [show (s.invoke _ _).trace s.ops.length = [] from hwf.trace_eq_nil le_rfl] at hpast
  obtain ⟨found, tail, hstart, hcases⟩ := verify_returned hreach
  rw [hstart, List.cons_prefix_cons] at htrace
  rcases hcases with ⟨err, rfl, -⟩ | ⟨m', now, -, rfl⟩
  · cases htrace.1
  · exact ⟨last, _, hlater, hop, hreturned⟩

end

/-- Verification is exact and permanent, and what identifies a paste never
changes. -/
theorem verification_permanent (sys : Params) (clock : ℤ) (E : Envelope) {s : Config} {k : ℕ}
    {p : Principal} {input : CreateInput} {r : CreateResult}
    (hrun : (machine sys).Run anyStep (.initial (.empty clock E)) s)
    (hcreated : s.Returned k (.create p input) (.create (.ok r))) :
    ∃ b, canonicalize input.content sys.limits.maxSize = .ok b ∧
      (∀ last, (machine sys).Run anyStep s last →
        ∀ d maxSize b', canonicalize d maxSize = .ok b' →
        (sys.prims.sha256 b' = sys.prims.sha256 b → b' = b) →
        ∀ before text after, IsSpace before → IsSpace after →
        text.map lower = hashHex sys.prims.sha256 b' →
        (∀ j res, last.Returned j (.verify r.info.id (before ++ text ++ after)) (.verify (.ok res)) →
          (res.isMatch = true ↔ stripBOM d = stripBOM input.content)) ∧
        ∀ m, last.store.pastes.find r.info.id = some m →
          ∃ final res, (machine sys).Run anyStep last final ∧
            final.Returned last.ops.length (.verify r.info.id (before ++ text ++ after))
              (.verify (.ok res)) ∧
            (res.isMatch = true ↔ stripBOM d = stripBOM input.content)) ∧
      (∀ last, (machine sys).Run anyStep s last →
        ∀ i j sha256hex res res',
          last.Returned i (.verify r.info.id sha256hex) (.verify (.ok res)) →
          last.Returned j (.verify r.info.id sha256hex) (.verify (.ok res')) →
          res.isMatch = res'.isMatch) ∧
      ∀ mid last, (machine sys).Run anyStep (.initial (.empty clock E)) mid →
        (machine sys).Run anyStep mid last →
        ∀ id m m', mid.store.pastes.find id = some m → last.store.pastes.find id = some m' →
          SameRecord m m' := by
  have hwf := hrun.wellFormed .initial
  obtain ⟨c, hlisted, rfl, hinfo⟩ := listed_of_returned hwf hcreated
  rw [hinfo, c.info_id]
  have hexact : ∀ last, (machine sys).Run anyStep s last →
      ∀ d maxSize b', canonicalize d maxSize = .ok b' →
      (sys.prims.sha256 b' = sys.prims.sha256 c.attempt.canonical → b' = c.attempt.canonical) →
      ∀ before text after, IsSpace before → IsSpace after →
      text.map lower = hashHex sys.prims.sha256 b' →
      ∀ j res, last.Returned j (.verify c.id (before ++ text ++ after)) (.verify (.ok res)) →
        (res.isMatch = true ↔ stripBOM d = stripBOM c.input.content) := by
    intro last hlater d maxSize b' hcanonical hcollision before text after hbefore hafter htext
      j res hreturned
    have hprov := provenance_of_run (hrun.trans hlater)
    obtain ⟨m, hdid, hmatch⟩ := verify_did (hlater.wellFormed hwf) hreturned
    have hhash := hprov.contentHash_eq (hlisted.mono hlater.extends) (hprov.row_got _ _ _ hdid)
    rw [hmatch, hhash, equalFoldHex_surrounded_iff hbefore hafter htext,
      ← canonical_eq_iff hcanonical hlisted.accepted.canonical_eq]
    exact ⟨hcollision, congrArg _⟩
  refine ⟨c.attempt.canonical, hlisted.accepted.canonical_eq, ?_, ?_, ?_⟩
  · intro last hlater d maxSize b' hcanonical hcollision before text after hbefore hafter htext
    refine ⟨hexact last hlater d maxSize b' hcanonical hcollision before text after hbefore hafter
      htext, fun m hfind => ?_⟩
    obtain ⟨final, res, hfinal, hreturned⟩ :=
      exists_verify_completion (before ++ text ++ after) (hlater.wellFormed hwf) hfind
    exact ⟨final, res, hfinal, hreturned, hexact final (hlater.trans hfinal) d maxSize b' hcanonical
      hcollision before text after hbefore hafter htext _ res hreturned⟩
  · intro last hlater i j sha256hex res res' hreturned hreturned'
    have hprov := provenance_of_run (hrun.trans hlater)
    obtain ⟨m, hdid, hmatch⟩ := verify_did (hlater.wellFormed hwf) hreturned
    obtain ⟨m', hdid', hmatch'⟩ := verify_did (hlater.wellFormed hwf) hreturned'
    have hcore := hprov.core_eq (hprov.row_got _ _ _ hdid) (hprov.row_got _ _ _ hdid')
    rw [hmatch, hmatch', (sameRecord_of_core hcore).contentHash]
  · intro mid last hmid hlater id m m' hfind hfind'
    have hprov := provenance_of_run (hmid.trans hlater)
    have hrow := ((provenance_of_run hmid).row id m hfind).mono hlater.extends
    exact sameRecord_of_core (hprov.core_eq hrow (hprov.row id m' hfind'))

/-- The digest of the sample content. -/
def Sample.digest : Bytes := hashHex Crypto.Sample.primitives.sha256 (BOM ++ ascii "hi")

/-- The paste of the sample run, verified a day after its expiry. -/
theorem verification_permanent_sample :
    ∃ s last r res, (machine Sample.params).Run anyStep Sample.start s ∧
      s.Returned 0 (.create Sample.owner Sample.input) (.create (.ok r)) ∧
      (machine Sample.params).Run anyStep s last ∧ r.info.expiresAt < last.store.clock ∧
      last.Returned 1 (.verify r.info.id (Sample.digest ++ [0x20])) (.verify (.ok res)) ∧
      res.isMatch = true := by
  have hperform : ((machine Sample.params).perform (fun _ _ => true) Sample.start
      Sample.creating).any (fun s =>
      s.ops[0]? = some (.create Sample.owner Sample.input) &&
        ((s.result? 0).bind Result.createOk?).any fun r => r.info.id = Sample.id &&
          ((machine Sample.params).perform (fun _ _ => true) s
            ([.env (.tick (90000 * Calendar.second)),
              .invoke (.verify Sample.id (Sample.digest ++ [0x20]))] ++ Sample.calls 1 4)).any
            fun last => last.ops[1]? = some (.verify Sample.id (Sample.digest ++ [0x20])) &&
              decide (r.info.expiresAt < last.store.clock) &&
              ((last.result? 1).bind Result.verifyOk?).isSome) = true := by decide +kernel
  obtain ⟨s, hrun, hs⟩ := Machine.exists_any_run hperform
  rw [Bool.and_eq_true, decide_eq_true_eq, Option.any_eq_true] at hs
  obtain ⟨hop, r, hr, hs⟩ := hs
  rw [Bool.and_eq_true, decide_eq_true_eq] at hs
  obtain ⟨hid, hlast⟩ := hs
  obtain ⟨last, hlater, hlast⟩ := Machine.exists_any_run hlast
  simp only [Bool.and_eq_true, decide_eq_true_eq, Option.isSome_iff_exists, Result.bind_verifyOk?]
    at hlast
  obtain ⟨⟨hop', hclock⟩, res, hres⟩ := hlast
  have hcreated := (Config.returned_iff s 0 _ _).mpr ⟨hop, Result.bind_createOk?.mp hr⟩
  have hverified := (Config.returned_iff last 1 _ _).mpr ⟨hop', hres⟩
  obtain ⟨b, hb, hexact, -⟩ := verification_permanent Sample.params 0 _ hrun hcreated
  have hcanonical : BOM ++ ascii "hi" = b :=
    Except.ok.inj ((show canonicalize _ _ = .ok (BOM ++ ascii "hi") by decide).symm.trans hb)
  rw [← hid] at hverified
  refine ⟨s, last, r, res, hrun, hcreated, hlater, hclock, hverified, ?_⟩
  exact ((hexact last hlater _ _ b hb (fun _ => rfl) [] Sample.digest [0x20] ⟨[], by simp, rfl⟩
    ⟨[[0x20]], by decide, rfl⟩ (hcanonical ▸ map_lower_hexEncode _)).1 1 res hverified).mpr rfl

end SecurePastebin.System
