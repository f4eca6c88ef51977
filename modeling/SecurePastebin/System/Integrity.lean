import SecurePastebin.Crypto.Reopening
import SecurePastebin.System.Clock
import SecurePastebin.System.Removal

/-!
# Integrity of a paste

What `Read` returns is what the one `Create` of that paste was given, in
canonical form: through the envelope, the JSON record in Redis and the rounded
times of the row, over every interleaving.
-/

namespace SecurePastebin.System

open Text Uuid Calendar Paste
open Crypto SecurePastebin.Store Process Interleaving

variable {sys : Params} {s next : Config} {i j : ℕ} {id : UUID} {clock : ℤ} {E : Envelope}
  {c : Creation} {allowed : Config → Action → Prop}

/-! ## What was sealed -/

/-- A sealed record was sealed by an envelope that the present one continues, in
whatever sense every restart does. -/
theorem sealed_of_run (continues : Envelope → Envelope → Prop)
    (hrefl : ∀ E, continues E E)
    (htrans : ∀ E E' E'', continues E E' → continues E' E'' → continues E E'')
    (hrestart : ∀ s E, allowed s (.env (.restart E)) → continues s.store.envelope E)
    (hrun : (machine sys).Run allowed (.initial (.empty clock E)) s)
    {expiresAt : ℤ} {plain password : Bytes} {record : EncryptedBody}
    (hdid : s.Did i (.envelopeSeal id expiresAt plain password) (.ok record)) :
    ∃ E gate draws, E.sealBody sys.prims gate draws id expiresAt plain password = .ok record ∧
      continues E s.store.envelope := by
  revert i
  refine hrun.induct (motive := fun s => ∀ {i : ℕ},
    s.Did i (.envelopeSeal id expiresAt plain password) (.ok record) → ∃ E gate draws,
      E.sealBody sys.prims gate draws id expiresAt plain password = .ok record ∧
        continues E s.store.envelope) .initial ?_ ?_ ?_ ?_
  · intro i hdid
    simp [Config.Did, Config.initial] at hdid
  · intro s change store _ hsealed hallowed henv i hdid
    obtain ⟨E, gate, draws, hseal, hcontinues⟩ := hsealed hdid
    refine ⟨E, gate, draws, hseal, ?_⟩
    cases change <;> cases henv
    · exact hcontinues
    · exact htrans _ _ _ hcontinues (hrestart s _ hallowed)
  · intro s op _ hsealed _ i hdid
    exact hsealed hdid
  · intro s j op choice request reply store proc _ hsealed _ _ _ _ hexec i hdid
    rw [Config.store_answer, (exec_clock_envelope hexec).2]
    rcases Config.did_answer.mp hdid with hdid | ⟨-, heq⟩
    · exact hsealed hdid
    · have hobserved := exec_observed hexec
      rw [← heq] at hobserved
      obtain ⟨gate, draws, hseal⟩ := hobserved
      exact ⟨_, gate, draws, hseal, hrefl _⟩

theorem Stored.sealed (hstored : Stored sys s i c) :
    s.Did i (.envelopeSeal c.id (c.info sys).expiresAt c.attempt.canonical c.input.password)
      (.ok c.attempt.sealed) := by
  have hexpires : (c.info sys).expiresAt =
      (newMeta sys.deps c.p c.input c.attempt.canonical c.attempt.created c.id).expiresAt := by
    rw [c.info_eq sys]
  rw [Config.did_iff_mem_trace, hexpires]
  apply hstored.trace.subset
  apply (c.sealedTrace_start sys).subset
  simp [Creation.sealedTrace, Attempt.sealedTrace, Attempt.sealing, Creation.id]

/-- The key id of an unprotected paste is that of its record. -/
theorem Creation.info_kekId (hpassword : c.input.password = []) :
    (c.info sys).kekId = c.attempt.sealed.kekId := by
  simp [Creation.info, Attempt.info, withKek, newMeta, hpassword]

/-- The stored record of a listed paste decodes to what was sealed. -/
theorem Listed.unmarshal_marshal {E : Envelope} {gate : GateOutcome} {draws : Draws} {t : ℤ}
    {plain : Bytes} (hlisted : Listed sys s i c) (hprov : Provenance sys s)
    (hseal : E.sealBody sys.prims gate draws id t plain c.input.password =
      .ok c.attempt.sealed) :
    Bodies.unmarshal (Bodies.marshal c.attempt.sealed) = some c.attempt.sealed := by
  apply Envelope.unmarshal_marshal_sealed hseal
  rcases Envelope.sealBody_cases hseal with ⟨hpassword, -⟩ | ⟨-, hrecord⟩
  · rw [← Creation.info_kekId hpassword]
    exact (hprov.inserted i _ hlisted.inserted).2
  · rw [hrecord]
    rfl

/-- What one thread has read under an identifier, the row and the body, belongs
to one paste. -/
theorem Provenance.read_same (hprov : Provenance sys s) {m : PasteMeta} {record : EncryptedBody}
    (hget : s.Did j (.metasGet id) (.ok m)) (hbody : s.Did j (.bodiesGet id) (.ok record)) :
    ∃ i c, Listed sys s i c ∧ c.id = id ∧ core m = core (storedRow (c.info sys)) ∧
      Bodies.unmarshal (Bodies.marshal c.attempt.sealed) = some record := by
  obtain ⟨i, c, hlisted, hid, hcore⟩ := hprov.row_got j id m hget
  obtain ⟨k, c', hstored, hid', hrecord⟩ := hprov.body_got j id record hbody
  obtain ⟨-, rfl⟩ := hprov.creation_unique hlisted.toStored hstored (hid.trans hid'.symm)
  exact ⟨i, c, hlisted, hid, hcore, hrecord⟩

/-- Rounding to microseconds stays within the second. -/
theorem unix_pgTime (t : ℤ) : unix (pgTime t) = unix t := by
  simp only [unix, pgTime, truncate, second, microsecond]
  omega

/-! ## What is opened -/

/-- A restart keeps every key. -/
def KeyringGrows (s : Config) : Action → Prop
  | .env (.restart E) => s.store.envelope.KeepsKeys E
  | _ => True

/-- No other key than its own unwraps the data key of a protected paste. -/
def SealsBound (sys : Params) (s : Config) : Prop :=
  ∀ i id expiresAt plain password record,
    s.Did i (.envelopeSeal id expiresAt plain password) (.ok record) → password ≠ [] →
      sys.prims.gcm.Binding record.wrappedDEK

/-- The record a thread is about to open is the one its paste was sealed in, and
the present envelope continues the one that sealed it. -/
theorem sealed_of_opening (continues : Envelope → Envelope → Prop)
    (hrefl : ∀ E, continues E E)
    (htrans : ∀ E E' E'', continues E E' → continues E' E'' → continues E E'')
    (hrestart : ∀ s E, allowed s (.env (.restart E)) → continues s.store.envelope E)
    (hrun : (machine sys).Run allowed (.initial (.empty clock E)) s) {op : Op}
    {expiresAt : ℤ} {password : Bytes} {record : EncryptedBody}
    (hreach : (program sys op).Reaches (s.trace j)
      (.inl (.envelopeOpen id expiresAt record password))) :
    ∃ i c E gate draws, Listed sys s i c ∧ c.id = id ∧ record = c.attempt.sealed ∧
      unix expiresAt = unix (c.info sys).expiresAt ∧
      E.sealBody sys.prims gate draws id (c.info sys).expiresAt c.attempt.canonical
        c.input.password = .ok record ∧ continues E s.store.envelope := by
  have hprov := provenance_of_run hrun
  obtain ⟨p, m, now, rechecked, rfl, -, rfl, htrace⟩ := call_envelopeOpen hreach
  have hget : s.Did j (.metasGet id) (.ok m) :=
    Config.did_of_trace htrace (by simp [readChecks])
  have hbody : s.Did j (.bodiesGet id) (.ok record) :=
    Config.did_of_trace htrace (by simp [readChecks])
  obtain ⟨i, c, hlisted, rfl, hcore, hrecord⟩ := hprov.read_same hget hbody
  obtain ⟨E', gate, draws, hseal, hcontinues⟩ :=
    sealed_of_run continues hrefl htrans hrestart hrun hlisted.toStored.sealed
  rw [hlisted.unmarshal_marshal hprov hseal, Option.some.injEq] at hrecord
  subst hrecord
  refine ⟨i, c, E', gate, draws, hlisted, rfl, rfl, ?_, hseal, hcontinues⟩
  rw [expiresAt_of_core hcore]
  exact unix_pgTime _

theorem opened_of_run (hgrows : ∀ s action, allowed s action → KeyringGrows s action)
    (hrun : (machine sys).Run allowed (.initial (.empty clock E)) s)
    (hbound : SealsBound sys s) {expiresAt : ℤ} {password b : Bytes} {record : EncryptedBody}
    (hdid : s.Did j (.envelopeOpen id expiresAt record password) (.ok b)) :
    ∃ i c, Listed sys s i c ∧ c.id = id ∧ b = c.attempt.canonical := by
  revert hbound j
  refine hrun.induct (motive := fun s => ∀ {j : ℕ}, SealsBound sys s →
    s.Did j (.envelopeOpen id expiresAt record password) (.ok b) →
      ∃ i c, Listed sys s i c ∧ c.id = id ∧ b = c.attempt.canonical)
    .initial ?_ ?_ ?_ ?_
  · intro j _ hdid
    simp [Config.Did, Config.initial] at hdid
  · intro s change store _ hopened _ _ j hbound hdid
    obtain ⟨i, c, hlisted, hid, hcanonical⟩ := hopened hbound hdid
    exact ⟨i, c, hlisted.mono (Config.extends_store _), hid, hcanonical⟩
  · intro s op _ hopened _ j hbound hdid
    obtain ⟨i, c, hlisted, hid, hcanonical⟩ := hopened hbound hdid
    exact ⟨i, c, hlisted.mono (Config.extends_invoke op _), hid, hcanonical⟩
  · intro s k op choice request reply store proc hpast hopened _ _ _ hreach hexec j hbound hdid
    have hextends := Config.extends_answer (s := s) k proc ⟨request, reply⟩ store
    have hbefore : SealsBound sys s := fun i id t plain password record hseal =>
      hbound i id t plain password record (hextends.did hseal)
    rcases Config.did_answer.mp hdid with hdid | ⟨-, heq⟩
    · obtain ⟨i, c, hlisted, hid, hcanonical⟩ := hopened hbefore hdid
      exact ⟨i, c, hlisted.mono hextends, hid, hcanonical⟩
    · cases heq
      obtain ⟨i, c, E', gate, draws, hlisted, rfl, rfl, htime, hseal, hkeys⟩ :=
        sealed_of_opening Envelope.KeepsKeys Envelope.KeepsKeys.refl
          (fun _ _ _ => Envelope.KeepsKeys.trans) (fun s E hallowed => hgrows s _ hallowed) hpast
          hreach
      obtain ⟨gate', hopen⟩ := exec_observed hexec
      refine ⟨i, c, hlisted.mono hextends, rfl, ?_⟩
      exact Envelope.openBody_eq_plain hseal hkeys
        (hbefore i _ _ _ _ _ hlisted.toStored.sealed) htime hopen

/-- What `Read` returns as content is what the one `Create` of that identifier
was given, in canonical form, and the row describes it. -/
theorem read_content_of_run (hgrows : ∀ s action, allowed s action → KeyringGrows s action)
    (hrun : (machine sys).Run allowed (.initial (.empty clock E)) s)
    (hbound : SealsBound sys s) {q : Option Principal} {password b : Bytes} {res : ReadResult}
    (hreturned : s.Returned j (.read q id password) (.read (.ok res)))
    (hcontent : res.content = some b) :
    ∃ i p input, s.ops[i]? = some (.create p input) ∧ s.Did i .newUUID id ∧
      (∀ k, s.Did k .newUUID id → k = i) ∧
      canonicalize input.content sys.limits.maxSize = .ok b ∧ hasBOM b = true ∧
      hashHex sys.prims.sha256 b = res.info.contentHash ∧ b.length = res.info.sizeBytes ∧
      (b.length : ℤ) ≤ sys.limits.maxSize := by
  have hprov := provenance_of_run hrun
  have hwf := hrun.wellFormed .initial
  obtain ⟨m, sealed, recorded, hget, -, -, -, rfl, hopen⟩ :=
    read_content_did hwf hreturned hcontent
  obtain ⟨i, c, hlisted, rfl, rfl⟩ := opened_of_run hgrows hrun hbound hopen
  obtain ⟨k, c', hlisted', hid, hcore⟩ := hprov.row_got j _ _ hget
  obtain ⟨-, rfl⟩ := hprov.creation_unique hlisted.toStored hlisted'.toStored hid.symm
  have hcanonical := hlisted.accepted.canonical_eq
  obtain ⟨hbom, hsize⟩ := canonicalize_eq_ok hcanonical
  refine ⟨i, c.p, c.input, hlisted.op, hlisted.toStored.drew, ?_, hcanonical, hbom, ?_, ?_, hsize⟩
  · intro k hdrew
    exact hprov.unique k i c.id hdrew hlisted.toStored.drew
  · rw [field_of_core PasteMeta.contentHash (fun _ => rfl) hcore, c.info_eq sys]
    rfl
  · rw [field_of_core PasteMeta.sizeBytes (fun _ => rfl) hcore, c.info_eq sys]
    rfl

end SecurePastebin.System
