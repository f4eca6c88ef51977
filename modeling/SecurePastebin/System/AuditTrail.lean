import SecurePastebin.Core.Coupling
import SecurePastebin.Paste.Verification
import SecurePastebin.System.Roundtrip

/-!
# The audit trail tells no secrets

Two runs of the same service calls, whose contents and passwords differ but have
the same shape, are kept in lockstep.  If unlock attempts and verifications turn
out alike, the events handed to the audit sink are the same.
-/

namespace SecurePastebin.System

open Text Uuid Utf8 Paste
open Crypto SecurePastebin.Store Process Interleaving

/-! ## Requests -/

/-- `Create` refuses the password. -/
def RefusesPassword (password : Bytes) : Prop :=
  valid password = false ∨ (password ≠ [] ∧ runeCount password > 128)

/-- The inputs ask for the same paste but for the text and the password: both
contents are valid or not and carry a byte order mark or not, both passwords are
there or not and acceptable or not. -/
structure SameShape (input input' : CreateInput) : Prop where
  ttlSeconds : input.ttlSeconds = input'.ttlSeconds
  length : input.content.length = input'.content.length
  utf8 : valid input.content = valid input'.content
  mark : hasBOM input.content = hasBOM input'.content
  password : input.password = [] ↔ input'.password = []
  refused : RefusesPassword input.password ↔ RefusesPassword input'.password

/-- Corresponding service calls. -/
inductive OpAlike : Op → Op → Prop
  | create (p : Principal) {input input' : CreateInput} (hshape : SameShape input input') :
      OpAlike (.create p input) (.create p input')
  | read (p : Option Principal) (id : UUID) {password password' : Bytes}
      (hpassword : password = [] ↔ password' = []) :
      OpAlike (.read p id password) (.read p id password')
  | verify (id : UUID) (sha256hex sha256hex' : Bytes) :
      OpAlike (.verify id sha256hex) (.verify id sha256hex')
  | delete (p : Principal) (id : UUID) : OpAlike (.delete p id) (.delete p id)

/-- Corresponding outcomes: nothing but the random draws of a `Seal` may
differ. -/
inductive ChoiceAlike : Choice → Choice → Prop
  | ok : ChoiceAlike .ok .ok
  | fail (text : String) : ChoiceAlike (.fail text) (.fail text)
  | uuid (id : UUID) : ChoiceAlike (.uuid id) (.uuid id)
  | sealing (gate : GateOutcome) (draws draws' : Draws) :
      ChoiceAlike (.sealing gate draws) (.sealing gate draws')
  | opening (gate : GateOutcome) : ChoiceAlike (.opening gate) (.opening gate)

/-! ## Calls and replies -/

/-- The calls that carry no secret and whose reply carries none. -/
def Plain : Call → Prop
  | .now | .newUUID | .bodiesDelete _ | .bodiesMarkUnavailableOnce .. | .metasIncrementViews _
  | .metasMarkDeleted .. | .auditRecord _ => True
  | _ => False

inductive CallAlike : Call → Call → Prop
  | plain {request : Call} (hplain : Plain request) : CallAlike request request
  | envelopeSeal (id : UUID) (expiresAt : ℤ) (plain plain' : Bytes) {password password' : Bytes}
      (hpassword : password = [] ↔ password' = []) :
      CallAlike (.envelopeSeal id expiresAt plain password)
        (.envelopeSeal id expiresAt plain' password')
  | envelopeOpen (id : UUID) (expiresAt : ℤ) (sealed sealed' : EncryptedBody)
      (password password' : Bytes) :
      CallAlike (.envelopeOpen id expiresAt sealed password)
        (.envelopeOpen id expiresAt sealed' password')
  | bodiesPut (id : UUID) (sealed sealed' : EncryptedBody) (ttl : ℤ) :
      CallAlike (.bodiesPut id sealed ttl) (.bodiesPut id sealed' ttl)
  | bodiesGet (id : UUID) : CallAlike (.bodiesGet id) (.bodiesGet id)
  | metasCreate (m : PasteMeta) {hash : Bytes} (hfits : fitsText m.contentHash = fitsText hash) :
      CallAlike (.metasCreate m) (.metasCreate { m with contentHash := hash })
  | metasGet (id : UUID) : CallAlike (.metasGet id) (.metasGet id)

/-- An attempt that released the content. -/
def isCorrect : Except Err Bytes → Bool
  | .ok _ => true
  | .error _ => false

/-- An attempt the service takes for a wrong password. -/
def isWrong : Except Err Bytes → Bool
  | .ok _ => false
  | .error err => Err.is .wrongPassword err

/-- Verifications of the two rows match or fail alike. -/
def MatchAlike (op op' : Op) (hash hash' : Bytes) : Prop :=
  ∀ id id' sha256hex sha256hex', op = .verify id sha256hex → op' = .verify id' sha256hex' →
    equalFoldHex (trimSpace sha256hex) hash = equalFoldHex (trimSpace sha256hex') hash'

/-- Corresponding answered calls of two threads. -/
inductive StepAlike (op op' : Op) : Step → Step → Prop
  | plain {request : Call} (hplain : Plain request) (reply : request.Reply) :
      StepAlike op op' ⟨request, reply⟩ ⟨request, reply⟩
  | sealed (id : UUID) (expiresAt : ℤ) (plain plain' password password' : Bytes)
      {sealed sealed' : EncryptedBody} (hkek : sealed.kekId = sealed'.kekId) :
      StepAlike op op' ⟨.envelopeSeal id expiresAt plain password, .ok sealed⟩
        ⟨.envelopeSeal id expiresAt plain' password', .ok sealed'⟩
  | unsealed (id : UUID) (expiresAt : ℤ) (plain plain' password password' : Bytes) (err : Err) :
      StepAlike op op' ⟨.envelopeSeal id expiresAt plain password, .error err⟩
        ⟨.envelopeSeal id expiresAt plain' password', .error err⟩
  | opened (id : UUID) (expiresAt : ℤ) (sealed sealed' : EncryptedBody)
      (password password' : Bytes) {reply reply' : Except Err Bytes}
      (hcorrect : isCorrect reply = isCorrect reply') (hwrong : isWrong reply = isWrong reply') :
      StepAlike op op' ⟨.envelopeOpen id expiresAt sealed password, reply⟩
        ⟨.envelopeOpen id expiresAt sealed' password', reply'⟩
  | put (id : UUID) (sealed sealed' : EncryptedBody) (ttl : ℤ) (reply : Except Err Unit) :
      StepAlike op op' ⟨.bodiesPut id sealed ttl, reply⟩ ⟨.bodiesPut id sealed' ttl, reply⟩
  | gotBody (id : UUID) (sealed sealed' : EncryptedBody) :
      StepAlike op op' ⟨.bodiesGet id, .ok sealed⟩ ⟨.bodiesGet id, .ok sealed'⟩
  | noBody (id : UUID) (err : Err) :
      StepAlike op op' ⟨.bodiesGet id, .error err⟩ ⟨.bodiesGet id, .error err⟩
  | inserted (m m' : PasteMeta) (reply : Except Err Unit) :
      StepAlike op op' ⟨.metasCreate m, reply⟩ ⟨.metasCreate m', reply⟩
  | found (id : UUID) (m : PasteMeta) {hash : Bytes}
      (hmatch : MatchAlike op op' m.contentHash hash) :
      StepAlike op op' ⟨.metasGet id, .ok m⟩ ⟨.metasGet id, .ok { m with contentHash := hash }⟩
  | notFound (id : UUID) (err : Err) :
      StepAlike op op' ⟨.metasGet id, .error err⟩ ⟨.metasGet id, .error err⟩

/-- Alike steps hand the sink the same event, if any. -/
theorem StepAlike.eventOf_eq {op op' : Op} {step step' : Step}
    (halike : StepAlike op op' step step') : eventOf step = eventOf step' := by
  cases halike <;> rfl

/-! ## The programs -/

section Programs

variable {op op' : Op} {Left Right : Type} {same : Left → Right → Prop}

/-- Programs that make corresponding calls, as threads of `op` and `op'`. -/
abbrev Lockstep (op op' : Op) (same : Left → Right → Prop) : Port Left → Port Right → Prop :=
  Coupled CallAlike (StepAlike op op') same

theorem lockstep_plain (request : Call) (hplain : Plain request)
    {next : request.Reply → Port Left} {next' : request.Reply → Port Right}
    (hnext : ∀ reply, Lockstep op op' same (next reply) (next' reply)) :
    Lockstep op op' same (.call request next) (.call request next') := by
  refine .call (.plain hplain) fun reply reply' halike => ?_
  cases halike with
  | plain _ _ => exact hnext reply
  | _ => cases hplain

theorem lockstep_metasGet (id : UUID) {next : Except Err PasteMeta → Port Left}
    {next' : Except Err PasteMeta → Port Right}
    (herror : ∀ err, Lockstep op op' same (next (.error err)) (next' (.error err)))
    (hfound : ∀ (m : PasteMeta) hash, MatchAlike op op' m.contentHash hash →
      Lockstep op op' same (next (.ok m)) (next' (.ok { m with contentHash := hash }))) :
    Lockstep op op' same (.call (.metasGet id) next) (.call (.metasGet id) next') := by
  refine .call (.metasGet id) fun reply reply' halike => ?_
  cases halike with
  | plain hplain _ => cases hplain
  | found _ m hmatch => exact hfound m _ hmatch
  | notFound _ err => exact herror err

theorem lockstep_envelopeSeal (id : UUID) (expiresAt : ℤ) {plain plain' password password' : Bytes}
    (hpassword : password = [] ↔ password' = []) {next : Except Err EncryptedBody → Port Left}
    {next' : Except Err EncryptedBody → Port Right}
    (herror : ∀ err, Lockstep op op' same (next (.error err)) (next' (.error err)))
    (hsealed : ∀ sealed sealed' : EncryptedBody, sealed.kekId = sealed'.kekId →
      Lockstep op op' same (next (.ok sealed)) (next' (.ok sealed'))) :
    Lockstep op op' same (.call (.envelopeSeal id expiresAt plain password) next)
      (.call (.envelopeSeal id expiresAt plain' password') next') := by
  refine .call (.envelopeSeal id expiresAt plain plain' hpassword) fun reply reply' halike => ?_
  cases halike with
  | plain hplain _ => cases hplain
  | sealed _ _ _ _ _ _ hkek => exact hsealed _ _ hkek
  | unsealed _ _ _ _ _ _ err => exact herror err

theorem lockstep_bodiesPut (id : UUID) (sealed sealed' : EncryptedBody) (ttl : ℤ)
    {next : Except Err Unit → Port Left} {next' : Except Err Unit → Port Right}
    (hnext : ∀ reply, Lockstep op op' same (next reply) (next' reply)) :
    Lockstep op op' same (.call (.bodiesPut id sealed ttl) next)
      (.call (.bodiesPut id sealed' ttl) next') := by
  refine .call (.bodiesPut id sealed sealed' ttl) fun reply reply' halike => ?_
  cases halike with
  | plain hplain _ => cases hplain
  | put => exact hnext reply

theorem lockstep_metasCreate (m : PasteMeta) {hash : Bytes}
    (hfits : fitsText m.contentHash = fitsText hash) {next : Except Err Unit → Port Left}
    {next' : Except Err Unit → Port Right}
    (hnext : ∀ reply, Lockstep op op' same (next reply) (next' reply)) :
    Lockstep op op' same (.call (.metasCreate m) next)
      (.call (.metasCreate { m with contentHash := hash }) next') := by
  refine .call (.metasCreate m hfits) fun reply reply' halike => ?_
  generalize { m with contentHash := hash } = m' at halike
  cases halike with
  | plain hplain _ => cases hplain
  | inserted => exact hnext reply

theorem lockstep_record (d : Deps) (kind : EventKind) (actor id : Option UUID) (outcome : Outcome)
    (details : List (String × Detail)) :
    Lockstep op op' (fun _ _ => True) (record d kind actor id outcome details)
      (record d kind actor id outcome details) := by
  unfold record
  split
  · simp only [Proc.perform_bind]
    exact lockstep_plain .now trivial fun time =>
      lockstep_plain (.auditRecord _) trivial fun _ => .ret trivial
  · exact .ret trivial

theorem delete_lockstep (d : Deps) (p : Principal) (id : UUID) :
    Lockstep op op' (fun _ _ => True) (delete d p id) (delete d p id) := by
  unfold delete
  simp only [Proc.perform_bind]
  refine lockstep_metasGet id (fun err => .ret trivial) fun m hash _ => ?_
  dsimp only
  split
  · exact .ret trivial
  · refine lockstep_plain .now trivial fun now => ?_
    split
    · exact .ret trivial
    · refine lockstep_plain (.bodiesDelete id) trivial fun deleted => ?_
      cases deleted with
      | error err => exact .ret trivial
      | ok =>
          refine lockstep_plain (.metasMarkDeleted id p.userId now) trivial fun marked => ?_
          cases marked with
          | error err => exact .ret trivial
          | ok => exact (lockstep_record ..).bind fun _ _ _ => .ret trivial

theorem verify_lockstep (d : Deps) (id : UUID) (sha256hex sha256hex' : Bytes) :
    Lockstep (.verify id sha256hex) (.verify id sha256hex') (fun _ _ => True)
      (verify d id sha256hex) (verify d id sha256hex') := by
  unfold verify
  simp only [Proc.perform_bind]
  refine lockstep_metasGet id (fun err => .ret trivial) fun m hash hmatch => ?_
  have hsame := hmatch id id sha256hex sha256hex' rfl rfl
  refine lockstep_plain .now trivial fun now => ?_
  simp only [hsame]
  exact (lockstep_record ..).bind fun _ _ _ => .ret trivial

theorem release_lockstep (d : Deps) (p : Option Principal) (id : UUID) (m : PasteMeta)
    (hash : Bytes) (res res' : ReadResult) (plain plain' : Bytes) :
    Lockstep op op' (fun _ _ => True) (release d p id m res plain)
      (release d p id { m with contentHash := hash } res' plain') := by
  unfold release
  simp only [Proc.perform_bind]
  refine lockstep_plain .now trivial fun opened => ?_
  split
  · exact .ret trivial
  · refine lockstep_plain (.metasIncrementViews id) trivial fun _ => ?_
    refine lockstep_plain .now trivial fun counted => ?_
    split
    · exact .ret trivial
    · split
      · refine (lockstep_record ..).bind fun _ _ _ => lockstep_plain .now trivial fun recorded => ?_
        split <;> exact .ret trivial
      · refine (lockstep_record ..).bind fun _ _ _ => lockstep_plain .now trivial fun recorded => ?_
        split <;> exact .ret trivial

theorem reportMissing_lockstep (d : Deps) (p : Option Principal) (id : UUID) (m : PasteMeta)
    (hash : Bytes) (res res' : ReadResult) (now : ℤ) :
    Lockstep op op' (fun _ _ => True) (reportMissing d p id m res now)
      (reportMissing d p id { m with contentHash := hash } res' now) := by
  unfold reportMissing
  simp only [Proc.perform_bind]
  refine lockstep_plain (.bodiesMarkUnavailableOnce id _) trivial fun marked => ?_
  match marked with
  | .ok true => exact (lockstep_record ..).bind fun _ _ _ => .ret trivial
  | .ok false => exact .ret trivial
  | .error _ => exact .ret trivial

theorem read_lockstep (d : Deps) (p : Option Principal) (id : UUID) {password password' : Bytes}
    (hpassword : password = [] ↔ password' = []) :
    Lockstep op op' (fun _ _ => True) (Paste.read d p id password)
      (Paste.read d p id password') := by
  unfold Paste.read
  simp only [Proc.perform_bind]
  refine lockstep_metasGet id (fun err => .ret trivial) fun m hash _ => ?_
  refine lockstep_plain .now trivial fun now => ?_
  dsimp only
  change Lockstep op op' _ (if m.status now ≠ .active then _ else _)
    (if m.status now ≠ .active then _ else _)
  split
  · exact .ret trivial
  · refine .call (.bodiesGet id) fun body body' halike => ?_
    refine lockstep_plain .now trivial fun now => ?_
    split
    · exact .ret trivial
    · cases halike with
      | plain hplain => cases hplain
      | noBody _ err =>
          dsimp only
          split
          · exact reportMissing_lockstep ..
          · exact .ret trivial
      | gotBody _ sealed sealed' =>
          refine .ite (and_congr_right fun _ => hpassword) (.ret trivial) fun _ => ?_
          · refine .call (.envelopeOpen id m.expiresAt sealed sealed' password password')
              fun reply reply' halike => ?_
            cases halike with
            | plain hplain => cases hplain
            | opened _ _ _ _ _ _ hcorrect hwrong =>
                cases reply with
                | ok plain =>
                    cases reply' with
                    | ok plain' => exact release_lockstep ..
                    | error err => cases hcorrect
                | error err =>
                    cases reply' with
                    | ok plain' => cases hcorrect
                    | error err' =>
                        dsimp only [isWrong] at hwrong ⊢
                        rw [hwrong]
                        split
                        · exact (lockstep_record ..).bind fun _ _ _ => .ret trivial
                        · exact .ret trivial

section

variable {input input' : CreateInput}

/-- Contents of one shape are refused alike, or their canonical texts have one
length. -/
theorem SameShape.canonicalize (hshape : SameShape input input') (maxSize : ℤ) :
    (∃ b b', Paste.canonicalize input.content maxSize = .ok b ∧
        Paste.canonicalize input'.content maxSize = .ok b' ∧ b.length = b'.length) ∨
      ∃ err err', Paste.canonicalize input.content maxSize = .error err ∧
        Paste.canonicalize input'.content maxSize = .error err' := by
  unfold Paste.canonicalize
  rw [hshape.utf8, hshape.mark]
  split
  · exact .inr ⟨_, _, rfl, rfl⟩
  · have hlength : (if !hasBOM input'.content then BOM ++ input.content else input.content).length =
        (if !hasBOM input'.content then BOM ++ input'.content else input'.content).length := by
      split <;> simp [hshape.length]
    generalize (if !hasBOM input'.content then BOM ++ input.content else input.content) = b at *
    generalize (if !hasBOM input'.content then BOM ++ input'.content else input'.content) = b' at *
    dsimp only
    rw [hlength]
    split
    · exact .inr ⟨_, _, rfl, rfl⟩
    · exact .inl ⟨_, _, rfl, rfl, hlength⟩

theorem SameShape.effectiveTTL_eq (hshape : SameShape input input') (d : Deps) :
    effectiveTTL d input = effectiveTTL d input' := by
  rw [effectiveTTL, effectiveTTL, hshape.ttlSeconds]

theorem SameShape.newMeta_eq (hshape : SameShape input input') (d : Deps) (p : Principal)
    {b b' : Bytes} (hlength : b.length = b'.length) (now : ℤ) (id : UUID) :
    newMeta d p input' b' now id =
      { newMeta d p input b now id with contentHash := hashHex d.sha256 b' } := by
  simp [newMeta, hshape.effectiveTTL_eq, hlength, hshape.password]

theorem withKek_alike (m : PasteMeta) (hash : Bytes) {sealed sealed' : EncryptedBody}
    (hkek : sealed.kekId = sealed'.kekId) :
    withKek { m with contentHash := hash } sealed' =
      { withKek m sealed with contentHash := hash } := by
  unfold withKek
  dsimp only
  split
  · rfl
  · rw [hkek]

/-- Digests are text any column takes. -/
theorem fitsText_hashHex (sha256 : Bytes → Bytes) (data : Bytes) :
    fitsText (hashHex sha256 data) = true := by
  have hdigit : ∀ value : UInt8, value < 16 → hexDigit value < 0x80 ∧ hexDigit value ≠ 0 := by
    decide +kernel
  have hbytes : ∀ byte ∈ hashHex sha256 data, byte < 0x80 ∧ byte ≠ 0 := by
    intro byte hbyte
    obtain ⟨value, hvalue, rfl⟩ := digit_of_mem_hexEncode hbyte
    exact hdigit value hvalue
  have hvalid := valid_of_ascii fun byte hbyte => (hbytes byte hbyte).1
  have hzero : (hashHex sha256 data).contains 0 = false := by
    rw [List.contains_eq_mem, decide_eq_false_iff_not]
    exact fun hmem => (hbytes 0 hmem).2 rfl
  rw [fitsText, hvalid, hzero]
  rfl

theorem create_lockstep (d : Deps) (p : Principal) (hshape : SameShape input input') :
    Lockstep op op' (fun _ _ => True) (create d p input) (create d p input') := by
  unfold create
  simp only [Proc.perform_bind, hshape.effectiveTTL_eq d]
  split
  · exact .ret trivial
  · refine .ite hshape.refused (.ret trivial) fun _ => ?_
    rcases hshape.canonicalize d.limits.maxSize with
      ⟨b, b', hb, hb', hlength⟩ | ⟨err, err', herr, herr'⟩
    · rw [hb, hb']
      refine lockstep_plain .now trivial fun now => lockstep_plain .newUUID trivial fun id => ?_
      rw [hshape.newMeta_eq d p hlength now id]
      refine lockstep_envelopeSeal id _ hshape.password (fun err => .ret trivial)
        fun sealed sealed' hkek => ?_
      dsimp only
      rw [withKek_alike _ _ hkek]
      have hhash : fitsText (withKek (newMeta d p input b now id) sealed).contentHash =
          fitsText (hashHex d.sha256 b') := by
        have hwith : (withKek (newMeta d p input b now id) sealed).contentHash =
            hashHex d.sha256 b := by
          unfold withKek
          split <;> rfl
        rw [hwith, fitsText_hashHex, fitsText_hashHex]
      refine lockstep_plain .now trivial fun later => .ite Iff.rfl (.ret trivial) fun _ => ?_
      refine lockstep_bodiesPut id sealed sealed' _ fun put => ?_
      cases put with
      | error err => exact .ret trivial
      | ok =>
          refine lockstep_metasCreate _ hhash fun created => ?_
          cases created with
          | error err => exact lockstep_plain (.bodiesDelete id) trivial fun _ => .ret trivial
          | ok => exact (lockstep_record ..).bind fun _ _ _ => .ret trivial
    · rw [herr, herr']
      exact .ret trivial

end

theorem program_lockstep (sys : Params) (halike : OpAlike op op') :
    Lockstep op op' (fun _ _ => True) (program sys op) (program sys op') := by
  cases halike with
  | create p hshape => exact (create_lockstep sys.deps p hshape).bind fun _ _ _ => .ret trivial
  | read p id hpassword =>
      exact (read_lockstep sys.deps p id hpassword).bind fun _ _ _ => .ret trivial
  | verify id sha256hex sha256hex' =>
      exact (verify_lockstep sys.deps id sha256hex sha256hex').bind fun _ _ _ => .ret trivial
  | delete p id => exact (delete_lockstep sys.deps p id).bind fun _ _ _ => .ret trivial

end Programs

/-! ## The stores -/

/-- A row without its digest. -/
def outline (m : PasteMeta) : PasteMeta := { m with contentHash := [] }

theorem exists_hash_of_outline {m m' : PasteMeta} (hsame : outline m = outline m') :
    m' = { m with contentHash := m'.contentHash } := by
  obtain ⟨⟩ := m
  obtain ⟨⟩ := m'
  simp_all [outline]

/-- The stores of two runs: the digests and the bodies may differ. -/
structure SameOutline (σ τ : Store) : Prop where
  clock : σ.clock = τ.clock
  envelope : σ.envelope = τ.envelope
  drawn : σ.drawn = τ.drawn
  redis : Keyspace.SameTimes σ.redis τ.redis
  pastes : Table.SameView outline σ.pastes τ.pastes
  audit : σ.audit = τ.audit

section Stores

variable {σ τ σ' τ' : Store} {op op' : Op} {request request' : Call} {reply : request.Reply}
  {reply' : request'.Reply}

/-- Every body under the identifier can be decoded. -/
def Decodable (σ : Store) (id : UUID) : Prop :=
  ∀ entry, σ.redis (Bodies.bodyKey id) = some entry → (Bodies.unmarshal entry.value).isSome = true

theorem SameOutline.bodiesGet (hsame : SameOutline σ τ) {id : UUID} (hleft : Decodable σ id)
    (hright : Decodable τ id) :
    StepAlike op op' ⟨.bodiesGet id, Bodies.get σ.redis σ.clock id⟩
      ⟨.bodiesGet id, Bodies.get τ.redis τ.clock id⟩ := by
  rw [← hsame.clock]
  rcases hsame.redis.find σ.clock (Bodies.bodyKey id) with
    ⟨hfind, hfind'⟩ | ⟨entry, entry', hfind, hfind'⟩
  · simp only [Bodies.get, hfind, hfind']
    exact .noBody id _
  · have hsome := hleft entry (Keyspace.find_eq_some_iff.mp hfind).1
    have hsome' := hright entry' (Keyspace.find_eq_some_iff.mp hfind').1
    obtain ⟨sealed, hsealed⟩ := Option.isSome_iff_exists.mp hsome
    obtain ⟨sealed', hsealed'⟩ := Option.isSome_iff_exists.mp hsome'
    simp only [Bodies.get, hfind, hfind', hsealed, hsealed']
    exact .gotBody id sealed sealed'

theorem SameOutline.metasGet (hsame : SameOutline σ τ) {id : UUID}
    (hmatch : ∀ m m', σ.pastes.get id = .ok m → τ.pastes.get id = .ok m' →
      MatchAlike op op' m.contentHash m'.contentHash) :
    StepAlike op op' ⟨.metasGet id, σ.pastes.get id⟩ ⟨.metasGet id, τ.pastes.get id⟩ := by
  have hfind := hsame.pastes.find (fun _ => rfl) id
  cases hleft : σ.pastes.find id with
  | none =>
      rw [hleft] at hfind
      have hright := Option.map_eq_none_iff.mp hfind.symm
      simp only [Pastes.get, hleft, hright]
      exact .notFound id _
  | some m =>
      rw [hleft] at hfind
      obtain ⟨m', hright, houtline⟩ := Option.map_eq_some_iff.mp hfind.symm
      have hget := (Pastes.get_eq_ok_iff id).mpr hleft
      have hget' := (Pastes.get_eq_ok_iff id).mpr hright
      have halike := hmatch m m' hget hget'
      rw [hget, hget', exists_hash_of_outline houtline.symm]
      exact .found id m halike

/-- Two outcomes of one operation: the same error, or the same value and related
states. -/
def OutcomeAlike {Value State : Type} (same : State → State → Prop)
    (left right : Except Err (Value × State)) : Prop :=
  (∃ err, left = .error err ∧ right = .error err) ∨
    ∃ value state state', left = .ok (value, state) ∧ right = .ok (value, state') ∧
      same state state'

theorem SameOutline.writeRedis (hsame : SameOutline σ τ) {Value : Type}
    {left right : Except Err (Value × Keyspace Bytes)}
    (halike : OutcomeAlike Keyspace.SameTimes left right) {value value' : Except Err Value}
    (hleft : some (σ.writeRedis left) = some (value, σ'))
    (hright : some (τ.writeRedis right) = some (value', τ')) : value = value' ∧ SameOutline σ' τ' := by
  rcases halike with ⟨err, rfl, rfl⟩ | ⟨value, keys, keys', rfl, rfl, hkeys⟩
  · cases hleft
    cases hright
    exact ⟨rfl, hsame⟩
  · cases hleft
    cases hright
    exact ⟨rfl, { hsame with redis := hkeys }⟩

theorem SameOutline.writePastes (hsame : SameOutline σ τ) {Value : Type}
    {left right : Except Err (Value × Pastes)}
    (halike : OutcomeAlike (Table.SameView outline) left right) {value value' : Except Err Value}
    (hleft : some (σ.writePastes left) = some (value, σ'))
    (hright : some (τ.writePastes right) = some (value', τ')) : value = value' ∧ SameOutline σ' τ' := by
  rcases halike with ⟨err, rfl, rfl⟩ | ⟨value, pastes, pastes', rfl, rfl, hpastes⟩
  · cases hleft
    cases hright
    exact ⟨rfl, hsame⟩
  · cases hleft
    cases hright
    exact ⟨rfl, { hsame with pastes := hpastes }⟩

section

variable {keys keys' : Keyspace Bytes} {pastes pastes' : Pastes}

theorem put_alike (hkeys : Keyspace.SameTimes keys keys') (now : ℤ) (id : UUID)
    (sealed sealed' : EncryptedBody) (ttl : ℤ) :
    OutcomeAlike Keyspace.SameTimes ((Bodies.put keys now id sealed ttl).map ((), ·))
      ((Bodies.put keys' now id sealed' ttl).map ((), ·)) := by
  unfold Bodies.put
  cases Bodies.expiringTTL ttl with
  | error err => exact .inl ⟨err, rfl, rfl⟩
  | ok expiration => exact .inr ⟨(), _, _, rfl, rfl, hkeys.set _ rfl⟩

theorem mark_alike (hkeys : Keyspace.SameTimes keys keys') (now : ℤ) (id : UUID) (ttl : ℤ) :
    OutcomeAlike Keyspace.SameTimes (Bodies.markUnavailableOnce keys now id ttl)
      (Bodies.markUnavailableOnce keys' now id ttl) := by
  unfold Bodies.markUnavailableOnce
  cases Bodies.expiringTTL ttl with
  | error err => exact .inl ⟨err, rfl, rfl⟩
  | ok expiration =>
      rcases hkeys.find now (Bodies.unavailableKey id) with
        ⟨hfind, hfind'⟩ | ⟨entry, entry', hfind, hfind'⟩
      · simp only [hfind, hfind']
        exact .inr ⟨true, _, _, rfl, rfl, hkeys.set _ rfl⟩
      · simp only [hfind, hfind']
        exact .inr ⟨false, _, _, rfl, rfl, hkeys⟩

theorem create_alike (hpastes : Table.SameView outline pastes pastes') (m : PasteMeta)
    {hash : Bytes} (hfits : fitsText m.contentHash = fitsText hash) :
    OutcomeAlike (Table.SameView outline) ((Pastes.create pastes m).map ((), ·))
      ((Pastes.create pastes' { m with contentHash := hash }).map ((), ·)) := by
  unfold Pastes.create
  dsimp only
  rw [← hfits]
  split
  · exact .inl ⟨_, rfl, rfl⟩
  · split
    · exact .inl ⟨_, rfl, rfl⟩
    · split
      · exact .inl ⟨_, rfl, rfl⟩
      · have hrow : outline (storedRow m) = outline (storedRow { m with contentHash := hash }) := rfl
        rcases hpastes.insert (fun _ => rfl) hrow with
          ⟨hnone, hnone'⟩ | ⟨next, next', hsome, hsome', hnext⟩
        · rw [hnone, hnone']
          exact .inl ⟨_, rfl, rfl⟩
        · rw [hsome, hsome']
          exact .inr ⟨(), _, _, rfl, rfl, hnext⟩

theorem views_alike (hpastes : Table.SameView outline pastes pastes') (id : UUID) :
    OutcomeAlike (Table.SameView outline) ((Pastes.incrementViews pastes id).map ((), ·))
      ((Pastes.incrementViews pastes' id).map ((), ·)) := by
  unfold Pastes.incrementViews
  rw [hpastes.count fun _ => rfl]
  split
  · exact .inl ⟨_, rfl, rfl⟩
  · exact .inr ⟨(), _, _, rfl, rfl, hpastes.update _ (fun _ => rfl) fun _ => rfl⟩

theorem markDeleted_alike (hpastes : Table.SameView outline pastes pastes') (id byUser : UUID)
    (time : ℤ) : Table.SameView outline (pastes.markDeleted id byUser time)
      (pastes'.markDeleted id byUser time) := by
  unfold Pastes.markDeleted
  exact hpastes.update _ (fun _ => rfl) fun _ => rfl

end

/-- What the stores answer themselves. -/
theorem answer_alike (hsame : SameOutline σ τ) (hcall : CallAlike request request')
    (hdecode : ∀ id, request = .bodiesGet id → Decodable σ id ∧ Decodable τ id)
    (hmatch : ∀ id id' m m', (⟨request, reply⟩ : Step) = ⟨.metasGet id, .ok m⟩ →
      (⟨request', reply'⟩ : Step) = ⟨.metasGet id', .ok m'⟩ →
        MatchAlike op op' m.contentHash m'.contentHash)
    (hanswer : answer σ request = some (reply, σ'))
    (hanswer' : answer τ request' = some (reply', τ')) :
    SameOutline σ' τ' ∧ StepAlike op op' ⟨request, reply⟩ ⟨request', reply'⟩ := by
  cases hcall with
  | plain hplain =>
      cases request with
      | now =>
          cases hanswer
          cases hanswer'
          rw [← hsame.clock]
          exact ⟨hsame, .plain hplain _⟩
      | newUUID => cases hanswer
      | bodiesDelete id =>
          cases hanswer
          cases hanswer'
          exact ⟨{ hsame with redis := hsame.redis.del _ }, .plain hplain _⟩
      | bodiesMarkUnavailableOnce id ttl =>
          change some (τ.writeRedis (Bodies.markUnavailableOnce _ τ.clock id ttl)) = _ at hanswer'
          rw [← hsame.clock] at hanswer'
          obtain ⟨rfl, hnext⟩ := hsame.writeRedis (mark_alike hsame.redis _ id ttl) hanswer hanswer'
          exact ⟨hnext, .plain hplain _⟩
      | metasIncrementViews id =>
          obtain ⟨rfl, hnext⟩ := hsame.writePastes (views_alike hsame.pastes id) hanswer hanswer'
          exact ⟨hnext, .plain hplain _⟩
      | metasMarkDeleted id byUser time =>
          cases hanswer
          cases hanswer'
          exact ⟨{ hsame with pastes := markDeleted_alike hsame.pastes id byUser time },
            .plain hplain _⟩
      | auditRecord event =>
          cases hanswer
          cases hanswer'
          exact ⟨{ hsame with audit := congrArg (· ++ _) hsame.audit }, .plain hplain _⟩
      | _ => cases hplain
  | envelopeSeal | envelopeOpen => cases hanswer
  | bodiesPut id sealed sealed' ttl =>
      change some (τ.writeRedis ((Bodies.put _ τ.clock id sealed' ttl).map _)) = _ at hanswer'
      rw [← hsame.clock] at hanswer'
      obtain ⟨rfl, hnext⟩ :=
        hsame.writeRedis (put_alike hsame.redis _ id sealed sealed' ttl) hanswer hanswer'
      exact ⟨hnext, .put id sealed sealed' ttl _⟩
  | bodiesGet id =>
      cases hanswer
      cases hanswer'
      exact ⟨hsame, hsame.bodiesGet (hdecode id rfl).1 (hdecode id rfl).2⟩
  | metasCreate m hfits =>
      obtain ⟨rfl, hnext⟩ := hsame.writePastes (create_alike hsame.pastes m hfits) hanswer hanswer'
      exact ⟨hnext, .inserted _ _ _⟩
  | metasGet id =>
      cases hanswer
      cases hanswer'
      refine ⟨hsame, hsame.metasGet fun m m' hget hget' => hmatch id id m m' ?_ ?_⟩
      · rw [hget]
      · rw [hget']

/-- A failing call fails alike. -/
theorem failure_alike {text : String} (hcall : CallAlike request request')
    (hfailure : failure text request = some reply)
    (hfailure' : failure text request' = some reply') :
    StepAlike op op' ⟨request, reply⟩ ⟨request', reply'⟩ := by
  cases hcall with
  | plain hplain =>
      obtain rfl := Option.some.inj (hfailure.symm.trans hfailure')
      exact .plain hplain _
  | envelopeSeal id expiresAt plain plain' hpassword =>
      cases hfailure
      cases hfailure'
      exact .unsealed ..
  | envelopeOpen => cases hfailure
  | bodiesPut id sealed sealed' ttl =>
      cases hfailure
      cases hfailure'
      exact .put ..
  | bodiesGet id =>
      cases hfailure
      cases hfailure'
      exact .noBody ..
  | metasCreate m hfits =>
      cases hfailure
      cases hfailure'
      exact .inserted ..
  | metasGet id =>
      cases hfailure
      cases hfailure'
      exact .notFound ..

/-- Whether sealing succeeds, and under which key, depends on the gate and on
whether there is a password. -/
theorem sealBody_alike (P : Primitives) (E : Envelope) (gate : GateOutcome) (draws draws' : Draws)
    (id : UUID) (expiresAt : ℤ) (plain plain' : Bytes) {password password' : Bytes}
    (hpassword : password = [] ↔ password' = []) :
    StepAlike op op'
      ⟨.envelopeSeal id expiresAt plain password,
        E.sealBody P gate draws id expiresAt plain password⟩
      ⟨.envelopeSeal id expiresAt plain' password',
        E.sealBody P gate draws' id expiresAt plain' password'⟩ := by
  by_cases hempty : password = []
  · obtain rfl := hempty
    obtain rfl := hpassword.mp rfl
    obtain ⟨key, -, hseal⟩ := E.sealBody_kek P gate draws id expiresAt plain
    obtain ⟨key', -, hseal'⟩ := E.sealBody_kek P gate draws' id expiresAt plain'
    rw [hseal, hseal']
    exact .sealed _ _ _ _ _ _ rfl
  · have hempty' : password' ≠ [] := fun heq => hempty (hpassword.mpr heq)
    cases hgate : acquire gate with
    | error err =>
        simp only [Envelope.sealBody, Envelope.newGCM_of_length _ draws.length_dek,
          Envelope.newGCM_of_length _ draws'.length_dek, Envelope.wrapping, hempty, hempty',
          if_false, deriveKey, hgate, bind, Except.bind]
        exact .unsealed ..
    | ok =>
        obtain rfl : gate = .granted := by
          cases gate
          · rfl
          all_goals cases hgate
        rw [Envelope.sealBody_password hempty, Envelope.sealBody_password hempty']
        exact .sealed _ _ _ _ _ _ rfl

/-- Alike calls and choices have alike outcomes, if unlock attempts and
verifications have. -/
theorem exec_alike (P : Primitives) {choice choice' : Choice} (hsame : SameOutline σ τ)
    (hcall : CallAlike request request') (hchoice : ChoiceAlike choice choice')
    (hdecode : ∀ id, request = .bodiesGet id → Decodable σ id ∧ Decodable τ id)
    (hmatch : ∀ id id' m m', (⟨request, reply⟩ : Step) = ⟨.metasGet id, .ok m⟩ →
      (⟨request', reply'⟩ : Step) = ⟨.metasGet id', .ok m'⟩ →
        MatchAlike op op' m.contentHash m'.contentHash)
    (hopen : ∀ id id' expiresAt expiresAt' sealed sealed' password password' opened opened',
      (⟨request, reply⟩ : Step) = ⟨.envelopeOpen id expiresAt sealed password, opened⟩ →
      (⟨request', reply'⟩ : Step) = ⟨.envelopeOpen id' expiresAt' sealed' password', opened'⟩ →
        isCorrect opened = isCorrect opened' ∧ isWrong opened = isWrong opened')
    (hexec : exec P σ request choice = some (reply, σ'))
    (hexec' : exec P τ request' choice' = some (reply', τ')) :
    SameOutline σ' τ' ∧ StepAlike op op' ⟨request, reply⟩ ⟨request', reply'⟩ := by
  cases hchoice with
  | ok => exact answer_alike hsame hcall hdecode hmatch hexec hexec'
  | fail text =>
      obtain ⟨failed, hfailure, heq⟩ := Option.map_eq_some_iff.mp hexec
      obtain ⟨failed', hfailure', heq'⟩ := Option.map_eq_some_iff.mp hexec'
      cases heq
      cases heq'
      exact ⟨hsame, failure_alike hcall hfailure hfailure'⟩
  | uuid id =>
      cases hcall with
      | plain hplain =>
          cases request with
          | newUUID =>
              simp only [exec, ← hsame.drawn] at hexec hexec'
              split at hexec
              · cases hexec
              · rename_i hfresh
                rw [if_neg hfresh] at hexec'
                cases hexec
                cases hexec'
                exact ⟨{ hsame with drawn := rfl }, .plain hplain _⟩
          | _ => cases hexec
      | _ => cases hexec
  | sealing gate draws draws' =>
      cases hcall with
      | envelopeSeal id expiresAt plain plain' hpassword =>
          simp only [exec, ← hsame.envelope, Option.some.injEq, Prod.mk.injEq] at hexec hexec'
          obtain ⟨rfl, rfl⟩ := hexec
          obtain ⟨rfl, rfl⟩ := hexec'
          exact ⟨hsame, sealBody_alike P _ gate draws draws' id expiresAt plain plain' hpassword⟩
      | plain hplain =>
          cases request with
          | envelopeSeal => cases hplain
          | _ => cases hexec
      | _ => cases hexec
  | opening gate =>
      cases hcall with
      | envelopeOpen id expiresAt sealed sealed' password password' =>
          obtain ⟨hcorrect, hwrong⟩ := hopen _ _ _ _ _ _ _ _ _ _ rfl rfl
          cases hexec
          cases hexec'
          exact ⟨hsame, .opened id expiresAt sealed sealed' password password' hcorrect hwrong⟩
      | plain hplain =>
          cases request with
          | envelopeOpen => cases hplain
          | _ => cases hexec
      | _ => cases hexec

/-- Alike calls and choices are enabled alike. -/
theorem exec_isSome_iff (P : Primitives) {choice choice' : Choice} (hsame : SameOutline σ τ)
    (hcall : CallAlike request request') (hchoice : ChoiceAlike choice choice') :
    (exec P σ request choice).isSome ↔ (exec P τ request' choice').isSome := by
  cases hchoice with
  | ok =>
      cases hcall with
      | plain hplain => cases request <;> exact Iff.rfl
      | _ => exact Iff.rfl
  | fail text =>
      cases hcall with
      | plain hplain => cases request <;> exact Iff.rfl
      | _ => exact Iff.rfl
  | uuid id =>
      cases hcall with
      | plain hplain =>
          cases request with
          | newUUID =>
              simp only [exec, ← hsame.drawn]
              split <;> exact Iff.rfl
          | _ => exact Iff.rfl
      | _ => exact Iff.rfl
  | sealing gate draws draws' =>
      cases hcall with
      | plain hplain => cases request <;> exact Iff.rfl
      | _ => exact Iff.rfl
  | opening gate =>
      cases hcall with
      | plain hplain => cases request <;> exact Iff.rfl
      | _ => exact Iff.rfl

end Stores

/-! ## Two runs -/

def trailLink : Link Store Op Call Call.Reply Choice Env where
  store := SameOutline
  op := OpAlike
  call := CallAlike
  entry := StepAlike
  choice := ChoiceAlike
  env := Eq

/-- Corresponding unlock attempts are correct or wrong alike, and corresponding
verifications match or fail alike; the calls of the two runs correspond by their
place in the log. -/
structure AttemptsAlike (s t : Config) : Prop where
  unlocks : ∀ (k : ℕ) i j id id' expiresAt expiresAt' sealed sealed' password password' opened
    opened', s.log[k]? = some (i, ⟨.envelopeOpen id expiresAt sealed password, opened⟩) →
    t.log[k]? = some (j, ⟨.envelopeOpen id' expiresAt' sealed' password', opened'⟩) →
      isCorrect opened = isCorrect opened' ∧ isWrong opened = isWrong opened'
  verifications : ∀ (k : ℕ) i j id id' found found' sha256hex sha256hex' (m m' : PasteMeta),
    s.log[k]? = some (i, ⟨.metasGet found, .ok m⟩) →
    t.log[k]? = some (j, ⟨.metasGet found', .ok m'⟩) →
    s.ops[i]? = some (.verify id sha256hex) → t.ops[j]? = some (.verify id' sha256hex') →
      equalFoldHex (trimSpace sha256hex) m.contentHash =
        equalFoldHex (trimSpace sha256hex') m'.contentHash

section Runs

variable {sys : Params} {clock : ℤ} {E : Envelope} {s t : Config}
  {allowed : Config → Action → Prop}

/-- A body a `Read` asks for was sealed for a listed paste, so it can be
decoded. -/
theorem decodable_of_pending {i : ℕ} {id : UUID}
    (hrun : (machine sys).Run allowed (.initial (.empty clock E)) s)
    (hpending : s.pending? i = some (.bodiesGet id)) :
    Decodable s.store id := by
  intro entry hentry
  have hwf := hrun.wellFormed .initial
  have hprov := provenance_of_run hrun
  obtain ⟨op, -, hreach⟩ := hwf.reaches_pending hpending
  obtain ⟨p, password, m, now, -, -, htrace⟩ := call_bodiesGet hreach
  have hdid : s.Did i (.metasGet id) (.ok m) := by
    rw [Config.did_iff_mem_trace, htrace]
    exact List.mem_cons_self
  obtain ⟨j, c, hlisted, rfl, -⟩ := hprov.row_got i id m hdid
  obtain ⟨k, c', hstored, hid, hvalue⟩ := hprov.body c.id entry hentry
  obtain ⟨-, rfl⟩ := hprov.creation_unique hlisted.toStored hstored hid.symm
  obtain ⟨E', gate, draws, hseal, -⟩ := sealed_of_run (fun _ _ => True) (fun _ => trivial)
    (fun _ _ _ _ _ => trivial) (fun _ _ _ => trivial) hrun hlisted.toStored.sealed
  rw [hvalue, hlisted.unmarshal_marshal hprov hseal]
  rfl

theorem couples_trail (sys : Params) (clock : ℤ) (E : Envelope) :
    (machine sys).Couples trailLink AttemptsAlike (.initial (.empty clock E))
      (.initial (.empty clock E)) where
  program op op' halike := program_lockstep sys halike
  env σ τ change change' σ' τ' hsame hchange hσ hτ := by
    obtain rfl := hchange
    cases change with
    | tick time =>
        cases hσ
        cases hτ
        exact { hsame with clock := rfl }
    | restart envelope =>
        cases hσ
        cases hτ
        exact { hsame with envelope := rfl }
  exec s t hruns hmatched i op op' request request' hop hop' hops hpending hpending' hcall choice
      choice' hchoice reply reply' σ τ hexec hexec' proc proc' hattempts := by
    have hlast : (s.answer i proc ⟨request, reply⟩ σ).log[s.log.length]? =
        some (i, ⟨request, reply⟩) := by simp
    have hlast' : (t.answer i proc' ⟨request', reply'⟩ τ).log[s.log.length]? =
        some (i, ⟨request', reply'⟩) := by simp [hmatched.log.length_eq]
    refine exec_alike sys.prims hmatched.store hcall hchoice ?_ ?_ ?_ hexec hexec'
    · rintro id rfl
      have hsame : request' = .bodiesGet id := by
        cases hcall <;> rfl
      exact ⟨decodable_of_pending hruns.left hpending,
        decodable_of_pending hruns.right (hsame ▸ hpending')⟩
    · intro found found' m m' hstep hstep' id id' sha256hex sha256hex' hverify hverify'
      exact hattempts.verifications _ i i id id' found found' sha256hex sha256hex' m m'
        (hlast.trans (by rw [hstep])) (hlast'.trans (by rw [hstep'])) (hverify ▸ hop)
        (hverify' ▸ hop')
    · intro id id' expiresAt expiresAt' sealed sealed' password password' opened opened' hstep hstep'
      exact hattempts.unlocks _ i i id id' expiresAt expiresAt' sealed sealed' password password'
        opened opened' (hlast.trans (by rw [hstep])) (hlast'.trans (by rw [hstep']))

theorem AttemptsAlike.back (s t s' t' : Config) (hextends : s.Extends s') (hextends' : t.Extends t')
    (halike : AttemptsAlike s' t') : AttemptsAlike s t where
  unlocks k i j id id' expiresAt expiresAt' sealed sealed' password password' opened opened' hleft
      hright :=
    halike.unlocks k i j id id' expiresAt expiresAt' sealed sealed' password password' opened
      opened' (hextends.entry hleft) (hextends'.entry hright)
  verifications k i j id id' found found' sha256hex sha256hex' m m' hleft hright hop hop' :=
    halike.verifications k i j id id' found found' sha256hex sha256hex' m m'
      (hextends.entry hleft) (hextends'.entry hright)
      (hextends.op hop) (hextends'.op hop')

/-- Two runs of the same service calls hand the same events to the audit sink,
and store the same ones; and neither can go on where the other cannot. -/
theorem audit_trail_independent (sys : Params) (clock : ℤ) (E : Envelope) {s t : Config}
    (hruns : (machine sys).DoubleRun trailLink (fun _ _ => True)
      (.initial (.empty clock E)) (.initial (.empty clock E)) s t)
    (halike : AttemptsAlike s t) :
    events s = events t ∧ s.store.audit = t.store.audit ∧
      ∀ action action', trailLink.Paired action action' →
        (((machine sys).act s action).isSome ↔ ((machine sys).act t action').isSome) := by
  have hstart : SameOutline (Store.empty clock E) (Store.empty clock E) :=
    ⟨rfl, rfl, rfl, fun _ => rfl, rfl, rfl⟩
  have hmatched := (hruns.strengthen AttemptsAlike.back halike).matched (couples_trail sys clock E)
    .initial .initial (Machine.matched_initial hstart)
  refine ⟨?_, hmatched.store.audit, fun action action' hpaired => ?_⟩
  · have hlog := hmatched.log
    unfold events
    generalize s.log = log, t.log = log' at hlog ⊢
    induction hlog with
    | nil => rfl
    | cons hentry _ ih =>
        obtain ⟨-, op, op', -, halike⟩ := hentry
        rw [List.filterMap_cons, List.filterMap_cons, halike.eventOf_eq, ih]
  · apply Machine.enabled_of_matched hmatched (hruns.left.wellFormed .initial)
    · intro σ τ request request' choice choice' hsame hcall hchoice
      exact exec_isSome_iff sys.prims hsame hcall hchoice
    · rintro σ τ change _ rfl
      cases change <;> exact Iff.rfl
    · exact hpaired

end Runs

/-! ## Sample runs -/

namespace Sample

/-- A checked form of `AttemptsAlike`. -/
def attemptsAlike (s t : Config) : Bool :=
  (s.log.zip t.log).all fun pair =>
    match pair.1, pair.2 with
    | (_, ⟨.envelopeOpen .., opened⟩), (_, ⟨.envelopeOpen .., opened'⟩) =>
        isCorrect opened = isCorrect opened' && isWrong opened = isWrong opened'
    | (i, ⟨.metasGet _, .ok m⟩), (j, ⟨.metasGet _, .ok m'⟩) =>
        match s.ops[i]?, t.ops[j]? with
        | some (.verify _ sha256hex), some (.verify _ sha256hex') =>
            equalFoldHex (trimSpace sha256hex) m.contentHash =
              equalFoldHex (trimSpace sha256hex') m'.contentHash
        | _, _ => true
    | _, _ => true

theorem attemptsAlike_sound {s t : Config} (hcheck : attemptsAlike s t = true) :
    AttemptsAlike s t := by
  have hpair : ∀ (k : ℕ) entry entry', s.log[k]? = some entry → t.log[k]? = some entry' →
      (entry, entry') ∈ s.log.zip t.log := by
    intro k entry entry' hentry hentry'
    apply List.mem_of_getElem? (i := k)
    rw [List.getElem?_zip_eq_some]
    exact ⟨hentry, hentry'⟩
  rw [attemptsAlike, List.all_eq_true] at hcheck
  constructor
  · intro k i j id id' expiresAt expiresAt' sealed sealed' password password' opened opened' hleft
      hright
    have halike := hcheck _ (hpair k _ _ hleft hright)
    simpa using halike
  · intro k i j id id' found found' sha256hex sha256hex' m m' hleft hright hop hop'
    have halike := hcheck _ (hpair k _ _ hleft hright)
    simpa [hop, hop'] using halike

/-- A `Create` of the given text. -/
def creatingText (content : Bytes) : List Action :=
  [.invoke (.create owner ⟨content, [], 60⟩)] ++ calls 0 1 ++
    [.advance 0 (.uuid id), .advance 0 (.sealing .granted Crypto.Sample.draws)] ++ calls 0 5

/-- A `Create` of the given text, then a `Verify` that gives the text away. -/
def creatingVerifying (content : Bytes) : List Action :=
  creatingText content ++ [.invoke (.verify id content)] ++ calls 1 4

theorem paired_creatingText {L : Link Store Op Call Call.Reply Choice Env} {content content' : Bytes}
    (hchoice : L.choice = ChoiceAlike)
    (hop : L.op (.create owner ⟨content, [], 60⟩) (.create owner ⟨content', [], 60⟩)) :
    List.Forall₂ L.Paired (creatingText content) (creatingText content') := by
  obtain ⟨store, op, call, entry, choice, env⟩ := L
  obtain rfl : choice = ChoiceAlike := hchoice
  exact .cons (.invoke hop) (.cons (.advance 0 .ok) (.cons (.advance 0 (.uuid _))
    (.cons (.advance 0 (.sealing _ _ _)) (.cons (.advance 0 .ok) (.cons (.advance 0 .ok)
      (.cons (.advance 0 .ok) (.cons (.advance 0 .ok) (.cons (.advance 0 .ok) .nil))))))))

/-- The corresponding calls are the same but for contents of one length and for
passwords, as they come. -/
inductive SameCall : Op → Op → Prop
  | create (p : Principal) {input input' : CreateInput}
      (httl : input.ttlSeconds = input'.ttlSeconds)
      (hlength : input.content.length = input'.content.length) :
      SameCall (.create p input) (.create p input')
  | read (p : Option Principal) (id : UUID) (password password' : Bytes) :
      SameCall (.read p id password) (.read p id password')
  | verify (id : UUID) (sha256hex sha256hex' : Bytes) :
      SameCall (.verify id sha256hex) (.verify id sha256hex')
  | delete (p : Principal) (id : UUID) : SameCall (.delete p id) (.delete p id)

end Sample

theorem audit_trail_independent_sample :
    ∃ s t, (machine Sample.params).DoubleRun trailLink (fun _ _ => True) Sample.start Sample.start
      s t ∧ AttemptsAlike s t ∧ (events s).length = 2 ∧ events s = events t := by
  have hperform : ((machine Sample.params).perform (fun _ _ => true) Sample.start
      (Sample.creatingVerifying (ascii "hi"))).any (fun s =>
      ((machine Sample.params).perform (fun _ _ => true) Sample.start
        (Sample.creatingVerifying (ascii "ho"))).any fun t =>
          Sample.attemptsAlike s t && decide ((events s).length = 2)) = true := by decide +kernel
  simp only [Option.any_eq_true, Bool.and_eq_true, decide_eq_true_eq] at hperform
  obtain ⟨s, hleft, t, hright, hattempts, hlength⟩ := hperform
  have hshape : SameShape ⟨ascii "hi", [], 60⟩ ⟨ascii "ho", [], 60⟩ :=
    ⟨rfl, by decide, by decide, by decide, Iff.rfl, Iff.rfl⟩
  have hcreate : trailLink.op (.create Sample.owner ⟨ascii "hi", [], 60⟩)
      (.create Sample.owner ⟨ascii "ho", [], 60⟩) := OpAlike.create _ hshape
  have hverify : ∀ digest digest', List.Forall₂ trailLink.Paired
      ([.invoke (.verify Sample.id digest)] ++ Sample.calls 1 4)
      ([.invoke (.verify Sample.id digest')] ++ Sample.calls 1 4) := fun _ _ =>
    .cons (.invoke (OpAlike.verify _ _ _)) (.cons (.advance 1 .ok) (.cons (.advance 1 .ok)
      (.cons (.advance 1 .ok) (.cons (.advance 1 .ok) .nil))))
  have hpaired : List.Forall₂ trailLink.Paired (Sample.creatingVerifying (ascii "hi"))
      (Sample.creatingVerifying (ascii "ho")) := by
    rw [Sample.creatingVerifying, Sample.creatingVerifying, List.append_assoc, List.append_assoc]
    exact List.rel_append (Sample.paired_creatingText rfl hcreate) (hverify _ _)
  have hruns := Machine.DoubleRun.of_perform .refl hpaired hleft hright
  have halike := Sample.attemptsAlike_sound hattempts
  exact ⟨s, t, hruns, halike, hlength,
    (audit_trail_independent Sample.params 0 _ hruns halike).1⟩

/-- Five bytes with a byte order mark and five without: the recorded sizes
differ. -/
theorem audit_size_differs :
    ∃ s t, (machine Sample.params).DoubleRun { trailLink with op := Sample.SameCall }
      (fun _ _ => True) Sample.start Sample.start s t ∧ AttemptsAlike s t ∧
        events s ≠ events t := by
  have hperform : ((machine Sample.params).perform (fun _ _ => true) Sample.start
      (Sample.creatingText (BOM ++ ascii "hi"))).any (fun s =>
      ((machine Sample.params).perform (fun _ _ => true) Sample.start
        (Sample.creatingText (ascii "hello"))).any fun t =>
          Sample.attemptsAlike s t && decide (events s ≠ events t)) = true := by decide +kernel
  simp only [Option.any_eq_true, Bool.and_eq_true, decide_eq_true_eq] at hperform
  obtain ⟨s, hleft, t, hright, halike, hdiffer⟩ := hperform
  have hcreate : Sample.SameCall (.create Sample.owner ⟨BOM ++ ascii "hi", [], 60⟩)
      (.create Sample.owner ⟨ascii "hello", [], 60⟩) := .create _ rfl (by decide)
  have hpaired := Sample.paired_creatingText
    (L := { trailLink with op := Sample.SameCall }) rfl hcreate
  exact ⟨s, t, Machine.DoubleRun.of_perform .refl hpaired hleft hright,
    Sample.attemptsAlike_sound halike, hdiffer⟩

end SecurePastebin.System
