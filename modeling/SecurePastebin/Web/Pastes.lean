import SecurePastebin.Core.Component
import SecurePastebin.System.Clock
import SecurePastebin.System.Integrity
import SecurePastebin.Web.Grammar
import SecurePastebin.Web.Machine

/-!
# The paste service within the application

A handler that uses the paste service calls one of its methods, from beginning to
end, and answers with what the method returned.  A run of the application, seen
from the stores of pastes alone, is therefore a run of the paste system: what
holds in every run of that system holds of the answers to HTTP requests.
-/

namespace SecurePastebin.Web

open Text Uuid Process Interleaving
open Crypto
open Paste (statusText PasteMeta Status Principal CreateInput CreateResult ReadResult
  VerifyResult)

/-! ## What is asked of the service, and what is answered -/

def CreateBody.submission (input : CreateBody) : CreateInput :=
  ⟨input.content, input.password, input.ttlSeconds⟩

/-- The method a request may call. -/
def Asks (r : Request) : System.Op → Prop
  | .create _ input => targetOf r = .api .createPaste ∧
      ∃ body, createBody r.body = some body ∧ input = body.submission
  | .read _ id password => ∃ text, parse text = some id ∧
      ((targetOf r = .api (.getPaste text) ∨ targetOf r = .api (.rawPaste text)) ∧ password = [] ∨
        targetOf r = .api (.unlockPaste text) ∧ textBody "password" r.body = some password ∧
          password ≠ [])
  | .verify id sha256 => ∃ text, parse text = some id ∧ targetOf r = .api (.verifyPaste text) ∧
      textBody "sha256" r.body = some sha256
  | .delete _ id => ∃ text, parse text = some id ∧ targetOf r = .api (.deletePaste text)
  | .listMine _ page => targetOf r = .api .listMine ∧ page = pageFrom r
  | .listAll _ owner page => targetOf r = .api .adminList ∧ page = pageFrom r ∧
      owner = if r.query "owner" = [] then none else parse (r.query "owner")
  | .sweep => False

section Answers

variable (srv : Server)

def createAnswer : Except Paste.Err CreateResult → Response
  | .error err => fail (.paste err)
  | .ok res => writeJSON 201 (pasteJSON srv.baseURL res.info .active true none false)

def getAnswer : Except Paste.Err ReadResult → Response
  | .error err => fail (.paste err)
  | .ok res =>
      writeJSON 200 (pasteJSON srv.baseURL res.info res.status res.hashVisible res.content false)

def rawAnswer (id : UUID) : Except Paste.Err ReadResult → Response
  | .error err => fail (.paste err)
  | .ok res =>
      match statusErr res.status with
      | some err => fail (.paste err)
      | none =>
          if res.info.passwordProtected then fail (.paste .passwordRequired)
          else writeRaw id res.content

def unlockAnswer (r : Request) (id : UUID) : Except Paste.Err ReadResult → Response
  | .error err => fail (.paste err)
  | .ok res =>
      match statusErr res.status with
      | some err => fail (.paste err)
      | none =>
          if (ascii "text/plain").isPrefixOf r.accept then writeRaw id res.content
          else writeJSON 200 (pasteJSON srv.baseURL res.info res.status true res.content false)

def verifyAnswer : Except Paste.Err VerifyResult → Response
  | .error err => fail (.paste err)
  | .ok res => writeJSON 200 (jsonObject
      [("created_at", jsonTime res.info.createdAt), ("expires_at", jsonTime res.info.expiresAt),
        ("match", .bool res.isMatch), ("size_bytes", jsonInt res.info.sizeBytes),
        ("status", jsonText (statusText res.status))])

def deleteAnswer : Except Paste.Err Unit → Response
  | .error err => fail (.paste err)
  | .ok () => noContent

/-- The answer to a listing, at the instant `now`. -/
def listAnswer (now : ℤ) : Except Paste.Err (List PasteMeta) → Response
  | .error err => fail (.paste err)
  | .ok items => writeJSON 200 (listJSON srv.baseURL items now)

/-- The errors a request is refused with before it uses the service. -/
def refusals : List (ℕ × String) :=
  [(400, "bad_request"), (401, "unauthenticated"), (403, "challenge_required"),
    (403, "csrf_invalid"), (403, "forbidden"), (413, "request_too_large"), (429, "rate_limited")]

def Refusal (response : Response) : Prop :=
  ∃ status code message details retryAfter, (status, code) ∈ refusals ∧
    response = { writeError status code message details with retryAfter := retryAfter }

/-- How an endpoint answers after the method it has called. -/
def Endpoint.answers (r : Request) (done : List (System.Op × System.Result))
    (response : Response) : Endpoint → Prop
  | .createPaste => ∃ p body outcome, createBody r.body = some body ∧
      done = [(.create p body.submission, .create outcome)] ∧ response = createAnswer srv outcome
  | .getPaste text => ∃ p id outcome, parse text = some id ∧
      done = [(.read p id [], .read outcome)] ∧ response = getAnswer srv outcome
  | .rawPaste text => ∃ p id outcome, parse text = some id ∧
      done = [(.read p id [], .read outcome)] ∧ response = rawAnswer id outcome
  | .unlockPaste text => ∃ p id password outcome, parse text = some id ∧
      textBody "password" r.body = some password ∧ password ≠ [] ∧
      done = [(.read p id password, .read outcome)] ∧ response = unlockAnswer srv r id outcome
  | .verifyPaste text => ∃ id sha256 outcome, parse text = some id ∧
      textBody "sha256" r.body = some sha256 ∧
      done = [(.verify id sha256, .verify outcome)] ∧ response = verifyAnswer outcome
  | .deletePaste text => ∃ p id outcome, parse text = some id ∧
      done = [(.delete p id, .delete outcome)] ∧ response = deleteAnswer outcome
  | .listMine => ∃ p outcome now,
      done = [(.listMine p (pageFrom r), .list outcome)] ∧ response = listAnswer srv now outcome
  | .adminList => ∃ p owner outcome now,
      done = [(.listAll p owner (pageFrom r), .list outcome)] ∧
      response = listAnswer srv now outcome
  | _ => False

/-- How a request is answered after the methods it has called. -/
inductive AnsweredBy (r : Request) (done : List (System.Op × System.Result))
    (response : Response) : Prop
  | refused (hnone : done = []) (hrefused : ∀ endpoint, targetOf r = .api endpoint →
      endpoint.servesPastes → Refusal response)
  | served (endpoint : Endpoint) (htarget : targetOf r = .api endpoint)
      (hanswers : endpoint.answers srv r done response)

end Answers

/-- The methods an invocation may call. -/
def Op.asks : Op → System.Op → Prop
  | .request r, sub => Asks r sub
  | .command _, _ => False
  | .sweep, sub => sub = .sweep

/-- What an invocation returns after them. -/
def Op.answered (srv : Server) : Op → List (System.Op × System.Result) → Result → Prop
  | .request r, done, .response response => AnsweredBy srv r done response
  | .command _, done, .command _ => done = []
  | .sweep, done, .sweep outcome => done = [(.sweep, .sweep outcome)]
  | _, _, _ => False

/-- The paste system of an application. -/
def Params.pastes (app : Params) : System.Params where
  prims := app.prims
  hasAudit := app.server.pastes.hasAudit
  baseURL := app.server.pastes.baseURL
  limits := app.server.pastes.limits
  sweeper := app.sweeper

/-- The service hashes with the hash function of the application. -/
def Params.Wired (app : Params) : Prop := app.server.pastes.sha256 = app.prims.sha256

theorem Params.Wired.deps {app : Params} (hwired : app.Wired) :
    app.pastes.deps = app.server.pastes := by
  rw [System.Params.deps, Params.pastes, ← hwired]

/-! ## The handlers host the service -/

section Hosts

variable {app : Params} {r : Request} {info : Option SessionInfo}

/-- A handler, after the methods `done`. -/
abbrev Hosted (app : Params) (r : Request) (done : List (System.Op × System.Result))
    (program : Port Response) : Prop :=
  Hosts pasteCalls (System.program app.pastes) (Asks r) (AnsweredBy app.server r) done program

theorem refusal_writeError {status : ℕ} {code : String} (hcode : (status, code) ∈ refusals)
    (message : Bytes) (details : List (String × Json.Value)) :
    Refusal (writeError status code message details) :=
  ⟨status, code, message, details, none, hcode, rfl⟩

theorem refusal_csrf {refusal : Response} (hrefusal : csrf r info = some refusal) :
    Refusal refusal := by
  unfold csrf at hrefusal
  split_ifs at hrefusal
  split at hrefusal
  · cases hrefusal
  · split_ifs at hrefusal
    cases hrefusal
    exact refusal_writeError (by simp [refusals]) _ _

theorem hosted_refusal {response : Response} (hrefusal : Refusal response) :
    Hosted app r [] (.ret response) := .ret (.refused rfl fun _ _ _ => hrefusal)

theorem hosted_error {status : ℕ} {code : String} {message : Bytes}
    {details : List (String × Json.Value)} (hcode : (status, code) ∈ refusals) :
    Hosted app r [] (.ret (writeError status code message details)) :=
  hosted_refusal (refusal_writeError hcode message details)

/-- A program without calls of the service, before one that has them. -/
theorem hosted_after {Value : Type} {program : Port Value} {next : Value → Port Response}
    {calls : Call → Prop} (hcalls : program.CallsOnly calls)
    (hother : ∀ call, ¬ calls (.paste call))
    (hnext : ∀ value, Hosted app r [] (next value)) : Hosted app r [] (program >>= next) := by
  have hfirst : Hosts pasteCalls (System.program app.pastes) (Asks r)
      (fun done (_ : Value) => done = []) [] program := .of_callsOnly hcalls hother fun _ => rfl
  refine hfirst.bind fun done value hdone => ?_
  subst hdone
  exact hnext value

/-- A handler that calls one method and answers with its outcome. -/
theorem hosted_answer {Value : Type} (op : System.Op) {program : Paste.Port Value}
    {result : Value → System.Result} {next : Value → Port Response} {answer : Value → Response}
    (hprogram : System.program app.pastes op = result <$> program) (hasks : Asks r op)
    (hanswer : ∀ value, AnsweredBy app.server r [(op, result value)] (answer value))
    (hnext : ∀ value, next value = .ret (answer value)) :
    Hosted app r [] (Port.ofPaste program >>= next) := by
  refine .runs hasks hprogram fun value => ?_
  rw [hnext]
  exact .ret (hanswer value)

theorem limit_hosted {scope : Ratelimit.Scope} {key : Bytes}
    {next : Option Response → Port Response} (hnext : Hosted app r [] (next none))
    (hrefused : ∀ response, Refusal response → Hosted app r [] (next (some response))) :
    Hosted app r [] (limit app.server info scope key >>= next) := by
  have hallow : (Port.ofLimiter (Ratelimit.allow app.server.limiter scope key)).CallsOnly
      fun request => ∃ call, request = .limit call :=
    Proc.callsOnly_lift limitCalls (Proc.callsOnly_of_reaches fun _ call _ => ⟨call, rfl⟩)
  rw [limit, Proc.bind_assoc]
  refine hosted_after hallow (by simp) fun decision => ?_
  split_ifs
  · exact hnext
  · exact Hosts.call (by simp [pasteCalls]) fun _ => Hosts.call (by simp [pasteCalls]) fun _ =>
      hrefused _ ⟨429, "rate_limited", _, _, _, by simp [refusals], rfl⟩

theorem limited_hosted {checks : List (Ratelimit.Scope × Bytes)} {next : Port Response}
    (hnext : Hosted app r [] next) : Hosted app r [] (limited app.server info checks next) := by
  induction checks with
  | nil => exact hnext
  | cons check checks ih => exact limit_hosted ih fun response hrefusal => hosted_refusal hrefusal

theorem requireAuth_hosted {next : SessionInfo → Port Response}
    (hnext : ∀ si, Hosted app r [] (next si)) : Hosted app r [] (requireAuth info next) := by
  cases info with
  | none => exact hosted_error (by simp [refusals])
  | some si => exact hnext si

theorem viewGate_hosted {next : Port Response} (hnext : Hosted app r [] next) :
    Hosted app r [] (viewGate app.server info next) := by
  unfold viewGate
  split_ifs
  · exact requireAuth_hosted fun _ => hnext
  · exact hnext

variable {text : Bytes} {si : SessionInfo}

theorem withPathID_hosted {next : UUID → Port Response}
    (hnext : ∀ id, parse text = some id → Hosted app r [] (next id)) :
    Hosted app r [] (withPathID text next) := by
  unfold withPathID
  split
  · exact hosted_error (by simp [refusals])
  · rename_i id hid
    exact hnext id hid

theorem writeList_hosted {done : List (System.Op × System.Result)}
    {items : Except Paste.Err (List PasteMeta)}
    (hanswer : ∀ now, AnsweredBy app.server r done (listAnswer app.server now items)) :
    Hosted app r done (writeList app.server items) := by
  cases items with
  | error err => exact .ret (hanswer 0)
  | ok items => exact Hosts.call (by simp [pasteCalls]) fun now => .ret (hanswer now)

theorem listMine_hosted (htarget : targetOf r = .api .listMine) :
    Hosted app r [] (listMine app.server r si) := by
  have hasks : Asks r (.listMine si.user.principal (pageFrom r)) := ⟨htarget, rfl⟩
  exact .runs hasks rfl fun outcome =>
    writeList_hosted fun now => .served _ htarget ⟨_, outcome, now, rfl, rfl⟩

theorem adminList_hosted (htarget : targetOf r = .api .adminList) :
    Hosted app r [] (adminList app.server r si) := by
  unfold adminList
  dsimp only
  split
  · exact hosted_error (by simp [refusals])
  · have hasks : Asks r (.listAll si.user.principal _ (pageFrom r)) := ⟨htarget, rfl, rfl⟩
    exact .runs hasks rfl fun outcome =>
      writeList_hosted fun now => .served _ htarget ⟨_, _, outcome, now, rfl, rfl⟩

/-- A response without use of the service, where none is due. -/
theorem answered_elsewhere {response : Response}
    (htarget : ∀ endpoint, targetOf r ≠ .api endpoint) : AnsweredBy app.server r [] response :=
  .refused rfl fun endpoint hendpoint => absurd hendpoint (htarget endpoint)

section Methods

variable (hwired : app.Wired)

include hwired

theorem createFrom_hosted {body : CreateBody}
    (htarget : targetOf r = .api .createPaste) (hbody : createBody r.body = some body) :
    Hosted app r [] (createFrom app.server si body) := by
  refine hosted_answer (.create si.user.principal body.submission) (by rw [← hwired.deps]; rfl)
    ⟨htarget, body, hbody, rfl⟩
    (fun outcome => .served _ htarget ⟨_, body, outcome, hbody, rfl, rfl⟩) fun outcome => ?_
  cases outcome <;> rfl

theorem createPaste_hosted (htarget : targetOf r = .api .createPaste) :
    Hosted app r [] (createPaste app.server r info si) := by
  unfold createPaste
  split
  · exact hosted_error (by simp [refusals])
  split
  · exact hosted_error (by simp [refusals])
  rename_i body hbody
  refine limited_hosted ?_
  split_ifs
  · exact createFrom_hosted hwired htarget hbody
  · refine Hosts.call (by simp [pasteCalls]) fun consumed => ?_
    cases consumed with
    | error err =>
        exact hosted_refusal ⟨403, "challenge_required", _, [], none, by simp [refusals], rfl⟩
    | ok _ => exact createFrom_hosted hwired htarget hbody

variable {id : UUID}

theorem getPaste_hosted (htarget : targetOf r = .api (.getPaste text))
    (hid : parse text = some id) : Hosted app r [] (getPaste app.server info id) := by
  refine hosted_answer (.read (principalFrom info) id []) (by rw [← hwired.deps]; rfl)
    ⟨text, hid, .inl ⟨.inl htarget, rfl⟩⟩
    (fun outcome => .served _ htarget ⟨_, id, outcome, hid, rfl, rfl⟩) fun outcome => ?_
  cases outcome <;> rfl

theorem rawPaste_hosted (htarget : targetOf r = .api (.rawPaste text))
    (hid : parse text = some id) : Hosted app r [] (rawPaste app.server info id) := by
  refine hosted_answer (.read (principalFrom info) id []) (by rw [← hwired.deps]; rfl)
    ⟨text, hid, .inl ⟨.inr htarget, rfl⟩⟩
    (fun outcome => .served _ htarget ⟨_, id, outcome, hid, rfl, rfl⟩) fun outcome => ?_
  cases outcome with
  | error err => rfl
  | ok res =>
      unfold rawAnswer
      dsimp only
      cases statusErr res.status with
      | some err => rfl
      | none => split_ifs <;> rfl

theorem unlockPaste_hosted
    (htarget : targetOf r = .api (.unlockPaste text)) (hid : parse text = some id) :
    Hosted app r [] (unlockPaste app.server r info id) := by
  refine limited_hosted ?_
  split
  · exact hosted_error (by simp [refusals])
  rename_i password hbody
  split
  · exact hosted_error (by simp [refusals])
  rename_i hpassword
  refine hosted_answer (.read (principalFrom info) id password) (by rw [← hwired.deps]; rfl)
    ⟨text, hid, .inr ⟨htarget, hbody, hpassword⟩⟩ (fun outcome => .served _ htarget
      ⟨_, id, password, outcome, hid, hbody, hpassword, rfl, rfl⟩) fun outcome => ?_
  cases outcome with
  | error err => rfl
  | ok res =>
      unfold unlockAnswer
      dsimp only
      cases statusErr res.status with
      | some err => rfl
      | none => split_ifs <;> rfl

theorem verifyPaste_hosted
    (htarget : targetOf r = .api (.verifyPaste text)) (hid : parse text = some id) :
    Hosted app r [] (verifyPaste app.server r info id) := by
  refine limited_hosted ?_
  split
  · exact hosted_error (by simp [refusals])
  rename_i sha256 hbody
  split_ifs
  · exact hosted_error (by simp [refusals])
  refine hosted_answer (.verify id sha256) (by rw [← hwired.deps]; rfl) ⟨text, hid, htarget, hbody⟩
    (fun outcome => .served _ htarget ⟨id, sha256, outcome, hid, hbody, rfl, rfl⟩) fun outcome => ?_
  cases outcome <;> rfl

theorem deletePaste_hosted
    (htarget : targetOf r = .api (.deletePaste text)) (hid : parse text = some id) :
    Hosted app r [] (deletePaste app.server info si id) := by
  refine limited_hosted ?_
  refine hosted_answer (.delete si.user.principal id) (by rw [← hwired.deps]; rfl)
    ⟨text, hid, htarget⟩ (fun outcome => .served _ htarget ⟨_, id, outcome, hid, rfl, rfl⟩)
    fun outcome => ?_
  cases outcome <;> rfl

theorem serveEndpoint_hosted {endpoint : Endpoint} (htarget : targetOf r = .api endpoint) :
    Hosted app r [] (serveEndpoint app.server r info endpoint) := by
  have hother : ¬ endpoint.servesPastes →
      Hosted app r [] (serveEndpoint app.server r info endpoint) := by
    intro hserves
    refine .of_callsOnly (serveEndpoint_calls endpoint)
      (fun call hcall => hserves (servesPastes_of_mayCall hcall.1))
      fun response => .refused rfl fun found hfound hfoundServes => ?_
    cases htarget.symm.trans hfound
    exact absurd hfoundServes hserves
  cases endpoint with
  | createPaste => exact requireAuth_hosted fun _ => createPaste_hosted hwired htarget
  | getPaste text =>
      exact viewGate_hosted (withPathID_hosted fun id hid => getPaste_hosted hwired htarget hid)
  | deletePaste text =>
      exact requireAuth_hosted fun _ =>
        withPathID_hosted fun id hid => deletePaste_hosted hwired htarget hid
  | unlockPaste text =>
      exact viewGate_hosted (withPathID_hosted fun id hid => unlockPaste_hosted hwired htarget hid)
  | rawPaste text =>
      exact viewGate_hosted (withPathID_hosted fun id hid => rawPaste_hosted hwired htarget hid)
  | verifyPaste text =>
      exact viewGate_hosted (withPathID_hosted fun id hid => verifyPaste_hosted hwired htarget hid)
  | listMine => exact requireAuth_hosted fun _ => listMine_hosted htarget
  | adminList =>
      refine requireAuth_hosted fun si => ?_
      split_ifs
      · exact adminList_hosted htarget
      · exact hosted_error (by simp [refusals])
  | _ => exact hother id

theorem serve_hosted : Hosted app r [] (serve app.server r) := by
  refine hosted_after loadSession_calls (by simp) fun info => ?_
  split
  · rename_i refusal hrefusal
    exact hosted_refusal (refusal_csrf hrefusal)
  · unfold dispatch
    split
    · rename_i location htarget
      exact .ret (answered_elsewhere (by simp [htarget]))
    · rename_i htarget
      exact .ret (answered_elsewhere (by simp [htarget]))
    · rename_i htarget
      have hcalls : (readiness app.server.readyChecks [] true).CallsOnly
          (Endpoint.unknown.calls app.server.limiter) := readiness_calls
      exact .of_callsOnly hcalls (fun call hcall => servesPastes_of_mayCall hcall.1)
        fun response => answered_elsewhere (by simp [htarget])
    · rename_i endpoint htarget
      exact serveEndpoint_hosted hwired htarget
    · rename_i htarget
      exact .ret (answered_elsewhere (by simp [htarget]))

/-- Every program of the application uses the service by its methods. -/
theorem program_hosted (op : Op) :
    Hosts pasteCalls (System.program app.pastes) op.asks (op.answered app.server) []
      (program app op) := by
  cases op with
  | request r => exact (serve_hosted hwired).bind fun done response hanswer => .ret hanswer
  | command command =>
      have hcalls : (Port.ofAuth (Cli.runUser command)).CallsOnly
          fun request => ∃ call, request = .auth call :=
        Proc.callsOnly_lift authCalls (Proc.callsOnly_of_reaches fun _ call _ => ⟨call, rfl⟩)
      have hfirst : Hosts pasteCalls (System.program app.pastes) (Op.asks (.command command))
          (fun done _ => done = []) [] (Port.ofAuth (Cli.runUser command)) :=
        .of_callsOnly hcalls (by simp [pasteCalls]) fun _ => rfl
      exact hfirst.bind fun done outcome hdone => .ret hdone
  | sweep =>
      have hprogram : System.program app.pastes .sweep =
        System.Result.sweep <$> Sweeper.runOnce app.sweeper := rfl
      exact .runs rfl hprogram fun outcome => .ret rfl

end Methods

end Hosts

/-! ## The paste system's own run -/

/-- A restart replaces the keyring as `keeps` says. -/
def Restarts (keeps : Envelope → Envelope → Prop) (s : Config) : Action → Prop
  | .env (.restart envelope) => keeps s.store.system.envelope envelope
  | _ => True

/-- The same for the paste system, whose clock does not go back. -/
def Permitted (keeps : Envelope → Envelope → Prop) (store : System.Store) : System.Action → Prop
  | .env (.tick time) => store.clock ≤ time
  | .env (.restart envelope) => keeps store.envelope envelope
  | _ => True

/-- The paste service is a component of the application. -/
theorem composes_pastes {app : Params} (hwired : app.Wired) (keeps : Envelope → Envelope → Prop) :
    Composes (machine app) (System.machine app.pastes) pasteCalls Store.system (Restarts keeps)
      (Permitted keeps) Op.asks (Op.answered app.server) where
  program op := program_hosted hwired op
  invoke _ _ := trivial
  exec s i sub choice reply after _ hexec := by
    obtain ⟨found, -, hfound, -⟩ := exec_paste hexec
    exact ⟨found, hfound, fun _ => trivial⟩
  other store request choice reply after hother hexec := (exec_frame hexec).2.1 hother
  env s change after hallowed henv := by
    cases change with
    | elapse time =>
        cases henv
        exact .inr ⟨.tick (s.store.clock + time), rfl,
          le_add_of_nonneg_right (Int.natCast_nonneg time)⟩
    | restart envelope =>
        cases henv
        exact .inr ⟨.restart envelope, rfl, hallowed⟩

/-- The paste system of an application in some state. -/
structure Mirrors (app : Params) (keeps : Envelope → Envelope → Prop) (clock : ℤ) (E : Envelope)
    (s : Config) (t : System.Config) (owner : List ℕ) : Prop where
  wellFormed : (machine app).WellFormed s
  run : (System.machine app.pastes).Run (fun t action => Permitted keeps t.store action)
    (.initial (System.Store.empty clock E)) t
  simulates : Simulates pasteCalls (System.machine app.pastes).program Store.system Op.asks
    (Op.answered app.server) s t owner

section Mirrors

variable {app : Params} {keeps : Envelope → Envelope → Prop} {clock : ℤ} {E : Envelope}
  {store : Store} {s last : Config} {t : System.Config} {owner : List ℕ} {i : ℕ} {r : Request}
  {response : Response}

variable {action : System.Action}

theorem Permitted.clockForward
    (hpermitted : Permitted keeps t.store action) : System.ClockForward t action := by
  cases action with
  | env change =>
      cases change with
      | tick time => exact hpermitted
      | restart envelope => trivial
  | _ => trivial

theorem Permitted.keyringGrows
    (hpermitted : Permitted Envelope.KeepsKeys t.store action) : System.KeyringGrows t action := by
  cases action with
  | env change =>
      cases change with
      | tick time => trivial
      | restart envelope => exact hpermitted
  | _ => trivial

theorem Mirrors.later (hmirrors : Mirrors app keeps clock E s t owner) (hwired : app.Wired)
    (hrun : (machine app).Run (Restarts keeps) s last) :
    ∃ u owner',
      (System.machine app.pastes).Run (fun t action => Permitted keeps t.store action) t u ∧
        owner <+: owner' ∧ Mirrors app keeps clock E last u owner' := by
  have hwf := hmirrors.run.wellFormed .initial
  obtain ⟨u, owner', hlater, howners, hsim⟩ :=
    hmirrors.simulates.run (composes_pastes hwired keeps) hmirrors.wellFormed hwf hrun
  exact ⟨u, owner', hlater, howners, hrun.wellFormed hmirrors.wellFormed,
    hmirrors.run.trans hlater, hsim⟩

/-- A run of the application, from stores without pastes, is one of the paste system. -/
theorem mirrors_of_run (hwired : app.Wired) (hempty : store.system = .empty clock E)
    (hrun : (machine app).Run (Restarts keeps) (.initial store) s) :
    ∃ t owner, Mirrors app keeps clock E s t owner := by
  have hstart : Mirrors app keeps clock E (.initial store) (.initial (.empty clock E)) [] := by
    rw [← hempty]
    refine ⟨.initial, ?_, simulates_initial store⟩
    rw [hempty]
    exact .refl
  obtain ⟨t, owner, -, -, hmirrors⟩ := hstart.later hwired hrun
  exact ⟨t, owner, hmirrors⟩

/-- A request to an endpoint of the service is refused, or its answer is that to
the method it has called. -/
theorem Mirrors.answer (hmirrors : Mirrors app keeps clock E s t owner)
    (hreturned : s.Returned i (.request r) (.response response)) {endpoint : Endpoint}
    (htarget : targetOf r = .api endpoint) (hserves : endpoint.servesPastes) :
    Refusal response ∨
      ∃ done, Finished t owner i done ∧ endpoint.answers app.server r done response := by
  obtain ⟨done, hfinished, hanswer⟩ := hmirrors.simulates.returned hreturned
  cases hanswer with
  | refused hnone hrefused => exact .inl (hrefused endpoint htarget hserves)
  | served found hfound hanswers =>
      cases htarget.symm.trans hfound
      exact .inr ⟨done, hfinished, hanswers⟩

end Mirrors

end SecurePastebin.Web
