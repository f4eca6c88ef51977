import SecurePastebin.Cli.User
import SecurePastebin.Session.Machine
import SecurePastebin.System.Effects
import SecurePastebin.Web.Router

/-!
# The application

Any number of HTTP requests, user commands and sweeper passes run interleaved,
one port call at a time, against one Postgres and one Redis.  Each call is
executed by the model of the store it belongs to, on that store's part of the
state; time passes between the steps, never backwards, and the process may be
restarted with another keyring.
-/

namespace SecurePastebin.Web

open Text Uuid Process Interleaving
open Crypto SecurePastebin.Store

/-! ## State -/

structure Store where
  /-- Clock, keyring, `pastes` table and paste bodies. -/
  system : System.Store
  sessions : Keyspace Session.Record
  users : Users
  states : Keyspace Bytes
  buckets : Ratelimit.Buckets

namespace Store

variable (store : Store)

def clock : ℤ := store.system.clock

def sessionStore : Session.Store := ⟨store.clock, store.sessions⟩

def authStore : Auth.Store := ⟨store.clock, store.clock, store.users, store.states⟩

end Store

/-- How a call turns out. -/
inductive Choice where
  | paste (choice : System.Choice)
  | session (choice : Session.Choice)
  | auth (choice : Auth.Choice)
  | limit (choice : Ratelimit.Choice)
  | issued (outcome : Except ChallengeErr Issued)
  | verified (outcome : Except ChallengeErr Bytes)
  | consumed (outcome : Except ChallengeErr Unit)
  | ready (outcome : Option Bytes)

def exec (P : Primitives) (store : Store) (request : Call) (choice : Choice) :
    Option (request.Reply × Store) :=
  match choice, request with
  | .paste choice, .paste request =>
      (System.exec P store.system request choice).map fun outcome =>
        (outcome.1, { store with system := outcome.2 })
  | .session choice, .session request =>
      (Session.exec store.sessionStore request choice).map fun outcome =>
        (outcome.1, { store with sessions := outcome.2.keys })
  | .auth choice, .auth request =>
      (Auth.exec store.authStore request choice).map fun outcome =>
        (outcome.1, { store with users := outcome.2.users, states := outcome.2.states })
  | .limit choice, .limit request =>
      (Ratelimit.exec store.buckets store.clock request choice).map fun outcome =>
        (outcome.1, { store with buckets := outcome.2 })
  | .issued outcome, .challengeIssue _ => some (outcome, store)
  | .verified outcome, .challengeVerify .. => some (outcome, store)
  | .consumed outcome, .challengeConsume .. => some (outcome, store)
  | .ready outcome, .ready _ => some (outcome, store)
  | _, _ => none

/-! ## The machine -/

inductive Op where
  | request (r : Request)
  | command (command : Cli.Command)
  | sweep

inductive Result where
  | response (response : Response)
  | command (outcome : Except Auth.Err Bytes)
  | sweep (outcome : Sweeper.Stats × Option Paste.Err)

/-- What happens outside the modelled programs. -/
inductive Env where
  | elapse (time : ℕ)
  | restart (envelope : Envelope)

structure Params where
  server : Server
  prims : Primitives
  sweeper : Sweeper.Config

def program (app : Params) : Op → Port Result
  | .request r => .response <$> serve app.server r
  | .command command => .command <$> Port.ofAuth (Cli.runUser command)
  | .sweep => .sweep <$> Port.ofPaste (Sweeper.runOnce app.sweeper)

def Store.elapse (store : Store) (time : ℕ) : Store :=
  { store with system := { store.system with clock := store.clock + time } }

def machine (app : Params) : Machine Store Op Call Call.Reply Choice Env Result where
  program := program app
  exec := exec app.prims
  env store
    | .elapse time => some (store.elapse time)
    | .restart envelope => some { store with system := { store.system with envelope } }

abbrev Config := Interleaving.Config Store Op Call Call.Reply Result

abbrev Action := Interleaving.Action Op Choice Env

/-! ## What a step does to the stores -/

section

variable {P : Primitives} {store next : Store} {choice : Choice}

theorem exec_paste {request : Paste.Call} {reply : request.Reply}
    (hexec : exec P store (.paste request) choice = some (reply, next)) :
    ∃ found, choice = .paste found ∧
      System.exec P store.system request found = some (reply, next.system) ∧
      next = { store with system := next.system } := by
  cases choice <;> simp only [exec, reduceCtorEq] at hexec
  obtain ⟨⟨answer, system⟩, hanswer, heq⟩ := Option.map_eq_some_iff.mp hexec
  cases heq
  exact ⟨_, rfl, hanswer, rfl⟩

theorem exec_session {request : Session.Call} {reply : request.Reply}
    (hexec : exec P store (.session request) choice = some (reply, next)) :
    ∃ found, choice = .session found ∧
      Session.exec store.sessionStore request found = some (reply, next.sessionStore) ∧
      next = { store with sessions := next.sessions } := by
  cases choice <;> simp only [exec, reduceCtorEq] at hexec
  obtain ⟨⟨answer, after⟩, hanswer, heq⟩ := Option.map_eq_some_iff.mp hexec
  have hclock := Session.exec_clock hanswer
  cases heq
  refine ⟨_, rfl, ?_, rfl⟩
  obtain ⟨clock, keys⟩ := after
  dsimp only at hclock
  rw [hanswer, hclock]
  rfl

theorem exec_auth {request : Auth.Call} {reply : request.Reply}
    (hexec : exec P store (.auth request) choice = some (reply, next)) :
    ∃ found, choice = .auth found ∧
      Auth.exec store.authStore request found = some (reply, next.authStore) ∧
      next = { store with users := next.users, states := next.states } := by
  cases choice <;> simp only [exec, reduceCtorEq] at hexec
  obtain ⟨⟨answer, after⟩, hanswer, heq⟩ := Option.map_eq_some_iff.mp hexec
  obtain ⟨hclock, hredis⟩ := Auth.exec_clock hanswer
  cases heq
  refine ⟨_, rfl, ?_, rfl⟩
  obtain ⟨clock, redisClock, users, states⟩ := after
  dsimp only at hclock hredis
  rw [hanswer, hclock, hredis]
  rfl

theorem exec_limit {request : Ratelimit.Call} {reply : request.Reply}
    (hexec : exec P store (.limit request) choice = some (reply, next)) :
    ∃ found, choice = .limit found ∧
      Ratelimit.exec store.buckets store.clock request found = some (reply, next.buckets) ∧
      next = { store with buckets := next.buckets } := by
  cases choice <;> simp only [exec, reduceCtorEq] at hexec
  obtain ⟨⟨answer, buckets⟩, hanswer, heq⟩ := Option.map_eq_some_iff.mp hexec
  cases heq
  exact ⟨_, rfl, hanswer, rfl⟩

variable {request : Call} {reply : request.Reply}

/-- The calls without an effect on the stores. -/
private theorem exec_interface (hexec : exec P store request choice = some (reply, next))
    (hpaste : ∀ call, request ≠ .paste call) (hsession : ∀ call, request ≠ .session call)
    (hauth : ∀ call, request ≠ .auth call) (hlimit : ∀ call, request ≠ .limit call) :
    next = store := by
  cases request with
  | paste call => exact absurd rfl (hpaste call)
  | session call => exact absurd rfl (hsession call)
  | auth call => exact absurd rfl (hauth call)
  | limit call => exact absurd rfl (hlimit call)
  | challengeIssue | challengeVerify | challengeConsume | ready =>
      cases choice <;> simp only [exec, reduceCtorEq] at hexec
      cases hexec
      rfl

/-- A call changes only the part of the state it belongs to. -/
theorem exec_frame (hexec : exec P store request choice = some (reply, next)) :
    next.clock = store.clock ∧
      ((∀ call, request ≠ .paste call) → next.system = store.system) ∧
      ((∀ call, request ≠ .session call) → next.sessions = store.sessions) ∧
      ((∀ call, request ≠ .auth call) → next.users = store.users ∧ next.states = store.states) ∧
      ((∀ call, request ≠ .limit call) → next.buckets = store.buckets) := by
  cases request with
  | paste call =>
      obtain ⟨found, -, hfound, heq⟩ := exec_paste hexec
      rw [heq]
      exact ⟨(System.exec_clock_envelope hfound).1, fun h => absurd rfl (h call), fun _ => rfl,
        fun _ => ⟨rfl, rfl⟩, fun _ => rfl⟩
  | session call =>
      obtain ⟨-, -, -, heq⟩ := exec_session hexec
      rw [heq]
      exact ⟨rfl, fun _ => rfl, fun h => absurd rfl (h call), fun _ => ⟨rfl, rfl⟩, fun _ => rfl⟩
  | auth call =>
      obtain ⟨-, -, -, heq⟩ := exec_auth hexec
      rw [heq]
      exact ⟨rfl, fun _ => rfl, fun _ => rfl, fun h => absurd rfl (h call), fun _ => rfl⟩
  | limit call =>
      obtain ⟨-, -, -, heq⟩ := exec_limit hexec
      rw [heq]
      exact ⟨rfl, fun _ => rfl, fun _ => rfl, fun _ => ⟨rfl, rfl⟩, fun h => absurd rfl (h call)⟩
  | challengeIssue | challengeVerify | challengeConsume | ready =>
      have hsame := exec_interface hexec (by simp) (by simp) (by simp) (by simp)
      rw [hsame]
      exact ⟨rfl, fun _ => rfl, fun _ => rfl, fun _ => ⟨rfl, rfl⟩, fun _ => rfl⟩

end

/-! ## Time -/

section Time

variable {app : Params} {s next : Config} {action : Action}

/-- What the environment does leaves everything but the clock and the keyring. -/
theorem env_frame {change : Env} {store after : Store}
    (henv : (machine app).env store change = some after) :
    store.clock ≤ after.clock ∧ after.sessions = store.sessions ∧ after.users = store.users ∧
      after.states = store.states ∧ after.buckets = store.buckets := by
  cases change <;> cases henv
  · exact ⟨le_add_of_nonneg_right (Int.natCast_nonneg _), rfl, rfl, rfl, rfl⟩
  · exact ⟨le_rfl, rfl, rfl, rfl, rfl⟩

theorem clock_le_of_act (hact : (machine app).act s action = some next) :
    s.store.clock ≤ next.store.clock := by
  rcases Machine.act_cases hact with ⟨change, store, -, hstore, rfl⟩ | ⟨op, -, rfl⟩ |
    ⟨i, choice, request, rest, reply, store, -, -, hexec, rfl⟩
  · exact (env_frame hstore).1
  · exact le_rfl
  · exact (exec_frame hexec).1.ge

end Time

/-! ## A small server -/

namespace Sample

open Calendar Base64

def server : Server where
  pastes := System.Sample.params.deps
  limiter := ⟨fun _ => some ⟨10, 900 * second⟩, true⟩
  localEnabled := true
  dummyPHC := []
  oidc := none
  oidcEnabled := false
  challengeTTL := none
  viewRequiresAuth := false
  sessionIdleTTL := 1800 * second
  sessionAbsoluteTTL := 12 * hour
  noticeText := []
  trusted := fun _ => false
  readyChecks := []
  static := none

def app : Params := ⟨server, System.Sample.params.prims, System.Sample.params.sweeper⟩

/-- Some instant in 2023. -/
def clock : ℤ := 1700000000000000000

def user : Auth.User where
  id := .filled 1
  username := ascii "ana"
  displayName := []
  provider := .localAccount
  oidcIssuer := []
  oidcSubject := []
  passwordHash := ascii "phc"
  isAdmin := false
  disabled := false
  lastLoginAt := none

def token (byte : UInt8) : Bytes := encode rawURLEncoding (List.replicate 32 byte)

/-- A session of the user. -/
def session : Auth.Session := ⟨token 1, user.id, clock, clock + 12 * hour, token 2⟩

/-- One user with one session. -/
def store : Store where
  system := .empty clock Crypto.Sample.envelope
  sessions key :=
    if key = Session.sessKey session.id then
      some ⟨Session.encodeRecord session, clock + 1800 * second⟩
    else none
  users := ⟨[user], List.nodup_singleton _⟩
  states _ := none
  buckets := .empty

/-- The logout of that session. -/
def logout : Request where
  method := .post
  target := ascii "/api/v1/auth/logout"
  escaped := by decide
  rawQuery := []
  cookie := some session.id
  csrfToken := session.csrfToken
  accept := []
  remoteHost := ascii "192.0.2.1"
  forwardedFor := []
  body := .malformed

/-- A request has come in. -/
def invoked (r : Request) : Config :=
  (Interleaving.Config.initial store).invoke (.request r) (program app (.request r))

theorem run_invoked (r : Request) : (machine app).Run anyStep (.initial store) (invoked r) := by
  have hact : (machine app).act (.initial store) (.invoke (.request r)) = some (invoked r) := rfl
  exact .tail .refl trivial hact

/-- A request resolves its session. -/
def resolving (i : ℕ) : List Action :=
  [.advance i (.session .ok), .advance i (.session .ok), .advance i (.auth .ok)] ++
    List.replicate 5 (.advance i (.session .ok))

/-- The response a thread has answered with. -/
def response? (s : Config) (i : ℕ) : Option Response :=
  match s.result? i with
  | some (.response response) => some response
  | _ => none

theorem returned_of_response {s : Config} {i : ℕ} {r : Request} {response : Response}
    (hop : s.ops[i]? = some (.request r)) (hresponse : response? s i = some response) :
    s.Returned i (.request r) (.response response) := by
  refine (s.returned_iff i _ _).mpr ⟨hop, ?_⟩
  unfold response? at hresponse
  split at hresponse
  · rename_i found hresult
    rw [hresult, Option.some.inj hresponse]
  · cases hresponse

def status? (s : Config) (i : ℕ) : Option ℕ := (response? s i).map Response.status

theorem returned_of_status {s : Config} {i : ℕ} {r : Request} {status : ℕ}
    (hop : s.ops[i]? = some (.request r)) (hstatus : status? s i = some status) :
    ∃ response, s.Returned i (.request r) (.response response) ∧ response.status = status := by
  obtain ⟨response, hresponse, hsame⟩ := Option.map_eq_some_iff.mp hstatus
  exact ⟨response, returned_of_response hop hresponse, hsame⟩

end Sample

end SecurePastebin.Web
