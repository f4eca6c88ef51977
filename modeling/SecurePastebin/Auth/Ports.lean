import SecurePastebin.Core.Base64
import SecurePastebin.Core.Keyspace
import SecurePastebin.Core.Process
import SecurePastebin.Store.Users

/-!
# The ports of authentication

What the authenticators of `internal/auth` and the user commands call: the
clock, the random source, the user store, the password hasher, Redis for the
state of logins in flight, the identity provider and the audit sink.  A command
may fail without having been executed, or be executed and have its reply lost;
the hasher and the provider answer anything.
-/

namespace SecurePastebin.Auth

open Text Uuid Base64 Process
open SecurePastebin.Store

/-! ## Audit events -/

inductive EventKind where
  | loginSuccess
  | loginFailure
  | logout
  | oidcLogin
  | oidcDenied
  | rateLimited
  | userCreated
  | userDisabled
  deriving DecidableEq, Repr

inductive Outcome where
  | success
  | failure
  | denied
  deriving DecidableEq, Repr

/-- A value in an event's details. -/
inductive Detail where
  | text (value : Bytes)
  | bool (value : Bool)
  deriving DecidableEq

/-- Address and user agent, which the sink fills in from the request, are left
out; these events concern no paste. -/
structure Event where
  atTime : ℤ
  kind : EventKind
  actorId : Option UUID
  outcome : Outcome
  details : List (String × Detail)
  deriving DecidableEq

/-! ## The identity provider -/

/-- A failed request to the provider: the context was cancelled, its deadline
passed, or anything else. -/
inductive ProviderErr where
  | canceled
  | deadlineExceeded
  | other (text : String)
  deriving DecidableEq

/-- A verified ID token, with its claims as the JSON they came in. -/
structure IDToken where
  issuer : Bytes
  subject : Bytes
  nonce : Bytes
  claims : Bytes
  deriving DecidableEq

/-! ## Calls -/

inductive Call where
  | now
  | randomToken
  | newUUID
  | usersCreate (u : User)
  | usersGetByID (id : UUID)
  | usersGetByUsername (username : Bytes)
  | usersUpsertOIDC (u : User)
  | usersSetPasswordHash (id : UUID) (passwordHash : Bytes)
  | usersSetDisabled (id : UUID) (disabled : Bool)
  | usersTouchLogin (id : UUID) (time : ℤ)
  | hasherHash (password : Bytes)
  | hasherVerify (phc password : Bytes)
  | statesSet (key value : Bytes) (ttl : ℤ)
  | statesGetDel (key : Bytes)
  | exchange (code verifier : Bytes)
  | verifyIDToken (rawIDToken : Bytes)
  | auditRecord (event : Event)
  deriving DecidableEq

/-- What a call returns; `GETDEL` of an absent key is no value, and a token
response may have no ID token. -/
@[reducible]
def Call.Reply : Call → Type
  | .now => ℤ
  | .randomToken => Bytes
  | .newUUID => UUID
  | .usersCreate .. => Except Err Unit
  | .usersGetByID .. => Except Err User
  | .usersGetByUsername .. => Except Err User
  | .usersUpsertOIDC .. => Except Err User
  | .usersSetPasswordHash .. => Except Err Unit
  | .usersSetDisabled .. => Except Err Unit
  | .usersTouchLogin .. => Except Err Unit
  | .hasherHash .. => Except Err Bytes
  | .hasherVerify .. => Except Err Bool
  | .statesSet .. => Except Err Unit
  | .statesGetDel .. => Except Err (Option Bytes)
  | .exchange .. => Except ProviderErr (Option Bytes)
  | .verifyIDToken .. => Except ProviderErr IDToken
  | .auditRecord .. => Unit

/-- Programs over the ports. -/
abbrev Port := Proc Call Call.Reply

/-- One answered call. -/
abbrev Step := Entry Call Call.Reply

namespace Port

abbrev now : Port ℤ := .perform Call.now

/-- `RandomToken(32)`. -/
abbrev randomToken : Port Bytes := .perform Call.randomToken

abbrev newUUID : Port UUID := .perform Call.newUUID

abbrev usersCreate (u : User) : Port (Except Err Unit) := .perform (Call.usersCreate u)

abbrev usersGetByID (id : UUID) : Port (Except Err User) := .perform (Call.usersGetByID id)

abbrev usersGetByUsername (username : Bytes) : Port (Except Err User) :=
  .perform (Call.usersGetByUsername username)

abbrev usersUpsertOIDC (u : User) : Port (Except Err User) := .perform (Call.usersUpsertOIDC u)

abbrev usersSetPasswordHash (id : UUID) (passwordHash : Bytes) : Port (Except Err Unit) :=
  .perform (Call.usersSetPasswordHash id passwordHash)

abbrev usersSetDisabled (id : UUID) (disabled : Bool) : Port (Except Err Unit) :=
  .perform (Call.usersSetDisabled id disabled)

abbrev usersTouchLogin (id : UUID) (time : ℤ) : Port (Except Err Unit) :=
  .perform (Call.usersTouchLogin id time)

abbrev hasherHash (password : Bytes) : Port (Except Err Bytes) :=
  .perform (Call.hasherHash password)

abbrev hasherVerify (phc password : Bytes) : Port (Except Err Bool) :=
  .perform (Call.hasherVerify phc password)

abbrev statesSet (key value : Bytes) (ttl : ℤ) : Port (Except Err Unit) :=
  .perform (Call.statesSet key value ttl)

abbrev statesGetDel (key : Bytes) : Port (Except Err (Option Bytes)) :=
  .perform (Call.statesGetDel key)

abbrev exchange (code verifier : Bytes) : Port (Except ProviderErr (Option Bytes)) :=
  .perform (Call.exchange code verifier)

abbrev verifyIDToken (rawIDToken : Bytes) : Port (Except ProviderErr IDToken) :=
  .perform (Call.verifyIDToken rawIDToken)

abbrev auditRecord (event : Event) : Port Unit := .perform (Call.auditRecord event)

end Port

/-- The calls on the user store. -/
def Call.accessesUsers : Call → Bool
  | .usersCreate .. | .usersGetByID .. | .usersGetByUsername .. | .usersUpsertOIDC ..
  | .usersSetPasswordHash .. | .usersSetDisabled .. | .usersTouchLogin .. => true
  | _ => false

/-- The requests to the provider's token endpoint. -/
def Call.isExchange : Call → Bool
  | .exchange .. => true
  | _ => false

/-! ## The stores -/

/-- The application's clock and the one Redis expires its keys by need not
agree. -/
structure Store where
  clock : ℤ
  redisClock : ℤ
  users : Users
  states : Keyspace Bytes

/-- How a call turns out. -/
inductive Choice where
  | ok
  | fail (text : String)
  | lost (text : String)
  | token (raw : Bytes)
  | uuid (id : UUID)
  | hashed (outcome : Except Err Bytes)
  | checked (outcome : Except Err Bool)
  | exchanged (outcome : Except ProviderErr (Option Bytes))
  | identified (outcome : Except ProviderErr IDToken)
  deriving DecidableEq

/-- Whether the call is executed at all. -/
def Choice.executes : Choice → Bool
  | .fail _ => false
  | _ => true

/-- What a write to the user store leaves. -/
def written (users : Users) : Except Err Users → Users
  | .ok users' => users'
  | .error _ => users

/-- What an executed call leaves in the stores. -/
def effect (store : Store) : Call → Store
  | .usersCreate u => { store with users := written store.users (store.users.create u) }
  | .usersUpsertOIDC u =>
      { store with
        users := written store.users ((store.users.upsertOIDC store.clock u).map Prod.snd) }
  | .usersSetPasswordHash id passwordHash =>
      { store with users := written store.users (store.users.setPasswordHash id passwordHash) }
  | .usersSetDisabled id disabled => { store with users := store.users.setDisabled id disabled }
  | .usersTouchLogin id time => { store with users := store.users.touchLogin id time }
  | .statesSet key value ttl =>
      { store with states := store.states.set key ⟨value, Keyspace.expiry store.redisClock ttl⟩ }
  | .statesGetDel key => { store with states := store.states.del key }
  | _ => store

/-- What an executed call replies; what is not decided by the stores comes with
the choice. -/
def answer (store : Store) : (request : Call) → Option request.Reply
  | .now => some store.clock
  | .randomToken => none
  | .newUUID => none
  | .usersCreate u => some ((store.users.create u).map fun _ => ())
  | .usersGetByID id => some (store.users.getByID id)
  | .usersGetByUsername username => some (store.users.getByUsername username)
  | .usersUpsertOIDC u => some ((store.users.upsertOIDC store.clock u).map Prod.fst)
  | .usersSetPasswordHash id passwordHash =>
      some ((store.users.setPasswordHash id passwordHash).map fun _ => ())
  | .usersSetDisabled .. => some (.ok ())
  | .usersTouchLogin .. => some (.ok ())
  | .hasherHash _ => none
  | .hasherVerify .. => none
  | .statesSet .. => some (.ok ())
  | .statesGetDel key =>
      some (.ok ((store.states.find store.redisClock key).map (·.value)))
  | .exchange .. => none
  | .verifyIDToken _ => none
  | .auditRecord _ => some ()

/-- The reply of a command that failed or whose reply was lost. -/
def failure (text : String) : (request : Call) → Option request.Reply
  | .usersCreate _ => some (.error (.wrap "postgres: create user" (.message text)))
  | .usersGetByID _ => some (.error (.message text))
  | .usersGetByUsername _ => some (.error (.message text))
  | .usersUpsertOIDC _ => some (.error (.wrap "postgres: upsert OIDC user" (.message text)))
  | .usersSetPasswordHash .. => some (.error (.wrap "postgres: set password hash" (.message text)))
  | .usersSetDisabled .. => some (.error (.wrap "postgres: set user disabled" (.message text)))
  | .usersTouchLogin .. => some (.error (.wrap "postgres: touch user login" (.message text)))
  | .statesSet .. => some (.error (.message text))
  | .statesGetDel _ => some (.error (.message text))
  | .auditRecord _ => some ()
  | .now | .randomToken | .newUUID | .hasherHash _ | .hasherVerify .. | .exchange ..
  | .verifyIDToken _ => none

/-- The length of a random token, in bytes. -/
def tokenBytes : ℕ := 32

def exec (store : Store) (request : Call) (choice : Choice) : Option (request.Reply × Store) :=
  match choice, request with
  | .ok, request => (answer store request).map (·, effect store request)
  | .fail text, request => (failure text request).map (·, store)
  | .lost text, request => (failure text request).map (·, effect store request)
  | .token raw, .randomToken =>
      if raw.length = tokenBytes then some (encode rawURLEncoding raw, store) else none
  | .uuid id, .newUUID => some (id, store)
  | .hashed outcome, .hasherHash _ => some (outcome, store)
  | .checked outcome, .hasherVerify .. => some (outcome, store)
  | .exchanged outcome, .exchange .. => some (outcome, store)
  | .identified outcome, .verifyIDToken _ => some (outcome, store)
  | _, _ => none

/-! ## What a step does -/

variable {store next : Store} {request : Call} {reply : request.Reply} {choice : Choice}

theorem exec_store (hexec : exec store request choice = some (reply, next)) :
    next = if choice.executes then effect store request else store := by
  cases choice with
  | ok | fail text | lost text =>
      obtain ⟨_, -, heq⟩ := Option.map_eq_some_iff.mp hexec
      exact (Prod.ext_iff.mp heq).2.symm
  | token raw =>
      cases request <;> simp only [exec, reduceCtorEq] at hexec
      split at hexec
      · cases hexec
        rfl
      · cases hexec
  | uuid id | hashed outcome | checked outcome | exchanged outcome | identified outcome =>
      cases request <;> simp only [exec, reduceCtorEq] at hexec
      cases hexec
      rfl

theorem exec_clock (hexec : exec store request choice = some (reply, next)) :
    next.clock = store.clock ∧ next.redisClock = store.redisClock := by
  rw [exec_store hexec]
  split
  · cases request <;> exact ⟨rfl, rfl⟩
  · exact ⟨rfl, rfl⟩

theorem token_of_exec {token : Bytes} (hexec : exec store .randomToken choice = some (token, next)) :
    ∃ raw, raw.length = tokenBytes ∧ token = encode rawURLEncoding raw := by
  cases choice <;> simp only [exec, answer, failure, Option.map_none, reduceCtorEq] at hexec
  split at hexec
  · rename_i hlength
    cases hexec
    exact ⟨_, hlength, rfl⟩
  · cases hexec

/-- A state that is handed out was there to be taken, and is so no longer. -/
theorem live_of_taken {key record : Bytes}
    (hexec : exec store (.statesGetDel key) choice = some (.ok (some record), next)) :
    ∃ entry, store.states.find store.redisClock key = some entry ∧ entry.value = record ∧
      next.states = store.states.del key := by
  cases choice with
  | ok =>
      simp only [exec, answer, Option.map_some, Option.some.injEq, Prod.mk.injEq, Except.ok.injEq,
        Option.map_eq_some_iff] at hexec
      obtain ⟨⟨entry, hentry, hvalue⟩, rfl⟩ := hexec
      exact ⟨entry, hentry, hvalue, rfl⟩
  | fail text | lost text => simp [exec, failure] at hexec
  | _ => simp [exec] at hexec

theorem executes_of_taken {key record : Bytes}
    (hexec : exec store (.statesGetDel key) choice = some (.ok (some record), next)) :
    choice.executes = true := by
  cases choice with
  | fail text => simp [exec, failure] at hexec
  | _ => rfl

theorem taken_of_exec {key record : Bytes}
    (hexec : exec store (.statesGetDel key) choice = some (.ok (some record), next)) :
    (∃ entry, store.states key = some entry ∧ entry.value = record) ∧
      next.states = store.states.del key := by
  obtain ⟨entry, hentry, hvalue, hstates⟩ := live_of_taken hexec
  exact ⟨⟨entry, (Keyspace.find_eq_some_iff.mp hentry).1, hvalue⟩, hstates⟩

/-- Only the two commands on login states change one. -/
theorem states_of_exec (hexec : exec store request choice = some (reply, next)) :
    next.states = store.states ∨
      choice.executes = true ∧
        ((∃ key value ttl, request = .statesSet key value ttl ∧
            next.states = store.states.set key ⟨value, Keyspace.expiry store.redisClock ttl⟩) ∨
          ∃ key, request = .statesGetDel key ∧ next.states = store.states.del key) := by
  have hstore := exec_store hexec
  split at hstore
  · rename_i hexecutes
    subst hstore
    cases request with
    | statesSet key value ttl => exact .inr ⟨hexecutes, .inl ⟨key, value, ttl, rfl, rfl⟩⟩
    | statesGetDel key => exact .inr ⟨hexecutes, .inr ⟨key, rfl, rfl⟩⟩
    | _ => exact .inl rfl
  · exact .inl (by rw [hstore])

end SecurePastebin.Auth
