import SecurePastebin.Web.Points

/-!
# Which endpoint makes which call

Which requests use the session store and the user store after their session is
resolved, which can open a body with a password, and how the rate limiter is
called.
-/

namespace SecurePastebin.Web

open Text Uuid Process

variable {srv : Server} {r : Request} {info : Option SessionInfo} {trace : List Step}

/-- The endpoints that end with a new session. -/
def Endpoint.startsSession (endpoint : Endpoint) : Prop :=
  endpoint = .login ∨ endpoint = .oidcCallback

/-- The endpoints that use the paste service. -/
def Endpoint.servesPastes : Endpoint → Prop
  | .createPaste | .getPaste _ | .deletePaste _ | .unlockPaste _ | .rawPaste _ | .verifyPaste _
  | .listMine | .adminList => True
  | _ => False

/-- What an endpoint may call of the session store, the user store, the paste
service and its envelope. -/
def Endpoint.mayCall (endpoint : Endpoint) : Call → Prop
  | .session _ => endpoint = .logout ∨ endpoint.startsSession
  | .paste (.envelopeOpen _ _ _ password) =>
      endpoint.servesPastes ∧ (password = [] ∨ ∃ id, endpoint = .unlockPaste id)
  | .paste _ => endpoint.servesPastes
  | .auth (.usersGetByUsername _) | .auth (.usersTouchLogin ..) => endpoint = .login
  | .auth (.usersUpsertOIDC _) => endpoint = .oidcCallback
  | .auth (.usersGetByID _) | .auth (.usersCreate _) | .auth (.usersSetPasswordHash ..)
  | .auth (.usersSetDisabled ..) => False
  | _ => True

variable {endpoint : Endpoint} {id : UUID} {allowed : Call → Prop} {si : SessionInfo}

theorem servesPastes_of_mayCall {call : Paste.Call}
    (hmay : endpoint.mayCall (.paste call)) : endpoint.servesPastes := by
  cases call with
  | envelopeOpen => exact hmay.1
  | _ => exact hmay

/-- The limiter's script is called as `Allow` does, and passwords of users are
compared only if that is to be done. -/
def Metered (limiter : Ratelimit.Limiter) (verifies : Prop) : Call → Prop
  | .limit request =>
      ∃ scope key result, Ratelimit.allow limiter scope key = result <$> Proc.perform request
  | .auth (.hasherVerify ..) => verifies
  | _ => True

/-- What an endpoint calls. -/
def Endpoint.calls (endpoint : Endpoint) (limiter : Ratelimit.Limiter) (request : Call) : Prop :=
  endpoint.mayCall request ∧ Metered limiter (endpoint = .login) request

theorem allow_calls {limiter : Ratelimit.Limiter} (scope : Ratelimit.Scope)
    (key : Bytes) : (Port.ofLimiter (Ratelimit.allow limiter scope key)).CallsOnly
      (endpoint.calls limiter) := by
  refine Proc.callsOnly_lift limitCalls (Proc.callsOnly_of_reaches fun trace request hreach => ?_)
  refine ⟨trivial, scope, key, ?_⟩
  unfold Ratelimit.allow at hreach ⊢
  split at hreach
  · cases hreach.2
  · split_ifs at hreach ⊢
    · cases hreach.2
    · cases hreach.2
    · cases hreach.2
    · rw [Proc.reaches_map_call] at hreach
      rcases hreach with ⟨-, hpoint⟩ | ⟨answer, tail, -, -, ⟨⟩⟩
      cases hpoint
      exact ⟨_, rfl⟩

theorem limited_calls {checks : List (Ratelimit.Scope × Bytes)} {next : Port Response}
    (hnext : next.CallsOnly (endpoint.calls srv.limiter)) :
    (limited srv info checks next).CallsOnly (endpoint.calls srv.limiter) := by
  induction checks with
  | nil => exact hnext
  | cons check checks ih =>
      refine Proc.CallsOnly.bind (Proc.CallsOnly.bind (allow_calls ..) fun decision => ?_)
        fun refusal => ?_
      · split_ifs
        · trivial
        · exact ⟨⟨trivial, trivial⟩, fun _ => ⟨⟨trivial, trivial⟩, fun _ => trivial⟩⟩
      · cases refusal with
        | none => exact ih
        | some response => trivial

/-- A handler that answers after one use of the paste service. -/
theorem ofPaste_bind_calls {Value : Type} {program : Paste.Port Value}
    {next : Value → Port Response}
    (hprogram : program.CallsOnly fun call => endpoint.mayCall (.paste call))
    (hnext : ∀ value, (next value).CallsOnly (endpoint.calls srv.limiter)) :
    (Port.ofPaste program >>= next).CallsOnly (endpoint.calls srv.limiter) :=
  (Proc.callsOnly_lift pasteCalls (hprogram.mono fun _ hcall => ⟨hcall, trivial⟩)).bind hnext

/-- `Read` opens the body with the password it is given. -/
theorem read_calls {d : Paste.Deps} {p : Option Paste.Principal} {password : Bytes}
    (hserves : endpoint.servesPastes)
    (hmay : password = [] ∨ ∃ text, endpoint = .unlockPaste text) :
    (Paste.read d p id password).CallsOnly fun call => endpoint.mayCall (.paste call) := by
  refine Proc.callsOnly_of_reaches fun trace call hreach => ?_
  cases call with
  | envelopeOpen id' expiresAt record found =>
      obtain ⟨-, rfl, -⟩ := Paste.read_open d hreach
      exact ⟨hserves, hmay⟩
  | _ => exact hserves

theorem writeList_calls {items : Except Paste.Err (List Paste.PasteMeta)} :
    (writeList srv items).CallsOnly (endpoint.calls srv.limiter) := by
  cases items with
  | error err => trivial
  | ok items => exact ⟨⟨trivial, trivial⟩, fun _ => trivial⟩

/-- The gates before a handler make no calls. -/
theorem requireAuth_calls {next : SessionInfo → Port Response}
    (hnext : ∀ si, (next si).CallsOnly allowed) : (requireAuth info next).CallsOnly allowed := by
  cases info with
  | none => trivial
  | some si => exact hnext si

theorem viewGate_calls {next : Port Response}
    (hnext : next.CallsOnly allowed) : (viewGate srv info next).CallsOnly allowed := by
  unfold viewGate
  split_ifs
  · exact requireAuth_calls fun _ => hnext
  · exact hnext

theorem withPathID_calls {text : Bytes} {next : UUID → Port Response}
    (hnext : ∀ id, (next id).CallsOnly allowed) : (withPathID text next).CallsOnly allowed := by
  unfold withPathID
  split
  · trivial
  · exact hnext _

theorem ofSession_calls {Value : Type} {program : Session.Port Value}
    (hmay : endpoint = .logout ∨ endpoint.startsSession) :
    (Port.ofSession program).CallsOnly (endpoint.calls srv.limiter) :=
  Proc.callsOnly_lift sessionCalls (Proc.callsOnly_of_reaches fun _ _ _ => ⟨hmay, trivial⟩)

theorem startSession_calls {u : Auth.User} (hmay : endpoint.startsSession) :
    (startSession srv r u).CallsOnly (endpoint.calls srv.limiter) := by
  unfold startSession
  split_ifs
  · exact (ofSession_calls (.inr hmay)).bind fun _ => ofSession_calls (.inr hmay)
  · exact ofSession_calls (.inr hmay)

theorem login_calls : (login srv r info).CallsOnly (Endpoint.login.calls srv.limiter) := by
  unfold login
  split_ifs
  · trivial
  split
  · trivial
  split_ifs
  · trivial
  refine limited_calls (Proc.CallsOnly.bind (Proc.callsOnly_lift authCalls
    ((Auth.authenticate_calls _ _ _).mono ?_)) fun outcome => ?_)
  · intro request hrequest
    cases request <;> trivial
  · cases outcome with
    | error err => trivial
    | ok u =>
        refine (startSession_calls (.inl rfl)).bind fun started => ?_
        cases started <;> trivial

theorem oidcCallback_calls :
    (oidcCallback srv r).CallsOnly (Endpoint.oidcCallback.calls srv.limiter) := by
  unfold oidcCallback
  split
  · trivial
  dsimp only
  split_ifs
  · trivial
  refine Proc.CallsOnly.bind (Proc.callsOnly_lift authCalls
    (Auth.complete_calls.mono ?_)) fun outcome => ?_
  · intro request hrequest
    cases request <;> trivial
  · cases outcome with
    | error err =>
        dsimp only
        split_ifs <;> trivial
    | ok u =>
        refine (startSession_calls (.inr rfl)).bind fun started => ?_
        cases started <;> trivial

theorem oidcStart_calls : (oidcStart srv).CallsOnly (Endpoint.oidcStart.calls srv.limiter) := by
  unfold oidcStart
  split
  · trivial
  refine Proc.CallsOnly.bind (Proc.callsOnly_lift authCalls
    (Auth.start_calls.mono ?_)) fun outcome => ?_
  · intro request hrequest
    cases request <;> trivial
  · cases outcome <;> trivial

theorem unlockPaste_calls {text : Bytes} :
    (unlockPaste srv r info id).CallsOnly ((Endpoint.unlockPaste text).calls srv.limiter) := by
  refine limited_calls ?_
  split
  · trivial
  split
  · trivial
  refine ofPaste_bind_calls (read_calls trivial (.inr ⟨text, rfl⟩)) fun outcome => ?_
  cases outcome with
  | error err => trivial
  | ok res =>
      dsimp only
      split
      · trivial
      · split_ifs <;> trivial

theorem rawPaste_calls (hserves : endpoint.servesPastes) :
    (rawPaste srv info id).CallsOnly (endpoint.calls srv.limiter) := by
  refine ofPaste_bind_calls (read_calls hserves (.inl rfl)) fun outcome => ?_
  cases outcome with
  | error err => trivial
  | ok res =>
      dsimp only
      split
      · trivial
      · split_ifs <;> trivial

theorem getPaste_calls (hserves : endpoint.servesPastes) :
    (getPaste srv info id).CallsOnly (endpoint.calls srv.limiter) := by
  refine ofPaste_bind_calls (read_calls hserves (.inl rfl)) fun outcome => ?_
  cases outcome <;> trivial

theorem createPaste_calls (hserves : endpoint.servesPastes) :
    (createPaste srv r info si).CallsOnly (endpoint.calls srv.limiter) := by
  have hcreate : ∀ input, (createFrom srv si input).CallsOnly (endpoint.calls srv.limiter) := by
    intro input
    refine ofPaste_bind_calls ((System.create_makes _ _ _).mono fun call hmakes => ?_)
      fun outcome => ?_
    · cases call <;> first | exact hserves | trivial
    · cases outcome <;> trivial
  unfold createPaste
  split
  · trivial
  split
  · trivial
  refine limited_calls ?_
  split_ifs
  · exact hcreate _
  · refine ⟨⟨trivial, trivial⟩, fun consumed => ?_⟩
    cases consumed with
    | error err => trivial
    | ok _ => exact hcreate _

theorem verifyPaste_calls (hserves : endpoint.servesPastes) :
    (verifyPaste srv r info id).CallsOnly (endpoint.calls srv.limiter) := by
  refine limited_calls ?_
  split
  · trivial
  split_ifs
  · trivial
  refine ofPaste_bind_calls ((System.verify_makes _ _ _).mono fun call hmakes => ?_)
    fun outcome => ?_
  · cases call <;> first | exact hserves | trivial
  · cases outcome <;> trivial

theorem deletePaste_calls (hserves : endpoint.servesPastes) :
    (deletePaste srv info si id).CallsOnly (endpoint.calls srv.limiter) := by
  refine limited_calls (ofPaste_bind_calls ((System.delete_makes _ _ _).mono fun call hmakes => ?_)
    fun outcome => ?_)
  · cases call <;> first | exact hserves | trivial
  · cases outcome <;> trivial

theorem issueChallenge_calls :
    (issueChallenge srv info si).CallsOnly (endpoint.calls srv.limiter) := by
  unfold issueChallenge
  split_ifs
  · trivial
  refine limited_calls ⟨⟨trivial, trivial⟩, fun issued => ?_⟩
  cases issued <;> trivial

theorem verifyChallenge_calls {id : Bytes} :
    (verifyChallenge srv r id si).CallsOnly (endpoint.calls srv.limiter) := by
  unfold verifyChallenge
  split
  · trivial
  split
  · trivial
  refine ⟨⟨trivial, trivial⟩, fun verified => ?_⟩
  cases verified <;> trivial

theorem adminList_calls (hserves : endpoint.servesPastes) :
    (adminList srv r si).CallsOnly (endpoint.calls srv.limiter) := by
  unfold adminList
  dsimp only
  split_ifs
  · trivial
  all_goals
    refine ofPaste_bind_calls ((System.listAll_makes _ _ _).mono fun call hmakes => ?_)
      fun items => writeList_calls
    cases call <;> first | exact hserves | trivial

theorem serveEndpoint_calls (endpoint : Endpoint) :
    (serveEndpoint srv r info endpoint).CallsOnly (endpoint.calls srv.limiter) := by
  cases endpoint with
  | config | unknown => trivial
  | login => exact login_calls
  | logout =>
      refine requireAuth_calls fun si => ?_
      exact (ofSession_calls (.inl rfl)).bind fun _ =>
        ⟨⟨trivial, trivial⟩, fun _ => ⟨⟨trivial, trivial⟩, fun _ => trivial⟩⟩
  | me => exact requireAuth_calls fun _ => trivial
  | oidcStart => exact oidcStart_calls
  | oidcCallback => exact oidcCallback_calls
  | issueChallenge => exact requireAuth_calls fun _ => issueChallenge_calls
  | verifyChallenge id => exact requireAuth_calls fun _ => verifyChallenge_calls
  | createPaste => exact requireAuth_calls fun _ => createPaste_calls trivial
  | getPaste id => exact viewGate_calls (withPathID_calls fun _ => getPaste_calls trivial)
  | deletePaste id =>
      exact requireAuth_calls fun _ => withPathID_calls fun _ => deletePaste_calls trivial
  | unlockPaste id => exact viewGate_calls (withPathID_calls fun _ => unlockPaste_calls)
  | rawPaste id => exact viewGate_calls (withPathID_calls fun _ => rawPaste_calls trivial)
  | verifyPaste id => exact viewGate_calls (withPathID_calls fun _ => verifyPaste_calls trivial)
  | listMine =>
      refine requireAuth_calls fun _ => ?_
      exact ofPaste_bind_calls ⟨trivial, fun _ => trivial⟩ fun items => writeList_calls
  | adminList =>
      refine requireAuth_calls fun si => ?_
      split_ifs
      · exact adminList_calls trivial
      · trivial

theorem readiness_calls {checks : List Bytes} {results : List (Bytes × Json.Value)}
    {healthy : Bool} :
    (readiness checks results healthy).CallsOnly (endpoint.calls srv.limiter) := by
  induction checks generalizing results healthy with
  | nil => trivial
  | cons check checks ih =>
      refine ⟨⟨trivial, trivial⟩, fun outcome => ?_⟩
      cases outcome with
      | none => exact ih
      | some err => exact ih

/-- What is called behind the middlewares, and for which endpoint. -/
theorem dispatch_calls {request : Call}
    (hreach : (dispatch srv r info).Reaches trace (.inl request)) :
    Endpoint.unknown.calls srv.limiter request ∨
      ∃ endpoint, targetOf r = .api endpoint ∧ endpoint.calls srv.limiter request ∧
        (serveEndpoint srv r info endpoint).Reaches trace (.inl request) := by
  unfold dispatch at hreach
  split at hreach
  · cases hreach.2
  · cases hreach.2
  · exact .inl (readiness_calls.reaches hreach)
  · rename_i endpoint htarget
    exact .inr ⟨endpoint, htarget, (serveEndpoint_calls endpoint).reaches hreach, hreach⟩
  · cases hreach.2

/-- Of everything behind the middlewares, what makes a call of one of the kinds
above is the endpoint for it. -/
theorem dispatch_call {request : Call}
    (hreach : (dispatch srv r info).Reaches trace (.inl request)) :
    Endpoint.unknown.mayCall request ∨
      ∃ endpoint, targetOf r = .api endpoint ∧ endpoint.mayCall request ∧
        (serveEndpoint srv r info endpoint).Reaches trace (.inl request) := by
  rcases dispatch_calls hreach with hcalls | ⟨endpoint, htarget, hcalls, hserve⟩
  · exact .inl hcalls.1
  · exact .inr ⟨endpoint, htarget, hcalls.1, hserve⟩

end SecurePastebin.Web
