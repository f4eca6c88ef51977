import SecurePastebin.System.Grammar
import SecurePastebin.Web.Router

/-!
# The program points of a request

What a request has been told when it makes a call or answers: by the session
store and the user store while its session is resolved, by the rate limiter
before a handler goes on, and by the authenticators before a session is started.
-/

namespace SecurePastebin.Web

open Text Uuid Process

variable {srv : Server} {r : Request} {info : Option SessionInfo} {trace : List Step}

/-! ## Resolving the session -/

/-- The lookup of the presented session has given `sess`. -/
def Resolved (r : Request) (front : List Step) (sess : Auth.Session) : Prop :=
  ∃ id sub, r.cookie = some id ∧ front = sub.map sessionCalls.entry ∧
    (Session.get id).Reaches sub (.inr (.ok sess))

/-- The user lookup has given no user that may have a session. -/
def Unwelcome (reply : Except Auth.Err Auth.User) : Prop := ∀ u, reply = .ok u → u.disabled = true

inductive LoadPoint (srv : Server) (r : Request) : List Step → Call ⊕ Option SessionInfo → Prop
  | anonymous : LoadPoint srv r [] (.inr none)
  | getting {id : Bytes} {sub : List Session.Step} {call : Session.Call} (hcookie : r.cookie = some id)
      (hget : (Session.get id).Reaches sub (.inl call)) :
      LoadPoint srv r (sub.map sessionCalls.entry) (.inl (.session call))
  | unresolved {id : Bytes} {sub : List Session.Step} {err : Auth.Err}
      (hget : (Session.get id).Reaches sub (.inr (.error err))) :
      LoadPoint srv r (sub.map sessionCalls.entry) (.inr none)
  | lookup {front : List Step} {sess : Auth.Session} (hresolved : Resolved r front sess) :
      LoadPoint srv r front (.inl (.auth (.usersGetByID sess.userId)))
  | dropping {front : List Step} {sess : Auth.Session} {reply : Except Auth.Err Auth.User}
      {sub : List Session.Step} {call : Session.Call} (hresolved : Resolved r front sess)
      (hunwelcome : Unwelcome reply) (hdelete : (Session.delete sess.id).Reaches sub (.inl call)) :
      LoadPoint srv r
        (front ++ ⟨.auth (.usersGetByID sess.userId), reply⟩ :: sub.map sessionCalls.entry)
        (.inl (.session call))
  | dropped {front : List Step} {sess : Auth.Session} {reply : Except Auth.Err Auth.User}
      (tail : List Step) (hresolved : Resolved r front sess) (hunwelcome : Unwelcome reply) :
      LoadPoint srv r (front ++ ⟨.auth (.usersGetByID sess.userId), reply⟩ :: tail) (.inr none)
  | touching {front : List Step} {sess : Auth.Session} {user : Auth.User}
      {sub : List Session.Step} {call : Session.Call} (hresolved : Resolved r front sess)
      (henabled : user.disabled = false)
      (htouch : (Session.touch sess.id srv.sessionIdleTTL).Reaches sub (.inl call)) :
      LoadPoint srv r
        (front ++ ⟨.auth (.usersGetByID sess.userId), .ok user⟩ :: sub.map sessionCalls.entry)
        (.inl (.session call))
  | accepted {front : List Step} {sess : Auth.Session} {user : Auth.User}
      (tail : List Step) (hresolved : Resolved r front sess) (henabled : user.disabled = false) :
      LoadPoint srv r (front ++ ⟨.auth (.usersGetByID sess.userId), .ok user⟩ :: tail)
        (.inr (some ⟨sess, user⟩))

theorem loadSession_reaches {point : Call ⊕ Option SessionInfo}
    (hreach : (loadSession srv r).Reaches trace point) : LoadPoint srv r trace point := by
  unfold loadSession at hreach
  split at hreach
  · obtain ⟨rfl, rfl⟩ := hreach
    exact .anonymous
  · rename_i id hcookie
    split_ifs at hreach
    · obtain ⟨rfl, rfl⟩ := hreach
      exact .anonymous
    · rcases Proc.reaches_lift_bind _ hreach with ⟨sub, call, rfl, rfl, hget⟩ |
        ⟨sub, tail, outcome, rfl, hget, hrest⟩
      · exact .getting hcookie hget
      · cases outcome with
        | error err =>
            obtain ⟨rfl, rfl⟩ := hrest
            rw [List.append_nil]
            exact .unresolved hget
        | ok sess =>
            have hresolved : Resolved r (sub.map sessionCalls.entry) sess :=
              ⟨id, sub, hcookie, rfl, hget⟩
            simp only [Proc.perform_bind] at hrest
            rcases hrest with ⟨rfl, rfl⟩ | ⟨reply, tail, rfl, hrest⟩
            · rw [List.append_nil]
              exact .lookup hresolved
            · cases reply with
              | error err =>
                  have hunwelcome : Unwelcome (.error err) := nofun
                  rcases Proc.reaches_lift_bind _ hrest with ⟨sub', call, rfl, rfl, hdelete⟩ |
                    ⟨sub', tail', _, rfl, -, -, rfl⟩
                  · exact .dropping hresolved hunwelcome hdelete
                  · exact .dropped _ hresolved hunwelcome
              | ok user =>
                  dsimp only at hrest
                  split_ifs at hrest with hdisabled
                  · have hunwelcome : Unwelcome (.ok user) := by
                      rintro u ⟨⟩
                      exact hdisabled
                    rcases Proc.reaches_lift_bind _ hrest with ⟨sub', call, rfl, rfl, hdelete⟩ |
                      ⟨sub', tail', _, rfl, -, -, rfl⟩
                    · exact .dropping hresolved hunwelcome hdelete
                    · exact .dropped _ hresolved hunwelcome
                  · rcases Proc.reaches_lift_bind _ hrest with ⟨sub', call, rfl, rfl, htouch⟩ |
                      ⟨sub', tail', _, rfl, -, -, rfl⟩
                    · exact .touching hresolved (by simpa using hdisabled) htouch
                    · exact .accepted _ hresolved (by simpa using hdisabled)

/-- Resolving the session reads a row by its identifier only. -/
theorem loadSession_calls : (loadSession srv r).CallsOnly fun request =>
    (∃ call, request = .session call) ∨ ∃ id, request = .auth (.usersGetByID id) := by
  refine Proc.callsOnly_of_reaches fun trace request hreach => ?_
  generalize hpoint : (Sum.inl request : Call ⊕ Option SessionInfo) = point at hreach
  cases loadSession_reaches hreach <;> cases hpoint
  case lookup => exact .inr ⟨_, rfl⟩
  all_goals exact .inl ⟨_, rfl⟩

/-- A request first resolves its session, and then passes the CSRF check or not. -/
theorem serve_reaches {point : Call ⊕ Response} (hreach : (serve srv r).Reaches trace point) :
    (∃ request, (loadSession srv r).Reaches trace (.inl request) ∧ point = .inl request) ∨
      ∃ info front tail, trace = front ++ tail ∧
        (loadSession srv r).Reaches front (.inr info) ∧
        ((∃ refusal, csrf r info = some refusal ∧ tail = [] ∧ point = .inr refusal) ∨
          csrf r info = none ∧ (dispatch srv r info).Reaches tail point) := by
  unfold serve at hreach
  rw [Proc.reaches_bind] at hreach
  rcases hreach with hload | ⟨info, front, tail, rfl, hload, hrest⟩
  · exact .inl hload
  · refine .inr ⟨info, front, tail, rfl, hload, ?_⟩
    split at hrest
    · rename_i refusal hrefusal
      exact .inl ⟨refusal, hrefusal, hrest.1, hrest.2⟩
    · rename_i hpassed
      exact .inr ⟨hpassed, hrest⟩

theorem csrf_refusal {refusal : Response} (hrefusal : csrf r info = some refusal) :
    refusal.status = 403 ∧ refusal.cookie = none := by
  unfold csrf at hrefusal
  split_ifs at hrefusal
  split at hrefusal
  · cases hrefusal
  · split_ifs at hrefusal
    cases hrefusal
    exact ⟨rfl, rfl⟩

/-! ## Refusals -/

/-- The response of a request that was not let in. -/
def Refused (response : Response) : Prop := 400 ≤ response.status ∧ response.cookie = none

private theorem le_status_ite {condition : Prop} [Decidable condition] {Rest : Type}
    {first second : ℕ × Rest} (hfirst : 400 ≤ first.1) (hsecond : 400 ≤ second.1) :
    400 ≤ (if condition then first else second).1 := by
  split
  · exact hfirst
  · exact hsecond

theorem refused_fail (failure : Failure) : Refused (fail failure) := by
  refine ⟨?_, rfl⟩
  change 400 ≤ (mapError failure).1
  unfold mapError
  cases failure.tooLarge? with
  | some sizes => exact (by decide : 400 ≤ 413)
  | none =>
      repeat refine le_status_ite (by decide) ?_
      decide

/-! ## Rate limits -/

/-- The calls of a rate limit: its script, and the audit of a refusal. -/
def isLimiting : Call → Prop
  | .limit _ | .auth .now | .auth (.auditRecord _) => True
  | _ => False

theorem limit_reaches {scope : Ratelimit.Scope} {key : Bytes} {point : Call ⊕ Option Response}
    (hreach : (limit srv info scope key).Reaches trace point) :
    (∃ request, point = .inl request ∧ isLimiting request) ∨
      (∃ refusal, point = .inr (some refusal) ∧ refusal.status = 429 ∧ refusal.cookie = none) ∨
      point = .inr none ∧ ∃ sub decision, trace = sub.map limitCalls.entry ∧
        (Ratelimit.allow srv.limiter scope key).Reaches sub (.inr decision) ∧
        decision.allowed = true := by
  unfold limit at hreach
  rcases Proc.reaches_lift_bind _ hreach with ⟨sub, call, -, rfl, -⟩ |
    ⟨sub, tail, decision, rfl, hallow, hrest⟩
  · exact .inl ⟨_, rfl, trivial⟩
  · split_ifs at hrest with hallowed
    · obtain ⟨rfl, rfl⟩ := hrest
      exact .inr (.inr ⟨rfl, sub, decision, by rw [List.append_nil], hallow, hallowed⟩)
    · simp only [Proc.perform_bind] at hrest
      rcases hrest with ⟨-, rfl⟩ | ⟨time, tail, rfl, hrest⟩
      · exact .inl ⟨_, rfl, trivial⟩
      · rcases hrest with ⟨-, rfl⟩ | ⟨done, tail, rfl, -, rfl⟩
        · exact .inl ⟨_, rfl, trivial⟩
        · exact .inr (.inl ⟨_, rfl, rfl, rfl⟩)

/-- The calls by which each of the checks was passed. -/
def Passed (srv : Server) : List (Ratelimit.Scope × Bytes) → List Step → Prop
  | [], front => front = []
  | (scope, key) :: rest, front =>
      ∃ sub decision later, front = sub.map limitCalls.entry ++ later ∧
        (Ratelimit.allow srv.limiter scope key).Reaches sub (.inr decision) ∧
        decision.allowed = true ∧ Passed srv rest later

theorem limited_reaches {checks : List (Ratelimit.Scope × Bytes)} {next : Port Response}
    {point : Call ⊕ Response} (hreach : (limited srv info checks next).Reaches trace point) :
    (∃ request, point = .inl request ∧ isLimiting request) ∨
      (∃ refusal, point = .inr refusal ∧ refusal.status = 429 ∧ refusal.cookie = none) ∨
      ∃ front tail, trace = front ++ tail ∧ Passed srv checks front ∧ next.Reaches tail point := by
  induction checks generalizing trace with
  | nil => exact .inr (.inr ⟨[], trace, rfl, rfl, hreach⟩)
  | cons check checks ih =>
      unfold limited at hreach
      rw [Proc.reaches_bind] at hreach
      rcases hreach with ⟨request, hlimit, rfl⟩ | ⟨outcome, front, tail, rfl, hlimit, hrest⟩
      · rcases limit_reaches hlimit with ⟨found, hpoint, hfound⟩ | ⟨refusal, ⟨⟩, -⟩ | ⟨⟨⟩, -⟩
        cases hpoint
        exact .inl ⟨_, rfl, hfound⟩
      · rcases limit_reaches hlimit with ⟨found, ⟨⟩, -⟩ | ⟨refusal, hpoint, hrefusal⟩ |
          ⟨hpoint, sub, decision, rfl, hallow, hallowed⟩
        · cases hpoint
          exact .inr (.inl ⟨refusal, hrest.2, hrefusal⟩)
        · cases hpoint
          rcases ih hrest with hcall | hrefusal | ⟨front, tail, rfl, hpassed, hnext⟩
          · exact .inl hcall
          · exact .inr (.inl hrefusal)
          · exact .inr (.inr ⟨_, tail, by rw [List.append_assoc],
              ⟨sub, decision, front, rfl, hallow, hallowed, hpassed⟩, hnext⟩)

/-! ## Starting a session -/

/-- The presented identifier, or the empty one. -/
abbrev Request.presented (r : Request) : Bytes := r.cookie.getD []

/-- The presented session, if any, was deleted, whatever came of it. -/
def Replaced (r : Request) (front : List Step) : Prop :=
  (r.presented = [] ∧ front = []) ∨
    r.presented ≠ [] ∧
      ∃ reply, front = [⟨.session (.del (Session.sessKey r.presented)), reply⟩]

theorem delete_reaches {id : Bytes} {sub : List Session.Step}
    {point : Session.Call ⊕ Except Auth.Err Unit} (hreach : (Session.delete id).Reaches sub point) :
    (sub = [] ∧ point = .inl (.del (Session.sessKey id))) ∨
      ∃ reply outcome, sub = [⟨.del (Session.sessKey id), reply⟩] ∧ point = .inr outcome := by
  simp only [Session.delete, Proc.perform_bind] at hreach
  rcases hreach with hpending | ⟨reply, tail, rfl, hreach⟩
  · exact .inl hpending
  · cases reply <;> exact .inr ⟨_, _, by rw [hreach.1], hreach.2⟩

theorem startSession_reaches {u : Auth.User} {point : Call ⊕ Except Auth.Err Auth.Session}
    (hreach : (startSession srv r u).Reaches trace point) :
    (r.presented ≠ [] ∧ trace = [] ∧
        point = .inl (.session (.del (Session.sessKey r.presented)))) ∨
      ∃ front sub, Replaced r front ∧ trace = front ++ sub.map sessionCalls.entry ∧
        ((∃ call, point = .inl (.session call) ∧
            (Session.create u.id srv.sessionIdleTTL srv.sessionAbsoluteTTL).Reaches sub
              (.inl call)) ∨
          ∃ outcome, point = .inr outcome ∧
            (Session.create u.id srv.sessionIdleTTL srv.sessionAbsoluteTTL).Reaches sub
              (.inr outcome)) := by
  have hcreate : ∀ {trace : List Step},
      (Port.ofSession (Session.create u.id srv.sessionIdleTTL srv.sessionAbsoluteTTL)).Reaches trace
        point → ∃ sub, trace = sub.map sessionCalls.entry ∧
        ((∃ call, point = .inl (.session call) ∧
            (Session.create u.id srv.sessionIdleTTL srv.sessionAbsoluteTTL).Reaches sub
              (.inl call)) ∨
          ∃ outcome, point = .inr outcome ∧
            (Session.create u.id srv.sessionIdleTTL srv.sessionAbsoluteTTL).Reaches sub
              (.inr outcome)) := by
    intro trace hreach
    cases point with
    | inl request =>
        obtain ⟨sub, call, rfl, rfl, hsub⟩ := (Proc.reaches_lift_call ..).mp hreach
        exact ⟨sub, rfl, .inl ⟨call, rfl, hsub⟩⟩
    | inr outcome =>
        obtain ⟨sub, rfl, hsub⟩ := (Proc.reaches_lift_result ..).mp hreach
        exact ⟨sub, rfl, .inr ⟨outcome, rfl, hsub⟩⟩
  unfold startSession at hreach
  split_ifs at hreach with hpresented
  · rcases Proc.reaches_lift_bind _ hreach with ⟨sub, call, rfl, rfl, hdelete⟩ |
      ⟨sub, tail, outcome, rfl, hdelete, hrest⟩
    · rcases delete_reaches hdelete with ⟨rfl, hpoint⟩ | ⟨reply, outcome, -, ⟨⟩⟩
      cases hpoint
      exact .inl ⟨hpresented, rfl, rfl⟩
    · rcases delete_reaches hdelete with ⟨-, ⟨⟩⟩ | ⟨reply, _, rfl, -⟩
      obtain ⟨sub, rfl, hsub⟩ := hcreate hrest
      exact .inr ⟨_, sub, .inr ⟨hpresented, reply, rfl⟩, rfl, hsub⟩
  · obtain ⟨sub, rfl, hsub⟩ := hcreate hreach
    exact .inr ⟨[], sub, .inl ⟨not_not.mp hpresented, rfl⟩, rfl, hsub⟩

/-- A session is started after all, or the request is refused. -/
theorem startSession_result {u : Auth.User} {next : Except Auth.Err Auth.Session → Port Response}
    {success : Auth.Session → Response} {response : Response}
    (herror : ∀ err, next (.error err) = .ret (fail (.auth err)))
    (hok : ∀ sess, next (.ok sess) = .ret (success sess))
    (hreach : (startSession srv r u >>= next).Reaches trace (.inr response)) :
    Refused response ∨ ∃ sess, (startSession srv r u).Reaches trace (.inr (.ok sess)) ∧
      response = success sess := by
  rw [Proc.reaches_bind] at hreach
  rcases hreach with ⟨_, -, ⟨⟩⟩ | ⟨outcome, front, tail, rfl, hstart, hrest⟩
  cases outcome with
  | error err =>
      rw [herror] at hrest
      cases hrest.2
      exact .inl (refused_fail _)
  | ok sess =>
      rw [hok] at hrest
      obtain ⟨rfl, hpoint⟩ := hrest
      cases hpoint
      rw [List.append_nil]
      exact .inr ⟨sess, hstart, rfl⟩

theorem login_result {response : Response}
    (hreach : (login srv r info).Reaches trace (.inr response)) :
    Refused response ∨ ∃ checks username password front sub tail u sess,
      trace = front ++ sub.map authCalls.entry ++ tail ∧ Passed srv checks front ∧
      (Auth.authenticate srv.dummyPHC username password).Reaches sub (.inr (.ok u)) ∧
      (startSession srv r u).Reaches tail (.inr (.ok sess)) ∧
      response = withSession srv sess (writeJSON 200 (sessionJSON sess u)) := by
  unfold login at hreach
  split_ifs at hreach
  · cases hreach.2
    exact .inl ⟨by decide, rfl⟩
  split at hreach
  · cases hreach.2
    exact .inl ⟨by decide, rfl⟩
  split_ifs at hreach
  · cases hreach.2
    exact .inl ⟨by decide, rfl⟩
  rcases limited_reaches hreach with ⟨_, ⟨⟩, -⟩ | ⟨refusal, hpoint, hstatus, hcookie⟩ |
    ⟨front, tail, rfl, hpassed, hnext⟩
  · cases hpoint
    exact .inl ⟨by rw [hstatus]; decide, hcookie⟩
  · rcases Proc.reaches_lift_bind _ hnext with ⟨_, _, -, ⟨⟩, -⟩ |
      ⟨sub, rest, outcome, rfl, hauth, hrest⟩
    cases outcome with
    | error err =>
        cases hrest.2
        exact .inl (refused_fail _)
    | ok u =>
        refine (startSession_result (fun _ => rfl) (fun _ => rfl) hrest).imp_right ?_
        rintro ⟨sess, hstart, rfl⟩
        exact ⟨_, _, _, front, sub, rest, u, sess, by rw [List.append_assoc], hpassed, hauth,
          hstart, rfl⟩

theorem oidcCallback_result {response : Response}
    (hreach : (oidcCallback srv r).Reaches trace (.inr response)) :
    Refused response ∨ ∃ flow sub tail u sess, trace = sub.map authCalls.entry ++ tail ∧
      (Auth.complete flow (r.query "state") (r.query "code")).Reaches sub (.inr (.ok u)) ∧
      (startSession srv r u).Reaches tail (.inr (.ok sess)) ∧
      response = withSession srv sess (redirect 302 (ascii "/new")) := by
  unfold oidcCallback at hreach
  split at hreach
  · cases hreach.2
    exact .inl ⟨by decide, rfl⟩
  dsimp only at hreach
  split_ifs at hreach
  · cases hreach.2
    exact .inl ⟨by decide, rfl⟩
  rcases Proc.reaches_lift_bind _ hreach with ⟨_, _, -, ⟨⟩, -⟩ |
    ⟨sub, rest, outcome, rfl, hcomplete, hrest⟩
  cases outcome with
  | error err =>
      dsimp only at hrest
      split_ifs at hrest
      · cases hrest.2
        exact .inl (refused_fail _)
      · cases hrest.2
        exact .inl ⟨by decide, rfl⟩
  | ok u =>
      refine (startSession_result (fun _ => rfl) (fun _ => rfl) hrest).imp_right ?_
      rintro ⟨sess, hstart, rfl⟩
      exact ⟨_, sub, rest, u, sess, rfl, hcomplete, hstart, rfl⟩

end SecurePastebin.Web
